import InfiltratorFS.Format.Superblock

namespace InfiltratorFS

open Layout

section Records

def locatorBlockA : Nat := 1

def locatorBlockB : Nat := 2047

def locatorMinVolumeBlocks : Nat := 4096

def locatorHeaderBytes : Nat := 80

def locatorSchemaVersion : UInt16 := 1

def locatorMagic : Vector UInt8 8 := #v[0x49, 0x4E, 0x46, 0x53, 0x4C, 0x30, 0x31, 0x39]

structure Locator where
  generation : UInt64
  totalBlocks : UInt64
  checkpoint : Vector UInt64 3
  filesystemUuid : Vector UInt8 16
  deriving DecidableEq, Inhabited

/-- What a locator or a checkpoint says about where the checkpoints are. -/
structure Geometry where
  totalBlocks : UInt64
  checkpoint : Vector UInt64 3
  filesystemUuid : Vector UInt8 16
  deriving DecidableEq

def Locator.geometry (loc : Locator) : Geometry := ⟨loc.totalBlocks, loc.checkpoint, loc.filesystemUuid⟩

def Superblock.geometry (sb : Superblock) : Geometry := ⟨sb.totalBlocks, sb.checkpointBlock, sb.filesystemUuid⟩

/-- The locator record of a checkpoint, as `volume_publish_locator` and the
discovery of the primary fill it in. -/
def Superblock.locator (sb : Superblock) : Locator :=
  ⟨sb.generation, sb.totalBlocks, sb.checkpointBlock, sb.filesystemUuid⟩

def positionsValid (total : UInt64) (checkpoint : Vector UInt64 3) : Bool :=
  (List.finRange 3).all fun i =>
    (checkpoint.get i).toNat < total.toNat && (checkpoint.get i).toNat != locatorBlockA &&
      (checkpoint.get i).toNat != locatorBlockB &&
      (List.finRange 3).all fun j => !decide (i < j) || (checkpoint.get i) != (checkpoint.get j)

def locatorFieldsValid (loc : Locator) : Bool :=
  loc.generation != 0 && locatorMinVolumeBlocks ≤ loc.totalBlocks.toNat && !bytesAreZero loc.filesystemUuid.toList &&
    (loc.checkpoint.get 0) == 0 && positionsValid loc.totalBlocks loc.checkpoint

end Records

section Codec

/-- The fields before the checksum: magic, schema, header size, format and
then the record. -/
def locatorLayout : Layout (Vector UInt8 8 × UInt16 × UInt16 × UInt16 × UInt16 × Locator) :=
  (bytes 8).seq <| uint16.seq <| uint16.seq <| uint16.seq <| uint16.seq <|
    (uint64.seq <| uint64.seq <| (three uint64).seq (bytes 16)).iso
      { toFun := fun loc => (loc.generation, loc.totalBlocks, loc.checkpoint, loc.filesystemUuid)
        invFun := fun ⟨generation, total, checkpoint, uuid⟩ => ⟨generation, total, checkpoint, uuid⟩
        left_inv := fun _ => rfl
        right_inv := fun _ => rfl }

def locatorChecksumOffset : Nat := 72

def locatorHeader (loc : Locator) : Vector UInt8 8 × UInt16 × UInt16 × UInt16 × UInt16 × Locator :=
  (locatorMagic, locatorSchemaVersion, UInt16.ofNat locatorHeaderBytes, formatMajor, locatorFormatMinor, loc)

def locatorBlock (loc : Locator) : Block :=
  let header := locatorLayout.put (locatorHeader loc)
  let tail := List.replicate (blockSize - locatorHeaderBytes) 0
  ⟨header ++ (uint64.put (crc64Ecma (header ++ (List.replicate 8 0 ++ tail))) ++ tail), by
    rw [List.length_append, List.length_append, Layout.length_put, Layout.length_put, List.length_replicate]
    rfl⟩

def locatorEncode (record : Locator) : Except Status Block :=
  if locatorFieldsValid record then .ok (locatorBlock record) else .error .invalidArgument

def locatorDecode (block : Block) (physicalDeviceBlocks : Nat) : Except Status Locator :=
  let (magic, schema, headerSize, major, minor, loc) := locatorLayout.get block.bytes
  if physicalDeviceBlocks < locatorMinVolumeBlocks ∨ magic ≠ locatorMagic ∨ schema ≠ locatorSchemaVersion ∨
      headerSize.toNat ≠ locatorHeaderBytes ∨ major ≠ formatMajor ∨ minor ≠ locatorFormatMinor then
    .error .corrupt
  else if uint64.get (block.bytes.drop locatorChecksumOffset) ≠
        blockCrcWithZeroedChecksum block.bytes locatorChecksumOffset 8 ∨
      bytesAreZero (block.bytes.drop locatorHeaderBytes) = false then
    .error .corrupt
  else if locatorFieldsValid loc = false ∨ physicalDeviceBlocks < loc.totalBlocks.toNat then .error .corrupt
  else .ok loc

theorem locatorBlock_crc (loc : Locator) :
    uint64.get ((locatorBlock loc).bytes.drop locatorChecksumOffset) =
      blockCrcWithZeroedChecksum (locatorBlock loc).bytes locatorChecksumOffset 8 := by
  have hlen : (locatorLayout.put (locatorHeader loc)).length = locatorChecksumOffset := locatorLayout.length_put _
  have hzeroed (crc : UInt64) (tail : List UInt8) :
      zeroRange (locatorLayout.put (locatorHeader loc) ++ (uint64.put crc ++ tail)) locatorChecksumOffset 8 =
      locatorLayout.put (locatorHeader loc) ++ (List.replicate 8 0 ++ tail) := by
    have h := zeroRange_append (locatorLayout.put (locatorHeader loc)) (uint64.put crc) tail
    rwa [hlen, uint64.length_put] at h
  simp only [locatorBlock, blockCrcWithZeroedChecksum]
  rw [List.drop_left' hlen, uint64.get_put, hzeroed]

theorem locatorDecode_block {loc : Locator} {physicalBlocks : Nat} (hvalid : locatorFieldsValid loc = true)
    (hfits : loc.totalBlocks.toNat ≤ physicalBlocks) : locatorDecode (locatorBlock loc) physicalBlocks = .ok loc := by
  have hlen : (locatorLayout.put (locatorHeader loc)).length = locatorChecksumOffset := locatorLayout.length_put _
  have hget : locatorLayout.get (locatorBlock loc).bytes = locatorHeader loc := locatorLayout.get_put _ _
  have htail : bytesAreZero ((locatorBlock loc).bytes.drop locatorHeaderBytes) = true := by
    simp only [locatorBlock]
    rw [← List.append_assoc, List.drop_left' (by rw [List.length_append, hlen, uint64.length_put]; rfl)]
    exact bytesAreZero_replicate _
  have hmin : ¬physicalBlocks < locatorMinVolumeBlocks := by
    simp only [locatorFieldsValid, Bool.and_eq_true, decide_eq_true_eq] at hvalid
    omega
  have hsize : (UInt16.ofNat locatorHeaderBytes).toNat = locatorHeaderBytes := rfl
  have hfits' : ¬physicalBlocks < loc.totalBlocks.toNat := Nat.not_lt.mpr hfits
  simp [locatorDecode, hget, locatorHeader, hmin, hsize, locatorBlock_crc, htail, hvalid, hfits']

theorem locatorDecode_ok {block : Block} {physicalBlocks : Nat} {loc : Locator}
    (h : locatorDecode block physicalBlocks = .ok loc) :
    locatorFieldsValid loc = true ∧ loc.totalBlocks.toNat ≤ physicalBlocks := by
  simp only [locatorDecode] at h
  split_ifs at h with h1 h2 h3
  simp only [Except.ok.injEq] at h
  subst h
  rw [not_or, Bool.not_eq_false, Nat.not_lt] at h3
  exact h3

end Codec

end InfiltratorFS
