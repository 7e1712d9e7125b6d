import InfiltratorFS.Format.Checksum
import InfiltratorFS.Library.Layout

namespace InfiltratorFS

open Layout

section Constants

def formatMajor : UInt16 := 0

def formatMinor : UInt16 := 19

def locatorFormatMinor : UInt16 := 19

def superblockSize : Nat := 252

def blockShift : UInt16 := 12

def checksumCrc64Ecma : UInt32 := 1

def superblockMagic : Vector UInt8 8 := #v[0x49, 0x4E, 0x46, 0x53, 0x32, 0x30, 0x32, 0x36]

def knownIncompatFlags : UInt64 := 0x7FFFF

/-- UTF8_NAMES, SPARSE_EXTENTS and UNICODE_NORM_V1. -/
def requiredIncompatFlags : UInt64 := 0x1 ||| 0x2 ||| 0x2000

end Constants

/-- The packed fields of `struct infs_superblock_disk` before its checksum. -/
def Superblock.layout : Layout Superblock :=
  ((bytes 8).seq <| uint16.seq <| uint16.seq <| uint16.seq <| uint16.seq <| uint32.seq <| uint64.seq <| uint64.seq <|
    uint64.seq <| uint64.seq <| uint64.seq <| uint64.seq <| uint64.seq <| (three uint64).seq <| (bytes 16).seq <|
    (bytes 16).seq <| uint64.seq <| uint64.seq <| uint64.seq (bytes 64)).iso
    { toFun := fun sb =>
        (sb.magic, sb.formatMajor, sb.formatMinor, sb.headerSize, sb.blockShift, sb.checksumType, sb.generation,
          sb.totalBlocks, sb.freeBlocks, sb.allocationRootBlock, sb.allocationLeafCount, sb.objectIndexBlock,
          sb.rootObjectBlock, sb.checkpointBlock, sb.filesystemUuid, sb.rootObjectId, sb.compatFlags,
          sb.roCompatFlags, sb.incompatFlags, sb.label)
      invFun := fun ⟨magic, major, minor, header, shift, checksum, generation, total, free, root, leaves, index,
          rootObject, checkpoint, uuid, rootId, compat, roCompat, incompat, label⟩ =>
        ⟨magic, major, minor, header, shift, checksum, generation, total, free, root, leaves, index,
          rootObject, checkpoint, uuid, rootId, compat, roCompat, incompat, label⟩
      left_inv := fun _ => rfl
      right_inv := fun _ => rfl }

def superblockChecksumOffset : Nat := 220

section Codec

variable (utf8Validate : List UInt8 → Bool)

/-- `superblock_label_valid`: a NUL-terminated UTF-8 string with a zero tail. -/
def superblockLabelValid (label : Vector UInt8 64) : Bool :=
  let length := label.toList.findIdx (· == 0)
  length < 64 && (length == 0 || utf8Validate (label.toList.take length)) &&
    (label.toList.drop (length + 1)).all (· == 0)

def idIsNonzero (id : Vector UInt8 16) : Bool := !bytesAreZero id.toList

def superblockBlock (sb : Superblock) : Block :=
  let header := Superblock.layout.put sb
  let tail := List.replicate 24 0 ++ List.replicate (blockSize - superblockSize) 0
  let crc := crc64Ecma (header ++ (List.replicate 8 0 ++ tail))
  ⟨header ++ (uint64.put crc ++ tail), by
    rw [List.length_append, List.length_append, Layout.length_put, Layout.length_put, List.length_append,
      List.length_replicate, List.length_replicate]
    rfl⟩

def encodeSuperblock (sb : Superblock) : Except Status Block :=
  if superblockLabelValid utf8Validate sb.label && idIsNonzero sb.filesystemUuid && idIsNonzero sb.rootObjectId then
    .ok (superblockBlock sb)
  else .error .invalidArgument

def superblockFieldsValid (sb : Superblock) (expectedMinor : UInt16) : Bool :=
  sb.magic == superblockMagic && sb.formatMajor == formatMajor && sb.formatMinor == expectedMinor &&
    sb.headerSize.toNat == superblockSize && sb.blockShift == blockShift && sb.checksumType == checksumCrc64Ecma &&
    sb.generation != 0 && idIsNonzero sb.filesystemUuid && idIsNonzero sb.rootObjectId &&
    superblockLabelValid utf8Validate sb.label && (sb.incompatFlags &&& ~~~knownIncompatFlags) == 0 &&
    (sb.incompatFlags &&& requiredIncompatFlags) == requiredIncompatFlags

def readSuperblock (block : Block) : Superblock := Superblock.layout.get block.bytes

def validateSuperblockBlockMinor (block : Block) (expectedMinor : UInt16) : Bool :=
  (expectedMinor == formatMinor || expectedMinor == locatorFormatMinor) &&
    superblockFieldsValid utf8Validate (readSuperblock block) expectedMinor &&
    bytesAreZero ((block.bytes.drop (superblockChecksumOffset + 8)).take 24) &&
    bytesAreZero (block.bytes.drop superblockSize) &&
    uint64.get (block.bytes.drop superblockChecksumOffset) ==
      blockCrcWithZeroedChecksum block.bytes superblockChecksumOffset 32

variable (sb : Superblock)

theorem readSuperblock_block : readSuperblock (superblockBlock sb) = sb :=
  Superblock.layout.get_put sb _

theorem superblockBlock_crc :
    uint64.get ((superblockBlock sb).bytes.drop superblockChecksumOffset) =
      blockCrcWithZeroedChecksum (superblockBlock sb).bytes superblockChecksumOffset 32 := by
  have hlen : (Superblock.layout.put sb).length = superblockChecksumOffset := Superblock.layout.length_put sb
  have hfield (crc : UInt64) : (uint64.put crc ++ List.replicate 24 0).length = 32 := by
    rw [List.length_append, uint64.length_put, List.length_replicate]
    rfl
  have hzeroed (crc : UInt64) (tail : List UInt8) :
      zeroRange (Superblock.layout.put sb ++ (uint64.put crc ++ (List.replicate 24 0 ++ tail)))
        superblockChecksumOffset 32 =
      Superblock.layout.put sb ++ (List.replicate 8 0 ++ (List.replicate 24 0 ++ tail)) := by
    have h := zeroRange_append (Superblock.layout.put sb) (uint64.put crc ++ List.replicate 24 0) tail
    rw [hlen, hfield, List.append_assoc] at h
    rw [h, ← List.append_assoc (List.replicate 8 0), List.replicate_append_replicate]
  simp only [superblockBlock, blockCrcWithZeroedChecksum]
  rw [List.drop_left' hlen, uint64.get_put, hzeroed]

theorem validate_superblockBlock :
    validateSuperblockBlockMinor utf8Validate (superblockBlock sb) locatorFormatMinor =
      superblockFieldsValid utf8Validate sb locatorFormatMinor := by
  have hlen : (Superblock.layout.put sb).length = superblockChecksumOffset := Superblock.layout.length_put sb
  have hcrc (crc : UInt64) : (uint64.put crc).length = 8 := uint64.length_put crc
  have hzero : bytesAreZero (((superblockBlock sb).bytes.drop (superblockChecksumOffset + 8)).take 24) = true := by
    simp only [superblockBlock]
    rw [← List.drop_drop, List.drop_left' hlen, List.drop_left' (hcrc _), List.take_left' List.length_replicate]
    exact bytesAreZero_replicate 24
  have htail : bytesAreZero ((superblockBlock sb).bytes.drop superblockSize) = true := by
    simp only [superblockBlock]
    rw [show superblockSize = superblockChecksumOffset + (8 + 24) from rfl, ← List.drop_drop, List.drop_left' hlen,
      ← List.drop_drop, List.drop_left' (hcrc _), List.drop_left' List.length_replicate]
    exact bytesAreZero_replicate _
  rw [validateSuperblockBlockMinor, readSuperblock_block, hzero, htail, superblockBlock_crc, beq_self_eq_true]
  simp

end Codec

end InfiltratorFS
