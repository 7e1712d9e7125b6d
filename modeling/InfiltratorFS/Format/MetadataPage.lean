import InfiltratorFS.Format.Superblock

namespace InfiltratorFS

open Layout

section Records

/-- The fields of `struct infs_metadata_page_disk` before the checksum. -/
structure PageHeader where
  magic : Vector UInt8 8
  generation : UInt64
  ownerObjectId : ObjectId
  entryCount : UInt32
  bytesUsed : UInt32
  checksumType : UInt32
  reserved : UInt32
  deriving DecidableEq, Inhabited

def pageLayout : Layout PageHeader :=
  ((bytes 8).seq <| uint64.seq <| (bytes 16).seq <| uint32.seq <| uint32.seq <| uint32.seq uint32).iso
    { toFun := fun h => (h.magic, h.generation, h.ownerObjectId, h.entryCount, h.bytesUsed, h.checksumType, h.reserved)
      invFun := fun ⟨magic, generation, owner, count, used, type, reserved⟩ => ⟨magic, generation, owner, count, used, type, reserved⟩
      left_inv := fun _ => rfl
      right_inv := fun _ => rfl }

def pageChecksumOffset : Nat := 48

def pageHeaderBytes : Nat := 80

def pageDataBytes : Nat := 4016

def pageChecksumType : UInt32 := 1

def extentPageMagic : Vector UInt8 8 := #v[0x49, 0x4E, 0x46, 0x53, 0x45, 0x50, 0x30, 0x31]

def extentIndexPageMagic : Vector UInt8 8 := #v[0x49, 0x4E, 0x46, 0x53, 0x45, 0x49, 0x30, 0x31]

/-- The magics that `infs_metadata_page_finalize` knows: INFSDP01, INFSDB01,
INFSIP01, INFSIB01, INFSEP01, INFSEI01, INFSSP01 and INFSAC01. -/
def pageMagics : List (Vector UInt8 8) :=
  [#v[0x49, 0x4E, 0x46, 0x53, 0x44, 0x50, 0x30, 0x31], #v[0x49, 0x4E, 0x46, 0x53, 0x44, 0x42, 0x30, 0x31],
    #v[0x49, 0x4E, 0x46, 0x53, 0x49, 0x50, 0x30, 0x31], #v[0x49, 0x4E, 0x46, 0x53, 0x49, 0x42, 0x30, 0x31],
    extentPageMagic, extentIndexPageMagic,
    #v[0x49, 0x4E, 0x46, 0x53, 0x53, 0x50, 0x30, 0x31], #v[0x49, 0x4E, 0x46, 0x53, 0x41, 0x43, 0x30, 0x31]]

structure MetadataPage where
  header : PageHeader
  data : List UInt8
  length_eq : data.length = pageDataBytes

end Records

section Codec

def emptyPage (magic : Vector UInt8 8) (owner : ObjectId) (generation : UInt64) : MetadataPage :=
  ⟨⟨magic, generation, owner, 0, 0, pageChecksumType, 0⟩, List.replicate pageDataBytes 0, List.length_replicate⟩

def metadataPageInit (magic : Vector UInt8 8) (owner : ObjectId) (generation : UInt64) : Except Status MetadataPage :=
  if idIsZero owner = true ∨ generation = 0 then .error .invalidArgument
  else .ok (emptyPage magic owner generation)

theorem metadataPageInit_ok {owner : ObjectId} {generation : UInt64} (howner : idIsZero owner = false)
    (hgeneration : generation ≠ 0) (magic : Vector UInt8 8) :
    metadataPageInit magic owner generation = .ok (emptyPage magic owner generation) := by
  rw [metadataPageInit, if_neg (by simp [howner, hgeneration])]

variable (p : MetadataPage)

/-- The page with entries of one size in the place of what it holds. -/
def MetadataPage.fill (count size : Nat) (bytes : List UInt8) (reserved : UInt32) : MetadataPage where
  header := { p.header with
    entryCount := UInt32.ofNat count
    bytesUsed := UInt32.ofNat (count * size)
    reserved := reserved }
  data := (bytes ++ List.replicate pageDataBytes 0).take pageDataBytes
  length_eq := by
    rw [List.length_take, List.length_append, List.length_replicate]
    omega

def MetadataPage.payload : List UInt8 :=
  p.data.take p.header.bytesUsed.toNat ++ List.replicate (pageDataBytes - p.header.bytesUsed.toNat) 0

theorem MetadataPage.length_payload : p.payload.length = pageDataBytes := by
  rw [payload, List.length_append, List.length_take, List.length_replicate, p.length_eq]
  omega

def MetadataPage.block : Block :=
  let header := pageLayout.put p.header
  ⟨header ++ (uint64.put (crc64Ecma (header ++ (List.replicate 32 0 ++ p.payload))) ++ (List.replicate 24 0 ++ p.payload)), by
    rw [List.length_append, List.length_append, List.length_append, Layout.length_put, Layout.length_put, List.length_replicate,
      p.length_payload]
    rfl⟩

def metadataPageFinalize : Except Status Block :=
  if p.header.magic ∉ pageMagics ∨ p.header.generation = 0 ∨ idIsZero p.header.ownerObjectId = true ∨
      pageDataBytes < p.header.bytesUsed.toNat ∨ p.header.checksumType ≠ pageChecksumType ∨ p.header.reserved ≠ 0 then
    .error .invalidArgument
  else .ok p.block

def validateMetadataPage (block : Block) (magic : Vector UInt8 8) (owner : ObjectId) : Bool :=
  let h := pageLayout.get block.bytes
  h.magic == magic && h.generation != 0 && !idIsZero h.ownerObjectId && h.ownerObjectId == owner &&
    decide (h.bytesUsed.toNat ≤ pageDataBytes) && h.checksumType == pageChecksumType && h.reserved == 0 &&
    bytesAreZero ((block.bytes.drop (pageChecksumOffset + 8)).take 24) &&
    bytesAreZero (block.bytes.drop (pageHeaderBytes + h.bytesUsed.toNat)) &&
    uint64.get (block.bytes.drop pageChecksumOffset) == blockCrcWithZeroedChecksum block.bytes pageChecksumOffset 32

theorem MetadataPage.get_block : pageLayout.get p.block.bytes = p.header := pageLayout.get_put _ _

theorem MetadataPage.length_header : (pageLayout.put p.header).length = pageChecksumOffset :=
  pageLayout.length_put _

theorem MetadataPage.drop_checksum :
    p.block.bytes.drop (pageChecksumOffset + 8) = List.replicate 24 0 ++ p.payload := by
  simp only [block]
  rw [← List.append_assoc, List.drop_left' (by rw [List.length_append, p.length_header, uint64.length_put]; rfl)]

theorem MetadataPage.padding_block :
    bytesAreZero ((p.block.bytes.drop (pageChecksumOffset + 8)).take 24) = true := by
  rw [p.drop_checksum, List.take_left' List.length_replicate]
  exact bytesAreZero_replicate _

theorem MetadataPage.drop_header : p.block.bytes.drop pageHeaderBytes = p.payload := by
  have hsum : pageHeaderBytes = pageChecksumOffset + 8 + 24 := rfl
  rw [hsum, ← List.drop_drop, p.drop_checksum, List.drop_left' List.length_replicate]

theorem MetadataPage.crc_block :
    uint64.get (p.block.bytes.drop pageChecksumOffset) = blockCrcWithZeroedChecksum p.block.bytes pageChecksumOffset 32 := by
  have hzeroed (crc : UInt64) :
      zeroRange (pageLayout.put p.header ++ ((uint64.put crc ++ List.replicate 24 0) ++ p.payload)) pageChecksumOffset 32 =
        pageLayout.put p.header ++ (List.replicate 32 0 ++ p.payload) := by
    have h := zeroRange_append (pageLayout.put p.header) (uint64.put crc ++ List.replicate 24 0) p.payload
    have hfield : (uint64.put crc ++ List.replicate 24 (0 : UInt8)).length = 32 := by
      rw [List.length_append, uint64.length_put, List.length_replicate]
      rfl
    rwa [p.length_header, hfield] at h
  simp only [block, blockCrcWithZeroedChecksum]
  rw [List.drop_left' p.length_header, uint64.get_put, ← List.append_assoc (uint64.put _), hzeroed]

variable {p : MetadataPage}

theorem finalize_ok (hmagic : p.header.magic ∈ pageMagics) (hgeneration : p.header.generation ≠ 0)
    (howner : idIsZero p.header.ownerObjectId = false) (hused : p.header.bytesUsed.toNat ≤ pageDataBytes)
    (htype : p.header.checksumType = pageChecksumType) (hreserved : p.header.reserved = 0) :
    metadataPageFinalize p = .ok p.block := by
  rw [metadataPageFinalize, if_neg (by simp [hmagic, hgeneration, howner, hused, htype, hreserved])]

theorem validate_finalized {block : Block} (h : metadataPageFinalize p = .ok block) :
    block = p.block ∧ validateMetadataPage block p.header.magic p.header.ownerObjectId = true := by
  rw [metadataPageFinalize] at h
  split at h
  · cases h
  · rename_i hchecks
    cases h
    simp only [not_or, not_not, Nat.not_lt] at hchecks
    obtain ⟨-, hgeneration, howner, hused, htype, hreserved⟩ := hchecks
    have htail : bytesAreZero (p.block.bytes.drop (pageHeaderBytes + p.header.bytesUsed.toNat)) = true := by
      have htaken : (p.data.take p.header.bytesUsed.toNat).length = p.header.bytesUsed.toNat := by
        rw [List.length_take, p.length_eq, Nat.min_eq_left hused]
      rw [← List.drop_drop, p.drop_header, MetadataPage.payload, List.drop_left' htaken]
      exact bytesAreZero_replicate _
    refine ⟨rfl, ?_⟩
    simp [validateMetadataPage, p.get_block, hgeneration, howner, hused, htype, hreserved, p.padding_block, htail, p.crc_block]

theorem finalize_reserved (h : p.header.reserved ≠ 0) : metadataPageFinalize p = .error .invalidArgument := by
  rw [metadataPageFinalize, if_pos (by simp [h])]

section Fill

variable {count size : Nat} {bytes : List UInt8} {reserved : UInt32} (hle : count * size ≤ pageDataBytes)

include hle

theorem bytesUsed_fill : (p.fill count size bytes reserved).header.bytesUsed.toNat = count * size :=
  UInt32.toNat_ofNat_of_lt' (hle.trans_lt (by decide))

theorem entryCount_fill (hsize : 0 < size) : (p.fill count size bytes reserved).header.entryCount.toNat = count :=
  UInt32.toNat_ofNat_of_lt' (((Nat.le_mul_of_pos_right count hsize).trans hle).trans_lt (by decide))

theorem drop_header_fill (hbytes : bytes.length = count * size) :
    (p.fill count size bytes reserved).block.bytes.drop pageHeaderBytes =
      bytes ++ List.replicate (pageDataBytes - count * size) 0 := by
  rw [MetadataPage.drop_header, MetadataPage.payload, bytesUsed_fill hle]
  simp only [MetadataPage.fill]
  rw [List.take_take, Nat.min_eq_left hle, List.take_left' hbytes]

theorem finalize_fill {magic : Vector UInt8 8} {owner : ObjectId} {generation : UInt64} (hmagic : magic ∈ pageMagics)
    (howner : idIsZero owner = false) (hgeneration : generation ≠ 0) :
    metadataPageFinalize ((emptyPage magic owner generation).fill count size bytes 0) =
      .ok ((emptyPage magic owner generation).fill count size bytes 0).block :=
  finalize_ok hmagic hgeneration howner (by rw [bytesUsed_fill hle]; exact hle) rfl rfl

end Fill

end Codec

section Pointers

def pointerBytes (pointers : List UInt64) : List UInt8 := pointers.flatMap uint64.put

theorem length_pointerBytes (pointers : List UInt64) : (pointerBytes pointers).length = 8 * pointers.length := by
  induction pointers with
  | nil => rfl
  | cons p pointers ih =>
    have hp : (uint64.put p).length = 8 := uint64.length_put p
    rw [pointerBytes, List.flatMap_cons, List.length_append, hp, ← pointerBytes, ih, List.length_cons]
    omega

def pointerAt (block : Block) (i : Nat) : UInt64 := uint64.get (block.bytes.drop (pageHeaderBytes + 8 * i))

theorem get_pointerBytes (pointers : List UInt64) (rest : List UInt8) (i : Nat) (h : i < pointers.length) :
    uint64.get ((pointerBytes pointers ++ rest).drop (8 * i)) = pointers[i] := by
  induction pointers generalizing i with
  | nil => cases h
  | cons p pointers ih =>
    have hp : (uint64.put p).length = 8 := uint64.length_put p
    rw [pointerBytes, List.flatMap_cons, ← pointerBytes, List.append_assoc]
    cases i with
    | zero => exact uint64.get_put p _
    | succ i =>
      have hdrop : 8 * (i + 1) = 8 + 8 * i := by omega
      rw [hdrop, ← List.drop_drop, List.drop_left' hp]
      exact ih i (Nat.lt_of_succ_lt_succ h)

end Pointers

namespace PointerTree

def pointersPerPage : Nat := 502

def maxLevels : Nat := 3

/-- The loop of `extent_pointer_tree_levels`. The product stays below 2^64. -/
def levelsLoop (pageCount : Nat) : Nat → Nat → Nat → Nat
  | 0, capacity, levels => if pageCount ≤ capacity then levels else 0
  | fuel + 1, capacity, levels =>
    if capacity < pageCount then levelsLoop pageCount fuel (capacity * pointersPerPage) (levels + 1) else levels

def levels (pageCount : Nat) : Nat := if pageCount = 0 then 0 else levelsLoop pageCount (maxLevels - 1) pointersPerPage 1

end PointerTree

end InfiltratorFS
