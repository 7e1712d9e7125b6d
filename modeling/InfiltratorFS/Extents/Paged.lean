import InfiltratorFS.File.Replace
import InfiltratorFS.Volume.PointerTree

namespace InfiltratorFS.Paged

open Prog Layout PointerTree

open File (Extent extentsPerPage extentPagePointers maxFileExtents paginate)

section Page

def extentLayout : Layout (UInt64 × UInt64 × UInt32 × UInt32) := uint64.seq (uint64.seq (uint32.seq uint32))

def extentRecord (e : Extent) : UInt64 × UInt64 × UInt32 × UInt32 :=
  (UInt64.ofNat e.logicalBlock, UInt64.ofNat e.physicalBlock, UInt32.ofNat e.blockCount, e.flags)

def recordExtent (r : UInt64 × UInt64 × UInt32 × UInt32) : Extent := ⟨r.1.toNat, r.2.1.toNat, r.2.2.1.toNat, r.2.2.2⟩

def fillExtents (page : MetadataPage) (entries : List Extent) : MetadataPage :=
  page.fill entries.length 24 (extentLayout.putList (entries.map extentRecord)) page.header.reserved

def extentPageEncode (owner : ObjectId) (entries : List Extent) : VolumeM Block MetadataPage := do
  if entries = [] ∨ extentsPerPage < entries.length then fail .invalidArgument
  else do
    let generation ← nextGeneration
    let page ← ofExcept (metadataPageInit extentPageMagic owner generation)
    pure (fillExtents page entries)

/-- The checks of `extent_page_validate` on one extent that is not a hole. -/
def extentStored (v : Volume Block) (e : Extent) : Bool :=
  let blocks := File.extentPhysicalBlocks e.blockCount e.flags
  !(e.isCompressed && v.sb.incompatFlags &&& File.incompatCompressedExtents == 0) && blocks != 0 &&
    decide (e.physicalBlock < v.total) && decide (blocks ≤ v.total - e.physicalBlock)

/-- The loop of `extent_page_validate`: the extents follow each other, and what
is stored of them lies on the volume. -/
def extentsAccepted (v : Volume Block) : Nat → List Extent → Bool
  | _, [] => true
  | next, e :: es =>
    e.blockCount != 0 && e.logicalBlock == next && (addChecked e.logicalBlock e.blockCount).isSome &&
      File.extentFlagsValid e.blockCount e.physicalBlock e.flags &&
      (File.extentKind e.flags == File.extentHole || extentStored v e) && extentsAccepted v e.stop es

/-- `extent_page_validate`, which leaves the extents of the page. -/
def extentPageValidate (v : Volume Block) (block : Block) (owner : ObjectId) : Except Status (List Extent) :=
  let h := pageLayout.get block.bytes
  if validateMetadataPage block extentPageMagic owner = false ∨ generationValid v block = false then .error .corrupt
  else if h.entryCount.toNat = 0 ∨ extentsPerPage < h.entryCount.toNat ∨ h.bytesUsed.toNat ≠ h.entryCount.toNat * 24 then
    .error .corrupt
  else
    let entries := (extentLayout.getList h.entryCount.toNat (block.bytes.drop pageHeaderBytes)).map recordExtent
    if extentsAccepted v (File.firstBlock entries) entries then .ok entries else .error .corrupt

end Page

section Head

def incompatPagedExtents : UInt64 := 0x100

def filePayloadBytes : Nat := 160

def extentHeadBytes : Nat := 8

/-- `struct infs_extent_head_disk` with the pointers behind it. -/
structure ExtentHead where
  pageCount : Nat
  reserved : Nat
  pointers : List UInt64
  deriving DecidableEq

def ExtentHead.pointer (head : ExtentHead) (i : Nat) : UInt64 := head.pointers.getD i 0

/-- What follows the fixed payload of a file object of version CLASSIC, PAGED
or TREE. -/
inductive ExtentArea
  | classic (entries : List Extent)
  | paged (head : ExtentHead)
  | tree (head : ExtentHead)
  deriving DecidableEq

/-- The object block of a file as far as its extents go. -/
structure FileHead where
  objectId : ObjectId
  payloadSize : Nat
  logicalSize : Nat
  extentCount : Nat
  area : ExtentArea
  deriving DecidableEq

variable (file : FileHead)

def FileHead.isPaged : Bool :=
  match file.area with
  | .classic _ => false
  | _ => true

def pointerAccepted (v : Volume Block) (p : UInt64) : Bool := p != 0 && decide (p.toNat < v.total) && v.bitmap p.toNat

def levelBelow (levels : Nat) : Nat := (levels + (2 ^ 32 - 1)) % 2 ^ 32

def headValidate : VolumeM Block Unit := do
  let v ← get
  if v.sb.incompatFlags &&& incompatPagedExtents = 0 then fail .corrupt
  else match file.area with
    | .classic _ => fail .corrupt
    | .paged head =>
      if head.pageCount = 0 ∨ file.extentCount = 0 ∨ file.extentCount < head.pageCount then fail .corrupt
      else if extentPagePointers < head.pageCount ∨ head.reserved ≠ 0 then fail .corrupt
      else if file.payloadSize ≠ filePayloadBytes + extentHeadBytes + head.pageCount * 8 then fail .corrupt
      else if (List.range head.pageCount).all fun i => pointerAccepted v (head.pointer i) then pure ()
      else fail .corrupt
    | .tree head =>
      if head.pageCount = 0 ∨ file.extentCount = 0 ∨ file.extentCount < head.pageCount then fail .corrupt
      else if head.pageCount ≤ extentPagePointers ∨ head.reserved ≠ levels head.pageCount ∨
          pointerAccepted v (head.pointer 0) = false then fail .corrupt
      else if file.payloadSize ≠ filePayloadBytes + extentHeadBytes + 8 then fail .corrupt
      else do
        let block ← readBlock (head.pointer 0).toNat
        let v ← get
        let _ ← ofExcept (pageValidate v block file.objectId (levelBelow head.reserved))
        pure ()

def pageBlock (i : Nat) : VolumeM Block UInt64 :=
  match file.area with
  | .classic _ => fail .corrupt
  | .paged head => if head.pageCount ≤ i then fail .corrupt else pure (head.pointer i)
  | .tree head => if head.pageCount ≤ i then fail .corrupt else resolve file.objectId (head.pointer 0) head.reserved i

def FileHead.pageCount : Nat :=
  match file.area with
  | .classic _ => 0
  | .paged head => head.pageCount
  | .tree head => head.pageCount

def pageBlocks : List Nat → VolumeM Block (List UInt64)
  | [] => pure []
  | i :: rest => do
      let block ← pageBlock file i
      let blocks ← pageBlocks rest
      pure (block :: blocks)

def collectPageBlocks : VolumeM Block (List UInt64) := do
  if file.pageCount = 0 then fail .invalidArgument
  else do
    allocate
    pageBlocks file (List.range file.pageCount)

/-- The loop of `paged_extent_snapshot` over the pages: the extents read so far
and where the last of them ends. -/
def snapshotLoop : List Nat → Nat → List Extent → VolumeM Block (List Extent × Nat)
  | [], next, all => pure (all, next)
  | i :: rest, next, all => do
      let block ← pageBlock file i
      let data ← readBlock block.toNat
      let v ← get
      let entries ← ofExcept (extentPageValidate v data file.objectId)
      if file.extentCount - all.length < entries.length ∨ File.firstBlock entries ≠ next then fail .corrupt
      else snapshotLoop rest (File.lastStop entries) (all ++ entries)

def pagedExtentSnapshot : VolumeM Block (List Extent) := do
  headValidate file
  allocate
  let found ← snapshotLoop file (List.range file.pageCount) 0 []
  if found.1.length ≠ file.extentCount ∨ found.2 ≠ File.ceilBlocks file.logicalSize then fail .corrupt
  else pure found.1

end Head

section Rewrite

variable (file : FileHead)

/-- `free_run` on one block and the check of `tx_error` after it. -/
def freeBlock (block : UInt64) : VolumeM Block Unit := do
  freeRun block.toNat 1
  checkTxError

def freeBlocks : List UInt64 → VolumeM Block Unit
  | [] => pure ()
  | block :: blocks => do
      freeBlock block
      freeBlocks blocks

mutual

def treeFreeNode (owner : ObjectId) : Nat → UInt64 → VolumeM Block Unit
  | level, node => do
      let block ← readBlock node.toNat
      let v ← get
      let count ← ofExcept (pageValidate v block owner level)
      treeFreeChildren owner level ((List.range count).map (pointerAt block))
      freeBlock node
termination_by level => (level, 1, 0)

def treeFreeChildren (owner : ObjectId) : Nat → List UInt64 → VolumeM Block Unit
  | 0, _ => pure ()
  | _ + 1, [] => pure ()
  | level + 1, child :: rest => do
      treeFreeNode owner level child
      treeFreeChildren owner (level + 1) rest
termination_by level children => (level, 0, children.length)

end

def storePages (owner : ObjectId) : List UInt64 → List (List Extent) → VolumeM Block (List UInt64)
  | _, [] => pure []
  | old, entries :: rest => do
      let page ← extentPageEncode owner entries
      let stored ← pageStore (old.headD 0).toNat page
      let blocks ← storePages owner old.tail rest
      pure (UInt64.ofNat stored :: blocks)

/-- The pages that the rewrite starts from. A classic file that is being
converted has none. -/
def oldPageBlocks (converting : Bool) : VolumeM Block (List UInt64) :=
  if converting = false ∧ file.isPaged = true then do
    headValidate file
    collectPageBlocks file
  else pure []

def freeOldTree (converting : Bool) : VolumeM Block Unit :=
  match file.area with
  | .tree head => if converting then pure () else treeFreeNode file.objectId (levelBelow head.reserved) (head.pointer 0)
  | _ => pure ()

def newHead (count : Nat) (stored : List UInt64) : VolumeM Block FileHead :=
  if stored.length ≤ extentPagePointers then
    pure { file with
      payloadSize := filePayloadBytes + extentHeadBytes + stored.length * 8
      extentCount := count
      area := .paged ⟨stored.length, 0, stored⟩ }
  else do
    let built ← build file.objectId stored
    pure { file with
      payloadSize := filePayloadBytes + extentHeadBytes + 8
      extentCount := count
      area := .tree ⟨stored.length, built.2, [built.1]⟩ }

def rewriteAll (entries : List Extent) (converting : Bool) : VolumeM Block FileHead := do
  let newPages := entries.length / extentsPerPage + if entries.length % extentsPerPage ≠ 0 then 1 else 0
  if entries = [] then fail .invalidArgument
  else if levels newPages = 0 then fail .fileTooLarge
  else do
    let old ← oldPageBlocks file converting
    allocate
    let stored ← storePages file.objectId old (paginate entries)
    freeBlocks (old.drop newPages)
    freeOldTree file converting
    newHead file entries.length stored

end Rewrite

section Replace

variable (release : Segment → VolumeM Block Unit) (file : FileHead)

def releaseAll : List Segment → VolumeM Block Unit
  | [] => pure ()
  | run :: runs => do
      release run
      releaseAll runs

/-- `paged_extent_replace_rebuild` with the routine for
`file_free_unshared_run`. -/
def replaceRebuild (new : Extent) : VolumeM Block FileHead := do
  let old ← pagedExtentSnapshot file
  if File.uint32Max < old.length + 3 then fail .fileTooLarge
  else do
    allocate
    let acc ← File.replaceLoop new (old.length + 3) (releaseAll release) ⟨[], false, []⟩ old
    if acc.emitted = false then fail .corrupt else rewriteAll file acc.out false

def storeClassic (entries : List Extent) : VolumeM Block FileHead :=
  if entries.length ≤ maxFileExtents then
    pure { file with
      payloadSize := filePayloadBytes + entries.length * 24
      extentCount := entries.length
      area := .classic entries }
  else rewriteAll file entries true

def classicReplace (old : List Extent) (new : Extent) : VolumeM Block FileHead := do
  allocate
  allocate
  let acc ← File.replaceLoop new (old.length + 3) (fun _ => pure ()) ⟨[], false, []⟩ old
  if acc.emitted = false then fail .corrupt
  else do
    let file ← storeClassic file acc.out
    releaseAll release acc.released
    pure file

def fileReplaceRange (start count physical : Nat) (flags : UInt32) : VolumeM Block FileHead := do
  if (addChecked start count).isNone = true ∨ File.uint32Max < count ∨ File.extentFlagsValid count physical flags = false then
    fail .invalidArgument
  else match file.area with
    | .classic old => classicReplace release file old ⟨start, physical, count, flags⟩
    | _ => replaceRebuild release file ⟨start, physical, count, flags⟩

end Replace

end InfiltratorFS.Paged
