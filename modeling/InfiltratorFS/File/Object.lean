import InfiltratorFS.File.Extent
import InfiltratorFS.Library.Prog

namespace InfiltratorFS.File

open Prog

section Objects

structure ExtentPage where
  block : Nat
  extents : List Extent
  deriving DecidableEq, Inhabited

structure ChecksumObject where
  block : Nat
  start : Nat
  deriving DecidableEq, Inhabited

/-- What follows the fixed part of a file object: the bytes of an inline
file, the extents of a classic one, or the extent pages of a paged one, with
the blocks of the pointer tree above them where there are too many pages for
the object itself. -/
inductive Payload
  | inline
  | extents (entries : List Extent)
  | pages (pages : List ExtentPage) (index : List Nat)
  deriving DecidableEq, Inhabited

/-- The object block of a file as an operation holds it in memory, with the
checksum chain that its head names. The last field says that the stored CRC
is the one of the other fields. -/
structure FileObject where
  logicalSize : Nat
  portableFlags : UInt64
  payload : Payload
  checksums : List ChecksumObject
  finalized : Bool
  deriving DecidableEq, Inhabited

def inlineDataMax : Nat := 3808

def maxFileExtents : Nat := 160

def extentsPerPage : Nat := 167

def extentPagePointers : Nat := 479

def checksumsPerObject : Nat := 123

def storagePolicyMask : UInt64 := 0xffff000000000000

def incompatInlineData : UInt64 := 0x4

def incompatSharedExtents : UInt64 := 0x8

def incompatCompressedExtents : UInt64 := 0x1000

def Payload.pageList : Payload → List ExtentPage
  | .pages list _ => list
  | _ => []

def Payload.isPaged : Payload → Bool
  | .pages _ _ => true
  | _ => false

def Payload.extentList : Payload → List Extent
  | .inline => []
  | .extents entries => entries
  | .pages list _ => list.flatMap (·.extents)

def FileObject.storagePolicy (f : FileObject) : UInt64 := f.portableFlags &&& storagePolicyMask

def FileObject.isInline (f : FileObject) : Bool := f.payload == .inline

end Objects

section State

/-- What happens to compressed extents: a range is replaced, an extent is kept
by a truncation with so many of its blocks, a block is mapped again after its
extent was written out. -/
inductive FileEvent
  | replace (start count : Nat) (entries : List Extent)
  | retain (extent : Extent) (retained : Nat)
  | remap (flags : UInt32)
  deriving DecidableEq

/-- What the code around the extents answers to one request: its status, and
where it has one, the block or the size it returns. A stale CRC agrees with
changed bytes only by accident. -/
structure Answer where
  status : Status
  block : Nat
  count : Nat
  accident : Bool
  deriving Inhabited

/-- One operation on a file: the object in memory, the extents of the other
files and streams, and the blocks allocated, freed and written by the
operation. -/
structure FileState where
  object : FileObject
  incompatFlags : UInt64
  writable : Bool
  others : List Extent
  allocated : List Segment
  freed : List Segment
  env : Nat → Answer
  tick : Nat
  events : List FileEvent
  written : List Segment := []

abbrev FileM := Prog FileState Status

def FileState.enabled (s : FileState) (feature : UInt64) : Bool := s.incompatFlags &&& feature != 0

def FileState.setPayload (s : FileState) (payload : Payload) : FileState :=
  { s with object := { s.object with payload := payload, finalized := false } }

def FileState.setSize (s : FileState) (size : Nat) : FileState :=
  { s with object := { s.object with logicalSize := size, finalized := false } }

def FileState.setChecksums (s : FileState) (checksums : List ChecksumObject) : FileState :=
  { s with object := { s.object with checksums := checksums, finalized := false } }

def note (event : FileEvent) : FileM Unit := modify fun s => { s with events := s.events ++ [event] }

/-- A call of code that is not modelled here, or a request for memory. -/
def request : FileM Answer := fun s =>
  let answer := s.env s.tick
  let s := { s with tick := s.tick + 1 }
  if answer.status = .ok then (.ok answer, s) else (.error answer.status, s)

def call : FileM Unit := do
  let _ ← request
  pure ()

/-- `write_block`, `write_data_block` and the writes of whole runs, which may
fail after some of the blocks. -/
def writeBlocks (run : Segment) : FileM Unit := do
  modify fun s => { s with written := s.written ++ [run] }
  call

end State

section Allocation

/-- `alloc_run`, `alloc_data_run` and `alloc_data_run_uninitialized`: a run of
at least one and at most the wanted number of blocks, never from block zero. -/
def allocRun (wanted : Nat) : FileM Segment := do
  let answer ← request
  let run : Segment := ⟨max 1 answer.block, max 1 (min wanted answer.count)⟩
  modify fun s => { s with allocated := s.allocated ++ [run] }
  pure run

def allocBlock : FileM Nat := do
  let run ← allocRun 1
  if run.count ≠ 1 then fail .corrupt else pure run.start

def txBlockPrivate (s : FileState) (block : Nat) : Bool := Segment.covers s.allocated block

def freeRun (run : Segment) : FileM Unit := do
  modify fun s => { s with freed := s.freed ++ [run] }
  call

def otherReferenceCover (cursor stop : Nat) : List Extent → Nat × Nat → Nat × Nat
  | [], found => found
  | e :: es, (coverEnd, nextStart) =>
    let run := e.physical
    if extentKind e.flags ≠ extentNormal ∨ run.stop ≤ cursor ∨ stop ≤ run.start then
      otherReferenceCover cursor stop es (coverEnd, nextStart)
    else if run.start ≤ cursor then
      otherReferenceCover cursor stop es (max coverEnd (min run.stop stop), nextStart)
    else otherReferenceCover cursor stop es (coverEnd, min nextStart run.start)

section

variable {σ : Type} (cover : Nat → Nat → Prog σ Status (Nat × Nat)) (free : Segment → Prog σ Status Unit)

def freeUnsharedLoop (cursor stop : Nat) : Prog σ Status Unit :=
  if cursor < stop then do
    let found ← cover cursor stop
    if cursor < found.1 then freeUnsharedLoop found.1 stop
    else if found.2 ≤ cursor ∨ stop < found.2 then fail .corrupt
    else do
      free ⟨cursor, found.2 - cursor⟩
      freeUnsharedLoop found.2 stop
  else pure ()
termination_by stop - cursor

/-- `file_free_unshared_run` over the scan of the other files and the release
of a run. -/
def freeUnshared (shared : Bool) (run : Segment) : Prog σ Status Unit :=
  if run.count = 0 then pure ()
  else if shared = false then free run
  else match addChecked run.start run.count with
    | none => fail .overflow
    | some stop => freeUnsharedLoop cover free run.start stop

end

def fileOtherReferenceCover (cursor stop : Nat) : FileM (Nat × Nat) := do
  call
  let s ← get
  pure (otherReferenceCover cursor stop s.others (cursor, stop))

def fileFreeUnsharedRun (run : Segment) : FileM Unit := do
  let s ← get
  freeUnshared fileOtherReferenceCover freeRun (s.enabled incompatSharedExtents) run

def freeRuns : List Segment → FileM Unit
  | [] => pure ()
  | run :: runs => do
      fileFreeUnsharedRun run
      freeRuns runs

def compressionAllocDataExact (wanted : Nat) : FileM Nat := do
  if wanted = 0 then fail .invalidArgument
  else do
    let run ← allocRun wanted
    if run.count ≠ wanted then do
      freeRun run
      fail .noSpace
    else pure run.start

end Allocation

section Checksums

/-- The loop of `checksum_set_range` over the objects of the chain: a missing
object is created in its place. -/
def checksumInsert (start : Nat) : List ChecksumObject → FileM (List ChecksumObject)
  | [] => do
      let block ← allocBlock
      pure [⟨block, start⟩]
  | c :: chain => do
      if c.start = start then pure (c :: chain)
      else if start < c.start then do
        let block ← allocBlock
        pure (⟨block, start⟩ :: c :: chain)
      else do
        let rest ← checksumInsert start chain
        pure (c :: rest)

def checksumSetObject (start : Nat) : FileM Unit := do
  let s ← get
  let chain ← checksumInsert start s.object.checksums
  call
  modify fun s => s.setChecksums chain

def checksumSetRange (logical count : Nat) : FileM Unit :=
  if h : count = 0 then pure ()
  else do
    let offset := logical % checksumsPerObject
    let chunk := min (checksumsPerObject - offset) count
    checksumSetObject (logical - offset)
    checksumSetRange (logical + chunk) (count - chunk)
termination_by count
decreasing_by
  have : logical % checksumsPerObject < checksumsPerObject := Nat.mod_lt _ (by decide)
  omega

/-- The loop of `checksum_destroy_chain` with its guard. -/
def checksumDestroyLoop : Nat → List ChecksumObject → FileM Unit
  | _, [] => pure ()
  | 0, _ :: _ => fail .loopDetected
  | guard + 1, c :: chain => do
      call
      freeRun ⟨c.block, 1⟩
      checksumDestroyLoop guard chain

def checksumDestroyChain : FileM Unit := do
  let s ← get
  checksumDestroyLoop 1048576 s.object.checksums
  modify fun s => s.setChecksums []

end Checksums

section Validation

/-- The loop over the extents in `file_validate` and `extent_page_validate`:
where the extents end, if each of them is valid and starts where the one
before it ends. -/
def extentsEnd (next : Nat) : List Extent → Option Nat
  | [] => some next
  | e :: es =>
    if e.blockCount = 0 ∨ e.logicalBlock ≠ next ∨ extentFlagsValid e.blockCount e.physicalBlock e.flags = false then none
    else match addChecked e.logicalBlock e.blockCount with
      | none => none
      | some stop => extentsEnd stop es

/-- `file_validate`, without the CRC. -/
def fileValidate (f : FileObject) : Bool :=
  match f.payload with
  | .pages pages index =>
    !pages.isEmpty && f.logicalSize != 0 && pages.length ≤ f.payload.extentList.length &&
      (index.isEmpty == decide (pages.length ≤ extentPagePointers))
  | .inline => f.logicalSize != 0 && f.logicalSize ≤ inlineDataMax && f.checksums.isEmpty
  | .extents [] => f.logicalSize == 0 && f.checksums.isEmpty
  | .extents (e :: es) =>
    (e :: es).length ≤ maxFileExtents && extentsEnd 0 (e :: es) == some (ceilBlocks f.logicalSize)

/-- The CRC of the object, which fails on bytes changed since it was stored. -/
def checkFinalized : FileM Unit := fun s =>
  if s.object.finalized || (s.env s.tick).accident then (.ok (), { s with tick := s.tick + 1 })
  else (.error .corrupt, { s with tick := s.tick + 1 })

/-- `file_validate_volume`; the last call stands for the bitmap and the page
pointers. -/
def fileValidateVolume : FileM Unit := do
  checkFinalized
  let s ← get
  if fileValidate s.object = false then fail .corrupt
  else if s.object.isInline = true ∧ s.enabled incompatInlineData = false then fail .corrupt
  else if s.object.payload.isPaged = false ∧ s.enabled incompatCompressedExtents = false ∧
      s.object.payload.extentList.any (·.isCompressed) = true then fail .corrupt
  else call

def objectFinalize : FileM Unit := modify fun s => { s with object := { s.object with finalized := true } }

def extentPageValid (incompatFlags : UInt64) (entries : List Extent) : Bool :=
  !entries.isEmpty && entries.length ≤ extentsPerPage &&
    (extentsEnd (entries.headD default).logicalBlock entries).isSome &&
    (incompatFlags &&& incompatCompressedExtents != 0 || entries.all (!·.isCompressed))

end Validation

section Pages

def firstBlock (entries : List Extent) : Nat := (entries.headD default).logicalBlock

def lastStop (entries : List Extent) : Nat := (entries.getLastD default).stop

def pagedExtentSnapshotLoop (next : Nat) : List ExtentPage → FileM Nat
  | [] => pure next
  | page :: pages => do
      call
      let s ← get
      if extentPageValid s.incompatFlags page.extents = false ∨ firstBlock page.extents ≠ next then fail .corrupt
      else pagedExtentSnapshotLoop (lastStop page.extents) pages

/-- `paged_extent_snapshot`; the first call checks the page pointers. -/
def pagedExtentSnapshot : FileM (List Extent) := do
  call
  let s ← get
  let next ← pagedExtentSnapshotLoop 0 s.object.payload.pageList
  if next ≠ ceilBlocks s.object.logicalSize then fail .corrupt
  else pure s.object.payload.extentList

def pagedExtentLoadPage (index : Nat) : FileM (List Extent) := do
  call
  let s ← get
  match s.object.payload.pageList[index]? with
  | none => fail .corrupt
  | some page => if extentPageValid s.incompatFlags page.extents = false then fail .corrupt else pure page.extents

def pagedExtentFindPage (logical lo hi : Nat) : FileM (List Extent) :=
  if h : lo < hi then do
    let mid := lo + (hi - lo) / 2
    let entries ← pagedExtentLoadPage mid
    if logical < firstBlock entries then pagedExtentFindPage logical lo mid
    else if lastStop entries ≤ logical then pagedExtentFindPage logical (mid + 1) hi
    else pure entries
  else fail .corrupt
termination_by hi - lo

def pagedEntries (logical : Nat) : FileM (List Extent) := do
  let s ← get
  pagedExtentFindPage logical 0 s.object.payload.pageList.length

end Pages

section Lookup

variable (logical : Nat)

def holds (e : Extent) : Bool := e.logicalBlock ≤ logical && logical < e.stop

def lookupEntries : FileM (List Extent) := do
  let s ← get
  if s.object.payload.isPaged then pagedEntries logical else pure s.object.payload.extentList

def mappedBlock (e : Extent) : Nat :=
  if extentKind e.flags = extentHole then 0
  else if e.isCompressed then e.physicalBlock
  else e.physicalBlock + (logical - e.logicalBlock)

/-- `file_map_block` and `paged_extent_map`, which also checks the bitmap. -/
def fileMapBlock : FileM (Nat × UInt32) := do
  let s ← get
  let entries ← lookupEntries logical
  match entries.find? (holds logical) with
  | none => fail .corrupt
  | some e =>
    if s.object.payload.isPaged then do
      call
      pure (mappedBlock logical e, e.flags)
    else pure (mappedBlock logical e, e.flags)

def extentLookup : List Extent → Except Status Extent
  | [] => .error .corrupt
  | e :: es =>
    match addChecked e.logicalBlock e.blockCount with
    | none => .error .corrupt
    | some stop => if e.logicalBlock ≤ logical ∧ logical < stop then .ok e else extentLookup es

def fileExtentLookup : FileM Extent := do
  let entries ← lookupEntries logical
  ofExcept (extentLookup logical entries)

def fileLogicalBlocksVolume : FileM Nat := do
  let s ← get
  let entries ← if s.object.payload.isPaged then pagedExtentSnapshot else pure s.object.payload.extentList
  pure (if entries.isEmpty then 0 else lastStop entries)

def fileAllocatedBlocksVolume : FileM Nat := do
  let s ← get
  let entries ← if s.object.payload.isPaged then pagedExtentSnapshot else pure s.object.payload.extentList
  pure (entries.map fun e => extentPhysicalBlocks e.blockCount e.flags).sum

end Lookup

end InfiltratorFS.File
