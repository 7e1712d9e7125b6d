import InfiltratorFS.File.Object
import InfiltratorFS.Format.MetadataPage

namespace InfiltratorFS.File

open Prog
open PointerTree (pointersPerPage levels)

section Rewrite

def paginate (entries : List Extent) : List (List Extent) :=
  if h : entries = [] then [] else entries.take extentsPerPage :: paginate (entries.drop extentsPerPage)
termination_by entries.length
decreasing_by
  have : 0 < entries.length := List.length_pos_of_ne_nil h
  rw [List.length_drop, extentsPerPage]
  omega

theorem paginate_flatten (entries : List Extent) : (paginate entries).flatten = entries := by
  fun_induction paginate entries with
  | case1 => rfl
  | case2 entries _ ih => rw [List.flatten_cons, ih, List.take_append_drop]

/-- `metadata_page_store`: in place where the old block is private, else in a
new one. -/
def metadataPageStore (old : Option Nat) : FileM Nat := do
  let s ← get
  match old with
  | none => do
      let block ← allocBlock
      writeBlocks ⟨block, 1⟩
      pure block
  | some block =>
    if txBlockPrivate s block then do
      writeBlocks ⟨block, 1⟩
      pure block
    else do
      let new ← allocBlock
      writeBlocks ⟨new, 1⟩
      freeRun ⟨block, 1⟩
      pure new

def storePages : List Nat → List (List Extent) → FileM (List ExtentPage)
  | _, [] => pure []
  | old, entries :: rest => do
      call
      let block ← metadataPageStore old.head?
      let pages ← storePages old.tail rest
      pure (⟨block, entries⟩ :: pages)

def storeIndexPages : Nat → FileM (List Nat)
  | 0 => pure []
  | n + 1 => do
      let block ← metadataPageStore none
      let blocks ← storeIndexPages n
      pure (block :: blocks)

/-- `extent_pointer_tree_build`: level after level up to a single page. -/
def extentPointerTreeBuild : Nat → Nat → FileM (List Nat)
  | 0, _ => fail .fileTooLarge
  | fuel + 1, count => do
      call
      let parents := (count + pointersPerPage - 1) / pointersPerPage
      let blocks ← storeIndexPages parents
      if parents = 1 then pure blocks
      else do
        let above ← extentPointerTreeBuild fuel parents
        pure (blocks ++ above)

def freeEach (before : FileM Unit) : List Nat → FileM Unit
  | [] => pure ()
  | block :: blocks => do
      before
      freeRun ⟨block, 1⟩
      freeEach before blocks

def freeBlocks : List Nat → FileM Unit := freeEach (pure ())

/-- Every page of pointers is read before it is freed. -/
def extentPointerTreeFree : List Nat → FileM Unit := freeEach call

def Payload.index : Payload → List Nat
  | .pages _ blocks => blocks
  | _ => []

/-- `paged_extent_rewrite_all`; the pages of a classic file that is being
converted are not there yet. -/
def pagedExtentRewriteAll (entries : List Extent) (converting : Bool) : FileM Unit := do
  let pages := paginate entries
  if entries = [] then fail .invalidArgument
  else if levels pages.length = 0 then fail .fileTooLarge
  else do
    call
    let s ← get
    let old := if converting then Payload.extents [] else s.object.payload
    let stored ← storePages (old.pageList.map (·.block)) pages
    freeBlocks ((old.pageList.map (·.block)).drop pages.length)
    extentPointerTreeFree old.index
    let index ← if pages.length ≤ extentPagePointers then pure [] else extentPointerTreeBuild 3 pages.length
    modify fun s => s.setPayload (.pages stored index)

def pagedExtentDestroyPages : FileM Unit := do
  let s ← get
  if s.object.payload.isPaged = false then pure ()
  else do
    call
    freeBlocks (s.object.payload.pageList.map (·.block))
    extentPointerTreeFree s.object.payload.index

end Rewrite

section Replace

variable {σ : Type}

structure Rebuild where
  out : List Extent
  emitted : Bool
  released : List Segment

def releasedBlocks (range : Segment) (e : Extent) : List Segment :=
  if extentKind e.flags ≠ extentNormal then []
  else if e.isCompressed then [e.physical]
  else
    let first := max e.logicalBlock range.start
    [⟨e.physicalBlock + (first - e.logicalBlock), min e.stop range.stop - first⟩]

/-- The loop body of `file_replace_range` and of `paged_extent_replace_rebuild`,
over any state that the release routine works on. The first only collects what
is released, the second releases it at once. -/
def replaceExtent (new : Extent) (capacity : Nat) (release : List Segment → Prog σ Status Unit) (acc : Rebuild) (e : Extent) :
    Prog σ Status Rebuild := do
  let range := new.segment
  match addChecked e.logicalBlock e.blockCount with
  | none => fail .corrupt
  | some stop =>
    if stop ≤ range.start ∨ range.stop ≤ e.logicalBlock then do
      let out ← ofExcept (extentEmitCapacity acc.out capacity e)
      pure { acc with out := out }
    else if e.isCompressed = true ∧ (e.logicalBlock < range.start ∨ range.stop < stop) then fail .notSupported
    else do
      let out ← ofExcept (extentEmitCapacity acc.out capacity { e with blockCount := range.start - e.logicalBlock })
      let out ← ofExcept (if acc.emitted then .ok out else extentEmitCapacity out capacity new)
      let released := releasedBlocks range e
      release released
      let tail : Extent :=
        { e with
          logicalBlock := range.stop
          physicalBlock :=
            if extentKind e.flags = extentHole then 0 else e.physicalBlock + (range.stop - e.logicalBlock)
          blockCount := stop - range.stop }
      let out ← ofExcept (extentEmitCapacity out capacity tail)
      pure ⟨out, true, acc.released ++ released⟩

def replaceLoop (new : Extent) (capacity : Nat) (release : List Segment → Prog σ Status Unit) :
    Rebuild → List Extent → Prog σ Status Rebuild
  | acc, [] => pure acc
  | acc, e :: es => do
      let acc ← replaceExtent new capacity release acc e
      replaceLoop new capacity release acc es

def pagedExtentReplaceRebuild (new : Extent) : FileM Unit := do
  let old ← pagedExtentSnapshot
  if uint32Max < old.length + 3 then fail .fileTooLarge
  else do
    call
    let acc ← replaceLoop new (old.length + 3) freeRuns ⟨[], false, []⟩ old
    if acc.emitted = false then fail .corrupt
    else pagedExtentRewriteAll acc.out false

def classicReplaceRange (new : Extent) : FileM Unit := do
  let s ← get
  let old := s.object.payload.extentList
  call
  let acc ← replaceLoop new (old.length + 3) (fun _ => pure ()) ⟨[], false, []⟩ old
  if acc.emitted = false then fail .corrupt
  else do
    if acc.out.length ≤ maxFileExtents then modify fun s => s.setPayload (.extents acc.out)
    else pagedExtentRewriteAll acc.out true
    freeRuns acc.released

def fileReplaceRange (start count physical : Nat) (flags : UInt32) : FileM Unit := do
  let s ← get
  note (.replace start count s.object.payload.extentList)
  if (addChecked start count).isNone = true ∨ uint32Max < count ∨ extentFlagsValid count physical flags = false then
    fail .invalidArgument
  else if s.object.payload.isPaged then pagedExtentReplaceRebuild ⟨start, physical, count, flags⟩
  else classicReplaceRange ⟨start, physical, count, flags⟩

end Replace

section Grow

/-- The loop of `paged_extent_ensure`: holes of at most UINT32_MAX blocks. -/
def appendHoles (capacity have_ remaining : Nat) (out : List Extent) : Except Status (List Extent) :=
  if h : remaining = 0 then .ok out
  else
    let chunk := min uint32Max remaining
    match extentEmitCapacity out capacity ⟨have_, 0, chunk, extentHole⟩ with
    | .error status => .error status
    | .ok out => appendHoles capacity (have_ + chunk) (remaining - chunk) out
termination_by remaining
decreasing_by
  have : 0 < uint32Max := by decide
  omega

def pagedExtentEnsure (needed : Nat) : FileM Unit := do
  let entries ← pagedExtentSnapshot
  let present := lastStop entries
  if 2 ^ 64 ≤ present then fail .corrupt
  else if needed ≤ present then pure ()
  else
    let remaining := needed - present
    let capacity := entries.length + remaining / uint32Max + 2
    if uint32Max < capacity then fail .overflow
    else do
      call
      let out ← ofExcept (appendHoles capacity present remaining entries)
      pagedExtentRewriteAll out false

def holeGrowth (remaining : Nat) (entries : List Extent) : Nat :=
  let last := entries.getLastD default
  if entries ≠ [] ∧ last.flags = extentHole then min remaining (uint32Max - last.blockCount) else 0

theorem holeGrowth_le (remaining : Nat) (entries : List Extent) : holeGrowth remaining entries ≤ remaining := by
  simp only [holeGrowth]
  split
  · exact Nat.min_le_left _ _
  · exact Nat.zero_le _

/-- The loop of `file_ensure_logical_blocks` over the extents of a classic
file, and whether they have to move to pages before it is done. -/
def growClassic (present needed : Nat) (entries : List Extent) : List Extent × Bool :=
  if h : present < needed then
    let remaining := needed - present
    let last := entries.getLastD default
    let add := holeGrowth remaining entries
    if hadd : 0 < add then
      growClassic (present + add) needed (entries.dropLast ++ [{ last with blockCount := last.blockCount + add }])
    else if maxFileExtents ≤ entries.length then (entries, true)
    else
      let chunk := min uint32Max remaining
      growClassic (present + chunk) needed (entries ++ [⟨present, 0, chunk, extentHole⟩])
  else (entries, false)
termination_by needed - present
decreasing_by
  · have := holeGrowth_le (needed - present) entries
    simp only [add, remaining] at *
    omega
  · have : 0 < uint32Max := by decide
    omega

def fileEnsureLogicalBlocks (needed : Nat) : FileM Unit := do
  fileValidateVolume
  let present ← fileLogicalBlocksVolume
  let s ← get
  if needed ≤ present then pure ()
  else if s.object.payload.isPaged then pagedExtentEnsure needed
  else do
    let grown := growClassic present needed s.object.payload.extentList
    if grown.2 then do
      pagedExtentRewriteAll grown.1 true
      pagedExtentEnsure needed
    else modify fun s => s.setPayload (.extents grown.1)

end Grow

section Cut

/-- The loop body of the truncation of a classic file and of
`paged_extent_truncate`: an extent past the target is released, one across it
is shortened. The first releases before it keeps, the second after. -/
def truncateExtent (target : Nat) (e : Extent) : FileM (List Extent) := do
  if target ≤ e.logicalBlock then do
    if extentKind e.flags = extentNormal then fileFreeUnsharedRun e.physical else pure ()
    pure []
  else do
    let retained := if target < e.stop then target - e.logicalBlock else e.blockCount
    note (.retain e retained)
    if retained < e.blockCount ∧ e.isCompressed = true then fail .corrupt
    else do
      if retained < e.blockCount ∧ extentKind e.flags = extentNormal then
        fileFreeUnsharedRun ⟨e.physicalBlock + retained, e.blockCount - retained⟩
      else pure ()
      pure [{ e with blockCount := retained }]

def truncateLoop (target : Nat) : List Extent → FileM (List Extent)
  | [] => pure []
  | e :: es => do
      let kept ← truncateExtent target e
      let rest ← truncateLoop target es
      pure (kept ++ rest)

def pagedExtentTruncate (target : Nat) : FileM Unit := do
  let old ← pagedExtentSnapshot
  if target = 0 then fail .invalidArgument
  else do
    call
    let kept ← truncateLoop target old
    if kept = [] then fail .corrupt else pagedExtentRewriteAll kept false

def classicTruncate (target : Nat) : FileM Unit := do
  let s ← get
  let kept ← truncateLoop target s.object.payload.extentList
  modify fun s => s.setPayload (.extents kept)

end Cut

end InfiltratorFS.File
