import InfiltratorFS.Volume.FreeExtents

namespace InfiltratorFS

open Segment Scan Prog

variable {β : Type}

section Index

def freeExtentIndexRebuild : VolumeM β Unit := do
  let granted ← reserve
  modify fun v =>
    if granted then { v with freeIndex.extents := freeRuns v.bitmap v.total, freeIndex.valid := true }
    else { v with freeIndex.valid := false }

/-- `if (index_valid && !free_extent_index_remove(..)) invalidate`. -/
def removeOrInvalidate (start count : Nat) : VolumeM β Unit := do
  let granted ← reserve
  modify fun v =>
    if v.freeIndex.valid then
      match freeExtentIndexRemove v.freeIndex.extents granted start count with
      | some extents => { v with freeIndex.extents := extents }
      | none => { v with freeIndex.valid := false }
    else v

/-- `if (index_valid && !free_extent_index_add(..)) invalidate`. -/
def addOrInvalidate (start count : Nat) : VolumeM β Unit := do
  let granted ← reserve
  modify fun v =>
    if v.freeIndex.valid then
      match freeExtentIndexAdd v.freeIndex.extents granted start count with
      | some extents => { v with freeIndex.extents := extents }
      | none => { v with freeIndex.valid := false }
    else v

end Index

section Transaction

def txBegin : VolumeM β Unit := fun v =>
  if v.reopenRequiredStatus ≠ .ok then (.error v.reopenRequiredStatus, v)
  else if v.writable = false then (.error .readOnly, v)
  else if v.tx.active then (if v.tx.error = .ok then (.ok (), v) else (.error v.tx.error, v))
  else if (addChecked v.sb.generation.toNat 1).isNone then (.error .overflow, v)
  else (.ok (), { v with tx.baseSb := v.sb, tx.deferred := [], tx.allocated := [], tx.error := .ok, tx.active := true })

def txRecordAllocated (start count : Nat) : VolumeM β Unit := do
  let v ← get
  if v.tx.active = false ∨ count = 0 ∨ (addChecked start count).isNone then fail .invalidArgument
  else do
    let granted ← reserve
    if granted then modify fun v => { v with tx.allocated := v.tx.allocated ++ [⟨start, count⟩] }
    else fail .noMemory

variable (v : Volume β)

def txBlockPrivateSince (block first : Nat) : Bool :=
  v.tx.active && covers (v.tx.allocated.drop first) block

def txBlockPrivate (block : Nat) : Bool :=
  txBlockPrivateSince v block (if v.operation.active then v.operation.allocatedCount else 0)

def txOperationBegin : VolumeM β Unit := do
  let v ← get
  if v.tx.active = false ∨ v.operation.active then fail .invalidArgument
  else modify fun v =>
    { v with
      operation.allocatedCount := v.tx.allocated.length
      operation.deferredCount := v.tx.deferred.length
      operation.hadLastDeferred := decide (v.tx.deferred ≠ [])
      operation.lastDeferred := v.tx.deferred.getLast?.getD v.operation.lastDeferred
      operation.sb := v.sb
      operation.pendingBytes := v.tx.pendingBytes
      operation.dataCursor := v.dataAllocationCursor
      operation.metadataCursor := v.metadataAllocationCursor
      operation.active := true }

def txOperationDiscard : Volume β :=
  { v with
    operation.allocatedCount := 0
    operation.deferredCount := 0
    operation.hadLastDeferred := false
    operation.lastDeferred := ⟨0, 0⟩
    operation.active := false }

def txOperationCommit : VolumeM β Unit := modify txOperationDiscard

/-- The deferred list cut back to the savepoint, its last range restored in
case later calls extended it in place. -/
def restoreDeferred : List Range :=
  let kept := v.tx.deferred.take v.operation.deferredCount
  if v.operation.hadLastDeferred ∧ v.operation.deferredCount ≠ 0 then
    kept.set (v.operation.deferredCount - 1) v.operation.lastDeferred
  else kept

def undoOperation : Volume β :=
  txOperationDiscard
    { v with
      bitmap := clearRanges v.bitmap (v.tx.allocated.drop v.operation.allocatedCount)
      tx.allocated := v.tx.allocated.take v.operation.allocatedCount
      sb := v.operation.sb
      tx.deferred := restoreDeferred v
      tx.pendingBytes := v.operation.pendingBytes
      dataAllocationCursor := v.operation.dataCursor
      metadataAllocationCursor := v.operation.metadataCursor
      tx.error := .ok }

def txOperationAbort : VolumeM β Unit := do
  let v ← get
  if v.operation.active then do
    modify undoOperation
    freeExtentIndexRebuild
  else pure ()

/-- The second loop of `tx_abort`: deferred blocks that the transaction did
not allocate itself are set again. -/
def resetDeferred (bitmap : Nat → Bool) : List Range → Nat → Bool
  | [] => bitmap
  | r :: rs => resetDeferred
      (fun b => if r.contains b && !txBlockPrivateSince v b 0 then true else bitmap b) rs

def undoTransaction : Volume β :=
  let v := if v.operation.active then txOperationDiscard v else v
  { v with
    bitmap := resetDeferred v (clearRanges v.bitmap v.tx.allocated) v.tx.deferred
    sb := v.tx.baseSb
    tx.allocated := []
    tx.deferred := []
    tx.error := .ok
    tx.active := false }

def txAbort : VolumeM β Unit := do
  let v ← get
  if v.tx.active then do
    modify undoTransaction
    freeExtentIndexRebuild
  else pure ()

def txDeferRange (start count : Nat) : VolumeM β Unit := do
  let v ← get
  if count = 0 then pure ()
  else if v.tx.active = false then fail .invalidArgument
  else if v.tx.error ≠ .ok then fail v.tx.error
  else match v.tx.deferred.getLast? with
    | some last =>
      if addChecked last.start last.count = some start then
        match addChecked last.count count with
        | none => do
            modify fun v => { v with tx.error := .overflow }
            fail .overflow
        | some merged => modify fun v => { v with tx.deferred := v.tx.deferred.dropLast ++ [⟨last.start, merged⟩] }
      else appendDeferred
    | none => appendDeferred
where
  appendDeferred : VolumeM β Unit := do
    let granted ← reserve
    if granted then modify fun v => { v with tx.deferred := v.tx.deferred ++ [⟨start, count⟩] }
    else fail .noMemory

end Transaction

section Scans

variable (bitmap : Nat → Bool)

/-- The loop of `alloc_scan_segment` over [b, stop). Each pass consumes at
least one block, so `stop - begin` passes are enough. -/
def allocScanSegment (wanted stop : Nat) : Nat → Nat → Nat × Nat → Bool × (Nat × Nat)
  | 0, _, best => (false, best)
  | fuel + 1, b, best =>
    let start := countWhile bitmap (stop - b) b
    if stop ≤ start then (false, best)
    else
      let b := countWhile (fun x => !bitmap x && x - start < wanted) (stop - start) start
      let len := b - start
      let best := if best.2 < len then (start, len) else best
      if len = wanted then (true, best)
      else allocScanSegment wanted stop fuel (countWhile (fun x => !bitmap x) (stop - b) b) best

def scanForward (wanted start stop : Nat) (best : Nat × Nat) : Bool × (Nat × Nat) :=
  allocScanSegment bitmap wanted stop (stop - start) start best

def allocScanSegmentReverse (wanted start : Nat) :
    Nat → Nat → Nat × Nat → Bool × (Nat × Nat)
  | 0, _, best => (false, best)
  | fuel + 1, b, best =>
    let runEnd := countDownWhile bitmap (b - start) b
    if runEnd ≤ start then (false, best)
    else
      let b := countDownWhile (fun x => !bitmap x && runEnd - (x + 1) < wanted) (runEnd - start) runEnd
      let len := runEnd - b
      let best := if best.2 < len then (b, len) else best
      if len = wanted then (true, best)
      else allocScanSegmentReverse wanted start fuel
        (countDownWhile (fun x => !bitmap x) (b - start) b) best

def scanReverse (wanted start stop : Nat) (best : Nat × Nat) : Bool × (Nat × Nat) :=
  allocScanSegmentReverse bitmap wanted start (stop - start) stop best

/-- The search of `alloc_data_run_impl`: the index if it is valid, else the
segment from the cursor on, the segment before it, and the whole volume. -/
def chooseDataRun (v : Volume β) (wanted cursor : Nat) : Nat × Nat :=
  if v.freeIndex.valid then (freeExtentIndexChooseForward v.freeIndex.extents wanted cursor).getD (0, 0)
  else
    let r := scanForward v.bitmap wanted cursor v.total (0, 0)
    let r := if r.1 = false ∧ 1 < cursor then scanForward v.bitmap wanted 1 cursor r.2 else r
    if r.1 = false ∧ 1 < cursor ∧ r.2.2 < wanted then (scanForward v.bitmap wanted 1 v.total (0, 0)).2 else r.2

def chooseMetadataRun (v : Volume β) (wanted cursor : Nat) : Nat × Nat :=
  if v.freeIndex.valid then (freeExtentIndexChooseReverse v.freeIndex.extents wanted cursor false).getD (0, 0)
  else
    let r := scanReverse v.bitmap wanted 1 cursor (0, 0)
    let r := if r.1 = false ∧ cursor < v.total then scanReverse v.bitmap wanted cursor v.total r.2 else r
    if r.1 = false ∧ cursor < v.total ∧ r.2.2 < wanted then (scanReverse v.bitmap wanted 1 v.total (0, 0)).2 else r.2

/-- The start of a run of exactly the wanted length, if one was found. -/
def chooseExactRun (v : Volume β) (wanted cursor : Nat) : Option Nat :=
  if v.freeIndex.valid then
    (freeExtentIndexChooseReverse v.freeIndex.extents wanted cursor true).map (·.1)
  else
    let r := scanReverse v.bitmap wanted 1 cursor (0, 0)
    let r := if r.1 = false ∧ cursor < v.total then scanReverse v.bitmap wanted cursor v.total (0, 0) else r
    let r := if r.1 = false ∧ cursor < v.total then scanReverse v.bitmap wanted 1 v.total (0, 0) else r
    if r.1 then some r.2.1 else none

end Scans

section Allocate

variable [Inhabited β]

/-- The default content stands for the zero block. -/
def zeroBlocks (start : Nat) : Nat → VolumeM β Unit
  | 0 => pure ()
  | n + 1 => do
      writeBlock start default
      zeroBlocks (start + 1) n

variable (start count wanted : Nat)

def markAllocated (v : Volume β) : Volume β :=
  { v with
    bitmap := setRange v.bitmap start count true
    sb := { v.sb with freeBlocks := v.sb.freeBlocks - UInt64.ofNat count } }

def allocateSelectedRunUninitialized : VolumeM β Unit := do
  txRecordAllocated start count
  removeOrInvalidate start count
  modify (markAllocated start count)

/-- The error path of `allocate_selected_run`. -/
def unmarkAllocated (v : Volume β) : Volume β :=
  { v with
    bitmap := setRange v.bitmap start count false
    tx.allocated := v.tx.allocated.dropLast
    sb := { v.sb with freeBlocks := v.sb.freeBlocks + UInt64.ofNat count } }

def allocateSelectedRun : VolumeM β Unit := do
  allocateSelectedRunUninitialized start count
  match ← attempt (zeroBlocks start count) with
  | .ok () => pure ()
  | .error e => do
      modify (unmarkAllocated start count)
      let v ← get
      if v.freeIndex.valid then addOrInvalidate start count else freeExtentIndexRebuild
      fail e

def allocateRun (zeroFill : Bool) (start count : Nat) : VolumeM β Unit :=
  if zeroFill then allocateSelectedRun start count else allocateSelectedRunUninitialized start count

def allocDataRunImpl (zeroFill : Bool) : VolumeM β (Nat × Nat) := do
  txBegin
  let v ← get
  if wanted = 0 ∨ v.sb.freeBlocks = 0 then fail .noSpace
  else
    let cursor := if v.dataAllocationCursor < 1 ∨ v.total ≤ v.dataAllocationCursor then 1 else v.dataAllocationCursor
    let best := chooseDataRun v wanted cursor
    if best.2 = 0 then fail .noSpace
    else do
      allocateRun zeroFill best.1 best.2
      modify fun v => { v with
        dataAllocationCursor := if v.total ≤ best.1 + best.2 then 1 else best.1 + best.2 }
      pure best

def allocDataRun : VolumeM β (Nat × Nat) := allocDataRunImpl wanted true

def allocDataRunUninitialized : VolumeM β (Nat × Nat) := allocDataRunImpl wanted false

def metadataCursor (v : Volume β) : Nat :=
  if v.metadataAllocationCursor ≤ 1 ∨ v.total < v.metadataAllocationCursor then v.total
  else v.metadataAllocationCursor

def setMetadataCursor (start : Nat) (v : Volume β) : Volume β :=
  { v with metadataAllocationCursor := if start ≤ 1 then v.total else start }

def allocRun : VolumeM β (Nat × Nat) := do
  txBegin
  let v ← get
  if wanted = 0 ∨ v.sb.freeBlocks = 0 then fail .noSpace
  else
    let best := chooseMetadataRun v wanted (metadataCursor v)
    if best.2 = 0 then fail .noSpace
    else do
      allocateSelectedRun best.1 best.2
      modify (setMetadataCursor best.1)
      pure best

def allocExactRunImpl (zeroFill : Bool) : VolumeM β Nat :=
  if wanted = 0 then fail .invalidArgument
  else do
    txBegin
    let v ← get
    match chooseExactRun v wanted (metadataCursor v) with
    | none => fail .noSpace
    | some start => do
        allocateRun zeroFill start wanted
        modify (setMetadataCursor start)
        pure start

end Allocate

section Free

def clearPrivate (b : Nat) (v : Volume β) : Volume β :=
  { v with
    bitmap := setRange v.bitmap b 1 false
    sb := { v.sb with freeBlocks := v.sb.freeBlocks + 1 } }

def freeRunLoop (stop : Nat) : Nat → Nat → VolumeM β Unit
  | 0, _ => pure ()
  | fuel + 1, b => do
      let v ← get
      if stop ≤ b then pure ()
      else if v.bitmap b = false then freeRunLoop stop fuel (b + 1)
      else if txBlockPrivate v b then do
        modify (clearPrivate b)
        addOrInvalidate b 1
        freeRunLoop stop fuel (b + 1)
      else
        let e := countWhile (fun x => v.bitmap x && !txBlockPrivate v x) (stop - b) b
        match ← attempt (txDeferRange b (e - b)) with
        | .ok () => freeRunLoop stop fuel e
        | .error _ => pure ()

/-- `free_run` returns nothing: a transaction that cannot start records its
status, and a range that cannot be deferred ends the loop. -/
def freeRun (start count : Nat) : VolumeM β Unit :=
  if count = 0 then pure ()
  else do
    match ← attempt txBegin with
    | .error e => modify fun v => { v with tx.error := e }
    | .ok () => do
        let v ← get
        let stop := min (start + count) v.total
        freeRunLoop stop (stop - start) start

end Free

end InfiltratorFS
