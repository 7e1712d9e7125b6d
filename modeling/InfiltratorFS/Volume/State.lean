import InfiltratorFS.Format.Types
import InfiltratorFS.Library.Segment
import InfiltratorFS.Library.Prog
import Mathlib.Logic.Function.Basic

namespace InfiltratorFS

/-- `struct infs_deferred_range` and `struct infs_free_extent`. -/
abbrev Range := Segment

open Segment

/-- What the environment answers to one storage or memory request. After a
failed write the medium may hold the old block or any residue. -/
structure Outcome (β : Type) where
  status : Status
  residue : Option β
  deriving Inhabited

inductive Event
  | write (block : Nat)
  | flush
  deriving DecidableEq, Repr

/-- The medium, the answers of the environment to the requests to come, the
requests made so far, and how many writes and flushes among them failed. -/
structure Medium (β : Type) where
  disk : Nat → β
  env : Nat → Outcome β
  tick : Nat
  trace : List Event
  failures : Nat
  deriving Inhabited

/-- The transaction state, the fields `tx_*` of `struct infs_volume`. -/
structure Transaction where
  active : Bool
  error : Status
  baseSb : Superblock
  deferred : List Range
  allocated : List Range
  pendingBytes : Nat
  deriving Inhabited

/-- The savepoint of one mutation, the fields `tx_operation_*`. -/
structure Savepoint where
  active : Bool
  sb : Superblock
  allocatedCount : Nat
  deferredCount : Nat
  hadLastDeferred : Bool
  lastDeferred : Range
  pendingBytes : Nat
  dataCursor : Nat
  metadataCursor : Nat
  deriving Inhabited

structure AllocationLayout where
  leafBlocks : List Nat
  branchBlocks : List Nat
  level1Count : Nat
  level2Count : Nat
  deriving DecidableEq, Inhabited

structure FreeExtentIndex where
  extents : List Range
  valid : Bool
  deriving Inhabited

/-- `struct infs_volume` over block contents β. -/
structure Volume (β : Type) where
  medium : Medium β
  writable : Bool
  checkpointRepairNeeded : Bool
  reopenRequiredStatus : Status
  sizeBytes : Nat
  sb : Superblock
  bitmap : Nat → Bool
  layout : AllocationLayout
  tx : Transaction
  operation : Savepoint
  deferredPublish : Bool
  deferredPublishThresholdBytes : Nat
  dataAllocationCursor : Nat
  metadataAllocationCursor : Nat
  freeIndex : FreeExtentIndex
  deriving Inhabited

abbrev VolumeM (β : Type) := Prog (Volume β) Status

namespace Volume

variable {β : Type}

def total (v : Volume β) : Nat := v.sb.total

end Volume

section Storage

variable {β : Type}

def Volume.answer (v : Volume β) : Outcome β := v.medium.env v.medium.tick

def Volume.tickOn (v : Volume β) : Volume β := { v with medium.tick := v.medium.tick + 1 }

def Medium.write (m : Medium β) (block : Nat) (data : β) : Medium β :=
  let outcome := m.env m.tick
  { m with
    tick := m.tick + 1
    trace := m.trace ++ [Event.write block]
    failures := if outcome.status = .ok then m.failures else m.failures + 1
    disk := if outcome.status = .ok then Function.update m.disk block data
      else match outcome.residue with
        | some residue => Function.update m.disk block residue
        | none => m.disk }

theorem Medium.write_disk_ne (m : Medium β) (block : Nat) (data : β) {b : Nat} (h : b ≠ block) :
    (m.write block data).disk b = m.disk b := by
  simp only [Medium.write]
  split
  · exact Function.update_of_ne h _ _
  · cases (m.env m.tick).residue with
    | none => rfl
    | some residue => exact Function.update_of_ne h _ _

def Medium.flush (m : Medium β) : Medium β :=
  { m with
    tick := m.tick + 1
    trace := m.trace ++ [Event.flush]
    failures := if (m.env m.tick).status = .ok then m.failures else m.failures + 1 }

def resultOf (status : Status) : Except Status Unit := if status = .ok then .ok () else .error status

def reserve : VolumeM β Bool := fun v => (.ok (decide (v.answer.status = .ok)), v.tickOn)

def storageWrite (block : Nat) (data : β) : VolumeM β Unit := fun v =>
  (resultOf v.answer.status, { v with medium := v.medium.write block data })

def storageFlush : VolumeM β Unit := fun v =>
  (resultOf v.answer.status, { v with medium := v.medium.flush })

def storageRead (block : Nat) : VolumeM β β := fun v =>
  (if v.answer.status = .ok then .ok (v.medium.disk block) else .error v.answer.status, v.tickOn)

def readBlock (block : Nat) : VolumeM β β := fun v =>
  if v.total ≤ block then (.error .invalidArgument, v) else storageRead block v

def writeBlock (block : Nat) (data : β) : VolumeM β Unit := fun v =>
  if v.total ≤ block then (.error .invalidArgument, v) else storageWrite block data v

end Storage

variable (bitmap : Nat → Bool)

/-- `for (b = start; b < start + count; ++b) bitmap_set(bitmap, b, value)`. -/
def setRange (start count : Nat) (value : Bool) : Nat → Bool :=
  fun b => if start ≤ b ∧ b < start + count then value else bitmap b

def clearRanges (ranges : List Range) : Nat → Bool :=
  ranges.foldl (fun bitmap r => setRange bitmap r.start r.count false) bitmap

theorem setRange_apply (start count : Nat) (value : Bool) (b : Nat) :
    setRange bitmap start count value b =
      if (Segment.mk start count).contains b then value else bitmap b := by
  simp only [setRange, contains_iff, stop]

theorem clearRanges_apply (ranges : List Range) (b : Nat) :
    clearRanges bitmap ranges b = (bitmap b && !covers ranges b) := by
  induction ranges generalizing bitmap with
  | nil => simp [clearRanges]
  | cons r ranges ih =>
    have h : clearRanges bitmap (r :: ranges) = clearRanges (setRange bitmap r.start r.count false) ranges := rfl
    rw [h, ih, setRange_apply, covers_cons]
    cases r.contains b <;> simp

end InfiltratorFS
