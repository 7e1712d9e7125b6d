import InfiltratorFS.Format.Locator
import InfiltratorFS.Library.Scan
import InfiltratorFS.Volume.State

namespace InfiltratorFS.Native

open Segment Scan

section Arenas

def reservationShards : Nat := 64

def metadataReserveExtraBlocks : Nat := 1024

def compressionClusterBlocks : Nat := 64

def shardFor (total block : Nat) : Nat :=
  if total ≤ 1 ∨ block ≤ 1 then 0
  else min (min (block - 1) (total - 1 - 1) * reservationShards / (total - 1)) (reservationShards - 1)

def shardBounds (total shard : Nat) : Nat × Nat :=
  (1 + (total - 1) * shard / reservationShards, 1 + (total - 1) * (shard + 1) / reservationShards)

variable (busy : Nat → Bool)

def firstBusy (start count : Nat) : Nat := countWhile (fun b => !busy b) count start

/-- The candidates of one sweep over an arena. A busy block rules out every
start up to it. -/
def candidateLoop (count scanEnd : Nat) : Nat → Nat → Option Nat
  | 0, _ => none
  | fuel + 1, candidate =>
    if scanEnd - count < candidate then none
    else
      let blocked := firstBusy busy candidate count
      if blocked < candidate + count then candidateLoop count scanEnd fuel (blocked + 1)
      else some candidate

def sweep (count scanStart scanEnd : Nat) : Option Nat :=
  if scanEnd < scanStart ∨ scanEnd - scanStart < count then none
  else candidateLoop busy count scanEnd (scanEnd - scanStart + 1) scanStart

def arenaHint (rotational : Bool) (arena : Nat × Nat) (hint count preferred : Nat) : Nat :=
  let hint := if rotational = true ∧ arena.1 ≤ preferred ∧ preferred < arena.2 then min preferred (arena.2 - count) else hint
  if hint < arena.1 ∨ arena.2 ≤ hint then arena.1 else hint

/-- Both sweeps: from the hint to the end of the arena, then up to the hint. -/
def findRun (arena : Nat × Nat) (hint count : Nat) : Option Nat :=
  match sweep busy count hint arena.2 with
  | some start => some start
  | none => sweep busy count arena.1 hint

/-- A run of so many blocks that nothing has. -/
def Free (start count : Nat) : Prop := ∀ b, start ≤ b → b < start + count → busy b = false

/-- What a scan from lo to hi returns: a free run in there, or none if there is none. -/
def Scans (count lo hi : Nat) : Option Nat → Prop
  | some start => lo ≤ start ∧ start + count ≤ hi ∧ Free busy start count
  | none => ∀ start, lo ≤ start → start + count ≤ hi → ¬Free busy start count

variable {busy : Nat → Bool} {count : Nat}

theorem candidateLoop_scans {scanEnd fuel candidate : Nat} (hcount : count ≤ scanEnd) (hfuel : scanEnd < candidate + fuel) :
    Scans busy count candidate scanEnd (candidateLoop busy count scanEnd fuel candidate) := by
  induction fuel generalizing candidate with
  | zero => exact fun start hlo hhi => by omega
  | succ fuel ih =>
    rw [candidateLoop]
    split
    · exact fun start hlo hhi => by omega
    · have hlo : candidate ≤ firstBusy busy candidate count := le_countWhile _ count candidate
      dsimp only
      split
      · rename_i hlt
        have hbusy : busy (firstBusy busy candidate count) = true := by
          simpa [firstBusy] using countWhile_stops (fun b => !busy b) count candidate hlt
        have hnext := ih (by omega : scanEnd < firstBusy busy candidate count + 1 + fuel)
        cases hfound : candidateLoop busy count scanEnd fuel (firstBusy busy candidate count + 1) with
        | some start =>
          rw [hfound] at hnext
          exact ⟨hlo.trans (Nat.le_of_lt hnext.1), hnext.2⟩
        | none =>
          rw [hfound] at hnext
          -- a start up to the busy block has that block in its run
          intro start hstart hstop hfree
          by_cases hpast : firstBusy busy candidate count < start
          · exact hnext start hpast hstop hfree
          · rw [hfree _ (by omega) (by omega)] at hbusy
            cases hbusy
      · refine ⟨le_rfl, by omega, fun b hb hstop => ?_⟩
        simpa using countWhile_holds (fun b => !busy b) count candidate b hb (by rw [firstBusy] at *; omega)

theorem sweep_scans (scanStart scanEnd : Nat) : Scans busy count scanStart scanEnd (sweep busy count scanStart scanEnd) := by
  rw [sweep]
  split
  · exact fun start hlo hhi => by omega
  · exact candidateLoop_scans (by omega) (by omega)

variable {arena : Nat × Nat} {hint start : Nat}

theorem findRun_some (h : findRun busy arena hint count = some start) :
    Free busy start count ∧ (hint ≤ start ∧ start + count ≤ arena.2 ∨ arena.1 ≤ start ∧ start + count ≤ hint) := by
  have hfirst : Scans busy count _ _ _ := sweep_scans hint arena.2
  rw [findRun] at h
  split at h
  · rename_i hfound
    rw [hfound] at hfirst
    cases h
    exact ⟨hfirst.2.2, .inl ⟨hfirst.1, hfirst.2.1⟩⟩
  · have hsecond : Scans busy count _ _ _ := sweep_scans arena.1 hint
    rw [h] at hsecond
    exact ⟨hsecond.2.2, .inr ⟨hsecond.1, hsecond.2.1⟩⟩

end Arenas

section Mount

/-- `struct infilfs_parallel_reservation` while it is active. -/
structure Reservation where
  run : Segment
  shard : Nat
  deriving DecidableEq, Inhabited

/-- Where a thread is in `infilfs_native_prepare_append`: it has read the free
blocks, it looks through the arenas, it writes its data into the reserved
blocks, or it holds a prepared append. -/
inductive Writer
  | idle
  | charging (count preferred freeBlocks : Nat)
  | searching (count preferred firstShard pass : Nat)
  | staging (held : Reservation) (next : Nat)
  | prepared (held : Reservation)
  deriving DecidableEq, Inhabited

def Writer.held : Writer → Option Reservation
  | .staging r _ => some r
  | .prepared r => some r
  | _ => none

/-- `struct infilfs_native_pending` with its transaction and the snapshot of
the open operation. -/
structure Pending where
  active : Bool
  commitFailed : Bool
  allocated : List Segment
  deferred : List Segment
  freeBlocks : Nat
  operationAllocatedCount : Nat
  operationFreeBlocks : Nat
  operationDeferredCount : Nat
  operationLastDeferred : Option Segment
  deriving Inhabited

inductive Stage
  | pages
  | dependencies
  | flush
  | checkpoint
  deriving DecidableEq

inductive Phase
  | idle
  | allocating
  | retired (stage : Stage)
  | published
  deriving DecidableEq

def Phase.isRetired : Phase → Bool
  | .retired _ => true
  | _ => false

/-- A mount as its threads share it. `durable` is the bitmap of the newest
generation on the medium, and `overwritten` lists the blocks of that
generation that were staged over. -/
structure Mount where
  total : Nat
  deviceBlocks : Nat
  bitmap : Nat → Bool
  reservations : Nat → Bool
  hints : Nat → Nat
  steer : Nat
  reservedBlocks : Nat
  resizeActive : Bool
  rotational : Bool
  leafCount : Nat
  branchCount : Nat
  snapshotBitmap : Option (Nat → Bool)
  checkpoints : List Nat
  diskFreeBlocks : Nat
  writePoisoned : Bool
  pending : Pending
  phase : Phase
  writers : Nat → Writer
  durable : Nat → Bool
  overwritten : List Nat

def Mount.setWriter (m : Mount) (w : Nat) (writer : Writer) : Mount :=
  { m with writers := Function.update m.writers w writer }

def Mount.metadataReserveBlocks (m : Mount) : Nat :=
  min (m.leafCount + m.branchCount + metadataReserveExtraBlocks) m.total

def Mount.visibleFreeBlocks (m : Mount) : Nat := if m.pending.active then m.pending.freeBlocks else m.diskFreeBlocks

def Mount.busy (m : Mount) (b : Nat) : Bool := m.bitmap b || m.reservations b

end Mount

section Writers

variable (m : Mount)

/-- The checks of `infilfs_native_prepare_append` and of
`infilfs_parallel_reserve_data`, up to the read of the free blocks. The data
takes so many blocks on the medium, compressed or not. -/
def Mount.prepare (w bytes physicalBlocks preferred : Nat) : Mount :=
  let logicalBlocks := bytes / blockSize
  if bytes % blockSize ≠ 0 ∨ logicalBlocks < 2 ∨ compressionClusterBlocks < logicalBlocks then m
  else if physicalBlocks = 0 ∨ logicalBlocks < physicalBlocks ∨ m.total ≤ physicalBlocks ∨ m.resizeActive = true then m
  else m.setWriter w (.charging physicalBlocks preferred m.visibleFreeBlocks)

/-- The compare-and-exchange on `allocation_reserved_blocks` and the choice of
the first arena. -/
def Mount.charge (w count preferred freeBlocks : Nat) : Mount :=
  let available := freeBlocks - m.metadataReserveBlocks
  if available ≤ m.reservedBlocks ∨ available - m.reservedBlocks < count then m.setWriter w .idle
  else if 0 < preferred ∧ preferred < m.total then
    { m with reservedBlocks := m.reservedBlocks + count }.setWriter w
      (.searching count preferred (shardFor m.total preferred) 0)
  else
    { m with reservedBlocks := m.reservedBlocks + count, steer := m.steer + 1 }.setWriter w
      (.searching count preferred ((m.steer + 1) % reservationShards) 0)

def Mount.giveUp (w count : Nat) : Mount :=
  { m with reservedBlocks := m.reservedBlocks - count }.setWriter w .idle

/-- The run found in an arena is marked as reserved. -/
def Mount.reserve (w : Nat) (r : Reservation) (arena : Nat × Nat) : Mount :=
  { m with
    reservations := setRange m.reservations r.run.start r.run.count true
    hints := Function.update m.hints r.shard (if r.run.stop < arena.2 then r.run.stop else arena.1) }.setWriter w (.staging r 0)

/-- One arena of `infilfs_parallel_reserve_data`, under the lock of its shard
and the read lock of the bitmap. -/
def Mount.search (w count preferred firstShard pass : Nat) : Mount :=
  if reservationShards ≤ pass then m.giveUp w count
  else
    let shard := (firstShard + pass) % reservationShards
    let arena := shardBounds m.total shard
    let next := m.setWriter w (.searching count preferred firstShard (pass + 1))
    if arena.2 ≤ arena.1 ∨ arena.2 - arena.1 < count then next
    else if m.resizeActive = true then m.giveUp w count
    else match findRun m.busy arena (arenaHint m.rotational arena (m.hints shard) count preferred) count with
      | none => next
      | some start => m.reserve w ⟨⟨start, count⟩, shard⟩ arena

def Mount.release (w : Nat) (r : Reservation) : Mount :=
  { m with
    reservations := setRange m.reservations r.run.start r.run.count false
    reservedBlocks := m.reservedBlocks - r.run.count }.setWriter w .idle

/-- `infilfs_native_stage_block` for the next reserved block. The append is
given up if it fails. -/
def Mount.stage (w : Nat) (r : Reservation) (next : Nat) (ok : Bool) : Mount :=
  let block := r.run.start + next
  if ok = false ∨ m.deviceBlocks ≤ block then m.release w r
  else
    { m with overwritten := if m.durable block then m.overwritten ++ [block] else m.overwritten }.setWriter w
      (if next + 1 < r.run.count then .staging r (next + 1) else .prepared r)

end Writers

section Transactions

variable (m : Mount)

def Mount.begin : Mount :=
  if m.pending.commitFailed = true ∨ m.resizeActive = true ∨ m.pending.active = true ∨ m.writePoisoned = true then m
  else { m with
    pending := { m.pending with active := true, allocated := [], deferred := [], freeBlocks := m.diskFreeBlocks } }

def Mount.snapshot : Mount :=
  { m with
    pending := { m.pending with
      operationAllocatedCount := m.pending.allocated.length
      operationFreeBlocks := m.pending.freeBlocks
      operationDeferredCount := m.pending.deferred.length
      operationLastDeferred := m.pending.deferred.getLast? } }

def Mount.claim (run : Segment) (consumeReservation : Bool) : Option Mount :=
  if run.count = 0 ∨ run.start < 1 ∨ m.total ≤ run.start ∨ m.total - run.start < run.count ∨
      m.pending.freeBlocks < run.count then none
  else if (List.range run.count).any fun i =>
      m.bitmap (run.start + i) || m.reservations (run.start + i) != consumeReservation then none
  else some { m with
    bitmap := setRange m.bitmap run.start run.count true
    reservations := if consumeReservation then setRange m.reservations run.start run.count false else m.reservations
    reservedBlocks := if consumeReservation then m.reservedBlocks - run.count else m.reservedBlocks
    pending := { m.pending with
      allocated := m.pending.allocated ++ [run]
      freeBlocks := m.pending.freeBlocks - run.count } }

def Mount.deferFree (run : Segment) : Mount :=
  if run.count = 0 ∨ m.total ≤ run.start ∨ m.total - run.start < run.count then m
  else { m with
    pending := { m.pending with
      deferred := match m.pending.deferred.getLast? with
        | some last =>
          if last.stop = run.start then m.pending.deferred.dropLast ++ [⟨last.start, last.count + run.count⟩]
          else m.pending.deferred ++ [run]
        | none => [run] } }

def Pending.restoredDeferred (p : Pending) : List Segment :=
  match p.operationLastDeferred with
  | some last =>
    if p.operationDeferredCount = 0 then []
    else (p.deferred.take p.operationDeferredCount).dropLast ++ [last]
  | none => p.deferred.take p.operationDeferredCount

/-- `infilfs_native_operation_rollback`; putting back a block of the undo log
may fail. -/
def Mount.rollback (undone : Bool) : Mount :=
  { m with
    bitmap := clearRanges m.bitmap (m.pending.allocated.drop m.pending.operationAllocatedCount)
    writePoisoned := m.writePoisoned || !undone
    pending := { m.pending with
      allocated := m.pending.allocated.take m.pending.operationAllocatedCount
      deferred := m.pending.restoredDeferred
      freeBlocks := m.pending.operationFreeBlocks
      commitFailed := m.pending.commitFailed || !undone } }

/-- A block that `infilfs_rw_tx_apply_deferred` leaves alone. -/
def Mount.keeps (b : Nat) : Bool :=
  m.checkpoints.contains b || b == locatorBlockA || b == locatorBlockB || m.snapshotBitmap.any (· b)

def retireBlocks (keeps : Nat → Bool) : List Nat → (Nat → Bool) × Nat → (Nat → Bool) × Nat
  | [], state => state
  | b :: blocks, (bitmap, free) =>
    if keeps b || !bitmap b then retireBlocks keeps blocks (bitmap, free)
    else retireBlocks keeps blocks (Function.update bitmap b false, free + 1)

def blocksOf (runs : List Segment) : List Nat := runs.flatMap fun r => List.range' r.start r.count

/-- `infilfs_rw_tx_apply_deferred`, under the write lock of the bitmap. -/
def Mount.applyDeferred : Mount :=
  let retired := retireBlocks m.keeps (blocksOf m.pending.deferred) (m.bitmap, m.pending.freeBlocks)
  { m with
    bitmap := retired.1
    pending := { m.pending with freeBlocks := retired.2 }
    phase := .retired .pages }

/-- The next stage of `infilfs_rw_tx_commit` after one that succeeded. The
first checkpoint copy makes the generation durable. -/
def Mount.proceed : Stage → Mount
  | .pages => { m with phase := .retired .dependencies }
  | .dependencies => { m with phase := .retired .flush }
  | .flush => { m with phase := .retired .checkpoint }
  | .checkpoint => { m with phase := .published, durable := m.bitmap }

/-- The end of a commit, once the other copies are written or have failed. -/
def Mount.finish (replicaError : Bool) : Mount :=
  { m with
    phase := .idle
    diskFreeBlocks := m.pending.freeBlocks
    writePoisoned := m.writePoisoned || replicaError
    pending := { m.pending with active := false, allocated := [], deferred := [] } }

/-- A commit that failed: the mount accepts no further transaction, and the
bitmap stays as the commit left it. -/
def Mount.failCommit : Mount :=
  { m with writePoisoned := true, pending := { m.pending with commitFailed := true } }

def Mount.transacting : Bool := m.pending.active && !m.pending.commitFailed

end Transactions

section Interleaving

/-- One step of a thread between two points at which another may run: the
threads that prepare an append, named by a number, and the one that holds
`write_lock`. -/
inductive Action
  | prepare (w bytes physicalBlocks preferred : Nat)
  | charge (w : Nat)
  | search (w : Nat)
  | stage (w : Nat) (ok : Bool)
  | discard (w : Nat)
  | begin
  | snapshot
  | claim (run : Segment)
  | consume (w : Nat)
  | deferFree (run : Segment)
  | rollback (undone : Bool)
  | commit
  | applyDeferred
  | proceed
  | reach
  | finish (replicaError : Bool)
  | fail
  deriving DecidableEq

/-- An action that is not possible where its thread is changes nothing. -/
def Mount.step (m : Mount) : Action → Mount
  | .prepare w bytes physicalBlocks preferred =>
    if m.writers w = .idle then m.prepare w bytes physicalBlocks preferred else m
  | .charge w => match m.writers w with
      | .charging count preferred freeBlocks => m.charge w count preferred freeBlocks
      | _ => m
  | .search w => match m.writers w with
      | .searching count preferred firstShard pass => m.search w count preferred firstShard pass
      | _ => m
  | .stage w ok => match m.writers w with
      | .staging r next => m.stage w r next ok
      | _ => m
  | .discard w => match m.writers w with
      | .prepared r => m.release w r
      | _ => m
  | .begin => if m.phase = .idle then m.begin else m
  | .snapshot => if m.phase = .idle ∧ m.transacting = true then m.snapshot else m
  | .claim run =>
    if (m.phase = .idle ∨ m.phase = .allocating) ∧ m.transacting = true then (m.claim run false).getD m else m
  | .consume w => match m.writers w with
      | .prepared r =>
        if m.phase = .idle ∧ m.transacting = true then
          match m.claim r.run true with
          | some claimed => claimed.setWriter w .idle
          | none => m
        else m
      | _ => m
  | .deferFree run =>
    if (m.phase = .idle ∨ m.phase = .allocating) ∧ m.transacting = true then m.deferFree run else m
  | .rollback undone => if m.phase = .idle ∧ m.transacting = true then m.rollback undone else m
  | .commit => if m.phase = .idle ∧ m.transacting = true then { m with phase := .allocating } else m
  | .applyDeferred => if m.phase = .allocating ∧ m.transacting = true then m.applyDeferred else m
  | .proceed => match m.phase with
      | .retired stage => if m.transacting = true then m.proceed stage else m
      | _ => m
  -- The checkpoint may be on the medium before its write or flush returns,
  -- also where that returns an error.
  | .reach => if m.phase = .retired .checkpoint then { m with durable := m.bitmap } else m
  | .finish replicaError => if m.phase = .published then m.finish replicaError else m
  | .fail => match m.phase with
      | .allocating => m.failCommit
      | .retired _ => m.failCommit
      | _ => m

def Mount.run (m : Mount) (schedule : List Action) : Mount := schedule.foldl Mount.step m

def Action.isSearch : Action → Bool
  | .search _ => true
  | _ => false

/-- No arena is searched between the deferred frees of a commit and its first
checkpoint copy, nor after a commit that failed in between. -/
def searchesOutside (m : Mount) : List Action → Bool
  | [] => true
  | a :: schedule => !(a.isSearch && m.phase.isRetired) && searchesOutside (m.step a) schedule

end Interleaving

end InfiltratorFS.Native
