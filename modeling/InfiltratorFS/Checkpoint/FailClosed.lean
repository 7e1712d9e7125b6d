import InfiltratorFS.Checkpoint.CrashSafety
import InfiltratorFS.Checkpoint.EntryPoints
import InfiltratorFS.Volume.AllocatorActs

namespace InfiltratorFS

open Prog

section Reports

def Reports {σ α : Type} (failures : σ → Nat) (x : Prog σ Status α) : Prop :=
  ∀ s, ((x s).1 ≠ .error .ok) ∧ ∀ a, (x s).1 = .ok a → failures (x s).2 = failures s

variable {σ : Type} {failures : σ → Nat}

theorem reports_pure {α : Type} (a : α) : Reports failures (pure a) :=
  fun _ => ⟨by simp, fun _ _ => rfl⟩

theorem reports_modify {f : σ → σ} (hf : ∀ s, failures (f s) = failures s) : Reports failures (modify f) :=
  fun s => ⟨by simp, fun _ _ => hf s⟩

theorem Reports.bind {α β : Type} {x : Prog σ Status α} {y : α → Prog σ Status β} (hx : Reports failures x)
    (hy : ∀ a, Reports failures (y a)) : Reports failures (x >>= y) := by
  intro s
  obtain ⟨hne, hok⟩ := hx s
  rcases hrun : x s with ⟨e | a, s'⟩
  · rw [bind_of_error hrun]
    rw [hrun] at hne
    exact ⟨fun h => hne (by cases h; rfl), fun b h => by cases h⟩
  · rw [bind_of_ok hrun]
    rw [hrun] at hok
    obtain ⟨hne', hok'⟩ := hy a s'
    exact ⟨hne', fun b h => (hok' b h).trans (hok a rfl)⟩

theorem Reports.onContext {α : Type} {x : Prog σ Status α} (hx : Reports failures x) :
    Reports (fun s : σ × Bool => failures s.1) (onContext x) := fun s => hx s.1

theorem reports_checkpointPublish {io : CheckpointIo σ} (hlocator : ∀ copy, Reports failures (io.locator copy))
    (hcheckpoint : ∀ copy, Reports failures (io.checkpoint copy)) (hflush : Reports failures io.flush)
    (hcommitted : ∀ s, failures (io.committed s) = failures s) (first : Nat) (relocate : Bool) :
    Reports (fun s : σ × Bool => failures s.1) (checkpointPublish io first relocate) := by
  have hcopy (first n : Nat) : Reports (fun s : σ × Bool => failures s.1) (publishCopy io first n) := by
    refine (hcheckpoint _).onContext.bind fun _ => hflush.onContext.bind fun _ => ?_
    split
    · exact reports_modify fun s => hcommitted s.1
    · exact reports_pure ()
  have hlocators (copy : Fin 2) : Reports (fun s : σ × Bool => failures s.1) (publishLocator io copy) :=
    (hlocator copy).onContext.bind fun _ => hflush.onContext
  have hcopies (first : Nat) {y : Prog (σ × Bool) Status Unit} (hy : Reports (fun s : σ × Bool => failures s.1) y) :=
    (hcopy first 0).bind fun _ => (hcopy first 1).bind fun _ => (hcopy first 2).bind fun _ => hy
  have hstart : Reports (fun s : σ × Bool => failures s.1) (modify fun s => (s.1, false)) := reports_modify fun _ => rfl
  cases relocate with
  | false => exact hstart.bind fun _ => (reports_pure ()).bind fun _ => hcopies first (reports_pure ())
  | true => exact hstart.bind fun _ => (hlocators 0).bind fun _ => hcopies 1 (hlocators 1)

end Reports

section Requests

def Volume.failures (v : Volume Block) : Nat := v.medium.failures

theorem resultOf_ok {status : Status} {a : Unit} (h : resultOf status = .ok a) : status = .ok := by
  unfold resultOf at h
  split at h
  · assumption
  · cases h

theorem resultOf_ne (status : Status) : resultOf status ≠ .error .ok := by
  unfold resultOf
  split
  · simp
  · rename_i h
    simpa using h

theorem reports_storageWrite (block : Nat) (data : Block) : Reports Volume.failures (storageWrite block data) := by
  refine fun v => ⟨resultOf_ne _, fun a h => ?_⟩
  have hok : (v.medium.env v.medium.tick).status = .ok := resultOf_ok h
  simp only [storageWrite, Volume.failures, Medium.write, if_pos hok]

theorem reports_storageFlush : Reports Volume.failures storageFlush := by
  refine fun v => ⟨resultOf_ne _, fun a h => ?_⟩
  have hok : (v.medium.env v.medium.tick).status = .ok := resultOf_ok h
  simp only [storageFlush, Volume.failures, Medium.flush, if_pos hok]

theorem reports_volumePublishLocator (sb : Superblock) (copy : Fin 2) :
    Reports Volume.failures (volumePublishLocator volumeStorage sb copy) := by
  unfold volumePublishLocator locatorEncode
  split
  · rename_i status hencode
    split at hencode
    · cases hencode
    · cases hencode
      exact fun v => ⟨by simp, fun a h => by cases h⟩
  · exact reports_storageWrite _ _

theorem reports_publication (sb : Superblock) (encoded : Block) (first : Nat) (relocate : Bool) :
    Reports (fun s : Volume Block × Bool => s.1.failures)
      (checkpointPublish (volumeCheckpointIo volumeStorage sb encoded) first relocate) :=
  reports_checkpointPublish (reports_volumePublishLocator sb) (fun _ => reports_storageWrite _ _)
    reports_storageFlush (fun _ => rfl) first relocate

end Requests

section Stages

/-- The volume refuses every further change until it is opened again. -/
def FailedClosed (v : Volume Block) : Prop := v.reopenRequiredStatus ≠ .ok ∧ v.writable = false

/-- What a step without storage requests leaves alone. -/
structure Offline (v v' : Volume Block) : Prop where
  failures : v'.failures = v.failures
  reopen : v'.reopenRequiredStatus = v.reopenRequiredStatus
  writable : v'.writable = v.writable

variable {v v' : Volume Block}

theorem Offline.closed_iff (h : Offline v v') : FailedClosed v' ↔ FailedClosed v := by
  rw [FailedClosed, FailedClosed, h.reopen, h.writable]

theorem offline_rebuild (v : Volume Block) : Offline v (freeExtentIndexRebuild v).2 := by
  obtain ⟨index, hrun, _⟩ := rebuild_apply v
  rw [hrun]
  exact ⟨rfl, rfl, rfl⟩

theorem offline_txAbort (v : Volume Block) : Offline v (txAbort v).2 := by
  simp only [txAbort, bind_apply, get_apply]
  cases hactive : v.tx.active with
  | false => exact ⟨rfl, rfl, rfl⟩
  | true =>
    simp only [if_true]
    have h := offline_rebuild (undoTransaction v)
    have hundo : Offline v (undoTransaction v) := by
      unfold undoTransaction
      split <;> exact ⟨rfl, rfl, rfl⟩
    exact ⟨h.failures.trans hundo.failures, h.reopen.trans hundo.reopen, h.writable.trans hundo.writable⟩

theorem requireCheckpointRecovery_closed (status : Status) (v : Volume Block) :
    FailedClosed (requireCheckpointRecovery status v).2 ∧ ∀ a, (requireCheckpointRecovery status v).1 ≠ .ok a := by
  simp only [requireCheckpointRecovery, bind_apply, modify_apply]
  generalize hu : ({ v with
    reopenRequiredStatus := if status = .ok then Status.ioError else status
    writable := false
    checkpointRepairNeeded := false
    tx.pendingBytes := 0 } : Volume Block) = u
  have hclosed : FailedClosed u := by
    subst hu
    refine ⟨?_, rfl⟩
    simp only
    split
    · simp
    · assumption
  have h := (offline_txAbort u).closed_iff.mpr hclosed
  rcases hrun : txAbort u with ⟨e | a, u'⟩
  · rw [hrun] at h
    exact ⟨h, fun a hok => by cases hok⟩
  · rw [hrun] at h
    exact ⟨h, fun a hok => by cases hok⟩

theorem syncPublish_commit (layout : AllocationLayout) (encoded : Block) (v : Volume Block)
    (hfailed : (syncPublish (.commit layout encoded) v).2.failures ≠ v.failures) :
    FailedClosed (syncPublish (.commit layout encoded) v).2 ∧ ∀ a, (syncPublish (.commit layout encoded) v).1 ≠ .ok a := by
  have hreports := reports_publication v.sb encoded (v.sb.generation.toNat % 3) false (v, false)
  simp only [syncPublish, bind_apply, get_apply, publishCheckpoint, modify_apply] at hfailed ⊢
  rcases hrun : checkpointPublish (volumeCheckpointIo volumeStorage v.sb encoded) (v.sb.generation.toNat % 3) false
    (v, false) with ⟨status | u, v', committed⟩
  · exact requireCheckpointRecovery_closed status _
  · -- A reported success counts no failure.
    rw [hrun] at hreports
    simp only [hrun] at hfailed
    have hsame : v'.failures = v.failures := hreports.2 u rfl
    exact absurd (by cases committed <;> exact hsame) hfailed

theorem requireReopen_closed {status : Status} (hstatus : status ≠ .ok) (v : Volume Block) :
    FailedClosed (requireReopen status v).2 := ⟨hstatus, rfl⟩

def Volume.Fails (v : Volume Block) (i : Nat) : Prop := (v.medium.env (v.medium.tick + i)).status ≠ .ok

variable (sb : Superblock)

theorem offline_install (bitmap : Nat → Bool) (layout : AllocationLayout) (v : Volume Block) :
    ∃ v', installGeneration sb bitmap layout v = (.ok (), v') ∧ Offline v v' ∧
      v'.medium = { v.medium with tick := v.medium.tick + 1 } := by
  simp only [installGeneration, bind_apply, modify_apply]
  obtain ⟨index, hrun, _⟩ := rebuild_apply
    ({ v with bitmap := bitmap, sb := sb, layout := layout, freeIndex := ⟨[], false⟩ } : Volume Block)
  rw [hrun]
  exact ⟨_, rfl, ⟨rfl, rfl, rfl⟩, rfl⟩

/-- The remote copies never close the volume; they count a failure exactly if
one of their three requests fails. -/
theorem publishReplicas_spec (encoded : Block) (v : Volume Block) :
    (FailedClosed (publishReplicas sb encoded v).2 ↔ FailedClosed v) ∧
      ((publishReplicas sb encoded v).2.failures = v.failures ↔ ¬v.Fails 0 ∧ ¬v.Fails 1 ∧ ¬v.Fails 2) := by
  refine ⟨Iff.rfl, ?_⟩
  simp only [publishReplicas, bind_apply, attempt_apply, modify_apply, storageWrite, storageFlush, Volume.failures,
    Medium.write, Medium.flush, Volume.Fails, Nat.add_assoc, Nat.reduceAdd, not_not, Nat.add_zero]
  split_ifs <;> simp_all <;> omega

structure Answered (v v' : Volume Block) (failed : Prop) : Prop where
  total : v'.total = v.total
  failures : v'.failures = v.failures ↔ ¬failed
  reopen : v'.reopenRequiredStatus = v.reopenRequiredStatus
  writable : v'.writable = v.writable
  fails : ∀ i, v'.Fails i ↔ v.Fails (i + 1)

theorem Answered.closed_iff {failed : Prop} (h : Answered v v' failed) :
    FailedClosed v' ↔ FailedClosed v := by
  rw [FailedClosed, FailedClosed, h.reopen, h.writable]

theorem fails_step (v : Volume Block) (m : Medium Block) (henv : m.env = v.medium.env) (htick : m.tick = v.medium.tick + 1)
    (i : Nat) : ({ v with medium := m } : Volume Block).Fails i ↔ v.Fails (i + 1) := by
  simp only [Volume.Fails, henv, htick]
  rw [Nat.add_right_comm, Nat.add_assoc]

theorem storageWrite_answered (block : Nat) (data : Block) (v : Volume Block) :
    ∃ v', Answered v v' (v.Fails 0) ∧
      storageWrite block data v = (resultOf v.answer.status, v') := by
  refine ⟨{ v with medium := v.medium.write block data }, ⟨rfl, ?_, rfl, rfl, fails_step v _ rfl rfl⟩, rfl⟩
  simp only [Volume.failures, Medium.write, Volume.Fails, Nat.add_zero, not_not]
  split <;> simp_all

theorem storageFlush_answered (v : Volume Block) :
    ∃ v', Answered v v' (v.Fails 0) ∧ storageFlush v = (resultOf v.answer.status, v') := by
  refine ⟨{ v with medium := v.medium.flush }, ⟨rfl, ?_, rfl, rfl, fails_step v _ rfl rfl⟩, rfl⟩
  simp only [Volume.failures, Medium.flush, Volume.Fails, Nat.add_zero, not_not]
  split <;> simp_all

theorem resultOf_fails (h : v.Fails 0) : ∃ status, status ≠ .ok ∧ resultOf v.answer.status = .error status :=
  ⟨v.answer.status, h, if_neg h⟩

theorem resultOf_succeeds (h : ¬v.Fails 0) : resultOf v.answer.status = .ok () :=
  if_pos (not_not.mp h)

/-- The program makes so many requests one after the other, stops at the first
that fails, and never closes the volume. -/
structure Exposed (x : VolumeM Block Unit) (v : Volume Block) (requests : Nat) : Prop where
  closed_iff : FailedClosed (x v).2 ↔ FailedClosed v
  failures_iff : (x v).2.failures = v.failures ↔ ∀ i < requests, ¬v.Fails i

theorem Exposed.request {x : VolumeM Block Unit} {f : Unit → VolumeM Block Unit} {requests : Nat}
    (hx : Answered v v' (v.Fails 0)) (hrun : x v = (resultOf v.answer.status, v')) (hrest : Exposed (f ()) v' requests) :
    Exposed (x >>= f) v (requests + 1) := by
  by_cases h0 : v.Fails 0
  · obtain ⟨status, _, hresult⟩ := resultOf_fails h0
    rw [hresult] at hrun
    have hstop : (x >>= f) v = (.error status, v') := bind_of_error hrun
    refine ⟨by rw [hstop, hx.closed_iff], ?_⟩
    rw [hstop, hx.failures]
    exact iff_of_false (fun h => h h0) fun h => h 0 (Nat.succ_pos _) h0
  · rw [resultOf_succeeds h0] at hrun
    have hcontinue : (x >>= f) v = f () v' := bind_of_ok hrun
    refine ⟨by rw [hcontinue, hrest.closed_iff, hx.closed_iff], ?_⟩
    rw [hcontinue, ← hx.failures.mpr h0, hrest.failures_iff, Nat.forall_lt_succ_left]
    simp only [hx.fails, h0, not_false_eq_true, true_and]

theorem exposed_repaired (v : Volume Block) : Exposed repaired v 1 := by
  obtain ⟨v', hflush, hrun⟩ := storageFlush_answered { v with checkpointRepairNeeded := false }
  have hend : Exposed (pure () : VolumeM Block Unit) v' 0 := ⟨Iff.rfl, by simp⟩
  have h := hend.request hflush hrun
  rw [bind_pure] at h
  exact ⟨h.closed_iff, h.failures_iff⟩

/-- How many requests the repair of these copies makes: a position outside of
the volume ends it. -/
def repairRequests (total : Nat) (sb : Superblock) : List (Fin 3) → Nat
  | [] => 1
  | i :: rest => if total ≤ (sb.checkpointBlock.get i).toNat then 0 else repairRequests total sb rest + 2

theorem exposed_repair (encoded : Block) (copies : List (Fin 3)) (v : Volume Block) :
    Exposed (rewriteCopies sb encoded copies >>= fun _ => repaired) v (repairRequests v.total sb copies) := by
  induction copies generalizing v with
  | nil => exact exposed_repaired v
  | cons i rest ih =>
    rw [rewriteCopies, bind_assoc, repairRequests]
    by_cases hinside : v.total ≤ (sb.checkpointBlock.get i).toNat
    · have hstop : writeBlock (sb.checkpointBlock.get i).toNat encoded v = (.error .invalidArgument, v) := if_pos hinside
      rw [if_pos hinside]
      refine ⟨by rw [bind_of_error hstop], ?_⟩
      rw [bind_of_error hstop]
      simp
    · obtain ⟨w, hwrite, hrun⟩ := storageWrite_answered (sb.checkpointBlock.get i).toNat encoded v
      obtain ⟨u, hflush, hrun'⟩ := storageFlush_answered w
      have hinner : writeBlock (sb.checkpointBlock.get i).toNat encoded v = (resultOf v.answer.status, w) := (if_neg hinside).trans hrun
      have hrest := ih u
      rw [hflush.total, hwrite.total] at hrest
      rw [if_neg hinside]
      refine Exposed.request hwrite hinner ?_
      rw [bind_assoc]
      exact Exposed.request hflush hrun' hrest

theorem reports_rewriteCopies (encoded : Block) (copies : List (Fin 3)) :
    Reports Volume.failures (rewriteCopies sb encoded copies) := by
  induction copies with
  | nil => exact reports_pure ()
  | cons i rest ih =>
    refine Reports.bind (fun v => ?_) fun _ => reports_storageFlush.bind fun _ => ih
    rw [writeBlock]
    split
    · exact ⟨by simp, fun a h => by cases h⟩
    · exact reports_storageWrite _ _ v

/-- A sync whose publication meets a failure reports it. -/
theorem syncPublish_reports (stage : SyncStage) (v : Volume Block)
    (hfailed : (syncPublish stage v).2.failures ≠ v.failures) (a : Unit) : (syncPublish stage v).1 ≠ .ok a := by
  cases stage with
  | commit layout encoded => exact (syncPublish_commit layout encoded v hfailed).2 a
  | repair encoded copies =>
    have hrepaired : Reports Volume.failures repaired := (reports_modify fun _ => rfl).bind fun _ => reports_storageFlush
    have hreports := (reports_rewriteCopies v.sb encoded copies).bind fun _ => hrepaired
    exact fun hok => hfailed ((hreports v).2 a hok)

def Volume.ReplicasSucceed (v : Volume Block) : Prop := ¬v.Fails 3 ∧ ¬v.Fails 4 ∧ ¬v.Fails 5

theorem install_replicas_iff (bitmap : Nat → Bool) (layout : AllocationLayout) (encoded : Block)
    {w : Volume Block} (hwrite : Answered v w (v.Fails 0)) (h0 : ¬v.Fails 0) (hflush : Answered w v' (w.Fails 0))
    (h1 : ¬w.Fails 0) :
    let final := ((installGeneration sb bitmap layout >>= fun _ => publishReplicas sb encoded) v').2
    (final.failures ≠ v.failures → FailedClosed final) ↔ FailedClosed v ∨ v.ReplicasSucceed := by
  have hclosed : FailedClosed v' ↔ FailedClosed v := hflush.closed_iff.trans hwrite.closed_iff
  have hfailures : v'.failures = v.failures := (hflush.failures.mpr h1).trans (hwrite.failures.mpr h0)
  have hfails (i : Nat) : v'.Fails i ↔ v.Fails (i + 2) := (hflush.fails i).trans (hwrite.fails (i + 1))
  obtain ⟨u, hrun, hoffline, hmedium⟩ := offline_install sb bitmap layout v'
  obtain ⟨hreplicas, hcount⟩ := publishReplicas_spec sb encoded u
  have hu (i : Nat) : u.Fails i ↔ v.Fails (i + 3) := by
    have hstep : u.Fails i ↔ v'.Fails (i + 1) := by
      simp only [Volume.Fails, hmedium]
      rw [Nat.add_right_comm, Nat.add_assoc]
    rw [hstep, hfails]
  rw [bind_of_ok hrun]
  simp only
  rw [hreplicas, hoffline.closed_iff, hclosed, ← hfailures, ← hoffline.failures, Ne, hcount, hu, hu, hu,
    Volume.ReplicasSucceed]
  exact or_iff_not_imp_right.symm

theorem rollbackPublish_iff (stage : RollbackStage) (v : Volume Block) :
    ((rollbackPublish stage v).2.failures ≠ v.failures → FailedClosed (rollbackPublish stage v).2) ↔
      FailedClosed v ∨ (¬v.Fails 0 ∧ (v.Fails 1 ∨ v.ReplicasSucceed)) := by
  obtain ⟨v', hwrite, hrun⟩ := storageWrite_answered (stage.sb.checkpointBlock.get 0).toNat stage.encoded v
  by_cases h0 : v.Fails 0
  · -- The failed write of the primary is returned, and nothing else happens.
    obtain ⟨status, _, hresult⟩ := resultOf_fails h0
    rw [hresult] at hrun
    rw [rollbackPublish, bind_of_error hrun]
    have hcount : v'.failures ≠ v.failures := fun h => hwrite.failures.mp h h0
    rw [hwrite.closed_iff, or_iff_left fun h => h.1 h0]
    exact forall_prop_of_true hcount
  · rw [resultOf_succeeds h0] at hrun
    rw [rollbackPublish, bind_of_ok hrun]
    obtain ⟨u, hflush, hrun'⟩ := storageFlush_answered v'
    have h1 : v'.Fails 0 ↔ v.Fails 1 := hwrite.fails 0
    simp only [bind_apply, attempt_apply, hrun']
    by_cases hf : v'.Fails 0
    · obtain ⟨status, hstatus, hresult⟩ := resultOf_fails hf
      simp only [hresult]
      exact ⟨fun _ => .inr ⟨h0, Or.inl (h1.mp hf)⟩, fun _ _ => requireReopen_closed hstatus u⟩
    · simp only [resultOf_succeeds hf]
      refine (install_replicas_iff stage.sb stage.record.bitmap stage.record.layout stage.encoded hwrite h0 hflush hf).trans ?_
      simp only [h0, ← h1, hf, not_false_eq_true, true_and, false_or]

theorem resizePublish_locators_closed (stage : ResizeStage) (hformat : stage.format019 = true) (v : Volume Block)
    (hfailed : (resizePublish stage v).2.failures ≠ v.failures) : FailedClosed (resizePublish stage v).2 := by
  have hreports := reports_publication stage.sb stage.encoded 1 true (v, false)
  rcases hrun : checkpointPublish (volumeCheckpointIo volumeStorage stage.sb stage.encoded) 1 true (v, false) with
    ⟨status, v', committed⟩
  rw [hrun] at hreports
  have hcommit : resizeCommit stage v = (.ok status, v') := by
    simp only [resizeCommit, hformat, if_true, bind_apply, publishCheckpoint, pure_apply, hrun]
  rw [resizePublish, bind_of_ok hcommit] at hfailed ⊢
  cases status with
  | error status => exact requireReopen_closed (fun h => hreports.1 (by rw [h])) v'
  | ok u =>
    have hsame : v'.failures = v.failures := hreports.2 u rfl
    obtain ⟨w, hinstall, hoffline, _⟩ := offline_install stage.sb stage.plan.bitmap stage.plan.layout v'
    refine absurd ?_ hfailed
    simp only [bind_of_ok hinstall, hformat, if_true]
    exact hoffline.failures.trans hsame

theorem resizePublish_primary_iff (stage : ResizeStage) (hformat : stage.format019 = false) (v : Volume Block) :
    ((resizePublish stage v).2.failures ≠ v.failures → FailedClosed (resizePublish stage v).2) ↔
      FailedClosed v ∨ v.Fails 0 ∨ v.Fails 1 ∨ v.ReplicasSucceed := by
  obtain ⟨v', hwrite, hrun⟩ := storageWrite_answered 0 stage.encoded v
  simp only [resizePublish, resizeCommit, hformat, Bool.false_eq_true, if_false, bind_apply, attempt_apply, hrun]
  by_cases h0 : v.Fails 0
  · obtain ⟨status, hstatus, hresult⟩ := resultOf_fails h0
    simp only [hresult]
    exact ⟨fun _ => .inr (.inl h0), fun _ _ => requireReopen_closed hstatus v'⟩
  · simp only [resultOf_succeeds h0]
    obtain ⟨u, hflush, hrun'⟩ := storageFlush_answered v'
    have h1 : v'.Fails 0 ↔ v.Fails 1 := hwrite.fails 0
    simp only [hrun']
    by_cases hf : v'.Fails 0
    · obtain ⟨status, hstatus, hresult⟩ := resultOf_fails hf
      simp only [hresult]
      exact ⟨fun _ => .inr (.inr (.inl (h1.mp hf))), fun _ _ => requireReopen_closed hstatus u⟩
    · simp only [resultOf_succeeds hf]
      refine (install_replicas_iff stage.sb stage.plan.bitmap stage.plan.layout stage.encoded hwrite h0 hflush hf).trans ?_
      simp only [h0, ← h1, hf, false_or]

end Stages

section Calls

variable (code : Stages)

theorem stage_of_encoded {result : Except Status Block} {build : Block → ResizeStage} {v u : Volume Block}
    {stage : ResizeStage}
    (h : (match result with
      | .error status => (fail status : VolumeM Block (Option ResizeStage))
      | .ok encoded => pure (some (build encoded))) v = (.ok (some stage), u)) :
    ∃ encoded, stage = build encoded := by
  cases result with
  | error status => cases h
  | ok encoded =>
    cases h
    exact ⟨encoded, rfl⟩

theorem resizePrepare_format019 {newSizeBytes : Nat} {v u : Volume Block} {stage : ResizeStage}
    (h : resizePrepare code newSizeBytes v = (.ok (some stage), u)) :
    stage.format019 = (v.sb.formatMinor == locatorFormatMinor) := by
  obtain ⟨_, v0, hcheck, h⟩ := bind_eq_ok.mp h
  obtain rfl : v = v0 := by
    obtain ⟨-, hcheck⟩ := guard_eq_ok.mp (hcheck : (if _ then _ else _ : VolumeM Block Unit) v = _)
    exact (Prod.mk.inj hcheck).2
  rw [bind_of_ok (get_apply v)] at h
  obtain ⟨_, v1, _, h⟩ := bind_eq_ok.mp h
  obtain ⟨plan, v2, _, h⟩ := bind_eq_ok.mp h
  cases plan with
  | none => cases h
  | some plan =>
    simp only [bind_apply, get_apply] at h
    cases hgeneration : addChecked v2.sb.generation.toNat 1 with
    | none =>
      rw [hgeneration] at h
      cases h
    | some generation =>
      simp only [hgeneration] at h
      obtain ⟨encoded, hstage⟩ := stage_of_encoded h
      rw [hstage]

/-- A call in the state v comes to publish in the state u: its own stage, or
one of the sync that a resize and a rollback begin with. -/
inductive EntryPoint.Publishes (v : Volume Block) : EntryPoint → PublicationStage → Volume Block → Prop
  | own {entry : EntryPoint} {stage : PublicationStage} {u : Volume Block}
      (h : entry.prepare code v = (.ok (some stage), u)) : Publishes v entry stage u
  | before {entry : EntryPoint} {stage : SyncStage} {u : Volume Block} (hcheck : entry.check code v = (.ok (), v))
      (h : syncPrepare code v = (.ok (some stage), u)) : Publishes v entry (.sync stage) u

/-- When a storage failure during a publication that starts in the state u
closes the volume, for a call in the state v. -/
def PublicationStage.Guarded (v u : Volume Block) : PublicationStage → Prop
  | .sync (.commit _ _) => True
  | .sync (.repair _ copies) => FailedClosed u ∨ ∀ i < repairRequests u.total u.sb copies, ¬u.Fails i
  | .resize _ => v.sb.formatMinor = locatorFormatMinor ∨
      (FailedClosed u ∨ u.Fails 0 ∨ u.Fails 1 ∨ u.ReplicasSucceed)
  | .rollback _ => FailedClosed u ∨ (¬u.Fails 0 ∧ (u.Fails 1 ∨ u.ReplicasSucceed))

theorem syncPublish_iff (stage : SyncStage) (v u : Volume Block) :
    ((syncPublish stage u).2.failures ≠ u.failures → FailedClosed (syncPublish stage u).2) ↔
      (PublicationStage.sync stage).Guarded v u := by
  cases stage with
  | commit layout encoded => exact ⟨fun _ => trivial, fun _ hfailed => (syncPublish_commit layout encoded u hfailed).1⟩
  | repair encoded copies =>
    obtain ⟨hclosed, hfailures⟩ := exposed_repair u.sb encoded copies u
    have hrun : syncPublish (.repair encoded copies) u = (rewriteCopies u.sb encoded copies >>= fun _ => repaired) u := rfl
    rw [hrun, hclosed, Ne, hfailures, PublicationStage.Guarded]
    exact or_iff_not_imp_right.symm

/-- A sync that fails ends the call that begins with it. -/
theorem call_of_sync_error {entry : EntryPoint} {v u : Volume Block} {stage : SyncStage}
    (hcheck : entry.check code v = (.ok (), v)) (hprepare : syncPrepare code v = (.ok (some stage), u))
    (herror : ∀ a, (syncPublish stage u).1 ≠ .ok a) : (entry.call code v).2 = (syncPublish stage u).2 := by
  have hsync : volumeSync code v = syncPublish stage u := bind_of_ok hprepare
  rcases hrun : syncPublish stage u with ⟨e | a, w⟩
  · rw [hrun] at hsync
    cases entry with
    | volumeSync =>
      have hown : EntryPoint.volumeSync.prepare code v = (.ok (some (.sync stage)), u) := bind_of_ok hprepare
      rw [EntryPoint.call, bind_of_ok hown]
      exact congrArg Prod.snd hrun
    | volumeResize newSizeBytes =>
      have hown : (EntryPoint.volumeResize newSizeBytes).prepare code v = (.error e, w) := by
        refine bind_of_error ?_
        rw [resizePrepare, bind_of_ok (show resizeCheck newSizeBytes v = _ from hcheck), bind_of_ok (get_apply v), bind_of_error hsync]
      rw [EntryPoint.call, bind_of_error hown]
    | snapshotRollback name =>
      have hown : (EntryPoint.snapshotRollback name).prepare code v = (.error e, w) := by
        refine bind_of_error ?_
        rw [rollbackPrepare, bind_of_ok (show rollbackCheck code name v = _ from hcheck), bind_of_error hsync]
      rw [EntryPoint.call, bind_of_error hown]
  · rw [hrun] at herror
    exact absurd rfl (herror a)

variable {code} in
theorem publish_iff {entry : EntryPoint} {v u : Volume Block} {stage : PublicationStage}
    (hprepare : entry.prepare code v = (.ok (some stage), u)) :
    ((stage.publish u).2.failures ≠ u.failures → FailedClosed (stage.publish u).2) ↔ stage.Guarded v u := by
  cases entry with
  | volumeSync =>
    obtain ⟨s, w, _, hstage⟩ := bind_eq_ok.mp hprepare
    cases s with
    | none => cases hstage
    | some s =>
      cases hstage
      exact syncPublish_iff s v u
  | volumeResize newSizeBytes =>
    obtain ⟨s, w, hs, hstage⟩ := bind_eq_ok.mp hprepare
    cases s with
    | none => cases hstage
    | some s =>
      cases hstage
      have hformat := resizePrepare_format019 code hs
      by_cases hminor : v.sb.formatMinor = locatorFormatMinor
      · rw [hminor, beq_self_eq_true] at hformat
        exact ⟨fun _ => .inl hminor, fun _ => resizePublish_locators_closed s hformat u⟩
      · rw [beq_eq_false_iff_ne.mpr hminor] at hformat
        exact (resizePublish_primary_iff s hformat u).trans (or_iff_right hminor).symm
  | snapshotRollback name =>
    obtain ⟨s, w, _, hstage⟩ := bind_eq_ok.mp hprepare
    cases s with
    | none => cases hstage
    | some s =>
      cases hstage
      exact rollbackPublish_iff s u

/-- A write or flush that fails during a publication of a call leaves the
volume closed after the call exactly in these cases. -/
theorem publication_fails_closed_iff (entry : EntryPoint) (v u : Volume Block) (stage : PublicationStage)
    (hpublishes : entry.Publishes code v stage u) :
    ((stage.publish u).2.failures ≠ u.failures → FailedClosed (entry.call code v).2) ↔ stage.Guarded v u := by
  cases hpublishes with
  | own hprepare =>
    have hcall : entry.call code v = stage.publish u := by rw [EntryPoint.call, bind_of_ok hprepare]
    rw [hcall]
    exact publish_iff hprepare
  | @before stage _ hcheck hprepare =>
    rw [← syncPublish_iff stage v u]
    refine forall_congr' fun hfailed => ?_
    rw [call_of_sync_error code hcheck hprepare (syncPublish_reports stage u hfailed)]

def smallSnapshot : SnapshotRecord :=
  ⟨0, 0, 0, 0, 0, Vector.replicate 16 1, fun _ => false, default⟩

def smallStages : Stages where
  utf8Validate _ := true
  allocationMapPublish _ := pure default
  resizePlan _ := pure none
  snapshotSelect _ := pure smallSnapshot

def faultyVolume (failing : Nat) : Volume Block :=
  { (default : Volume Block) with
    medium := { (default : Medium Block) with
      env := fun tick => if tick = failing then ⟨.ioError, none⟩ else ⟨.ok, none⟩ }
    writable := true
    reopenRequiredStatus := .ok
    sb := { smallCheckpoint 1 8192 4096 8191 with incompatFlags := requiredIncompatFlags ||| incompatSnapshots } }

/-- The rollback starts to publish after the one flush of the sync before it. -/
def faultyPublication (failing : Nat) : Volume Block :=
  { faultyVolume failing with medium := (faultyVolume failing).medium.flush }

def smallRollbackStage : RollbackStage :=
  let sb := { smallCheckpoint 2 8192 4096 8191 with incompatFlags := requiredIncompatFlags ||| incompatSnapshots }
  ⟨smallSnapshot, sb, superblockBlock sb⟩

theorem sync_faulty (n : Nat) : volumeSync smallStages (faultyVolume (n + 1)) = (.ok (), faultyPublication (n + 1)) := rfl

theorem prepare_faulty (n : Nat) :
    (EntryPoint.snapshotRollback [0x61]).prepare smallStages (faultyVolume (n + 1)) =
      (.ok (some (.rollback smallRollbackStage)), faultyPublication (n + 1)) := by
  have hrollback : rollbackPrepare smallStages [0x61] (faultyVolume (n + 1)) =
      (.ok (some smallRollbackStage), faultyPublication (n + 1)) := by
    have hsnapshots : ¬(requiredIncompatFlags ||| incompatSnapshots) &&& incompatSnapshots = 0 := by decide
    have hflags : ¬(faultyVolume (n + 1)).sb.incompatFlags &&& incompatSnapshots = 0 := hsnapshots
    have hcheck : rollbackCheck smallStages [0x61] (faultyVolume (n + 1)) = (.ok (), faultyVolume (n + 1)) := by
      rw [rollbackCheck, bind_of_ok (get_apply _), if_neg (by decide), if_neg hflags, if_neg (by simp [faultyVolume]),
        if_neg (by simp [faultyVolume])]
      rfl
    rw [rollbackPrepare, bind_of_ok hcheck, bind_of_ok (sync_faulty n)]
    rfl
  rw [EntryPoint.prepare, bind_of_ok hrollback]
  rfl

theorem publication_fails_closed_small :
    (PublicationStage.rollback smallRollbackStage).Guarded (faultyVolume 2) (faultyPublication 2) ∧
      FailedClosed ((EntryPoint.snapshotRollback [0x61]).call smallStages (faultyVolume 2)).2 := by
  have hguarded : (PublicationStage.rollback smallRollbackStage).Guarded (faultyVolume 2) (faultyPublication 2) :=
    Or.inr ⟨fun h => h rfl, Or.inl fun h => nomatch h⟩
  exact ⟨hguarded, (publication_fails_closed_iff smallStages _ _ _ _ (.own (prepare_faulty 1))).mpr hguarded (by decide)⟩

theorem failed_rollback_stays_writable :
    (EntryPoint.snapshotRollback [0x61]).prepare smallStages (faultyVolume 1) =
      (.ok (some (.rollback smallRollbackStage)), faultyPublication 1) ∧
    ((EntryPoint.snapshotRollback [0x61]).call smallStages (faultyVolume 1)).2.failures ≠
      (faultyPublication 1).failures ∧
    ¬FailedClosed ((EntryPoint.snapshotRollback [0x61]).call smallStages (faultyVolume 1)).2 := by
  refine ⟨prepare_faulty 0, ?_⟩
  rw [EntryPoint.call, bind_of_ok (prepare_faulty 0)]
  exact ⟨by decide, fun h => absurd h.2 (by decide)⟩

end Calls

end InfiltratorFS
