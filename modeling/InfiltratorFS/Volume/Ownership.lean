import InfiltratorFS.Volume.AllocatorActs

namespace InfiltratorFS

open Segment Scan Prog

variable {β : Type}

section Publication

/-- The loop of `allocation_map_publish` over the blocks of a deferred range:
a block that no snapshot retains is cleared. -/
def clearDeferredRange (total : Nat) (retained : Nat → Bool) (bitmap : Nat → Bool) (r : Range) : Nat → Bool :=
  fun b => if r.contains b && decide (b < total) && !retained b then false else bitmap b

theorem clearDeferred_apply (total : Nat) (retained bitmap : Nat → Bool) (ranges : List Range) (b : Nat) :
    ranges.foldl (clearDeferredRange total retained) bitmap b =
      (bitmap b && !(covers ranges b && decide (b < total) && !retained b)) := by
  induction ranges generalizing bitmap with
  | nil => simp
  | cons r ranges ih =>
    rw [List.foldl_cons, ih, clearDeferredRange, covers_cons]
    cases r.contains b <;> cases decide (b < total) <;> cases retained b <;> simp

end Publication

section Release

/-- What the release of the blocks from lo to hi leaves behind: the private
ones are clear, and every other one that was set is deferred. -/
structure Released (v v' : Volume β) (lo hi : Nat) : Prop where
  context : SameContext v v'
  env : v'.medium.env = v.medium.env
  tick : v.medium.tick ≤ v'.medium.tick
  error : v'.tx.error = v.tx.error
  allocated : v'.tx.allocated = v.tx.allocated
  bitmap : ∀ b, v'.bitmap b = true ↔ v.bitmap b = true ∧ ¬(lo ≤ b ∧ b < hi ∧ txBlockPrivate v b = true)
  deferred : ∀ b, covers v'.tx.deferred b = true ↔
    covers v.tx.deferred b = true ∨ (lo ≤ b ∧ b < hi ∧ v.bitmap b = true ∧ txBlockPrivate v b = false)

variable {v v' : Volume β} {lo hi b : Nat}

theorem Released.private_eq (h : Released v v' lo hi) (b : Nat) :
    txBlockPrivate v' b = txBlockPrivate v b := by
  simp only [txBlockPrivate, txBlockPrivateSince, h.context.active, h.context.operation, h.allocated]

theorem released_refl (v : Volume β) (hclear : ∀ b, lo ≤ b → b < hi → v.bitmap b = false) :
    Released v v lo hi := by
  refine ⟨.refl v, rfl, le_rfl, rfl, rfl, fun b => ?_, fun b => ?_⟩
  · constructor
    · intro hset
      refine ⟨hset, fun hin => ?_⟩
      rw [hclear b hin.1 hin.2.1] at hset
      cases hset
    · exact fun h => h.1
  · constructor
    · exact .inl
    · rintro (h | ⟨hlo, hhi, hset, _⟩)
      · exact h
      · rw [hclear b hlo hhi] at hset
        cases hset

theorem Released.trans {u w : Volume β} {mid : Nat} (h : Released u v lo mid) (h' : Released v w mid hi)
    (hlo : lo ≤ mid) (hhi : mid ≤ hi) : Released u w lo hi := by
  refine ⟨h.context.trans h'.context, h'.env.trans h.env, h.tick.trans h'.tick, h'.error.trans h.error,
    h'.allocated.trans h.allocated, fun b => ?_, fun b => ?_⟩
  · rw [h'.bitmap, h.bitmap, h.private_eq]
    by_cases hb : b < mid
    · have : ¬mid ≤ b := by omega
      simp only [this, false_and, not_false_eq_true, and_true, hb, true_and, show b < hi by omega]
    · simp only [hb, false_and, and_false, not_false_eq_true, and_true, show (lo ≤ b) = (mid ≤ b) by
        simp only [eq_iff_iff]; omega]
  · rw [h'.deferred, h.deferred, h.private_eq, h.bitmap, or_assoc]
    apply or_congr_right
    by_cases hb : b < mid
    · have : ¬mid ≤ b := by omega
      simp only [this, false_and, or_false, hb, true_and, show b < hi by omega]
    · simp only [hb, false_and, and_false, not_false_eq_true, and_true, false_or, show (lo ≤ b) = (mid ≤ b) by
        simp only [eq_iff_iff]; omega]

/-- The blocks of the volume and of memory requests: from here on every
request is granted. -/
def Granted (v : Volume β) : Prop := ∀ t, v.medium.tick ≤ t → (v.medium.env t).status = .ok

theorem Granted.mono (h : Granted v) (henv : v'.medium.env = v.medium.env)
    (htick : v.medium.tick ≤ v'.medium.tick) : Granted v' := by
  intro t ht
  rw [henv]
  exact h t (htick.trans ht)

theorem Released.granted (h : Released v v' lo hi) (hv : Granted v) : Granted v' :=
  hv.mono h.env h.tick

def Extends (v : Volume β) (start : Nat) : Prop := ∃ last, v.tx.deferred.getLast? = some last ∧ last.stop = start

def deferredTimes (v : Volume β) (b : Nat) : Nat := v.tx.deferred.countP (·.contains b)

theorem covers_deferred : covers v.tx.deferred b = true ↔ 0 < deferredTimes v b := by
  rw [deferredTimes, List.countP_pos_iff, covers, List.any_eq_true]

/-- The blocks from start on are deferred once more, and nothing else changes. -/
structure Deferred (v v' : Volume β) (start count : Nat) : Prop where
  context : SameContext v v'
  env : v'.medium.env = v.medium.env
  tick : v.medium.tick ≤ v'.medium.tick
  disk : v'.medium.disk = v.medium.disk
  error : v'.tx.error = v.tx.error
  allocated : v'.tx.allocated = v.tx.allocated
  bitmap : v'.bitmap = v.bitmap
  times : ∀ b, deferredTimes v' b = deferredTimes v b + if start ≤ b ∧ b < start + count then 1 else 0

theorem txDeferRange_granted (hactive : v.tx.active = true) (herror : v.tx.error = .ok) (start count : Nat)
    (hcount : 0 < count) (hstop : start + count ≤ v.total) (hmemory : Extends v start ∨ v.answer.status = .ok) :
    ∃ v', txDeferRange start count v = (.ok (), v') ∧ Deferred v v' start count := by
  have htotal : v.total < 2 ^ 64 := v.sb.totalBlocks.toNat_lt
  have hdefers := txDeferRange_defers start count v
  generalize txDeferRange start count v = r at hdefers ⊢
  cases hdefers with
  | nothing hzero => omega
  | refused e hrefused => simp [hactive, herror] at hrefused
  | overflow last hlast hjoin hsum =>
    rw [Segment.stop] at hjoin
    omega
  | merged front last hlast hjoin =>
    refine ⟨_, rfl, .update _, rfl, le_rfl, rfl, rfl, rfl, rfl, fun b => ?_⟩
    rw [Segment.stop] at hjoin
    simp only [deferredTimes, hlast, List.countP_append, List.countP_singleton, contains_iff, Segment.stop, Nat.add_assoc]
    congr 1
    split_ifs <;> omega
  | appended =>
    refine ⟨_, rfl, .update _, rfl, Nat.le_succ _, rfl, rfl, rfl, rfl, fun b => ?_⟩
    simp only [deferredTimes, List.countP_append, List.countP_singleton, contains_iff, Segment.stop]
  | noMemory hanswer hnew =>
    obtain ⟨last, hlast, hjoin⟩ := hmemory.resolve_right hanswer
    refine absurd ?_ (hnew last hlast)
    rw [Segment.stop] at hjoin
    rw [addChecked, if_pos (by omega), hjoin]

theorem Deferred.released {start count : Nat} (h : Deferred v v' start count)
    (hrun : ∀ b, start ≤ b → b < start + count → v.bitmap b = true ∧ txBlockPrivate v b = false) :
    Released v v' start (start + count) := by
  refine ⟨h.context, h.env, h.tick, h.error, h.allocated, fun b => ?_, fun b => ?_⟩
  · rw [h.bitmap]
    refine ⟨fun hb => ⟨hb, fun hin => ?_⟩, fun h => h.1⟩
    rw [(hrun b hin.1 hin.2.1).2] at hin
    cases hin.2.2
  · rw [covers_deferred, covers_deferred, h.times]
    by_cases hb : start ≤ b ∧ b < start + count
    · simp [hb, hrun b hb.1 hb.2]
    · rw [if_neg hb, Nat.add_zero]
      exact ⟨.inl, fun h => h.resolve_right fun hin => hb ⟨hin.1, hin.2.1⟩⟩

theorem clearPrivate_released (hset : v.bitmap b = true) (hprivate : txBlockPrivate v b = true)
    (index : FreeExtentIndex) : Released v ((clearPrivate b v).withIndex index) b (b + 1) := by
  refine ⟨.update _, rfl, Nat.le_succ _, rfl, rfl, fun x => ?_, fun x => ?_⟩
  · have hbitmap : ((clearPrivate b v).withIndex index).bitmap x = setRange v.bitmap b 1 false x := rfl
    rw [hbitmap, setRange]
    by_cases hx : b ≤ x ∧ x < b + 1
    · obtain rfl : x = b := by omega
      rw [if_pos hx]
      simp [hprivate]
    · rw [if_neg hx]
      exact ⟨fun h => ⟨h, fun hin => hx ⟨hin.1, hin.2.1⟩⟩, fun h => h.1⟩
  · constructor
    · exact .inl
    · rintro (h | ⟨hlo, hhi, _, hnot⟩)
      · exact h
      · obtain rfl : x = b := by omega
        rw [hprivate] at hnot
        cases hnot

theorem freeRunLoop_released (stop fuel b : Nat) (v : Volume β) (hactive : v.tx.active = true) (herror : v.tx.error = .ok)
    (hgranted : Granted v) (hstop : stop ≤ v.total) (hfuel : stop ≤ b + fuel) :
    ∃ v', freeRunLoop stop fuel b v = (.ok (), v') ∧ Released v v' b stop ∧ v'.medium.disk = v.medium.disk := by
  induction fuel generalizing b v with
  | zero => exact ⟨v, rfl, released_refl v (by omega), rfl⟩
  | succ fuel ih =>
    -- one or more blocks are released, and the loop goes on behind them
    have hnext {mid : Nat} {u : Volume β} (hmid : b < mid) (hle : mid ≤ stop) (h : Released v u b mid)
        (hdisk : u.medium.disk = v.medium.disk) :
        ∃ v', freeRunLoop stop fuel mid u = (.ok (), v') ∧ Released v v' b stop ∧ v'.medium.disk = v.medium.disk := by
      obtain ⟨v', hrun, hreleased, hdisk'⟩ := ih mid u (h.context.active.trans hactive) (h.error.trans herror)
        (h.granted hgranted) (by rw [h.context.total_eq]; exact hstop) (by omega)
      exact ⟨v', hrun, h.trans hreleased hmid.le hle, hdisk'.trans hdisk⟩
    rw [freeRunLoop, bind_of_ok (get_apply v)]
    split_ifs with hdone hclear hprivate
    · exact ⟨v, rfl, released_refl v (by omega), rfl⟩
    · refine hnext (Nat.lt_succ_self b) (by omega) (released_refl v fun x hlo hhi => ?_) rfl
      obtain rfl : x = b := by omega
      exact hclear
    · obtain ⟨index, hadd, -⟩ := addOrInvalidate_apply b 1 (clearPrivate b v)
      rw [bind_of_ok (modify_apply _ _), bind_of_ok hadd]
      exact hnext (Nat.lt_succ_self b) (by omega) (clearPrivate_released (by simpa using hclear) hprivate index) rfl
    · have hall := fun x => countWhile_holds (fun x => v.bitmap x && !txBlockPrivate v x) (stop - b) b x
      have hle := countWhile_le (fun x => v.bitmap x && !txBlockPrivate v x) (stop - b) b
      have hlt : b < countWhile (fun x => v.bitmap x && !txBlockPrivate v x) (stop - b) b := by
        obtain ⟨k, hk⟩ : ∃ k, stop - b = k + 1 := ⟨stop - b - 1, by omega⟩
        rw [hk, countWhile, if_pos (by simpa [hprivate] using hclear)]
        exact le_countWhile _ _ _
      generalize countWhile (fun x => v.bitmap x && !txBlockPrivate v x) (stop - b) b = e at *
      obtain ⟨u, hdefer, hdeferred⟩ :=
        txDeferRange_granted hactive herror b (e - b) (by omega) (by omega) (.inr (hgranted _ le_rfl))
      have hreleased := hdeferred.released fun x hlo hhi => by simpa using hall x hlo (by omega)
      rw [Nat.add_sub_cancel' hlt.le] at hreleased
      rw [bind_of_ok (attempt_apply _ _), hdefer]
      exact hnext hlt (by omega) hreleased hdeferred.disk

structure OpenTx (v : Volume β) : Prop extends InTx v where
  writable : v.writable = true
  reopen : v.reopenRequiredStatus = .ok
  error : v.tx.error = .ok

theorem OpenTx.begin (h : OpenTx v) : txBegin v = (.ok (), v) := by
  rw [txBegin, if_neg (by rw [h.reopen]; simp), if_neg (by rw [h.writable]; simp), if_pos h.active, if_pos h.error]

theorem freeRun_released (hv : OpenTx v) (hgranted : Granted v) (start count : Nat)
    (hstop : count = 0 ∨ start + count ≤ v.total) :
    ∃ v', freeRun start count v = (.ok (), v') ∧ Released v v' start (start + count) ∧ v'.medium.disk = v.medium.disk := by
  rw [freeRun]
  split_ifs with hcount
  · exact ⟨v, rfl, released_refl v (by omega), rfl⟩
  · have hstop := hstop.resolve_left hcount
    rw [bind_apply, attempt_apply, hv.begin]
    dsimp only
    rw [bind_of_ok (get_apply v), min_eq_left hstop]
    exact freeRunLoop_released _ _ _ v hv.active hv.error hgranted hstop (by omega)

theorem Released.openTx (h : Released v v' lo hi) (hv : OpenTx v) (hindex : InTx v') : OpenTx v' :=
  ⟨hindex, h.context.writable.trans hv.writable, h.context.reopen.trans hv.reopen, h.error.trans hv.error⟩

end Release

section Accounts

/-- The blocks that a transaction has set are those that are live, those that
a snapshot retains, and those that are to be cleared when it is published. -/
structure Accounts (retained : Nat → Bool) (live : Nat → Bool) (v : Volume β) : Prop extends OpenTx v where
  set_iff : ∀ b, b < v.total → (v.bitmap b = true ↔ live b = true ∨ retained b = true ∨ covers v.tx.deferred b = true)
  live_kept : ∀ b, live b = true → covers v.tx.deferred b = false
  retained_kept : ∀ b, covers v.tx.allocated b = true → retained b = false

variable {v v' : Volume β} {retained live : Nat → Bool}

structure Took (v v' : Volume β) (start count : Nat) : Prop where
  context : SameContext v v'
  env : v'.medium.env = v.medium.env
  tick : v.medium.tick ≤ v'.medium.tick
  error : v'.tx.error = v.tx.error
  bitmap : v'.bitmap = setRange v.bitmap start count true
  allocated : v'.tx.allocated = v.tx.allocated ++ [⟨start, count⟩]
  deferred : v'.tx.deferred = v.tx.deferred

variable (h : Accounts retained live v)
include h

theorem Accounts.drop (start count : Nat)
    (hlive : ∀ b, start ≤ b → b < start + count → live b = true) (hindex : InTx v')
    (hreleased : Released v v' start (start + count)) :
    Accounts retained (fun b => live b && !(Segment.mk start count).contains b) v' := by
  have hprivate {b : Nat} (hb : txBlockPrivate v b = true) : retained b = false := by
    apply h.retained_kept
    rw [txBlockPrivate, txBlockPrivateSince, Bool.and_eq_true, covers_iff] at hb
    obtain ⟨r, hr, hin⟩ := hb.2
    exact (covers_iff _ b).mpr ⟨r, List.mem_of_mem_drop hr, hin⟩
  have hstay (b : Nat) : (live b && !(Segment.mk start count).contains b) = true ↔
      live b = true ∧ ¬(start ≤ b ∧ b < start + count) := by
    rw [Bool.and_eq_true, Bool.not_eq_true', ← Bool.not_eq_true, contains_iff, Segment.stop]
  refine ⟨hreleased.openTx h.toOpenTx hindex, fun b hb => ?_, fun b hb => ?_, fun b hb => ?_⟩
  · rw [hreleased.context.total_eq] at hb
    have hset := h.set_iff b hb
    rw [hreleased.bitmap, hreleased.deferred, hstay]
    by_cases hin : start ≤ b ∧ b < start + count
    · have hb' := hlive b hin.1 hin.2
      have hkept := h.live_kept b hb'
      cases hp : txBlockPrivate v b
      · simp [hin, hset, hb']
      · simp [hin, hkept, hprivate hp]
    · simp only [← and_assoc, hin, false_and, not_false_eq_true, and_true, or_false, hset]
  · obtain ⟨hb', hout⟩ := (hstay b).mp hb
    have hkept := h.live_kept b hb'
    rw [← Bool.not_eq_true, hreleased.deferred, hkept]
    rintro (hd | ⟨hlo, hhi, _⟩)
    · cases hd
    · exact hout ⟨hlo, hhi⟩
  · rw [hreleased.allocated] at hb
    exact h.retained_kept b hb

theorem Accounts.take {start count : Nat}
    (hclear : ClearRun v.bitmap v.total (start, count)) (hindex : InTx v') (htook : Took v v' start count) :
    Accounts retained (fun b => live b || (Segment.mk start count).contains b) v' := by
  have hfree {b : Nat} (hlo : start ≤ b) (hhi : b < start + count) :
      live b = false ∧ retained b = false ∧ covers v.tx.deferred b = false := by
    have hnot := h.set_iff b (lt_of_lt_of_le hhi hclear.1)
    rw [hclear.2 b hlo hhi] at hnot
    simpa using hnot
  refine ⟨⟨hindex, htook.context.writable.trans h.writable, htook.context.reopen.trans h.reopen,
    htook.error.trans h.error⟩, fun b hb => ?_, fun b hb => ?_, fun b hb => ?_⟩
  · rw [htook.context.total_eq] at hb
    rw [htook.bitmap, htook.deferred, setRange, Bool.or_eq_true, contains_iff, Segment.stop]
    by_cases hin : start ≤ b ∧ b < start + count
    · rw [if_pos hin]
      simp [hin]
    · rw [if_neg hin, h.set_iff b hb]
      simp [hin]
  · rw [htook.deferred]
    rw [Bool.or_eq_true, contains_iff, Segment.stop] at hb
    rcases hb with hb | ⟨hlo, hhi⟩
    · exact h.live_kept b hb
    · exact (hfree hlo hhi).2.2
  · rw [htook.allocated, covers_append, covers_cons, covers_nil, Bool.or_false, Bool.or_eq_true, contains_iff, Segment.stop] at hb
    rcases hb with hb | ⟨hlo, hhi⟩
    · exact h.retained_kept b hb
    · exact (hfree hlo hhi).2.1

theorem Accounts.update {medium : Medium β} {operation : Savepoint}
    {index : UInt64} :
    Accounts retained live { v with medium := medium, operation := operation, sb.objectIndexBlock := index } :=
  ⟨⟨⟨h.active, h.index⟩, h.writable, h.reopen, h.error⟩, h.set_iff, h.live_kept, h.retained_kept⟩

end Accounts

section Allocation

/-- Blocks outside of the run that was taken keep their contents. -/
structure TookRun (v v' : Volume β) (start count : Nat) : Prop extends Took v v' start count where
  disk : ∀ b, b < start ∨ start + count ≤ b → v'.medium.disk b = v.medium.disk b

variable {v v' : Volume β}

theorem allocateUninitialized_took {start count : Nat}
    (h : allocateSelectedRunUninitialized start count v = (.ok (), v')) : TookRun v v' start count := by
  rw [allocateSelectedRunUninitialized] at h
  rcases txRecordAllocated_apply start count v with ⟨e, u, hrec, _⟩ | hrec
  · rw [bind_of_error hrec] at h
    cases h
  · obtain ⟨index, hrem, -⟩ := removeOrInvalidate_apply start count
      { v.tickOn with tx.allocated := v.tx.allocated ++ [⟨start, count⟩] }
    rw [bind_of_ok hrec, bind_of_ok hrem, modify_apply] at h
    cases h
    exact ⟨⟨.update _, rfl, by simp [markAllocated, Volume.withIndex, Volume.tickOn]; omega, rfl, rfl,
      rfl, rfl⟩, fun _ _ => rfl⟩

variable [Inhabited β]

theorem allocateRun_took {zeroFill : Bool} {start count : Nat}
    (h : allocateRun zeroFill start count v = (.ok (), v')) : TookRun v v' start count := by
  rw [allocateRun] at h
  split at h
  · rw [allocateSelectedRun] at h
    obtain ⟨_, u, hrun, h⟩ := bind_eq_ok.mp h
    have htook := allocateUninitialized_took hrun
    obtain ⟨result, medium, -, hzero, -, -, henv, htick, hdisk⟩ := zeroBlocks_apply count start u
    rw [bind_apply, attempt_apply, hzero] at h
    cases result with
    | ok a =>
      cases h
      exact ⟨⟨htook.context.trans (.update u), henv.trans htook.env, htook.tick.trans htick, htook.error,
        htook.bitmap, htook.allocated, htook.deferred⟩, fun b hb => (hdisk b hb).trans (htook.disk b hb)⟩
    | error e =>
      obtain ⟨_, _, _, h⟩ := bind_eq_ok.mp h
      obtain ⟨w, _, _, h⟩ := bind_eq_ok.mp h
      split at h
      · obtain ⟨_, _, _, h⟩ := bind_eq_ok.mp h
        cases h
      · obtain ⟨_, _, _, h⟩ := bind_eq_ok.mp h
        cases h
  · exact allocateUninitialized_took h

inductive Allocation
  | metadata (wanted : Nat)
  | data (wanted : Nat) (zeroFill : Bool)
  | exact (wanted : Nat) (zeroFill : Bool)

def Allocation.run : Allocation → VolumeM β (Nat × Nat)
  | .metadata wanted => allocRun wanted
  | .data wanted zeroFill => allocDataRunImpl wanted zeroFill
  | .exact wanted zeroFill => do
      let start ← allocExactRunImpl wanted zeroFill
      pure (start, wanted)

theorem Picks.took {α : Type} {run : α → Nat × Nat} {a : α} (h : Picks v run (.ok a, v')) (hv : InTx v) :
    ClearRun v.bitmap v.total (run a) ∧ TookRun v v' (run a).1 (run a).2 ∧ InTx v' := by
  have hindex := (h.proceeds hv).1
  generalize hx : (Except.ok a, v') = x at h
  obtain _ | ⟨zeroFill, a', data, metadata, hclear⟩ := h
  · cases hx
  · obtain ⟨_, u, halloc, hx⟩ := bind_eq_ok.mp hx.symm
    cases hx
    have h := allocateRun_took halloc
    exact ⟨hclear, ⟨⟨h.context.trans (.update _), h.env, h.tick, h.error, h.bitmap, h.allocated, h.deferred⟩, h.disk⟩, hindex⟩

theorem Allocation.took (a : Allocation) {run : Nat × Nat} (hv : OpenTx v) (h : a.run v = (.ok run, v')) :
    ClearRun v.bitmap v.total run ∧ TookRun v v' run.1 run.2 ∧ InTx v' := by
  cases a with
  | metadata wanted =>
    have hpicks := allocRun_picks wanted hv.toInTx
    rw [show allocRun wanted v = _ from h] at hpicks
    exact hpicks.took hv.toInTx
  | data wanted zeroFill =>
    have hpicks := allocDataRunImpl_picks wanted zeroFill hv.toInTx
    rw [show allocDataRunImpl wanted zeroFill v = _ from h] at hpicks
    exact hpicks.took hv.toInTx
  | exact wanted zeroFill =>
    obtain ⟨start, u, hexact, h⟩ := bind_eq_ok.mp h
    cases h
    have hpicks := allocExactRunImpl_picks wanted zeroFill hv.toInTx
    rw [hexact] at hpicks
    exact hpicks.took hv.toInTx

end Allocation

def checkTxError : VolumeM β Unit := do
  let v ← get
  if v.tx.error ≠ .ok then fail v.tx.error else pure ()

theorem checkTxError_ok {v : Volume β} (h : v.tx.error = .ok) : checkTxError v = (.ok (), v) := by
  rw [checkTxError, bind_of_ok (get_apply v), if_neg (by rw [h]; simp)]
  rfl

end InfiltratorFS
