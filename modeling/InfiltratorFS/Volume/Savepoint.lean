import Mathlib.Data.Set.Insert
import InfiltratorFS.Volume.AllocatorActs

namespace InfiltratorFS

open Segment Prog UndoLog

variable {β : Type}

section Invariants

def allocatedSet (bitmap : Nat → Bool) : Set Nat := {b | bitmap b = true}

def coverSet (ranges : List Range) : Set Nat := {b | covers ranges b = true}

theorem coverSet_append (xs ys : List Range) : coverSet (xs ++ ys) = coverSet xs ∪ coverSet ys := by
  ext b
  simp [coverSet]

theorem coverSet_singleton (r : Range) : coverSet [r] = {b | r.contains b = true} := by
  ext b
  simp [coverSet]

theorem allocatedSet_set (bitmap : Nat → Bool) (r : Range) :
    allocatedSet (setRange bitmap r.start r.count true) = allocatedSet bitmap ∪ coverSet [r] := by
  ext b
  simp only [allocatedSet, coverSet_singleton, Set.mem_ofPred_eq, Set.mem_union, setRange_apply]
  split <;> simp_all

theorem allocatedSet_clear (bitmap : Nat → Bool) (b : Nat) :
    allocatedSet (setRange bitmap b 1 false) = allocatedSet bitmap \ {b} := by
  ext c
  have hc : (⟨b, 1⟩ : Range).contains c = true ↔ c = b := by
    simp only [contains_iff, Segment.stop]
    omega
  simp only [allocatedSet, Set.mem_ofPred_eq, Set.mem_sdiff, Set.mem_singleton_iff, setRange_apply, hc]
  by_cases h : c = b
  · simp [h]
  · simp [h]

variable {j j' : Journal} {base : Nat → Bool} {total first : Nat}

theorem clearRanges_eq_of_tracks {bitmap : Nat → Bool} {ranges : List Range}
    (h : Tracks (allocatedSet base) (allocatedSet bitmap) (coverSet ranges)) : clearRanges bitmap ranges = base := by
  funext b
  have hb : b ∈ allocatedSet bitmap \ coverSet ranges ↔ b ∈ allocatedSet base := by rw [h.undo]
  simp only [allocatedSet, coverSet, Set.mem_sdiff, Set.mem_ofPred_eq] at hb
  rw [clearRanges_apply, Bool.eq_iff_iff, ← hb]
  simp

/-- How the journal of an operation relates to the journal at its savepoint.
All but the last deferred range of the savepoint are untouched. -/
structure SinceSavepoint (j₀ j : Journal) : Prop where
  length_le : j₀.allocated.length ≤ j.allocated.length
  kept : j.allocated.take j₀.allocated.length = j₀.allocated
  tracks : Tracks (allocatedSet j₀.bitmap) (allocatedSet j.bitmap) (coverSet (j.allocated.drop j₀.allocated.length))
  deferred_le : j₀.deferred.length ≤ j.deferred.length
  front : j.deferred.take (j₀.deferred.length - 1) = j₀.deferred.take (j₀.deferred.length - 1)

theorem SinceSavepoint.refl (j : Journal) : SinceSavepoint j j := by
  refine ⟨le_rfl, by simp, ?_, le_rfl, rfl⟩
  have hempty : coverSet (j.allocated.drop j.allocated.length) = ∅ := by
    ext b
    simp [coverSet]
  rw [hempty]
  exact Tracks.refl _

section

variable (hstep : JournalStep total first j j')
include hstep

theorem JournalStep.tracks {n : Nat}
    (hn : n ≤ first) (hlen : n ≤ j.allocated.length) {base : Set Nat}
    (h : Tracks base (allocatedSet j.bitmap) (coverSet (j.allocated.drop n))) :
    Tracks base (allocatedSet j'.bitmap) (coverSet (j'.allocated.drop n)) := by
  cases hstep with
  | allocate r hin hclear =>
    simp only [List.drop_append_of_le_length hlen, coverSet_append]
    rw [allocatedSet_set]
    apply h.add
    rw [Set.disjoint_left]
    intro b hb hr
    rw [coverSet_singleton] at hr
    simp only [allocatedSet, Set.mem_ofPred_eq, hclear b hr] at hb
    cases hb
  | release b hin hset hprivate =>
    simp only
    rw [allocatedSet_clear]
    apply h.remove
    simp only [coverSet, Set.mem_ofPred_eq, covers_iff] at hprivate ⊢
    obtain ⟨r, hr, hrb⟩ := hprivate
    exact ⟨r, (List.drop_subset_drop_left _ hn) hr, hrb⟩
  | defer => exact h
  | merge => exact h

theorem JournalStep.length_le :
    j.allocated.length ≤ j'.allocated.length ∧ j'.allocated.take j.allocated.length = j.allocated := by
  cases hstep with
  | allocate => simp
  | release => simp
  | defer => simp
  | merge => simp

theorem JournalStep.deferred_front {n : Nat}
    (hn : n ≤ j.deferred.length) :
    n ≤ j'.deferred.length ∧ j'.deferred.take (n - 1) = j.deferred.take (n - 1) := by
  cases hstep with
  | allocate => exact ⟨hn, rfl⟩
  | release => exact ⟨hn, rfl⟩
  | defer r hset =>
    refine ⟨by simp only [List.length_append]; omega, ?_⟩
    simp only
    rw [List.take_append_of_le_length (by omega)]
  | merge front last m hlast hset =>
    rw [hlast, List.length_append, List.length_singleton] at hn
    refine ⟨by simp only [List.length_append, List.length_singleton]; omega, ?_⟩
    simp only [hlast]
    rw [List.take_append_of_le_length (by omega), List.take_append_of_le_length (by omega)]

end

theorem SinceSavepoint.step {j₀ : Journal} (h : SinceSavepoint j₀ j)
    (hstep : JournalStep total j₀.allocated.length j j') : SinceSavepoint j₀ j' := by
  obtain ⟨hlen, htake⟩ := hstep.length_le
  obtain ⟨hdef, hfront⟩ := hstep.deferred_front h.deferred_le
  refine ⟨h.length_le.trans hlen, ?_, hstep.tracks le_rfl h.length_le h.tracks, hdef, hfront.trans h.front⟩
  calc j'.allocated.take j₀.allocated.length
      = (j'.allocated.take j.allocated.length).take j₀.allocated.length := by
        rw [List.take_take, Nat.min_eq_left h.length_le]
    _ = j₀.allocated := by rw [htake, h.kept]

theorem SinceSavepoint.steps {j₀ : Journal} (h : SinceSavepoint j₀ j)
    (hsteps : JournalSteps total j₀.allocated.length j j') : SinceSavepoint j₀ j' := by
  induction hsteps with
  | refl => exact h
  | tail _ hstep ih => exact ih.step hstep

/-- How the journal of a transaction relates to the bitmap it started from. -/
structure SinceBegin (base : Nat → Bool) (j : Journal) : Prop where
  tracks : Tracks (allocatedSet base) (allocatedSet j.bitmap) (coverSet j.allocated)
  deferred : ∀ b, covers j.deferred b = true → base b = true ∨ covers j.allocated b = true

theorem SinceBegin.set (h : SinceBegin base j) {b : Nat} (hb : j.bitmap b = true) :
    base b = true ∨ covers j.allocated b = true := h.tracks.subset_log hb

theorem SinceBegin.step (h : SinceBegin base j)
    (hstep : JournalStep total first j j') : SinceBegin base j' := by
  refine ⟨?_, ?_⟩
  · have := hstep.tracks (Nat.zero_le first) (Nat.zero_le _) h.tracks
    simpa using this
  · cases hstep with
    | allocate r hin hclear =>
      intro b hb
      rcases h.deferred b hb with hbase | hcov
      · exact .inl hbase
      · exact .inr (by rw [covers_append, hcov, Bool.true_or])
    | release => exact h.deferred
    | defer r hset =>
      intro b hb
      simp only [covers_append, Bool.or_eq_true, covers_cons, covers_nil, Bool.or_false] at hb
      rcases hb with hb | hb
      · exact h.deferred b hb
      · exact h.set (hset b hb)
    | merge front last n hlast hset =>
      intro b hb
      simp only [covers_append, Bool.or_eq_true, covers_cons, covers_nil, Bool.or_false, contains_iff] at hb
      have hold (hc : covers (front ++ [last]) b = true) : base b = true ∨ covers j.allocated b = true :=
        h.deferred b (hlast ▸ hc)
      rcases hb with hb | hb
      · exact hold (by rw [covers_append, hb, Bool.true_or])
      · rcases Nat.lt_or_ge b last.stop with hlt | hge
        · apply hold
          rw [covers_append, Bool.or_eq_true]
          right
          simpa [contains_iff] using And.intro hb.1 hlt
        · refine h.set (hset b hge ?_)
          have := hb.2
          simp only [Segment.stop] at this ⊢
          omega

theorem SinceBegin.steps (h : SinceBegin base j)
    (hsteps : JournalSteps total first j j') : SinceBegin base j' := by
  induction hsteps with
  | refl => exact h
  | tail _ hstep ih => exact ih.step hstep

end Invariants

section Calls

variable [Inhabited β]

/-- The allocator calls that the mutations of a transaction are made of. -/
inductive Call
  | allocRun (wanted : Nat)
  | allocDataRun (wanted : Nat) (zeroFill : Bool)
  | allocExactRun (wanted : Nat) (zeroFill : Bool)
  | freeRun (start count : Nat)
  | txDeferRange (start count : Nat)

def Call.after (v : Volume β) : Call → Volume β
  | .allocRun wanted => (InfiltratorFS.allocRun wanted v).2
  | .allocDataRun wanted zeroFill => (allocDataRunImpl wanted zeroFill v).2
  | .allocExactRun wanted zeroFill => (allocExactRunImpl wanted zeroFill v).2
  | .freeRun start count => (InfiltratorFS.freeRun start count v).2
  | .txDeferRange start count => (InfiltratorFS.txDeferRange start count v).2

/-- The callers of `tx_defer_range` only defer blocks whose bits are set. -/
def Call.Allowed (v : Volume β) : Call → Prop
  | .txDeferRange start count => ∀ i < count, v.bitmap (start + i) = true
  | _ => True

theorem Call.acts (c : Call) {v : Volume β} (hv : InTx v) (hc : c.Allowed v) : Proceeds v (c.after v) := by
  cases c with
  | allocRun wanted => exact (allocRun_picks wanted hv).proceeds hv
  | allocDataRun wanted zeroFill => exact (allocDataRunImpl_picks wanted zeroFill hv).proceeds hv
  | allocExactRun wanted zeroFill => exact (allocExactRunImpl_picks wanted zeroFill hv).proceeds hv
  | freeRun start count => exact moves_freeRun start count v hv
  | txDeferRange start count =>
    refine txDeferRange_acts start count v hv (fun b hlow hhigh => ?_)
    have := hc (b - start) (by omega)
    rwa [Nat.add_sub_cancel' hlow] at this

/-- What happens to a volume between the begin and the end of a transaction. -/
inductive TxEvent
  | call (c : Call)
  | operationBegin
  | operationCommit
  | operationAbort

def TxEvent.after (v : Volume β) : TxEvent → Volume β
  | .call c => c.after v
  | .operationBegin => (txOperationBegin v).2
  | .operationCommit => (txOperationCommit v).2
  | .operationAbort => (txOperationAbort v).2

def TxEvent.Allowed (v : Volume β) : TxEvent → Prop
  | .call c => c.Allowed v
  | _ => True

def runEvents (v : Volume β) (events : List TxEvent) : Volume β := events.foldl TxEvent.after v

def EventsAllowed (v : Volume β) : List TxEvent → Prop
  | [] => True
  | e :: events => e.Allowed v ∧ EventsAllowed (e.after v) events

theorem calls_acts (calls : List Call) {v : Volume β} (hv : InTx v) (hallowed : EventsAllowed v (calls.map .call)) :
    Proceeds v (runEvents v (calls.map .call)) := by
  induction calls generalizing v with
  | nil => exact ⟨hv, .refl v⟩
  | cons c calls ih =>
    obtain ⟨hc, hrest⟩ := hallowed
    obtain ⟨hv', hacts⟩ := c.acts hv hc
    obtain ⟨hrun, hacts'⟩ := ih hv' hrest
    exact ⟨hrun, hacts.trans hacts'⟩

end Calls

section Abort

structure SavedAt (v : Volume β) (j₀ : Journal) : Prop where
  allocatedCount : v.operation.allocatedCount = j₀.allocated.length
  deferredCount : v.operation.deferredCount = j₀.deferred.length
  hadLast : v.operation.hadLastDeferred = decide (j₀.deferred ≠ [])
  last : ∀ r, j₀.deferred.getLast? = some r → v.operation.lastDeferred = r

variable {v : Volume β}

theorem restoreDeferred_eq {j₀ : Journal} (hsaved : SavedAt v j₀)
    (h : SinceSavepoint j₀ v.journal) : restoreDeferred v = j₀.deferred := by
  have hfront : v.tx.deferred.take (j₀.deferred.length - 1) = j₀.deferred.take (j₀.deferred.length - 1) := h.front
  have hlen : j₀.deferred.length ≤ v.tx.deferred.length := h.deferred_le
  rcases List.eq_nil_or_concat j₀.deferred with hnil | ⟨front, last, hconcat⟩
  · simp [restoreDeferred, hsaved.deferredCount, hnil]
  · rw [List.concat_eq_append] at hconcat
    have hlast := hsaved.last last (by rw [hconcat]; simp)
    have hhad : v.operation.hadLastDeferred = true := by rw [hsaved.hadLast, hconcat]; simp
    rw [hconcat, List.length_append, List.length_singleton] at hlen hfront
    rw [Nat.add_sub_cancel, List.take_left] at hfront
    have hkept : v.tx.deferred.take (front.length + 1) = front ++ [v.tx.deferred[front.length]] := by
      rw [List.take_succ_eq_append_getElem (by omega), hfront]
    rw [restoreDeferred, hsaved.deferredCount, hhad, hlast, hconcat, List.length_append, List.length_singleton]
    simp [hkept]

theorem undoOperation_journal {j₀ : Journal} (hsaved : SavedAt v j₀)
    (h : SinceSavepoint j₀ v.journal) :
    (undoOperation v).bitmap = j₀.bitmap ∧ (undoOperation v).tx.allocated = j₀.allocated ∧
      (undoOperation v).tx.deferred = j₀.deferred := by
  refine ⟨?_, ?_, restoreDeferred_eq hsaved h⟩
  · simp only [undoOperation, txOperationDiscard, hsaved.allocatedCount]
    exact clearRanges_eq_of_tracks h.tracks
  · simp only [undoOperation, txOperationDiscard, hsaved.allocatedCount]
    exact h.kept

theorem txOperationAbort_apply (hv : v.operation.active = true) :
    ∃ index, (txOperationAbort v).2 = (undoOperation v).withIndex index ∧
      (index.valid = true → IsFreeIndex (undoOperation v).bitmap (undoOperation v).total index.extents) := by
  obtain ⟨index, hrun, hindex⟩ := rebuild_apply (undoOperation v)
  refine ⟨index, ?_, hindex⟩
  simp only [txOperationAbort, bind_apply, get_apply, hv, if_true, modify_apply, hrun]

theorem txAbort_apply (hv : v.tx.active = true) :
    ∃ index, (txAbort v).2 = (undoTransaction v).withIndex index := by
  obtain ⟨index, hrun, _⟩ := rebuild_apply (undoTransaction v)
  refine ⟨index, ?_⟩
  simp only [txAbort, bind_apply, get_apply, hv, if_true, modify_apply, hrun]

theorem resetDeferred_apply (v : Volume β) (bitmap : Nat → Bool) (ranges : List Range) (b : Nat) :
    resetDeferred v bitmap ranges b = (bitmap b || (covers ranges b && !txBlockPrivateSince v b 0)) := by
  induction ranges generalizing bitmap with
  | nil => simp [resetDeferred]
  | cons r ranges ih =>
    rw [resetDeferred, ih, covers_cons]
    cases r.contains b <;> cases txBlockPrivateSince v b 0 <;> simp

/-- The deferred blocks that `tx_abort` sets again were never clear: its first
loop already restores the bitmap, and the second changes nothing. -/
theorem resetDeferred_eq {base : Nat → Bool} (hv : v.tx.active = true) (h : SinceBegin base v.journal) :
    resetDeferred v (clearRanges v.bitmap v.tx.allocated) v.tx.deferred = base := by
  have hclear : clearRanges v.bitmap v.tx.allocated = base := clearRanges_eq_of_tracks h.tracks
  have hdeferred : ∀ b, covers v.tx.deferred b = true → base b = true ∨ covers v.tx.allocated b = true := h.deferred
  funext b
  rw [hclear, resetDeferred_apply, txBlockPrivateSince, hv, Bool.true_and, List.drop_zero]
  cases hb : base b with
  | true => rfl
  | false =>
    cases hcov : covers v.tx.deferred b with
    | false => rfl
    | true =>
      have hprivate := (hdeferred b hcov).resolve_left (by simp [hb])
      simp [hprivate]

theorem undoTransaction_restores {base : Nat → Bool} (hv : v.tx.active = true)
    (h : SinceBegin base v.journal) : (undoTransaction v).bitmap = base ∧ (undoTransaction v).sb = v.tx.baseSb := by
  unfold undoTransaction
  simp only
  split
  · -- Dropping the savepoint changes neither the bitmap nor the lists.
    exact ⟨resetDeferred_eq (v := txOperationDiscard v) hv h, rfl⟩
  · exact ⟨resetDeferred_eq hv h, rfl⟩

end Abort

section Runs

variable {v v' s : Volume β}

theorem SavedAt.acts {j₀ : Journal} (h : SavedAt v j₀) (hacts : Acts v v') : SavedAt v' j₀ := by
  have hop := hacts.context.operation
  exact ⟨by rw [hop]; exact h.allocatedCount, by rw [hop]; exact h.deferredCount,
    by rw [hop]; exact h.hadLast, fun r hr => by rw [hop]; exact h.last r hr⟩

theorem SinceSavepoint.acts {j₀ : Journal} (hop : v.operation.active = true) (hsaved : SavedAt v j₀)
    (h : SinceSavepoint j₀ v.journal) (hacts : Acts v v') : SinceSavepoint j₀ v'.journal := by
  have hsteps := hacts.steps
  rw [Volume.firstPrivate, hop, if_pos rfl, hsaved.allocatedCount] at hsteps
  exact h.steps hsteps

theorem txOperationBegin_apply (hactive : v.tx.active = true) (hop : v.operation.active = false) :
    ∃ operation, (txOperationBegin v).2 = { v with operation := operation } ∧ operation.active = true ∧
      operation.sb = v.sb ∧ SavedAt { v with operation := operation } v.journal := by
  refine ⟨(txOperationBegin v).2.operation, ?_⟩
  simp only [txOperationBegin, bind_apply, get_apply, hactive, hop]
  refine ⟨rfl, rfl, rfl, rfl, rfl, rfl, fun r hr => ?_⟩
  have hr' : v.tx.deferred.getLast? = some r := hr
  simp [hr']

theorem inTx_operation (hv : InTx v) (operation : Savepoint) : InTx { v with operation := operation } :=
  ⟨hv.active, hv.index⟩

/-- What holds throughout a transaction that began in the state s. While an
operation is open, the journal also relates to the one at its savepoint. -/
structure TxRun (s v : Volume β) : Prop where
  inTx : InTx v
  baseSb : v.tx.baseSb = s.sb
  since : SinceBegin s.bitmap v.journal
  savepoint : v.operation.active = true →
    ∃ j₀, SavedAt v j₀ ∧ SinceBegin s.bitmap j₀ ∧ SinceSavepoint j₀ v.journal

theorem TxRun.operationBegin (h : TxRun s v) : TxRun s (txOperationBegin v).2 := by
  cases hop : v.operation.active with
  | true =>
    have hsame : (txOperationBegin v).2 = v := by simp [txOperationBegin, bind_apply, hop]
    rw [hsame]
    exact h
  | false =>
    obtain ⟨operation, hrun, hactive, _, hsaved⟩ := txOperationBegin_apply h.inTx.active hop
    rw [hrun]
    exact ⟨inTx_operation h.inTx operation, h.baseSb, h.since, fun _ => ⟨v.journal, hsaved, h.since, .refl _⟩⟩

theorem TxRun.operationCommit (h : TxRun s v) : TxRun s (txOperationCommit v).2 :=
  ⟨⟨h.inTx.active, h.inTx.index⟩, h.baseSb, h.since, fun hactive => by cases hactive⟩

theorem TxRun.operationAbort (h : TxRun s v) : TxRun s (txOperationAbort v).2 := by
  cases hop : v.operation.active with
  | false =>
    have hsame : (txOperationAbort v).2 = v := by simp [txOperationAbort, bind_apply, hop]
    rw [hsame]
    exact h
  | true =>
    obtain ⟨j₀, hsaved, hbegin, hsince⟩ := h.savepoint hop
    obtain ⟨index, hrun, hindex⟩ := txOperationAbort_apply hop
    obtain ⟨hbitmap, hallocated, hdeferred⟩ := undoOperation_journal hsaved hsince
    rw [hrun]
    refine ⟨⟨h.inTx.active, hindex⟩, h.baseSb, ⟨?_, ?_⟩, fun hactive => by cases hactive⟩
    · change Tracks _ (allocatedSet (undoOperation v).bitmap) (coverSet (undoOperation v).tx.allocated)
      rw [hbitmap, hallocated]
      exact hbegin.tracks
    · change ∀ b, covers (undoOperation v).tx.deferred b = true → _ ∨ covers (undoOperation v).tx.allocated b = true
      rw [hdeferred, hallocated]
      exact hbegin.deferred

variable [Inhabited β]

theorem TxRun.call (h : TxRun s v) (c : Call) (hc : c.Allowed v) : TxRun s (c.after v) := by
  obtain ⟨hv', hacts⟩ := c.acts h.inTx hc
  refine ⟨hv', hacts.context.baseSb.trans h.baseSb, h.since.steps hacts.steps, ?_⟩
  rw [hacts.context.operation]
  intro hop
  obtain ⟨j₀, hsaved, hbegin, hsince⟩ := h.savepoint hop
  exact ⟨j₀, hsaved.acts hacts, hbegin, hsince.acts hop hsaved hacts⟩

theorem TxRun.event (h : TxRun s v) (e : TxEvent) (he : e.Allowed v) : TxRun s (e.after v) := by
  cases e with
  | call c => exact h.call c he
  | operationBegin => exact h.operationBegin
  | operationCommit => exact h.operationCommit
  | operationAbort => exact h.operationAbort

theorem TxRun.events (h : TxRun s v) (events : List TxEvent) (hallowed : EventsAllowed v events) :
    TxRun s (runEvents v events) := by
  induction events generalizing v with
  | nil => exact h
  | cons e events ih => exact ih (h.event e hallowed.1) hallowed.2

end Runs

section Exactness

theorem txBegin_run {s s' : Volume β} (hindex : s.IndexExact) (hactive : s.tx.active = false)
    (hop : s.operation.active = false) (hbegin : txBegin s = (.ok (), s')) : TxRun s s' := by
  have hs' : s' = { s with tx.baseSb := s.sb, tx.deferred := [], tx.allocated := [], tx.error := .ok, tx.active := true } := by
    unfold txBegin at hbegin
    split_ifs at hbegin <;> simp_all
  subst hs'
  refine ⟨⟨rfl, hindex⟩, rfl, ⟨?_, by simp [Volume.journal]⟩, fun h => ?_⟩
  · have hempty : coverSet [] = ∅ := by
      ext b
      simp [coverSet]
    change Tracks _ (allocatedSet s.bitmap) (coverSet [])
    rw [hempty]
    exact Tracks.refl _
  · rw [show s.operation.active = true from h] at hop
    cases hop

variable [Inhabited β]

theorem operationAbort_restores {s : Volume β} (hs : InTx s) (hop : s.operation.active = false) (calls : List Call)
    (hallowed : EventsAllowed (txOperationBegin s).2 (calls.map .call)) :
    let v := (txOperationAbort (runEvents (txOperationBegin s).2 (calls.map .call))).2
    v.bitmap = s.bitmap ∧ v.sb = s.sb ∧ v.tx.allocated = s.tx.allocated ∧ v.tx.deferred = s.tx.deferred := by
  obtain ⟨operation, hrun, hactive, hsb, hsaved⟩ := txOperationBegin_apply hs.active hop
  rw [hrun] at hallowed ⊢
  obtain ⟨_, hacts⟩ := calls_acts calls (inTx_operation hs operation) hallowed
  have hsince := SinceSavepoint.acts hactive hsaved (.refl s.journal) hacts
  generalize hv : runEvents { s with operation := operation } (calls.map .call) = v at hacts hsince
  obtain ⟨index, habort, _⟩ := txOperationAbort_apply (v := v) (by rw [hacts.context.operation]; exact hactive)
  obtain ⟨hbitmap, hallocated, hdeferred⟩ := undoOperation_journal (hsaved.acts hacts) hsince
  simp only [habort]
  refine ⟨hbitmap, ?_, hallocated, hdeferred⟩
  rw [← hsb]
  change v.operation.sb = operation.sb
  rw [hacts.context.operation]

omit [Inhabited β] in
theorem txAbort_restores {s v : Volume β} (h : TxRun s v) : (txAbort v).2.bitmap = s.bitmap ∧ (txAbort v).2.sb = s.sb := by
  obtain ⟨index, habort⟩ := txAbort_apply h.inTx.active
  obtain ⟨hbitmap, hsb⟩ := undoTransaction_restores h.inTx.active h.since
  rw [habort]
  exact ⟨hbitmap, hsb.trans h.baseSb⟩

/-- Savepoints are exact. An aborted operation restores the bitmap, the
superblock and both range lists to their values at its begin, and an aborted
transaction restores the bitmap and the superblock, whatever operations were
committed and aborted in it. -/
theorem savepoints_exact (s : Volume β) (hindex : s.IndexExact) :
    (s.tx.active = true → s.operation.active = false →
      ∀ calls : List Call, EventsAllowed (txOperationBegin s).2 (calls.map .call) →
        let v := (txOperationAbort (runEvents (txOperationBegin s).2 (calls.map .call))).2
        v.bitmap = s.bitmap ∧ v.sb = s.sb ∧ v.tx.allocated = s.tx.allocated ∧ v.tx.deferred = s.tx.deferred) ∧
    (s.tx.active = false → s.operation.active = false →
      ∀ s', txBegin s = (.ok (), s') → ∀ events, EventsAllowed s' events →
        let v := (txAbort (runEvents s' events)).2
        v.bitmap = s.bitmap ∧ v.sb = s.sb) := by
  constructor
  · intro hactive hop calls hallowed
    exact operationAbort_restores ⟨hactive, hindex⟩ hop calls hallowed
  · intro hactive hop s' hbegin events hallowed
    exact txAbort_restores ((txBegin_run hindex hactive hop hbegin).events events hallowed)

def smallVolume : Volume Unit :=
  { (default : Volume Unit) with
    writable := true
    sb := { (default : Superblock) with generation := 1, totalBlocks := 8, freeBlocks := 5 }
    bitmap := fun b => decide (b < 3)
    freeIndex := ⟨freeRuns (fun b => decide (b < 3)) 8, true⟩ }

/-- Blocks are allocated, freed and deferred in a committed operation and in
an aborted one. -/
def smallEvents : List TxEvent :=
  [.operationBegin, .call (.allocDataRun 2 true), .call (.freeRun 3 1), .call (.txDeferRange 1 1), .operationCommit,
    .operationBegin, .call (.freeRun 2 3), .call (.allocRun 2), .operationAbort]

def smallCalls : List Call := [.allocDataRun 2 true, .freeRun 2 2, .allocRun 2]

theorem savepoints_exact_small :
    (let s := (txBegin smallVolume).2;
      let v := (txOperationAbort (runEvents (txOperationBegin s).2 (smallCalls.map .call))).2;
      v.bitmap = s.bitmap ∧ v.sb = s.sb ∧ v.tx.allocated = s.tx.allocated ∧ v.tx.deferred = s.tx.deferred) ∧
    (let v := (txAbort (runEvents (txBegin smallVolume).2 smallEvents)).2;
      v.bitmap = smallVolume.bitmap ∧ v.sb = smallVolume.sb) := by
  have hindex : smallVolume.IndexExact := fun _ => freeRuns_isFreeIndex _ _
  have hindex' : (txBegin smallVolume).2.IndexExact := fun _ => freeRuns_isFreeIndex _ _
  refine ⟨(savepoints_exact _ hindex').1 rfl rfl smallCalls ?_,
    (savepoints_exact _ hindex).2 rfl rfl _ rfl smallEvents ?_⟩
  · exact ⟨trivial, trivial, trivial, trivial⟩
  · refine ⟨trivial, trivial, trivial, ?_, trivial, trivial, trivial, trivial, trivial, trivial⟩
    intro i hi
    obtain rfl : i = 0 := by omega
    rfl

/-- The allocator copies on write. Whatever a transaction has done so far, an
operation that begins then writes no block that is set at its begin: none of
the generation that the transaction started from, which all stay set, and none
that an earlier operation has staged. -/
theorem operation_copies_on_write (s s' : Volume β) (hindex : s.IndexExact) (hactive : s.tx.active = false)
    (hop : s.operation.active = false) (hbegin : txBegin s = (.ok (), s')) (events : List TxEvent)
    (hallowed : EventsAllowed s' events) (hidle : (runEvents s' events).operation.active = false) (calls : List Call)
    (hcalls : EventsAllowed (txOperationBegin (runEvents s' events)).2 (calls.map .call)) :
    let v := runEvents s' events
    let v' := runEvents (txOperationBegin v).2 (calls.map .call)
    (∀ b, s.bitmap b = true → v.bitmap b = true) ∧ (∀ b, v.bitmap b = true → v'.bitmap b = true) ∧ v'.IndexExact ∧
      ∃ log, v'.medium.trace = v.medium.trace ++ log ∧ ∀ b, Event.write b ∈ log → v.bitmap b = false := by
  intro v v'
  have hv : TxRun s v := (txBegin_run hindex hactive hop hbegin).events events hallowed
  obtain ⟨operation, hstart, hopen, _, hsaved⟩ := txOperationBegin_apply hv.inTx.active hidle
  rw [show (txOperationBegin (runEvents s' events)).2 = _ from hstart] at hcalls
  simp only [v', hstart]
  obtain ⟨hinTx, hacts⟩ := calls_acts calls (inTx_operation hv.inTx operation) hcalls
  obtain ⟨log, hlog, hfresh⟩ := hacts.writes
  have hsettled {b : Nat} (hb : v.bitmap b = true) :
      Settled { v with operation := operation }.firstPrivate v.journal b := by
    have hcount : operation.allocatedCount = v.tx.allocated.length := hsaved.allocatedCount
    exact ⟨hb, by simp [Volume.firstPrivate, hopen, hcount, Volume.journal]⟩
  refine ⟨fun b hb => hv.since.tracks.base_subset hb, fun b hb => (hacts.steps.settled (hsettled hb)).1, hinTx.index, log,
    hlog, fun b hb => ?_⟩
  rw [← Bool.not_eq_true]
  exact fun hset => hfresh b hb (hsettled hset)

theorem operation_copies_on_write_small :
    let v := runEvents (txBegin smallVolume).2 [.operationBegin, .call (.allocRun 2), .operationCommit]
    ∃ log, (runEvents (txOperationBegin v).2 (smallCalls.map .call)).medium.trace = v.medium.trace ++ log ∧
      ∀ b, Event.write b ∈ log → v.bitmap b = false := by
  have hindex : smallVolume.IndexExact := fun _ => freeRuns_isFreeIndex _ _
  have h := operation_copies_on_write smallVolume _ hindex rfl rfl rfl [.operationBegin, .call (.allocRun 2), .operationCommit]
    ⟨trivial, trivial, trivial, trivial⟩ rfl smallCalls ⟨trivial, trivial, trivial, trivial⟩
  exact h.2.2.2

end Exactness

end InfiltratorFS
