import InfiltratorFS.Volume.Journal

namespace InfiltratorFS

open Segment Scan Prog

variable {β : Type}

/-- A valid free-extent index is the sorted list of maximal clear runs. -/
def Volume.IndexExact (v : Volume β) : Prop :=
  v.freeIndex.valid = true → IsFreeIndex v.bitmap v.total v.freeIndex.extents

structure InTx (v : Volume β) : Prop where
  active : v.tx.active = true
  index : v.IndexExact

/-- What an allocator call does to a transaction, whether it succeeds or not. -/
abbrev Proceeds (v v' : Volume β) : Prop := InTx v' ∧ Acts v v'

section Runs

def ClearRun (bitmap : Nat → Bool) (total : Nat) (run : Nat × Nat) : Prop :=
  run.1 + run.2 ≤ total ∧ ∀ b, run.1 ≤ b → b < run.1 + run.2 → bitmap b = false

variable (bitmap : Nat → Bool)

theorem clearRun_zero (total : Nat) : ClearRun bitmap total (0, 0) :=
  ⟨Nat.zero_le _, by simp⟩

variable {total start stop wanted : Nat}

theorem ClearRun.longer {bitmap p : Nat → Bool} {best : Nat × Nat} (hbest : ClearRun bitmap total best)
    (hstop : stop ≤ total) (hclear : ∀ x, start ≤ x → x < stop → (!bitmap x && p x) = true) :
    ClearRun bitmap total (if best.2 < stop - start then (start, stop - start) else best) := by
  split
  · refine ⟨by simp only; omega, fun x h₁ h₂ => ?_⟩
    have := hclear x h₁ (by simp only at h₂; omega)
    simp only [Bool.and_eq_true, Bool.not_eq_true'] at this
    exact this.1
  · exact hbest

theorem allocScanSegment_clear (wanted : Nat) (hstop : stop ≤ total)
    (fuel b : Nat) (best : Nat × Nat) (hbest : ClearRun bitmap total best) :
    ClearRun bitmap total (allocScanSegment bitmap wanted stop fuel b best).2 := by
  fun_induction allocScanSegment bitmap wanted stop fuel b best with
  | case1 | case2 => exact hbest
  | case3 fuel b best start hend e len best' hlen =>
    exact hbest.longer ((countWhile_le ..).trans (by omega)) fun x => countWhile_holds _ _ _ x
  | case4 fuel b best start hend e len best' hlen ih =>
    exact ih (hbest.longer ((countWhile_le ..).trans (by omega)) fun x => countWhile_holds _ _ _ x)

theorem allocScanSegmentReverse_clear (wanted start : Nat)
    (fuel b : Nat) (hb : b ≤ total) (best : Nat × Nat) (hbest : ClearRun bitmap total best) :
    ClearRun bitmap total (allocScanSegmentReverse bitmap wanted start fuel b best).2 := by
  fun_induction allocScanSegmentReverse bitmap wanted start fuel b best with
  | case1 | case2 => exact hbest
  | case3 fuel b best runEnd hend e len best' hlen =>
    exact hbest.longer ((countDownWhile_le ..).trans hb) fun x => countDownWhile_holds _ _ _ x (Nat.sub_le ..)
  | case4 fuel b best runEnd hend e len best' hlen ih =>
    have hrun : runEnd ≤ b := countDownWhile_le ..
    have he : e ≤ runEnd := countDownWhile_le ..
    refine ih ((countDownWhile_le ..).trans (he.trans (hrun.trans hb))) ?_
    exact hbest.longer (hrun.trans hb) fun x => countDownWhile_holds _ _ _ x (Nat.sub_le ..)

theorem allocScanSegmentReverse_exact (wanted start fuel b : Nat) (best : Nat × Nat)
    (hbest : best.2 < wanted) (hfound : (allocScanSegmentReverse bitmap wanted start fuel b best).1 = true) :
    (allocScanSegmentReverse bitmap wanted start fuel b best).2.2 = wanted := by
  fun_induction allocScanSegmentReverse bitmap wanted start fuel b best with
  | case1 | case2 => cases hfound
  | case3 fuel b best runEnd hend e len best' hlen =>
    rw [show best' = (e, len) from if_pos (by omega)]
    exact hlen
  | case4 fuel b best runEnd hend e len best' hlen ih =>
    have hle : len ≤ wanted := by
      by_contra hcon
      have := countDownWhile_holds _ _ _ (runEnd - (wanted + 1)) (Nat.sub_le ..) (show e ≤ _ by omega) (by omega)
      simp only [Bool.and_eq_true, decide_eq_true_eq] at this
      omega
    refine ih ?_ hfound
    show (if _ then _ else _ : Nat × Nat).2 < wanted
    split
    · simp only; omega
    · exact hbest

theorem Listed.clearRun {v : Volume β} (hv : v.IndexExact) (hvalid : v.freeIndex.valid = true)
    {run : Nat × Nat} (h : Listed v.freeIndex.extents wanted run) (hpos : 0 < run.2) :
    ClearRun v.bitmap v.total run := by
  have hmem (b : Nat) (h₁ : run.1 ≤ b) (h₂ : b < run.1 + run.2) : b < v.total ∧ v.bitmap b = false :=
    ((hv hvalid).exact b).mp (h.2 b h₁ h₂)
  refine ⟨?_, fun b h₁ h₂ => (hmem b h₁ h₂).2⟩
  have := (hmem (run.1 + run.2 - 1) (by omega) (by omega)).1
  omega

theorem clearRun_getD {v : Volume β} (hv : v.IndexExact) (hvalid : v.freeIndex.valid = true)
    {chosen : Option (Nat × Nat)} (hlisted : ∀ {run}, chosen = some run → Listed v.freeIndex.extents wanted run)
    (hpos : (chosen.getD (0, 0)).2 ≠ 0) : ClearRun v.bitmap v.total (chosen.getD (0, 0)) := by
  cases chosen with
  | none => exact clearRun_zero _ _
  | some run => exact (hlisted rfl).clearRun hv hvalid (Nat.pos_of_ne_zero hpos)

theorem chooseDataRun_clear (v : Volume β) (hv : v.IndexExact) (wanted cursor : Nat) (hcursor : 1 < cursor → cursor ≤ v.total)
    (hpos : (chooseDataRun v wanted cursor).2 ≠ 0) :
    ClearRun v.bitmap v.total (chooseDataRun v wanted cursor) := by
  unfold chooseDataRun at hpos ⊢
  split
  · rename_i hvalid
    rw [if_pos hvalid] at hpos
    exact clearRun_getD hv hvalid chooseForward_listed hpos
  · have h₁ := allocScanSegment_clear v.bitmap wanted (Nat.le_refl v.total) (v.total - cursor) cursor _
      (clearRun_zero v.bitmap v.total)
    have h₃ := allocScanSegment_clear v.bitmap wanted (Nat.le_refl v.total) (v.total - 1) 1 _
      (clearRun_zero v.bitmap v.total)
    simp only
    split
    · rename_i hsecond
      have h₂ := allocScanSegment_clear v.bitmap wanted (hcursor hsecond.2) (cursor - 1) 1 _ h₁
      split
      · exact h₃
      · exact h₂
    · split
      · exact h₃
      · exact h₁

theorem chooseMetadataRun_clear (v : Volume β) (hv : v.IndexExact) (wanted cursor : Nat) (hcursor : cursor ≤ v.total)
    (hpos : (chooseMetadataRun v wanted cursor).2 ≠ 0) :
    ClearRun v.bitmap v.total (chooseMetadataRun v wanted cursor) := by
  unfold chooseMetadataRun at hpos ⊢
  split
  · rename_i hvalid
    rw [if_pos hvalid] at hpos
    exact clearRun_getD hv hvalid chooseReverse_listed hpos
  · have h₁ := allocScanSegmentReverse_clear v.bitmap wanted 1 (cursor - 1) cursor hcursor _
      (clearRun_zero v.bitmap v.total)
    have h₂ := allocScanSegmentReverse_clear v.bitmap wanted cursor (v.total - cursor)
      v.total (Nat.le_refl _) _ h₁
    have h₃ := allocScanSegmentReverse_clear v.bitmap wanted 1 (v.total - 1)
      v.total (Nat.le_refl _) _ (clearRun_zero v.bitmap v.total)
    simp only
    split
    · split
      · exact h₃
      · exact h₂
    · split
      · exact h₃
      · exact h₁

theorem chooseExactRun_clear (v : Volume β) (hv : v.IndexExact) {cursor : Nat} (hwanted : 0 < wanted)
    (hcursor : cursor ≤ v.total) (h : chooseExactRun v wanted cursor = some start) :
    ClearRun v.bitmap v.total (start, wanted) := by
  unfold chooseExactRun at h
  split at h
  · rename_i hvalid
    obtain ⟨run, hrun, rfl⟩ := Option.map_eq_some_iff.mp h
    have hexact := chooseReverse_exact hrun
    have hclear := (chooseReverse_listed hrun).clearRun hv hvalid (by omega)
    rwa [← hexact]
  · have hone (low high : Nat) (hhigh : high ≤ v.total) :
        (scanReverse v.bitmap wanted low high (0, 0)).1 = true →
          ClearRun v.bitmap v.total ((scanReverse v.bitmap wanted low high (0, 0)).2.1, wanted) := by
      intro hfound
      have hclear := allocScanSegmentReverse_clear v.bitmap wanted low (high - low) high hhigh _
        (clearRun_zero v.bitmap v.total)
      have hexact := allocScanSegmentReverse_exact v.bitmap wanted low (high - low) high (0, 0) hwanted hfound
      refine ⟨?_, fun b h₁ h₂ => hclear.2 b h₁ ?_⟩
      · have := hclear.1
        rwa [hexact] at this
      · rwa [hexact]
    have h₁ := hone 1 cursor hcursor
    have h₂ := hone cursor v.total (Nat.le_refl _)
    have h₃ := hone 1 v.total (Nat.le_refl _)
    simp only at h
    split_ifs at h <;> obtain rfl := Option.some.inj h
    all_goals first | exact h₁ ‹_› | exact h₂ ‹_› | exact h₃ ‹_›

theorem metadataCursor_le (v : Volume β) : metadataCursor v ≤ v.total := by
  unfold metadataCursor
  split <;> omega

end Runs

section Actions

/-- Only the medium, the free-extent index, the cursors and the error of the
transaction may differ. -/
structure SameJournal (v v' : Volume β) : Prop where
  context : SameContext v v'
  bitmap : v'.bitmap = v.bitmap
  allocated : v'.tx.allocated = v.tx.allocated
  deferred : v'.tx.deferred = v.tx.deferred
  free : v'.sb.freeBlocks = v.sb.freeBlocks

variable {v v' : Volume β}

theorem SameJournal.journal (h : SameJournal v v') : v'.journal = v.journal := by
  simp only [Volume.journal, h.bitmap, h.allocated, h.deferred, h.free]

theorem SameJournal.acts (h : SameJournal v v') (htrace : v'.medium.trace = v.medium.trace) :
    Acts v v' :=
  ⟨h.context, by rw [h.journal], [], by simp [htrace], by simp⟩

theorem SameJournal.inTx (h : SameJournal v v') (hindex : v'.freeIndex = v.freeIndex) (hv : InTx v) :
    InTx v' := by
  refine ⟨h.context.active.trans hv.active, fun hvalid => ?_⟩
  rw [h.bitmap, h.context.total_eq, hindex]
  exact hv.index (hindex ▸ hvalid)

theorem SameJournal.update (v : Volume β) {medium index status data metadata} :
    SameJournal v { v with
      medium := medium, freeIndex := index, tx.error := status, dataAllocationCursor := data,
      metadataAllocationCursor := metadata } :=
  ⟨.update v, rfl, rfl, rfl, rfl⟩

def Volume.withIndex (v : Volume β) (index : FreeExtentIndex) : Volume β := { v.tickOn with freeIndex := index }

theorem removeOrInvalidate_apply (start count : Nat) (v : Volume β) :
    ∃ index, removeOrInvalidate start count v = (.ok (), v.withIndex index) ∧
      (v.IndexExact → index.valid = true →
        IsFreeIndex (setRange v.bitmap start count true) v.total index.extents) := by
  simp only [removeOrInvalidate, bind_apply, reserve, modify_apply]
  by_cases hvalid : v.freeIndex.valid = true
  · rw [if_pos (show v.tickOn.freeIndex.valid = true from hvalid)]
    split
    · rename_i extents hrem
      exact ⟨⟨extents, v.freeIndex.valid⟩, rfl, fun h _ => (h hvalid).remove hrem⟩
    · exact ⟨⟨v.freeIndex.extents, false⟩, rfl, by simp⟩
  · rw [if_neg (show ¬v.tickOn.freeIndex.valid = true from hvalid)]
    exact ⟨v.freeIndex, rfl, fun _ h => absurd h hvalid⟩

theorem addOrInvalidate_apply (start count : Nat) (v : Volume β) :
    ∃ index, addOrInvalidate start count v = (.ok (), v.withIndex index) ∧
      ∀ bitmap, (v.freeIndex.valid = true → IsFreeIndex bitmap v.total v.freeIndex.extents) →
        start + count ≤ v.total → index.valid = true →
        IsFreeIndex (setRange bitmap start count false) v.total index.extents := by
  simp only [addOrInvalidate, bind_apply, reserve, modify_apply]
  by_cases hvalid : v.freeIndex.valid = true
  · rw [if_pos (show v.tickOn.freeIndex.valid = true from hvalid)]
    split
    · rename_i extents hadd
      exact ⟨⟨extents, v.freeIndex.valid⟩, rfl, fun bitmap h hin _ => (h hvalid).add hin hadd⟩
    · exact ⟨⟨v.freeIndex.extents, false⟩, rfl, by simp⟩
  · rw [if_neg (show ¬v.tickOn.freeIndex.valid = true from hvalid)]
    exact ⟨v.freeIndex, rfl, fun _ _ _ h => absurd h hvalid⟩

theorem rebuild_apply (v : Volume β) :
    ∃ index, freeExtentIndexRebuild v = (.ok (), v.withIndex index) ∧
      (index.valid = true → IsFreeIndex v.bitmap v.total index.extents) := by
  simp only [freeExtentIndexRebuild, bind_apply, reserve, modify_apply]
  split
  · exact ⟨⟨freeRuns v.bitmap v.total, true⟩, rfl, fun _ => freeRuns_isFreeIndex v.bitmap v.total⟩
  · exact ⟨⟨v.freeIndex.extents, false⟩, rfl, by simp⟩

structure Allocated (v v' : Volume β) (start count : Nat) : Prop where
  context : SameContext v v'
  bitmap : v'.bitmap = setRange v.bitmap start count true
  allocated : v'.tx.allocated = v.tx.allocated ++ [⟨start, count⟩]
  deferred : v'.tx.deferred = v.tx.deferred
  free : v'.sb.freeBlocks = v.sb.freeBlocks - UInt64.ofNat count
  trace : v'.medium.trace = v.medium.trace

/-- A failure before the allocation was recorded leaves everything alone. -/
structure Unchanged (v v' : Volume β) : Prop extends SameJournal v v' where
  index : v'.freeIndex = v.freeIndex
  trace : v'.medium.trace = v.medium.trace

theorem Unchanged.refl (v : Volume β) : Unchanged v v := ⟨.update v, rfl, rfl⟩

theorem unchanged_tickOn (v : Volume β) : Unchanged v v.tickOn := ⟨.update v, rfl, rfl⟩

theorem Unchanged.proceeds (h : Unchanged v v') (hv : InTx v) : Proceeds v v' :=
  ⟨h.inTx h.index hv, h.acts h.trace⟩

theorem txRecordAllocated_apply (start count : Nat) (v : Volume β) :
    (∃ e v', txRecordAllocated start count v = (.error e, v') ∧ Unchanged v v') ∨
      txRecordAllocated start count v =
        (.ok (), { v.tickOn with tx.allocated := v.tx.allocated ++ [⟨start, count⟩] }) := by
  simp only [txRecordAllocated, bind_apply, get_apply]
  split_ifs
  · exact .inl ⟨_, _, rfl, .refl v⟩
  · simp only [bind_apply, reserve]
    split
    · exact .inr rfl
    · exact .inl ⟨_, _, rfl, unchanged_tickOn v⟩

theorem allocateUninitialized_apply (start count : Nat) (v : Volume β) (hv : InTx v) :
    (∃ e v', allocateSelectedRunUninitialized start count v = (.error e, v') ∧ Unchanged v v') ∨
      ∃ v', allocateSelectedRunUninitialized start count v = (.ok (), v') ∧ InTx v' ∧ Allocated v v' start count := by
  rcases txRecordAllocated_apply start count v with ⟨e, v', hrec, hsame⟩ | hrec
  · exact .inl ⟨e, v', by rw [allocateSelectedRunUninitialized, bind_of_error hrec], hsame⟩
  · right
    obtain ⟨index, hrem, hindex⟩ := removeOrInvalidate_apply start count
      { v.tickOn with tx.allocated := v.tx.allocated ++ [⟨start, count⟩] }
    refine ⟨_, by rw [allocateSelectedRunUninitialized, bind_of_ok hrec, bind_of_ok hrem, modify_apply], ?_, ?_⟩
    · exact ⟨hv.active, hindex hv.index⟩
    · exact ⟨.update v, rfl, rfl, rfl, rfl, rfl⟩

variable {start count : Nat}

theorem Allocated.steps (h : Allocated v v' start count)
    (hclear : ClearRun v.bitmap v.total (start, count)) :
    JournalSteps v.total v.firstPrivate v.journal v'.journal := by
  have hstep : JournalStep v.total v.firstPrivate _ _ := .allocate v.journal ⟨start, count⟩ hclear.1
    (fun b hb => hclear.2 b ((contains_iff _ b).mp hb).1 ((contains_iff _ b).mp hb).2)
  have hj : v'.journal = { v.journal with
      bitmap := setRange v.journal.bitmap start count true
      allocated := v.journal.allocated ++ [⟨start, count⟩]
      free := v.journal.free - UInt64.ofNat count } := by
    simp only [Volume.journal, h.bitmap, h.allocated, h.deferred, h.free]
  rw [hj]
  exact .single hstep

theorem allocateUninitialized_acts (start count : Nat) (v : Volume β) (hv : InTx v)
    (hclear : ClearRun v.bitmap v.total (start, count)) :
    Proceeds v (allocateSelectedRunUninitialized start count v).2 := by
  rcases allocateUninitialized_apply start count v hv with ⟨e, v', hrun, hsame⟩ | ⟨v', hrun, hv', halloc⟩
  · rw [hrun]
    exact hsame.proceeds hv
  · rw [hrun]
    exact ⟨hv', halloc.context, halloc.steps hclear, [], by simp [halloc.trace], by simp⟩

theorem not_settled_of_clear {first : Nat} {j : Journal} {b : Nat} (h : j.bitmap b = false) : ¬Settled first j b := by
  rintro ⟨hset, -⟩
  rw [h] at hset
  cases hset

theorem setRange_undo {bitmap : Nat → Bool}
    (hclear : ∀ b, start ≤ b → b < start + count → bitmap b = false) :
    setRange (setRange bitmap start count true) start count false = bitmap := by
  funext b
  simp only [setRange]
  split
  · rename_i hb
    exact (hclear b hb.1 hb.2).symm
  · rfl

theorem unmark_sameJournal (h : Allocated v v' start count)
    (hclear : ClearRun v.bitmap v.total (start, count)) (medium : Medium β) :
    SameJournal v (unmarkAllocated start count { v' with medium := medium }) := by
  have hcontext : SameContext v (unmarkAllocated start count { v' with medium := medium }) :=
    h.context.trans (.update v')
  refine ⟨hcontext, ?_, ?_, h.deferred, ?_⟩
  · simp only [unmarkAllocated, h.bitmap]
    exact setRange_undo hclear.2
  · simp only [unmarkAllocated, h.allocated, List.dropLast_concat]
  · simp only [unmarkAllocated, h.free, UInt64.sub_add_cancel]

variable [Inhabited β]

/-- Everything `zero_blocks` does, up to the end or to the write that fails. -/
theorem zeroBlocks_apply (n start : Nat) (v : Volume β) :
    ∃ result medium events, zeroBlocks start n v = (result, { v with medium := medium }) ∧
      medium.trace = v.medium.trace ++ events ∧ (∀ b, Event.write b ∈ events → start ≤ b ∧ b < start + n) ∧
      medium.env = v.medium.env ∧ v.medium.tick ≤ medium.tick ∧
      ∀ b, b < start ∨ start + n ≤ b → medium.disk b = v.medium.disk b := by
  induction n generalizing start v with
  | zero => exact ⟨.ok (), v.medium, [], rfl, by simp, by simp, rfl, le_rfl, fun _ _ => rfl⟩
  | succ n ih =>
    by_cases htotal : v.total ≤ start
    · have hfail : writeBlock start default v = (.error .invalidArgument, v) := by rw [writeBlock, if_pos htotal]
      exact ⟨_, v.medium, [], by rw [zeroBlocks, bind_of_error hfail], by simp, by simp, rfl, le_rfl, fun _ _ => rfl⟩
    · have hwrite : writeBlock start default v =
          (resultOf v.answer.status, { v with medium := v.medium.write start default }) := by
        rw [writeBlock, if_neg htotal, storageWrite]
      have hdisk (b : Nat) (hb : b < start ∨ start + (n + 1) ≤ b) : (v.medium.write start default).disk b = v.medium.disk b :=
        v.medium.write_disk_ne start default (by omega)
      cases hres : resultOf v.answer.status with
      | error e =>
        rw [hres] at hwrite
        refine ⟨.error e, v.medium.write start default, [Event.write start], by rw [zeroBlocks, bind_of_error hwrite], rfl,
          fun b hb => ?_, rfl, Nat.le_succ _, hdisk⟩
        simp only [List.mem_singleton, Event.write.injEq] at hb
        omega
      | ok u =>
        rw [hres] at hwrite
        obtain ⟨result, medium, events, hrun, htrace, hevents, henv, htick, hrest⟩ := ih (start + 1)
          { v with medium := v.medium.write start default }
        refine ⟨result, medium, Event.write start :: events, by rw [zeroBlocks, bind_of_ok hwrite, hrun], ?_, fun b hb => ?_,
          henv, (Nat.le_succ _).trans htick, fun b hb => (hrest b (by omega)).trans (hdisk b hb)⟩
        · rw [htrace]
          simp [Medium.write]
        · rcases List.mem_cons.mp hb with hb | hb
          · cases hb; omega
          · have := hevents b hb; omega

theorem allocateSelectedRun_acts (start count : Nat) (v : Volume β) (hv : InTx v)
    (hclear : ClearRun v.bitmap v.total (start, count)) :
    Proceeds v (allocateSelectedRun start count v).2 := by
  rcases allocateUninitialized_apply start count v hv with ⟨e, v', hrun, hsame⟩ | ⟨v', hrun, hv', halloc⟩
  · rw [allocateSelectedRun, bind_of_error hrun]
    exact hsame.proceeds hv
  · obtain ⟨result, medium, events, hzero, htrace, hevents, -⟩ := zeroBlocks_apply count start v'
    have hwrites (b : Nat) (hb : Event.write b ∈ events) : ¬Settled v.firstPrivate v.journal b :=
      not_settled_of_clear (hclear.2 b (hevents b hb).1 (hevents b hb).2)
    rw [halloc.trace] at htrace
    rw [allocateSelectedRun, bind_of_ok hrun, bind_apply, attempt_apply, hzero]
    cases result with
    | ok u =>
      refine ⟨(SameJournal.update v').inTx rfl hv', halloc.context.trans (.update v'),
        ?_, events, htrace, hwrites⟩
      have := halloc.steps hclear
      exact this
    | error e =>
      have hundo := unmark_sameJournal halloc hclear medium
      have hfree : (unmarkAllocated start count { v' with medium := medium }).freeIndex = v'.freeIndex := rfl
      have hbitmap : (unmarkAllocated start count { v' with medium := medium }).bitmap =
        setRange v'.bitmap start count false := rfl
      have hmedium : (unmarkAllocated start count { v' with medium := medium }).medium = medium := rfl
      simp only [bind_apply, modify_apply, get_apply]
      generalize unmarkAllocated start count { v' with medium := medium } = u at *
      have hacts (index : FreeExtentIndex) : Acts v (u.withIndex index) := by
        have hj : SameJournal u (u.withIndex index) := .update u
        refine ⟨hundo.context.trans hj.context, by rw [hj.journal, hundo.journal], events, ?_, hwrites⟩
        rw [← htrace, ← hmedium]
        rfl
      have hactive : u.tx.active = true := hundo.context.active.trans hv.active
      have htotal : u.total = v.total := hundo.context.total_eq
      by_cases hvalid : u.freeIndex.valid = true
      · obtain ⟨index, hadd, hindex⟩ := addOrInvalidate_apply start count u
        rw [if_pos hvalid, bind_of_ok hadd]
        refine ⟨⟨hactive, fun hi => ?_⟩, hacts index⟩
        have hexact := hindex v'.bitmap (fun h => by
          rw [hfree] at h ⊢
          rw [htotal, ← halloc.context.total_eq]
          exact hv'.index h) (by rw [htotal]; exact hclear.1) hi
        rwa [← hbitmap] at hexact
      · obtain ⟨index, hre, hindex⟩ := rebuild_apply u
        rw [if_neg hvalid, bind_of_ok hre]
        exact ⟨⟨hactive, hindex⟩, hacts index⟩

theorem allocateRun_acts (zeroFill : Bool) (start count : Nat) (v : Volume β) (hv : InTx v)
    (hclear : ClearRun v.bitmap v.total (start, count)) :
    Proceeds v (allocateRun zeroFill start count v).2 := by
  unfold allocateRun
  split
  · exact allocateSelectedRun_acts start count v hv hclear
  · exact allocateUninitialized_acts start count v hv hclear

end Actions

section Calls

variable {v : Volume β}

theorem txBegin_inTx (hv : v.tx.active = true) : (txBegin v).2 = v := by
  unfold txBegin
  split_ifs <;> rfl

/-- Everything `tx_defer_range` can do. -/
inductive Defers (v : Volume β) (start count : Nat) : Except Status Unit × Volume β → Prop
  | nothing (hcount : count = 0) : Defers v start count (.ok (), v)
  | refused (e : Status) (hrefused : v.tx.active = false ∨ v.tx.error ≠ .ok) : Defers v start count (.error e, v)
  | overflow (last : Range) (hlast : v.tx.deferred.getLast? = some last) (hstop : last.stop = start)
      (hsum : 2 ^ 64 ≤ last.count + count) :
      Defers v start count (.error .overflow, { v with tx.error := .overflow })
  | merged (front : List Range) (last : Range) (hlast : v.tx.deferred = front ++ [last]) (hstop : last.stop = start) :
      Defers v start count (.ok (), { v with tx.deferred := front ++ [⟨last.start, last.count + count⟩] })
  | appended (hanswer : v.answer.status = .ok) :
      Defers v start count (.ok (), { v.tickOn with tx.deferred := v.tx.deferred ++ [⟨start, count⟩] })
  | noMemory (hanswer : v.answer.status ≠ .ok)
      (hnew : ∀ last, v.tx.deferred.getLast? = some last → addChecked last.start last.count ≠ some start) :
      Defers v start count (.error .noMemory, v.tickOn)

theorem txDeferRange_defers (start count : Nat) (v : Volume β) : Defers v start count (txDeferRange start count v) := by
  have happend (hnew : ∀ last, v.tx.deferred.getLast? = some last → addChecked last.start last.count ≠ some start) :
      Defers v start count (txDeferRange.appendDeferred start count v) := by
    rw [txDeferRange.appendDeferred, bind_apply]
    simp only [reserve]
    split
    · rename_i hgranted
      exact .appended (of_decide_eq_true hgranted)
    · rename_i hrefused
      exact .noMemory (by simpa using hrefused) hnew
  rw [txDeferRange, bind_of_ok (get_apply v)]
  split_ifs with hcount hactive herror
  · exact .nothing hcount
  · exact .refused _ (.inl hactive)
  · exact .refused _ (.inr herror)
  · cases hlast : v.tx.deferred.getLast? with
    | none => exact happend fun last h => by rw [hlast] at h; cases h
    | some last =>
      obtain ⟨front, hfront⟩ := List.getLast?_eq_some_iff.mp hlast
      simp only
      split_ifs with hjoin
      · rw [addChecked]
        split_ifs with hsum
        · simp only [modify_apply, hfront, List.dropLast_concat]
          exact .merged front last hfront (addChecked_eq_some hjoin)
        · exact .overflow last hlast (addChecked_eq_some hjoin) (Nat.le_of_not_lt hsum)
      · refine happend fun last' h => ?_
        rw [hlast] at h
        cases h
        exact hjoin

theorem txDeferRange_acts (start count : Nat) (v : Volume β) (hv : InTx v)
    (hset : ∀ b, start ≤ b → b < start + count → v.bitmap b = true) :
    Proceeds v (txDeferRange start count v).2 := by
  have hdefers := txDeferRange_defers start count v
  generalize txDeferRange start count v = r at hdefers
  cases hdefers with
  | nothing => exact ⟨hv, .refl v⟩
  | refused => exact ⟨hv, .refl v⟩
  | overflow => exact Unchanged.proceeds ⟨.update v, rfl, rfl⟩ hv
  | merged front last hlast hstop =>
    refine ⟨⟨hv.active, hv.index⟩, .update v, ?_, [], by simp, by simp⟩
    exact .single (.merge v.journal front last count hlast fun b h₁ h₂ => hset b (by omega) (by omega))
  | appended =>
    refine ⟨⟨hv.active, hv.index⟩, .update v, ?_, [], by simp [Volume.tickOn], by simp⟩
    refine .single (.defer v.journal ⟨start, count⟩ fun b hb => ?_)
    rw [contains_iff] at hb
    exact hset b hb.1 hb.2
  | noMemory => exact (unchanged_tickOn v).proceeds hv

theorem clearPrivate_acts (b : Nat) (v : Volume β) (hv : InTx v) (hin : b < v.total) (hset : v.bitmap b = true)
    (hprivate : txBlockPrivate v b = true) :
    Proceeds v (addOrInvalidate b 1 (clearPrivate b v)).2 := by
  obtain ⟨index, hadd, hindex⟩ := addOrInvalidate_apply b 1 (clearPrivate b v)
  rw [hadd]
  have hcover : covers (v.journal.allocated.drop v.firstPrivate) b = true := by
    rw [txBlockPrivate, txBlockPrivateSince, Bool.and_eq_true] at hprivate
    exact hprivate.2
  have hstep : JournalStep v.total v.firstPrivate v.journal _ := .release v.journal b hin hset hcover
  refine ⟨⟨hv.active, ?_⟩, .update v, ?_, [], ?_, by simp⟩
  · exact hindex v.bitmap hv.index hin
  · exact .single hstep
  · simp [Volume.withIndex, Volume.tickOn, clearPrivate]

theorem moves_freeRunLoop (stop fuel b : Nat) (v : Volume β) (hv : InTx v) (hstop : stop ≤ v.total) :
    Proceeds v (freeRunLoop stop fuel b v).2 := by
  induction fuel generalizing b v with
  | zero => exact ⟨hv, .refl v⟩
  | succ fuel ih =>
    -- Whatever moves the state keeps the bound on the range.
    have hnext (b : Nat) (v' : Volume β) (h : Proceeds v v') : Proceeds v (freeRunLoop stop fuel b v').2 := by
      have hrun := ih b v' h.1 (by rw [h.2.context.total_eq]; exact hstop)
      exact ⟨hrun.1, h.2.trans hrun.2⟩
    rw [freeRunLoop, bind_apply, get_apply]
    simp only
    split_ifs with hdone hclear hprivate
    · exact ⟨hv, .refl v⟩
    · exact ih (b + 1) v hv hstop
    · have hset : v.bitmap b = true := by simpa using hclear
      have h := clearPrivate_acts b v hv (by omega) hset hprivate
      obtain ⟨index, hadd, -⟩ := addOrInvalidate_apply b 1 (clearPrivate b v)
      rw [bind_of_ok (modify_apply _ _), bind_of_ok hadd]
      rw [hadd] at h
      exact hnext (b + 1) _ h
    · have hrun := fun x => countWhile_holds (fun x => v.bitmap x && !txBlockPrivate v x) (stop - b) b x
      generalize countWhile (fun x => v.bitmap x && !txBlockPrivate v x) (stop - b) b = e at *
      have h := txDeferRange_acts b (e - b) v hv (fun x h₁ h₂ => by
        have := hrun x h₁ (by omega)
        rw [Bool.and_eq_true] at this
        exact this.1)
      rw [bind_apply, attempt_apply]
      simp only
      cases (txDeferRange b (e - b) v).1 with
      | ok u => exact hnext e _ h
      | error status => exact h

theorem moves_freeRun (start count : Nat) : Moves InTx Acts (freeRun start count : VolumeM β Unit) := by
  intro v hv
  unfold freeRun
  split_ifs
  · exact ⟨hv, .refl v⟩
  · rw [bind_apply, attempt_apply, txBegin_inTx hv.active]
    simp only
    cases (txBegin v).1 with
    | error status =>
      exact Unchanged.proceeds ⟨.update v, rfl, rfl⟩ hv
    | ok u => exact moves_freeRunLoop _ _ start v hv (Nat.min_le_right _ _)

variable [Inhabited β]

/-- An allocator call fails before it takes anything, or it takes a clear run
and then moves a cursor. -/
inductive Picks {α : Type} (v : Volume β) (run : α → Nat × Nat) : Except Status α × Volume β → Prop
  | refused (e : Status) : Picks v run (.error e, v)
  | picked (zeroFill : Bool) (a : α) (data metadata : Volume β → Nat) (hclear : ClearRun v.bitmap v.total (run a)) :
      Picks v run ((allocateRun zeroFill (run a).1 (run a).2 >>= fun _ => modify (fun u =>
        { u with dataAllocationCursor := data u, metadataAllocationCursor := metadata u }) >>= fun _ => pure a) v)

theorem Picks.proceeds {α : Type} {run : α → Nat × Nat} {x : Except Status α × Volume β}
    (h : Picks v run x) (hv : InTx v) : Proceeds v x.2 := by
  obtain _ | ⟨zeroFill, a, data, metadata, hclear⟩ := h
  · exact ⟨hv, .refl v⟩
  · have hx := allocateRun_acts zeroFill _ _ v hv hclear
    rw [bind_apply]
    rcases hr : allocateRun zeroFill (run a).1 (run a).2 v with ⟨_ | u, v'⟩
    · rwa [hr] at hx
    · rw [hr] at hx
      exact ⟨(SameJournal.update v').inTx rfl hx.1, hx.2.trans ((SameJournal.update v').acts rfl)⟩

theorem Picks.begin {α : Type} {run : α → Nat × Nat} {next : VolumeM β α} (hv : InTx v)
    (h : Picks v run (next v)) : Picks v run ((txBegin >>= fun _ => next) v) := by
  have hsame := txBegin_inTx hv.active
  rw [bind_apply]
  rcases hbegin : txBegin v with ⟨e | _, u⟩ <;> rw [hbegin] at hsame <;> cases hsame
  · exact .refused e
  · exact h

theorem allocDataRunImpl_picks (wanted : Nat) (zeroFill : Bool) (hv : InTx v) :
    Picks v id (allocDataRunImpl wanted zeroFill v) := by
  refine .begin hv ?_
  rw [bind_of_ok (get_apply v)]
  simp only
  generalize hcursor : (if v.dataAllocationCursor < 1 ∨ v.total ≤ v.dataAllocationCursor then 1
    else v.dataAllocationCursor) = cursor
  have hle : 1 < cursor → cursor ≤ v.total := by split_ifs at hcursor <;> omega
  split_ifs with hnone hzero
  · exact .refused _
  · exact .refused _
  · exact .picked zeroFill _ _ Volume.metadataAllocationCursor (chooseDataRun_clear v hv.index wanted cursor hle hzero)

theorem allocRun_picks (wanted : Nat) (hv : InTx v) : Picks v id (allocRun wanted v) := by
  refine .begin hv ?_
  rw [bind_of_ok (get_apply v)]
  simp only
  split_ifs with hnone hzero
  · exact .refused _
  · exact .refused _
  · exact .picked true _ Volume.dataAllocationCursor _
      (chooseMetadataRun_clear v hv.index wanted _ (metadataCursor_le v) hzero)

theorem allocExactRunImpl_picks (wanted : Nat) (zeroFill : Bool) (hv : InTx v) :
    Picks v (·, wanted) (allocExactRunImpl wanted zeroFill v) := by
  unfold allocExactRunImpl
  split
  · exact .refused _
  · rename_i hwanted
    refine .begin hv ?_
    rw [bind_of_ok (get_apply v)]
    cases hrun : chooseExactRun v wanted (metadataCursor v) with
    | none => exact .refused _
    | some start =>
      exact .picked zeroFill start Volume.dataAllocationCursor _
        (chooseExactRun_clear v hv.index (Nat.pos_of_ne_zero hwanted) (metadataCursor_le v) hrun)

end Calls

end InfiltratorFS
