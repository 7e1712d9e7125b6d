import InfiltratorFS.Volume.AllocatorServes
import Mathlib.Order.Interval.Finset.Nat

namespace InfiltratorFS

open Segment Scan Prog

variable {β : Type}

section Clear

def clearBlocks (bitmap : Nat → Bool) (total : Nat) : Finset Nat := (Finset.range total).filter fun b => bitmap b = false

variable {bitmap : Nat → Bool} {total b first : Nat}

theorem mem_clearBlocks : b ∈ clearBlocks bitmap total ↔ b < total ∧ bitmap b = false := by
  rw [clearBlocks, Finset.mem_filter, Finset.mem_range]

theorem clearBlocks_set {r : Range} (hin : r.stop ≤ total)
    (hclear : ∀ b, r.contains b = true → bitmap b = false) :
    (clearBlocks (setRange bitmap r.start r.count true) total).card + r.count = (clearBlocks bitmap total).card := by
  have hsplit : clearBlocks bitmap total =
      clearBlocks (setRange bitmap r.start r.count true) total ∪ Finset.Ico r.start r.stop := by
    ext b
    rw [Finset.mem_union, mem_clearBlocks, mem_clearBlocks, Finset.mem_Ico, setRange_apply]
    by_cases hb : r.contains b = true
    · have hbounds := (contains_iff r b).mp hb
      simp only [hb, if_true, hclear b hb, hbounds, and_self, or_true, iff_true, and_true]
      omega
    · have hout : ¬(r.start ≤ b ∧ b < r.stop) := fun h => hb ((contains_iff r b).mpr h)
      simp [hb, hout]
  have hdisjoint : Disjoint (clearBlocks (setRange bitmap r.start r.count true) total) (Finset.Ico r.start r.stop) := by
    rw [Finset.disjoint_left]
    intro b hb hin
    rw [mem_clearBlocks, setRange_apply, if_pos ((contains_iff r b).mpr (Finset.mem_Ico.mp hin))] at hb
    cases hb.2
  rw [hsplit, Finset.card_union_of_disjoint hdisjoint, Nat.card_Ico, Segment.stop, Nat.add_sub_cancel_left]

theorem clearBlocks_unset (hin : b < total) (hset : bitmap b = true) :
    (clearBlocks (setRange bitmap b 1 false) total).card = (clearBlocks bitmap total).card + 1 := by
  have hinsert : clearBlocks (setRange bitmap b 1 false) total = insert b (clearBlocks bitmap total) := by
    ext x
    rw [Finset.mem_insert, mem_clearBlocks, mem_clearBlocks, setRange]
    by_cases hx : x = b
    · subst hx
      simp [hin]
    · rw [if_neg (by omega)]
      simp [hx]
  have hnot : b ∉ clearBlocks bitmap total := fun h => by
    rw [(mem_clearBlocks.mp h).2] at hset
    cases hset
  rw [hinsert, Finset.card_insert_of_notMem hnot]

def Journal.Counted (total : Nat) (j : Journal) : Prop := j.free.toNat = (clearBlocks j.bitmap total).card

theorem JournalStep.counted {j j' : Journal} (htotal : total < 2 ^ 64) (h : JournalStep total first j j')
    (hj : j.Counted total) : j'.Counted total := by
  cases h with
  | allocate r hin hclear =>
    have hcard := clearBlocks_set hin hclear
    have hle : r.count ≤ total := by
      rw [Segment.stop] at hin
      omega
    have hnat : (UInt64.ofNat r.count).toNat = r.count := UInt64.toNat_ofNat_of_lt' (by rw [UInt64.size]; omega)
    rw [Journal.Counted] at hj ⊢
    have hsub : UInt64.ofNat r.count ≤ j.free := by
      rw [UInt64.le_iff_toNat_le, hnat]
      omega
    show (j.free - UInt64.ofNat r.count).toNat = (clearBlocks (setRange j.bitmap r.start r.count true) total).card
    rw [UInt64.toNat_sub_of_le _ _ hsub, hnat]
    omega
  | release b hin hset _ =>
    have hcard := clearBlocks_unset hin hset
    have hbound : (clearBlocks (setRange j.bitmap b 1 false) total).card ≤ total := by
      have := Finset.card_filter_le (Finset.range total) fun x => setRange j.bitmap b 1 false x = false
      rwa [Finset.card_range] at this
    rw [Journal.Counted] at hj ⊢
    rw [UInt64.toNat_add, hj, hcard]
    have hone : (1 : UInt64).toNat = 1 := rfl
    rw [hone, Nat.mod_eq_of_lt (by omega)]
  | defer => exact hj
  | merge => exact hj

theorem JournalSteps.counted {j j' : Journal} (htotal : total < 2 ^ 64) (h : JournalSteps total first j j')
    (hj : j.Counted total) : j'.Counted total := by
  induction h with
  | refl => exact hj
  | tail _ hstep ih => exact hstep.counted htotal ih

theorem Acts.counted {v v' : Volume β} (h : Acts v v') (hv : v.journal.Counted v.total) : v'.journal.Counted v'.total := by
  rw [h.context.total_eq]
  exact h.steps.counted v.sb.totalBlocks.toNat_lt hv

end Clear

section Free

structure FreedOnce (v v' : Volume β) (b : Nat) : Prop extends Released v v' b (b + 1) where
  inTx : InTx v'
  acts : Acts v v'
  disk : v'.medium.disk = v.medium.disk
  times : ∀ x, deferredTimes v' x = deferredTimes v x + if x = b ∧ txBlockPrivate v b = false then 1 else 0

theorem freeRun_once {v : Volume β} (hv : OpenTx v) (hgranted : Granted v) {b : Nat} (hb : b < v.total)
    (hset : v.bitmap b = true) : ∃ v', freeRun b 1 v = (.ok (), v') ∧ FreedOnce v v' b := by
  have hrun : freeRun b 1 v = freeRunLoop (b + 1) 1 b v := by
    rw [freeRun, if_neg (by decide), bind_apply, attempt_apply, hv.begin]
    show freeRunLoop (min (b + 1) v.total) (min (b + 1) v.total - b) b v = _
    rw [min_eq_left hb, Nat.add_sub_cancel_left]
  have hone (u : Volume β) (x : Nat) : freeRunLoop (b + 1) 0 x u = (.ok (), u) := rfl
  have hmoves := moves_freeRun b 1 v hv.toInTx
  rw [hrun, freeRunLoop, bind_of_ok (get_apply v), if_neg (by omega), if_neg (by rw [hset]; simp)] at hmoves ⊢
  by_cases hprivate : txBlockPrivate v b = true
  · obtain ⟨index, hadd, -⟩ := addOrInvalidate_apply b 1 (clearPrivate b v)
    rw [if_pos hprivate, bind_of_ok (modify_apply _ _), bind_of_ok hadd, hone] at hmoves ⊢
    refine ⟨_, rfl, clearPrivate_released hset hprivate index, hmoves.1, hmoves.2, rfl, fun x => ?_⟩
    rw [if_neg (by simp [hprivate])]
    rfl
  · have hend : countWhile (fun x => v.bitmap x && !txBlockPrivate v x) (b + 1 - b) b = b + 1 := by
      rw [Nat.add_sub_cancel_left, countWhile, if_pos (by simp [hset, hprivate])]
      rfl
    obtain ⟨u, hdefer, hdeferred⟩ := txDeferRange_granted hv.active hv.error b 1 (by decide) hb (.inr (hgranted _ le_rfl))
    rw [if_neg hprivate, hend, Nat.add_sub_cancel_left, bind_apply, attempt_apply, hdefer] at hmoves ⊢
    rw [Bool.not_eq_true] at hprivate
    refine ⟨u, rfl, hdeferred.released fun x hlo hhi => ?_, hmoves.1, hmoves.2, hdeferred.disk, fun x => ?_⟩
    · obtain rfl : x = b := by omega
      exact ⟨hset, hprivate⟩
    · rw [hdeferred.times]
      simp only [hprivate, and_true, show (b ≤ x ∧ x < b + 1) ↔ x = b by omega]

end Free

section Take

structure TookOnce (v v' : Volume β) (start : Nat) : Prop extends Took v v' start 1 where
  inside : start < v.total
  clear : v.bitmap start = false
  inTx : InTx v'
  acts : Acts v v'
  disk : ∀ b, b ≠ start → v'.medium.disk b = v.medium.disk b

theorem txBlockPrivate_iff {v : Volume β} {b : Nat} :
    txBlockPrivate v b = true ↔ v.tx.active = true ∧ covers (v.tx.allocated.drop v.firstPrivate) b = true := by
  rw [txBlockPrivate, txBlockPrivateSince, Bool.and_eq_true]
  rfl

theorem TookOnce.private_iff {v v' : Volume β} {start : Nat} (h : TookOnce v v' start)
    (hfirst : v.firstPrivate ≤ v.tx.allocated.length) (hactive : v.tx.active = true) (b : Nat) :
    txBlockPrivate v' b = true ↔ txBlockPrivate v b = true ∨ b = start := by
  rw [txBlockPrivate_iff, txBlockPrivate_iff, h.context.active, h.context.firstPrivate, h.allocated,
    List.drop_append_of_le_length hfirst, covers_append, covers_cons, covers_nil, Bool.or_false, Bool.or_eq_true, contains_iff,
    Segment.stop]
  simp only [hactive, true_and]
  apply or_congr_right
  omega

variable [Inhabited β]

theorem allocRun_outcome {v : Volume β} (hv : OpenTx v) (hgranted : Granted v) (hzero : v.bitmap 0 = true)
    (hcounted : v.journal.Counted v.total) :
    (∃ start v', allocRun 1 v = (.ok (start, 1), v') ∧ TookOnce v v' start) ∨
      (allocRun 1 v = (.error .noSpace, v) ∧ clearBlocks v.bitmap v.total = ∅) := by
  by_cases hexists : ∃ x, x < v.total ∧ v.bitmap x = false
  · obtain ⟨x, hx, hclear⟩ := hexists
    have hpos : 1 ≤ x := by
      rcases Nat.eq_zero_or_pos x with rfl | hpos
      · rw [hzero] at hclear
        cases hclear
      · exact hpos
    have hfree : v.sb.freeBlocks ≠ 0 := by
      intro hnone
      have hcard : v.sb.freeBlocks.toNat = (clearBlocks v.bitmap v.total).card := hcounted
      rw [hnone] at hcard
      have hempty := Finset.card_eq_zero.mp hcard.symm
      have hmem := mem_clearBlocks.mpr ⟨hx, hclear⟩
      rw [hempty] at hmem
      cases hmem
    obtain ⟨start, v', hrun⟩ := allocRun_one hv hgranted hfree ⟨hpos, hx⟩ hclear
    obtain ⟨hrunClear, htook, hinTx⟩ := Allocation.took (.metadata 1) hv hrun
    have hacts := ((allocRun_picks 1 hv.toInTx).proceeds hv.toInTx).2
    rw [hrun] at hacts
    exact .inl ⟨start, v', hrun, htook.toTook, hrunClear.1, hrunClear.2 start le_rfl (Nat.lt_succ_self _), hinTx, hacts,
      fun b hb => htook.disk b (by omega)⟩
  · have hempty : clearBlocks v.bitmap v.total = ∅ := by
      rw [Finset.eq_empty_iff_forall_notMem]
      exact fun x hx => hexists ⟨x, mem_clearBlocks.mp hx⟩
    have hfree : v.sb.freeBlocks = 0 := by
      have hcard : v.sb.freeBlocks.toNat = (clearBlocks v.bitmap v.total).card := hcounted
      rw [hempty, Finset.card_empty] at hcard
      exact UInt64.toNat_inj.mp hcard
    refine .inr ⟨?_, hempty⟩
    rw [allocRun, bind_of_ok hv.begin, bind_of_ok (get_apply v), if_pos (.inr hfree)]
    rfl

end Take

end InfiltratorFS
