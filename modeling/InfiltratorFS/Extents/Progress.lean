import InfiltratorFS.Extents.Paged
import InfiltratorFS.Volume.SingleBlocks

namespace InfiltratorFS.Paged

open Prog Segment PointerTree

section Serving

/-- An open operation on a volume whose requests are granted. -/
structure Serving (v : Volume Block) : Prop extends OpenTx v where
  granted : Granted v
  generation : v.tx.baseSb.generation.toNat + 1 < 2 ^ 64
  first : v.firstPrivate ≤ v.tx.allocated.length
  zero : v.bitmap 0 = true
  counted : v.journal.Counted v.total

variable {v : Volume Block} (h : Serving v)
include h

theorem Serving.tickOn : Serving v.tickOn := { h with granted := h.granted.mono rfl (Nat.le_succ _) }

theorem Serving.answer : v.answer.status = .ok := h.granted _ le_rfl

theorem Serving.readBlock {b : Nat} (hb : b < v.total) :
    readBlock b v = (.ok (v.medium.disk b), v.tickOn) := by
  rw [InfiltratorFS.readBlock, if_neg (by omega), storageRead, if_pos h.answer]

theorem Serving.writeBlock {b : Nat} (hb : b < v.total) (data : Block) :
    writeBlock b data v = (.ok (), { v with medium := v.medium.write b data }) := by
  rw [InfiltratorFS.writeBlock, if_neg (by omega), storageWrite, resultOf, if_pos h.answer]

theorem Serving.disk_write (b : Nat) (data : Block) :
    (v.medium.write b data).disk = Function.update v.medium.disk b data := by
  have hstatus : (v.medium.env v.medium.tick).status = .ok := h.answer
  rw [Medium.write, if_pos hstatus]

theorem Serving.written (b : Nat) (data : Block) :
    Serving { v with medium := v.medium.write b data } := { h with granted := h.granted.mono rfl (Nat.le_succ _) }

theorem Serving.acts {v' : Volume Block} (hacts : Acts v v') (hopen : OpenTx v') (hgranted : Granted v')
    (hallocated : v.tx.allocated.length ≤ v'.tx.allocated.length) (hzero : v'.bitmap 0 = true) : Serving v' :=
  { hopen with
    granted := hgranted
    generation := by
      rw [hacts.context.baseSb]
      exact h.generation
    first := by
      rw [hacts.context.firstPrivate]
      exact h.first.trans hallocated
    zero := hzero
    counted := hacts.counted h.counted }

end Serving

section Progress

def exchanged (live : Nat → Bool) (gone mine : List Nat) (b : Nat) : Bool :=
  (live b && !decide (b ∈ gone)) || decide (b ∈ mine)

variable {b : Nat}

theorem exchanged_iff {live : Nat → Bool} {gone mine : List Nat} :
    exchanged live gone mine b = true ↔ (live b = true ∧ b ∉ gone) ∨ b ∈ mine := by
  simp [exchanged]

theorem accounts_congr {retained live live' : Nat → Bool} {v : Volume Block} (h : Accounts retained live v)
    (heq : ∀ b, live' b = true ↔ live b = true) : Accounts retained live' v := by
  have : live' = live := funext fun b => Bool.eq_iff_iff.mpr (heq b)
  rwa [this]

/-- How far a rewrite has come from the volume it started on: the old blocks it
has given up, and the blocks it has taken in with their contents. -/
structure Progress (retained live : Nat → Bool) (v₀ v : Volume Block) (gone : List Nat) (mine : List (Nat × Block)) : Prop where
  serving : Serving v
  context : SameContext v₀ v
  accounts : Accounts retained (exchanged live gone (mine.map Prod.fst)) v
  disk : ∀ b, live b = true → b ∉ gone → v.medium.disk b = v₀.medium.disk b
  stored : ∀ p ∈ mine, v.medium.disk p.1 = p.2
  distinct : (mine.map Prod.fst).Nodup
  fresh : ∀ b ∈ mine.map Prod.fst, live b = true → b ∈ gone
  inside : ∀ b ∈ mine.map Prod.fst, b ≠ 0 ∧ b < v₀.total
  own : ∀ b ∈ mine.map Prod.fst, txBlockPrivate v b = true
  settled : ∀ b, v₀.bitmap b = true → txBlockPrivate v₀ b = false → v.bitmap b = true
  private_eq : ∀ b, v₀.bitmap b = true → txBlockPrivate v b = txBlockPrivate v₀ b
  times : ∀ b, deferredTimes v b = deferredTimes v₀ b + if b ∈ gone ∧ txBlockPrivate v₀ b = false then 1 else 0
  room : (clearBlocks v₀.bitmap v₀.total).card ≤ (clearBlocks v.bitmap v.total).card + mine.length

variable {retained live : Nat → Bool} {v₀ v : Volume Block} {gone : List Nat} {mine : List (Nat × Block)}

theorem Progress.refl (hv : Serving v) (h : Accounts retained live v) : Progress retained live v v [] [] where
  serving := hv
  context := .refl v
  accounts := accounts_congr h fun b => by simp [exchanged_iff]
  disk := fun _ _ _ => rfl
  stored := fun _ hp => nomatch hp
  distinct := List.nodup_nil
  fresh := fun _ hb => nomatch hb
  inside := fun _ hb => nomatch hb
  own := fun _ hb => nomatch hb
  settled := fun _ hset _ => hset
  private_eq := fun _ _ => rfl
  times := fun b => by simp
  room := Nat.le_add_right _ _

theorem Progress.write {old : Block} (h : Progress retained live v₀ v gone ((b, old) :: mine)) (data : Block) :
    Progress retained live v₀ { v with medium := v.medium.write b data } gone ((b, data) :: mine) :=
  { h with
    serving := h.serving.written b data
    context := h.context.trans (.update _)
    accounts := h.accounts.update
    disk := fun x hx hnot => by
      have hne : x ≠ b := by
        rintro rfl
        exact hnot (h.fresh x List.mem_cons_self hx)
      show (v.medium.write b data).disk x = _
      rw [h.serving.disk_write, Function.update_of_ne hne, h.disk x hx hnot]
    stored := fun p hp => by
      show (v.medium.write b data).disk p.1 = _
      rw [h.serving.disk_write]
      rcases List.mem_cons.mp hp with rfl | hp
      · exact Function.update_self _ _ _
      · have hne : p.1 ≠ b := by
          intro heq
          have hnot := (List.nodup_cons.mp h.distinct).1
          exact hnot (List.mem_map.mpr ⟨p, hp, heq⟩)
        rw [Function.update_of_ne hne, h.stored p (List.mem_cons_of_mem _ hp)] }

variable (h : Progress retained live v₀ v gone mine)
include h

theorem Progress.total : v.total = v₀.total := h.context.total_eq

theorem Progress.tickOn : Progress retained live v₀ v.tickOn gone mine :=
  { h with
    serving := h.serving.tickOn
    context := h.context.trans (.update _)
    accounts := h.accounts.update }

theorem Progress.adopt (hb : b ≠ 0 ∧ b < v₀.total) (hlive : live b = true)
    (hgone : b ∉ gone) (hset : v₀.bitmap b = true) (hprivate : txBlockPrivate v₀ b = true) :
    Progress retained live v₀ v (b :: gone) ((b, v.medium.disk b) :: mine) :=
  { h with
    accounts := by
      refine accounts_congr h.accounts fun x => ?_
      rw [exchanged_iff, exchanged_iff, List.map_cons, List.mem_cons, List.mem_cons]
      by_cases hx : x = b
      · subst hx
        simp [hlive, hgone]
      · simp [hx]
    disk := fun x hx hnot => h.disk x hx fun hmem => hnot (List.mem_cons_of_mem _ hmem)
    stored := List.forall_mem_cons.mpr ⟨rfl, h.stored⟩
    distinct := by
      rw [List.map_cons, List.nodup_cons]
      exact ⟨fun hmem => hgone (h.fresh b hmem hlive), h.distinct⟩
    fresh := List.forall_mem_cons.mpr
      ⟨fun _ => List.mem_cons_self, fun x hx hlive' => List.mem_cons_of_mem _ (h.fresh x hx hlive')⟩
    inside := List.forall_mem_cons.mpr ⟨hb, h.inside⟩
    own := List.forall_mem_cons.mpr ⟨(h.private_eq _ hset).trans hprivate, h.own⟩
    times := fun x => by
      rw [h.times]
      congr 1
      by_cases hx : x = b
      · subst hx
        simp [hprivate]
      · simp [hx]
    room := h.room.trans (Nat.add_le_add_left (Nat.le_succ _) _) }

theorem Progress.take {start : Nat} {v' : Volume Block} (htook : TookOnce v v' start) :
    Progress retained live v₀ v' gone ((start, v'.medium.disk start) :: mine) := by
  have hprivate := htook.private_iff h.serving.first h.serving.active
  have hclear : ClearRun v.bitmap v.total (start, 1) :=
    ⟨htook.inside, fun b hlo hhi => by
      obtain rfl : b = start := by
        simp only at hlo hhi
        omega
      exact htook.clear⟩
  have haccounts := h.accounts.take hclear htook.inTx htook.toTook
  -- a block that is still live was set, so it is not the one handed out
  have hother {b : Nat} (hb : exchanged live gone (mine.map Prod.fst) b = true) : b ≠ start := by
    rintro rfl
    have hset := (h.accounts.set_iff b htook.inside).mpr (.inl hb)
    rw [htook.clear] at hset
    cases hset
  have hnew : start ∉ mine.map Prod.fst := fun hmem =>
    hother (exchanged_iff.mpr (.inr hmem)) rfl
  have hcontext := h.context.trans htook.context
  refine ⟨?_, hcontext, ?_, ?_, ?_, ?_, ?_, ?_, ?_, ?_, ?_, ?_, ?_⟩
  · refine h.serving.acts htook.acts haccounts.toOpenTx (h.serving.granted.mono htook.env htook.tick) ?_ ?_
    · rw [htook.allocated, List.length_append]
      exact Nat.le_add_right _ _
    · rw [htook.bitmap, setRange]
      split
      · rfl
      · exact h.serving.zero
  · refine accounts_congr haccounts fun x => ?_
    rw [Bool.or_eq_true, exchanged_iff, exchanged_iff, contains_iff, List.map_cons, List.mem_cons, Segment.stop]
    have : start ≤ x ∧ x < start + 1 ↔ x = start := by omega
    rw [this]
    tauto
  · intro x hx hnot
    rw [htook.disk x (hother (exchanged_iff.mpr (.inl ⟨hx, hnot⟩))), h.disk x hx hnot]
  · intro p hp
    rcases List.mem_cons.mp hp with rfl | hp
    · rfl
    · have hne : p.1 ≠ start := fun heq => hnew (List.mem_map.mpr ⟨p, hp, heq⟩)
      rw [htook.disk p.1 hne, h.stored p hp]
  · rw [List.map_cons, List.nodup_cons]
    exact ⟨hnew, h.distinct⟩
  · refine List.forall_mem_cons.mpr ⟨fun hlive => ?_, h.fresh⟩
    by_contra hnot
    exact hother (exchanged_iff.mpr (.inl ⟨hlive, hnot⟩)) rfl
  · refine List.forall_mem_cons.mpr ⟨⟨?_, by rw [← h.total]; exact htook.inside⟩, h.inside⟩
    intro hz
    have hclear := htook.clear
    rw [show start = 0 from hz, h.serving.zero] at hclear
    cases hclear
  · exact List.forall_mem_cons.mpr ⟨(hprivate _).mpr (.inr rfl), fun x hx => (hprivate _).mpr (.inl (h.own x hx))⟩
  · intro x hset hnot
    rw [htook.bitmap, setRange]
    split
    · rfl
    · exact h.settled x hset hnot
  · intro x hset
    rw [← h.private_eq x hset, Bool.eq_iff_iff, hprivate]
    constructor
    · rintro (hp | rfl)
      · exact hp
      · -- a set block can only be handed out again after it was freed, so it was private
        rw [h.private_eq _ hset]
        by_contra hnot
        have := h.settled _ hset (by simpa using hnot)
        rw [htook.clear] at this
        cases this
    · exact .inl
  · intro x
    rw [← h.times x, deferredTimes, htook.deferred, deferredTimes]
  · have hcard : (clearBlocks (setRange v.bitmap start 1 true) v.total).card + 1 = (clearBlocks v.bitmap v.total).card := by
      refine clearBlocks_set (r := ⟨start, 1⟩) htook.inside fun b hb => ?_
      rw [contains_iff] at hb
      exact hclear.2 b hb.1 hb.2
    have hroom := h.room
    rw [htook.context.total_eq, htook.bitmap, List.length_cons]
    omega

theorem Progress.free {v' : Volume Block} (hzero : b ≠ 0)
    (hlive : live b = true) (hgone : b ∉ gone) (hset : v₀.bitmap b = true) (hfreed : FreedOnce v v' b) :
    Progress retained live v₀ v' (b :: gone) mine := by
  have hmine : b ∉ mine.map Prod.fst := fun hmem => hgone (h.fresh b hmem hlive)
  have hprivate (x : Nat) : txBlockPrivate v' x = txBlockPrivate v x := hfreed.private_eq x
  have hone (x : Nat) : b ≤ x ∧ x < b + 1 ↔ x = b := by omega
  have haccounts := h.accounts.drop b 1 (fun x hlo hhi => by
    obtain rfl := (hone x).mp ⟨hlo, hhi⟩
    exact exchanged_iff.mpr (.inl ⟨hlive, hgone⟩)) hfreed.inTx hfreed.toReleased
  refine ⟨?_, h.context.trans hfreed.context, ?_, ?_, ?_, h.distinct, ?_, h.inside, ?_, ?_, ?_, ?_, ?_⟩
  · exact h.serving.acts hfreed.acts haccounts.toOpenTx (hfreed.granted h.serving.granted) (by rw [hfreed.allocated])
      ((hfreed.bitmap 0).mpr ⟨h.serving.zero, fun hin => hzero (by omega)⟩)
  · refine accounts_congr haccounts fun x => ?_
    rw [Bool.and_eq_true, Bool.not_eq_true', ← Bool.not_eq_true, exchanged_iff, exchanged_iff, contains_iff, Segment.stop, hone,
      List.mem_cons, not_or]
    constructor
    · rintro (⟨hx, hne, hnot⟩ | hx)
      · exact ⟨.inl ⟨hx, hnot⟩, hne⟩
      · exact ⟨.inr hx, fun heq => hmine (heq ▸ hx)⟩
    · rintro ⟨⟨hx, hnot⟩ | hx, hne⟩
      · exact .inl ⟨hx, hne, hnot⟩
      · exact .inr hx
  · intro x hx hnot
    rw [hfreed.disk]
    exact h.disk x hx fun hmem => hnot (List.mem_cons_of_mem _ hmem)
  · intro p hp
    rw [hfreed.disk]
    exact h.stored p hp
  · intro x hx hlive'
    exact List.mem_cons_of_mem _ (h.fresh x hx hlive')
  · intro x hx
    rw [hprivate]
    exact h.own x hx
  · intro x hx hnot
    refine (hfreed.bitmap x).mpr ⟨h.settled x hx hnot, fun hin => ?_⟩
    rw [h.private_eq x hx, hnot] at hin
    cases hin.2.2
  · intro x hx
    rw [hprivate, h.private_eq x hx]
  · intro x
    rw [hfreed.times, h.times, h.private_eq b hset, Nat.add_assoc]
    congr 1
    by_cases hx : x = b
    · subst hx
      simp [hgone]
    · simp [hx]
  · have hsub : clearBlocks v.bitmap v.total ⊆ clearBlocks v'.bitmap v'.total := by
      intro x hx
      rw [mem_clearBlocks] at hx ⊢
      rw [hfreed.context.total_eq, ← Bool.not_eq_true, hfreed.bitmap, hx.2]
      exact ⟨hx.1, fun hnot => Bool.false_ne_true hnot.1⟩
    exact h.room.trans (Nat.add_le_add_right (Finset.card_le_card hsub) _)

end Progress

end InfiltratorFS.Paged
