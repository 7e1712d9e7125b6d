import InfiltratorFS.File.Calm

namespace InfiltratorFS.File

open Prog

section Freed

def Freed (s₀ : FileState) (B : Nat → Prop) (s : FileState) : Prop :=
  ∃ freed, Steady { s₀ with freed := freed } s ∧ ∀ b, Segment.covers freed b = true ↔ B b

variable {α β : Type} {s₀ s₁ : FileState} {B B' : Nat → Prop} {f : FileState → FileM β}

theorem Freed.congr {s : FileState} (h : Freed s₀ B s) (hB : ∀ b, B b ↔ B' b) : Freed s₀ B' s := by
  obtain ⟨freed, hs, hfreed⟩ := h
  exact ⟨freed, hs, fun b => (hfreed b).trans (hB b)⟩

theorem freed_start {s : FileState} (hcalm : ∀ t, (s.env t).status = .ok) (hfreed : s.freed = []) :
    Freed s (fun _ => False) s := by
  refine ⟨s.freed, ⟨hcalm, rfl⟩, fun b => ?_⟩
  rw [hfreed]
  simp

theorem freed_lift {x : FileM α} {Φ : α → Prop}
    (h : ∀ freed, Total (Steady { s₀ with freed := freed }) x fun a s => Φ a ∧ Steady { s₁ with freed := freed } s) :
    Total (Freed s₀ B) x fun a s => Φ a ∧ Freed s₁ B s := by
  rintro s ⟨freed, hs, hfreed⟩
  obtain ⟨a, t, hrun, ha, ht⟩ := h freed s hs
  exact ⟨a, t, hrun, ha, freed, ht, hfreed⟩

theorem freed_keep {x : FileM Unit}
    (h : ∀ freed, Total (Steady { s₀ with freed := freed }) x fun _ => Steady { s₁ with freed := freed }) :
    Total (Freed s₀ B) x fun _ => Freed s₁ B := by
  rintro s ⟨freed, hs, hfreed⟩
  obtain ⟨a, t, hrun, ht⟩ := h freed s hs
  exact ⟨a, t, hrun, freed, ht, hfreed⟩

theorem freed_call : Total (Freed s₀ B) call fun _ => Freed s₀ B := freed_keep fun _ => total_call

theorem freed_get {Q : β → FileState → Prop}
    (h : ∀ freed tick, Total (Freed s₀ B) (f { s₀ with freed := freed, tick := tick }) Q) :
    Total (Freed s₀ B) (get >>= f) Q := by
  rintro s ⟨freed, hs, hfreed⟩
  rw [bind_of_ok (get_apply s)]
  have := h freed s.tick s ⟨freed, hs, hfreed⟩
  rwa [← hs.eq] at this

theorem freed_ends_get {R : Except Status β × FileState → Prop}
    (h : ∀ freed tick, Ends (Freed s₀ B) (f { s₀ with freed := freed, tick := tick }) R) :
    Ends (Freed s₀ B) (get >>= f) R := by
  rintro s ⟨freed, hs, hfreed⟩
  rw [bind_of_ok (get_apply s)]
  have := h freed s.tick s ⟨freed, hs, hfreed⟩
  rwa [← hs.eq] at this

theorem total_freeRun (run : Segment) :
    Total (Freed s₀ B) (freeRun run) fun _ => Freed s₀ fun b => B b ∨ run.contains b = true := by
  have hrecord : Total (Freed s₀ B) (modify fun s => { s with freed := s.freed ++ [run] } : FileM Unit)
      fun _ => Freed s₀ fun b => B b ∨ run.contains b = true := by
    rintro s ⟨freed, hs, hfreed⟩
    refine ⟨(), _, rfl, freed ++ [run], ⟨hs.calm, ?_⟩, fun b => ?_⟩
    · rw [hs.eq]
    · rw [Segment.covers_append, Bool.or_eq_true, hfreed, Segment.covers_cons, Segment.covers_nil, Bool.or_false]
  exact .bind hrecord fun _ => freed_call

end Freed

section Unshared

def Referenced (others : List Extent) (b : Nat) : Prop :=
  ∃ e ∈ others, extentKind e.flags = extentNormal ∧ e.physical.contains b = true

theorem referenced_cons {e : Extent} {es : List Extent} {b : Nat} :
    Referenced (e :: es) b ↔ (extentKind e.flags = extentNormal ∧ e.physical.contains b = true) ∨ Referenced es b := by
  simp only [Referenced, List.mem_cons, exists_eq_or_imp]

/-- What the scan over the other files finds: up to where the blocks from the
cursor on are referenced, or up to where none of them is. -/
structure Scanned (cursor stop : Nat) (es : List Extent) (found result : Nat × Nat) : Prop where
  grows : found.1 ≤ result.1
  within : result.1 ≤ max found.1 stop
  next_gt : cursor < result.2
  next_le : result.2 ≤ found.2
  covered : ∀ b, cursor ≤ b → b < result.1 → b < found.1 ∨ Referenced es b
  clear : result.1 = cursor → ∀ b, cursor ≤ b → b < result.2 → b < stop → ¬Referenced es b

theorem otherReferenceCover_spec {cursor stop : Nat} (es : List Extent) (found : Nat × Nat) (hfound : cursor ≤ found.1)
    (hnext : cursor < found.2) (hlt : cursor < stop) :
    Scanned cursor stop es found (otherReferenceCover cursor stop es found) := by
  induction es generalizing found with
  | nil =>
    refine ⟨le_rfl, le_max_left _ _, hnext, le_rfl, fun b _ hb => .inl hb, fun _ b _ _ _ h => ?_⟩
    obtain ⟨e, he, _⟩ := h
    cases he
  | cons e es ih =>
    obtain ⟨coverEnd, nextStart⟩ := found
    simp only at hfound hnext
    rw [otherReferenceCover]
    by_cases hskip : extentKind e.flags ≠ extentNormal ∨ e.physical.stop ≤ cursor ∨ stop ≤ e.physical.start
    · rw [if_pos hskip]
      have h := ih (coverEnd, nextStart) hfound hnext
      refine ⟨h.grows, h.within, h.next_gt, h.next_le, fun b hb hlt => ?_, fun heq b hb hb' hstop hr => ?_⟩
      · exact (h.covered b hb hlt).imp_right fun hr => referenced_cons.mpr (.inr hr)
      · rcases referenced_cons.mp hr with ⟨hkind, hcontains⟩ | hr
        · obtain ⟨hstart, hend⟩ := (Segment.contains_iff _ _).mp hcontains
          rcases hskip with hne | hbefore | hafter
          · exact hne hkind
          · omega
          · omega
        · exact h.clear heq b hb hb' hstop hr
    · rw [if_neg hskip]
      push Not at hskip
      obtain ⟨hkind, hstop, hstart⟩ := hskip
      by_cases hcovers : e.physical.start ≤ cursor
      · rw [if_pos hcovers]
        have h := ih (max coverEnd (min e.physical.stop stop), nextStart) (by simp only; omega) hnext
        have hgrows := h.grows
        have hwithin := h.within
        simp only at hgrows hwithin
        refine ⟨by simp only; omega, by simp only; omega, h.next_gt, h.next_le, fun b hb hlt => ?_,
          fun heq b hb hb' _ => absurd heq (by omega)⟩
        rcases h.covered b hb hlt with hb' | hr
        · simp only at hb' ⊢
          by_cases hin : b < coverEnd
          · exact .inl hin
          · refine .inr (referenced_cons.mpr (.inl ⟨hkind, (Segment.contains_iff _ _).mpr ⟨by omega, by omega⟩⟩))
        · exact .inr (referenced_cons.mpr (.inr hr))
      · rw [if_neg hcovers]
        have h := ih (coverEnd, min nextStart e.physical.start) hfound (by simp only; omega)
        have hnextLe := h.next_le
        simp only at hnextLe
        refine ⟨h.grows, h.within, h.next_gt, by simp only; omega, fun b hb hlt => ?_, fun heq b hb hb' hstop hr => ?_⟩
        · exact (h.covered b hb hlt).imp_right fun hr => referenced_cons.mpr (.inr hr)
        · rcases referenced_cons.mp hr with ⟨_, hcontains⟩ | hr
          · have := ((Segment.contains_iff _ _).mp hcontains).1
            omega
          · exact h.clear heq b hb hb' hstop hr

variable {s₀ : FileState} {B : Nat → Prop}

theorem total_freeUnsharedLoop (cursor stop : Nat) :
    Total (Freed s₀ B) (freeUnsharedLoop fileOtherReferenceCover freeRun cursor stop)
      fun _ => Freed s₀ fun b => B b ∨ (cursor ≤ b ∧ b < stop ∧ ¬Referenced s₀.others b) := by
  fun_induction freeUnsharedLoop fileOtherReferenceCover freeRun cursor stop generalizing B with
  | case1 cursor hlt ihCover ihNext =>
    have hcover : Total (Freed s₀ B) (fileOtherReferenceCover cursor stop)
        fun found s => Scanned cursor stop s₀.others (cursor, stop) found ∧ Freed s₀ B s :=
      .bind freed_call fun _ => freed_get fun _ _ => .pure fun _ hs => ⟨otherReferenceCover_spec _ _ le_rfl hlt hlt, hs⟩
    refine hcover.bind_and fun found hscan => ?_
    obtain ⟨hgrows, hwithin, hgt, hle, hcovered, hclear⟩ := hscan
    dsimp only at hgrows hwithin hgt hle hcovered hclear
    by_cases hcover : cursor < found.1
    · -- the blocks up to the cover end belong to others as well
      rw [if_pos hcover]
      refine (ihCover found hcover).post fun _ s hs => hs.congr fun b => or_congr_right ?_
      constructor
      · rintro ⟨hb, hb', hr⟩
        exact ⟨by omega, hb', hr⟩
      · rintro ⟨hb, hb', hr⟩
        exact ⟨not_lt.mp fun hnot => hr ((hcovered b hb hnot).resolve_left (by omega)), hb', hr⟩
    · rw [if_neg hcover, if_neg (by omega)]
      have hclear := hclear (by omega)
      refine .bind (total_freeRun _) fun _ => (ihNext found (by omega)).post fun _ s hs => hs.congr fun b => ?_
      rw [Segment.contains_iff, Segment.stop, or_assoc]
      refine or_congr_right ⟨?_, ?_⟩
      · rintro (⟨hb, hb'⟩ | ⟨hb, hb', hr⟩)
        · simp only at hb hb'
          exact ⟨hb, by omega, hclear b hb (by omega) (by omega)⟩
        · exact ⟨by omega, hb', hr⟩
      · rintro ⟨hb, hb', hr⟩
        by_cases hnext : b < found.2
        · exact .inl ⟨hb, by simp only; omega⟩
        · exact .inr ⟨by omega, hb', hr⟩
  | case2 =>
    refine .pure fun s hs => hs.congr fun b => ⟨Or.inl, fun h => h.resolve_right ?_⟩
    omega

/-- The blocks of a run that are freed with it: all, or where extents can be
shared, those that no other file has. -/
def Exclusive (s : FileState) (run : Segment) (b : Nat) : Prop :=
  run.contains b = true ∧ (s.enabled incompatSharedExtents = true → ¬Referenced s.others b)

theorem total_freeUnsharedRun {run : Segment} (hstop : run.stop < 2 ^ 64) :
    Total (Freed s₀ B) (fileFreeUnsharedRun run) fun _ => Freed s₀ fun b => B b ∨ Exclusive s₀ run b := by
  refine freed_get fun freed tick => ?_
  rw [freeUnshared]
  by_cases hempty : run.count = 0
  · rw [if_pos hempty]
    refine .pure fun s hs => hs.congr fun b => ⟨Or.inl, fun h => h.resolve_right ?_⟩
    rintro ⟨hcontains, _⟩
    have := (Segment.contains_iff _ _).mp hcontains
    rw [Segment.stop] at this
    omega
  · rw [if_neg hempty]
    by_cases hshared : s₀.enabled incompatSharedExtents = false
    · rw [if_pos (by exact hshared)]
      refine (total_freeRun run).post fun _ s hs => hs.congr fun b => or_congr_right ?_
      rw [Exclusive, hshared]
      simp
    · rw [if_neg (by exact hshared), addChecked, if_pos (by exact hstop)]
      refine (total_freeUnsharedLoop _ _).post fun _ s hs => hs.congr fun b => or_congr_right ?_
      rw [Exclusive, Segment.contains_iff, ← and_assoc, Bool.not_eq_false] at *
      rw [hshared]
      simp [Segment.stop]

theorem total_freeRuns {runs : List Segment} (hstop : ∀ run ∈ runs, run.stop < 2 ^ 64) :
    Total (Freed s₀ B) (freeRuns runs) fun _ => Freed s₀ fun b => B b ∨ ∃ run ∈ runs, Exclusive s₀ run b := by
  induction runs generalizing B with
  | nil => exact .pure fun s hs => hs.congr fun b => by simp
  | cons run runs ih =>
    refine .bind (total_freeUnsharedRun (hstop run List.mem_cons_self)) fun _ => ?_
    refine (ih fun r hr => hstop r (List.mem_cons_of_mem _ hr)).post fun _ s hs => hs.congr fun b => ?_
    simp only [List.mem_cons, exists_eq_or_imp, or_assoc]

end Unshared

section Metadata

variable {s₀ : FileState} {B : Nat → Prop}

theorem contains_block {block b : Nat} : Segment.contains ⟨block, 1⟩ b = true ↔ b = block := by
  rw [Segment.contains_iff, Segment.stop]
  simp only
  omega

theorem total_destroyLoop {guard : Nat} {chain : List ChecksumObject} (hlength : chain.length ≤ guard) :
    Total (Freed s₀ B) (checksumDestroyLoop guard chain) fun _ => Freed s₀ fun b => B b ∨ ∃ c ∈ chain, b = c.block := by
  induction chain generalizing guard B with
  | nil =>
    rw [checksumDestroyLoop]
    exact .pure fun s hs => hs.congr fun b => by simp
  | cons c chain ih =>
    obtain ⟨guard, rfl⟩ : ∃ k, guard = k + 1 := ⟨guard - 1, by rw [List.length_cons] at hlength; omega⟩
    rw [checksumDestroyLoop]
    refine .bind freed_call fun _ => .bind (total_freeRun _) fun _ => ?_
    refine (ih (by rw [List.length_cons] at hlength; omega)).post fun _ s hs => hs.congr fun b => ?_
    simp only [contains_block, List.mem_cons, exists_eq_or_imp, or_assoc]

theorem total_freeEach {before : FileM Unit} (h : ∀ B, Total (Freed s₀ B) before fun _ => Freed s₀ B) (blocks : List Nat) :
    Total (Freed s₀ B) (freeEach before blocks) fun _ => Freed s₀ fun b => B b ∨ b ∈ blocks := by
  induction blocks generalizing B with
  | nil => exact .pure fun s hs => hs.congr fun b => by simp
  | cons block blocks ih =>
    refine .bind (h B) fun _ => .bind (total_freeRun _) fun _ => ih.post fun _ s hs => hs.congr fun b => ?_
    simp only [contains_block, List.mem_cons, or_assoc]

end Metadata

end InfiltratorFS.File
