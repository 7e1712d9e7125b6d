import Mathlib.Data.Set.Basic
import Mathlib.Order.Disjoint
import Mathlib.Data.Set.Disjoint
import Mathlib.Data.Set.Lattice
import Mathlib.Order.CompletePartialOrder

namespace UndoLog

variable {α : Type} {base current log : Set α}

/-- A log that only records what was added tracks the way from a base set to
the current one: nothing of the base was removed or logged, and everything
new is logged. Entries may stay in the log after their items are gone. -/
structure Tracks (base current log : Set α) : Prop where
  base_subset : base ⊆ current
  subset_log : current ⊆ base ∪ log
  disjoint : Disjoint base log

theorem Tracks.refl (base : Set α) : Tracks base base ∅ :=
  ⟨subset_rfl, by simp, Set.disjoint_empty base⟩

variable (h : Tracks base current log)
include h

/-- Removing everything the log names restores the base. -/
theorem Tracks.undo : current \ log = base := by
  ext x
  constructor
  · rintro ⟨hx, hlog⟩
    exact (h.subset_log hx).resolve_right hlog
  · intro hx
    exact ⟨h.base_subset hx, fun hlog => Set.disjoint_left.mp h.disjoint hx hlog⟩

theorem Tracks.add (fresh : Set α)
    (hfresh : Disjoint current fresh) : Tracks base (current ∪ fresh) (log ∪ fresh) := by
  refine ⟨h.base_subset.trans Set.subset_union_left, ?_, ?_⟩
  · rintro x (hx | hx)
    · rcases h.subset_log hx with hb | hl
      · exact .inl hb
      · exact .inr (.inl hl)
    · exact .inr (.inr hx)
  · rw [Set.disjoint_union_right]
    exact ⟨h.disjoint, hfresh.mono_left h.base_subset⟩

theorem Tracks.remove (x : α) (hx : x ∈ log) :
    Tracks base (current \ {x}) log := by
  refine ⟨fun y hy => ⟨h.base_subset hy, ?_⟩, fun y hy => h.subset_log hy.1, h.disjoint⟩
  rintro rfl
  exact Set.disjoint_left.mp h.disjoint hy hx

end UndoLog
