import Mathlib.Data.List.Pairwise
import Mathlib.Order.Nat

structure Segment where
  start : Nat
  count : Nat
  deriving DecidableEq, Repr, Inhabited

namespace Segment

variable (r : Segment)

def stop : Nat := r.start + r.count

def contains (b : Nat) : Bool := r.start ≤ b && b - r.start < r.count

theorem contains_iff (b : Nat) : r.contains b = true ↔ r.start ≤ b ∧ b < r.stop := by
  simp only [contains, Bool.and_eq_true, decide_eq_true_eq, stop]
  omega

def covers (rs : List Segment) (b : Nat) : Bool := rs.any (·.contains b)

@[simp] theorem covers_nil (b : Nat) : covers [] b = false := rfl

@[simp] theorem covers_cons (rs : List Segment) (b : Nat) :
    covers (r :: rs) b = (r.contains b || covers rs b) := rfl

@[simp] theorem covers_append (xs ys : List Segment) (b : Nat) :
    covers (xs ++ ys) b = (covers xs b || covers ys b) := by
  simp [covers]

theorem covers_iff (rs : List Segment) (b : Nat) :
    covers rs b = true ↔ ∃ r ∈ rs, r.start ≤ b ∧ b < r.stop := by
  simp only [covers, List.any_eq_true, contains_iff]

/-- Nonempty intervals in ascending order with a gap between neighbours, so
that each is a maximal run of the set they cover. -/
structure Separated (rs : List Segment) : Prop where
  gaps : rs.Pairwise (fun a b => a.stop < b.start)
  positive : ∀ r ∈ rs, 0 < r.count

theorem separated_nil : Separated [] := ⟨List.Pairwise.nil, by simp⟩

theorem separated_cons (rs : List Segment) :
    Separated (r :: rs) ↔ 0 < r.count ∧ Separated rs ∧ ∀ b, covers rs b = true → r.stop < b := by
  constructor
  · rintro ⟨hgaps, hpos⟩
    rw [List.pairwise_cons] at hgaps
    refine ⟨hpos r (by simp), ⟨hgaps.2, fun x hx => hpos x (by simp [hx])⟩, fun b hb => ?_⟩
    obtain ⟨x, hx, hstart, -⟩ := (covers_iff rs b).mp hb
    exact (hgaps.1 x hx).trans_le hstart
  · rintro ⟨hr, ⟨hgaps, hpos⟩, hbelow⟩
    refine ⟨List.pairwise_cons.mpr ⟨fun x hx => ?_, hgaps⟩, ?_⟩
    · apply hbelow
      rw [covers_iff]
      exact ⟨x, hx, le_rfl, by have := hpos x hx; simp only [stop]; omega⟩
    · intro x hx
      rcases List.mem_cons.mp hx with rfl | hx
      · exact hr
      · exact hpos x hx

theorem Separated.stop_lt {r : Segment} {rs : List Segment} (h : Separated (r :: rs)) {x : Segment}
    (hx : x ∈ rs) : r.stop < x.start :=
  (List.pairwise_cons.mp h.gaps).1 x hx

theorem separated_singleton {r : Segment} (h : 0 < r.count) : Separated [r] :=
  (separated_cons r []).mpr ⟨h, separated_nil, by simp⟩

theorem separated_append {xs ys : List Segment} (hx : Separated xs) (hy : Separated ys)
    (hgap : ∀ a b, covers xs a = true → covers ys b = true → a + 1 < b) : Separated (xs ++ ys) := by
  induction xs with
  | nil => exact hy
  | cons x xs ih =>
    obtain ⟨hpos, htail, hbelow⟩ := (separated_cons x xs).mp hx
    have hlast : covers (x :: xs) (x.stop - 1) = true := by
      rw [covers_cons, (contains_iff x _).mpr ⟨by simp only [stop]; omega, by simp only [stop]; omega⟩, Bool.true_or]
    refine (separated_cons x (xs ++ ys)).mpr ⟨hpos, ih htail (fun a b ha hb => ?_), fun b hb => ?_⟩
    · exact hgap a b (by rw [covers_cons, ha, Bool.or_true]) hb
    · rw [covers_append, Bool.or_eq_true] at hb
      rcases hb with hb | hb
      · exact hbelow b hb
      · have := hgap _ b hlast hb
        simp only [stop] at this ⊢
        omega

end Segment
