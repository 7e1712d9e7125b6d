import InfiltratorFS.Library.Segment
import Mathlib.Data.List.Basic

/-- The segments of the elements follow each other without a gap from lo to
hi, and none of them is empty. -/
def Tiles {α : Type} (seg : α → Segment) : Nat → Nat → List α → Prop
  | lo, hi, [] => lo = hi
  | lo, hi, x :: xs => (seg x).start = lo ∧ 0 < (seg x).count ∧ Tiles seg (seg x).stop hi xs

namespace Tiles

variable {α : Type} {seg : α → Segment} {lo hi : Nat} {xs ys : List α} {x y : α}

theorem nil_iff : Tiles seg lo hi [] ↔ lo = hi := Iff.rfl

theorem cons_iff :
    Tiles seg lo hi (x :: xs) ↔ (seg x).start = lo ∧ 0 < (seg x).count ∧ Tiles seg (seg x).stop hi xs := Iff.rfl

theorem append_iff : Tiles seg lo hi (xs ++ ys) ↔ ∃ mid, Tiles seg lo mid xs ∧ Tiles seg mid hi ys := by
  induction xs generalizing lo with
  | nil =>
    constructor
    · intro h
      exact ⟨lo, rfl, h⟩
    · rintro ⟨mid, rfl, h⟩
      exact h
  | cons x xs ih =>
    rw [List.cons_append, cons_iff, ih]
    constructor
    · rintro ⟨hstart, hpos, mid, hxs, hys⟩
      exact ⟨mid, ⟨hstart, hpos, hxs⟩, hys⟩
    · rintro ⟨mid, ⟨hstart, hpos, hxs⟩, hys⟩
      exact ⟨hstart, hpos, mid, hxs, hys⟩

theorem concat_iff :
    Tiles seg lo hi (xs ++ [x]) ↔ Tiles seg lo (seg x).start xs ∧ 0 < (seg x).count ∧ (seg x).stop = hi := by
  rw [append_iff]
  constructor
  · rintro ⟨mid, hxs, rfl, hpos, hstop⟩
    exact ⟨hxs, hpos, hstop⟩
  · rintro ⟨hxs, hpos, hstop⟩
    exact ⟨_, hxs, rfl, hpos, hstop⟩

variable (h : Tiles seg lo hi xs)

include h

theorem le : lo ≤ hi := by
  induction xs generalizing lo with
  | nil => exact Nat.le_of_eq h
  | cons x xs ih =>
    obtain ⟨hstart, _, hxs⟩ := h
    have hstop : (seg x).stop = (seg x).start + (seg x).count := rfl
    have := ih hxs
    omega

theorem mem_bounds (hx : x ∈ xs) :
    lo ≤ (seg x).start ∧ 0 < (seg x).count ∧ (seg x).stop ≤ hi := by
  obtain ⟨before, after, rfl⟩ := List.append_of_mem hx
  obtain ⟨mid, hbefore, hstart, hpos, hafter⟩ := append_iff.mp h
  exact ⟨hstart ▸ hbefore.le, hpos, hafter.le⟩

theorem exists_mem {b : Nat} (hlo : lo ≤ b) (hhi : b < hi) : ∃ x ∈ xs, (seg x).start ≤ b ∧ b < (seg x).stop := by
  induction xs generalizing lo with
  | nil =>
    obtain rfl : lo = hi := h
    omega
  | cons x xs ih =>
    obtain ⟨hstart, _, hxs⟩ := h
    by_cases hb : b < (seg x).stop
    · exact ⟨x, List.mem_cons_self, by omega, hb⟩
    · obtain ⟨y, hy, hbounds⟩ := ih hxs (by omega)
      exact ⟨y, List.mem_cons_of_mem x hy, hbounds⟩

theorem length_le : xs.length ≤ hi - lo := by
  induction xs generalizing lo with
  | nil => exact Nat.zero_le _
  | cons x xs ih =>
    obtain ⟨hstart, hpos, hxs⟩ := h
    have hstop : (seg x).stop = (seg x).start + (seg x).count := rfl
    have hle := hxs.le
    have hrest := ih hxs
    rw [List.length_cons]
    omega

theorem eq_of_overlap (hx : x ∈ xs) (hy : y ∈ xs)
    (hxy : (seg x).start < (seg y).stop) (hyx : (seg y).start < (seg x).stop) : x = y := by
  induction xs generalizing lo with
  | nil => cases hx
  | cons z zs ih =>
    obtain ⟨_, _, hzs⟩ := h
    rcases List.mem_cons.mp hx with rfl | hx'
    · rcases List.mem_cons.mp hy with rfl | hy'
      · rfl
      · have := (hzs.mem_bounds hy').1
        omega
    · rcases List.mem_cons.mp hy with rfl | hy'
      · have := (hzs.mem_bounds hx').1
        omega
      · exact ih hzs hx' hy'

theorem stop_le_start {i j : Nat} (hi : xs[i]? = some x) (hj : xs[j]? = some y)
    (hij : i < j) : (seg x).stop ≤ (seg y).start := by
  induction xs generalizing lo i j with
  | nil => cases hi
  | cons z zs ih =>
    obtain ⟨_, _, hzs⟩ := h
    obtain ⟨k, rfl⟩ : ∃ k, j = k + 1 := ⟨j - 1, by omega⟩
    rw [List.getElem?_cons_succ] at hj
    cases i with
    | zero =>
      obtain rfl : z = x := by simpa using hi
      exact (hzs.mem_bounds (List.mem_of_getElem? hj)).1
    | succ i =>
      rw [List.getElem?_cons_succ] at hi
      exact ih hzs hi hj (by omega)

end Tiles
