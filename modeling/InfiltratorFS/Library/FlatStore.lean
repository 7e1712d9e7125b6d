import Mathlib.Data.List.GetD
import Mathlib.Data.List.TakeDrop

/-! A flat store of items at consecutive positions, and what a read of a range
sees after a write of another. -/

namespace FlatStore

variable {α : Type} {m m' : Nat → α} {offset size start count p : Nat} {data : List α}

def slice (m : Nat → α) (offset size : Nat) : List α := (List.range size).map fun k => m (offset + k)

def overlay (m : Nat → α) (offset : Nat) (data : List α) : Nat → α :=
  fun p => if p < offset then m p else data.getD (p - offset) (m p)

def Overlap (offset size start count : Nat) : Prop := ∃ p, offset ≤ p ∧ p < offset + size ∧ start ≤ p ∧ p < start + count

section Slice

@[simp] theorem length_slice (m : Nat → α) (offset size : Nat) : (slice m offset size).length = size := by
  rw [slice, List.length_map, List.length_range]

theorem getElem?_slice {k : Nat} (hk : k < size) : (slice m offset size)[k]? = some (m (offset + k)) := by
  rw [slice, List.getElem?_map, List.getElem?_range hk, Option.map_some]

theorem slice_eq_iff : slice m offset size = data ↔ data.length = size ∧ ∀ k < size, data[k]? = some (m (offset + k)) := by
  constructor
  · rintro rfl
    exact ⟨length_slice .., fun k hk => getElem?_slice hk⟩
  · rintro ⟨hlength, hitems⟩
    apply List.ext_getElem?
    intro k
    by_cases hk : k < size
    · rw [getElem?_slice hk, hitems k hk]
    · rw [List.getElem?_eq_none (by rw [length_slice]; omega), List.getElem?_eq_none (by omega)]

theorem slice_congr (h : ∀ p, offset ≤ p → p < offset + size → m p = m' p) : slice m offset size = slice m' offset size := by
  apply List.map_congr_left
  intro k hk
  rw [List.mem_range] at hk
  exact h _ (by omega) (by omega)

theorem slice_add (m : Nat → α) (offset size more : Nat) :
    slice m offset (size + more) = slice m offset size ++ slice m (offset + size) more := by
  rw [slice, List.range_add, List.map_append, List.map_map]
  congr 1
  apply List.map_congr_left
  intro k _
  rw [Function.comp_apply, Nat.add_assoc]

theorem drop_take_slice {skip : Nat} (h : skip + count ≤ size) :
    ((slice m offset size).drop skip).take count = slice m (offset + skip) count := by
  obtain ⟨rest, rfl⟩ := Nat.exists_eq_add_of_le h
  rw [Nat.add_assoc, slice_add, slice_add, List.drop_left' (length_slice ..), List.take_left' (length_slice ..)]

end Slice

section Overlay

theorem overlay_outside (h : p < offset ∨ offset + data.length ≤ p) : overlay m offset data p = m p := by
  unfold overlay
  split
  · rfl
  · rw [List.getD_eq_default]
    omega

theorem overlay_inside (hlo : offset ≤ p) (hhi : p < offset + data.length) :
    data[p - offset]? = some (overlay m offset data p) := by
  have hlt : p - offset < data.length := by omega
  rw [overlay, if_neg (Nat.not_lt.mpr hlo), List.getD_eq_getElem _ _ hlt, List.getElem?_eq_getElem hlt]

theorem slice_overlay_within (hlo : offset ≤ start) (hhi : start + count ≤ offset + data.length) :
    slice (overlay m offset data) start count = (data.drop (start - offset)).take count := by
  rw [slice_eq_iff]
  refine ⟨by rw [List.length_take, List.length_drop]; omega, fun k hk => ?_⟩
  rw [List.getElem?_take_of_lt hk, List.getElem?_drop, show start - offset + k = start + k - offset by omega]
  exact overlay_inside (by omega) (by omega)

theorem slice_overlay_self (m : Nat → α) (offset : Nat) (data : List α) :
    slice (overlay m offset data) offset data.length = data := by
  rw [slice_overlay_within (Nat.le_refl _) (Nat.le_refl _), Nat.sub_self, List.drop_zero, List.take_length]

theorem slice_overlay_apart (h : ¬Overlap offset data.length start count) :
    slice (overlay m offset data) start count = slice m start count := by
  apply slice_congr
  intro p hlo hhi
  apply overlay_outside
  by_contra hin
  exact h ⟨p, by omega, by omega, hlo, hhi⟩

theorem slice_overlay_splice {skip : Nat} (h : skip + data.length ≤ size) :
    slice (overlay m (offset + skip) data) offset size =
      (slice m offset size).take skip ++ data ++ (slice m offset size).drop (skip + data.length) := by
  obtain ⟨rest, rfl⟩ := Nat.exists_eq_add_of_le h
  have hfront : slice (overlay m (offset + skip) data) offset skip = slice m offset skip := by
    apply slice_overlay_apart
    rintro ⟨p, hp⟩
    omega
  have hback : slice (overlay m (offset + skip) data) (offset + (skip + data.length)) rest =
      slice m (offset + (skip + data.length)) rest := by
    apply slice_overlay_apart
    rintro ⟨p, hp⟩
    omega
  have htake : (slice m offset (skip + data.length + rest)).take skip = slice m offset skip := by
    rw [Nat.add_assoc, slice_add, List.take_left' (length_slice ..)]
  have hdrop : (slice m offset (skip + data.length + rest)).drop (skip + data.length) =
      slice m (offset + (skip + data.length)) rest := by
    rw [slice_add, List.drop_left' (length_slice ..)]
  rw [htake, hdrop, slice_add, slice_add, hfront, hback, slice_overlay_self]

theorem overlay_append (m : Nat → α) (offset : Nat) (front back : List α) :
    overlay m offset (front ++ back) = overlay (overlay m offset front) (offset + front.length) back := by
  funext p
  by_cases hfront : p < offset + front.length
  · rw [overlay_outside (m := overlay m offset front) (.inl hfront)]
    unfold overlay
    split
    · rfl
    · rw [List.getD_append _ _ _ _ (by omega)]
  · have hp : ¬p < offset := by omega
    rw [overlay, if_neg hp, overlay, if_neg hfront, List.getD_append_right _ _ _ _ (by omega),
      overlay_outside (.inr (by omega)), Nat.sub_sub]

end Overlay

end FlatStore
