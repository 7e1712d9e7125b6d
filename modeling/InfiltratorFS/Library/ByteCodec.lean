import InfiltratorFS.Library.Scan
import Mathlib.Data.List.GetD
import Mathlib.Data.List.TakeDrop

namespace ByteCodec

variable {α : Type}

section CopyBack

/-- Append length items, each taken distance places back in the list as it
grows, so that a copy may read items it has just produced. -/
def copyBack (fallback : α) (distance : Nat) : Nat → List α → List α
  | 0, out => out
  | n + 1, out => copyBack fallback distance n (out ++ [out.getD (out.length - distance) fallback])

variable (fallback : α)

theorem take_succ_getD (xs : List α) (i : Nat) (hi : i < xs.length) :
    xs.take (i + 1) = xs.take i ++ [xs.getD i fallback] := by
  rw [List.take_add_one, List.getElem?_eq_getElem hi, List.getD_eq_getElem _ _ hi, Option.toList_some]

theorem getD_take (xs : List α) (n i : Nat) (hi : i < n) :
    (xs.take n).getD i fallback = xs.getD i fallback := by
  simp only [List.getD_eq_getElem?_getD, List.getElem?_take_of_lt hi]

/-- A back-reference whose items have been compared turns a prefix into a
longer prefix of the same list, overlapping copies included. -/
theorem copyBack_take (xs : List α) (distance n pos : Nat) (hd : 0 < distance)
    (hpos : distance ≤ pos) (hlen : pos + n ≤ xs.length)
    (hmatch : ∀ k, k < n → xs.getD (pos + k) fallback = xs.getD (pos - distance + k) fallback) :
    copyBack fallback distance n (xs.take pos) = xs.take (pos + n) := by
  induction n generalizing pos with
  | zero => rfl
  | succ n ih =>
    have hl : (xs.take pos).length = pos := by rw [List.length_take]; omega
    have hitem : (xs.take pos).getD (pos - distance) fallback = xs.getD pos fallback := by
      rw [getD_take fallback xs pos _ (by omega)]
      exact (hmatch 0 (by omega)).symm
    rw [copyBack, hl, hitem, ← take_succ_getD fallback xs pos (by omega),
      ih (pos + 1) (by omega) (by omega), Nat.add_right_comm, Nat.add_assoc]
    intro k hk
    have := hmatch (k + 1) (by omega)
    rwa [show pos + (k + 1) = pos + 1 + k by omega,
      show pos - distance + (k + 1) = pos + 1 - distance + k by omega] at this

theorem take_append_replicate (fallback v : α) (xs : List α) (pos n : Nat)
    (hlen : pos + n ≤ xs.length) (hv : ∀ k, k < n → xs.getD (pos + k) fallback = v) :
    xs.take pos ++ List.replicate n v = xs.take (pos + n) := by
  induction n generalizing pos with
  | zero => simp
  | succ n ih =>
    have h0 : xs.getD pos fallback = v := hv 0 (by omega)
    rw [List.replicate_succ, ← List.singleton_append, ← List.append_assoc,
      show xs.take pos ++ [v] = xs.take (pos + 1) by rw [take_succ_getD fallback xs pos (by omega), h0],
      ih (pos + 1) (by omega), Nat.add_right_comm, Nat.add_assoc]
    intro k hk
    have := hv (k + 1) (by omega)
    rwa [show pos + (k + 1) = pos + 1 + k by omega] at this

end CopyBack

section Lag

variable (diff : α → α → α)

/-- Each item from index lag on is replaced by its difference from the item
lag places before it. -/
def lagDiff (fallback : α) (lag : Nat) (xs : List α) (i : Nat) : α :=
  if lag ≤ i then diff (xs.getD i fallback) (xs.getD (i - lag) fallback) else xs.getD i fallback

def lagDiffs (fallback : α) (lag : Nat) (xs : List α) : List α :=
  (List.range xs.length).map (lagDiff diff fallback lag xs)

/-- The loop `for (i = lag; i < n; ++i) xs[i] = combine(xs[i], xs[i - lag])`,
run in place for n more indices. -/
def lagSum (combine : α → α → α) (fallback : α) (lag : Nat) : Nat → Nat → List α → List α
  | 0, _, xs => xs
  | n + 1, i, xs =>
    lagSum combine fallback lag n (i + 1)
      (xs.set i (combine (xs.getD i fallback) (xs.getD (i - lag) fallback)))

@[simp] theorem length_lagDiffs (fallback : α) (lag : Nat) (xs : List α) :
    (lagDiffs diff fallback lag xs).length = xs.length := by
  simp [lagDiffs]

theorem getD_lagDiffs (fallback : α) (lag : Nat) (xs : List α) (i : Nat)
    (hi : i < xs.length) : (lagDiffs diff fallback lag xs).getD i fallback = lagDiff diff fallback lag xs i := by
  rw [List.getD_eq_getElem _ _ (by simpa using hi)]
  simp [lagDiffs]

variable (diff combine : α → α → α)

/-- The loop invariant: indices below i are already restored, the others
still hold differences. -/
theorem lagSum_restores (hcombine : ∀ a b, combine (diff a b) b = a)
    (fallback : α) (lag : Nat) (hlag : 0 < lag) (xs : List α) (n i : Nat) (hi : lag ≤ i)
    (hn : i + n = xs.length) :
    lagSum combine fallback lag n i (xs.take i ++ (lagDiffs diff fallback lag xs).drop i) = xs := by
  induction n generalizing i with
  | zero =>
    have : xs.length ≤ i := by omega
    simp [lagSum, List.take_of_length_le this, List.drop_eq_nil_of_le, this]
  | succ n ih =>
    have hlt : i < xs.length := by omega
    have hd : i < (lagDiffs diff fallback lag xs).length := by simpa using hlt
    have hl : (xs.take i).length = i := by rw [List.length_take]; omega
    have hdrop : (lagDiffs diff fallback lag xs).drop i =
        lagDiff diff fallback lag xs i :: (lagDiffs diff fallback lag xs).drop (i + 1) := by
      rw [List.drop_eq_getElem_cons hd, ← List.getD_eq_getElem _ fallback hd, getD_lagDiffs _ _ _ _ _ hlt]
    have hcur : (xs.take i ++ (lagDiffs diff fallback lag xs).drop i).getD i fallback =
        lagDiff diff fallback lag xs i := by
      rw [hdrop, List.getD_append_right _ _ _ _ (by omega), hl, Nat.sub_self, List.getD_cons_zero]
    have hprev : (xs.take i ++ (lagDiffs diff fallback lag xs).drop i).getD (i - lag) fallback =
        xs.getD (i - lag) fallback := by
      rw [List.getD_append _ _ _ _ (by omega), getD_take fallback xs i _ (by omega)]
    have hset : (xs.take i ++ (lagDiffs diff fallback lag xs).drop i).set i (xs.getD i fallback) =
        xs.take (i + 1) ++ (lagDiffs diff fallback lag xs).drop (i + 1) := by
      rw [hdrop, List.set_append_right _ _ (by omega), hl, Nat.sub_self, List.set_cons_zero,
        take_succ_getD fallback xs i hlt, List.append_assoc, List.singleton_append]
    rw [lagSum, hcur, hprev, lagDiff, if_pos hi, hcombine, hset]
    exact ih (i + 1) (by omega) (by omega)

theorem lagSum_lagDiffs (hcombine : ∀ a b, combine (diff a b) b = a)
    (fallback : α) (lag : Nat) (hlag : 0 < lag) (xs : List α) :
    lagSum combine fallback lag (xs.length - lag) lag (lagDiffs diff fallback lag xs) = xs := by
  have hhead (i : Nat) (hi : i < lag) (hx : i < xs.length) :
      (lagDiffs diff fallback lag xs).getD i fallback = xs.getD i fallback := by
    rw [getD_lagDiffs _ _ _ _ _ hx, lagDiff, if_neg (by omega)]
  have htake : (lagDiffs diff fallback lag xs).take lag = xs.take lag := by
    apply List.ext_getElem (by simp)
    intro i h₁ h₂
    rw [List.length_take] at h₁ h₂
    have := hhead i (by omega) (by omega)
    rw [List.getD_eq_getElem _ _ (by simp; omega), List.getD_eq_getElem _ _ (by omega)] at this
    simpa using this
  rcases Nat.lt_or_ge xs.length lag with hshort | hlong
  · have hall := htake
    rw [List.take_of_length_le (by simp; omega), List.take_of_length_le (by omega)] at hall
    rw [show xs.length - lag = 0 by omega, lagSum, hall]
  · have h := lagSum_restores diff combine hcombine fallback lag hlag xs (xs.length - lag) lag le_rfl (by omega)
    rwa [← htake, List.take_append_drop] at h

end Lag

end ByteCodec
