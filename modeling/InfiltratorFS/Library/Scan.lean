import Mathlib.Order.Nat

namespace Scan

variable (p : Nat → Bool)

/-- The loop `while (length < limit && p(length)) ++length`, started at
length. The second argument is the number of iterations still allowed. -/
def countWhile : Nat → Nat → Nat
  | 0, length => length
  | n + 1, length => if p length then countWhile n (length + 1) else length

theorem le_countWhile (n length : Nat) : length ≤ countWhile p n length := by
  induction n generalizing length with
  | zero => exact le_rfl
  | succ n ih =>
    simp only [countWhile]
    split
    · exact (Nat.le_add_right length 1).trans (ih (length + 1))
    · exact le_rfl

theorem countWhile_le (n length : Nat) : countWhile p n length ≤ length + n := by
  induction n generalizing length with
  | zero => exact le_rfl
  | succ n ih =>
    simp only [countWhile]
    split
    · have := ih (length + 1); omega
    · omega

theorem countWhile_holds (n length i : Nat) (hl : length ≤ i)
    (hi : i < countWhile p n length) : p i = true := by
  induction n generalizing length with
  | zero => simp only [countWhile] at hi; omega
  | succ n ih =>
    simp only [countWhile] at hi
    split at hi
    · rename_i hp
      rcases Nat.eq_or_lt_of_le hl with rfl | hl'
      · exact hp
      · exact ih (length + 1) hl' hi
    · omega

theorem countWhile_stops (n start : Nat) (h : countWhile p n start < start + n) :
    p (countWhile p n start) = false := by
  induction n generalizing start with
  | zero => simp only [countWhile] at h; omega
  | succ n ih =>
    rw [countWhile] at h ⊢
    split
    · rename_i hp
      rw [if_pos hp] at h
      exact ih (start + 1) (by omega)
    · rename_i hp
      simpa using hp

def countDownWhile : Nat → Nat → Nat
  | 0, b => b
  | n + 1, b => if p (b - 1) then countDownWhile n (b - 1) else b

theorem countDownWhile_le (n b : Nat) : countDownWhile p n b ≤ b := by
  induction n generalizing b with
  | zero => exact le_rfl
  | succ n ih =>
    rw [countDownWhile]
    split
    · exact (ih (b - 1)).trans (Nat.sub_le b 1)
    · exact le_rfl

theorem le_countDownWhile (n b : Nat) : b - n ≤ countDownWhile p n b := by
  induction n generalizing b with
  | zero => exact le_rfl
  | succ n ih =>
    rw [countDownWhile]
    split
    · have := ih (b - 1); omega
    · omega

theorem countDownWhile_holds (n b i : Nat) (hn : n ≤ b)
    (hlow : countDownWhile p n b ≤ i) (hi : i < b) : p i = true := by
  induction n generalizing b with
  | zero => simp only [countDownWhile] at hlow; omega
  | succ n ih =>
    rw [countDownWhile] at hlow
    split at hlow
    · rename_i hp
      rcases Nat.eq_or_lt_of_le (show i ≤ b - 1 by omega) with rfl | hlt
      · exact hp
      · exact ih (b - 1) (by omega) hlow hlt
    · omega

theorem countDownWhile_stops (n b : Nat) (h : b - n < countDownWhile p n b) :
    p (countDownWhile p n b - 1) = false := by
  induction n generalizing b with
  | zero => simp only [countDownWhile] at h; omega
  | succ n ih =>
    rw [countDownWhile] at h ⊢
    split
    · rename_i hp
      rw [if_pos hp] at h
      exact ih (b - 1) (by omega)
    · rename_i hp
      simpa using hp

end Scan
