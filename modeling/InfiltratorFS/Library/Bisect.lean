import InfiltratorFS.Library.Prog
import InfiltratorFS.Library.Tiling

namespace Bisect

variable {ε α β : Type}

/-- What a probe says of the place that is searched for. -/
inductive Probe (α : Type)
  | before
  | after
  | found (a : α)

/-- The loop `while (lo < hi)` that halves the range until a probe finds the
place. -/
def bisect (probe : Nat → Except ε (Probe α)) : Nat → Nat → Nat → Except ε (Option α)
  | 0, _, _ => .ok none
  | fuel + 1, lo, hi =>
    if lo < hi then do
      match ← probe (lo + (hi - lo) / 2) with
      | .before => bisect probe fuel lo (lo + (hi - lo) / 2)
      | .after => bisect probe fuel (lo + (hi - lo) / 2 + 1) hi
      | .found a => .ok (some a)
    else .ok none

/-- The places that the loop looks at on its way to a gap: it turns up at those
before the gap and down at the others. -/
def probes (gap : Nat) : Nat → Nat → Nat → List Nat
  | 0, _, _ => []
  | fuel + 1, lo, hi =>
    if lo < hi then (lo + (hi - lo) / 2) ::
      if lo + (hi - lo) / 2 < gap then probes gap fuel (lo + (hi - lo) / 2 + 1) hi else probes gap fuel lo (lo + (hi - lo) / 2)
    else []

variable {probe : Nat → Except ε (Probe α)} {fuel lo hi : Nat}

theorem probes_lt {gap i : Nat} (h : i ∈ probes gap fuel lo hi) : i < hi := by
  induction fuel generalizing lo hi with
  | zero => cases h
  | succ fuel ih =>
    rw [probes] at h
    split at h
    · rcases List.mem_cons.mp h with rfl | h
      · omega
      · split at h
        · exact ih h
        · exact (ih h).trans (by omega)
    · cases h

/-- Nothing is assumed of the order here: what is found was found by a probe. -/
theorem bisect_sound {a : α} (h : bisect probe fuel lo hi = .ok (some a)) :
    ∃ i, lo ≤ i ∧ i < hi ∧ probe i = .ok (.found a) := by
  induction fuel generalizing lo hi with
  | zero => cases h
  | succ fuel ih =>
    rw [bisect] at h
    split at h
    · obtain ⟨side, hprobe, hrest⟩ := Prog.except_bind_eq_ok.mp h
      cases side with
      | before =>
        obtain ⟨i, hlo, hhi, hi⟩ := ih hrest
        exact ⟨i, hlo, by omega, hi⟩
      | after =>
        obtain ⟨i, hlo, hhi, hi⟩ := ih hrest
        exact ⟨i, by omega, hhi, hi⟩
      | found b =>
        cases hrest
        exact ⟨_, by omega, by omega, hprobe⟩
    · cases h

/-- The search ends without a place exactly if its probes lead to a gap. -/
theorem bisect_eq_none_iff (hle : lo ≤ hi) : bisect probe fuel lo hi = .ok none ↔
    ∃ gap, lo ≤ gap ∧ gap ≤ hi ∧ ∀ i ∈ probes gap fuel lo hi, probe i = .ok (if i < gap then .after else .before) := by
  induction fuel generalizing lo hi with
  | zero => exact iff_of_true rfl ⟨lo, le_rfl, hle, fun i hi => nomatch hi⟩
  | succ fuel ih =>
    by_cases hlt : lo < hi
    · have hmid : lo + (hi - lo) / 2 < hi := by omega
      simp only [bisect, probes, if_pos hlt, List.forall_mem_cons]
      generalize hm : lo + (hi - lo) / 2 = mid at hmid
      cases hprobe : probe mid with
      | error e => exact iff_of_false (fun h => nomatch h) fun ⟨gap, _, _, h, _⟩ => nomatch h
      | ok side =>
        cases side with
        | before =>
          refine (ih (by omega)).trans ⟨fun ⟨gap, hlo, hhi, h⟩ => ⟨gap, hlo, by omega, ?_⟩, fun ⟨gap, hlo, hhi, hhead, h⟩ => ?_⟩
          · rw [if_neg (by omega), if_neg (by omega)]
            exact ⟨rfl, h⟩
          · split_ifs at hhead h with hside
            · cases hhead
            · exact ⟨gap, hlo, by omega, h⟩
        | after =>
          refine (ih (by omega)).trans ⟨fun ⟨gap, hlo, hhi, h⟩ => ⟨gap, by omega, hhi, ?_⟩, fun ⟨gap, hlo, hhi, hhead, h⟩ => ?_⟩
          · rw [if_pos (by omega), if_pos (by omega)]
            exact ⟨rfl, h⟩
          · split_ifs at hhead h with hside
            · exact ⟨gap, by omega, hhi, h⟩
            · cases hhead
        | found b =>
          refine iff_of_false (fun h => nomatch h) fun ⟨gap, _, _, h, _⟩ => ?_
          split_ifs at h <;> cases h
    · simp only [bisect, probes, if_neg hlt, true_iff]
      exact ⟨lo, le_rfl, hle, fun i hi => nomatch hi⟩

theorem bisect_none (h : ∀ i < hi, probe i = .ok .before ∨ probe i = .ok .after) :
    bisect probe fuel lo hi = .ok none := by
  induction fuel generalizing lo hi with
  | zero => rfl
  | succ fuel ih =>
    rw [bisect]
    split
    · rcases h _ (by omega : lo + (hi - lo) / 2 < hi) with hmid | hmid
      · rw [hmid]
        exact ih fun i hi => h i (by omega)
      · rw [hmid]
        exact ih h
    · rfl

theorem bisect_at {k : Nat} {r : Except ε α} (hfuel : hi ≤ lo + fuel) (hlo : lo ≤ k) (hhi : k < hi)
    (hk : probe k = Probe.found <$> r) (hafter : ∀ i < k, probe i = .ok .after)
    (hbefore : ∀ i, k < i → i < hi → probe i = .ok .before) : bisect probe fuel lo hi = some <$> r := by
  induction fuel generalizing lo hi with
  | zero => omega
  | succ fuel ih =>
    rw [bisect, if_pos (by omega)]
    rcases Nat.lt_trichotomy (lo + (hi - lo) / 2) k with hmid | hmid | hmid
    · rw [hafter _ hmid]
      exact ih (by omega) (by omega) hhi hbefore
    · rw [hmid, hk]
      cases r <;> rfl
    · rw [hbefore _ hmid (by omega)]
      exact ih (by omega) hlo hmid fun i hki hi => hbefore i hki (by omega)

/-- Over segments that tile a range, the search for a place in it ends at the
segment that holds the place, and one for a place outside finds nothing. -/
theorem bisect_tiles {seg : β → Segment} {xs : List β} {first last place : Nat} (h : Tiles seg first last xs)
    {r : β → Except ε α} (hprobe : ∀ i x, xs[i]? = some x → probe i =
      if place < (seg x).start then .ok .before else if (seg x).stop ≤ place then .ok .after else Probe.found <$> r x) :
    if first ≤ place ∧ place < last then
      ∃ x ∈ xs, (seg x).start ≤ place ∧ place < (seg x).stop ∧ bisect probe xs.length 0 xs.length = some <$> r x
    else bisect probe xs.length 0 xs.length = .ok none := by
  have hbefore {i : Nat} {x : β} (hi : xs[i]? = some x) (hx : place < (seg x).start) : probe i = .ok .before := by
    rw [hprobe i x hi, if_pos hx]
  have hafter {i : Nat} {x : β} (hi : xs[i]? = some x) (hx : (seg x).stop ≤ place) : probe i = .ok .after := by
    have hle : (seg x).start ≤ (seg x).stop := Nat.le_add_right _ _
    rw [hprobe i x hi, if_neg (by omega), if_pos hx]
  split
  · rename_i hplace
    obtain ⟨x, hx, hstart, hstop⟩ := h.exists_mem hplace.1 hplace.2
    obtain ⟨k, hk⟩ := List.mem_iff_getElem?.mp hx
    have hlt : k < xs.length := (List.getElem?_eq_some_iff.mp hk).1
    have hfound : probe k = Probe.found <$> r x := by rw [hprobe k x hk, if_neg (by omega), if_neg (by omega)]
    refine ⟨x, hx, hstart, hstop, bisect_at (by omega) (Nat.zero_le k) hlt hfound ?_ ?_⟩
    · intro i hi
      have hget := List.getElem?_eq_getElem (hi.trans hlt)
      exact hafter hget ((h.stop_le_start hget hk hi).trans hstart)
    · intro i hki hi
      have hget := List.getElem?_eq_getElem hi
      exact hbefore hget (hstop.trans_le (h.stop_le_start hk hget hki))
  · rename_i hplace
    refine bisect_none fun i hi => ?_
    have hget := List.getElem?_eq_getElem hi
    obtain ⟨hlo, -, hhi⟩ := h.mem_bounds (List.mem_of_getElem? hget)
    by_cases hbelow : place < first
    · exact .inl (hbefore hget (hbelow.trans_le hlo))
    · exact .inr (hafter hget (hhi.trans (by omega)))

end Bisect
