import InfiltratorFS.Volume.State
import InfiltratorFS.Library.Scan

namespace InfiltratorFS

open Segment Scan

section Definitions

/-- The second loop of `free_extent_index_rebuild`: the maximal clear runs
from block b on. -/
def freeRunsFrom (bitmap : Nat → Bool) (total : Nat) : Nat → Nat → List Range
  | 0, _ => []
  | fuel + 1, b =>
    let start := countWhile bitmap (total - b) b
    if total ≤ start then []
    else
      let stop := countWhile (fun x => !bitmap x) (total - start) start
      ⟨start, stop - start⟩ :: freeRunsFrom bitmap total fuel stop

/-- Each pass consumes at least one block, so total passes are enough. -/
def freeRuns (bitmap : Nat → Bool) (total : Nat) : List Range := freeRunsFrom bitmap total (total + 1) 0

/-- The loop of `free_extent_index_remove`. `reserve` is the answer to the
memory request of the branch that splits an extent in two. -/
def removeLoop (reserve : Bool) (start stop : Nat) : List Range → Option (List Range)
  | [] => none
  | e :: es =>
    match addChecked e.start e.count with
    | none => none
    | some eEnd =>
      if start < e.start ∨ eEnd < stop then (removeLoop reserve start stop es).map (e :: ·)
      else if start = e.start ∧ stop = eEnd then some es
      else if start = e.start then some (⟨stop, eEnd - stop⟩ :: es)
      else if stop = eEnd then some (⟨e.start, start - e.start⟩ :: es)
      else if reserve then some (⟨e.start, start - e.start⟩ :: ⟨stop, eEnd - stop⟩ :: es)
      else none

variable (extents : List Range) (wanted cursor : Nat)

def freeExtentIndexRemove (reserve : Bool) (start count : Nat) : Option (List Range) :=
  if count = 0 then none
  else match addChecked start count with
    | none => none
    | some stop => removeLoop reserve start stop extents

/-- The merging loop of `free_extent_index_add`: the extents that touch the
growing range are absorbed into it. -/
def absorbLoop : Nat → Nat → List Range → Option (Nat × Nat × List Range)
  | start, stop, [] => some (start, stop, [])
  | start, stop, e :: es =>
    if e.start ≤ stop then
      match addChecked e.start e.count with
      | none => none
      | some eEnd => absorbLoop (min start e.start) (max stop eEnd) es
    else some (start, stop, e :: es)

/-- The search loop of `free_extent_index_add` followed by the merge or the
insertion at the place found. The branch of the source that looks back at the
previous extent is never taken, because the search has just passed it. -/
def addLoop (reserve : Bool) (start stop : Nat) : List Range → Option (List Range)
  | [] => if reserve then some [⟨start, stop - start⟩] else none
  | e :: es =>
    match addChecked e.start e.count with
    | none => none
    | some eEnd =>
      if eEnd < start then (addLoop reserve start stop es).map (e :: ·)
      else if e.start ≤ stop then
        (absorbLoop start stop (e :: es)).map (fun m => ⟨m.1, m.2.1 - m.1⟩ :: m.2.2)
      else if reserve then some (⟨start, stop - start⟩ :: e :: es)
      else none

def freeExtentIndexAdd (reserve : Bool) (start count : Nat) : Option (List Range) :=
  if count = 0 then none
  else match addChecked start count with
    | none => none
    | some stop => addLoop reserve start stop extents

/-- One pass of a chooser over the extents. A candidate of the wanted length
ends the search; otherwise the longest one so far is kept. -/
def choosePass (candidate : Range → Option (Nat × Nat)) (wanted : Nat) :
    List Range → Nat × Nat → Bool × (Nat × Nat)
  | [], best => (false, best)
  | e :: es, best =>
    match candidate e with
    | none => choosePass candidate wanted es best
    | some (start, take) =>
      if take = wanted then (true, (start, wanted))
      else choosePass candidate wanted es (if best.2 < take then (start, take) else best)

/-- The candidate of an extent at or after the cursor (`pass == 0`). -/
def forwardAfter (e : Range) : Option (Nat × Nat) :=
  if e.stop ≤ cursor then none
  else
    let candidate := if e.start < cursor then cursor else e.start
    if e.stop ≤ candidate then none else some (candidate, min (e.stop - candidate) wanted)

/-- The candidate of an extent that ends at or before the cursor (`pass == 1`). -/
def forwardBefore (e : Range) : Option (Nat × Nat) :=
  if cursor < e.stop then none
  else if e.stop ≤ e.start then none
  else some (e.start, min (e.stop - e.start) wanted)

def forwardWhole (wanted : Nat) (e : Range) : Option (Nat × Nat) := some (e.start, min e.count wanted)

def reverseBefore (e : Range) : Option (Nat × Nat) :=
  if cursor ≤ e.start then none
  else
    let candidateEnd := if cursor < e.stop then cursor else e.stop
    if candidateEnd ≤ e.start then none
    else
      let take := min (candidateEnd - e.start) wanted
      some (candidateEnd - take, take)

def reverseAfter (e : Range) : Option (Nat × Nat) :=
  if e.start < cursor then none
  else if e.stop ≤ e.start then none
  else
    let take := min (e.stop - e.start) wanted
    some (e.stop - take, take)

def reverseWhole (wanted : Nat) (e : Range) : Option (Nat × Nat) :=
  let take := min e.count wanted
  some (e.start + e.count - take, take)

/-- The passes one after the other, the best candidate carried along. The
flag says that a run of the wanted length was found. -/
def choosePasses (wanted : Nat) (extents : List Range) :
    List (Range → Option (Nat × Nat)) → Nat × Nat → Bool × (Nat × Nat)
  | [], best => (false, best)
  | candidate :: candidates, best =>
    match choosePass candidate wanted extents best with
    | (true, found) => (true, found)
    | (false, best) => choosePasses wanted extents candidates best

def freeExtentIndexChooseForward : Option (Nat × Nat) :=
  if wanted = 0 ∨ extents = [] then none
  else
    let result := choosePasses wanted extents
      [forwardAfter wanted cursor, forwardBefore wanted cursor, forwardWhole wanted] (0, 0)
    if result.1 then some result.2 else if result.2.2 = 0 then none else some result.2

def freeExtentIndexChooseReverse (exact : Bool) :
    Option (Nat × Nat) :=
  if wanted = 0 ∨ extents = [] then none
  else
    let result := choosePasses wanted extents.reverse
      [reverseBefore wanted cursor, reverseAfter wanted cursor, reverseWhole wanted] (0, 0)
    if result.1 then some result.2 else if exact ∨ result.2.2 = 0 then none else some result.2

end Definitions

section Remove

variable {start stop : Nat}

theorem replace_spec {e : Range} {es : List Range} (rest : List Range) (hes : Separated (e :: es))
    (hin : e.start ≤ start ∧ stop ≤ e.stop) (hrest : Separated rest)
    (hcov : ∀ b, covers rest b = true ↔ (e.start ≤ b ∧ b < e.stop) ∧ ¬(start ≤ b ∧ b < stop)) :
    Separated (rest ++ es) ∧
      ∀ b, covers (rest ++ es) b = true ↔ covers (e :: es) b = true ∧ ¬(start ≤ b ∧ b < stop) := by
  obtain ⟨-, htail, hbelow⟩ := (separated_cons e es).mp hes
  constructor
  · refine separated_append hrest htail (fun a b ha hb => ?_)
    have := hbelow b hb
    have := ((hcov a).mp ha).1
    omega
  · intro b
    have := hbelow b
    rw [covers_append, covers_cons, Bool.or_eq_true, Bool.or_eq_true, hcov b, contains_iff]
    constructor
    · rintro (hb | hb)
      · exact ⟨Or.inl hb.1, hb.2⟩
      · exact ⟨Or.inr hb, by have := hbelow b hb; omega⟩
    · rintro ⟨hb | hb, hout⟩
      · exact .inl ⟨hb, hout⟩
      · exact .inr hb

theorem removeLoop_spec (reserve : Bool) (hlt : start < stop) {es es' : List Range}
    (h : removeLoop reserve start stop es = some es') (hes : Separated es) :
    (∃ x ∈ es, x.start ≤ start ∧ stop ≤ x.stop) ∧ Separated es' ∧
      ∀ b, covers es' b = true ↔ covers es b = true ∧ ¬(start ≤ b ∧ b < stop) := by
  induction es generalizing es' with
  | nil => cases h
  | cons e es ih =>
    rw [removeLoop] at h
    obtain ⟨hcount, htail, hbelow⟩ := (separated_cons e es).mp hes
    split at h
    · cases h
    · rename_i eEnd hsum
      have hend : e.stop = eEnd := addChecked_eq_some hsum
      split at h
      · obtain ⟨rest, hrest, rfl⟩ := Option.map_eq_some_iff.mp h
        obtain ⟨⟨x, hx, hin⟩, hsep, hcov⟩ := ih hrest htail
        refine ⟨⟨x, List.mem_cons_of_mem e hx, hin⟩, (separated_cons e rest).mpr
          ⟨hcount, hsep, fun b hb => hbelow b ((hcov b).mp hb).1⟩, fun b => ?_⟩
        -- The range lies inside a later extent, so it cannot touch this one.
        have hgap := hes.stop_lt hx
        simp only [covers_cons, Bool.or_eq_true, contains_iff, hcov b]
        constructor
        · rintro (hb | hb)
          · exact ⟨Or.inl hb, by omega⟩
          · exact ⟨Or.inr hb.1, hb.2⟩
        · rintro ⟨hb | hb, hout⟩
          · exact .inl hb
          · exact .inr ⟨hb, hout⟩
      · rename_i hin
        have hin' : e.start ≤ start ∧ stop ≤ e.stop := by omega
        refine ⟨⟨e, List.mem_cons_self, hin'⟩, ?_⟩
        split_ifs at h with hall hhead hlast hreserve <;> obtain rfl := Option.some.inj h
        · exact replace_spec [] hes hin' separated_nil (by simp; omega)
        · refine replace_spec [_] hes hin' (separated_singleton (by simp only; omega)) (fun b => ?_)
          simp only [covers_cons, covers_nil, Bool.or_false, contains_iff, Segment.stop] at hin' hend ⊢
          omega
        · refine replace_spec [_] hes hin' (separated_singleton (by simp only; omega)) (fun b => ?_)
          simp only [covers_cons, covers_nil, Bool.or_false, contains_iff, Segment.stop] at hin' hend ⊢
          omega
        · refine replace_spec [_, _] hes hin' ((separated_cons _ _).mpr
            ⟨by simp only; omega, separated_singleton (by simp only; omega), fun b => ?_⟩) (fun b => ?_) <;>
          simp only [covers_cons, covers_nil, Bool.or_false, Bool.or_eq_true, contains_iff, Segment.stop] at hin' hend ⊢ <;>
          omega

end Remove

section Add

theorem absorbLoop_spec {start stop : Nat} (hlt : start < stop) {es : List Range} {merged : Nat × Nat × List Range}
    (h : absorbLoop start stop es = some merged) (hes : Separated es) (htouch : ∀ e ∈ es, start ≤ e.stop) :
    merged.1 < merged.2.1 ∧ Separated merged.2.2 ∧ (∀ b, covers merged.2.2 b = true → merged.2.1 < b) ∧
      ∀ b, ((merged.1 ≤ b ∧ b < merged.2.1) ∨ covers merged.2.2 b = true) ↔
        ((start ≤ b ∧ b < stop) ∨ covers es b = true) := by
  fun_induction absorbLoop start stop es with
  | case1 =>
    obtain rfl := Option.some.inj h
    exact ⟨hlt, hes, by simp, by simp⟩
  | case2 => cases h
  | case3 start stop e es hstart eEnd hsum ih =>
    have hend : e.stop = eEnd := addChecked_eq_some hsum
    have htouch' : start ≤ e.stop := htouch e (by simp)
    obtain ⟨hcount, htail, -⟩ := (separated_cons e es).mp hes
    obtain ⟨h₁, h₂, h₃, h₄⟩ := ih (by omega) h htail
      (fun x hx => (Nat.min_le_left start e.start).trans (htouch x (List.mem_cons_of_mem e hx)))
    refine ⟨h₁, h₂, h₃, fun b => (h₄ b).trans ?_⟩
    rw [covers_cons, Bool.or_eq_true, contains_iff, ← or_assoc]
    apply or_congr_left
    omega
  | case4 start stop e es hstart =>
    obtain rfl := Option.some.inj h
    refine ⟨hlt, hes, fun b hb => ?_, fun b => Iff.rfl⟩
    rw [covers_cons, Bool.or_eq_true, contains_iff] at hb
    rcases hb with hb | hb
    · simp only; omega
    · have := ((separated_cons e es).mp hes).2.2 b hb
      simp only [Segment.stop] at this ⊢
      omega

theorem addLoop_spec (reserve : Bool) {start stop : Nat} (hlt : start < stop) {es es' : List Range}
    (h : addLoop reserve start stop es = some es') (hes : Separated es) :
    Separated es' ∧ ∀ b, covers es' b = true ↔ (start ≤ b ∧ b < stop) ∨ covers es b = true := by
  fun_induction addLoop reserve start stop es generalizing es' with
  | case1 =>
    obtain rfl := Option.some.inj h
    refine ⟨separated_singleton (by simp only; omega), fun b => ?_⟩
    simp only [covers_cons, covers_nil, Bool.or_false, contains_iff, Segment.stop, Bool.false_eq_true, or_false]
    omega
  | case4 e es eEnd hsum hpast ih =>
    have hend : e.stop = eEnd := addChecked_eq_some hsum
    obtain ⟨hcount, htail, hbelow⟩ := (separated_cons e es).mp hes
    obtain ⟨rest, hrest, rfl⟩ := Option.map_eq_some_iff.mp h
    obtain ⟨hsep, hcov⟩ := ih hrest htail
    constructor
    · refine (separated_cons e rest).mpr ⟨hcount, hsep, fun b hb => ?_⟩
      rcases (hcov b).mp hb with hb | hb
      · omega
      · exact hbelow b hb
    · intro b
      rw [covers_cons, covers_cons, Bool.or_eq_true, Bool.or_eq_true, hcov b]
      tauto
  | case5 e es eEnd hsum hpast htouch =>
    have hend : e.stop = eEnd := addChecked_eq_some hsum
    obtain ⟨merged, hmerged, rfl⟩ := Option.map_eq_some_iff.mp h
    have hall : ∀ x ∈ e :: es, start ≤ x.stop := by
      intro x hx
      rcases List.mem_cons.mp hx with rfl | hx
      · omega
      · have := hes.stop_lt hx
        simp only [Segment.stop] at this ⊢ hend
        omega
    obtain ⟨h₁, h₂, h₃, h₄⟩ := absorbLoop_spec hlt hmerged hes hall
    constructor
    · refine (separated_cons _ _).mpr ⟨by simp only; omega, h₂, fun b hb => ?_⟩
      have := h₃ b hb
      simp only [Segment.stop]
      omega
    · intro b
      rw [← h₄ b, covers_cons, Bool.or_eq_true, contains_iff]
      apply or_congr_left
      simp only [Segment.stop]
      omega
  | case6 e es eEnd hsum hpast htouch =>
    obtain rfl := Option.some.inj h
    constructor
    · refine (separated_cons _ _).mpr ⟨by simp only; omega, hes, fun b hb => ?_⟩
      rw [covers_cons, Bool.or_eq_true, contains_iff] at hb
      simp only [Segment.stop] at hb ⊢
      rcases hb with hb | hb
      · omega
      · have := ((separated_cons e es).mp hes).2.2 b hb
        simp only [Segment.stop] at this
        omega
    · intro b
      rw [covers_cons, Bool.or_eq_true, contains_iff]
      apply or_congr_left
      simp only [Segment.stop]
      omega
  | _ => cases h

end Add

section Choose

/-- A candidate names blocks of its extent and no more than wanted. -/
def CandidateOk (wanted : Nat) (candidate : Range → Option (Nat × Nat)) : Prop :=
  ∀ e start take, candidate e = some (start, take) → e.start ≤ start ∧ start + take ≤ e.stop ∧ take ≤ wanted

variable (wanted cursor : Nat)

theorem forwardAfter_ok : CandidateOk wanted (forwardAfter wanted cursor) := by
  intro e start take h
  simp only [forwardAfter] at h
  split_ifs at h <;> obtain ⟨rfl, rfl⟩ := Prod.mk.inj (Option.some.inj h) <;> omega

theorem forwardBefore_ok : CandidateOk wanted (forwardBefore wanted cursor) := by
  intro e start take h
  simp only [forwardBefore] at h
  split_ifs at h
  obtain ⟨rfl, rfl⟩ := Prod.mk.inj (Option.some.inj h)
  omega

theorem forwardWhole_ok (wanted : Nat) : CandidateOk wanted (forwardWhole wanted) := by
  intro e start take h
  obtain ⟨rfl, rfl⟩ := Prod.mk.inj (Option.some.inj h)
  simp only [Segment.stop]
  omega

theorem reverseBefore_ok : CandidateOk wanted (reverseBefore wanted cursor) := by
  intro e start take h
  simp only [reverseBefore] at h
  split_ifs at h <;> obtain ⟨rfl, rfl⟩ := Prod.mk.inj (Option.some.inj h) <;> omega

theorem reverseAfter_ok : CandidateOk wanted (reverseAfter wanted cursor) := by
  intro e start take h
  simp only [reverseAfter] at h
  split_ifs at h
  obtain ⟨rfl, rfl⟩ := Prod.mk.inj (Option.some.inj h)
  omega

theorem reverseWhole_ok (wanted : Nat) : CandidateOk wanted (reverseWhole wanted) := by
  intro e start take h
  obtain ⟨rfl, rfl⟩ := Prod.mk.inj (Option.some.inj h)
  simp only [Segment.stop]
  omega

def Listed (es : List Range) (wanted : Nat) (run : Nat × Nat) : Prop :=
  run.2 ≤ wanted ∧ ∀ b, run.1 ≤ b → b < run.1 + run.2 → covers es b = true

variable {es : List Range} {run : Nat × Nat} {wanted cursor : Nat}

theorem listed_part {e : Range} {start take : Nat} (he : e ∈ es) (hlow : e.start ≤ start) (hhigh : start + take ≤ e.stop)
    (hle : take ≤ wanted) : Listed es wanted (start, take) :=
  ⟨hle, fun b h₁ h₂ => (covers_iff es b).mpr ⟨e, he, hlow.trans h₁, h₂.trans_le hhigh⟩⟩

theorem choosePass_listed {all : List Range} {candidate : Range → Option (Nat × Nat)}
    (hok : CandidateOk wanted candidate) (es : List Range) (hsub : ∀ e ∈ es, e ∈ all) (best : Nat × Nat)
    (hbest : Listed all wanted best) : Listed all wanted (choosePass candidate wanted es best).2 := by
  fun_induction choosePass candidate wanted es best with
  | case1 => exact hbest
  | case2 e es best _ ih => exact ih (fun x hx => hsub x (List.mem_cons_of_mem e hx)) hbest
  | case3 e es best start hcand =>
    obtain ⟨hlow, hhigh, hle⟩ := hok e start wanted hcand
    exact listed_part (hsub e List.mem_cons_self) hlow hhigh hle
  | case4 e es best start take hcand _ ih =>
    obtain ⟨hlow, hhigh, hle⟩ := hok e start take hcand
    refine ih (fun x hx => hsub x (List.mem_cons_of_mem e hx)) ?_
    split
    · exact listed_part (hsub e List.mem_cons_self) hlow hhigh hle
    · exact hbest

theorem choosePasses_listed (all es : List Range) (wanted : Nat) (hsub : ∀ e ∈ es, e ∈ all)
    (candidates : List (Range → Option (Nat × Nat))) (hok : ∀ c ∈ candidates, CandidateOk wanted c)
    (best : Nat × Nat) (hbest : Listed all wanted best) :
    Listed all wanted (choosePasses wanted es candidates best).2 := by
  fun_induction choosePasses wanted es candidates best with
  | case1 => exact hbest
  | case2 candidate candidates best found heq =>
    have hpass := choosePass_listed (hok candidate (by simp)) es hsub best hbest
    rwa [heq] at hpass
  | case3 candidate candidates best best' heq ih =>
    have hpass := choosePass_listed (hok candidate (by simp)) es hsub best hbest
    rw [heq] at hpass
    exact ih (fun c hc => hok c (List.mem_cons_of_mem _ hc)) hpass

theorem choosePass_found (candidate : Range → Option (Nat × Nat)) (wanted : Nat) (es : List Range) (best : Nat × Nat)
    (h : (choosePass candidate wanted es best).1 = true) : (choosePass candidate wanted es best).2.2 = wanted := by
  fun_induction choosePass candidate wanted es best with
  | case1 => cases h
  | case2 _ _ _ _ ih => exact ih h
  | case3 => rfl
  | case4 _ _ _ _ _ _ _ ih => exact ih h

theorem choosePasses_found (wanted : Nat) (es : List Range) (candidates : List (Range → Option (Nat × Nat)))
    (best : Nat × Nat) (h : (choosePasses wanted es candidates best).1 = true) :
    (choosePasses wanted es candidates best).2.2 = wanted := by
  fun_induction choosePasses wanted es candidates best with
  | case1 => cases h
  | case2 candidate _ best found heq =>
    have hpass := choosePass_found candidate wanted es best
    rw [heq] at hpass
    exact hpass rfl
  | case3 _ _ _ _ _ ih => exact ih h

theorem chooseForward_listed (h : freeExtentIndexChooseForward es wanted cursor = some run) : Listed es wanted run := by
  have hpass := choosePasses_listed es es wanted (fun e he => he)
    [forwardAfter wanted cursor, forwardBefore wanted cursor, forwardWhole wanted]
    (by simp [forwardAfter_ok, forwardBefore_ok, forwardWhole_ok]) (0, 0) ⟨Nat.zero_le _, by simp⟩
  simp only [freeExtentIndexChooseForward] at h
  split_ifs at h <;> exact Option.some.inj h ▸ hpass

theorem chooseReverse_listed {exact : Bool}
    (h : freeExtentIndexChooseReverse es wanted cursor exact = some run) : Listed es wanted run := by
  have hpass := choosePasses_listed es es.reverse wanted (by simp)
    [reverseBefore wanted cursor, reverseAfter wanted cursor, reverseWhole wanted]
    (by simp [reverseBefore_ok, reverseAfter_ok, reverseWhole_ok]) (0, 0) ⟨Nat.zero_le _, by simp⟩
  simp only [freeExtentIndexChooseReverse] at h
  split_ifs at h <;> exact Option.some.inj h ▸ hpass

theorem chooseReverse_exact (h : freeExtentIndexChooseReverse es wanted cursor true = some run) : run.2 = wanted := by
  have hfound := choosePasses_found wanted es.reverse
    [reverseBefore wanted cursor, reverseAfter wanted cursor, reverseWhole wanted] (0, 0)
  simp only [freeExtentIndexChooseReverse, true_or, if_true] at h
  split_ifs at h with h₀ h₁
  exact Option.some.inj h ▸ hfound h₁

end Choose

section Index

/-- The list is the sorted list of the maximal clear runs of the bitmap. -/
structure IsFreeIndex (bitmap : Nat → Bool) (total : Nat) (es : List Range) : Prop where
  separated : Separated es
  exact : ∀ b, covers es b = true ↔ b < total ∧ bitmap b = false

theorem freeRunsFrom_spec (bitmap : Nat → Bool) (total fuel b : Nat) (hfuel : total < b + fuel) :
    Separated (freeRunsFrom bitmap total fuel b) ∧
      ∀ x, covers (freeRunsFrom bitmap total fuel b) x = true ↔ b ≤ x ∧ x < total ∧ bitmap x = false := by
  induction fuel generalizing b with
  | zero => exact ⟨separated_nil, fun x => by simp [freeRunsFrom]; omega⟩
  | succ fuel ih =>
    have hstart := le_countWhile bitmap (total - b) b
    have hset := fun x => countWhile_holds bitmap (total - b) b x
    have hfree := countWhile_stops bitmap (total - b) b
    rw [freeRunsFrom]
    generalize countWhile bitmap (total - b) b = start at hstart hset hfree ⊢
    split
    · rename_i hend
      refine ⟨separated_nil, fun x => ?_⟩
      simp only [covers_nil, Bool.false_eq_true, false_iff]
      rintro ⟨h₁, h₂, h₃⟩
      rw [hset x h₁ (by omega)] at h₃
      cases h₃
    · rename_i hend
      have hstop := le_countWhile (fun x => !bitmap x) (total - start) start
      have hstop' := countWhile_le (fun x => !bitmap x) (total - start) start
      have hclear := fun x => countWhile_holds (fun x => !bitmap x) (total - start) start x
      have hlast := countWhile_stops (fun x => !bitmap x) (total - start) start
      generalize hst : countWhile (fun x => !bitmap x) (total - start) start = stop at *
      have hgrow : start < stop := by
        rcases Nat.eq_or_lt_of_le hstop with heq | hlt
        · have h₁ := hlast (by omega)
          have h₂ := hfree (by omega)
          rw [← heq, h₂] at h₁
          cases h₁
        · exact hlt
      obtain ⟨hsep, hcov⟩ := ih stop (by omega)
      have hgap (x : Nat) (hx : covers (freeRunsFrom bitmap total fuel stop) x = true) : stop < x := by
        obtain ⟨h₁, h₂, h₃⟩ := (hcov x).mp hx
        rcases Nat.eq_or_lt_of_le h₁ with rfl | hlt
        · have h₄ := hlast (by omega)
          rw [h₃] at h₄
          cases h₄
        · exact hlt
      constructor
      · refine (separated_cons _ _).mpr ⟨by simp only; omega, hsep, fun x hx => ?_⟩
        have := hgap x hx
        simp only [Segment.stop]
        omega
      · intro x
        rw [covers_cons, Bool.or_eq_true, contains_iff, hcov x]
        simp only [Segment.stop]
        constructor
        · rintro (h | h)
          · exact ⟨by omega, by omega, by simpa using hclear x h.1 (by omega)⟩
          · exact ⟨by omega, h.2⟩
        · rintro ⟨h₁, h₂, h₃⟩
          rcases Nat.lt_or_ge x start with hlt | hge
          · rw [hset x h₁ hlt] at h₃
            cases h₃
          · rcases Nat.lt_or_ge x stop with hlt | hge'
            · left; omega
            · right; exact ⟨hge', h₂, h₃⟩

theorem freeRuns_isFreeIndex (bitmap : Nat → Bool) (total : Nat) :
    IsFreeIndex bitmap total (freeRuns bitmap total) := by
  obtain ⟨hsep, hcov⟩ := freeRunsFrom_spec bitmap total (total + 1) 0 (by omega)
  exact ⟨hsep, fun b => by rw [freeRuns, hcov b]; simp⟩

variable {total start count : Nat}

theorem IsFreeIndex.remove {bitmap : Nat → Bool} {es es' : List Range} {reserve : Bool}
    (h : IsFreeIndex bitmap total es)
    (hrem : freeExtentIndexRemove es reserve start count = some es') :
    IsFreeIndex (setRange bitmap start count true) total es' := by
  unfold freeExtentIndexRemove at hrem
  obtain ⟨hcount, hrem⟩ := Option.ite_none_left_eq_some.mp hrem
  split at hrem
  · cases hrem
  · rename_i stop hsum
    have hstop := addChecked_eq_some hsum
    obtain ⟨-, hsep, hcov⟩ := removeLoop_spec reserve (by omega) hrem h.separated
    refine ⟨hsep, fun b => ?_⟩
    rw [hcov b, h.exact b, setRange, hstop]
    split <;> simp_all

theorem IsFreeIndex.add {bitmap : Nat → Bool} {es es' : List Range} {reserve : Bool}
    (h : IsFreeIndex bitmap total es) (hin : start + count ≤ total)
    (hadd : freeExtentIndexAdd es reserve start count = some es') :
    IsFreeIndex (setRange bitmap start count false) total es' := by
  unfold freeExtentIndexAdd at hadd
  obtain ⟨hcount, hadd⟩ := Option.ite_none_left_eq_some.mp hadd
  split at hadd
  · cases hadd
  · rename_i stop hsum
    have hstop := addChecked_eq_some hsum
    obtain ⟨hsep, hcov⟩ := addLoop_spec reserve (by omega) hadd h.separated
    refine ⟨hsep, fun b => ?_⟩
    rw [hcov b, h.exact b, setRange, hstop]
    split
    · rename_i hb
      simp only [hb, and_self, true_or, true_iff, and_true]
      omega
    · rename_i hb
      simp only [hb, false_or]

end Index

end InfiltratorFS
