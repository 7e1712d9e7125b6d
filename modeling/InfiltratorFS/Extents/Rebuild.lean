import InfiltratorFS.Extents.Splice

namespace InfiltratorFS.Paged

open Prog

open File (Extent extentEmitCapacity continues holds releasedBlocks uint32Max extentFlagsValid extentHole extentKind
  extentNormal replaceLoop tiles_cons)

section Pieces

variable {new : Extent} {start stop lo hi : Nat} {es : List Extent} {e p : Extent}

theorem before_part (hcut : e.isCompressed = true → e.stop ≤ start ∨ start ≤ e.logicalBlock) (hp : p ∈ before start e) :
    Part e p ∧ (0 < e.blockCount → 0 < p.blockCount) := by
  rw [before] at hp
  split at hp
  · rename_i hleft
    rw [List.mem_singleton.mp hp]
    refine ⟨⟨rfl, le_rfl, ?_, fun hpacked => ?_, fun _ => .inr rfl, fun _ => by simp⟩, fun hpos => ?_⟩
    · simp only [Extent.stop]
      omega
    · have hwhole : min e.blockCount (start - e.logicalBlock) = e.blockCount := by
        have := hcut hpacked
        rw [Extent.stop] at this
        omega
      rw [hwhole]
    · show 0 < min e.blockCount (start - e.logicalBlock)
      omega
  · cases hp

theorem after_part (hcut : e.isCompressed = true → e.stop ≤ stop ∨ stop ≤ e.logicalBlock) (hp : p ∈ after stop e) :
    Part e p ∧ (0 < e.blockCount → 0 < p.blockCount) := by
  rw [after] at hp
  split at hp
  · rw [List.mem_singleton.mp hp]
    exact ⟨⟨rfl, le_rfl, le_rfl, fun _ => rfl, fun _ => .inr rfl, fun _ => by simp⟩, id⟩
  · rename_i hleft
    split at hp
    · rename_i hright
      rw [List.mem_singleton.mp hp]
      refine ⟨⟨rfl, ?_, ?_, fun hpacked => ?_, fun hkind => .inl (if_pos hkind), fun hkind => if_neg hkind⟩, fun _ => ?_⟩
      · exact Nat.le_of_not_le hleft
      · exact (Nat.add_sub_cancel' hright.le).le
      · have := hcut hpacked
        omega
      · show 0 < e.stop - stop
        omega
    · cases hp

theorem mapping_before (hcut : ∀ e ∈ es, e.isCompressed = true → e.stop ≤ start ∨ start ≤ e.logicalBlock) (b : Nat) :
    mapping (es.flatMap (before start)) b = if b < start then mapping es b else none := by
  refine mapping_flatMap fun e he => ?_
  have hpart (p : Extent) (hp : p ∈ before start e) := (before_part (hcut e he) hp).1
  rw [before] at hpart ⊢
  split
  · rename_i hleft
    rw [if_pos hleft] at hpart
    refine mapping_part (hpart _ List.mem_cons_self) ?_
    simp only [holds_iff, Extent.stop]
    omega
  · rw [if_neg]
    · rfl
    · rw [holds_iff]
      omega

theorem mapping_after (hcut : ∀ e ∈ es, e.isCompressed = true → e.stop ≤ stop ∨ stop ≤ e.logicalBlock) (b : Nat) :
    mapping (es.flatMap (after stop)) b = if stop ≤ b then mapping es b else none := by
  refine mapping_flatMap fun e he => ?_
  have hpart (p : Extent) (hp : p ∈ after stop e) := (after_part (hcut e he) hp).1
  rw [after] at hpart ⊢
  split
  · rename_i hpast
    rw [if_pos hpast] at hpart
    refine mapping_part (hpart _ List.mem_cons_self) ?_
    rw [holds_iff]
    omega
  · rename_i hpast
    rw [if_neg hpast] at hpart
    split
    · rename_i hright
      rw [if_pos hright] at hpart
      refine mapping_part (hpart _ List.mem_cons_self) ?_
      simp only [holds_iff, Extent.stop] at hright ⊢
      omega
    · rw [if_neg]
      · rfl
      · rw [holds_iff]
        omega

theorem CutsNone.sides (h : CutsNone new.segment es) (e : Extent) (he : e ∈ es) (hpacked : e.isCompressed = true) :
    (e.stop ≤ new.logicalBlock ∨ new.logicalBlock ≤ e.logicalBlock) ∧ (e.stop ≤ new.stop ∨ new.stop ≤ e.logicalBlock) := by
  have hstop : new.logicalBlock + new.blockCount = new.stop := rfl
  have hsides := h e he hpacked
  simp only [Apart, Extent.segment_start, Extent.segment_stop] at hsides
  omega

variable (h : Tiles Extent.segment lo hi es) (hpos : 0 < new.blockCount)
include h hpos

theorem length_pieces : (pieces new es).length ≤ es.length + 2 := by
  have hstop : new.logicalBlock + new.blockCount = new.stop := rfl
  suffices hboth : (es.flatMap (before new.logicalBlock)).length + (es.flatMap (after new.stop)).length ≤ es.length + 1 by
    rw [pieces, List.length_append, List.length_cons]
    omega
  induction es generalizing lo with
  | nil => exact Nat.zero_le _
  | cons e es ih =>
    obtain ⟨hstart, hcount, hrest, -⟩ := tiles_cons h
    rw [List.flatMap_cons, List.flatMap_cons, List.length_append, List.length_append, List.length_cons]
    have hbefore : (before new.logicalBlock e).length ≤ 1 := by
      rw [before]
      split <;> simp
    have hafter : (after new.stop e).length ≤ 1 := by
      rw [after]
      split
      · simp
      · split <;> simp
    by_cases hboth : e.logicalBlock < new.logicalBlock ∧ new.stop < e.stop
    · rw [flatMap_before_past hrest (by omega), flatMap_after_past hrest (by omega), List.length_nil]
      omega
    · have hone : (before new.logicalBlock e).length + (after new.stop e).length ≤ 1 := by
        by_cases hleft : e.logicalBlock < new.logicalBlock
        · have hnone : after new.stop e = [] := by
            rw [after, if_neg (by omega), if_neg fun hin => hboth ⟨hleft, hin⟩]
          rw [hnone, List.length_nil]
          omega
        · rw [before_past (Nat.le_of_not_lt hleft), List.length_nil]
          omega
      have := ih hrest
      omega

variable (hlo : lo ≤ new.logicalBlock)
include hlo

theorem tiles_pieces (hhi : new.stop ≤ hi) :
    Tiles Extent.segment lo hi (pieces new es) := by
  have hstop : new.logicalBlock + new.blockCount = new.stop := rfl
  refine Tiles.append_iff.mpr ⟨new.logicalBlock, tiles_before h hlo (by omega), rfl, hpos, ?_⟩
  exact tiles_after h (show lo ≤ new.stop by omega) hhi

theorem tiles_spliced (hhi : new.stop ≤ hi) :
    Tiles Extent.segment lo hi (spliced new es) :=
  tiles_foldl_emit rfl (tiles_pieces h hpos hlo hhi)

theorem mapping_spliced (hhi : new.stop ≤ hi) (hcut : CutsNone new.segment es) (b : Nat) :
    mapping (spliced new es) b = if holds b new then some (place b new) else mapping es b := by
  have hall : ∀ p ∈ pieces new es, 0 < p.blockCount := fun p hp => ((tiles_pieces h hpos hlo hhi).mem_bounds hp).2.1
  have hstop : new.logicalBlock + new.blockCount = new.stop := rfl
  rw [spliced, mapping_foldl_emit hall, show mapping [] b = none from rfl, Option.none_or, pieces, mapping_append,
    mapping_before fun e he hc => (hcut.sides e he hc).1, mapping_cons, mapping_after fun e he hc => (hcut.sides e he hc).2]
  by_cases hin : holds b new = true
  · rw [if_pos hin, if_pos hin]
    rw [holds_iff] at hin
    rw [if_neg (by omega), Option.none_or]
  · rw [if_neg hin, if_neg hin]
    rw [holds_iff] at hin
    by_cases hb : b < new.logicalBlock
    · rw [if_pos hb, if_neg (by omega), Option.or_none]
    · rw [if_neg hb, if_pos (by omega), Option.none_or]

end Pieces

section Loop

variable {σ : Type} {new : Extent} {capacity lo hi : Nat} {es : List Extent} {release : List Segment → Prog σ Status Unit}

def stepPieces (new : Extent) (emitted : Bool) (e : Extent) : List Extent :=
  if Apart new.segment e then [e] else before new.logicalBlock e ++ ((if emitted then [] else [new]) ++ after new.stop e)

def loopPieces (new : Extent) : Bool → List Extent → List Extent
  | _, [] => []
  | emitted, e :: es => stepPieces new emitted e ++ loopPieces new (emitted || !decide (Apart new.segment e)) es

def loopEmitted (new : Extent) : Bool → List Extent → Bool
  | emitted, [] => emitted
  | emitted, e :: es => loopEmitted new (emitted || !decide (Apart new.segment e)) es

variable {e : Extent}

theorem emits_optional {out : List Extent} {ps : List Extent} (hzero : ps = [] → e.blockCount = 0)
    (hone : ps ≠ [] → ps = [e]) (hroom : out.length + ps.length ≤ capacity) :
    extentEmitCapacity out capacity e = .ok (ps.foldl emit out) := by
  by_cases hps : ps = []
  · rw [hps, extentEmitCapacity, if_pos (hzero hps)]
    rfl
  · rw [hone hps] at hroom ⊢
    exact extentEmitCapacity_emit e hroom

theorem before_met (h : ¬Apart new.segment e) (hne : before new.logicalBlock e ≠ []) :
    before new.logicalBlock e = [{ e with blockCount := new.logicalBlock - e.logicalBlock }] := by
  have hmet : new.logicalBlock < e.stop := Nat.lt_of_not_le fun hle => h (.inl hle)
  rw [before] at hne ⊢
  split at hne
  · rename_i hcut
    have hmin : min e.blockCount (new.logicalBlock - e.logicalBlock) = new.logicalBlock - e.logicalBlock := by
      rw [Extent.stop] at hmet
      omega
    rw [if_pos hcut, hmin]
  · exact absurd rfl hne

theorem after_met (h : ¬Apart new.segment e) (hne : after new.stop e ≠ []) :
    after new.stop e = [{ e with
      logicalBlock := new.stop
      physicalBlock := if extentKind e.flags = extentHole then 0 else e.physicalBlock + (new.stop - e.logicalBlock)
      blockCount := e.stop - new.stop }] := by
  have hmet : ¬new.stop ≤ e.logicalBlock := fun hle => h (.inr hle)
  rw [after, if_neg hmet] at hne ⊢
  split at hne
  · rename_i hcut
    rw [if_pos hcut]
  · exact absurd rfl hne

theorem before_unmet {start : Nat} (h : before start e = []) : start - e.logicalBlock = 0 := by
  rw [before] at h
  split at h
  · cases h
  · omega

theorem after_unmet (hmet : ¬Apart new.segment e) (h : after new.stop e = []) : e.stop - new.stop = 0 := by
  have hnot : ¬new.stop ≤ e.logicalBlock := fun hle => hmet (.inr hle)
  rw [after, if_neg hnot] at h
  split at h
  · cases h
  · omega

/-- One turn of the loop: it emits the pieces of the extent and hands the runs
it loses to the release routine. -/
theorem replaceExtent_eq (hnil : release [] = pure ()) {acc : File.Rebuild} (hend : e.stop < 2 ^ 64)
    (hcut : e.isCompressed = true → ¬Apart new.segment e → new.logicalBlock ≤ e.logicalBlock ∧ e.stop ≤ new.stop)
    (hroom : acc.out.length + (stepPieces new acc.emitted e).length ≤ capacity) :
    File.replaceExtent new capacity release acc e = (do
      release (releasedRuns new.segment [e])
      pure ⟨(stepPieces new acc.emitted e).foldl emit acc.out, acc.emitted || !decide (Apart new.segment e),
        acc.released ++ releasedRuns new.segment [e]⟩) := by
  have hchecked : addChecked e.logicalBlock e.blockCount = some e.stop := if_pos hend
  have hruns : releasedRuns new.segment [e] = if Apart new.segment e then [] else releasedBlocks new.segment e := by
    rw [releasedRuns, List.flatMap_cons, List.flatMap_nil, List.append_nil]
  rw [File.replaceExtent, hchecked, hruns]
  by_cases hapart : Apart new.segment e
  · rw [stepPieces, if_pos hapart] at hroom ⊢
    have hskip : e.stop ≤ new.segment.start ∨ new.segment.stop ≤ e.logicalBlock := hapart
    have hemit : extentEmitCapacity acc.out capacity e = .ok (emit acc.out e) := extentEmitCapacity_emit e hroom
    simp only
    rw [if_pos hskip, if_pos hapart, hemit, hnil, ofExcept_ok, pure_bind, pure_bind, decide_eq_true hapart, Bool.not_true,
      Bool.or_false, List.append_nil]
    rfl
  · have hmet : ¬(e.stop ≤ new.segment.start ∨ new.segment.stop ≤ e.logicalBlock) := hapart
    have hnotcut : ¬(e.isCompressed = true ∧ (e.logicalBlock < new.segment.start ∨ new.segment.stop < e.stop)) := by
      rintro ⟨hpacked, hside⟩
      have := hcut hpacked hapart
      rw [Extent.segment_start, Extent.segment_stop] at hside
      omega
    simp only [stepPieces, if_neg hapart, List.foldl_append, List.length_append] at hroom ⊢
    -- the three emissions of the turn
    have hhead : extentEmitCapacity acc.out capacity { e with blockCount := new.logicalBlock - e.logicalBlock } =
        .ok ((before new.logicalBlock e).foldl emit acc.out) :=
      emits_optional before_unmet (before_met hapart) (by omega)
    have hlength := length_foldl_emit (before new.logicalBlock e) acc.out
    generalize (before new.logicalBlock e).foldl emit acc.out = first at hhead hlength ⊢
    have hmiddle : (if acc.emitted = true then .ok first else extentEmitCapacity first capacity new) =
        Except.ok ((if acc.emitted = true then [] else [new]).foldl emit first) := by
      cases hemitted : acc.emitted with
      | true => rfl
      | false =>
        rw [hemitted] at hroom
        exact extentEmitCapacity_emit new (by simp only [Bool.false_eq_true, if_false, List.length_singleton] at hroom; omega)
    have hlength' := length_foldl_emit (if acc.emitted = true then [] else [new]) first
    generalize (if acc.emitted = true then [] else [new]).foldl emit first = middle at hmiddle hlength' ⊢
    have htail : extentEmitCapacity middle capacity { e with
        logicalBlock := new.stop
        physicalBlock := if extentKind e.flags = extentHole then 0 else e.physicalBlock + (new.stop - e.logicalBlock)
        blockCount := e.stop - new.stop } = .ok ((after new.stop e).foldl emit middle) :=
      emits_optional (after_unmet hapart) (after_met hapart) (by omega)
    rw [if_neg hmet, if_neg hnotcut, Extent.segment_start, Extent.segment_stop, hhead, ofExcept_ok,
      pure_bind, hmiddle, ofExcept_ok, pure_bind, htail, ofExcept_ok, decide_eq_false hapart, Bool.not_false, Bool.or_true]
    simp only [pure_bind]

/-- The loop is the release of all runs and a list that no release routine
touches. -/
theorem replaceLoop_eq (hnil : release [] = pure ())
    (happend : ∀ xs ys, release (xs ++ ys) = (do release xs; release ys))
    (hend : ∀ e ∈ es, e.stop < 2 ^ 64) (hcut : CutsNone new.segment es) (acc : File.Rebuild)
    (hroom : acc.out.length + (loopPieces new acc.emitted es).length ≤ capacity) :
    replaceLoop new capacity release acc es = (do
      release (releasedRuns new.segment es)
      pure ⟨(loopPieces new acc.emitted es).foldl emit acc.out, loopEmitted new acc.emitted es,
        acc.released ++ releasedRuns new.segment es⟩) := by
  induction es generalizing acc with
  | nil =>
    have hruns : releasedRuns new.segment [] = [] := rfl
    rw [replaceLoop, hruns, hnil, pure_bind, List.append_nil]
    rfl
  | cons e es ih =>
    rw [loopPieces, List.length_append] at hroom
    have hlength := length_foldl_emit (stepPieces new acc.emitted e) acc.out
    have hruns : releasedRuns new.segment (e :: es) = releasedRuns new.segment [e] ++ releasedRuns new.segment es := by
      rw [releasedRuns, List.flatMap_cons, releasedRuns, List.flatMap_cons, List.flatMap_nil, List.append_nil]
      rfl
    rw [replaceLoop, replaceExtent_eq hnil (hend e List.mem_cons_self) (hcut e List.mem_cons_self) (by omega), hruns,
      happend, bind_assoc, bind_assoc]
    congr 1
    funext _
    rw [pure_bind, ih (fun x hx => hend x (List.mem_cons_of_mem _ hx)) (fun x hx => hcut x (List.mem_cons_of_mem _ hx)) _
      (by simp only; omega), loopPieces, List.foldl_append, List.append_assoc]
    rfl

theorem loopPieces_emitted (h : Tiles Extent.segment lo hi es) (hlo : new.logicalBlock < lo) :
    loopPieces new true es = es.flatMap (after new.stop) := by
  induction es generalizing lo with
  | nil => rfl
  | cons e es ih =>
    obtain ⟨hstart, hcount, hrest, hstop⟩ := tiles_cons h
    rw [loopPieces, Bool.true_or, ih hrest (by omega), List.flatMap_cons]
    congr 1
    rw [stepPieces]
    split
    · rename_i hapart
      rcases hapart with hapart | hapart
      · simp only [Extent.segment_start] at hapart
        omega
      · exact (if_pos hapart).symm
    · rw [before_past (by omega)]
      rfl

/-- On a tiling that the range lies in, the loop emits the pieces of all
extents with the new one between them. -/
theorem loopPieces_eq (h : Tiles Extent.segment lo hi es) (hpos : 0 < new.blockCount) (hlo : lo ≤ new.logicalBlock)
    (hhi : new.logicalBlock < hi) : loopPieces new false es = pieces new es ∧ loopEmitted new false es = true := by
  have hnew : new.logicalBlock + new.blockCount = new.stop := rfl
  have hdone (xs : List Extent) : loopEmitted new true xs = true := by
    induction xs with
    | nil => rfl
    | cons x xs ih => rw [loopEmitted, Bool.true_or, ih]
  induction es generalizing lo with
  | nil =>
    rw [Tiles.nil_iff] at h
    omega
  | cons e es ih =>
    obtain ⟨hstart, hcount, hrest, hstop⟩ := tiles_cons h
    by_cases hpast : e.stop ≤ new.logicalBlock
    · have hapart : Apart new.segment e := .inl hpast
      obtain ⟨hpieces, hemitted⟩ := ih hrest hpast
      rw [loopPieces, loopEmitted, stepPieces, if_pos hapart, decide_eq_true hapart, Bool.not_true, Bool.or_false, hpieces]
      refine ⟨?_, hemitted⟩
      have hnone : after new.stop e = [] := by rw [after, if_neg (by omega), if_neg (by omega)]
      rw [pieces, pieces, List.flatMap_cons, List.flatMap_cons, before_whole hcount hpast, hnone]
      rfl
    · have hmet : ¬Apart new.segment e := by
        rintro (hle | hle)
        · exact hpast hle
        · simp only [Extent.segment_stop] at hle
          omega
      rw [loopPieces, loopEmitted, stepPieces, if_neg hmet, decide_eq_false hmet, Bool.not_false, Bool.or_true,
        loopPieces_emitted hrest (by omega)]
      refine ⟨?_, hdone es⟩
      rw [pieces, List.flatMap_cons, List.flatMap_cons, flatMap_before_past hrest (by omega), List.append_nil]
      simp

end Loop

section Released

variable {range : Segment} {lo hi : Nat} {es : List Extent}

def runBlocks (run : Segment) : List Nat := List.range' run.start run.count

/-- The blocks of the volume that a file has for one of its own. The blocks of
a compressed extent are counted at the first one it holds. -/
def Place.blocks (b : Nat) : Place → List Nat
  | .hole => []
  | .block physical => [physical]
  | .packed e => if b = e.logicalBlock then runBlocks e.physical else []

def heldAt (es : List Extent) (b : Nat) : List Nat :=
  match mapping es b with
  | none => []
  | some p => p.blocks b

theorem range'_split {a b c : Nat} (hab : a ≤ b) (hbc : b ≤ c) :
    List.range' a (c - a) = List.range' a (b - a) ++ List.range' b (c - b) := by
  have hsplit : List.range' a (b - a) ++ List.range' (a + (b - a)) (c - b) = List.range' a (b - a + (c - b)) :=
    List.range'_append_1
  have hlength : b - a + (c - b) = c - a := by omega
  rw [Nat.add_sub_cancel' hab, hlength] at hsplit
  exact hsplit.symm

theorem flatMap_range'_shift {physical l a n : Nat} (hla : l ≤ a) :
    (List.range' a n).flatMap (fun b => [physical + (b - l)]) = List.range' (physical + (a - l)) n := by
  rw [← List.map_eq_flatMap, List.range'_eq_map_range, List.range'_eq_map_range, List.map_map]
  refine List.map_congr_left fun i _ => ?_
  show physical + (a + i - l) = physical + (a - l) + i
  omega

theorem flatMap_range'_nil {f : Nat → List Nat} {a n : Nat} (h : ∀ b, a ≤ b → b < a + n → f b = []) :
    (List.range' a n).flatMap f = [] := by
  rw [List.flatMap_eq_nil_iff]
  intro b hb
  have hb := List.mem_range'_1.mp hb
  exact h b hb.1 hb.2

theorem flatMap_range'_within {f : Nat → List Nat} {a b c d : Nat} (hab : a ≤ b) (hbc : b ≤ c) (hcd : c ≤ d)
    (hleft : ∀ x, a ≤ x → x < b → f x = []) (hright : ∀ x, c ≤ x → x < d → f x = []) :
    (List.range' a (d - a)).flatMap f = (List.range' b (c - b)).flatMap f := by
  rw [range'_split hab (hbc.trans hcd), range'_split hbc hcd, List.flatMap_append, List.flatMap_append,
    flatMap_range'_nil fun x hx hx' => hleft x hx (by omega), flatMap_range'_nil fun x hx hx' => hright x hx (by omega),
    List.nil_append, List.append_nil]

theorem released_one {e : Extent} (hpos : 0 < e.blockCount)
    (hkind : extentKind e.flags = extentHole ∨ extentKind e.flags = extentNormal)
    (hcut : e.isCompressed = true → ¬Apart range e → range.start ≤ e.logicalBlock ∧ e.stop ≤ range.stop) :
    (List.range' e.logicalBlock (e.stop - e.logicalBlock)).flatMap
        (fun b => if range.contains b then (place b e).blocks b else []) =
      (releasedRuns range [e]).flatMap runBlocks := by
  have hstop : e.logicalBlock + e.blockCount = e.stop := rfl
  have hruns : releasedRuns range [e] = if Apart range e then [] else releasedBlocks range e := by
    rw [releasedRuns, List.flatMap_cons, List.flatMap_nil, List.append_nil]
  rw [hruns]
  by_cases hapart : Apart range e
  · rw [if_pos hapart, List.flatMap_nil]
    refine flatMap_range'_nil fun b hb hb' => if_neg fun hin => ?_
    rw [Segment.contains_iff] at hin
    rcases hapart with hapart | hapart <;> omega
  · rw [if_neg hapart, releasedBlocks]
    rcases hkind with hkind | hkind
    · have hne : extentKind e.flags ≠ extentNormal := by
        rw [hkind]
        decide
      rw [if_pos hne, List.flatMap_nil]
      refine flatMap_range'_nil fun b _ _ => ?_
      rw [place, if_pos hkind]
      exact ite_self _
    · have hne : extentKind e.flags ≠ extentHole := by
        rw [hkind]
        decide
      rw [if_neg (not_not.mpr hkind)]
      by_cases hpacked : e.isCompressed = true
      · -- the whole extent is in the range, and its blocks stand at its first one
        obtain ⟨hleft, hright⟩ := hcut hpacked hapart
        have hplace (b : Nat) : place b e = .packed e := by rw [place, if_neg hne, if_pos hpacked]
        have hfirst : e.logicalBlock + 1 - e.logicalBlock = 1 := by omega
        rw [if_pos hpacked, flatMap_range'_within (b := e.logicalBlock) (c := e.logicalBlock + 1) le_rfl (by omega) (by omega)
          (fun x hx hx' => by omega) (fun x hx hx' => by
            rw [hplace, Place.blocks, if_neg (by omega : ¬x = e.logicalBlock)]
            exact ite_self _), hfirst, List.range'_one, List.flatMap_singleton, List.flatMap_singleton, hplace, Place.blocks,
          if_pos rfl, if_pos]
        rw [Segment.contains_iff]
        omega
      · have hplace (b : Nat) : place b e = .block (e.physicalBlock + (b - e.logicalBlock)) := by
          rw [place, if_neg hne, if_neg hpacked]
        have hlow : ¬e.stop ≤ range.start := fun hle => hapart (.inl hle)
        have hhigh : ¬range.stop ≤ e.logicalBlock := fun hle => hapart (.inr hle)
        rw [if_neg hpacked, flatMap_range'_within (b := max e.logicalBlock range.start) (c := min e.stop range.stop)
          (by omega) (by have : range.stop = range.start + range.count := rfl; omega) (by omega)
          (fun x hx hx' => if_neg (by rw [Segment.contains_iff]; omega))
          (fun x hx hx' => if_neg (by rw [Segment.contains_iff]; omega)), List.flatMap_singleton, runBlocks]
        have hin : ∀ b ∈ List.range' (max e.logicalBlock range.start) (min e.stop range.stop - max e.logicalBlock range.start),
            (if range.contains b then (place b e).blocks b else []) = [e.physicalBlock + (b - e.logicalBlock)] := by
          intro b hb
          have hb := List.mem_range'_1.mp hb
          rw [if_pos (by rw [Segment.contains_iff]; omega), hplace, Place.blocks]
        rw [List.flatMap_congr hin, flatMap_range'_shift (le_max_left _ _)]

/-- The release routine is called for exactly the blocks that the file had in
the range. -/
theorem released_blocks (h : Tiles Extent.segment lo hi es)
    (hkind : ∀ e ∈ es, extentKind e.flags = extentHole ∨ extentKind e.flags = extentNormal)
    (hcut : CutsNone range es) :
    (List.range' lo (hi - lo)).flatMap (fun b => if range.contains b then heldAt es b else []) =
      (releasedRuns range es).flatMap runBlocks := by
  induction es generalizing lo with
  | nil =>
    rw [Tiles.nil_iff] at h
    rw [h, Nat.sub_self]
    rfl
  | cons e es ih =>
    obtain ⟨hstart, hpos, hrest, hstop⟩ := tiles_cons h
    have hruns : releasedRuns range (e :: es) = releasedRuns range [e] ++ releasedRuns range es := by
      rw [releasedRuns, List.flatMap_cons, releasedRuns, List.flatMap_cons, List.flatMap_nil, List.append_nil]
      rfl
    have hhere : ∀ b ∈ List.range' lo (e.stop - lo), (if range.contains b then heldAt (e :: es) b else []) =
        if range.contains b then (place b e).blocks b else [] := by
      intro b hb
      have hb := List.mem_range'_1.mp hb
      have hin : holds b e = true := holds_iff.mpr (by omega)
      rw [heldAt, mapping_cons, if_pos hin]
    have hlater : ∀ b ∈ List.range' e.stop (hi - e.stop), (if range.contains b then heldAt (e :: es) b else []) =
        if range.contains b then heldAt es b else [] := by
      intro b hb
      have hb := List.mem_range'_1.mp hb
      have hnot : ¬holds b e = true := by
        rw [holds_iff]
        omega
      rw [heldAt, mapping_cons, if_neg hnot]
      rfl
    rw [range'_split (show lo ≤ e.stop by omega) hrest.le, List.flatMap_append, List.flatMap_congr hhere,
      List.flatMap_congr hlater, hruns, List.flatMap_append, ← ih hrest (fun x hx => hkind x (List.mem_cons_of_mem _ hx))
        (fun x hx => hcut x (List.mem_cons_of_mem _ hx)), ← hstart,
      released_one hpos (hkind e List.mem_cons_self) (hcut e List.mem_cons_self)]

end Released

section Placed

variable {v : Volume Block} {new : Extent} {lo hi : Nat} {es : List Extent}

/-- An extent that a page may hold: its numbers fit their fields, and what is
stored of it lies on the volume. -/
structure Placed (v : Volume Block) (e : Extent) : Prop where
  count : e.blockCount ≤ uint32Max
  stop : e.stop < 2 ^ 64
  flags : extentFlagsValid e.blockCount e.physicalBlock e.flags = true
  stored : extentKind e.flags = extentHole ∨ extentStored v e = true

variable {e : Extent}

theorem flags_cases (h : extentFlagsValid e.blockCount e.physicalBlock e.flags = true) :
    (e.flags = extentHole ∧ e.physicalBlock = 0) ∨ (e.flags = extentNormal ∧ e.physicalBlock ≠ 0) ∨
      (e.isCompressed = true ∧ extentKind e.flags = extentNormal ∧ e.physicalBlock ≠ 0) := by
  rw [extentFlagsValid] at h
  split at h
  · cases h
  · split at h
    · rw [Bool.and_eq_true, beq_iff_eq, beq_iff_eq] at h
      exact .inl h
    · split at h
      · cases h
      · rename_i hkind
        rw [not_or, not_not] at hkind
        split at h
        · exact .inr (.inl ⟨beq_iff_eq.mp h, hkind.2⟩)
        · rename_i hcodec
          refine .inr (.inr ⟨?_, hkind⟩)
          rw [Extent.isCompressed, File.extentIsCompressed, Bool.and_eq_true, beq_iff_eq, bne_iff_ne]
          exact ⟨hkind.1, hcodec⟩

theorem placed_hole (hflags : e.flags = extentHole) (hphysical : e.physicalBlock = 0) (hpos : 0 < e.blockCount)
    (hcount : e.blockCount ≤ uint32Max) (hstop : e.stop < 2 ^ 64) : Placed v e := by
  have hkind : extentKind e.flags = extentHole := by
    rw [hflags]
    decide
  refine ⟨hcount, hstop, ?_, .inl hkind⟩
  rw [extentFlagsValid, if_neg hpos.ne', if_pos hkind, hflags, hphysical]
  rfl

theorem extentStored_normal (hflags : e.flags = extentNormal) :
    extentStored v e = true ↔ 0 < e.blockCount ∧ e.physicalBlock + e.blockCount ≤ v.total := by
  have hblocks : File.extentPhysicalBlocks e.blockCount e.flags = e.blockCount := by
    rw [hflags, File.extentPhysicalBlocks, if_neg (by decide), if_neg (by decide)]
  have hplain : e.isCompressed = false := by
    rw [Extent.isCompressed, hflags]
    exact File.normal_not_compressed
  simp only [extentStored, hblocks, hplain, Bool.false_and, Bool.not_false, Bool.true_and, Bool.and_eq_true, bne_iff_ne,
    decide_eq_true_eq]
  omega

theorem placed_normal (hflags : e.flags = extentNormal) (hphysical : e.physicalBlock ≠ 0)
    (hpos : 0 < e.blockCount) (hcount : e.blockCount ≤ uint32Max) (hstop : e.stop < 2 ^ 64)
    (hin : e.physicalBlock + e.blockCount ≤ v.total) : Placed v e := by
  refine ⟨hcount, hstop, ?_, .inr ((extentStored_normal hflags).mpr ⟨hpos, hin⟩)⟩
  have hvalid : ∀ n p : Nat, n ≠ 0 → p ≠ 0 → extentFlagsValid n p extentNormal = true := by
    intro n p hn hp
    rw [extentFlagsValid, if_neg hn, if_neg (by decide), if_neg (by simp [hp]; decide), if_pos (by decide)]
    rfl
  rw [hflags]
  exact hvalid _ _ hpos.ne' hphysical

section

variable (h : Placed v e)
include h

theorem Placed.positive : 0 < e.blockCount := by
  by_contra hzero
  have hflags := h.flags
  rw [extentFlagsValid, if_pos (by omega)] at hflags
  cases hflags

theorem Placed.kind :
    extentKind e.flags = extentHole ∨ extentKind e.flags = extentNormal := by
  rcases flags_cases h.flags with ⟨hflags, -⟩ | ⟨hflags, -⟩ | ⟨-, hkind, -⟩
  · rw [hflags]
    decide
  · rw [hflags]
    decide
  · exact .inr hkind

theorem Placed.zero_iff : e.physicalBlock = 0 ↔ e.flags = extentHole := by
  rcases flags_cases h.flags with ⟨hflags, hzero⟩ | ⟨hflags, hzero⟩ | ⟨-, hkind, hzero⟩
  · exact iff_of_true hzero hflags
  · refine iff_of_false hzero ?_
    rw [hflags]
    decide
  · refine iff_of_false hzero fun hflags => ?_
    rw [hflags] at hkind
    exact absurd hkind (by decide)

theorem Placed.inside (hflags : e.flags = extentNormal) :
    e.physicalBlock + e.blockCount ≤ v.total := by
  rcases h.stored with hhole | hstored
  · rw [hflags] at hhole
    exact absurd hhole (by decide)
  · exact ((extentStored_normal hflags).mp hstored).2

theorem Placed.part {p : Extent} (hp : Part e p) (hpos : 0 < p.blockCount) : Placed v p := by
  have hcount := h.count
  have hend := h.stop
  have hstart := hp.start
  have hstop := hp.stop
  simp only [Extent.stop] at hend hstop
  have hsize : p.blockCount ≤ uint32Max := by omega
  have hlast : p.stop < 2 ^ 64 := hp.stop.trans_lt h.stop
  rcases flags_cases h.flags with ⟨hflags, hphysical⟩ | ⟨hflags, hphysical⟩ | ⟨hpacked, -⟩
  · have hkind : extentKind e.flags = extentHole := by
      rw [hflags]
      decide
    exact placed_hole (hp.flags.trans hflags) ((hp.hole hkind).elim id fun heq => heq.trans hphysical) hpos hsize hlast
  · have hin := h.inside hflags
    have hnormal := hp.normal (by rw [hflags]; decide)
    exact placed_normal (hp.flags.trans hflags) (by omega) hpos hsize hlast (by omega)
  · rw [hp.whole hpacked]
    exact h

end

theorem Placed.emit {out : List Extent} (hout : ∀ x ∈ out, Placed v x) (he : Placed v e) :
    ∀ x ∈ emit out e, Placed v x := by
  intro x hx
  have hpos := he.positive
  have hend := he.stop
  rcases File.extentEmitCapacity_ok hpos (emit_ok out e) with h | ⟨front, last, rfl, hcontinues, h⟩
  · rw [h, List.mem_append, List.mem_singleton] at hx
    rcases hx with hx | rfl
    · exact hout x hx
    · exact he
  · rw [h, List.mem_append, List.mem_singleton] at hx
    rcases hx with hx | rfl
    · exact hout x (List.mem_append_left _ hx)
    · have hlast := hout last (List.mem_append_right _ List.mem_cons_self)
      obtain ⟨-, hflags, hstop, hphysical, hcount⟩ := File.continues_iff.mp hcontinues
      simp only [Extent.stop] at hstop hend
      have hsum : last.logicalBlock + (last.blockCount + e.blockCount) < 2 ^ 64 := by omega
      rcases hphysical with ⟨hhole, hzero⟩ | ⟨hnormal, hnext⟩
      · have hlasthole : last.flags = extentHole := hflags.trans hhole
        exact placed_hole hlasthole (hlast.zero_iff.mpr hlasthole) (Nat.add_pos_right _ hpos) hcount hsum
      · have hin := he.inside hnormal
        have hlastnormal : last.flags = extentNormal := hflags.trans hnormal
        have hlastzero : last.physicalBlock ≠ 0 := by
          rw [Ne, hlast.zero_iff, hlastnormal]
          decide
        refine placed_normal hlastnormal hlastzero (Nat.add_pos_right _ hpos) hcount hsum ?_
        show last.physicalBlock + (last.blockCount + e.blockCount) ≤ v.total
        omega

theorem Placed.released {range : Segment} {b : Nat} (hes : ∀ e ∈ es, Placed v e)
    (hb : Segment.covers (releasedRuns range es) b = true) : b ≠ 0 ∧ b < v.total := by
  obtain ⟨run, hrun, hin⟩ := (Segment.covers_iff _ b).mp hb
  obtain ⟨e, he, hrun⟩ := List.mem_flatMap.mp hrun
  have hplaced := hes e he
  split at hrun
  · cases hrun
  · rename_i hmet
    rw [releasedBlocks] at hrun
    split at hrun
    · cases hrun
    · rename_i hkind
      rw [not_not] at hkind
      rcases flags_cases hplaced.flags with ⟨hflags, -⟩ | ⟨hflags, hphysical⟩ | ⟨hpacked, -, hphysical⟩
      · rw [hflags] at hkind
        exact absurd hkind (by decide)
      · have hplain : ¬e.isCompressed = true := by
          rw [Extent.isCompressed, hflags, File.normal_not_compressed]
          decide
        have hinside := hplaced.inside hflags
        rw [if_neg hplain, List.mem_singleton] at hrun
        rw [hrun] at hin
        simp only [Segment.stop, Extent.stop] at hin
        omega
      · rw [if_pos hpacked, List.mem_singleton] at hrun
        rw [hrun] at hin
        have hstored := hplaced.stored.resolve_left fun hhole => by
          rw [hkind] at hhole
          exact absurd hhole (by decide)
        simp only [extentStored, Bool.and_eq_true, decide_eq_true_eq] at hstored
        simp only [Segment.stop, Extent.physical] at hin
        omega

theorem Placed.spliced (hes : ∀ e ∈ es, Placed v e) (hnew : Placed v new) (hcut : CutsNone new.segment es) :
    ∀ e ∈ spliced new es, Placed v e := by
  have hpieces : ∀ p ∈ pieces new es, Placed v p := by
    intro p hp
    rw [pieces, List.mem_append, List.mem_cons, List.mem_flatMap, List.mem_flatMap] at hp
    rcases hp with ⟨e, he, hp⟩ | rfl | ⟨e, he, hp⟩
    · have hpart := before_part (fun hc => (hcut.sides e he hc).1) hp
      exact (hes e he).part hpart.1 (hpart.2 (hes e he).positive)
    · exact hnew
    · have hpart := after_part (fun hc => (hcut.sides e he hc).2) hp
      exact (hes e he).part hpart.1 (hpart.2 (hes e he).positive)
  have hfold : ∀ (ps out : List Extent), (∀ p ∈ ps, Placed v p) → (∀ x ∈ out, Placed v x) →
      ∀ x ∈ ps.foldl Paged.emit out, Placed v x := by
    intro ps
    induction ps with
    | nil => exact fun out _ hout => hout
    | cons p ps ih =>
      intro out hps hout
      exact ih (Paged.emit out p) (fun q hq => hps q (List.mem_cons_of_mem _ hq)) (Placed.emit hout (hps p List.mem_cons_self))
  exact hfold _ _ hpieces (by simp)

end Placed

end InfiltratorFS.Paged
