import InfiltratorFS.Extents.Paged
import Mathlib.Data.List.Range

namespace InfiltratorFS.Paged

open Prog

open File (Extent extentEmitCapacity extentPush continues holds releasedBlocks uint32Max extentHole extentKind)

section Mapping

/-- Where a block of a file is: nowhere, in a block of the volume, or somewhere
in a compressed extent. -/
inductive Place
  | hole
  | block (physical : Nat)
  | packed (extent : Extent)
  deriving DecidableEq

def place (b : Nat) (e : Extent) : Place :=
  if extentKind e.flags = extentHole then .hole
  else if e.isCompressed then .packed e
  else .block (e.physicalBlock + (b - e.logicalBlock))

/-- The blocks of a file as a list of extents maps them. -/
def mapping (es : List Extent) (b : Nat) : Option Place := (es.find? (holds b)).map (place b)

theorem holds_iff {b : Nat} {e : Extent} : holds b e = true ↔ e.logicalBlock ≤ b ∧ b < e.stop := by
  simp [holds]

theorem mapping_append (xs ys : List Extent) (b : Nat) : mapping (xs ++ ys) b = (mapping xs b).or (mapping ys b) := by
  rw [mapping, List.find?_append, mapping, mapping]
  cases xs.find? (holds b) with
  | none => rfl
  | some e => rfl

theorem mapping_singleton (e : Extent) (b : Nat) : mapping [e] b = if holds b e then some (place b e) else none := by
  rw [mapping, List.find?_singleton]
  split <;> rfl

theorem mapping_cons (e : Extent) (es : List Extent) (b : Nat) :
    mapping (e :: es) b = if holds b e then some (place b e) else mapping es b := by
  rw [← List.singleton_append, mapping_append, mapping_singleton]
  split <;> rfl

variable {e p : Extent}

/-- A part of an extent, with every block in the same place. A compressed
extent is not cut. -/
structure Part (e p : Extent) : Prop where
  flags : p.flags = e.flags
  start : e.logicalBlock ≤ p.logicalBlock
  stop : p.stop ≤ e.stop
  whole : e.isCompressed = true → p = e
  hole : extentKind e.flags = extentHole → p.physicalBlock = 0 ∨ p.physicalBlock = e.physicalBlock
  normal : extentKind e.flags ≠ extentHole → p.physicalBlock = e.physicalBlock + (p.logicalBlock - e.logicalBlock)

theorem place_part (h : Part e p) {b : Nat} (hb : holds b p = true) : place b p = place b e := by
  by_cases hpacked : e.isCompressed = true
  · rw [h.whole hpacked]
  · have hpacked' : ¬p.isCompressed = true := by rwa [Extent.isCompressed, h.flags]
    rw [place, place, h.flags, if_neg hpacked, if_neg hpacked']
    split
    · rfl
    · rename_i hkind
      have hstart := h.start
      rw [holds_iff] at hb
      rw [h.normal hkind]
      congr 1
      omega

theorem mapping_part {c : Prop} [Decidable c] (h : Part e p) {b : Nat} (hiff : holds b p = true ↔ c ∧ holds b e = true) :
    mapping [p] b = if c ∧ holds b e = true then some (place b e) else none := by
  rw [mapping_singleton]
  by_cases hb : holds b p = true
  · rw [if_pos hb, if_pos (hiff.mp hb), place_part h hb]
  · rw [if_neg hb, if_neg (mt hiff.mpr hb)]

theorem mapping_flatMap {c : Prop} [Decidable c] {f : Extent → List Extent} {es : List Extent} {b : Nat}
    (h : ∀ e ∈ es, mapping (f e) b = if c ∧ holds b e = true then some (place b e) else none) :
    mapping (es.flatMap f) b = if c then mapping es b else none := by
  induction es with
  | nil => exact (ite_self _).symm
  | cons e es ih =>
    rw [List.flatMap_cons, mapping_append, h e List.mem_cons_self, ih fun x hx => h x (List.mem_cons_of_mem _ hx), mapping_cons]
    by_cases hc : c <;> by_cases hheld : holds b e = true <;> simp [hc, hheld]

end Mapping

section Emit

/-- `extent_emit_capacity` while there is room. -/
def emit (out : List Extent) (e : Extent) : List Extent :=
  if e.blockCount = 0 then out
  else match out.getLast? with
    | none => out ++ [e]
    | some last =>
      if continues last e then out.dropLast ++ [{ last with blockCount := last.blockCount + e.blockCount }] else out ++ [e]

variable {out : List Extent}

theorem extentEmitCapacity_emit {capacity : Nat} (e : Extent) (h : out.length < capacity) :
    extentEmitCapacity out capacity e = .ok (emit out e) := by
  have hpush : extentPush out capacity e = .ok (out ++ [e]) := by rw [extentPush, if_neg (by omega)]
  rw [extentEmitCapacity, emit]
  split
  · rfl
  · cases out.getLast? with
    | none => exact hpush
    | some last =>
      simp only
      split
      · rfl
      · exact hpush

theorem emit_ok (out : List Extent) (e : Extent) : extentEmitCapacity out (out.length + 1) e = .ok (emit out e) :=
  extentEmitCapacity_emit e (Nat.lt_succ_self _)

theorem length_emit_le (out : List Extent) (e : Extent) : (emit out e).length ≤ out.length + 1 := by
  by_cases hpos : 0 < e.blockCount
  · rcases File.extentEmitCapacity_ok hpos (emit_ok out e) with h | ⟨front, last, hout, -, h⟩
    · rw [h, List.length_append, List.length_singleton]
    · rw [h, hout]
      simp
  · rw [emit, if_pos (by omega)]
    omega

theorem tiles_emit {lo : Nat} {e : Extent} (hpos : 0 < e.blockCount)
    (hout : Tiles Extent.segment lo e.logicalBlock out) : Tiles Extent.segment lo e.stop (emit out e) :=
  File.tiles_emit hpos (emit_ok out e) hout

theorem mapping_emit {e : Extent} (hpos : 0 < e.blockCount) (b : Nat) :
    mapping (emit out e) b = (mapping out b).or (mapping [e] b) := by
  rcases File.extentEmitCapacity_ok hpos (emit_ok out e) with h | ⟨front, last, rfl, hcontinues, h⟩
  · rw [h, mapping_append]
  · obtain ⟨hplain, hflags, hstop, hphysical, -⟩ := File.continues_iff.mp hcontinues
    rw [Extent.stop] at hstop
    -- both extents are parts of the one in their place
    have hwhole (p : Extent) : last.isCompressed = true → p = { last with blockCount := last.blockCount + e.blockCount } := by
      rw [Extent.isCompressed, hflags, ← Extent.isCompressed, hplain]
      exact fun hpacked => absurd hpacked Bool.false_ne_true
    have hlast : Part { last with blockCount := last.blockCount + e.blockCount } last :=
      ⟨rfl, le_rfl, by simp only [Extent.stop]; omega, hwhole last, fun _ => .inr rfl, fun _ => by simp⟩
    have he : Part { last with blockCount := last.blockCount + e.blockCount } e := by
      refine ⟨hflags.symm, ?_, ?_, hwhole e, fun hkind => ?_, fun hkind => ?_⟩
      · simp only
        omega
      · simp only [Extent.stop]
        omega
      · rcases hphysical with ⟨-, hzero⟩ | ⟨hnormal, -⟩
        · exact .inl hzero
        · simp only [hflags, hnormal] at hkind
          exact absurd hkind (by decide)
      · rcases hphysical with ⟨hhole, -⟩ | ⟨-, hnext⟩
        · simp only [hflags, hhole] at hkind
          exact absurd (by decide) hkind
        · simp only
          omega
    have hends : holds b { last with blockCount := last.blockCount + e.blockCount } = true ↔
        holds b last = true ∨ holds b e = true := by
      simp only [holds_iff, Extent.stop]
      omega
    rw [h, mapping_append, mapping_append, Option.or_assoc]
    congr 1
    rw [mapping_singleton, mapping_singleton, mapping_singleton]
    by_cases hinLast : holds b last = true
    · rw [if_pos (hends.mpr (.inl hinLast)), if_pos hinLast, place_part hlast hinLast]
      rfl
    · rw [if_neg hinLast, Option.none_or]
      by_cases hin : holds b e = true
      · rw [if_pos (hends.mpr (.inr hin)), if_pos hin, place_part he hin]
      · rw [if_neg fun hboth => (hends.mp hboth).elim hinLast hin, if_neg hin]

variable {ps : List Extent}

theorem tiles_foldl_emit {lo mid hi : Nat} (hout : Tiles Extent.segment lo mid out)
    (hps : Tiles Extent.segment mid hi ps) : Tiles Extent.segment lo hi (ps.foldl emit out) := by
  induction ps generalizing mid out with
  | nil =>
    rw [Tiles.nil_iff] at hps
    rw [← hps]
    exact hout
  | cons p ps ih =>
    obtain ⟨hstart, hpos, hrest⟩ := hps
    rw [List.foldl_cons]
    have hmid : p.logicalBlock = mid := hstart
    exact ih (tiles_emit hpos (by rw [hmid]; exact hout)) hrest

theorem mapping_foldl_emit (hps : ∀ p ∈ ps, 0 < p.blockCount) (b : Nat) :
    mapping (ps.foldl emit out) b = (mapping out b).or (mapping ps b) := by
  induction ps generalizing out with
  | nil =>
    rw [List.foldl_nil]
    exact (Option.or_none).symm
  | cons p ps ih =>
    rw [List.foldl_cons, ih fun q hq => hps q (List.mem_cons_of_mem _ hq), mapping_emit (hps p List.mem_cons_self),
      Option.or_assoc, ← mapping_append, List.singleton_append]

theorem length_foldl_emit (ps out : List Extent) : (ps.foldl emit out).length ≤ out.length + ps.length := by
  induction ps generalizing out with
  | nil => exact le_rfl
  | cons p ps ih =>
    have hone := length_emit_le out p
    have hrest := ih (emit out p)
    rw [List.foldl_cons, List.length_cons]
    omega

end Emit

section Pieces

def before (start : Nat) (e : Extent) : List Extent :=
  if e.logicalBlock < start then [{ e with blockCount := min e.blockCount (start - e.logicalBlock) }] else []

def after (stop : Nat) (e : Extent) : List Extent :=
  if stop ≤ e.logicalBlock then [e]
  else if stop < e.stop then
    [{ e with
      logicalBlock := stop
      physicalBlock := if extentKind e.flags = extentHole then 0 else e.physicalBlock + (stop - e.logicalBlock)
      blockCount := e.stop - stop }]
  else []

def pieces (new : Extent) (es : List Extent) : List Extent :=
  es.flatMap (before new.logicalBlock) ++ new :: es.flatMap (after new.stop)

def spliced (new : Extent) (es : List Extent) : List Extent := (pieces new es).foldl emit []

def Apart (range : Segment) (e : Extent) : Prop := e.stop ≤ range.start ∨ range.stop ≤ e.logicalBlock

instance (range : Segment) (e : Extent) : Decidable (Apart range e) := inferInstanceAs (Decidable (_ ∨ _))

def releasedRuns (range : Segment) (es : List Extent) : List Segment :=
  es.flatMap fun e => if Apart range e then [] else releasedBlocks range e

def CutsNone (range : Segment) (es : List Extent) : Prop :=
  ∀ e ∈ es, e.isCompressed = true → ¬Apart range e → range.start ≤ e.logicalBlock ∧ e.stop ≤ range.stop

variable {start stop lo hi : Nat} {es : List Extent}

theorem before_past {e : Extent} (h : start ≤ e.logicalBlock) : before start e = [] := if_neg (by omega)

theorem before_whole {e : Extent} (hpos : 0 < e.blockCount) (h : e.stop ≤ start) : before start e = [e] := by
  have hmin : min e.blockCount (start - e.logicalBlock) = e.blockCount := by
    rw [Extent.stop] at h
    omega
  rw [before, if_pos (by rw [Extent.stop] at h; omega), hmin]

variable (h : Tiles Extent.segment lo hi es)

include h

theorem flatMap_before_past (hlo : start ≤ lo) : es.flatMap (before start) = [] := by
  rw [List.flatMap_eq_nil_iff]
  exact fun e he => before_past (hlo.trans (h.mem_bounds he).1)

theorem flatMap_after_past (hlo : stop ≤ lo) : es.flatMap (after stop) = es := by
  have hone : ∀ e ∈ es, after stop e = [e] := fun e he => if_pos (hlo.trans (h.mem_bounds he).1)
  rw [List.flatMap_congr hone]
  exact List.flatMap_singleton' es

theorem tiles_before (hlo : lo ≤ start) (hhi : start ≤ hi) :
    Tiles Extent.segment lo start (es.flatMap (before start)) := by
  induction es generalizing lo with
  | nil =>
    rw [Tiles.nil_iff] at h
    exact Tiles.nil_iff.mpr (by omega)
  | cons e es ih =>
    obtain ⟨hstart, hpos, hrest, -⟩ := File.tiles_cons h
    rw [List.flatMap_cons]
    by_cases hin : start < e.stop
    · rw [flatMap_before_past hrest hin.le, List.append_nil, before]
      split
      · rename_i hcut
        have hmin : min e.blockCount (start - e.logicalBlock) = start - e.logicalBlock := by
          rw [Extent.stop] at hin
          omega
        rw [hmin]
        refine ⟨hstart, ?_, Tiles.nil_iff.mpr ?_⟩
        · show 0 < start - e.logicalBlock
          omega
        · show e.logicalBlock + (start - e.logicalBlock) = start
          omega
      · exact Tiles.nil_iff.mpr (by omega)
    · rw [before_whole hpos (Nat.le_of_not_lt hin), List.singleton_append]
      exact ⟨hstart, hpos, ih hrest (Nat.le_of_not_lt hin)⟩

theorem tiles_after (hlo : lo ≤ stop) (hhi : stop ≤ hi) :
    Tiles Extent.segment stop hi (es.flatMap (after stop)) := by
  induction es generalizing lo with
  | nil =>
    rw [Tiles.nil_iff] at h
    exact Tiles.nil_iff.mpr (by omega)
  | cons e es ih =>
    obtain ⟨hstart, hpos, hrest, -⟩ := File.tiles_cons h
    rw [List.flatMap_cons, after]
    split
    · rename_i hpast
      have heq : stop = lo := by omega
      rw [flatMap_after_past hrest (by rw [Extent.stop]; omega), List.singleton_append, heq]
      exact ⟨hstart, hpos, hrest⟩
    · split
      · rename_i hin
        rw [flatMap_after_past hrest hin.le, List.singleton_append]
        refine ⟨rfl, ?_, ?_⟩
        · show 0 < e.stop - stop
          omega
        · show Tiles Extent.segment (stop + (e.stop - stop)) hi es
          rwa [Nat.add_sub_cancel' hin.le]
      · rename_i hin
        exact ih hrest (Nat.le_of_not_lt hin)

end Pieces

end InfiltratorFS.Paged
