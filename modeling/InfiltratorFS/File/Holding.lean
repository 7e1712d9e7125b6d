import InfiltratorFS.File.Release
import InfiltratorFS.File.Steps

namespace InfiltratorFS.File

open Prog

section Uses

def hits (b : Nat) (run : Segment) : Nat := if run.contains b = true then 1 else 0

def runCount (b : Nat) (runs : List Segment) : Nat := (runs.map (hits b)).sum

def uses (b : Nat) (e : Extent) : Nat := if extentKind e.flags = extentNormal then hits b e.physical else 0

def useCount (b : Nat) (es : List Extent) : Nat := (es.map (uses b)).sum

variable {b : Nat} {e : Extent} {out out' : List Extent}

@[simp] theorem useCount_nil : useCount b [] = 0 := rfl

@[simp] theorem useCount_cons (e : Extent) (es : List Extent) : useCount b (e :: es) = uses b e + useCount b es := by
  simp [useCount]

@[simp] theorem useCount_append (xs ys : List Extent) : useCount b (xs ++ ys) = useCount b xs + useCount b ys := by
  simp [useCount]

@[simp] theorem runCount_nil : runCount b [] = 0 := rfl

@[simp] theorem runCount_cons (run : Segment) (runs : List Segment) :
    runCount b (run :: runs) = hits b run + runCount b runs := by
  simp [runCount]

@[simp] theorem runCount_append (xs ys : List Segment) : runCount b (xs ++ ys) = runCount b xs + runCount b ys := by
  simp [runCount]

theorem hits_eq (p n : Nat) : hits b ⟨p, n⟩ = if p ≤ b ∧ b < p + n then 1 else 0 := by
  simp only [hits, Segment.contains_iff, Segment.stop]

theorem hits_append (p m n : Nat) : hits b ⟨p, m + n⟩ = hits b ⟨p, m⟩ + hits b ⟨p + m, n⟩ := by
  simp only [hits_eq]
  split <;> split <;> split <;> omega

theorem hits_mono (p : Nat) {m n : Nat} (h : m ≤ n) : hits b ⟨p, m⟩ ≤ hits b ⟨p, n⟩ := by
  obtain ⟨k, rfl⟩ := Nat.le.dest h
  rw [hits_append]
  omega

theorem hits_block (block : Nat) : hits b ⟨block, 1⟩ = [block].count b := by
  rw [hits_eq, List.count_singleton]
  simp only [beq_iff_eq]
  split <;> split <;> omega

theorem referenced_iff {es : List Extent} : Referenced es b ↔ 0 < useCount b es := by
  induction es with
  | nil => simp [Referenced]
  | cons e es ih =>
    rw [referenced_cons, ih, useCount_cons, uses, hits]
    by_cases hkind : extentKind e.flags = extentNormal
    · by_cases hcontains : e.physical.contains b = true
      · simp only [hkind, hcontains, and_self, true_or, if_true, true_iff]
        omega
      · simp [hkind, hcontains]
    · simp [hkind]

theorem hole_kind : extentKind extentHole = extentHole := by decide

theorem uses_hole (h : extentKind e.flags = extentHole) : uses b e = 0 := by
  rw [uses, h, if_neg (by decide)]

theorem uses_plain (hkind : extentKind e.flags = extentNormal) (hplain : e.isCompressed = false) :
    uses b e = hits b ⟨e.physicalBlock, e.blockCount⟩ := by
  rw [Extent.isCompressed] at hplain
  rw [uses, if_pos hkind, Extent.physical, extentPhysicalBlocks, hkind, if_neg (by decide), hplain]
  rfl

theorem uses_normal (logical physical count : Nat) :
    uses b ⟨logical, physical, count, extentNormal⟩ = hits b ⟨physical, count⟩ :=
  uses_plain (e := ⟨logical, physical, count, extentNormal⟩) (by decide : extentKind extentNormal = extentNormal)
    normal_not_compressed

def newUses (b : Nat) (e : Extent) : Nat := if e.blockCount = 0 then 0 else uses b e

theorem newUses_le (e : Extent) : newUses b e ≤ uses b e := by
  rw [newUses]
  split <;> omega

theorem useCount_emit {capacity : Nat}
    (h : extentEmitCapacity out capacity e = .ok out') : useCount b out' ≤ useCount b out + newUses b e := by
  by_cases hzero : e.blockCount = 0
  · rw [extentEmitCapacity_zero hzero h]
    omega
  · rw [newUses, if_neg hzero]
    rcases extentEmitCapacity_ok (Nat.pos_of_ne_zero hzero) h with rfl | ⟨front, last, rfl, hcont, rfl⟩
    · simp
    · obtain ⟨hplain, hflags, _, hphysical, _⟩ := continues_iff.mp hcont
      simp only [useCount_append, useCount_cons, useCount_nil]
      rcases hphysical with ⟨hhole, _⟩ | ⟨hnormal, hphysical⟩
      · rw [uses_hole (by rw [hflags, hhole]; decide)]
        omega
      · have hkind : extentKind last.flags = extentNormal := by
          rw [hflags, hnormal]
          decide
        have hlast : last.isCompressed = false := by
          rw [Extent.isCompressed, hflags]
          exact hplain
        rw [uses_plain (by exact hkind) (by exact hlast), uses_plain hkind hlast, uses_plain (by rw [← hflags]; exact hkind) hplain,
          hits_append, hphysical]
        dsimp only
        omega

theorem uses_split {range : Segment} (hbefore : range.start < e.stop) (hafter : e.logicalBlock < range.stop)
    (hwhole : ¬(e.isCompressed = true ∧ (e.logicalBlock < range.start ∨ range.stop < e.stop))) {physical : Nat}
    (hphysical : extentKind e.flags = extentNormal → physical = e.physicalBlock + (range.stop - e.logicalBlock)) :
    newUses b { e with blockCount := range.start - e.logicalBlock } +
      newUses b ⟨range.stop, physical, e.stop - range.stop, e.flags⟩ + runCount b (releasedBlocks range e) ≤ uses b e := by
  by_cases hkind : extentKind e.flags = extentNormal
  · rcases hplain : e.isCompressed
    · have hplain' : ∀ l p n, (Extent.mk l p n e.flags).isCompressed = false := fun _ _ _ => hplain
      have hreleased : releasedBlocks range e = [⟨e.physicalBlock + (max e.logicalBlock range.start - e.logicalBlock),
          min e.stop range.stop - max e.logicalBlock range.start⟩] := by
        simp [releasedBlocks, hkind, hplain]
      have hcount : e.blockCount = (range.start - e.logicalBlock) + (min e.stop range.stop - max e.logicalBlock range.start) +
          (e.stop - range.stop) := by
        simp only [Extent.stop, Segment.stop] at *
        omega
      have hfirst : max e.logicalBlock range.start - e.logicalBlock = range.start - e.logicalBlock := by omega
      have htail : newUses b ⟨range.stop, physical, e.stop - range.stop, e.flags⟩ ≤
          hits b ⟨e.physicalBlock + ((range.start - e.logicalBlock) + (min e.stop range.stop - max e.logicalBlock range.start)),
            e.stop - range.stop⟩ := by
        rw [newUses]
        split
        · exact Nat.zero_le _
        · rename_i hne
          have hstart : (range.start - e.logicalBlock) + (min e.stop range.stop - max e.logicalBlock range.start) =
              range.stop - e.logicalBlock := by
            simp only [Extent.stop, Segment.stop] at *
            omega
          rw [uses_plain (by exact hkind) (hplain' _ _ _), hphysical hkind, hstart]
      have hhead := newUses_le (b := b) { e with blockCount := range.start - e.logicalBlock }
      rw [uses_plain (by exact hkind) (hplain' _ _ _)] at hhead
      rw [hreleased, hfirst, uses_plain hkind hplain, hcount, hits_append, hits_append, runCount_cons, runCount_nil]
      dsimp only at *
      omega
    · rw [hplain] at hwhole
      have hleft : range.start - e.logicalBlock = 0 := by
        by_contra h
        exact hwhole ⟨rfl, .inl (by omega)⟩
      have hright : e.stop - range.stop = 0 := by
        by_contra h
        exact hwhole ⟨rfl, .inr (by omega)⟩
      have hreleased : releasedBlocks range e = [e.physical] := by
        simp [releasedBlocks, hkind, hplain]
      rw [newUses, newUses, if_pos hleft, if_pos hright, hreleased, runCount_cons, runCount_nil, uses, if_pos hkind]
      omega
  · have hnone : ∀ l p n, uses b ⟨l, p, n, e.flags⟩ = 0 := fun _ _ _ => if_neg hkind
    simp [releasedBlocks, hkind, hnone, newUses]

theorem useCount_appendHoles {capacity start remaining : Nat}
    (h : appendHoles capacity start remaining out = .ok out') : useCount b out' ≤ useCount b out := by
  fun_induction appendHoles capacity start remaining out with
  | case1 =>
    cases h
    exact le_rfl
  | case2 => cases h
  | case3 start remaining out _ chunk next hemit ih =>
    have hhole := useCount_emit (b := b) hemit
    have hnone := newUses_le (b := b) ⟨start, 0, chunk, extentHole⟩
    rw [uses_hole hole_kind] at hnone
    have hrest := ih h
    omega

theorem useCount_growClassic (present needed : Nat) (es : List Extent) :
    useCount b (growClassic present needed es).1 ≤ useCount b es := by
  fun_induction growClassic present needed es with
  | case1 present es _ remaining last add hadd ih =>
    apply ih.trans
    have hlast : es ≠ [] ∧ (es.getLastD default).flags = extentHole := by
      by_contra hnot
      rw [show add = 0 from if_neg hnot] at hadd
      omega
    rw [useCount_append, useCount_cons, useCount_nil, uses_hole (by rw [hlast.2]; decide)]
    conv_rhs => rw [← List.dropLast_concat_getLast hlast.1]
    rw [useCount_append]
    omega
  | case2 => exact le_rfl
  | case3 present es _ remaining add _ _ chunk ih =>
    apply ih.trans
    rw [useCount_append, useCount_cons, useCount_nil, uses_hole hole_kind]
    omega
  | case4 => exact le_rfl

end Uses

section Ledger

/-- An account of one block in an operation. The allocator hands the block out
at most once. A place in an extent counts in full, or for nothing where
another file has the block as well. -/
structure Ledger where
  start : FileState
  block : Nat
  limit : Nat
  weight : Nat
  handed_once : ∀ t u, (start.env t).run.contains block = true → (start.env u).run.contains block = true → t = u
  weight_cases : weight = 1 ∨
    weight = 0 ∧ Referenced start.others block ∧ start.enabled incompatSharedExtents = true

def FileState.Coming (s : FileState) (b : Nat) : Prop := ∃ t, s.tick ≤ t ∧ (s.env t).run.contains b = true

def FileState.gone (s : FileState) (b : Nat) : Nat := if Segment.covers s.freed b = true then 1 else 0

/-- With m places for the block, in the object and in hand, the account is
within its limit. -/
structure Purse (c : Ledger) (o : FileObject) (m : Nat) (s : FileState) : Prop where
  env : s.env = c.start.env
  others : s.others = c.start.others
  flags : s.incompatFlags = c.start.incompatFlags
  object : s.object = o
  enough : s.gone c.block + m ≤ c.limit
  coming : s.Coming c.block → s.gone c.block + m < c.limit

def Ledger.data (c : Ledger) (es : List Extent) : Nat := c.weight * useCount c.block es

def Ledger.own (c : Ledger) (e : Extent) : Nat := c.weight * uses c.block e

def Ledger.fresh (c : Ledger) (e : Extent) : Nat := c.weight * newUses c.block e

def Ledger.runs (c : Ledger) (rs : List Segment) : Nat := c.weight * runCount c.block rs

variable {c : Ledger} {o : FileObject} {m n : Nat} {α β : Type} {s : FileState} {P : FileState → Prop}
  {Q : α → FileState → Prop} {x : FileM α}

theorem Purse.mono (h : Purse c o m s) (hle : n ≤ m) : Purse c o n s := by
  obtain ⟨henv, hothers, hflags, hobject, henough, hcoming⟩ := h
  refine ⟨henv, hothers, hflags, hobject, by omega, fun hc => ?_⟩
  have := hcoming hc
  omega

theorem Ledger.weight_le (c : Ledger) : c.weight ≤ 1 := by
  rcases c.weight_cases with h | ⟨h, _⟩ <;> omega

theorem Ledger.weighted (c : Ledger) (k : Nat) : c.weight * k ≤ k := by
  have := Nat.mul_le_mul_right k c.weight_le
  omega

@[simp] theorem data_nil : c.data [] = 0 := rfl

@[simp] theorem data_cons (e : Extent) (es : List Extent) : c.data (e :: es) = c.own e + c.data es := by
  simp [Ledger.data, Ledger.own, Nat.mul_add]

@[simp] theorem data_append (xs ys : List Extent) : c.data (xs ++ ys) = c.data xs + c.data ys := by
  simp [Ledger.data, Nat.mul_add]

theorem fresh_le (e : Extent) : c.fresh e ≤ c.own e := Nat.mul_le_mul_left c.weight (newUses_le e)

variable (run : Segment)

theorem runs_cons (rs : List Segment) : c.runs (run :: rs) = c.runs [run] + c.runs rs := by
  simp [Ledger.runs, Nat.mul_add]

def Always (_ : Status) (_ : FileState) : Prop := True

theorem triple_failed (e : Status) : Triple P (fail e : FileM α) Q Always :=
  Triple.fail fun _ _ => trivial

theorem triple_check {p : Prop} [Decidable p] {e : Status}
    (hx : ¬p → Triple P x Q Always) : Triple P (if p then fail e else x) Q Always :=
  Triple.guard hx fun _ _ => trivial

def Keeps (c : Ledger) (x : FileM α) : Prop := ∀ o m, Triple (Purse c o m) x (fun _ => Purse c o m) Always

theorem keeps_pure (a : α) : Keeps c (pure a : FileM α) := fun _ _ => .done

theorem keeps_fail (e : Status) : Keeps c (fail e : FileM α) := fun _ _ => triple_failed e

theorem keeps_get : Keeps c (get : FileM FileState) := by
  intro o m s hs
  refine ⟨fun a t hx => ?_, fun _ _ _ => trivial⟩
  cases hx
  exact hs

theorem keeps_bind {f : α → FileM β} (hx : Keeps c x) (hf : ∀ a, Keeps c (f a)) : Keeps c (x >>= f) :=
  fun o m => (hx o m).bind fun a => hf a o m

theorem FileState.Coming.of_next {b : Nat} (h : FileState.Coming { s with tick := s.tick + 1 } b) :
    s.Coming b := by
  obtain ⟨t, ht, hcontains⟩ := h
  exact ⟨t, by dsimp only at ht; omega, hcontains⟩

theorem Purse.next (h : Purse c o m s) : Purse c o m { s with tick := s.tick + 1 } :=
  ⟨h.env, h.others, h.flags, h.object, h.enough, fun hc => h.coming hc.of_next⟩

theorem triple_request :
    Triple (Purse c o m) request (fun answer => Purse c o (m + hits c.block answer.run)) Always := by
  intro s hs
  refine ⟨fun a t hx => ?_, fun _ _ _ => trivial⟩
  simp only [request] at hx
  split at hx
  · cases hx
    rw [hits]
    split
    · rename_i hcontains
      have hless := hs.coming ⟨s.tick, le_rfl, hcontains⟩
      refine ⟨hs.env, hs.others, hs.flags, hs.object, hless, ?_⟩
      rintro ⟨t, ht, hcontains'⟩
      have hsame := c.handed_once s.tick t (by rw [← hs.env]; exact hcontains) (by rw [← hs.env]; exact hcontains')
      dsimp only at ht
      omega
    · exact hs.next
  · cases hx

theorem Reads.triple (h : Reads x)
    (hP : ∀ s n, P s → P { s with tick := s.tick + n }) : Triple P x (fun _ => P) Always := by
  intro s hs
  refine ⟨fun a t hx => ?_, fun _ _ _ => trivial⟩
  obtain ⟨n, hn⟩ := h.ticks s
  obtain rfl : t = { s with tick := s.tick + n } := by rw [← hn, hx]
  exact hP s n hs

theorem Reads.keeps (h : Reads x) : Keeps c x := by
  refine fun o m => h.triple fun s n hs => ⟨hs.env, hs.others, hs.flags, hs.object, hs.enough, fun hlater => hs.coming ?_⟩
  obtain ⟨u, hu, hcontains⟩ := hlater
  exact ⟨u, (Nat.le_add_right _ _).trans hu, hcontains⟩

theorem keeps_call : Keeps c call := reads_call.keeps

theorem keeps_writeBlocks : Keeps c (writeBlocks run) := by
  refine keeps_bind (fun o m => .modify fun s hs => ?_) fun _ => keeps_call
  exact ⟨hs.env, hs.others, hs.flags, hs.object, hs.enough, hs.coming⟩

theorem triple_change {g : FileState → FileState}
    (hg : ∀ s, g s = { s with object := (g s).object }) {f : FileObject → FileObject} (hf : ∀ s, (g s).object = f s.object) :
    Triple (Purse c o m) (modify g : FileM Unit) (fun _ => Purse c (f o) m) Always := by
  apply Triple.modify
  intro s hs
  obtain ⟨henv, hothers, hflags, hobject, henough, hcoming⟩ := hs
  rw [hg s, hf s, hobject]
  exact ⟨henv, hothers, hflags, rfl, henough, hcoming⟩

theorem triple_allocRun (wanted : Nat) :
    Triple (Purse c o m) (allocRun wanted) (fun run => Purse c o (m + hits c.block run)) Always := by
  apply triple_request.bind
  intro answer
  have hless : hits c.block ⟨max 1 answer.block, max 1 (min wanted answer.count)⟩ ≤ hits c.block answer.run :=
    hits_mono _ (by omega)
  apply Triple.bind (Q := fun _ => Purse c o (m + hits c.block answer.run))
  · apply Triple.modify
    intro s hs
    exact ⟨hs.env, hs.others, hs.flags, hs.object, hs.enough, hs.coming⟩
  · exact fun _ => .pure fun s hs => hs.mono (by omega)

theorem triple_allocBlock :
    Triple (Purse c o m) allocBlock (fun block => Purse c o (m + [block].count c.block)) Always := by
  apply (triple_allocRun 1).bind
  intro run
  apply triple_check
  intro hcount
  apply Triple.pure
  intro s hs
  rw [← hits_block, show (⟨run.start, 1⟩ : Segment) = run by rw [← not_not.mp hcount]]
  exact hs

theorem gone_append (s : FileState) (run : Segment) (b : Nat) :
    FileState.gone { s with freed := s.freed ++ [run] } b ≤ s.gone b + hits b run := by
  simp only [FileState.gone, hits, Segment.covers_append, Segment.covers_cons, Segment.covers_nil, Bool.or_false,
    Bool.or_eq_true]
  split
  · rename_i h
    rcases h with h | h
    · rw [if_pos h]
      omega
    · rw [if_pos h]
      omega
  · omega

theorem triple_freeRun :
    Triple (Purse c o (m + hits c.block run)) (freeRun run) (fun _ => Purse c o m) Always := by
  apply Triple.bind (Q := fun _ => Purse c o m)
  · apply Triple.modify
    intro s hs
    have hgone := gone_append s run c.block
    refine ⟨hs.env, hs.others, hs.flags, hs.object, ?_, fun hc => ?_⟩
    · have := hs.enough
      omega
    · have := hs.coming hc
      omega
  · exact fun _ => keeps_call o m

theorem triple_freeUnsharedLoop (cursor stop : Nat) :
    Triple (Purse c o (m + c.runs [⟨cursor, stop - cursor⟩])) (freeUnsharedLoop fileOtherReferenceCover freeRun cursor stop)
      (fun _ => Purse c o m) Always := by
  fun_induction freeUnsharedLoop fileOtherReferenceCover freeRun cursor stop generalizing m with
  | case1 cursor hlt ihCover ihNext =>
    have hcover {m : Nat} : Triple (Purse c o m) (fileOtherReferenceCover cursor stop)
        (fun found s => Scanned cursor stop c.start.others (cursor, stop) found ∧ Purse c o m s) Always := by
      refine (keeps_call _ _).bind fun _ => .look fun s hs => .pure fun t ht => ⟨?_, ht⟩
      rw [hs.others]
      exact otherReferenceCover_spec _ _ le_rfl hlt hlt
    refine hcover.bind_and fun found hscan => ?_
    obtain ⟨hgrows, hwithin, hgt, hle, -, hclear⟩ := hscan
    dsimp only at hgrows hwithin hgt hle hclear
    have hpart (mid : Nat) (hmid : cursor ≤ mid) (hmid' : mid ≤ stop) :
        c.runs [⟨cursor, stop - cursor⟩] = c.runs [⟨cursor, mid - cursor⟩] + c.runs [⟨mid, stop - mid⟩] := by
      have h := hits_append (b := c.block) cursor (mid - cursor) (stop - mid)
      rw [Nat.add_sub_cancel' hmid, show mid - cursor + (stop - mid) = stop - cursor by omega] at h
      simp only [Ledger.runs, runCount_cons, runCount_nil, h, Nat.add_zero, Nat.mul_add]
    by_cases hcover : cursor < found.1
    · rw [if_pos hcover]
      apply (ihCover found hcover).pre
      intro t ht
      apply ht.mono
      rw [hpart found.1 hcover.le (by omega)]
      omega
    · rw [if_neg hcover, if_neg (by omega)]
      have hown : hits c.block ⟨cursor, found.2 - cursor⟩ ≤ c.runs [⟨cursor, found.2 - cursor⟩] := by
        simp only [Ledger.runs, runCount_cons, runCount_nil, Nat.add_zero]
        rcases c.weight_cases with hone | ⟨_, hreferenced, _⟩
        · rw [hone]
          omega
        · rw [hits_eq, if_neg]
          · exact Nat.zero_le _
          · rintro ⟨hb, hb'⟩
            exact hclear (by omega) c.block hb (by omega) (by omega) hreferenced
      apply Triple.bind (Q := fun _ => Purse c o (m + c.runs [⟨found.2, stop - found.2⟩]))
      · apply (triple_freeRun _).pre
        intro t ht
        apply ht.mono
        rw [hpart found.2 hgt.le hle]
        omega
      · exact fun _ => ihNext found (by omega)
  | case2 => exact .pure fun s hs => hs.mono (by omega)

theorem triple_fileFreeUnsharedRun :
    Triple (Purse c o (m + c.runs [run])) (fileFreeUnsharedRun run) (fun _ => Purse c o m) Always := by
  apply Triple.look
  intro s hs
  apply Triple.ite
  · exact fun _ => .pure fun t ht => ht.mono (by omega)
  · intro _
    apply Triple.ite
    · intro hshared
      apply (triple_freeRun run).pre
      intro t ht
      apply ht.mono
      rcases c.weight_cases with hone | ⟨_, _, henabled⟩
      · simp [Ledger.runs, hone]
      · rw [FileState.enabled, hs.flags] at hshared
        rw [FileState.enabled, hshared] at henabled
        cases henabled
    · intro _
      split
      · exact triple_failed _
      · rename_i stop hstop
        obtain rfl : run.start + run.count = stop := addChecked_eq_some hstop
        have := triple_freeUnsharedLoop (c := c) (o := o) (m := m) run.start (run.start + run.count)
        rwa [Nat.add_sub_cancel_left] at this

theorem triple_freeRuns (rs : List Segment) :
    Triple (Purse c o (m + c.runs rs)) (freeRuns rs) (fun _ => Purse c o m) Always := by
  induction rs generalizing m with
  | nil => exact .done
  | cons run rs ih =>
    rw [runs_cons, Nat.add_comm (c.runs [run]), ← Nat.add_assoc]
    exact (triple_fileFreeUnsharedRun run).bind fun _ => ih

theorem triple_compressionAllocDataExact (wanted : Nat) :
    Triple (Purse c o m) (compressionAllocDataExact wanted) (fun p => Purse c o (m + hits c.block ⟨p, wanted⟩)) Always := by
  apply triple_check
  intro _
  apply (triple_allocRun wanted).bind
  intro run
  apply Triple.ite
  · exact fun _ => (triple_freeRun run).bind fun _ => triple_failed _
  · intro hcount
    apply Triple.pure
    intro s hs
    rw [← not_not.mp hcount]
    exact hs

end Ledger

section Lookups

variable {c : Ledger}

theorem keeps_note (event : FileEvent) : Keeps c (note event) := by
  intro o m
  apply Triple.modify
  intro s hs
  exact ⟨hs.env, hs.others, hs.flags, hs.object, hs.enough, hs.coming⟩

variable {o : FileObject} {m : Nat}

theorem triple_pagedExtentSnapshot :
    Triple (Purse c o m) pagedExtentSnapshot (fun es s => es = o.payload.extentList ∧ Purse c o m s) Always := by
  apply (keeps_call o m).seq
  apply Triple.look
  intro s hs
  apply ((reads_pagedExtentSnapshotLoop _ _).keeps o m).bind
  intro next
  apply triple_check
  exact fun _ => .pure fun t ht => ⟨by rw [hs.object], ht⟩

theorem triple_fileExtentSnapshot :
    Triple (Purse c o m) fileExtentSnapshot (fun es s => es = o.payload.extentList ∧ Purse c o m s) Always := by
  apply Triple.look
  intro s hs
  apply Triple.ite
  · exact fun _ => triple_pagedExtentSnapshot
  · exact fun _ => .pure fun t ht => ⟨by rw [hs.object], ht⟩

end Lookups

section Metadata

variable {c : Ledger} {o : FileObject} {m : Nat}

def chainBlocks (chain : List ChecksumObject) : List Nat := chain.map (·.block)

def Payload.metadata (p : Payload) : List Nat := p.pageList.map (·.block) ++ p.index

theorem metadata_extents (es : List Extent) : (Payload.extents es).metadata = [] := rfl

theorem count_cons_eq (b x : Nat) (xs : List Nat) : (x :: xs).count b = [x].count b + xs.count b := by
  rw [← List.singleton_append, List.count_append]

/-- An account of the blocks in hand, as seen by those who only allocate. -/
structure Account (H : List Nat → FileState → Prop) : Prop where
  less : ∀ {hand hand' s}, (∀ b, hand'.count b ≤ hand.count b) → H hand s → H hand' s
  call : ∀ hand, Triple (H hand) File.call (fun _ => H hand) Always
  write : ∀ hand run, Triple (H hand) (writeBlocks run) (fun _ => H hand) Always
  alloc : ∀ hand, Triple (H hand) allocBlock (fun block => H (block :: hand)) Always

section Account

variable {H : List Nat → FileState → Prop} (hH : Account H) (hand : List Nat)

include hH

theorem Account.metadataPageStore : Triple (H hand) (metadataPageStore none) (fun block => H (block :: hand)) Always := by
  refine .look fun _ _ => ?_
  exact (hH.alloc hand).bind fun block => (hH.write _ _).bind fun _ => .pure fun _ ht => ht

theorem Account.storeIndexPages (n : Nat) : Triple (H hand) (storeIndexPages n) (fun blocks => H (blocks ++ hand)) Always := by
  induction n generalizing hand with
  | zero => exact .pure fun _ hs => hs
  | succ n ih =>
    apply (hH.metadataPageStore hand).bind
    intro block
    apply (ih (block :: hand)).bind
    intro blocks
    exact .pure fun s hs => hH.less (fun b => (List.perm_middle.symm.count_eq b).le) hs

theorem Account.extentPointerTreeBuild (fuel count : Nat) :
    Triple (H hand) (extentPointerTreeBuild fuel count) (fun blocks => H (blocks ++ hand)) Always := by
  induction fuel generalizing count hand with
  | zero => exact triple_failed _
  | succ fuel ih =>
    apply (hH.call hand).seq
    apply (hH.storeIndexPages hand _).bind
    intro blocks
    apply Triple.ite
    · exact fun _ => .pure fun _ hs => hs
    · intro _
      apply (ih (blocks ++ hand) _).bind
      intro above
      refine .pure fun s hs => hH.less (fun b => ?_) hs
      simp only [List.count_append]
      omega

theorem Account.checksumInsert (start : Nat) (chain : List ChecksumObject) :
    Triple (H (chainBlocks chain ++ hand)) (checksumInsert start chain) (fun chain' => H (chainBlocks chain' ++ hand)) Always := by
  induction chain generalizing hand with
  | nil => exact (hH.alloc hand).bind fun _ => .pure fun _ hs => hs
  | cons c chain ih =>
    apply Triple.ite
    · exact fun _ => .pure fun _ hs => hs
    · intro _
      apply Triple.ite
      · exact fun _ => (hH.alloc _).bind fun _ => .pure fun _ hs => hs
      · intro _
        -- the front of the chain is in hand while the rest is searched
        have hmiddle (rest : List ChecksumObject) (b : Nat) :
            (chainBlocks rest ++ c.block :: hand).count b = (chainBlocks (c :: rest) ++ hand).count b :=
          List.perm_middle.count_eq b
        apply Triple.bind ((ih (c.block :: hand)).pre fun s hs => hH.less (fun b => (hmiddle chain b).le) hs)
        exact fun rest => .pure fun s hs => hH.less (fun b => (hmiddle rest b).ge) hs

end Account

theorem account_purse : Account fun hand => Purse c o (m + hand.count c.block) where
  less := fun hle hs => hs.mono (Nat.add_le_add_left (hle _) _)
  call := fun _ => keeps_call _ _
  write := fun _ run => keeps_writeBlocks run _ _
  alloc := fun hand => triple_allocBlock.post fun block s hs => by
    rwa [count_cons_eq, Nat.add_comm ([block].count _), ← Nat.add_assoc]

theorem triple_checksumInsert (start : Nat) (chain : List ChecksumObject) :
    Triple (Purse c o (m + (chainBlocks chain).count c.block)) (checksumInsert start chain)
      (fun chain' => Purse c o (m + (chainBlocks chain').count c.block)) Always := by
  have hinsert := account_purse.checksumInsert (H := fun hand => Purse c o (m + hand.count c.block)) [] start chain
  simp only [List.append_nil] at hinsert
  exact hinsert

theorem triple_extentPointerTreeBuild (fuel count : Nat) :
    Triple (Purse c o m) (extentPointerTreeBuild fuel count) (fun blocks => Purse c o (m + blocks.count c.block)) Always := by
  have hbuild := account_purse.extentPointerTreeBuild (H := fun hand => Purse c o (m + hand.count c.block)) [] fuel count
  simp only [List.append_nil] at hbuild
  exact hbuild

theorem triple_checksumDestroyLoop (guard : Nat) (chain : List ChecksumObject) :
    Triple (Purse c o (m + (chainBlocks chain).count c.block)) (checksumDestroyLoop guard chain)
      (fun _ => Purse c o m) Always := by
  induction chain generalizing guard m with
  | nil =>
    cases guard with
    | zero => exact .done
    | succ guard => exact .done
  | cons x chain ih =>
    cases guard with
    | zero => exact triple_failed _
    | succ guard =>
      apply (keeps_call _ _).seq
      simp only [chainBlocks, List.map_cons] at ih ⊢
      rw [count_cons_eq, ← hits_block, Nat.add_comm (hits _ _), ← Nat.add_assoc]
      exact (triple_freeRun _).bind fun _ => ih guard

theorem triple_freeEach {before : FileM Unit} (h : Keeps c before) (blocks : List Nat) :
    Triple (Purse c o (m + blocks.count c.block)) (freeEach before blocks) (fun _ => Purse c o m) Always := by
  induction blocks generalizing m with
  | nil => exact .done
  | cons block blocks ih =>
    rw [count_cons_eq, ← hits_block, Nat.add_comm (hits _ _), ← Nat.add_assoc]
    exact (h _ _).bind fun _ => (triple_freeRun _).bind fun _ => ih

theorem triple_metadataPageStore (old : Option Nat) :
    Triple (Purse c o (m + old.toList.count c.block)) (metadataPageStore old)
      (fun block => Purse c o (m + [block].count c.block)) Always := by
  apply Triple.look
  intro s hs
  cases old with
  | none => exact triple_allocBlock.bind fun _ => (keeps_writeBlocks _ _ _).bind fun _ => .pure fun _ ht => ht
  | some block =>
    apply Triple.ite
    · exact fun _ => (keeps_writeBlocks _ _ _).bind fun _ => .pure fun _ ht => ht
    · intro _
      apply triple_allocBlock.bind
      intro new
      apply (keeps_writeBlocks _ _ _).seq
      apply Triple.bind (Q := fun _ => Purse c o (m + [new].count c.block))
      · apply (triple_freeRun _).pre
        intro t ht
        apply ht.mono
        rw [hits_block, Option.toList_some]
        omega
      · exact fun _ => .pure fun _ ht => ht

theorem triple_storePages (old : List Nat) (pages : List (List Extent)) :
    Triple (Purse c o (m + old.count c.block)) (storePages old pages)
      (fun stored s => stored.map (·.extents) = pages ∧
        Purse c o (m + (old.drop pages.length).count c.block + (stored.map (·.block)).count c.block) s) Always := by
  induction pages generalizing old m with
  | nil => exact .pure fun s hs => ⟨rfl, by simpa using hs⟩
  | cons entries rest ih =>
    apply (keeps_call _ _).seq
    have hsplit : old.count c.block = old.tail.count c.block + old.head?.toList.count c.block := by
      cases old with
      | nil => rfl
      | cons x xs => rw [count_cons_eq, List.tail_cons, List.head?_cons, Option.toList_some, Nat.add_comm]
    rw [hsplit, ← Nat.add_assoc]
    apply (triple_metadataPageStore _).bind
    intro block
    rw [Nat.add_right_comm]
    apply (ih old.tail).bind_and
    intro stored hstored
    apply Triple.pure
    intro s hs
    refine ⟨by rw [List.map_cons, hstored], ?_⟩
    rw [List.map_cons, count_cons_eq, List.length_cons, ← List.drop_tail]
    apply hs.mono
    dsimp only
    omega

theorem triple_pagedExtentDestroyPages :
    Triple (Purse c o (m + o.payload.metadata.count c.block)) pagedExtentDestroyPages (fun _ => Purse c o m) Always := by
  apply Triple.look
  intro s hs
  apply Triple.ite
  · exact fun _ => .pure fun t ht => ht.mono (by omega)
  · intro _
    apply (keeps_call _ _).seq
    rw [hs.object, Payload.metadata, List.count_append, Nat.add_comm (List.count _ _), ← Nat.add_assoc]
    exact (triple_freeEach (keeps_pure ()) _).bind fun _ => triple_freeEach keeps_call _

end Metadata

end InfiltratorFS.File
