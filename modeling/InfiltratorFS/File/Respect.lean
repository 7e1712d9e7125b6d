import InfiltratorFS.File.Quiet

namespace InfiltratorFS.File

open Prog

section Events

def Contains (start count : Nat) (entries : List Extent) : Prop :=
  ∀ e ∈ entries, e.isCompressed = true → e.logicalBlock < start + count → start < e.stop →
    start ≤ e.logicalBlock ∧ e.stop ≤ start + count

def FileEvent.Respects : FileEvent → Prop
  | .replace start count entries => Contains start count entries
  | .retain e retained => e.isCompressed = true → retained = e.blockCount
  | .remap flags => extentIsCompressed flags = false

def Plain (lo hi : Nat) (entries : List Extent) : Prop :=
  ∀ e ∈ entries, e.isCompressed = true → ∀ b, lo ≤ b → b < hi → holds b e = false

structure Clean (blocks lo hi : Nat) (p : Payload) : Prop where
  tiled : Tiled blocks p.extentList
  plain : Plain lo hi p.extentList

/-- The state between two steps of an operation, with what is known of the
extents of the file. -/
structure Ready (env : Nat → Answer) (known : Payload → Prop) (s : FileState) : Prop where
  env_eq : s.env = env
  respected : ∀ event ∈ s.events, event.Respects
  payload : known s.object.payload

def Blameless (env : Nat → Answer) (e : Status) (s : FileState) : Prop :=
  (∀ event ∈ s.events, event.Respects) ∧ (e = .notSupported → ∃ t, (env t).status = .notSupported)

theorem holds_iff {b : Nat} {e : Extent} : holds b e = true ↔ e.logicalBlock ≤ b ∧ b < e.stop := by
  simp only [holds, Bool.and_eq_true, decide_eq_true_eq]

theorem plain_empty (lo : Nat) (entries : List Extent) : Plain lo lo entries :=
  fun _ _ _ _ hlo hhi => absurd hlo (by omega)

variable {entries : List Extent} {known known' : Payload → Prop}

theorem Plain.mono {lo hi lo' hi' : Nat} (h : Plain lo hi entries) (hlo : lo ≤ lo')
    (hhi : hi' ≤ hi) : Plain lo' hi' entries :=
  fun e he hc b hb hb' => h e he hc b (hlo.trans hb) (hb'.trans_le hhi)

theorem Plain.union {lo mid mid' hi : Nat} (h : Plain lo mid entries)
    (h' : Plain mid' hi entries) (hmid : mid' ≤ mid) : Plain lo hi entries := by
  intro e he hc b hb hb'
  by_cases hbm : b < mid
  · exact h e he hc b hb hbm
  · exact h' e he hc b (by omega) hb'

theorem Plain.contains {lo hi : Nat} {blocks : Nat} (h : Plain lo hi entries)
    (htiled : Tiled blocks entries) {start count : Nat} (hcount : 0 < count) (hlo : lo ≤ start)
    (hhi : start + count ≤ hi) : Contains start count entries := by
  intro e he hc hbefore hafter
  have hpos := (htiled.mem_bounds he).2.1
  -- a block of the overlap would be plain
  have hb := h e he hc (max e.logicalBlock start) (by omega) (by omega)
  have hb' : holds (max e.logicalBlock start) e = true := by
    rw [holds_iff]
    simp only [Extent.segment_count, Extent.stop] at hpos hafter ⊢
    omega
  rw [hb] at hb'
  cases hb'

theorem Ready.same {env : Nat → Answer} {s t : FileState} (h : Ready env known s)
    (hst : s.Same t) : Ready env known t :=
  ⟨hst.env.trans h.env_eq, hst.events ▸ h.respected, hst.payload ▸ h.payload⟩

theorem Ready.mono {env : Nat → Answer} {s : FileState} (h : Ready env known s)
    (hknown : ∀ p, known p → known' p) : Ready env known' s :=
  ⟨h.env_eq, h.respected, hknown _ h.payload⟩

variable {α : Type} {env : Nat → Answer} {known : Payload → Prop} {e : Status} {x : FileM α} {Q : α → FileState → Prop}

theorem Ready.blameless {s : FileState} (h : Ready env known s) (he : e ≠ .notSupported) :
    Blameless env e s :=
  ⟨h.respected, fun h' => absurd h' he⟩

theorem triple_at {E : Status → FileState → Prop}
    (h : ∀ p, known p → Triple (Ready env (· = p)) x Q E) : Triple (Ready env known) x Q E :=
  fun s hs => h _ hs.payload s ⟨hs.env_eq, hs.respected, rfl⟩

/-- A run respects the compressed extents and leaves the payload as the second
predicate says. -/
abbrev Upholds (env : Nat → Answer) (known : Payload → Prop) (x : FileM α) (known' : Payload → Prop) : Prop :=
  Triple (Ready env known) x (fun _ => Ready env known') (Blameless env)

theorem Quiet.triple (hx : Quiet x) :
    Upholds env known x known := by
  intro s hs
  obtain ⟨hsame, herror⟩ := hx s
  refine ⟨fun a t hrun => ?_, fun e t hrun => ?_⟩
  · rw [hrun] at hsame
    exact hs.same hsame
  · rw [hrun] at hsame herror
    refine ⟨hsame.events ▸ hs.respected, fun he => ?_⟩
    rw [← hs.env_eq]
    exact herror (by rw [he])

theorem Quiet.seq {β : Type} {f : α → FileM β} {R : β → FileState → Prop} (hx : Quiet x)
    (hf : ∀ a, Triple (Ready env known) (f a) R (Blameless env)) : Triple (Ready env known) (x >>= f) R (Blameless env) :=
  Triple.bind hx.triple hf

theorem Quiet.spec {p : Payload} {Φ : α → Prop} (hx : Quiet x)
    (hΦ : ∀ s a t, s.object.payload = p → x s = (.ok a, t) → Φ a) :
    Triple (Ready env (· = p)) x (fun a s => Φ a ∧ Ready env (· = p) s) (Blameless env) := by
  intro s hs
  obtain ⟨hok, herror⟩ := hx.triple s hs
  exact ⟨fun a t hrun => ⟨hΦ s a t hs.payload hrun, hok a t hrun⟩, herror⟩

theorem triple_fail (he : e ≠ .notSupported) :
    Triple (Ready env known) (fail e) Q (Blameless env) :=
  Triple.fail fun _ hs => hs.blameless he

theorem triple_guard {c : Prop} [Decidable c] (he : e ≠ .notSupported)
    (hx : ¬c → Triple (Ready env known) x Q (Blameless env)) :
    Triple (Ready env known) (if c then fail e else x) Q (Blameless env) :=
  Triple.guard hx fun _ hs => hs.blameless he

theorem triple_note {event : FileEvent} (h : event.Respects) :
    Upholds env known (note event) known := by
  refine .modify fun s hs => ⟨hs.env_eq, fun event' he => ?_, hs.payload⟩
  rcases List.mem_append.mp he with he | he
  · exact hs.respected event' he
  · rw [List.mem_singleton.mp he]
    exact h

theorem triple_setPayload {p : Payload} (h : known' p) :
    Upholds env known (modify fun s => s.setPayload p) known' :=
  Triple.modify fun _ hs => ⟨hs.env_eq, hs.respected, h⟩

end Events

section Lookups

variable {s t : FileState} {entries : List Extent} {logical : Nat} {e : Extent}

theorem payload_of_quiet {α : Type} {x : FileM α} (hx : Quiet x) {r : Except Status α}
    (h : x s = (r, t)) : t.object.payload = s.object.payload := by
  have := (hx s).1.payload
  rwa [h] at this

theorem pagedExtentLoadPage_ok {index : Nat}
    (h : pagedExtentLoadPage index s = (.ok entries, t)) : ∃ page ∈ s.object.payload.pageList, page.extents = entries := by
  obtain ⟨_, u, hcall, h⟩ := bind_eq_ok.mp h
  rw [bind_of_ok (get_apply u)] at h
  rw [← payload_of_quiet tame_call.quiet hcall]
  cases hpage : u.object.payload.pageList[index]? with
  | none =>
    rw [hpage] at h
    cases h
  | some page =>
    rw [hpage] at h
    simp only at h
    split at h
    · cases h
    · cases h
      exact ⟨page, List.mem_of_getElem? hpage, rfl⟩

theorem pagedExtentFindPage_ok {low high : Nat}
    (h : pagedExtentFindPage logical low high s = (.ok entries, t)) :
    ∃ page ∈ s.object.payload.pageList, page.extents = entries := by
  fun_induction pagedExtentFindPage logical low high generalizing s with
  | case1 =>
    rename_i ihLow ihHigh
    obtain ⟨found, u, hload, h⟩ := bind_eq_ok.mp h
    have hpayload := payload_of_quiet (reads_pagedExtentLoadPage _).quiet hload
    split at h
    · rw [← hpayload]
      exact ihLow h
    · split at h
      · rw [← hpayload]
        exact ihHigh h
      · cases h
        exact pagedExtentLoadPage_ok hload
  | case2 => cases h

theorem Payload.mem_extentList_of_page {payload : Payload} {page : ExtentPage} (hpage : page ∈ payload.pageList)
    (he : e ∈ page.extents) : e ∈ payload.extentList := by
  cases payload with
  | inline => cases hpage
  | extents entries => cases hpage
  | pages list index => exact List.mem_flatMap.mpr ⟨page, hpage, he⟩

theorem lookupEntries_ok (h : lookupEntries logical s = (.ok entries, t)) : ∀ e ∈ entries, e ∈ s.object.payload.extentList := by
  rw [lookupEntries, bind_of_ok (get_apply s)] at h
  cases hpaged : s.object.payload.isPaged with
  | false =>
    rw [hpaged] at h
    cases h
    exact fun _ he => he
  | true =>
    rw [hpaged, if_pos rfl, pagedEntries, bind_of_ok (get_apply s)] at h
    obtain ⟨page, hpage, rfl⟩ := pagedExtentFindPage_ok h
    exact fun e he => Payload.mem_extentList_of_page hpage he

theorem fileMapBlock_ok {mapped : Nat × UInt32}
    (h : fileMapBlock logical s = (.ok mapped, t)) :
    ∃ e ∈ s.object.payload.extentList, holds logical e = true ∧ mapped = (mappedBlock logical e, e.flags) := by
  rw [fileMapBlock, bind_of_ok (get_apply s)] at h
  obtain ⟨entries, u, hentries, h⟩ := bind_eq_ok.mp h
  cases hfind : entries.find? (holds logical) with
  | none =>
    rw [hfind] at h
    cases h
  | some e =>
    refine ⟨e, lookupEntries_ok hentries e (List.mem_of_find?_eq_some hfind), List.find?_some hfind, ?_⟩
    rw [hfind] at h
    simp only at h
    split at h
    · obtain ⟨_, _, _, h⟩ := bind_eq_ok.mp h
      cases h
      rfl
    · cases h
      rfl

theorem extentLookup_ok
    (h : extentLookup logical entries = .ok e) : e ∈ entries ∧ holds logical e = true := by
  induction entries with
  | nil => cases h
  | cons x xs ih =>
    rw [extentLookup] at h
    cases hstop : addChecked x.logicalBlock x.blockCount with
    | none =>
      rw [hstop] at h
      cases h
    | some stop =>
      rw [hstop] at h
      simp only at h
      obtain rfl : x.stop = stop := addChecked_eq_some hstop
      by_cases hin : x.logicalBlock ≤ logical ∧ logical < x.stop
      · rw [if_pos hin] at h
        cases h
        exact ⟨List.mem_cons_self, holds_iff.mpr hin⟩
      · rw [if_neg hin] at h
        obtain ⟨he, hholds⟩ := ih h
        exact ⟨List.mem_cons_of_mem _ he, hholds⟩

theorem fileExtentLookup_ok
    (h : fileExtentLookup logical s = (.ok e, t)) : e ∈ s.object.payload.extentList ∧ holds logical e = true := by
  obtain ⟨entries, u, hentries, h⟩ := bind_eq_ok.mp h
  rw [ofExcept_apply] at h
  obtain ⟨he, hholds⟩ := extentLookup_ok (Prod.mk.inj h).1
  exact ⟨lookupEntries_ok hentries e he, hholds⟩

theorem holeBlocks_ok {count : Nat} (h : holeBlocks logical s = (.ok count, t))
    (hcount : count ≠ 0) :
    ∃ e ∈ s.object.payload.extentList, holds logical e = true ∧ e.flags = extentHole ∧ count = e.stop - logical := by
  obtain ⟨entries, u, hentries, h⟩ := bind_eq_ok.mp h
  cases hfind : entries.find? (holds logical) with
  | none =>
    rw [hfind] at h
    cases h
    exact absurd rfl hcount
  | some e =>
    rw [hfind] at h
    simp only at h
    split at h
    · cases h
    · cases h
      exact ⟨e, lookupEntries_ok hentries e (List.mem_of_find?_eq_some hfind), List.find?_some hfind,
        not_not.mp ‹_›, rfl⟩

theorem pagedExtentSnapshot_ok (h : pagedExtentSnapshot s = (.ok entries, t)) : entries = s.object.payload.extentList := by
  obtain ⟨_, u, hcall, h⟩ := bind_eq_ok.mp h
  rw [bind_of_ok (get_apply u)] at h
  obtain ⟨next, w, _, h⟩ := bind_eq_ok.mp h
  rw [← payload_of_quiet tame_call.quiet hcall]
  split at h
  · cases h
  · cases h
    rfl

theorem triple_snapshot {β : Type} {env : Nat → Answer} {p : Payload} {f : List Extent → FileM β} {Q : β → FileState → Prop}
    (h : Triple (Ready env (· = p)) (f p.extentList) Q (Blameless env)) :
    Triple (Ready env (· = p)) (pagedExtentSnapshot >>= f) Q (Blameless env) :=
  Triple.bind_and (reads_pagedExtentSnapshot.quiet.spec fun _ _ _ hp hrun => (pagedExtentSnapshot_ok hrun).trans (by rw [hp]))
    fun _ hold => hold ▸ h

theorem fileLogicalBlocksVolume_ok {count : Nat} (h : fileLogicalBlocksVolume s = (.ok count, t)) :
    count = if s.object.payload.extentList.isEmpty then 0 else lastStop s.object.payload.extentList := by
  rw [fileLogicalBlocksVolume, bind_of_ok (get_apply s)] at h
  cases hpaged : s.object.payload.isPaged with
  | false =>
    rw [hpaged] at h
    cases h
    rfl
  | true =>
    rw [hpaged] at h
    obtain ⟨entries, u, hentries, h⟩ := bind_eq_ok.mp h
    rw [pagedExtentSnapshot_ok hentries] at h
    cases h
    rfl

theorem Tiled.lastStop {blocks : Nat} (h : Tiled blocks entries) :
    (if entries.isEmpty then 0 else lastStop entries) = blocks := by
  rcases List.eq_nil_or_concat entries with rfl | ⟨front, last, rfl⟩
  · exact h
  · rw [List.concat_eq_append] at h ⊢
    obtain ⟨_, _, hstop⟩ := Tiles.concat_iff.mp h
    simpa [File.lastStop] using hstop

end Lookups

section Rebuild

/-- Where the rebuilt extents end once the old ones are read up to a block. -/
def rebuiltEnd (new : Extent) (c : Nat) : Nat := if c ≤ new.logicalBlock then c else max c new.stop

/-- The rebuilt extents once the old ones are read up to a block: gapless, and
compressed only where they are new or untouched. -/
structure Rebuilt (new : Extent) (all : List Extent) (c : Nat) (acc : Rebuild) : Prop where
  tiles : Tiled (rebuiltEnd new c) acc.out
  emitted : acc.emitted = decide (new.logicalBlock < c)
  compressed : ∀ x ∈ acc.out, x.isCompressed = true →
    x = new ∨ (x ∈ all ∧ (x.stop ≤ new.logicalBlock ∨ new.stop ≤ x.logicalBlock))

variable {env : Nat → Answer} {known : Payload → Prop} {new e : Extent} {all : List Extent} {acc : Rebuild}
  {capacity : Nat} {release : List Segment → FileM Unit}

theorem Rebuilt.keep {out : List Extent} (h : Rebuilt new all e.logicalBlock acc) (hnew : 0 < new.blockCount)
    (hpos : 0 < e.blockCount) (he : e ∈ all) (hdisjoint : e.stop ≤ new.logicalBlock ∨ new.stop ≤ e.logicalBlock)
    (hemit : extentEmitCapacity acc.out capacity e = .ok out) : Rebuilt new all e.stop { acc with out := out } := by
  have hstop : e.stop = e.logicalBlock + e.blockCount := rfl
  have hnewStop : new.stop = new.logicalBlock + new.blockCount := rfl
  have hend : rebuiltEnd new e.logicalBlock = e.logicalBlock := by
    rw [rebuiltEnd]
    split <;> omega
  have hend' : rebuiltEnd new e.stop = e.stop := by
    rw [rebuiltEnd]
    split <;> omega
  refine ⟨?_, ?_, fun x hx hc => ?_⟩
  · rw [hend']
    exact tiles_emit hpos hemit (hend ▸ h.tiles)
  · refine h.emitted.trans ?_
    rw [decide_eq_decide]
    omega
  · rcases compressed_of_emit hemit hx hc with hx | ⟨rfl, _⟩
    · exact h.compressed x hx hc
    · exact .inr ⟨he, hdisjoint⟩

theorem Rebuilt.cut {out1 out2 out3 : List Extent} {tail : Extent} {released : List Segment}
    (h : Rebuilt new all e.logicalBlock acc) (hnew : 0 < new.blockCount)
    (hbefore : new.logicalBlock < e.stop) (hafter : e.logicalBlock < new.stop)
    (hplain : e.isCompressed = true → new.logicalBlock ≤ e.logicalBlock ∧ e.stop ≤ new.stop)
    (hhead : extentEmitCapacity acc.out capacity { e with blockCount := new.logicalBlock - e.logicalBlock } = .ok out1)
    (hmid : (if acc.emitted then .ok out1 else extentEmitCapacity out1 capacity new) = .ok out2)
    (htail : extentEmitCapacity out2 capacity tail = .ok out3) (htailStart : tail.logicalBlock = new.stop)
    (htailCount : tail.blockCount = e.stop - new.stop) (htailFlags : tail.flags = e.flags) :
    Rebuilt new all e.stop ⟨out3, true, released⟩ := by
  have hnewStop : new.stop = new.logicalBlock + new.blockCount := rfl
  -- the part before the range
  have htiles1 : Tiled (if new.logicalBlock < e.logicalBlock then new.stop else new.logicalBlock) out1 := by
    by_cases hlt : e.logicalBlock < new.logicalBlock
    · rw [if_neg (by omega)]
      have hend : rebuiltEnd new e.logicalBlock = e.logicalBlock := if_pos (by omega)
      have := tiles_emit (show 0 < new.logicalBlock - e.logicalBlock by omega) hhead (hend ▸ h.tiles)
      rwa [show Extent.stop { e with blockCount := new.logicalBlock - e.logicalBlock } = new.logicalBlock from
        Nat.add_sub_cancel' hlt.le] at this
    · rw [extentEmitCapacity_zero (show new.logicalBlock - e.logicalBlock = 0 by omega) hhead]
      have hend : rebuiltEnd new e.logicalBlock =
          if new.logicalBlock < e.logicalBlock then new.stop else new.logicalBlock := by
        rw [rebuiltEnd]
        split <;> split <;> omega
      exact hend ▸ h.tiles
  have htiles2 : Tiled new.stop out2 := by
    rw [h.emitted] at hmid
    by_cases hlt : new.logicalBlock < e.logicalBlock
    · rw [if_pos (decide_eq_true hlt)] at hmid
      cases hmid
      rwa [if_pos hlt] at htiles1
    · rw [decide_eq_false hlt, if_neg Bool.false_ne_true] at hmid
      rw [if_neg hlt] at htiles1
      exact tiles_emit hnew hmid htiles1
  have hend : rebuiltEnd new e.stop = max e.stop new.stop := if_neg (by omega)
  refine ⟨?_, (decide_eq_true hbefore).symm, fun x hx hc => ?_⟩
  · rw [hend]
    by_cases hlt : new.stop < e.stop
    · have := tiles_emit (by omega) htail (htailStart ▸ htiles2)
      rwa [show tail.stop = max e.stop new.stop by rw [Extent.stop]; omega] at this
    · rw [extentEmitCapacity_zero (by omega) htail, max_eq_right (by omega)]
      exact htiles2
  · -- the parts of a compressed extent are empty
    have hout2 : x ∈ out2 → x = new ∨ (x ∈ all ∧ (x.stop ≤ new.logicalBlock ∨ new.stop ≤ x.logicalBlock)) := by
      intro hx2
      have hx1 : x ∈ out1 ∨ x = new := by
        by_cases hemitted : acc.emitted = true
        · rw [if_pos hemitted] at hmid
          cases hmid
          exact .inl hx2
        · rw [if_neg hemitted] at hmid
          exact (compressed_of_emit hmid hx2 hc).imp_right And.left
      rcases hx1 with hx1 | rfl
      · rcases compressed_of_emit hhead hx1 hc with hx0 | ⟨rfl, hcount⟩
        · exact h.compressed x hx0 hc
        · have := (hplain hc).1
          simp only at hcount
          omega
      · exact .inl rfl
    rcases compressed_of_emit htail hx hc with hx2 | ⟨rfl, hcount⟩
    · exact hout2 hx2
    · have := (hplain (by rw [Extent.isCompressed, ← htailFlags]; exact hc)).2
      omega

theorem replaceExtent_spec (hrelease : ∀ runs, Quiet (release runs))
    (hnew : 0 < new.blockCount) (hcontains : Contains new.logicalBlock new.blockCount all) (he : e ∈ all)
    (hpos : 0 < e.blockCount) (hacc : Rebuilt new all e.logicalBlock acc) :
    Triple (Ready env known) (replaceExtent new capacity release acc e)
      (fun acc' s => Rebuilt new all e.stop acc' ∧ Ready env known s) (Blameless env) := by
  have hemitted (out : List Extent) (x : Extent) (s : FileState) (status : Status)
      (h : extentEmitCapacity out capacity x = .error status) (hs : Ready env known s) : Blameless env status s :=
    hs.blameless fun hstatus => extentEmitCapacity_ne out capacity x (hstatus ▸ h)
  rw [replaceExtent]
  cases hstop : addChecked e.logicalBlock e.blockCount with
  | none => exact triple_fail (by decide)
  | some stop =>
    obtain rfl : e.stop = stop := addChecked_eq_some hstop
    simp only [Extent.segment_start, Extent.segment_stop]
    refine .ite (fun hdisjoint => ?_) fun hoverlap => .ite (fun hcut => ?_) fun hwhole => ?_
    · refine .ofExcept_bind (fun out hout => ?_) fun status s hout hs => hemitted _ _ s status hout hs
      exact .pure fun _ hs => ⟨hacc.keep hnew hpos he hdisjoint hout, hs⟩
    · -- the refusal, which the range rules out
      have := hcontains e he hcut.1
      have hnewStop : new.stop = new.logicalBlock + new.blockCount := rfl
      omega
    · have hnewStop : new.stop = new.logicalBlock + new.blockCount := rfl
      have hplain : e.isCompressed = true → new.logicalBlock ≤ e.logicalBlock ∧ e.stop ≤ new.stop := by
        intro hc
        have := hcontains e he hc
        omega
      refine .ofExcept_bind (fun out1 hhead => ?_) fun status s hout hs => hemitted _ _ s status hout hs
      refine .ofExcept_bind (fun out2 hmid => ?_) fun status s hout hs => ?_
      · refine .bind (hrelease _).triple fun _ => ?_
        refine .ofExcept_bind (fun out3 hout => ?_) fun status s hout hs => hemitted _ _ s status hout hs
        exact .pure fun _ hs => ⟨hacc.cut hnew (by omega) (by omega) hplain hhead hmid hout rfl rfl rfl, hs⟩
      · by_cases hdone : acc.emitted = true
        · rw [if_pos hdone] at hout
          cases hout
        · rw [if_neg hdone] at hout
          exact hemitted _ _ s status hout hs

theorem replaceLoop_spec (hrelease : ∀ runs, Quiet (release runs))
    (hnew : 0 < new.blockCount) (hcontains : Contains new.logicalBlock new.blockCount all) {rest : List Extent} {c stop : Nat}
    (hrest : ∀ x ∈ rest, x ∈ all) (htiles : Tiles Extent.segment c stop rest) (hacc : Rebuilt new all c acc) :
    Triple (Ready env known) (replaceLoop new capacity release acc rest)
      (fun acc' s => Rebuilt new all stop acc' ∧ Ready env known s) (Blameless env) := by
  induction rest generalizing acc c with
  | nil =>
    obtain rfl : c = stop := htiles
    exact .pure fun _ hs => ⟨hacc, hs⟩
  | cons e rest ih =>
    obtain ⟨rfl, hpos, htiles⟩ := htiles
    refine .bind (replaceExtent_spec hrelease hnew hcontains (hrest e List.mem_cons_self) hpos hacc) fun acc' => ?_
    exact .of_and fun hacc' => ih (fun x hx => hrest x (List.mem_cons_of_mem _ hx)) htiles hacc'

end Rebuild

section ReplaceRange

variable {env : Nat → Answer} {known : Payload → Prop} {blocks : Nat}

theorem storePages_ok {old : List Nat} {pages : List (List Extent)} {s t : FileState} {stored : List ExtentPage}
    (h : storePages old pages s = (.ok stored, t)) : stored.map (·.extents) = pages := by
  induction pages generalizing old s stored with
  | nil =>
    cases h
    rfl
  | cons entries rest ih =>
    obtain ⟨_, _, _, h⟩ := bind_eq_ok.mp h
    obtain ⟨block, _, _, h⟩ := bind_eq_ok.mp h
    obtain ⟨tail, _, htail, h⟩ := bind_eq_ok.mp h
    cases h
    rw [List.map_cons, ih htail]

theorem pagedExtentRewriteAll_spec (known' : Payload → Prop) {entries : List Extent} (converting : Bool)
    (h : ∀ pages index, (Payload.pages pages index).extentList = entries → known' (.pages pages index)) :
    Upholds env known (pagedExtentRewriteAll entries converting) known' := by
  refine triple_guard (by decide) fun _ => triple_guard (by decide) fun _ => ?_
  refine tame_call.quiet.seq fun _ => triple_at fun p hp => .look fun s _ => ?_
  refine .bind ((tame_storePages _ _).quiet.spec fun _ _ _ _ hrun => storePages_ok hrun) fun stored => ?_
  refine .of_and fun hstored => (tame_freeEach (tame_pure ()) _).quiet.seq fun _ =>
    (tame_freeEach tame_call _).quiet.seq fun _ => ?_
  have hset (index : List Nat) : Upholds env (· = p) (modify fun s => s.setPayload (.pages stored index)) known' := by
    refine triple_setPayload (h stored index ?_)
    rw [Payload.extentList, List.flatMap_def, hstored, paginate_flatten]
  exact .branch (hset []) ((tame_extentPointerTreeBuild _ _).quiet.seq fun index => hset index)

structure Replaced (blocks : Nat) (new : Extent) (p p' : Payload) : Prop where
  tiled : Tiled blocks p'.extentList
  compressed : ∀ x ∈ p'.extentList, x.isCompressed = true →
    x = new ∨ (x ∈ p.extentList ∧ (x.stop ≤ new.logicalBlock ∨ new.stop ≤ x.logicalBlock))

theorem rebuilt_start (new : Extent) (all : List Extent) : Rebuilt new all 0 ⟨[], false, []⟩ := by
  refine ⟨?_, by simp, by simp⟩
  rw [rebuiltEnd, if_pos (Nat.zero_le _)]
  exact rfl

theorem Rebuilt.replaced {new : Extent} {p p' : Payload} {acc : Rebuild} (hnew : 0 < new.blockCount)
    (hstop : new.stop ≤ blocks) (h : Rebuilt new p.extentList blocks acc) (hp' : p'.extentList = acc.out) :
    Replaced blocks new p p' := by
  have hend : rebuiltEnd new blocks = blocks := by
    have hnewStop : new.stop = new.logicalBlock + new.blockCount := rfl
    rw [rebuiltEnd]
    split <;> omega
  exact ⟨hp' ▸ hend ▸ h.tiles, hp' ▸ h.compressed⟩

variable {p : Payload} {start count physical : Nat} {flags : UInt32}

theorem fileReplaceRange_spec (hcount : 0 < count) (hstop : start + count ≤ blocks) (htiled : Tiled blocks p.extentList)
    (hcontains : Contains start count p.extentList) :
    Upholds env (· = p) (fileReplaceRange start count physical flags) (Replaced blocks ⟨start, physical, count, flags⟩ p) := by
  refine .look fun s hs => ?_
  rw [hs.payload]
  refine .bind (triple_note hcontains) fun _ => triple_guard (by decide) fun _ => ?_
  refine .ite (fun hpaged => ?_) fun hpaged => ?_
  · refine triple_snapshot (triple_guard (by decide) fun _ => tame_call.quiet.seq fun _ => ?_)
    refine .bind_and (replaceLoop_spec (fun runs => (tame_freeRuns runs).quiet) hcount hcontains (fun _ hx => hx) htiled
      (rebuilt_start _ _)) fun acc hacc => triple_guard (by decide) fun _ => ?_
    exact pagedExtentRewriteAll_spec _ false fun pages index hlist => hacc.replaced hcount hstop hlist
  · refine .look fun s hs => ?_
    rw [hs.payload]
    refine tame_call.quiet.seq fun _ => ?_
    refine .bind_and (replaceLoop_spec (fun _ => quiet_pure ()) hcount hcontains (fun _ hx => hx) htiled
      (rebuilt_start _ _)) fun acc hacc => triple_guard (by decide) fun _ => ?_
    refine .branch ?_ ?_
    · exact .bind (triple_setPayload (hacc.replaced hcount hstop rfl)) fun _ => (tame_freeRuns _).quiet.triple
    · exact .bind (pagedExtentRewriteAll_spec _ true fun pages index hlist => hacc.replaced hcount hstop hlist)
        fun _ => (tame_freeRuns _).quiet.triple

end ReplaceRange

section Grow

variable {env : Nat → Answer} {blocks : Nat}

def Mapped (blocks : Nat) (p : Payload) : Prop := Tiled blocks p.extentList

theorem lastStop_eq {entries : List Extent} (h : Tiled blocks entries) : lastStop entries = blocks := by
  have := Tiled.lastStop h
  cases entries with
  | nil => exact h
  | cons e es => exact this

/-- What a lookup in the extents finds. -/
def mapping (es : List Extent) (b : Nat) : Option (Nat × UInt32) :=
  (es.find? (holds b)).map fun e => (mappedBlock b e, e.flags)

/-- Extents that map the blocks as before and the ones after them to holes. -/
structure Grown (blocks : Nat) (es : List Extent) (n : Nat) (es' : List Extent) : Prop where
  tiled : Tiled n es'
  le : blocks ≤ n
  old : ∀ b < blocks, mapping es' b = mapping es b
  new : ∀ b, blocks ≤ b → b < n → mapping es' b = some (0, extentHole)

theorem mapping_hole {front : List Extent} {start physical count : Nat} (h : Tiled start front) (b : Nat) :
    mapping (front ++ [⟨start, physical, count, extentHole⟩]) b =
      if b < start then mapping front b else if b < start + count then some (0, extentHole) else none := by
  have hholds : holds b ⟨start, physical, count, extentHole⟩ = true ↔ start ≤ b ∧ b < start + count := holds_iff
  have hmapped : mappedBlock b ⟨start, physical, count, extentHole⟩ = 0 :=
    if_pos (show extentKind extentHole = extentHole by decide)
  rw [mapping, List.find?_append, List.find?_singleton]
  simp only [hholds]
  by_cases hb : b < start
  · rw [if_neg (by omega), Option.or_none, if_pos hb, mapping]
  · have hnone : front.find? (holds b) = none := by
      refine List.find?_eq_none.mpr fun e he hfound => ?_
      have hstop : e.stop ≤ start := (h.mem_bounds he).2.2
      have := holds_iff.mp hfound
      omega
    rw [hnone, Option.none_or, if_neg hb]
    by_cases hlt : b < start + count
    · rw [if_pos (by omega), if_pos hlt, Option.map_some, hmapped]
    · rw [if_neg (by omega), if_neg hlt, Option.map_none]

variable {es es' : List Extent} {n c capacity : Nat}

theorem grown_self (h : Tiled n es) : Grown n es n es := ⟨h, le_rfl, fun _ _ => rfl, fun b hlo hhi => by omega⟩

theorem Grown.trans {m : Nat} {last : List Extent} (h : Grown blocks es n es') (h' : Grown n es' m last) : Grown blocks es m last := by
  refine ⟨h'.tiled, h.le.trans h'.le, fun b hb => ?_, fun b hlo hhi => ?_⟩
  · rw [h'.old b (hb.trans_le h.le), h.old b hb]
  · by_cases hb : b < n
    · rw [h'.old b hb, h.new b hlo hb]
    · exact h'.new b (by omega) hhi

theorem grown_append (h : Tiled n es) (hc : 0 < c) : Grown n es (n + c) (es ++ [⟨n, 0, c, extentHole⟩]) := by
  refine ⟨Tiles.concat_iff.mpr ⟨h, hc, rfl⟩, Nat.le_add_right n c, fun b hb => ?_, fun b hlo hhi => ?_⟩
  · rw [mapping_hole h, if_pos hb]
  · rw [mapping_hole h, if_neg (Nat.not_lt.mpr hlo), if_pos hhi]

theorem grown_extend {last : Extent} (h : Tiled n (es ++ [last])) (hflags : last.flags = extentHole) :
    Grown n (es ++ [last]) (n + c) (es ++ [{ last with blockCount := last.blockCount + c }]) := by
  obtain ⟨start, physical, count, flags⟩ := last
  obtain rfl : flags = extentHole := hflags
  obtain ⟨hfront, hpos, hstop⟩ := Tiles.concat_iff.mp h
  obtain rfl : start + count = n := hstop
  replace hfront : Tiled start es := hfront
  dsimp only
  refine ⟨Tiles.concat_iff.mpr ⟨hfront, Nat.add_pos_left hpos c, (Nat.add_assoc ..).symm⟩, Nat.le_add_right _ c, fun b hb => ?_,
    fun b hlo hhi => ?_⟩
  · rw [mapping_hole hfront, mapping_hole hfront, if_pos hb, if_pos (show b < start + (count + c) by omega)]
  · rw [mapping_hole hfront, if_neg (by omega), if_pos (by omega)]

theorem appendHoles_cases {present remaining : Nat} {out : List Extent} (hout : Tiled present out) :
    (∀ out', appendHoles capacity present remaining out = .ok out' → Grown present out (present + remaining) out') ∧
      appendHoles capacity present remaining out ≠ .error .notSupported := by
  fun_induction appendHoles capacity present remaining out with
  | case1 =>
    refine ⟨fun out' h => ?_, nofun⟩
    cases h
    exact grown_self hout
  | case2 present remaining out _ chunk status hemit => exact ⟨nofun, fun h => extentEmitCapacity_ne _ _ _ (hemit.trans h)⟩
  | case3 present remaining out hmore chunk next hemit ih =>
    have hlimit : 0 < uint32Max := by decide
    have hpos : 0 < chunk := by omega
    have hstep : Grown present out (present + chunk) next := by
      rcases extentEmitCapacity_ok hpos hemit with rfl | ⟨front, last, rfl, hc, rfl⟩
      · exact grown_append hout hpos
      · exact grown_extend hout (continues_iff.mp hc).2.1
    obtain ⟨hrest, hne⟩ := ih hstep.tiled
    rw [Nat.add_assoc, Nat.add_sub_cancel' (show chunk ≤ remaining from Nat.min_le_right _ _)] at hrest
    exact ⟨fun out' h => hstep.trans (hrest out' h), hne⟩

theorem growClassic_grown {present needed : Nat} {entries : List Extent} (h : Tiled present entries)
    (hlt : present ≤ needed) :
    ∃ stop ≤ needed, Grown present entries stop (growClassic present needed entries).1 ∧
      ((growClassic present needed entries).2 = false → stop = needed) := by
  fun_induction growClassic present needed entries with
  | case1 present entries hmore remaining trailing add hadd ih =>
    have hle : add ≤ remaining := holeGrowth_le remaining entries
    -- the trailing hole takes up more blocks
    obtain ⟨front, last, rfl⟩ : ∃ front last, entries = front ++ [last] := by
      rcases List.eq_nil_or_concat' entries with rfl | h
      · exact absurd hadd (by simp [add, holeGrowth])
      · exact h
    simp only [trailing, List.dropLast_concat, List.getLastD_concat] at ih ⊢
    have hflags : last.flags = extentHole := by
      by_contra hne
      exact absurd hadd (by simp [add, holeGrowth, hne])
    have hstep := grown_extend (c := add) h hflags
    obtain ⟨stop, hneeded, hgrown, hdone⟩ := ih hstep.tiled (by omega)
    exact ⟨stop, hneeded, hstep.trans hgrown, hdone⟩
  | case2 => exact ⟨_, hlt, grown_self h, by simp⟩
  | case3 present entries hmore remaining add hadd hfull chunk ih =>
    have hlimit : 0 < uint32Max := by decide
    have hstep := grown_append (c := chunk) h (by omega)
    obtain ⟨stop, hneeded, hgrown, hdone⟩ := ih hstep.tiled (by omega)
    exact ⟨stop, hneeded, hstep.trans hgrown, hdone⟩
  | case4 present entries hmore => exact ⟨present, hlt, grown_self h, fun _ => by omega⟩

variable {p : Payload}

theorem pagedExtentEnsure_spec (hp : Tiled n p.extentList) (needed : Nat) :
    Upholds env (· = p) (pagedExtentEnsure needed) (fun p' => Grown n p.extentList (max n needed) p'.extentList) := by
  refine triple_snapshot ?_
  simp only [lastStop_eq hp]
  refine triple_guard (by decide) fun _ => .ite (fun hle => ?_) fun hlt => ?_
  · refine .pure fun s hs => hs.mono ?_
    rintro _ rfl
    rw [max_eq_left hle]
    exact grown_self hp
  · refine triple_guard (by decide) fun _ => tame_call.quiet.seq fun _ => ?_
    refine .ofExcept_bind (fun out hout => ?_) fun e s he hs => hs.blameless fun h => (appendHoles_cases hp).2 (h ▸ he)
    have hgrown := (appendHoles_cases hp).1 out hout
    rw [Nat.add_sub_cancel' (by omega), ← max_eq_right (by omega : n ≤ needed)] at hgrown
    exact pagedExtentRewriteAll_spec _ false fun pages index hlist => by rwa [hlist]

theorem fileEnsureLogicalBlocks_grown (hp : Tiled n p.extentList) (needed : Nat) :
    Upholds env (· = p) (fileEnsureLogicalBlocks needed) (fun p' => Grown n p.extentList (max n needed) p'.extentList) := by
  refine reads_fileValidateVolume.quiet.seq fun _ => ?_
  refine .bind_and (reads_fileLogicalBlocksVolume.quiet.spec (Φ := fun count => count = n) fun s count t hs hrun => ?_)
    fun present hpresent => .look fun s hs => ?_
  · rw [fileLogicalBlocksVolume_ok hrun, hs]
    exact Tiled.lastStop hp
  · subst hpresent
    refine .ite (fun hle => ?_) fun hlt => .branch (pagedExtentEnsure_spec hp needed) ?_
    · refine .pure fun s hs => hs.mono ?_
      rintro _ rfl
      rw [max_eq_left hle]
      exact grown_self hp
    · rw [hs.payload]
      obtain ⟨stop, hneeded, hgrown, hdone⟩ := growClassic_grown hp (by omega : present ≤ needed)
      rw [max_eq_right (hgrown.le.trans hneeded)]
      refine .ite (fun _ => ?_) fun hfalse => ?_
      · refine .bind (pagedExtentRewriteAll_spec (fun p' => Grown present p.extentList stop p'.extentList) true
          fun pages index hlist => by rwa [hlist]) fun _ => triple_at fun p' hp' => ?_
        refine (pagedExtentEnsure_spec hp'.tiled needed).post fun _ s hs => hs.mono fun q hq => ?_
        rw [max_eq_right hneeded] at hq
        exact hp'.trans hq
      · exact triple_setPayload (hdone (by simpa using hfalse) ▸ hgrown)

theorem fileEnsureLogicalBlocks_spec (needed : Nat) :
    Upholds env (Mapped blocks) (fileEnsureLogicalBlocks needed) (Mapped (max blocks needed)) :=
  triple_at fun _ hp => (fileEnsureLogicalBlocks_grown hp needed).post fun _ _ hs => hs.mono fun _ h => h.tiled

end Grow

section Cut

variable {env : Nat → Answer} {known : Payload → Prop} {blocks target : Nat} {p : Payload}

/-- A payload of so many blocks without any compressed extent that is new. -/
structure Kept (blocks : Nat) (p p' : Payload) : Prop where
  tiled : Tiled blocks p'.extentList
  compressed : ∀ x ∈ p'.extentList, x.isCompressed = true → x ∈ p.extentList

theorem Kept.plain {p' : Payload} {lo hi : Nat} (h : Kept blocks p p') (hplain : Plain lo hi p.extentList) :
    Plain lo hi p'.extentList :=
  fun x hx hc => hplain x (h.compressed x hx hc) hc

theorem truncateExtent_spec {e : Extent} (hplain : 0 < target → e.isCompressed = true → holds (target - 1) e = false) :
    Triple (Ready env known) (truncateExtent target e)
      (fun kept s => kept = (if target ≤ e.logicalBlock then [] else
        [{ e with blockCount := if target < e.stop then target - e.logicalBlock else e.blockCount }]) ∧
        Ready env known s) (Blameless env) := by
  refine .ite (fun hpast => ?_) fun hkeep => ?_
  · rw [if_pos hpast]
    refine .branch ?_ (.pure fun _ hs => ⟨rfl, hs⟩)
    exact (tame_fileFreeUnsharedRun _).quiet.seq fun _ => .pure fun _ hs => ⟨rfl, hs⟩
  · rw [if_neg hkeep]
    -- a compressed extent across the target would hold the block before it
    have hwhole : e.isCompressed = true →
        (if target < e.stop then target - e.logicalBlock else e.blockCount) = e.blockCount := by
      intro hc
      have hnot := hplain (by omega) hc
      rw [if_neg]
      intro hacross
      rw [holds_iff.mpr ⟨by omega, by omega⟩] at hnot
      cases hnot
    refine .bind (triple_note hwhole) fun _ => triple_guard (by decide) fun _ => ?_
    refine .branch ?_ (.pure fun _ hs => ⟨rfl, hs⟩)
    exact (tame_fileFreeUnsharedRun _).quiet.seq fun _ => .pure fun _ hs => ⟨rfl, hs⟩

theorem truncateLoop_spec {rest : List Extent} {c : Nat} (htiles : Tiles Extent.segment c blocks rest)
    (hplain : 0 < target → ∀ x ∈ rest, x.isCompressed = true → holds (target - 1) x = false) :
    Triple (Ready env known) (truncateLoop target rest)
      (fun kept s => ((target ≤ c → kept = []) ∧ (c < target → Tiles Extent.segment c (min blocks target) kept) ∧
        ∀ x ∈ kept, x.isCompressed = true → x ∈ rest) ∧ Ready env known s) (Blameless env) := by
  induction rest generalizing c with
  | nil =>
    obtain rfl : c = blocks := htiles
    refine .pure fun s hs => ⟨⟨fun _ => rfl, fun hlt => ?_, by simp⟩, hs⟩
    exact (min_eq_left hlt.le).symm
  | cons e rest ih =>
    obtain ⟨rfl, hpos, hrest⟩ := htiles
    refine .bind_and (truncateExtent_spec fun hpos => hplain hpos e List.mem_cons_self) fun kept hkept => ?_
    refine .bind (ih hrest fun hpos x hx => hplain hpos x (List.mem_cons_of_mem _ hx)) fun others => ?_
    refine .of_and fun hothers => .pure fun s hs => ⟨?_, hs⟩
    obtain ⟨hnone, hsome, hmem⟩ := hothers
    have hstop : e.stop = e.logicalBlock + e.blockCount := rfl
    simp only [Extent.segment_start, Extent.segment_count, Extent.segment_stop] at hpos hnone hsome ⊢
    refine ⟨fun hpast => ?_, fun hbefore => ?_, fun x hx hc => ?_⟩
    · rw [hkept, if_pos hpast, hnone (by omega)]
      rfl
    · rw [hkept, if_neg (by omega)]
      by_cases hacross : target < e.stop
      · rw [if_pos hacross, hnone (by omega), min_eq_right (hacross.le.trans hrest.le)]
        exact ⟨rfl, by simp only [Extent.segment_count]; omega, by
          simp only [Extent.segment_stop, Extent.stop]
          exact Nat.add_sub_cancel' hbefore.le⟩
      · rw [if_neg hacross]
        by_cases hend : e.stop = target
        · rw [hnone hend.ge, min_eq_right (hend ▸ hrest.le)]
          exact ⟨rfl, hpos, hend⟩
        · exact ⟨rfl, hpos, hsome (by omega)⟩
    · rcases List.mem_append.mp hx with hx | hx
      · rw [hkept] at hx
        split at hx
        · cases hx
        · obtain rfl := List.mem_singleton.mp hx
          have hnot := hplain (by omega) e List.mem_cons_self hc
          have hacross : ¬target < e.stop := by
            intro hacross
            rw [holds_iff.mpr ⟨by omega, by omega⟩] at hnot
            cases hnot
          rw [if_neg hacross]
          exact List.mem_cons_self
      · exact List.mem_cons_of_mem _ (hmem x hx hc)

theorem kept_of_loop {kept : List Extent} {p' : Payload}
    (h : (target ≤ 0 → kept = []) ∧ (0 < target → Tiled (min blocks target) kept) ∧
      ∀ x ∈ kept, x.isCompressed = true → x ∈ p.extentList) (hp' : p'.extentList = kept) : Kept (min blocks target) p p' := by
  refine ⟨?_, hp' ▸ h.2.2⟩
  rw [hp']
  rcases Nat.eq_zero_or_pos target with rfl | hpos
  · rw [h.1 le_rfl, Nat.min_zero]
    exact rfl
  · exact h.2.1 hpos

theorem classicTruncate_spec (htiled : Tiled blocks p.extentList)
    (hplain : 0 < target → ∀ x ∈ p.extentList, x.isCompressed = true → holds (target - 1) x = false) :
    Upholds env (· = p) (classicTruncate target) (Kept (min blocks target) p) := by
  refine .look fun s hs => ?_
  rw [hs.payload]
  refine .bind_and (truncateLoop_spec htiled hplain) fun kept hkept => ?_
  exact triple_setPayload (kept_of_loop hkept rfl)

theorem pagedExtentTruncate_spec (htiled : Tiled blocks p.extentList)
    (hplain : 0 < target → ∀ x ∈ p.extentList, x.isCompressed = true → holds (target - 1) x = false) :
    Upholds env (· = p) (pagedExtentTruncate target) (Kept (min blocks target) p) := by
  refine triple_snapshot (triple_guard (by decide) fun _ => tame_call.quiet.seq fun _ => ?_)
  refine .bind_and (truncateLoop_spec htiled hplain) fun kept hkept => ?_
  exact triple_guard (by decide) fun _ =>
    pagedExtentRewriteAll_spec _ false fun pages index hlist => kept_of_loop hkept hlist

end Cut

section Materialized

variable {env : Nat → Answer} {blocks : Nat} {p p' : Payload} {e : Extent}

/-- The payload after an extent was written out: it holds no compressed block
in the place of the extent, and none that it did not hold before. -/
structure Materialized (blocks : Nat) (e : Extent) (p p' : Payload) : Prop where
  tiled : Tiled blocks p'.extentList
  compressed : ∀ x ∈ p'.extentList, x.isCompressed = true →
    x ∈ p.extentList ∧ (x.stop ≤ e.logicalBlock ∨ e.stop ≤ x.logicalBlock)

theorem Replaced.materialized {new : Extent} (h : Replaced blocks new p p') (hnew : new.isCompressed = false) :
    Materialized blocks new p p' := by
  refine ⟨h.tiled, fun x hx hc => ?_⟩
  rcases h.compressed x hx hc with rfl | hx
  · rw [hnew] at hc
    cases hc
  · exact hx

theorem Materialized.plain (h : Materialized blocks e p p') : Plain e.logicalBlock e.stop p'.extentList := by
  intro x hx hc b hlo hhi
  obtain ⟨_, hdisjoint⟩ := h.compressed x hx hc
  rw [Bool.eq_false_iff]
  intro hholds
  obtain ⟨hstart, hstop⟩ := holds_iff.mp hholds
  omega

theorem Materialized.kept (h : Materialized blocks e p p') : Kept blocks p p' :=
  ⟨h.tiled, fun x hx hc => (h.compressed x hx hc).1⟩

section

variable (htiled : Tiled blocks p.extentList)

include htiled

section

variable (he : e ∈ p.extentList)
include he

theorem materialized_self (hc : e.isCompressed = false) :
    Materialized blocks e p p := by
  refine ⟨htiled, fun x hx hcx => ⟨hx, ?_⟩⟩
  by_contra hoverlap
  have := eq_of_overlap htiled hx he (by omega) (by omega)
  rw [this, hc] at hcx
  cases hcx

theorem contains_self :
    Contains e.logicalBlock e.blockCount p.extentList := by
  intro x hx _ hbefore hafter
  have hstop : e.stop = e.logicalBlock + e.blockCount := rfl
  obtain rfl := htiled.eq_of_overlap hx he hbefore hafter
  exact ⟨le_rfl, le_rfl⟩

theorem fileMaterializeCompressedExtent_spec :
    Upholds env (· = p) (fileMaterializeCompressedExtent e) (Materialized blocks e p) := by
  obtain ⟨_, hpos, hstop⟩ := htiled.mem_bounds he
  refine .ite (fun hc => ?_) fun _ => ?_
  · refine .pure fun s hs => hs.mono ?_
    rintro _ rfl
    exact materialized_self htiled he hc
  · refine tame_call.quiet.seq fun _ => (tame_compressionAllocDataExact _).quiet.seq fun replacement => ?_
    refine triple_guard (by decide) fun _ => .bind (quiet_writeBlocks _).triple fun _ => ?_
    refine .bind (fileReplaceRange_spec hpos hstop htiled (contains_self htiled he)) fun _ => ?_
    refine tame_objectFinalize.quiet.seq fun _ => reads_fileValidateVolume.quiet.triple.post fun _ s hs => hs.mono ?_
    intro q hq
    have hq' := hq.materialized normal_not_compressed
    exact ⟨hq'.tiled, hq'.compressed⟩

theorem materializeAndValidate_spec :
    Upholds env (· = p) (materializeAndValidate e) (Materialized blocks e p) := by
  refine .ite (fun hc => ?_) fun _ => ?_
  · refine .pure fun s hs => hs.mono ?_
    rintro _ rfl
    exact materialized_self htiled he hc
  · exact .bind (fileMaterializeCompressedExtent_spec htiled he) fun _ => reads_fileValidateVolume.quiet.triple

end

theorem fileMaterializeCompressedAt_spec {logical : Nat} :
    Upholds env (· = p) (fileMaterializeCompressedAt logical) (Clean blocks logical (logical + 1)) := by
  refine .bind_and ((reads_fileExtentLookup logical).quiet.spec (Φ := fun e => e ∈ p.extentList ∧ holds logical e = true)
    fun s e t hs hrun => hs ▸ fileExtentLookup_ok hrun) fun e he => ?_
  refine (materializeAndValidate_spec htiled he.1).post fun _ s hs => hs.mono fun q hq => ⟨hq.tiled, ?_⟩
  obtain ⟨hstart, hstop⟩ := holds_iff.mp he.2
  exact hq.plain.mono hstart hstop

end

theorem materializeLoop_spec {first cursor stop : Nat} (hcursor : first ≤ cursor) :
    Upholds env (Clean blocks first cursor) (materializeLoop cursor stop) (Clean blocks first stop) := by
  fun_induction materializeLoop cursor stop with
  | case1 cursor hlt ih =>
    refine triple_at fun p hp => ?_
    refine .bind_and ((reads_fileExtentLookup cursor).quiet.spec (Φ := fun e => e ∈ p.extentList ∧ holds cursor e = true)
      fun s e t hs hrun => hs ▸ fileExtentLookup_ok hrun) fun e he => ?_
    obtain ⟨hstart, hend⟩ := holds_iff.mp he.2
    refine triple_guard (by decide) fun hfits => .bind (materializeAndValidate_spec hp.1 he.1) fun _ => ?_
    rw [dif_neg (by omega)]
    refine (ih e hfits (by omega) (by omega)).pre fun s hs => hs.mono fun q hq => ?_
    exact ⟨hq.tiled, ((hq.kept.plain hp.2).union hq.plain hstart).mono le_rfl (Nat.min_le_left _ _)⟩
  | case2 cursor hlt => exact .pure fun s hs => hs.mono fun q hq => ⟨hq.1, hq.2.mono le_rfl (by omega)⟩

theorem fileMaterializeCompressedRange_spec {first count : Nat} (htiled : Tiled blocks p.extentList) :
    Upholds env (· = p) (fileMaterializeCompressedRange first count) (Clean blocks first (first + count)) := by
  rw [fileMaterializeCompressedRange]
  cases hadd : addChecked first count with
  | none => exact triple_fail (by decide)
  | some stop =>
    obtain rfl := addChecked_eq_some hadd
    refine materializeLoop_spec le_rfl |>.pre (P := Ready env (Clean blocks first first)) fun s hs => hs.mono fun q hq => ?_
    rw [hq]
    exact ⟨htiled, plain_empty _ _⟩

end Materialized

end InfiltratorFS.File
