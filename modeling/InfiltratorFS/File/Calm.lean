import InfiltratorFS.File.Respect

namespace InfiltratorFS.File

open Prog

section Steady

structure Steady (s₀ s : FileState) : Prop where
  calm : ∀ t, (s₀.env t).status = .ok
  eq : s = { s₀ with tick := s.tick }

theorem Steady.refl {s : FileState} (h : ∀ t, (s.env t).status = .ok) : Steady s s := ⟨h, rfl⟩

variable {α β : Type} {s₀ : FileState} {f : FileState → FileM β}

theorem total_get {Q : β → FileState → Prop}
    (h : ∀ tick, Total (Steady s₀) (f { s₀ with tick := tick }) Q) : Total (Steady s₀) (get >>= f) Q := by
  intro s hs
  rw [bind_of_ok (get_apply s)]
  have := h s.tick s hs
  rwa [← hs.eq] at this

theorem ends_get {R : Except Status β × FileState → Prop}
    (h : ∀ tick, Ends (Steady s₀) (f { s₀ with tick := tick }) R) : Ends (Steady s₀) (get >>= f) R := by
  intro s hs
  rw [bind_of_ok (get_apply s)]
  have := h s.tick s hs
  rwa [← hs.eq] at this

theorem total_pure (a : α) : Total (Steady s₀) (pure a : FileM α) fun b s => b = a ∧ Steady s₀ s :=
  Total.pure fun _ hs => ⟨rfl, hs⟩

theorem total_modify {g : FileState → FileState} (henv : (g s₀).env = s₀.env)
    (hg : ∀ tick, g { s₀ with tick := tick } = { g s₀ with tick := tick }) :
    Total (Steady s₀) (modify g : FileM Unit) fun _ => Steady (g s₀) := by
  refine .modify fun s hs => ⟨henv ▸ hs.calm, ?_⟩
  have := hg s.tick
  rw [← hs.eq] at this
  rw [this]

theorem total_request : Total (Steady s₀) request fun answer s => (∃ t, answer = s₀.env t) ∧ Steady s₀ s := by
  intro s hs
  have henv : s.env = s₀.env := by rw [hs.eq]
  refine ⟨s.env s.tick, { s with tick := s.tick + 1 }, ?_, ⟨s.tick, by rw [henv]⟩, hs.calm, ?_⟩
  · rw [request, if_pos (by rw [henv]; exact hs.calm _)]
  · conv_lhs => rw [hs.eq]

theorem total_call : Total (Steady s₀) call fun _ => Steady s₀ :=
  Total.bind total_request fun _ => .pure fun _ hs => hs.2

theorem total_allocBlock : Total (Steady s₀) allocBlock fun block s =>
    (∃ t, block = max 1 (s₀.env t).block) ∧ ∃ allocated, Steady { s₀ with allocated := allocated } s := by
  have hrun : Total (Steady s₀) (allocRun 1) fun run s => ((∃ t, run.start = max 1 (s₀.env t).block) ∧ run.count = 1) ∧
      ∃ allocated, Steady { s₀ with allocated := allocated } s := by
    refine .bind_and total_request fun answer hanswer => ?_
    obtain ⟨t, rfl⟩ := hanswer
    refine .bind (total_modify rfl fun _ => rfl) fun _ => .pure fun s hs => ⟨⟨⟨t, rfl⟩, ?_⟩, _, hs⟩
    show max 1 (min 1 (s₀.env t).count) = 1
    omega
  refine .bind_and hrun fun run hcount => ?_
  rw [if_neg (by simpa using hcount.2)]
  exact .pure fun s hs => ⟨hcount.1, hs⟩

theorem total_validate (hfinalized : s₀.object.finalized = true) (hvalid : fileValidate s₀.object = true)
    (hinline : s₀.object.isInline = true → s₀.enabled incompatInlineData = true)
    (hcompressed : s₀.object.payload.isPaged = false → s₀.object.payload.extentList.any (·.isCompressed) = true →
      s₀.enabled incompatCompressedExtents = true) :
    Total (Steady s₀) fileValidateVolume fun _ => Steady s₀ := by
  have hcheck : Total (Steady s₀) checkFinalized fun _ => Steady s₀ := by
    intro s hs
    refine ⟨(), { s with tick := s.tick + 1 }, ?_, hs.calm, ?_⟩
    · rw [checkFinalized, if_pos]
      rw [hs.eq, Bool.or_eq_true]
      exact .inl hfinalized
    · conv_lhs => rw [hs.eq]
  refine .bind hcheck fun _ => total_get fun tick => ?_
  rw [if_neg (by rw [hvalid]; simp), if_neg, if_neg]
  · exact total_call
  · rintro ⟨hpaged, henabled, hany⟩
    have := hcompressed hpaged hany
    rw [FileState.enabled] at this henabled
    rw [this] at henabled
    cases henabled
  · rintro ⟨hin, henabled⟩
    have := hinline hin
    rw [FileState.enabled] at this henabled
    rw [this] at henabled
    cases henabled

end Steady

section Pages

def ExtentPage.segment (page : ExtentPage) : Segment :=
  ⟨firstBlock page.extents, lastStop page.extents - firstBlock page.extents⟩

variable {lo hi index : Nat}

theorem tiles_first_last {entries : List Extent} (h : Tiles Extent.segment lo hi entries)
    (hne : entries ≠ []) : firstBlock entries = lo ∧ lastStop entries = hi ∧ lo < hi := by
  have hfirst : firstBlock entries = lo := by
    cases entries with
    | nil => exact absurd rfl hne
    | cons e es => exact h.1
  rcases List.eq_nil_or_concat entries with rfl | ⟨front, last, rfl⟩
  · exact absurd rfl hne
  · rw [List.concat_eq_append] at h hfirst ⊢
    obtain ⟨hfront, hpos, hstop⟩ := Tiles.concat_iff.mp h
    have hle := hfront.le
    have hlast : last.stop = last.logicalBlock + last.blockCount := rfl
    simp only [Extent.segment_start, Extent.segment_count, Extent.segment_stop] at hle hpos hstop
    refine ⟨hfirst, ?_, by omega⟩
    rw [lastStop, List.getLastD_eq_getLast?, List.getLast?_concat]
    exact hstop

variable {page : ExtentPage}

theorem segment_of_tiles (h : Tiles Extent.segment lo hi page.extents)
    (hne : page.extents ≠ []) : page.segment = ⟨lo, hi - lo⟩ ∧ lo < hi := by
  obtain ⟨hfirst, hlast, hlt⟩ := tiles_first_last h hne
  rw [ExtentPage.segment, hfirst, hlast]
  exact ⟨rfl, hlt⟩

variable {pages : List ExtentPage}

theorem tiles_pages (hne : ∀ page ∈ pages, page.extents ≠ [])
    (h : Tiles Extent.segment lo hi (pages.flatMap (·.extents))) : Tiles ExtentPage.segment lo hi pages := by
  induction pages generalizing lo with
  | nil => exact h
  | cons page pages ih =>
    rw [List.flatMap_cons] at h
    obtain ⟨mid, hpage, hpages⟩ := Tiles.append_iff.mp h
    obtain ⟨hsegment, hlt⟩ := segment_of_tiles hpage (hne page List.mem_cons_self)
    have hstop : page.segment.stop = mid := by
      rw [hsegment, Segment.stop]
      exact Nat.add_sub_cancel' hlt.le
    refine ⟨by rw [hsegment], by rw [hsegment]; exact Nat.sub_pos_of_lt hlt, ?_⟩
    rw [hstop]
    exact ih (fun p hp => hne p (List.mem_cons_of_mem _ hp)) hpages

theorem stop_segment (h : Tiles ExtentPage.segment lo hi pages)
    (hpage : page ∈ pages) : firstBlock page.extents ≤ lastStop page.extents ∧ page.segment.stop = lastStop page.extents := by
  have hpos := (h.mem_bounds hpage).2.1
  simp only [ExtentPage.segment, Segment.stop] at hpos ⊢
  omega

theorem tiles_page (h : Tiles Extent.segment lo hi (pages.flatMap (·.extents)))
    (hpage : page ∈ pages) (hne : page.extents ≠ []) :
    Tiles Extent.segment (firstBlock page.extents) (lastStop page.extents) page.extents := by
  obtain ⟨before, after, rfl⟩ := List.append_of_mem hpage
  rw [List.flatMap_append, List.flatMap_cons] at h
  obtain ⟨_, _, htail⟩ := Tiles.append_iff.mp h
  obtain ⟨_, htiles, _⟩ := Tiles.append_iff.mp htail
  obtain ⟨hfirst, hlast, _⟩ := tiles_first_last htiles hne
  rwa [hfirst, hlast]

structure FileObject.Sound (incompatFlags : UInt64) (f : FileObject) : Prop where
  pages : ∀ page ∈ f.payload.pageList, extentPageValid incompatFlags page.extents = true
  tiled : f.payload ≠ .inline → Tiled (ceilBlocks f.logicalSize) f.payload.extentList

/-- What a valid file has to be, as far as its representation goes. -/
structure FileObject.Valid (incompatFlags : UInt64) (f : FileObject) : Prop extends f.Sound incompatFlags where
  finalized : f.finalized = true
  validated : fileValidate f = true
  inline : f.payload = .inline → incompatFlags &&& incompatInlineData ≠ 0
  compressed : f.payload.extentList.any (·.isCompressed) = true → incompatFlags &&& incompatCompressedExtents ≠ 0
  placed : ∀ e ∈ f.payload.extentList, extentKind e.flags = extentNormal → e.physical.stop < 2 ^ 64

variable {s₀ : FileState}

theorem total_validate_of_valid (hvalid : s₀.object.Valid s₀.incompatFlags) :
    Total (Steady s₀) fileValidateVolume fun _ => Steady s₀ := by
  refine total_validate hvalid.finalized hvalid.validated (fun h => ?_) fun _ h => ?_
  · rw [FileObject.isInline, beq_iff_eq] at h
    simpa [FileState.enabled] using hvalid.inline h
  · simpa [FileState.enabled] using hvalid.compressed h

theorem extentPageValid_ne_nil {flags : UInt64} {entries : List Extent} (h : extentPageValid flags entries = true) :
    entries ≠ [] := by
  rintro rfl
  cases h

theorem total_snapshotLoop
    (hpages : ∀ page ∈ pages, extentPageValid s₀.incompatFlags page.extents = true)
    (htiles : Tiles Extent.segment lo hi (pages.flatMap (·.extents))) :
    Total (Steady s₀) (pagedExtentSnapshotLoop lo pages) fun next s => next = hi ∧ Steady s₀ s := by
  induction pages generalizing lo with
  | nil => exact .pure fun s hs => ⟨htiles, hs⟩
  | cons page pages ih =>
    have hpage := hpages page List.mem_cons_self
    rw [List.flatMap_cons] at htiles
    obtain ⟨mid, hhead, htail⟩ := Tiles.append_iff.mp htiles
    obtain ⟨hfirst, hlast, _⟩ := tiles_first_last hhead (extentPageValid_ne_nil hpage)
    refine .bind total_call fun _ => total_get fun tick => ?_
    rw [if_neg]
    · rw [hlast]
      exact ih (fun p hp => hpages p (List.mem_cons_of_mem _ hp)) htail
    · rintro (hinvalid | hmoved)
      · rw [hpage] at hinvalid
        cases hinvalid
      · exact hmoved hfirst

theorem Payload.extentList_of_paged {p : Payload} (h : p.isPaged = true) :
    p.extentList = p.pageList.flatMap (·.extents) := by
  cases p with
  | inline => cases h
  | extents entries => cases h
  | pages list index => rfl

theorem Payload.ne_inline_of_paged {p : Payload} (h : p.isPaged = true) : p ≠ .inline := by
  rintro rfl
  cases h

variable (hsound : s₀.object.Sound s₀.incompatFlags)

include hsound

theorem total_snapshot (hpaged : s₀.object.payload.isPaged = true) :
    Total (Steady s₀) pagedExtentSnapshot fun entries s => entries = s₀.object.payload.extentList ∧ Steady s₀ s := by
  have htiled := hsound.tiled (Payload.ne_inline_of_paged hpaged)
  rw [Payload.extentList_of_paged hpaged] at htiled
  refine .bind total_call fun _ => total_get fun tick => ?_
  refine .bind_and (total_snapshotLoop hsound.pages htiled) fun next hnext => ?_
  rw [if_neg (by simpa using hnext)]
  exact total_pure _

theorem total_loadPage
    (hpage : s₀.object.payload.pageList[index]? = some page) :
    Total (Steady s₀) (pagedExtentLoadPage index) fun entries s => entries = page.extents ∧ Steady s₀ s := by
  refine .bind total_call fun _ => total_get fun tick => ?_
  simp only [hpage]
  rw [if_neg]
  · exact total_pure _
  · rw [hsound.pages page (List.mem_of_getElem? hpage)]
    simp

theorem total_findPage (hpaged : s₀.object.payload.isPaged = true)
    {logical low high : Nat} (hpage : s₀.object.payload.pageList[index]? = some page)
    (hfirst : firstBlock page.extents ≤ logical) (hlast : logical < lastStop page.extents) (hlow : low ≤ index)
    (hhigh : index < high) (hlength : high ≤ s₀.object.payload.pageList.length) :
    Total (Steady s₀) (pagedExtentFindPage logical low high) fun entries s => entries = page.extents ∧ Steady s₀ s := by
  have hne : ∀ p ∈ s₀.object.payload.pageList, p.extents ≠ [] := fun p hp => extentPageValid_ne_nil (hsound.pages p hp)
  have htiled := hsound.tiled (Payload.ne_inline_of_paged hpaged)
  rw [Payload.extentList_of_paged hpaged] at htiled
  have htiles := tiles_pages hne htiled
  fun_induction pagedExtentFindPage logical low high with
  | case2 => omega
  | case1 low high _ mid ihLow ihHigh =>
    obtain ⟨probe, hprobe⟩ : ∃ probe, s₀.object.payload.pageList[mid]? = some probe :=
      ⟨_, List.getElem?_eq_getElem (by omega)⟩
    refine .bind_and (total_loadPage hsound hprobe) fun entries hentries => ?_
    subst hentries
    have hprobeStop := stop_segment htiles (List.mem_of_getElem? hprobe)
    have hpageStop := stop_segment htiles (List.mem_of_getElem? hpage)
    rcases Nat.lt_trichotomy index mid with hlt | heq | hgt
    · have hle : lastStop page.extents ≤ firstBlock probe.extents :=
        hpageStop.2 ▸ htiles.stop_le_start hpage hprobe hlt
      rw [if_pos (hlast.trans_le hle)]
      exact ihLow hlow hlt (by omega)
    · obtain rfl : page = probe := by
        rw [← heq, hpage] at hprobe
        exact Option.some.inj hprobe
      rw [if_neg (by omega), if_neg (by omega)]
      exact total_pure _
    · have hle : lastStop probe.extents ≤ firstBlock page.extents :=
        hprobeStop.2 ▸ htiles.stop_le_start hprobe hpage hgt
      rw [if_neg (by omega), if_pos (hle.trans hfirst)]
      exact ihHigh hgt hhigh hlength

end Pages

section Lookup

variable {s₀ : FileState} {blocks logical : Nat} {e : Extent}

theorem holds_unique {entries : List Extent} {e' : Extent} (htiled : Tiled blocks entries)
    (he : e ∈ entries) (he' : e' ∈ entries) (hholds : holds logical e = true) (hholds' : holds logical e' = true) :
    e' = e := by
  obtain ⟨hstart, hend⟩ := holds_iff.mp hholds
  obtain ⟨hstart', hend'⟩ := holds_iff.mp hholds'
  exact eq_of_overlap htiled he' he (by omega) (by omega)

theorem find?_holds {all entries : List Extent} (htiled : Tiled blocks all)
    (hentries : ∀ x ∈ entries, x ∈ all) (he : e ∈ entries) (hholds : holds logical e = true) :
    entries.find? (holds logical) = some e := by
  cases hfound : entries.find? (holds logical) with
  | none => exact absurd hholds (List.find?_eq_none.mp hfound e he)
  | some x =>
    have hx := hentries x (List.mem_of_find?_eq_some hfound)
    rw [holds_unique htiled (hentries e he) hx hholds (List.find?_some hfound)]

variable (hsound : s₀.object.Sound s₀.incompatFlags)
include hsound

theorem total_lookupEntries
    (he : e ∈ s₀.object.payload.extentList) (hholds : holds logical e = true) :
    Total (Steady s₀) (lookupEntries logical)
      fun entries s => (e ∈ entries ∧ ∀ x ∈ entries, x ∈ s₀.object.payload.extentList) ∧ Steady s₀ s := by
  refine total_get fun tick => ?_
  cases hpaged : s₀.object.payload.isPaged with
  | false => exact .pure fun s hs => ⟨⟨he, fun x hx => hx⟩, hs⟩
  | true =>
    obtain ⟨hstart, hend⟩ := holds_iff.mp hholds
    rw [Payload.extentList_of_paged hpaged] at he
    obtain ⟨page, hpage, hmem⟩ := List.mem_flatMap.mp he
    obtain ⟨index, hindex, hget⟩ := List.mem_iff_getElem.mp hpage
    have hget? : s₀.object.payload.pageList[index]? = some page := by
      rw [List.getElem?_eq_getElem hindex, hget]
    have htiled := hsound.tiled (Payload.ne_inline_of_paged hpaged)
    rw [Payload.extentList_of_paged hpaged] at htiled
    have htiles := tiles_page htiled hpage (extentPageValid_ne_nil (hsound.pages page hpage))
    have hbounds := htiles.mem_bounds hmem
    simp only [Extent.segment_start, Extent.segment_stop] at hbounds
    refine total_get fun tick => ?_
    refine (total_findPage hsound hpaged hget? (by omega) (by omega) (Nat.zero_le _) hindex le_rfl).post ?_
    rintro entries s ⟨rfl, hs⟩
    exact ⟨⟨hmem, fun x hx => Payload.mem_extentList_of_page hpage hx⟩, hs⟩

theorem total_mapBlock (hinline : s₀.object.payload ≠ .inline)
    (he : e ∈ s₀.object.payload.extentList) (hholds : holds logical e = true) :
    Total (Steady s₀) (fileMapBlock logical) fun mapped s => mapped = (mappedBlock logical e, e.flags) ∧ Steady s₀ s := by
  refine total_get fun tick => .bind_and (total_lookupEntries hsound he hholds) fun entries hentries => ?_
  have hfind := find?_holds (hsound.tiled hinline) hentries.2 hentries.1 hholds
  simp only [hfind]
  split
  · exact .bind total_call fun _ => total_pure _
  · exact total_pure _

theorem total_logicalBlocks (hinline : s₀.object.payload ≠ .inline) :
    Total (Steady s₀) fileLogicalBlocksVolume fun blocks s => blocks = ceilBlocks s₀.object.logicalSize ∧ Steady s₀ s := by
  have hresult (entries : List Extent) (s : FileState) (h : entries = s₀.object.payload.extentList ∧ Steady s₀ s) :
      (if entries.isEmpty then 0 else lastStop entries) = ceilBlocks s₀.object.logicalSize ∧ Steady s₀ s :=
    ⟨h.1 ▸ Tiled.lastStop (hsound.tiled hinline), h.2⟩
  refine total_get fun tick => ?_
  by_cases hpaged : s₀.object.payload.isPaged = true
  · simp only [hpaged, if_true]
    exact .bind (total_snapshot hsound hpaged) fun entries => .pure (hresult entries)
  · simp only [hpaged]
    exact .bind (total_pure _) fun entries => .pure (hresult entries)

end Lookup

section Start

structure ValidFile where
  incompatFlags : UInt64
  object : FileObject
  valid : object.Valid incompatFlags

def ValidFile.start (file : ValidFile) (writable : Bool) (others : List Extent) (env : Nat → Answer) : FileState :=
  { object := file.object
    incompatFlags := file.incompatFlags
    writable := writable
    others := others
    allocated := []
    freed := []
    env := env
    tick := 0
    events := [] }

def calmEnv : Nat → Answer := fun _ => ⟨.ok, 1, 1, false⟩

end Start

end InfiltratorFS.File
