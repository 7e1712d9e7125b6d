import InfiltratorFS.File.Calm
import InfiltratorFS.Library.Bisect

/-! Lookup and growth of the extents of a file, in the vector of a classic
file and in pages. -/

namespace InfiltratorFS.Lookup

open File Bisect

section Model

variable (incompatFlags : UInt64) (bitmap : Nat → Bool)

def probePage (pages : List ExtentPage) (logical i : Nat) : Except Status (Probe (List Extent)) :=
  match pages[i]? with
  | none => .error .corrupt
  | some page =>
    if extentPageValid incompatFlags page.extents = false then .error .corrupt
    else if logical < firstBlock page.extents then .ok .before
    else if lastStop page.extents ≤ logical then .ok .after
    else .ok (.found page.extents)

def pagedExtentMap (pages : List ExtentPage) (logical : Nat) : Except Status (Nat × UInt32) := do
  match ← bisect (probePage incompatFlags pages logical) pages.length 0 pages.length with
  | none => .error .corrupt
  | some entries =>
    match entries.find? (holds logical) with
    | none => .error .corrupt
    | some e =>
      if extentKind e.flags = extentNormal ∧ bitmap (mappedBlock logical e) = false then .error .corrupt
      else .ok (mappedBlock logical e, e.flags)

/-- `file_map_block` on pages that can be read, with the bitmap and the steps
of the search, which `File.fileMapBlock` leaves to the calls it makes. -/
def fileMapBlock (p : Payload) (logical : Nat) : Except Status (Nat × UInt32) :=
  match p with
  | .pages pages _ => pagedExtentMap incompatFlags bitmap pages logical
  | p =>
    match p.extentList.find? (holds logical) with
    | none => .error .corrupt
    | some e => .ok (mappedBlock logical e, e.flags)

end Model

section Lookups

variable {incompatFlags : UInt64} {bitmap : Nat → Bool} {n : Nat} {es : List Extent} {pages : List ExtentPage}

/-- Each block that a lookup of the extents gives is in use. -/
def Allocated (bitmap : Nat → Bool) (es : List Extent) : Prop :=
  ∀ e ∈ es, extentKind e.flags = extentNormal → ∀ b, holds b e = true → bitmap (mappedBlock b e) = true

def found (m : Option (Nat × UInt32)) : Except Status (Nat × UInt32) := m.elim (.error .corrupt) .ok

theorem mapping_none (h : Tiled n es) {b : Nat} (hb : n ≤ b) : mapping es b = none := by
  rw [mapping, List.find?_eq_none.mpr, Option.map_none]
  intro e he hholds
  have hstop : e.stop ≤ n := (h.mem_bounds he).2.2
  have := holds_iff.mp hholds
  omega

theorem mapping_some (h : Tiled n es) {b : Nat} (hb : b < n) : ∃ m, mapping es b = some m := by
  obtain ⟨e, he, hholds⟩ := h.exists_mem (Nat.zero_le b) hb
  rw [mapping, find?_holds h (fun _ hx => hx) he (holds_iff.mpr hholds)]
  exact ⟨_, rfl⟩

section

variable (hpages : ∀ page ∈ pages, extentPageValid incompatFlags page.extents = true)
include hpages

theorem probePage_eq
    (htiles : Tiles ExtentPage.segment 0 n pages) (b i : Nat) (page : ExtentPage) (hi : pages[i]? = some page) :
    probePage incompatFlags pages b i = if b < page.segment.start then .ok .before
      else if page.segment.stop ≤ b then .ok .after else Probe.found <$> .ok page.extents := by
  have hpage := List.mem_of_getElem? hi
  rw [probePage, hi, (stop_segment htiles hpage).2]
  dsimp only
  rw [if_neg (by rw [hpages page hpage]; decide)]
  rfl

theorem pagedExtentMap_eq
    (h : Tiled n (pages.flatMap (·.extents))) (halloc : Allocated bitmap (pages.flatMap (·.extents))) (b : Nat) :
    pagedExtentMap incompatFlags bitmap pages b = found (mapping (pages.flatMap (·.extents)) b) := by
  have hne (page : ExtentPage) (hp : page ∈ pages) : page.extents ≠ [] := extentPageValid_ne_nil (hpages page hp)
  have htiles := tiles_pages hne h
  have hfind := bisect_tiles htiles (probePage_eq hpages htiles b)
  rw [pagedExtentMap]
  by_cases hb : b < n
  · rw [if_pos ⟨Nat.zero_le b, hb⟩] at hfind
    obtain ⟨page, hpage, hlo, hhi, hsearch⟩ := hfind
    rw [(stop_segment htiles hpage).2] at hhi
    obtain ⟨e, he, hstart, hstop⟩ := (tiles_page h hpage (hne page hpage)).exists_mem hlo hhi
    have hholds := holds_iff.mpr ⟨hstart, hstop⟩
    have hsub (x : Extent) (hx : x ∈ page.extents) : x ∈ pages.flatMap (·.extents) := List.mem_flatMap.mpr ⟨page, hpage, hx⟩
    have hgood : ¬(extentKind e.flags = extentNormal ∧ bitmap (mappedBlock b e) = false) := fun hbad => by
      rw [halloc e (hsub e he) hbad.1 b hholds] at hbad
      cases hbad.2
    rw [hsearch, mapping, find?_holds h (fun _ hx => hx) (hsub e he) hholds]
    show (match page.extents.find? (holds b) with | none => _ | some e => _) = _
    rw [find?_holds h hsub he hholds]
    exact if_neg hgood
  · rw [if_neg (by omega)] at hfind
    rw [hfind, mapping_none h (Nat.not_lt.mp hb)]
    rfl

end

theorem fileMapBlock_eq {p : Payload} (h : Tiled n p.extentList) (halloc : Allocated bitmap p.extentList)
    (hpages : ∀ page ∈ p.pageList, extentPageValid incompatFlags page.extents = true) (b : Nat) :
    fileMapBlock incompatFlags bitmap p b = found (mapping p.extentList b) := by
  cases p with
  | pages pages index => exact pagedExtentMap_eq hpages h halloc b
  | inline | extents entries =>
    rw [mapping, fileMapBlock]
    · cases List.find? (holds b) _ <;> rfl
    · intro _ _ hpaged
      cases hpaged

/-- A lookup of the mutators that succeeds gives what the lookup here gives. -/
theorem fileMapBlock_refines {s t : FileState} {b : Nat} {mapped : Nat × UInt32} (h : Tiled n s.object.payload.extentList)
    (halloc : Allocated bitmap s.object.payload.extentList)
    (hpages : ∀ page ∈ s.object.payload.pageList, extentPageValid s.incompatFlags page.extents = true)
    (hrun : File.fileMapBlock b s = (.ok mapped, t)) :
    fileMapBlock s.incompatFlags bitmap s.object.payload b = .ok mapped := by
  obtain ⟨e, he, hholds, rfl⟩ := fileMapBlock_ok hrun
  rw [fileMapBlock_eq h halloc hpages, mapping, find?_holds h (fun _ hx => hx) he hholds]
  rfl

/-- Lookups agree between the representations, and growth keeps them. -/
theorem lookup_and_growth (h : Tiled n es) (halloc : Allocated bitmap es) :
    (∀ p : Payload, p.extentList = es → (∀ page ∈ p.pageList, extentPageValid incompatFlags page.extents = true) →
      (∀ b < n, ∃ m, mapping es b = some m ∧ fileMapBlock incompatFlags bitmap p b = .ok m) ∧
        ∀ b, n ≤ b → fileMapBlock incompatFlags bitmap p b = .error .corrupt) ∧
      ∀ needed s s', s.events = [] → s.object.payload.extentList = es → fileEnsureLogicalBlocks needed s = (.ok (), s') →
        Grown n es (max n needed) s'.object.payload.extentList := by
  constructor
  · rintro p rfl hpages
    refine ⟨fun b hb => ?_, fun b hb => ?_⟩
    · obtain ⟨m, hm⟩ := mapping_some h hb
      exact ⟨m, hm, by rw [fileMapBlock_eq h halloc hpages, hm]; rfl⟩
    · rw [fileMapBlock_eq h halloc hpages, mapping_none h hb]
      rfl
  · rintro needed s s' hevents rfl hrun
    have hready : Ready s.env (· = s.object.payload) s := ⟨rfl, by simp [hevents], rfl⟩
    exact ((fileEnsureLogicalBlocks_grown h needed s hready).1 () s' hrun).payload

def sparse : List Extent := [⟨0, 5, 2, extentNormal⟩, ⟨2, 0, 1, extentHole⟩]

def sparseState : FileState :=
  { object := { logicalSize := 12288, portableFlags := 0, payload := .extents sparse, checksums := [], finalized := true }
    incompatFlags := 0, writable := true, others := [], allocated := [], freed := [], env := calmEnv, tick := 0, events := [] }

theorem lookup_and_growth_sparse :
    fileMapBlock 0 (fun _ => true) (.pages [⟨8, sparse.take 1⟩, ⟨9, sparse.drop 1⟩] []) 3 = .error .corrupt ∧
      (fileEnsureLogicalBlocks 5000000000 sparseState).1 = .ok () ∧
      Grown 3 sparse 5000000000 (fileEnsureLogicalBlocks 5000000000 sparseState).2.object.payload.extentList := by
  have htiled : Tiled 3 sparse := ⟨rfl, by decide, rfl, by decide, rfl⟩
  have hrun : (fileEnsureLogicalBlocks 5000000000 sparseState).1 = .ok () := by decide +kernel
  obtain ⟨hlookup, hgrowth⟩ := @lookup_and_growth 0 (fun _ => true) 3 sparse htiled fun _ _ _ _ _ => rfl
  refine ⟨(hlookup _ rfl (by decide)).2 3 le_rfl, hrun, ?_⟩
  exact hgrowth 5000000000 sparseState _ rfl rfl (Prod.ext hrun rfl)

end Lookups

end InfiltratorFS.Lookup
