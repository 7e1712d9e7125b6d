import InfiltratorFS.File.Release

namespace InfiltratorFS.File

open Prog

section Inline

variable {s₀ : FileState} {B : Nat → Prop}

def chainGuard : Nat := 1048576

def FileState.withoutChecksums (s : FileState) (finalized : Bool) : FileState :=
  { s with object := { s.object with checksums := [], finalized := finalized } }

theorem total_destroyChecksums (hlength : s₀.object.checksums.length ≤ chainGuard) :
    Total (Freed s₀ B) destroyChecksums fun _ s =>
      ∃ finalized, Freed (s₀.withoutChecksums finalized) (fun b => B b ∨ ∃ c ∈ s₀.object.checksums, b = c.block) s := by
  refine freed_get fun freed tick => ?_
  by_cases hempty : s₀.object.checksums = []
  · rw [if_pos (by exact hempty)]
    have hsame : s₀.withoutChecksums s₀.object.finalized = s₀ := by
      rw [FileState.withoutChecksums, ← hempty]
    refine .pure fun s hs => ⟨s₀.object.finalized, ?_⟩
    rw [hsame]
    exact hs.congr fun b => by simp [hempty]
  · rw [if_neg (by exact hempty)]
    refine freed_get fun freed tick => .bind (total_destroyLoop hlength) fun _ => ?_
    refine (freed_keep fun freed => ?_).post fun _ s hs => ⟨false, hs⟩
    exact total_modify rfl fun _ => rfl

theorem total_destroyPages :
    Total (Freed s₀ B) pagedExtentDestroyPages fun _ => Freed s₀ fun b =>
      B b ∨ (∃ page ∈ s₀.object.payload.pageList, b = page.block) ∨ b ∈ s₀.object.payload.index := by
  refine freed_get fun freed tick => ?_
  by_cases hpaged : s₀.object.payload.isPaged = false
  · rw [if_pos (by exact hpaged)]
    refine .pure fun s hs => hs.congr fun b => ?_
    cases hpayload : s₀.object.payload with
    | pages list index =>
      rw [hpayload] at hpaged
      cases hpaged
    | inline => simp [Payload.pageList, Payload.index]
    | extents entries => simp [Payload.pageList, Payload.index]
  · rw [if_neg (by exact hpaged)]
    refine .bind freed_call fun _ => .bind (total_freeEach (fun _ => .pure fun _ hs => hs) _) fun _ => ?_
    refine (total_freeEach (fun _ => freed_call) _).post fun _ s hs => hs.congr fun b => ?_
    rw [or_assoc, List.mem_map]
    simp only [eq_comm]

/-- The blocks that a file gives back with its last byte: its checksum objects,
the data no other file has, its extent pages and the tree above them. -/
def Owned (s : FileState) (b : Nat) : Prop :=
  (∃ c ∈ s.object.checksums, b = c.block) ∨ (∃ run ∈ normalRuns s.object.payload.extentList, Exclusive s run b) ∨
    (∃ page ∈ s.object.payload.pageList, b = page.block) ∨ b ∈ s.object.payload.index

theorem freed_pagedSnapshot (hsound : s₀.object.Sound s₀.incompatFlags) (hpaged : s₀.object.payload.isPaged = true) :
    Total (Freed s₀ B) pagedExtentSnapshot fun entries s => entries = s₀.object.payload.extentList ∧ Freed s₀ B s :=
  freed_lift fun _ => total_snapshot hsound hpaged

theorem freed_snapshot (hsound : s₀.object.Sound s₀.incompatFlags) :
    Total (Freed s₀ B) fileExtentSnapshot fun entries s => entries = s₀.object.payload.extentList ∧ Freed s₀ B s := by
  refine freed_get fun freed tick => ?_
  by_cases hpaged : s₀.object.payload.isPaged = true
  · rw [if_pos (by exact hpaged)]
    exact freed_pagedSnapshot hsound hpaged
  · rw [if_neg (by exact hpaged)]
    exact freed_lift fun freed => total_pure _

theorem normalRuns_placed {flags : UInt64} {f : FileObject} (hvalid : f.Valid flags) :
    ∀ run ∈ normalRuns f.payload.extentList, run.stop < 2 ^ 64 := by
  intro run hrun
  obtain ⟨e, he, rfl⟩ := List.mem_map.mp hrun
  obtain ⟨hmem, hkind⟩ := List.mem_filter.mp he
  exact hvalid.placed e hmem (beq_iff_eq.mp hkind)

def FileObject.emptied (f : FileObject) : FileObject :=
  { f with logicalSize := 0, payload := .extents [], checksums := [], finalized := true }

theorem emptied_valid (f : FileObject) (flags : UInt64) : f.emptied.Valid flags := by
  refine ⟨⟨fun _ h => (nomatch h), fun _ => show 0 = ceilBlocks 0 from rfl⟩, rfl, rfl,
    fun h => (nomatch h), fun h => ?_, fun _ h => (nomatch h)⟩
  cases h

variable (hvalid : s₀.object.Valid s₀.incompatFlags)
include hvalid

theorem freed_validate :
    Total (Freed s₀ B) fileValidateVolume fun _ => Freed s₀ B :=
  freed_keep fun _ => total_validate_of_valid hvalid

theorem total_releaseExternal (hlength : s₀.object.checksums.length ≤ chainGuard) :
    Total (Freed s₀ fun _ => False) fileReleaseExternalStorage fun _ s =>
      ∃ finalized, Freed (s₀.withoutChecksums finalized) (Owned s₀) s := by
  refine .bind (freed_validate hvalid) fun _ => .bind (total_destroyChecksums hlength) fun _ => ?_
  refine .of_exists fun finalized => ?_
  have hsound : (s₀.withoutChecksums finalized).object.Sound s₀.incompatFlags := ⟨hvalid.pages, hvalid.tiled⟩
  refine .bind_and (freed_snapshot hsound) fun entries hentries => ?_
  subst hentries
  have hplaced := normalRuns_placed hvalid
  refine .bind (total_freeRuns hplaced) fun _ => ?_
  refine total_destroyPages.post fun _ s hs => ⟨finalized, hs.congr fun b => ?_⟩
  rw [false_or, or_assoc]
  exact Iff.rfl

theorem total_storeEmpty (hlength : s₀.object.checksums.length ≤ chainGuard) :
    Total (Freed s₀ fun _ => False) (do
      fileStoreInline 0
      storeInlineObject
      call) fun _ => Freed { s₀ with object := s₀.object.emptied } (Owned s₀) := by
  have hstore : Total (Freed s₀ fun _ => False) (fileStoreInline 0)
      fun _ => Freed { s₀ with object := { s₀.object.emptied with finalized := false } } (Owned s₀) := by
    rw [fileStoreInline, if_neg (by decide)]
    refine .bind (freed_validate hvalid) fun _ => freed_get fun freed tick => ?_
    rw [if_neg (by simp)]
    refine .bind (total_releaseExternal hvalid hlength) fun _ => .of_exists fun finalized => ?_
    exact freed_keep fun freed => total_modify rfl fun _ => rfl
  have hfinish : Total (Freed { s₀ with object := { s₀.object.emptied with finalized := false } } (Owned s₀))
      storeInlineObject fun _ => Freed { s₀ with object := s₀.object.emptied } (Owned s₀) := by
    have hfinalize : Total (Freed { s₀ with object := { s₀.object.emptied with finalized := false } } (Owned s₀))
        objectFinalize fun _ => Freed { s₀ with object := s₀.object.emptied } (Owned s₀) :=
      freed_keep fun freed => total_modify rfl fun _ => rfl
    refine .bind freed_call fun _ => .bind hfinalize fun _ => ?_
    exact .bind (freed_validate (emptied_valid _ _)) fun _ => freed_call
  exact .bind hstore fun _ => .bind hfinish fun _ => freed_call

end Inline

section Extents

variable {s₀ : FileState} {B : Nat → Prop} {entries : List Extent}

theorem total_truncateLoop
    (hplaced : ∀ e ∈ entries, extentKind e.flags = extentNormal → e.physical.stop < 2 ^ 64) :
    Total (Freed s₀ B) (truncateLoop 0 entries) fun kept s =>
      kept = [] ∧ Freed s₀ (fun b => B b ∨ ∃ run ∈ normalRuns entries, Exclusive s₀ run b) s := by
  induction entries generalizing B with
  | nil => exact .pure fun s hs => ⟨rfl, hs.congr fun b => by simp [normalRuns]⟩
  | cons e es ih =>
    have hrest (C : Nat → Prop) (hC : ∀ b, C b ∨ (∃ run ∈ normalRuns es, Exclusive s₀ run b) ↔
        B b ∨ ∃ run ∈ normalRuns (e :: es), Exclusive s₀ run b) :
        Total (Freed s₀ C) (do
          let rest ← truncateLoop 0 es
          pure ([] ++ rest)) fun kept s =>
          kept = [] ∧ Freed s₀ (fun b => B b ∨ ∃ run ∈ normalRuns (e :: es), Exclusive s₀ run b) s := by
      refine .bind_and (ih fun x hx => hplaced x (List.mem_cons_of_mem _ hx)) fun rest hrest => ?_
      subst hrest
      exact .pure fun s hs => ⟨rfl, hs.congr hC⟩
    have hhead : truncateExtent 0 e = (do
        if extentKind e.flags = extentNormal then fileFreeUnsharedRun e.physical else pure ()
        pure []) := if_pos (Nat.zero_le _)
    rw [truncateLoop, hhead]
    by_cases hkind : extentKind e.flags = extentNormal
    · have hruns : normalRuns (e :: es) = e.physical :: normalRuns es := by simp [normalRuns, hkind]
      simp only [if_pos hkind]
      refine .bind (.bind (total_freeUnsharedRun (hplaced e List.mem_cons_self hkind)) fun _ =>
        Total.pure fun s hs => And.intro rfl hs) fun kept => .of_and fun hkept => ?_
      subst hkept
      refine hrest _ fun b => ?_
      rw [hruns]
      simp only [List.mem_cons, exists_eq_or_imp, or_assoc]
    · have hruns : normalRuns (e :: es) = normalRuns es := by simp [normalRuns, hkind]
      simp only [if_neg hkind]
      refine .bind_and (.pure (Q := fun kept s => kept = [] ∧ Freed s₀ B s) fun s hs => ⟨rfl, hs⟩)
        fun kept hkept => ?_
      subst hkept
      exact hrest _ fun b => by rw [hruns]

def FileState.withoutExtents (s : FileState) (finalized : Bool) : FileState :=
  { s with object := { s.object with payload := .extents [], finalized := finalized } }

def OwnedData (s : FileState) (b : Nat) : Prop :=
  ∃ run ∈ normalRuns s.object.payload.extentList, Exclusive s run b

theorem promoteIfInline_of_mapped {s : FileState} (h : s.object.payload ≠ .inline) : promoteIfInline s = (.ok (), s) := by
  rw [promoteIfInline, bind_of_ok (get_apply s), if_neg]
  · rfl
  · rw [FileObject.isInline, beq_iff_eq]
    exact h

theorem freed_promote (hpayload : s₀.object.payload ≠ .inline) : Total (Freed s₀ B) promoteIfInline fun _ => Freed s₀ B := by
  rintro s ⟨freed, hs, hfreed⟩
  refine ⟨(), s, promoteIfInline_of_mapped ?_, freed, hs, hfreed⟩
  rw [hs.eq]
  exact hpayload

def FileObject.cleared (f : FileObject) : FileObject :=
  { f with logicalSize := 0, payload := .extents [], finalized := true }

theorem emptied_eq_cleared {f : FileObject} (h : f.checksums = []) : f.emptied = f.cleared := by
  simp only [FileObject.emptied, FileObject.cleared, h]

theorem freed_setSize (finalized : Bool) :
    Total (Freed (s₀.withoutExtents finalized) B) (modify fun s => s.setSize 0 : FileM Unit)
      fun _ => Freed { s₀ with object := { s₀.object.cleared with finalized := false } } B :=
  freed_keep fun _ => total_modify rfl fun _ => rfl

theorem freed_finalize :
    Total (Freed { s₀ with object := { s₀.object.cleared with finalized := false } } B) objectFinalize
      fun _ => Freed { s₀ with object := s₀.object.cleared } B :=
  freed_keep fun _ => total_modify rfl fun _ => rfl

theorem freed_logicalBlocks (hsound : s₀.object.Sound s₀.incompatFlags) (hinline : s₀.object.payload ≠ .inline) :
    Total (Freed s₀ B) fileLogicalBlocksVolume fun blocks s => blocks = ceilBlocks s₀.object.logicalSize ∧ Freed s₀ B s :=
  freed_lift fun _ => total_logicalBlocks hsound hinline

theorem ceilBlocks_zero : ceilBlocks 0 = 0 := rfl

theorem freed_dropUnused :
    Total (Freed { s₀ with object := s₀.object.emptied } B) dropUnusedChecksums
      fun _ => Freed { s₀ with object := s₀.object.emptied } B := by
  have hallocated : Total (Freed { s₀ with object := s₀.object.emptied } B) fileAllocatedBlocksVolume
      fun count s => count = 0 ∧ Freed { s₀ with object := s₀.object.emptied } B s :=
    freed_get fun _ _ => .pure fun s hs => ⟨rfl, hs⟩
  refine .bind_and hallocated fun count hcount => ?_
  rw [if_pos hcount]
  exact freed_get fun _ _ => .pure fun s hs => hs

variable (hvalid : s₀.object.Valid s₀.incompatFlags)
include hvalid

theorem total_resizeToZero (hpayload : s₀.object.payload = .extents entries) :
    Total (Freed s₀ B) (resizeExtents 0 (ceilBlocks s₀.object.logicalSize)) fun _ s =>
      ∃ finalized, Freed (s₀.withoutExtents finalized) (fun b => B b ∨ OwnedData s₀ b) s := by
  have hpaged : s₀.object.payload.isPaged = false := by rw [hpayload]; rfl
  refine freed_get fun freed tick => ?_
  rw [if_neg (Nat.not_lt_zero _), if_neg (by rintro ⟨_, h⟩; rw [hpaged] at h; cases h)]
  by_cases hpos : 0 < ceilBlocks s₀.object.logicalSize
  · rw [if_pos hpos]
    refine freed_get fun freed tick => .bind_and (total_truncateLoop hvalid.placed) fun kept hkept => ?_
    subst hkept
    refine (freed_keep fun freed => ?_).post fun _ s hs => ⟨false, hs⟩
    exact total_modify rfl fun _ => rfl
  · -- a file of no blocks has no extents
    rw [if_neg hpos]
    have hentries : entries = [] := by
      have htiled := hvalid.tiled (by rw [hpayload]; simp)
      rw [hpayload, Nat.eq_zero_of_not_pos hpos] at htiled
      cases entries with
      | nil => rfl
      | cons e es =>
        have hbounds := htiled.mem_bounds List.mem_cons_self
        have hle := hbounds.2.2
        rw [Extent.segment_stop, Extent.stop] at hle
        exact absurd hbounds.2.1 (by rw [Extent.segment_count]; omega)
    subst hentries
    refine .pure fun s hs => ⟨s₀.object.finalized, ?_⟩
    have hsame : s₀.withoutExtents s₀.object.finalized = s₀ := by
      rw [FileState.withoutExtents, ← hpayload]
    rw [hsame]
    refine hs.congr fun b => ⟨Or.inl, fun h => h.resolve_right ?_⟩
    rw [OwnedData, hpayload]
    simp [Payload.extentList, normalRuns]

theorem total_truncateClassic (hpayload : s₀.object.payload = .extents entries) (hchecksums : s₀.object.checksums = [])
    (oldSize : Nat) :
    Total (Freed s₀ fun _ => False) (truncateExtents 0 oldSize) fun _ =>
      Freed { s₀ with object := s₀.object.emptied } (Owned s₀) := by
  have hinline : s₀.object.payload ≠ .inline := by rw [hpayload]; simp
  have howned (b : Nat) : (False ∨ OwnedData s₀ b) ↔ Owned s₀ b := by
    rw [Owned, hchecksums, hpayload, OwnedData, hpayload]
    simp [Payload.pageList, Payload.index]
  refine .bind (freed_promote hinline) fun _ =>
    Total.bind_and (freed_logicalBlocks hvalid.toSound hinline) fun present hpresent => ?_
  subst hpresent
  rw [ceilBlocks_zero, if_neg (by simp)]
  refine .bind (total_resizeToZero hvalid hpayload) fun _ => .of_exists fun finalized => ?_
  refine .bind (freed_setSize finalized) fun _ => .bind freed_finalize fun _ => ?_
  rw [← emptied_eq_cleared hchecksums]
  refine .bind (freed_validate (emptied_valid _ _)) fun _ => ?_
  rw [if_neg (by simp)]
  refine .bind freed_dropUnused fun _ => .bind freed_call fun _ => .bind freed_call fun _ => ?_
  exact freed_call.post fun _ s hs => hs.congr howned

end Extents

section Failures

variable {s₀ : FileState} {B : Nat → Prop} {chain : List ChecksumObject}

theorem ends_fail {α : Type} {P : FileState → Prop} (e : Status) : Ends P (fail e : FileM α) fun r => r.1 = .error e :=
  fun _ _ => rfl

theorem ends_validate_invalid (hfinalized : s₀.object.finalized = true) (hinvalid : fileValidate s₀.object = false) :
    Ends (Freed s₀ B) fileValidateVolume fun r => r.1 = .error .corrupt := by
  have hcheck : Total (Freed s₀ B) checkFinalized fun _ => Freed s₀ B := by
    refine freed_keep fun freed s hs => ⟨(), { s with tick := s.tick + 1 }, ?_, hs.calm, ?_⟩
    · rw [checkFinalized, if_pos]
      rw [hs.eq, Bool.or_eq_true]
      exact .inl hfinalized
    · conv_lhs => rw [hs.eq]
  refine hcheck.ends_bind fun _ => freed_ends_get fun _ _ => ?_
  rw [if_pos (by exact hinvalid)]
  exact ends_fail _

theorem ends_destroyLoop {guard : Nat} (hlength : guard < chain.length) :
    Ends (Freed s₀ B) (checksumDestroyLoop guard chain) fun r => r.1 = .error .loopDetected := by
  induction chain generalizing guard B with
  | nil => cases hlength
  | cons c chain ih =>
    cases guard with
    | zero => exact ends_fail _
    | succ guard =>
      rw [checksumDestroyLoop]
      exact freed_call.ends_bind fun _ => (total_freeRun _).ends_bind fun _ => ih (Nat.lt_of_succ_lt_succ hlength)

def FileState.promoted (s : FileState) (allocated : List Segment) (physical : Nat) (chain : List ChecksumObject) : FileState :=
  { s with
    object := { s.object with payload := .extents [⟨0, physical, 1, extentNormal⟩], checksums := chain, finalized := true }
    allocated := allocated
    written := s.written ++ [⟨physical, 1⟩] }

theorem freed_allocBlock : Total (Freed s₀ B) allocBlock fun block s =>
    (∃ t, block = max 1 (s₀.env t).block) ∧ ∃ allocated, Freed { s₀ with allocated := allocated } B s := by
  rintro s ⟨freed, hs, hfreed⟩
  obtain ⟨block, t, hrun, hblock, allocated, ht⟩ := total_allocBlock s hs
  exact ⟨block, t, hrun, hblock, allocated, freed, ht, hfreed⟩

theorem freed_setFirstDigest (hchecksums : s₀.object.checksums = []) :
    Total (Freed s₀ B) (checksumSetRange 0 1) fun _ s =>
      ∃ allocated chain, chain ≠ [] ∧
        Freed { s₀ with object := { s₀.object with checksums := chain, finalized := false }, allocated := allocated } B s := by
  have hobject : Total (Freed s₀ B) (checksumSetObject 0) fun _ s => ∃ allocated chain, chain ≠ [] ∧
      Freed { s₀ with object := { s₀.object with checksums := chain, finalized := false }, allocated := allocated } B s := by
    refine freed_get fun _ _ => ?_
    simp only [hchecksums]
    refine .bind (.bind_and freed_allocBlock fun block _ => .of_exists fun allocated =>
      Total.pure (Q := fun chain s => chain ≠ [] ∧ ∃ allocated, Freed { s₀ with allocated := allocated } B s)
        fun s hs => ⟨List.cons_ne_nil _ _, allocated, hs⟩) fun chain => ?_
    refine .of_and fun hchain => .of_exists fun allocated => .bind freed_call fun _ => ?_
    refine (freed_keep fun _ => ?_).post fun _ s hs => ⟨allocated, chain, hchain, hs⟩
    exact total_modify rfl fun _ => rfl
  rw [checksumSetRange, dif_neg Nat.one_ne_zero]
  refine .bind hobject fun _ => ?_
  rw [checksumSetRange, dif_pos (by decide)]
  exact .pure fun s hs => hs

theorem truncateExtents_promoted {s t : FileState} {size oldSize : Nat} (h : promoteIfInline s = (.ok (), t))
    (ht : t.object.payload ≠ .inline) : truncateExtents size oldSize s = truncateExtents size oldSize t := by
  rw [truncateExtents, bind_of_ok h, bind_of_ok (promoteIfInline_of_mapped ht)]

variable (hvalid : s₀.object.Valid s₀.incompatFlags)
include hvalid

/-- `paged_extent_truncate` refuses to keep nothing. -/
theorem ends_truncatePaged (hpaged : s₀.object.payload.isPaged = true)
    (oldSize : Nat) : Ends (Freed s₀ B) (truncateExtents 0 oldSize) fun r => r.1 = .error .invalidArgument := by
  have hinline := Payload.ne_inline_of_paged hpaged
  have hpos : 0 < ceilBlocks s₀.object.logicalSize := by
    have hvalidated := hvalid.validated
    cases hpayload : s₀.object.payload with
    | inline => exact absurd hpayload hinline
    | extents entries =>
      rw [hpayload] at hpaged
      cases hpaged
    | pages list index =>
      rw [fileValidate, hpayload] at hvalidated
      simp only [Bool.and_eq_true, bne_iff_ne] at hvalidated
      rw [← not_le, ceilBlocks_le_iff]
      omega
  refine (freed_promote hinline).ends_bind fun _ => (freed_logicalBlocks hvalid.toSound hinline).ends_bind fun present => ?_
  refine .of_and fun hpresent => ?_
  subst hpresent
  rw [ceilBlocks_zero, if_neg (by simp)]
  refine .error_bind (freed_ends_get fun _ _ => ?_)
  rw [if_neg (Nat.not_lt_zero _), if_pos ⟨hpos, hpaged⟩]
  refine .error_bind ((freed_pagedSnapshot hvalid.toSound hpaged).ends_bind fun old => .of_and fun _ => ?_)
  rw [if_pos rfl]
  exact ends_fail _

/-- The checksums of a classic file outlive its extents, and the object is refused. -/
theorem ends_truncateChecksummed {entries : List Extent} (hpayload : s₀.object.payload = .extents entries)
    (hchecksums : s₀.object.checksums ≠ []) (oldSize : Nat) :
    Ends (Freed s₀ B) (truncateExtents 0 oldSize) fun r => r.1 = .error .corrupt := by
  have hinline : s₀.object.payload ≠ .inline := by rw [hpayload]; simp
  refine (freed_promote hinline).ends_bind fun _ => (freed_logicalBlocks hvalid.toSound hinline).ends_bind fun present => ?_
  refine .of_and fun hpresent => ?_
  subst hpresent
  rw [ceilBlocks_zero, if_neg (by simp)]
  refine (total_resizeToZero hvalid hpayload).ends_bind fun _ => .of_exists fun finalized => ?_
  refine (freed_setSize finalized).ends_bind fun _ => freed_finalize.ends_bind fun _ => .error_bind ?_
  refine ends_validate_invalid rfl ?_
  simpa [fileValidate, FileObject.cleared] using hchecksums

theorem ends_storeEmpty (hlength : chainGuard < s₀.object.checksums.length) :
    Ends (Freed s₀ B) (fileStoreInline 0) fun r => r.1 = .error .loopDetected := by
  have hne : s₀.object.checksums ≠ [] := by
    intro h
    rw [h] at hlength
    cases hlength
  rw [fileStoreInline, if_neg (by decide)]
  refine (freed_validate hvalid).ends_bind fun _ => freed_ends_get fun _ _ => ?_
  rw [if_neg (by simp)]
  refine .error_bind ((freed_validate hvalid).ends_bind fun _ => .error_bind (freed_ends_get fun _ _ => ?_))
  rw [if_neg (by exact hne)]
  exact freed_ends_get fun _ _ => .error_bind (ends_destroyLoop hlength)

variable (hinline : s₀.object.payload = .inline)
include hinline

theorem promoted_valid {allocated : List Segment} {physical : Nat}
    (hphysical : physical ≠ 0)
    (hplaced : physical + 1 < 2 ^ 64) :
    (s₀.promoted allocated physical chain).object.Valid (s₀.promoted allocated physical chain).incompatFlags := by
  have hvalidated := hvalid.validated
  rw [fileValidate, hinline] at hvalidated
  simp only [Bool.and_eq_true, bne_iff_ne, decide_eq_true_eq] at hvalidated
  rw [inlineDataMax] at hvalidated
  have hone : ceilBlocks s₀.object.logicalSize = 1 := by
    rw [ceilBlocks, blockSize, if_neg (by omega)]
    omega
  have hflags : extentFlagsValid 1 physical extentNormal = true := by
    rw [extentFlagsValid, if_neg Nat.one_ne_zero, if_neg (by decide), if_neg (by simp [hphysical]; decide)]
    decide
  refine ⟨⟨fun _ h => (by cases h), fun _ => ?_⟩, rfl, ?_, fun h => (by cases h), fun h => ?_, fun e he _ => ?_⟩
  · show Tiled (ceilBlocks s₀.object.logicalSize) _
    rw [hone]
    exact ⟨rfl, Nat.one_pos, rfl⟩
  · have hend : extentsEnd 0 [⟨0, physical, 1, extentNormal⟩] = some 1 := by
      rw [extentsEnd, if_neg (by simp [hflags])]
      rfl
    simp only [fileValidate, FileState.promoted, hend, hone]
    rfl
  · simp [FileState.promoted, Payload.extentList, Extent.isCompressed, normal_not_compressed] at h
  · have hcount : extentPhysicalBlocks 1 extentNormal = 1 := by decide
    rw [List.mem_singleton.mp he, Segment.stop, Extent.physical, hcount]
    exact hplaced

theorem freed_promoteInline
    (hblocks : ∀ t, (s₀.env t).block + 2 < 2 ^ 64) :
    Total (Freed s₀ B) promoteIfInline fun _ s => ∃ allocated physical chain,
      (physical ≠ 0 ∧ physical + 1 < 2 ^ 64 ∧ chain ≠ []) ∧ Freed (s₀.promoted allocated physical chain) B s := by
  have hisInline : s₀.object.isInline = true := by rw [FileObject.isInline, hinline]; rfl
  have hpromote : Total (Freed s₀ B) filePromoteInline fun _ s => ∃ allocated physical chain,
      (physical ≠ 0 ∧ physical + 1 < 2 ^ 64 ∧ chain ≠ []) ∧ Freed (s₀.promoted allocated physical chain) B s := by
    refine .bind (freed_validate hvalid) fun _ => freed_get fun _ _ => ?_
    rw [if_neg (by simp [hisInline])]
    refine .bind_and freed_allocBlock fun physical hphysical => .of_exists fun allocated => ?_
    obtain ⟨t, rfl⟩ := hphysical
    have hbound := hblocks t
    have hwrite : Total (Freed { s₀ with allocated := allocated } B) (writeBlocks ⟨max 1 (s₀.env t).block, 1⟩) fun _ =>
        Freed { s₀ with allocated := allocated, written := s₀.written ++ [⟨max 1 (s₀.env t).block, 1⟩] } B :=
      Total.bind (freed_keep fun _ => total_modify rfl fun _ => rfl) fun _ => freed_call
    have hmove : Total (Freed { s₀ with
          allocated := allocated, written := s₀.written ++ [⟨max 1 (s₀.env t).block, 1⟩] } B)
        (modify fun s => (s.setPayload (.extents [⟨0, max 1 (s₀.env t).block, 1, extentNormal⟩])).setChecksums [] : FileM Unit)
        fun _ => Freed { s₀.promoted allocated (max 1 (s₀.env t).block) [] with
          object := { (s₀.promoted allocated (max 1 (s₀.env t).block) []).object with finalized := false } } B :=
      freed_keep fun _ => total_modify rfl fun _ => rfl
    refine .bind hwrite fun _ => .bind hmove fun _ => .bind (freed_setFirstDigest rfl) fun _ => ?_
    refine .of_exists fun allocated' => .of_exists fun chain => .of_and fun hchain => ?_
    have hclose : Total (Freed { s₀.promoted allocated' (max 1 (s₀.env t).block) chain with
          object := { (s₀.promoted allocated' (max 1 (s₀.env t).block) chain).object with finalized := false } } B)
        objectFinalize fun _ => Freed (s₀.promoted allocated' (max 1 (s₀.env t).block) chain) B :=
      freed_keep fun _ => total_modify rfl fun _ => rfl
    refine .bind hclose fun _ => ?_
    refine (freed_validate (promoted_valid hvalid hinline (by omega) (by omega))).post fun _ s hs => ?_
    exact ⟨allocated', _, chain, ⟨by omega, by omega, hchain⟩, hs⟩
  refine freed_get fun _ _ => ?_
  rw [if_pos (by exact hisInline)]
  refine .bind hpromote fun _ => .of_exists fun allocated => .of_exists fun physical =>
    Total.of_exists fun chain => .of_and fun hphysical => ?_
  refine (freed_validate (promoted_valid hvalid hinline hphysical.1 hphysical.2.1)).post fun _ s hs => ?_
  exact ⟨allocated, physical, chain, hphysical, hs⟩

theorem ends_truncateInline
    (hblocks : ∀ t, (s₀.env t).block + 2 < 2 ^ 64) (oldSize : Nat) :
    Ends (Freed s₀ B) (truncateExtents 0 oldSize) fun r => r.1 = .error .corrupt := by
  intro s hs
  obtain ⟨_, t, hrun, allocated, physical, chain, hphysical, ht⟩ := freed_promoteInline hvalid hinline hblocks s hs
  obtain ⟨freed, hsteady, _⟩ := id ht
  have hpayload : t.object.payload ≠ .inline := by
    rw [hsteady.eq]
    exact fun h => (nomatch h)
  rw [truncateExtents_promoted hrun hpayload]
  exact ends_truncateChecksummed (promoted_valid hvalid hinline hphysical.1 hphysical.2.1) rfl hphysical.2.2 oldSize t ht

end Failures

section TruncateToZero

variable {s₀ : FileState}

/-- What a truncation to nothing leaves: an empty object, and every block that
only this file had is free. -/
structure Emptied (s₀ : FileState) (r : Except Status Unit × FileState) : Prop where
  ok : r.1 = .ok ()
  size : r.2.object.logicalSize = 0
  extents : r.2.object.payload = .extents []
  checksums : r.2.object.checksums = []
  released : ∀ b, Segment.covers r.2.freed b = true ↔ Owned s₀ b

/-- The files that a truncation to nothing empties: where small contents are
stored in the object, those with a chain that the guard admits; elsewhere only
classic files without any checksum. -/
def ValidFile.CanEmpty (file : ValidFile) : Prop :=
  if file.incompatFlags &&& incompatInlineData ≠ 0 ∧ file.object.storagePolicy = 0 then
    file.object.checksums.length ≤ chainGuard
  else (∃ entries, file.object.payload = .extents entries) ∧ file.object.checksums = []

theorem emptied_of_freed {s : FileState} (h : Freed { s₀ with object := s₀.object.emptied } (Owned s₀) s) :
    Emptied s₀ (.ok (), s) := by
  obtain ⟨freed, hs, hfreed⟩ := h
  refine ⟨rfl, ?_, ?_, ?_, ?_⟩
  all_goals rw [hs.eq]
  · rfl
  · rfl
  · rfl
  · exact hfreed

theorem inlineEnabled_iff {s : FileState} :
    s.inlineEnabled = true ↔ s.incompatFlags &&& incompatInlineData ≠ 0 ∧ s.object.storagePolicy = 0 := by
  rw [FileState.inlineEnabled, FileState.enabled, Bool.and_eq_true, bne_iff_ne, beq_iff_eq]

theorem total_truncateToZero (hvalid : s₀.object.Valid s₀.incompatFlags) (hwritable : s₀.writable = true)
    (hinline : s₀.inlineEnabled = true → s₀.object.checksums.length ≤ chainGuard)
    (hmapped : ¬s₀.inlineEnabled = true → (∃ entries, s₀.object.payload = .extents entries) ∧ s₀.object.checksums = []) :
    Total (Freed s₀ fun _ => False) (infsTruncateFile 0) fun _ => Freed { s₀ with object := s₀.object.emptied } (Owned s₀) := by
  refine .bind freed_call fun _ => freed_get fun _ _ => ?_
  rw [if_neg (by simp [hwritable])]
  refine .bind freed_call fun _ => .bind (freed_validate hvalid) fun _ => freed_get fun _ _ => ?_
  by_cases henabled : s₀.inlineEnabled = true
  · rw [if_pos (by exact ⟨henabled, Nat.zero_le _⟩), if_pos (Nat.min_zero _)]
    exact total_storeEmpty hvalid (hinline henabled)
  · rw [if_neg (by rintro ⟨h, _⟩; exact henabled h)]
    obtain ⟨⟨entries, hpayload⟩, hchecksums⟩ := hmapped henabled
    exact total_truncateClassic hvalid hpayload hchecksums _

/-- The other files are not emptied: an error of some kind is all they get. -/
theorem ends_truncateToZero (hvalid : s₀.object.Valid s₀.incompatFlags) (hwritable : s₀.writable = true)
    (hblocks : ∀ t, (s₀.env t).block + 2 < 2 ^ 64)
    (hcannot : ¬if s₀.inlineEnabled = true then s₀.object.checksums.length ≤ chainGuard
      else (∃ entries, s₀.object.payload = .extents entries) ∧ s₀.object.checksums = []) :
    ∃ e, Ends (Freed s₀ fun _ => False) (infsTruncateFile 0) fun r => r.1 = .error e := by
  have hbody {e : Status} (h : Ends (Freed s₀ fun _ => False) (do
      if s₀.inlineEnabled = true ∧ 0 ≤ inlineDataMax then do
        if min s₀.object.logicalSize 0 = 0 then pure () else call
        fileStoreInline 0
        storeInlineObject
        call
      else truncateExtents 0 s₀.object.logicalSize) fun r => r.1 = .error e) :
      ∃ e, Ends (Freed s₀ fun _ => False) (infsTruncateFile 0) fun r => r.1 = .error e := by
    refine ⟨e, freed_call.ends_bind fun _ => freed_ends_get fun _ _ => ?_⟩
    rw [if_neg (by simp [hwritable])]
    exact freed_call.ends_bind fun _ => (freed_validate hvalid).ends_bind fun _ => freed_ends_get fun _ _ => h
  by_cases henabled : s₀.inlineEnabled = true
  · rw [if_pos henabled, not_le] at hcannot
    refine hbody (e := .loopDetected) ?_
    rw [if_pos ⟨henabled, Nat.zero_le _⟩, if_pos (Nat.min_zero _)]
    exact .error_bind (ends_storeEmpty hvalid hcannot)
  · rw [if_neg henabled] at hcannot
    have hextents {e : Status} (h : Ends (Freed s₀ fun _ => False) (truncateExtents 0 s₀.object.logicalSize)
        fun r => r.1 = .error e) : ∃ e, Ends (Freed s₀ fun _ => False) (infsTruncateFile 0) fun r => r.1 = .error e := by
      refine hbody (e := e) ?_
      rw [if_neg (by rintro ⟨h, _⟩; exact henabled h)]
      exact h
    cases hpayload : s₀.object.payload with
    | inline => exact hextents (ends_truncateInline hvalid hpayload hblocks _)
    | pages list index => exact hextents (ends_truncatePaged hvalid (by rw [hpayload]; rfl) _)
    | extents entries =>
      have hchecksums : s₀.object.checksums ≠ [] := fun h => hcannot ⟨⟨entries, hpayload⟩, h⟩
      exact hextents (ends_truncateChecksummed hvalid hpayload hchecksums _)

/-- Which files a truncation to nothing empties when no call fails. -/
theorem truncate_to_zero_empties_iff (file : ValidFile) (others : List Extent) :
    (∀ env, (∀ t, (env t).status = .ok) →
      Emptied (file.start true others env) ((FileCall.truncateFile 0).run (file.start true others env))) ↔
      file.CanEmpty := by
  have hcan (env : Nat → Answer) : file.CanEmpty ↔ if (file.start true others env).inlineEnabled = true then
      file.object.checksums.length ≤ chainGuard
      else (∃ entries, file.object.payload = .extents entries) ∧ file.object.checksums = [] := by
    have henabled : (file.start true others env).inlineEnabled = true ↔
        file.incompatFlags &&& incompatInlineData ≠ 0 ∧ file.object.storagePolicy = 0 := inlineEnabled_iff
    rw [ValidFile.CanEmpty]
    exact iff_of_eq (if_congr henabled.symm rfl rfl)
  constructor
  · intro h
    by_contra hcannot
    rw [hcan calmEnv] at hcannot
    obtain ⟨e, hends⟩ := @ends_truncateToZero (file.start true others calmEnv) file.valid rfl
      (fun _ => show 1 + 2 < 2 ^ 64 by decide) hcannot
    have hok := (h calmEnv fun _ => rfl).ok
    rw [FileCall.run, hends _ (freed_start (fun _ => rfl) rfl)] at hok
    cases hok
  · intro h env henv
    rw [hcan env] at h
    have hfreed := freed_start (s := file.start true others env) henv rfl
    obtain ⟨_, t, hrun, ht⟩ := total_truncateToZero file.valid rfl (fun hi => by rwa [if_pos hi] at h)
      (fun hi => by rwa [if_neg hi] at h) _ hfreed
    rw [FileCall.run, hrun]
    exact emptied_of_freed ht

/-- A block of data with its digest, in a file of which two copies are kept. -/
def protectedFile : ValidFile where
  incompatFlags := incompatInlineData
  object :=
    { logicalSize := 4096
      portableFlags := 0x0002000000000000
      payload := .extents [⟨0, 100, 1, extentNormal⟩]
      checksums := [⟨101, 0⟩]
      finalized := true }
  valid := by
    refine ⟨⟨fun _ h => (nomatch h), fun _ => ⟨rfl, by decide, rfl⟩⟩, rfl, by decide, fun h => (nomatch h), fun h => ?_,
      fun e he _ => ?_⟩
    · revert h
      decide
    · rw [List.mem_singleton.mp he]
      decide

/-- It is refused as corrupt although every call succeeds. -/
theorem protected_file_not_emptied :
    ((FileCall.truncateFile 0).run (protectedFile.start true [] calmEnv)).1 = .error .corrupt ∧
      ∀ t, (calmEnv t).status = .ok :=
  ⟨by decide +kernel, fun _ => rfl⟩

end TruncateToZero

end InfiltratorFS.File
