import InfiltratorFS.File.Calm
import InfiltratorFS.File.Compressed
import InfiltratorFS.File.Steps

namespace InfiltratorFS.File

open Prog

section Cut

variable {s₀ : FileState} {event : FileEvent} {P : FileState → Prop} {size : Nat}

def Has {α : Type} (event : FileEvent) (r : Except Status α × FileState) : Prop := event ∈ r.2.events

theorem ends_bind_walks {α β : Type} {x : FileM α} {f : α → FileM β} (hx : Ends P x (Has event))
    (hf : ∀ a, Walks (f a)) : Ends P (x >>= f) (Has event) := by
  intro s hs
  have hevent := hx s hs
  rcases hrun : x s with ⟨e | a, t⟩
  · rw [Has, hrun] at hevent
    rwa [bind_of_error hrun]
  · rw [Has, hrun] at hevent
    rw [bind_of_ok hrun]
    exact (hf a t).events hevent

theorem ends_replaceRange (start count physical : Nat) (flags : UInt32) :
    Ends (Steady s₀) (fileReplaceRange start count physical flags)
      (Has (.replace start count s₀.object.payload.extentList)) := by
  refine ends_get fun tick => ?_
  have hnote : Total (Steady s₀) (note (.replace start count s₀.object.payload.extentList))
      (fun _ s => FileEvent.replace start count s₀.object.payload.extentList ∈ s.events) :=
    Total.modify fun s _ => List.mem_append_right _ (List.mem_singleton_self _)
  refine hnote.ends_bind fun _ s hs => FileSteps.events ?_ hs
  exact of_ite (C := Walks) (walks_fail _) (of_ite (walks_pagedExtentReplaceRebuild _) (walks_classicReplaceRange _)) s

theorem ends_replaceBlock (logical : Nat) :
    Ends (Steady s₀) (replaceBlock logical) (Has (.replace logical 1 s₀.object.payload.extentList)) := by
  refine total_allocBlock.ends_bind fun replacement => ?_
  rintro s ⟨_, allocated, hs⟩
  have hwrite : Total (Steady { s₀ with allocated := allocated }) (writeBlocks ⟨replacement, 1⟩) fun _ =>
      Steady { s₀ with allocated := allocated, written := s₀.written ++ [⟨replacement, 1⟩] } :=
    Total.bind (total_modify rfl fun _ => rfl) fun _ => total_call
  have hrest : Ends (Steady { s₀ with allocated := allocated }) (do
      writeBlocks ⟨replacement, 1⟩
      fileReplaceRange logical 1 replacement extentNormal) (Has (.replace logical 1 s₀.object.payload.extentList)) :=
    hwrite.ends_bind fun _ => ends_replaceRange logical 1 replacement extentNormal
  exact hrest s hs

theorem valid_resized {flags : UInt64} {f : FileObject} (hvalid : f.Valid flags) (hinline : f.payload ≠ .inline)
    (hblocks : ceilBlocks size = ceilBlocks f.logicalSize) (hsize : size ≠ 0) (hold : f.logicalSize ≠ 0) :
    FileObject.Valid flags { f with logicalSize := size, finalized := true } := by
  refine ⟨⟨hvalid.pages, fun h => hblocks ▸ hvalid.tiled h⟩, rfl, ?_, hvalid.inline, hvalid.compressed, hvalid.placed⟩
  have hvalidated := hvalid.validated
  obtain ⟨oldSize, policy, payload, checksums, finalized⟩ := f
  cases payload with
  | inline => exact absurd rfl hinline
  | pages list index => simpa [fileValidate, hsize, hold] using hvalidated
  | extents entries =>
    cases entries with
    | nil => simp [fileValidate, hold] at hvalidated
    | cons e es => simpa [fileValidate, hblocks] using hvalidated

variable (hvalid : s₀.object.Valid s₀.incompatFlags)
include hvalid

variable {e : Extent}

theorem ends_zeroTail {logical : Nat}
    (he : e ∈ s₀.object.payload.extentList) (hcompressed : e.isCompressed = true) (hholds : holds logical e = true) :
    Ends (Steady s₀) (zeroTail logical) (Has (.replace logical 1 s₀.object.payload.extentList)) := by
  have hinline : s₀.object.payload ≠ .inline := by
    intro h
    rw [h] at he
    cases he
  refine (total_mapBlock hvalid.toSound hinline he hholds).ends_bind fun mapped => ?_
  rintro s ⟨rfl, hs⟩
  rw [if_pos (extentKind_of_compressed hcompressed)]
  refine total_call.ends_bind (fun _ => ?_) s hs
  exact ends_bind_walks (ends_replaceBlock logical) fun _ => (builds_tame.checksumSetRange _ _).walks

theorem ends_truncateExtents
    (hblocks : ceilBlocks size = ceilBlocks s₀.object.logicalSize) (hlt : size < s₀.object.logicalSize)
    (htailed : size % blockSize ≠ 0) (he : e ∈ s₀.object.payload.extentList) (hcompressed : e.isCompressed = true)
    (hholds : holds (ceilBlocks size - 1) e = true) :
    Ends (Steady s₀) (truncateExtents size s₀.object.logicalSize)
      (Has (.replace (ceilBlocks size - 1) 1 s₀.object.payload.extentList)) := by
  have hinline : s₀.object.payload ≠ .inline := by
    intro h
    rw [h] at he
    cases he
  have hsize : size ≠ 0 := by
    rintro rfl
    exact htailed rfl
  have htarget : 0 < ceilBlocks size := by
    rw [← not_le, ceilBlocks_le_iff]
    omega
  have hpromote : Total (Steady s₀) promoteIfInline fun _ => Steady s₀ := by
    refine total_get fun tick => ?_
    rw [if_neg]
    · exact .pure fun s hs => hs
    · rw [FileObject.isInline, beq_iff_eq]
      exact hinline
  have hresize : Total (Steady s₀) (resizeExtents (ceilBlocks size) (ceilBlocks s₀.object.logicalSize))
      fun _ => Steady s₀ := by
    refine total_get fun tick => ?_
    rw [if_neg (by omega), if_neg (by omega), if_neg (by omega)]
    exact .pure fun s hs => hs
  refine hpromote.ends_bind fun _ => (total_logicalBlocks hvalid.toSound hinline).ends_bind fun present => ?_
  rintro s ⟨rfl, hs⟩
  rw [if_neg (by omega)]
  refine hresize.ends_bind (fun _ => ?_) s hs
  refine (total_modify rfl fun _ => rfl).ends_bind fun _ => (total_modify rfl fun _ => rfl).ends_bind fun _ => ?_
  have hvalid' := valid_resized hvalid hinline hblocks hsize (by omega)
  refine (total_validate_of_valid hvalid').ends_bind fun _ => ?_
  rw [if_pos ⟨hlt, htarget, htailed⟩]
  exact ends_bind_walks (ends_zeroTail hvalid' he hcompressed hholds) fun _ => composes_walks.storeExtents

theorem ends_truncateFile
    (hwritable : s₀.writable = true) (hlarge : ¬(s₀.inlineEnabled = true ∧ size ≤ inlineDataMax))
    (hblocks : ceilBlocks size = ceilBlocks s₀.object.logicalSize) (hlt : size < s₀.object.logicalSize)
    (htailed : size % blockSize ≠ 0) (he : e ∈ s₀.object.payload.extentList) (hcompressed : e.isCompressed = true)
    (hholds : holds (ceilBlocks size - 1) e = true) :
    Ends (Steady s₀) (infsTruncateFile size)
      (Has (.replace (ceilBlocks size - 1) 1 s₀.object.payload.extentList)) := by
  refine total_call.ends_bind fun _ => ends_get fun tick => ?_
  rw [if_neg (by rw [hwritable]; simp)]
  refine total_call.ends_bind fun _ => (total_validate_of_valid hvalid).ends_bind fun _ => ends_get fun tick => ?_
  rw [if_neg]
  · exact ends_truncateExtents hvalid hblocks hlt htailed he hcompressed hholds
  · exact hlarge

end Cut

section Mutators

/-- No compressed extent was cut or about to be cut, and the run was not
refused unless a call refused it. -/
def LeavesWhole (env : Nat → Answer) (r : Except Status Unit × FileState) : Prop :=
  (∀ event ∈ r.2.events, event.Respects) ∧ (r.1 = .error .notSupported → ∃ t, (env t).status = .notSupported)

def ValidFile.StoresInline (file : ValidFile) (size : Nat) : Prop :=
  file.incompatFlags &&& incompatInlineData ≠ 0 ∧ file.object.storagePolicy = 0 ∧ size ≤ inlineDataMax

/-- The calls that do not shorten a file within its last block, or find no
compressed extent of more blocks there. -/
def FileCall.Safe (file : ValidFile) : FileCall → Prop
  | .truncateFile size =>
    file.StoresInline size ∨ TailSafe size file.object.logicalSize file.object.payload.extentList
  | _ => True

variable (file : ValidFile)

theorem ValidFile.laid : Laid file.object.logicalSize file.object.payload := by
  by_cases h : file.object.payload = .inline
  · have hvalidated := file.valid.validated
    rw [fileValidate, h] at hvalidated
    simp only [Bool.and_eq_true, bne_iff_ne, decide_eq_true_eq] at hvalidated
    exact .inl ⟨h, by omega, hvalidated.1.2⟩
  · exact .inr ⟨h, file.valid.tiled h⟩

theorem storesInline_iff {file : ValidFile} {writable : Bool} {others : List Extent} {env : Nat → Answer} {size : Nat} :
    ((file.start writable others env).inlineEnabled = true ∧ size ≤ inlineDataMax) ↔ file.StoresInline size := by
  rw [FileState.inlineEnabled, FileState.enabled, Bool.and_eq_true, bne_iff_ne, beq_iff_eq, and_assoc]
  exact Iff.rfl

theorem ValidFile.begun (writable : Bool) (others : List Extent) (env : Nat → Answer) :
    Begun env (file.start writable others env) (file.start writable others env) :=
  ⟨rfl, rfl, rfl, rfl, fun _ h => (nomatch h), rfl⟩

theorem leavesWhole_of_triple {P : FileState → Prop} {x : FileM Unit} {env : Nat → Answer} {s : FileState}
    (h : Triple P x (fun _ => Ready env fun _ => True) (Blameless env)) (hs : P s) : LeavesWhole env (x s) := by
  obtain ⟨hok, herror⟩ := h s hs
  rcases hrun : x s with ⟨e | a, t⟩
  · obtain ⟨hrespects, hblame⟩ := herror e t hrun
    refine ⟨hrespects, fun he => hblame ?_⟩
    cases he
    rfl
  · exact ⟨(hok a t hrun).respected, fun he => nomatch he⟩

theorem leavesWhole_of_safe (writable : Bool) (others : List Extent) (env : Nat → Answer) (c : FileCall)
    (hsafe : writable = true → c.Safe file) : LeavesWhole env (c.run (file.start writable others env)) := by
  have hbegun := file.begun writable others env
  cases c with
  | writeFile offset size =>
    refine leavesWhole_of_triple (infsWriteFile_spec offset size) (hbegun.ready.mono ?_)
    rintro p rfl
    exact file.laid.imp (·.1) fun h => ⟨_, h.2⟩
  | truncateFile size =>
    refine leavesWhole_of_triple (infsTruncateFile_spec file.laid fun hwritable hlarge => ?_) hbegun
    exact (hsafe hwritable).resolve_left fun h => hlarge (storesInline_iff.mpr h)
  | punchHole offset length => exact leavesWhole_of_triple (infsPunchHole_spec file.laid) hbegun

theorem safe_of_leavesWhole (others : List Extent) (c : FileCall)
    (h : LeavesWhole calmEnv (c.run (file.start true others calmEnv))) : c.Safe file := by
  cases c with
  | writeFile offset size => exact trivial
  | punchHole offset length => exact trivial
  | truncateFile size =>
    by_contra hunsafe
    obtain ⟨hlarge, htail⟩ := not_or.mp hunsafe
    obtain ⟨hblocks, hlt, htailed, hcut⟩ : ceilBlocks size = ceilBlocks file.object.logicalSize ∧
        size < file.object.logicalSize ∧ size % blockSize ≠ 0 ∧
        ¬Contains (ceilBlocks size - 1) 1 file.object.payload.extentList := by
      simpa only [TailSafe, Classical.not_imp] using htail
    obtain ⟨e, he, hcompressed, hbefore, hafter⟩ : ∃ e ∈ file.object.payload.extentList, e.isCompressed = true ∧
        e.logicalBlock < ceilBlocks size - 1 + 1 ∧ ceilBlocks size - 1 < e.stop := by
      by_contra hnone
      push Not at hnone
      exact hcut fun e he hc hbefore hafter => absurd hafter (not_lt.mpr (hnone e he hc hbefore))
    have hevent := ends_truncateFile file.valid rfl (fun hs => hlarge (storesInline_iff.mp hs)) hblocks hlt htailed he
      hcompressed (holds_iff.mpr ⟨Nat.lt_succ_iff.mp hbefore, hafter⟩) (file.start true others calmEnv)
      (Steady.refl fun _ => rfl)
    exact hcut (h.1 _ hevent)

/-- Which calls leave the compressed extents of which files whole, whatever
the code around them answers. -/
theorem mutators_leave_compressed_extents_whole_iff (file : ValidFile) (writable : Bool) (others : List Extent)
    (c : FileCall) :
    (∀ env, LeavesWhole env (c.run (file.start writable others env))) ↔ (writable = true → c.Safe file) := by
  constructor
  · rintro h rfl
    exact safe_of_leavesWhole file others c (h calmEnv)
  · intro hsafe env
    exact leavesWhole_of_safe file writable others env c hsafe

def compressedPair : Extent := ⟨0, 100, 2, extentCompressedFlags compressionIac1 1000⟩

def compressedFile : ValidFile where
  incompatFlags := incompatCompressedExtents
  object :=
    { logicalSize := 8192
      portableFlags := 0
      payload := .extents [compressedPair]
      checksums := []
      finalized := true }
  valid := by
    refine ⟨⟨fun _ h => (nomatch h), fun _ => ⟨rfl, by decide, rfl⟩⟩, rfl, by decide, fun h => (nomatch h), fun _ => by decide,
      fun e he _ => ?_⟩
    rw [List.mem_singleton.mp he]
    decide

/-- A truncation within the last block is refused although every call succeeds. -/
theorem truncate_within_compressed_pair_refused :
    ((FileCall.truncateFile 5000).run (compressedFile.start true [] calmEnv)).1 = .error .notSupported ∧
      (∀ t, (calmEnv t).status = .ok) ∧
      ∃ event ∈ ((FileCall.truncateFile 5000).run (compressedFile.start true [] calmEnv)).2.events, ¬event.Respects := by
  have hevents : ((FileCall.truncateFile 5000).run (compressedFile.start true [] calmEnv)).2.events =
      [.replace 1 1 [compressedPair]] := by decide +kernel
  refine ⟨by decide +kernel, fun _ => rfl, .replace 1 1 [compressedPair], ?_, fun h => ?_⟩
  · rw [hevents]
    exact List.mem_singleton_self _
  · exact absurd (h compressedPair List.mem_cons_self rfl (by decide) (by decide)) (by decide)

end Mutators

end InfiltratorFS.File
