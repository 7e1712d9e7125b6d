import InfiltratorFS.File.Quiet

namespace InfiltratorFS.File

open Prog Segment

section Consequences

variable {s t : FileState} {answers : Nat → Answer}

theorem FileSteps.events (h : FileSteps s t) {event : FileEvent} (hevent : event ∈ s.events) : event ∈ t.events := by
  induction h with
  | refl => exact hevent
  | tail _ hstep ih =>
    cases hstep with
    | note event => exact List.mem_append_left _ ih
    | answer | change | allocate | free | write => exact ih

/-- What the operation has written it has allocated, and what it has allocated
was handed out to it. -/
structure Tidy (answers : Nat → Answer) (s : FileState) : Prop where
  env : s.env = answers
  handed : ∀ b, covers s.allocated b = true → ∃ n, (answers n).run.contains b = true
  written : ∀ b, covers s.written b = true → covers s.allocated b = true

theorem FileStep.tidy (h : FileStep s t) (hs : Tidy answers s) : Tidy answers t := by
  obtain ⟨henv, hhanded, hwritten⟩ := hs
  cases h with
  | answer | change | note | free => exact ⟨henv, hhanded, hwritten⟩
  | allocate n run hrun =>
    refine ⟨henv, fun b hb => ?_, fun b hb => ?_⟩
    · simp only [covers_append, covers_cons, covers_nil, Bool.or_false, Bool.or_eq_true] at hb
      rcases hb with hb | hb
      · exact hhanded b hb
      · exact ⟨n, henv ▸ hrun b hb⟩
    · rw [covers_append, hwritten b hb, Bool.true_or]
  | write run hrun =>
    refine ⟨henv, hhanded, fun b hb => ?_⟩
    simp only [covers_append, covers_cons, covers_nil, Bool.or_false, Bool.or_eq_true] at hb
    rcases hb with hb | hb
    · exact hwritten b hb
    · exact hrun b hb

theorem FileSteps.tidy (h : FileSteps s t) (hs : Tidy answers s) : Tidy answers t := by
  induction h with
  | refl => exact hs
  | tail _ hstep ih => exact hstep.tidy ih

end Consequences

section Rewriting

theorem walks_pagedExtentRewriteAll (entries : List Extent) (converting : Bool) :
    Walks (pagedExtentRewriteAll entries converting) := by
  apply of_ite (walks_fail _)
  apply of_ite (walks_fail _)
  apply walks_bind walks_call
  intro _
  apply walks_bind walks_get
  intro s
  apply walks_bind (tame_storePages _ _).walks
  intro stored
  apply walks_bind (tame_freeEach (tame_pure ()) _).walks
  intro _
  apply walks_bind (tame_freeEach tame_call _).walks
  intro _
  exact of_ite (walks_bind (walks_pure _) fun _ => walks_change fun _ => rfl)
    (walks_bind (tame_extentPointerTreeBuild _ _).walks fun _ => walks_change fun _ => rfl)

theorem walks_replaceLoop {new : Extent} {capacity : Nat} {release : List Segment → FileM Unit}
    (hrelease : ∀ runs, Walks (release runs)) (acc : Rebuild) (entries : List Extent) :
    Walks (replaceLoop new capacity release acc entries) := by
  have hextent (acc : Rebuild) (e : Extent) : Walks (replaceExtent new capacity release acc e) := by
    rw [replaceExtent]
    split
    · exact walks_fail _
    · apply of_ite (walks_bind (walks_ofExcept _) fun _ => walks_pure _)
      apply of_ite (walks_fail _)
      exact walks_bind (walks_ofExcept _) fun _ => walks_bind (walks_ofExcept _) fun _ => walks_bind (hrelease _) fun _ =>
        walks_bind (walks_ofExcept _) fun _ => walks_pure _
  induction entries generalizing acc with
  | nil => exact walks_pure _
  | cons e es ih => exact walks_bind (hextent acc e) fun acc => ih acc

theorem walks_pagedExtentReplaceRebuild (new : Extent) : Walks (pagedExtentReplaceRebuild new) :=
  walks_bind reads_pagedExtentSnapshot.walks fun _ => of_ite (walks_fail _) (walks_bind walks_call fun _ =>
    walks_bind (walks_replaceLoop (fun runs => (tame_freeRuns runs).walks) _ _) fun _ =>
      of_ite (walks_fail _) (walks_pagedExtentRewriteAll _ _))

theorem walks_classicReplaceRange (new : Extent) : Walks (classicReplaceRange new) :=
  walks_bind walks_get fun _ => walks_bind walks_call fun _ =>
    walks_bind (walks_replaceLoop (fun _ => walks_pure ()) _ _) fun _ => of_ite (walks_fail _)
      (of_ite (walks_bind (walks_change fun _ => rfl) fun _ => (tame_freeRuns _).walks)
        (walks_bind (walks_pagedExtentRewriteAll _ _) fun _ => (tame_freeRuns _).walks))

theorem walks_fileReplaceRange (start count physical : Nat) (flags : UInt32) :
    Walks (fileReplaceRange start count physical flags) :=
  walks_bind walks_get fun _ => walks_bind (walks_note _) fun _ => of_ite (walks_fail _)
    (of_ite (walks_pagedExtentReplaceRebuild _) (walks_classicReplaceRange _))

theorem walks_pagedExtentEnsure (needed : Nat) : Walks (pagedExtentEnsure needed) :=
  walks_bind reads_pagedExtentSnapshot.walks fun _ => of_ite (walks_fail _) (of_ite (walks_pure ())
    (of_ite (walks_fail _) (walks_bind walks_call fun _ => walks_bind (walks_ofExcept _) fun _ =>
      walks_pagedExtentRewriteAll _ _)))

theorem walks_fileEnsureLogicalBlocks (needed : Nat) : Walks (fileEnsureLogicalBlocks needed) :=
  walks_bind reads_fileValidateVolume.walks fun _ => walks_bind reads_fileLogicalBlocksVolume.walks fun _ =>
    walks_bind walks_get fun _ => of_ite (walks_pure ()) (of_ite (walks_pagedExtentEnsure _)
      (of_ite (walks_bind (walks_pagedExtentRewriteAll _ _) fun _ => walks_pagedExtentEnsure _)
        (walks_change fun _ => rfl)))

theorem walks_truncateLoop (target : Nat) (entries : List Extent) : Walks (truncateLoop target entries) := by
  have hextent (e : Extent) : Walks (truncateExtent target e) := by
    apply of_ite
    · exact walks_when (tame_fileFreeUnsharedRun _).walks fun _ => walks_pure _
    · exact walks_bind (walks_note _) fun _ => of_ite (walks_fail _)
        (walks_when (tame_fileFreeUnsharedRun _).walks fun _ => walks_pure _)
  induction entries with
  | nil => exact walks_pure _
  | cons e es ih => exact walks_bind (hextent e) fun _ => walks_bind ih fun _ => walks_pure _

theorem walks_resizeExtents (target present : Nat) : Walks (resizeExtents target present) := by
  have hpaged : Walks (pagedExtentTruncate target) :=
    walks_bind reads_pagedExtentSnapshot.walks fun old => of_ite (walks_fail _) (walks_bind walks_call fun _ =>
      walks_bind (walks_truncateLoop _ _) fun _ => of_ite (walks_fail _) (walks_pagedExtentRewriteAll _ _))
  have hclassic : Walks (classicTruncate target) :=
    walks_bind walks_get fun s => walks_bind (walks_truncateLoop _ _) fun _ => walks_change fun _ => rfl
  exact walks_bind walks_get fun s => of_ite (walks_fileEnsureLogicalBlocks _)
    (of_ite (walks_bind hpaged fun _ => reads_fileValidateVolume.walks) (of_ite hclassic (walks_pure ())))

end Rewriting

section Parts

theorem walks_fileMaterializeCompressedExtent (e : Extent) : Walks (fileMaterializeCompressedExtent e) := by
  apply of_ite (walks_pure ())
  apply walks_bind walks_call
  intro _
  exact walks_allocWriteExact fun _ => walks_bind (walks_fileReplaceRange _ _ _ _) fun _ =>
    walks_bind walks_finalize fun _ => reads_fileValidateVolume.walks

theorem walks_fileStoreInline (size : Nat) : Walks (fileStoreInline size) :=
  of_ite (walks_fail _) (walks_bind reads_fileValidateVolume.walks fun _ => walks_bind walks_get fun _ =>
    of_ite (walks_fail _) (walks_bind tame_fileReleaseExternalStorage.walks fun _ => walks_change fun _ => rfl))

theorem walks_filePromoteInline : Walks filePromoteInline :=
  walks_bind reads_fileValidateVolume.walks fun _ => walks_bind walks_get fun _ => of_ite (walks_pure ())
    (walks_allocWrite fun _ => walks_bind (walks_change fun _ => rfl) fun _ =>
      walks_bind (builds_tame.checksumSetRange _ _).walks fun _ => walks_bind walks_finalize fun _ => reads_fileValidateVolume.walks)

theorem walks_replaceBlock (logical : Nat) : Walks (replaceBlock logical) :=
  walks_allocWrite fun _ => walks_fileReplaceRange _ _ _ _

theorem walks_writeBlockData (logical : Nat) (mapped : Nat × UInt32) (fullOverwrite : Bool) :
    Walks (writeBlockData logical mapped fullOverwrite) := by
  intro s
  apply steps_bind (walks_get s)
  rintro u t ⟨⟩
  have hstore {t : FileState} (ht : t.allocated = s.allocated) : FileSteps t
      ((if (extentKind mapped.2 == extentHole || !txBlockPrivate s mapped.1) = true then replaceBlock logical
        else writeBlocks ⟨mapped.1, 1⟩) t).2 := by
    split
    · exact walks_replaceBlock logical t
    · rename_i hprivate
      refine steps_writeBlocks fun b hb => ?_
      rw [contains_iff, Segment.stop] at hb
      obtain rfl : b = mapped.1 := by
        dsimp only at hb
        omega
      rw [ht]
      simp only [Bool.or_eq_true, Bool.not_eq_true', not_or, Bool.not_eq_false] at hprivate
      exact hprivate.2
  dsimp only
  split
  · exact steps_bind (walks_pure () s) fun _ t h => hstore (by cases h; rfl)
  · refine steps_bind (walks_call s) fun _ t h => hstore ?_
    obtain ⟨_, u, hu, hrest⟩ := bind_eq_ok.mp h
    obtain ⟨_, rfl⟩ := request_ok hu
    cases hrest
    rfl

end Parts

section Calls

/-- The same for a call. -/
structure Composes (C : ∀ {α : Type}, FileM α → Prop) : Prop extends Builds C where
  fail : ∀ {α : Type} (e : Status), C (Prog.fail e : FileM α)
  note : ∀ event, C (note event)
  setSize : ∀ size : FileState → Nat, C (modify fun s => s.setSize (size s))
  destroyChecksums : C destroyChecksums
  materialize : ∀ e, C (fileMaterializeCompressedExtent e)
  promote : C filePromoteInline
  storeInline : ∀ size, C (fileStoreInline size)
  ensure : ∀ needed, C (fileEnsureLogicalBlocks needed)
  resize : ∀ target present, C (resizeExtents target present)
  replaceBlock : ∀ logical, C (replaceBlock logical)
  writeBlockData : ∀ logical mapped full, C (writeBlockData logical mapped full)
  storeRun : ∀ {logical wanted : Nat} {f : Unit → FileM Unit}, (∀ u, C (f u)) → C (do
    let stored ← fileStoreExtentPayload wanted
    fileReplaceRange logical wanted stored.1 stored.2 >>= f)
  punch : ∀ logical count, C (fileReplaceRange logical count 0 extentHole)

namespace Composes

variable {C : ∀ {α : Type}, FileM α → Prop} (hC : Composes C)

include hC

theorem get : C (Prog.get : FileM FileState) := hC.reads reads_get

theorem materializeAndValidate (e : Extent) : C (materializeAndValidate e) :=
  of_ite (hC.pure ()) (hC.bind (hC.materialize e) fun _ => hC.validate)

variable (logical : Nat)

theorem materializeAt : C (fileMaterializeCompressedAt logical) :=
  hC.bind (hC.reads (reads_fileExtentLookup logical)) fun e => hC.materializeAndValidate e

theorem materializeRange (start count : Nat) : C (fileMaterializeCompressedRange start count) := by
  have hloop (cursor stop : Nat) : C (materializeLoop cursor stop) := by
    fun_induction materializeLoop cursor stop with
    | case1 cursor _ ih =>
      apply hC.bind (hC.reads (reads_fileExtentLookup cursor))
      intro e
      split
      · exact hC.fail _
      · apply hC.bind (hC.materializeAndValidate e)
        intro _
        split
        · exact hC.fail _
        · exact ih e ‹_› ‹_›
    | case2 => exact hC.pure ()
  rw [fileMaterializeCompressedRange]
  split
  · exact hC.fail _
  · exact hloop _ _

theorem promoteIfInline : C promoteIfInline :=
  hC.bind hC.get fun _ => of_ite (hC.bind hC.promote fun _ => hC.validate) (hC.pure ())

theorem remapCompressed (mapped : Nat × UInt32) : C (remapCompressed logical mapped) :=
  of_ite (hC.pure _) (hC.bind (hC.materializeAt _) fun _ => hC.bind (hC.reads (reads_fileMapBlock _)) fun _ =>
    hC.bind (hC.note _) fun _ => of_ite (hC.fail _) (hC.pure _))

theorem writeLoop (offset size done : Nat) (pending : Pending) : C (writeLoop offset size done pending) := by
  fun_induction File.writeLoop offset size done pending with
  | case1 done pending _ logical within chunk ihBatch ihBlock =>
    apply hC.bind (hC.reads (reads_fileMapBlock _))
    intro mapped
    apply hC.bind (hC.remapCompressed _ _)
    intro mapped
    split
    · apply hC.bind (hC.reads (reads_holeBlocks _))
      intro hole
      split
      · exact hC.fail _
      · exact hC.bind (hC.checksumSetRange _ _) fun _ => hC.storeRun fun _ => hC.bind (hC.digestLoop _ _) fun _ =>
          ihBatch mapped ‹_› hole ‹_›
    · exact hC.bind (hC.writeBlockData _ _ _) fun _ => hC.bind (hC.pushDigest _ _) fun _ => ihBlock _
  | case2 => exact hC.checksumSetRange _ _

theorem infsWriteFile (offset size : Nat) : C (infsWriteFile offset size) := by
  have hextents : C (writeExtents size offset) :=
    hC.bind hC.promoteIfInline fun _ => hC.bind (hC.ensure _) fun _ => hC.bind (hC.setSize _) fun _ =>
      hC.bind hC.finalize fun _ => hC.bind hC.validate fun _ => hC.bind (hC.writeLoop _ _ _ _) fun _ =>
        hC.bind hC.call fun _ => hC.bind hC.call fun _ => hC.pure _
  have hinline (bytes : Nat) : C (do
      fileValidateVolume
      File.call
      fileStoreInline bytes
      File.storeInlineObject
      Pure.pure size) :=
    hC.bind hC.validate fun _ => hC.bind hC.call fun _ => hC.bind (hC.storeInline _) fun _ =>
      hC.bind hC.storeInlineObject fun _ => hC.pure _
  have hlookup : C (writeFileLookupTx size offset) :=
    hC.bind hC.get fun s => of_ite (hC.fail _) (of_ite (hC.fail _) (of_ite (hC.pure _)
      (hC.bind hC.call fun _ => hC.bind hC.validate fun _ => hC.bind hC.get fun s => of_ite (hinline _) hextents)))
  exact hC.bind hC.get fun s => of_ite (hC.fail _) (of_ite (hC.fail _) (of_ite (hC.pure _)
    (hC.bind hC.call fun _ => hC.bind hC.call fun _ => hC.bind hlookup fun _ => hC.call)))

theorem storeExtents : C (do
    dropUnusedChecksums
    File.call
    File.call
    File.call) :=
  have hdrop : C dropUnusedChecksums :=
    hC.bind (hC.reads reads_fileAllocatedBlocksVolume) fun _ => of_ite hC.destroyChecksums (hC.pure ())
  hC.bind hdrop fun _ => hC.bind hC.call fun _ => hC.bind hC.call fun _ => hC.call

theorem replaceDigested : C (do
    File.call
    File.replaceBlock logical
    File.checksumSetRange logical 1) :=
  hC.bind hC.call fun _ => hC.bind (hC.replaceBlock _) fun _ => hC.checksumSetRange _ _

theorem infsTruncateFile (size : Nat) : C (infsTruncateFile size) := by
  have htail (logical : Nat) : C (zeroTail logical) :=
    hC.bind (hC.reads (reads_fileMapBlock _)) fun _ => of_ite (hC.replaceDigested _) (hC.pure ())
  have hextents (oldSize : Nat) : C (truncateExtents size oldSize) :=
    hC.bind hC.promoteIfInline fun _ => hC.bind (hC.reads reads_fileLogicalBlocksVolume) fun _ =>
      hC.when (hC.materializeAt _) fun _ => hC.bind (hC.resize _ _) fun _ => hC.bind (hC.setSize _) fun _ =>
        hC.bind hC.finalize fun _ => hC.bind hC.validate fun _ => hC.when (htail _) fun _ => hC.storeExtents
  have hinline : C (do
      fileStoreInline size
      File.storeInlineObject
      File.call) :=
    hC.bind (hC.storeInline _) fun _ => hC.bind hC.storeInlineObject fun _ => hC.call
  exact hC.bind hC.call fun _ => hC.bind hC.get fun s => of_ite (hC.fail _)
    (hC.bind hC.call fun _ => hC.bind hC.validate fun _ => hC.bind hC.get fun s =>
      of_ite (of_ite hinline (hC.bind hC.call fun _ => hinline)) (hextents _))

theorem infsPunchHole (offset length : Nat) : C (infsPunchHole offset length) := by
  have hedge (logical : Nat) : C (punchPartialBlock logical) :=
    hC.bind (hC.reads (reads_fileMapBlock _)) fun _ => of_ite (hC.pure ()) (hC.replaceDigested _)
  have hfull (logical count : Nat) : C (punchFullBlocks logical count) := by
    fun_induction punchFullBlocks logical count with
    | case1 => exact hC.pure ()
    | case2 logical count _ ih => exact hC.bind (hC.punch _ _) fun _ => ih
  have hextents (fileSize : Nat) : C (punchExtents offset length fileSize) :=
    hC.when (hC.materializeRange _ _) fun _ => hC.when (hedge _) fun _ =>
      hC.bind (hfull _ _) fun _ => hC.when (hedge _) fun _ => hC.storeExtents
  have hinline (size : Nat) : C (do
      fileValidateVolume
      File.call
      fileStoreInline size
      File.storeInlineObject
      File.call) :=
    hC.bind hC.validate fun _ => hC.bind hC.call fun _ => hC.bind (hC.storeInline _) fun _ =>
      hC.bind hC.storeInlineObject fun _ => hC.call
  have hpunch : C (punchHoleTx offset length) :=
    hC.bind hC.call fun _ => hC.bind hC.validate fun _ => hC.bind hC.get fun s => of_ite (hinline _) (hextents _)
  exact of_ite (hC.pure ()) (of_ite (hC.fail _) (hC.bind hC.call fun _ => hC.bind hC.get fun s =>
    of_ite (hC.pure ()) (hC.bind hC.call fun _ => hpunch)))

theorem run (op : FileCall) : C op.run := by
  cases op with
  | writeFile offset size => exact hC.infsWriteFile offset size
  | truncateFile size => exact hC.infsTruncateFile size
  | punchHole offset length => exact hC.infsPunchHole offset length

end Composes

theorem composes_walks : Composes Walks where
  pure := walks_pure
  fail := walks_fail
  bind := walks_bind
  reads := Reads.walks
  note := walks_note
  finalize := walks_finalize
  setSize _ := walks_change fun _ => rfl
  checksumSetObject start := (tame_checksumSetObject start).walks
  destroyChecksums := tame_destroyChecksums.walks
  materialize := walks_fileMaterializeCompressedExtent
  promote := walks_filePromoteInline
  storeInline := walks_fileStoreInline
  ensure := walks_fileEnsureLogicalBlocks
  resize := walks_resizeExtents
  replaceBlock := walks_replaceBlock
  writeBlockData := walks_writeBlockData
  storeRun hf := walks_bind (tame_fileStoreExtentPayload _).walks fun _ => walks_bind (walks_fileReplaceRange _ _ _ _) hf
  punch _ _ := walks_fileReplaceRange _ _ _ _

theorem walks_run (op : FileCall) : Walks op.run := composes_walks.run op

end Calls

end InfiltratorFS.File
