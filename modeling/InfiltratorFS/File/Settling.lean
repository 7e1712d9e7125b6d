import InfiltratorFS.File.Holding

namespace InfiltratorFS.File

open Prog Ledger

section Owning

variable {c : Ledger} {o : FileObject} {n : Nat} {α β : Type} {x : FileM α} {f : FileObject → FileObject}
  {g : FileState → FileState}

def Ledger.held (c : Ledger) (o : FileObject) : Nat :=
  c.data o.payload.extentList + o.payload.metadata.count c.block + (chainBlocks o.checksums).count c.block

def Owns (c : Ledger) (n : Nat) (s : FileState) : Prop := ∃ o, Purse c o (n + c.held o) s

theorem Owns.mono {s : FileState} {k : Nat} (h : Owns c n s) (hle : k ≤ n) : Owns c k s := by
  obtain ⟨o, ho⟩ := h
  exact ⟨o, ho.mono (by omega)⟩

def Settles (c : Ledger) (x : FileM α) : Prop := ∀ n, Triple (Owns c n) x (fun _ => Owns c n) Always

theorem Keeps.settles (h : Keeps c x) : Settles c x :=
  fun _ => .of_exists fun o => (h o _).post fun _ _ hs => ⟨o, hs⟩

theorem settles_pure (a : α) : Settles c (pure a : FileM α) := (keeps_pure a).settles

theorem settles_fail (e : Status) : Settles c (fail e : FileM α) := (keeps_fail e).settles

theorem settles_get : Settles c (get : FileM FileState) := keeps_get.settles

theorem settles_call : Settles c call := keeps_call.settles

theorem settles_writeBlocks (run : Segment) : Settles c (writeBlocks run) := (keeps_writeBlocks run).settles

theorem settles_validate : Settles c fileValidateVolume := reads_fileValidateVolume.keeps.settles

theorem settles_bind {f : α → FileM β} (hx : Settles c x) (hf : ∀ a, Settles c (f a)) : Settles c (x >>= f) :=
  fun n => (hx n).bind fun a => hf a n

theorem triple_owned {Q : α → FileState → Prop}
    (h : ∀ o, Triple (Purse c o (n + c.held o)) x Q Always) : Triple (Owns c n) x Q Always :=
  Triple.of_exists h

theorem triple_replaced (hg : ∀ s, g s = { s with object := (g s).object })
    (hf : ∀ s, (g s).object = f s.object) {m : Nat} (hheld : n + c.held (f o) ≤ m) :
    Triple (Purse c o m) (modify g : FileM Unit) (fun _ => Owns c n) Always :=
  (triple_change hg hf).post fun _ _ hs => ⟨f o, hs.mono hheld⟩

theorem settles_modify (hg : ∀ s, g s = { s with object := (g s).object })
    (hf : ∀ s, (g s).object = f s.object) (hheld : ∀ o, c.held (f o) = c.held o) :
    Settles c (modify g : FileM Unit) :=
  fun _ => triple_owned fun o => triple_replaced hg hf (by rw [hheld])

theorem settles_finalize : Settles c objectFinalize :=
  settles_modify (fun _ => rfl) (f := fun o => { o with finalized := true }) (fun _ => rfl) fun _ => rfl

theorem settles_setSize (size : FileState → Nat) : Settles c (modify fun s => s.setSize (size s)) := by
  intro n
  apply Triple.modify
  rintro s ⟨o, hs⟩
  have hheld : c.held (s.setSize (size s)).object = c.held o := by
    rw [← hs.object]
    rfl
  refine ⟨_, hs.env, hs.others, hs.flags, rfl, ?_, ?_⟩
  · rw [hheld]
    exact hs.enough
  · rw [hheld]
    exact hs.coming

end Owning

section Checksums

variable {c : Ledger}

theorem settles_checksumSetObject (start : Nat) : Settles c (checksumSetObject start) := by
  intro n
  apply triple_owned
  intro o
  apply Triple.look
  intro s hs
  rw [hs.object, held, ← Nat.add_assoc]
  apply (triple_checksumInsert start _).bind
  intro chain
  apply (keeps_call _ _).seq
  apply triple_replaced (fun _ => rfl) (f := fun o => { o with checksums := chain, finalized := false }) fun _ => rfl
  simp only [held]
  omega

theorem builds_settles : Builds (Settles c) where
  pure := settles_pure
  bind := settles_bind
  reads h := h.keeps.settles
  finalize := settles_finalize
  checksumSetObject := settles_checksumSetObject

theorem triple_checksumDestroyChain {o : FileObject} {m : Nat} :
    Triple (Purse c o (m + (chainBlocks o.checksums).count c.block)) checksumDestroyChain
      (fun _ => Purse c { o with checksums := [], finalized := false } m) Always := by
  apply Triple.look
  intro s hs
  rw [hs.object]
  apply (triple_checksumDestroyLoop _ _).seq
  exact triple_change (fun _ => rfl) (f := fun o => { o with checksums := [], finalized := false }) fun _ => rfl

theorem triple_destroyChecksums {o : FileObject} {m : Nat} :
    Triple (Purse c o (m + (chainBlocks o.checksums).count c.block)) destroyChecksums
      (fun _ s => ∃ finalized, Purse c { o with checksums := [], finalized := finalized } m s) Always := by
  apply Triple.look
  intro s hs
  apply Triple.ite
  · intro hnone
    rw [hs.object] at hnone
    apply Triple.pure
    intro t ht
    refine ⟨o.finalized, ?_⟩
    rw [← hnone]
    exact ht.mono (by omega)
  · exact fun _ => triple_checksumDestroyChain.post fun _ _ ht => ⟨false, ht⟩

theorem settles_destroyChecksums : Settles c destroyChecksums := by
  intro n
  apply triple_owned
  intro o
  rw [held, ← Nat.add_assoc]
  apply triple_destroyChecksums.post
  rintro _ s ⟨finalized, hs⟩
  exact ⟨_, hs.mono (by simp [held, chainBlocks])⟩

end Checksums

section Rebuilding

variable {c : Ledger} {o : FileObject} {n m : Nat}

theorem triple_pagedExtentRewriteAll (entries : List Extent) (converting : Bool) :
    Triple (Purse c o (n + c.data entries + o.payload.metadata.count c.block + (chainBlocks o.checksums).count c.block))
      (pagedExtentRewriteAll entries converting) (fun _ => Owns c n) Always := by
  apply triple_check
  intro _
  apply triple_check
  intro _
  apply (keeps_call _ _).seq
  apply Triple.look
  intro s hs
  rw [hs.object]
  generalize hold : (if converting = true then Payload.extents [] else o.payload) = old
  have hless : old.metadata.count c.block ≤ o.payload.metadata.count c.block := by
    rw [← hold]
    split
    · exact Nat.zero_le _
    · exact le_rfl
  have hpages := triple_storePages (c := c) (o := o)
    (m := n + c.data entries + (chainBlocks o.checksums).count c.block + old.index.count c.block)
    (old.pageList.map (·.block)) (paginate entries)
  apply Triple.bind (hpages.pre ?_)
  · intro stored
    apply Triple.of_and
    intro hstored
    rw [Nat.add_right_comm]
    apply (triple_freeEach (keeps_pure ()) _).seq
    rw [Nat.add_right_comm]
    apply (triple_freeEach keeps_call _).seq
    have hset (index : List Nat) :
        Triple (Purse c o (n + c.data entries + (chainBlocks o.checksums).count c.block +
            (stored.map (·.block)).count c.block + index.count c.block))
          (modify fun s => s.setPayload (.pages stored index) : FileM Unit) (fun _ => Owns c n) Always := by
      apply triple_replaced (fun _ => rfl)
        (f := fun o => { o with payload := .pages stored index, finalized := false }) fun _ => rfl
      have hextents : (Payload.pages stored index).extentList = entries := by
        rw [Payload.extentList, List.flatMap_def, hstored, paginate_flatten]
      simp only [held, hextents, Payload.metadata, Payload.pageList, Payload.index, List.count_append]
      omega
    apply Triple.ite
    · exact fun _ => hset []
    · exact fun _ => (triple_extentPointerTreeBuild _ _).bind fun index => hset index
  · intro t ht
    apply ht.mono
    rw [Payload.metadata, List.count_append] at hless
    omega

/-- What the extents rebuilt so far take, with the new one as long as it is to
come; the second weight is the one of a run that was released. -/
def Ledger.account (c : Ledger) (weight : Nat) (new : Extent) (acc : Rebuild) : Nat :=
  c.data acc.out + weight * runCount c.block acc.released + if acc.emitted = true then 0 else c.fresh new

theorem data_emit {out out' : List Extent} {capacity : Nat} {e : Extent}
    (h : extentEmitCapacity out capacity e = .ok out') : c.data out' ≤ c.data out + c.fresh e := by
  have := Nat.mul_le_mul_left c.weight (useCount_emit (b := c.block) h)
  rwa [Nat.mul_add] at this

theorem own_split {e : Extent} {range : Segment} (hbefore : range.start < e.stop) (hafter : e.logicalBlock < range.stop)
    (hwhole : ¬(e.isCompressed = true ∧ (e.logicalBlock < range.start ∨ range.stop < e.stop))) :
    c.fresh { e with blockCount := range.start - e.logicalBlock } +
      c.fresh ⟨range.stop, if extentKind e.flags = extentHole then 0 else e.physicalBlock + (range.stop - e.logicalBlock),
        e.stop - range.stop, e.flags⟩ + c.runs (releasedBlocks range e) ≤ c.own e := by
  simp only [fresh, runs, own, ← Nat.mul_add]
  apply Nat.mul_le_mul_left
  apply uses_split hbefore hafter hwhole
  intro hkind
  rw [if_neg (by rw [hkind]; decide)]

variable {new : Extent} {capacity weight : Nat} {release : List Segment → FileM Unit}

theorem triple_emit {β : Type} {r : Except Status (List Extent)} {f : List Extent → FileM β} {Q : β → FileState → Prop}
    (h : ∀ out, r = .ok out → Triple (Purse c o m) (f out) Q Always) : Triple (Purse c o m) (ofExcept r >>= f) Q Always :=
  Triple.ofExcept_bind h fun _ _ _ _ => trivial

section Loop

variable (hrelease : ∀ k runs, Triple (Purse c o (k + c.runs runs)) (release runs)
  (fun _ => Purse c o (k + weight * runCount c.block runs)) Always)

include hrelease

theorem triple_replaceExtent (acc : Rebuild) (e : Extent) :
    Triple (Purse c o (m + c.account weight new acc + c.own e)) (replaceExtent new capacity release acc e)
      (fun acc' => Purse c o (m + c.account weight new acc')) Always := by
  unfold replaceExtent
  dsimp only
  split
  · exact triple_failed _
  · rename_i stop hstop
    obtain rfl : e.stop = stop := addChecked_eq_some hstop
    apply Triple.ite
    · intro _
      apply triple_emit
      intro out hout
      apply Triple.pure
      intro s hs
      apply hs.mono
      have hout := data_emit (c := c) hout
      have hfresh := fresh_le (c := c) e
      simp only [account]
      omega
    · intro hoverlap
      push Not at hoverlap
      apply triple_check
      intro hwhole
      apply triple_emit
      intro out₁ hout₁
      apply triple_emit
      intro out₂ hout₂
      have hsplit := own_split (c := c) hoverlap.1 hoverlap.2 hwhole
      have h₁ := data_emit (c := c) hout₁
      have h₂ : c.data out₂ ≤ c.data out₁ + if acc.emitted = true then 0 else c.fresh new := by
        split at hout₂
        · rename_i hemitted
          cases hout₂
          rw [if_pos hemitted]
          omega
        · rename_i hemitted
          rw [if_neg hemitted]
          exact data_emit hout₂
      apply Triple.bind (Q := fun _ => Purse c o (m + c.data out₂ + weight * runCount c.block acc.released +
        c.fresh ⟨new.segment.stop,
          if extentKind e.flags = extentHole then 0 else e.physicalBlock + (new.segment.stop - e.logicalBlock),
          e.stop - new.segment.stop, e.flags⟩ + weight * runCount c.block (releasedBlocks new.segment e)))
      · apply (hrelease _ _).pre
        intro s hs
        apply hs.mono
        simp only [account]
        omega
      · intro _
        apply triple_emit
        intro out₃ hout₃
        apply Triple.pure
        intro s hs
        apply hs.mono
        have h₃ := data_emit (c := c) hout₃
        simp only [account, runCount_append, if_true, Nat.mul_add]
        omega

theorem triple_replaceLoop (acc : Rebuild) (es : List Extent) :
    Triple (Purse c o (m + c.account weight new acc + c.data es)) (replaceLoop new capacity release acc es)
      (fun acc' => Purse c o (m + c.account weight new acc')) Always := by
  induction es generalizing acc m with
  | nil => exact .pure fun _ hs => hs
  | cons e es ih =>
    rw [data_cons, Nat.add_comm (c.own e), ← Nat.add_assoc, Nat.add_right_comm m]
    apply (triple_replaceExtent hrelease acc e).bind
    intro acc'
    rw [Nat.add_right_comm m]
    exact ih acc'

variable (weight) in
/-- The loop over the extents of the object. What it leaves is accounted for
beside the metadata. -/
theorem triple_replaceExtents :
    Triple (Purse c o (n + c.fresh new + c.held o)) (replaceLoop new capacity release ⟨[], false, []⟩ o.payload.extentList)
      (fun acc => Purse c o (n + o.payload.metadata.count c.block + (chainBlocks o.checksums).count c.block +
        c.account weight new acc)) Always := by
  apply (triple_replaceLoop hrelease _ _).pre
  intro s hs
  apply hs.mono
  simp only [account, held, data_nil, runCount_nil, Bool.false_eq_true, if_false]
  omega

end Loop

theorem triple_pagedExtentReplaceRebuild (new : Extent) :
    Triple (Owns c (n + c.fresh new)) (pagedExtentReplaceRebuild new) (fun _ => Owns c n) Always := by
  apply triple_owned
  intro o
  apply triple_pagedExtentSnapshot.bind_and
  rintro old rfl
  apply triple_check
  intro _
  apply (keeps_call _ _).seq
  apply (triple_replaceExtents 0 fun k runs => (triple_freeRuns runs).post fun _ _ hs => hs.mono (by omega)).bind
  intro acc
  apply triple_check
  intro hemitted
  apply (triple_pagedExtentRewriteAll acc.out false).pre
  intro s hs
  apply hs.mono
  simp only [account]
  omega

theorem triple_classicReplaceRange (new : Extent) :
    Triple (Owns c (n + c.fresh new)) (classicReplaceRange new) (fun _ => Owns c n) Always := by
  apply triple_owned
  intro o
  apply Triple.look
  intro s hs
  rw [hs.object]
  apply (keeps_call _ _).seq
  apply (triple_replaceExtents c.weight fun k runs => .done).bind
  intro acc
  apply triple_check
  intro hemitted
  -- the runs that lost their place are released once the object is changed
  have hrelease : Triple (Owns c (n + c.runs acc.released)) (freeRuns acc.released) (fun _ => Owns c n) Always := by
    apply triple_owned
    intro o'
    rw [Nat.add_right_comm]
    exact (triple_freeRuns _).post fun _ _ ht => ⟨o', ht⟩
  apply Triple.branch
  · apply Triple.bind _ fun _ => hrelease
    apply triple_replaced (fun _ => rfl)
      (f := fun o => { o with payload := .extents acc.out, finalized := false }) fun _ => rfl
    simp only [account, held, runs, Payload.extentList, metadata_extents, List.count_nil]
    omega
  · apply Triple.bind _ fun _ => hrelease
    apply (triple_pagedExtentRewriteAll acc.out true).pre
    intro t ht
    apply ht.mono
    simp only [account, runs]
    omega

theorem triple_fileReplaceRange (start count physical : Nat) (flags : UInt32) :
    Triple (Owns c (n + c.own ⟨start, physical, count, flags⟩)) (fileReplaceRange start count physical flags)
      (fun _ => Owns c n) Always := by
  have hfresh := fresh_le (c := c) ⟨start, physical, count, flags⟩
  apply (settles_get _).bind
  intro s
  apply ((keeps_note _).settles _).seq
  apply triple_check
  intro _
  apply Triple.ite
  · exact fun _ => (triple_pagedExtentReplaceRebuild _).pre fun t ht => ht.mono (by omega)
  · exact fun _ => (triple_classicReplaceRange _).pre fun t ht => ht.mono (by omega)

end Rebuilding

section Resizing

variable {c : Ledger} {o : FileObject} {n m : Nat} {e : Extent}

theorem settles_pagedExtentEnsure (needed : Nat) : Settles c (pagedExtentEnsure needed) := by
  intro n
  apply triple_owned
  intro o
  apply triple_pagedExtentSnapshot.bind_and
  rintro entries rfl
  apply triple_check
  intro _
  apply Triple.ite
  · exact fun _ => .pure fun s hs => ⟨o, hs⟩
  · intro _
    apply triple_check
    intro _
    apply (keeps_call _ _).seq
    apply triple_emit
    intro out hout
    apply (triple_pagedExtentRewriteAll out false).pre
    intro s hs
    apply hs.mono
    have hholes := Nat.mul_le_mul_left c.weight (useCount_appendHoles (b := c.block) hout)
    simp only [held, data]
    omega

theorem settles_fileEnsureLogicalBlocks (needed : Nat) : Settles c (fileEnsureLogicalBlocks needed) := by
  apply settles_bind settles_validate
  intro _
  apply settles_bind reads_fileLogicalBlocksVolume.keeps.settles
  intro present n
  apply triple_owned
  intro o
  apply Triple.look
  intro s hs
  apply Triple.ite
  · exact fun _ => .pure fun s hs => ⟨o, hs⟩
  · intro _
    apply Triple.ite
    · exact fun _ => (settles_pagedExtentEnsure needed n).pre fun t ht => ⟨o, ht⟩
    · intro _
      rw [hs.object]
      have hgrown := Nat.mul_le_mul_left c.weight (useCount_growClassic (b := c.block) present needed o.payload.extentList)
      apply Triple.branch
      · apply Triple.bind (Q := fun _ => Owns c n) _ fun _ => settles_pagedExtentEnsure needed n
        apply (triple_pagedExtentRewriteAll _ true).pre
        intro t ht
        apply ht.mono
        simp only [held, data]
        omega
      · apply triple_replaced (fun _ => rfl) (f := fun o =>
          { o with payload := .extents (growClassic present needed s.object.payload.extentList).1, finalized := false })
        · intro t
          rw [hs.object]
          rfl
        · rw [hs.object]
          simp only [held, data, Payload.extentList, metadata_extents, List.count_nil] at hgrown ⊢
          omega

theorem own_cut (hkind : extentKind e.flags = extentNormal) (hplain : e.isCompressed = false) {retained : Nat}
    (hle : retained ≤ e.blockCount) :
    c.own { e with blockCount := retained } + c.runs [⟨e.physicalBlock + retained, e.blockCount - retained⟩] = c.own e := by
  have hsplit := hits_append (b := c.block) e.physicalBlock retained (e.blockCount - retained)
  rw [Nat.add_sub_cancel' hle] at hsplit
  simp only [own, runs, runCount_cons, runCount_nil, ← Nat.mul_add]
  rw [uses_plain hkind hplain, uses_plain (by exact hkind) (by exact hplain), hsplit]
  rfl

theorem own_shorter {retained : Nat} (hkind : extentKind e.flags ≠ extentNormal) :
    c.own { e with blockCount := retained } = c.own e := by
  simp only [own, uses, if_neg hkind]

theorem own_physical (hkind : extentKind e.flags = extentNormal) : c.runs [e.physical] = c.own e := by
  simp [own, runs, uses, hkind]

variable (target : Nat)

theorem triple_truncateExtent (e : Extent) :
    Triple (Purse c o (m + c.own e)) (truncateExtent target e) (fun kept => Purse c o (m + c.data kept)) Always := by
  apply Triple.branch
  · apply Triple.ite
    · intro hkind
      rw [← own_physical hkind]
      exact (triple_fileFreeUnsharedRun _).bind fun _ => .pure fun _ hs => hs
    · exact fun _ => .pure fun s hs => hs.mono (by simp)
  · dsimp only
    generalize hretained : (if target < e.stop then target - e.logicalBlock else e.blockCount) = retained
    have hle : retained ≤ e.blockCount := by
      rw [← hretained, Extent.stop]
      split <;> omega
    apply (keeps_note _ _ _).seq
    apply triple_check
    intro hwhole
    apply Triple.ite
    · rintro ⟨hless, hkind⟩
      have hplain : e.isCompressed = false := by
        rw [Bool.eq_false_iff]
        exact fun hc => hwhole ⟨hless, hc⟩
      rw [← own_cut hkind hplain hle, ← Nat.add_assoc]
      apply (triple_fileFreeUnsharedRun _).seq
      exact .pure fun s hs => hs.mono (by simp)
    · intro hnot
      apply Triple.pure
      intro s hs
      apply hs.mono
      rw [data_cons, data_nil]
      by_cases hkind : extentKind e.flags = extentNormal
      · obtain rfl : retained = e.blockCount := by
          by_contra hne
          exact hnot ⟨by omega, hkind⟩
        exact le_rfl
      · rw [own_shorter hkind]
        omega

theorem triple_truncateLoop (es : List Extent) :
    Triple (Purse c o (m + c.data es)) (truncateLoop target es) (fun kept => Purse c o (m + c.data kept)) Always := by
  induction es generalizing m with
  | nil => exact .pure fun _ hs => hs
  | cons e es ih =>
    rw [data_cons, Nat.add_comm (c.own e), ← Nat.add_assoc]
    apply (triple_truncateExtent target e).bind
    intro kept
    rw [Nat.add_right_comm]
    apply ih.bind
    intro rest
    apply Triple.pure
    intro s hs
    rw [data_append, ← Nat.add_assoc]
    exact hs

theorem triple_truncateExtents :
    Triple (Purse c o (n + c.held o)) (truncateLoop target o.payload.extentList) (fun kept => Purse c o (n +
      o.payload.metadata.count c.block + (chainBlocks o.checksums).count c.block + c.data kept)) Always := by
  apply (triple_truncateLoop target _).pre
  intro s hs
  apply hs.mono
  rw [held]
  omega

theorem settles_pagedExtentTruncate : Settles c (pagedExtentTruncate target) := by
  intro n
  apply triple_owned
  intro o
  apply triple_pagedExtentSnapshot.bind_and
  rintro old rfl
  apply triple_check
  intro _
  apply (keeps_call _ _).seq
  apply (triple_truncateExtents target).bind
  intro kept
  apply triple_check
  exact fun _ => (triple_pagedExtentRewriteAll kept false).pre fun s hs => hs.mono (by omega)

theorem settles_classicTruncate : Settles c (classicTruncate target) := by
  intro n
  apply triple_owned
  intro o
  apply Triple.look
  intro s hs
  rw [hs.object]
  apply (triple_truncateExtents target).bind
  intro kept
  apply triple_replaced (fun _ => rfl)
    (f := fun o => { o with payload := .extents kept, finalized := false }) fun _ => rfl
  simp only [held, Payload.extentList, metadata_extents, List.count_nil]
  omega

theorem settles_resizeExtents (target present : Nat) : Settles c (resizeExtents target present) :=
  settles_bind settles_get fun _ => of_ite (settles_fileEnsureLogicalBlocks target)
    (of_ite (settles_bind (settles_pagedExtentTruncate target) fun _ => settles_validate)
      (of_ite (settles_classicTruncate target) (settles_pure ())))

end Resizing

section Flags

variable {c : Ledger}

theorem own_normal (logical physical count : Nat) :
    c.own ⟨logical, physical, count, extentNormal⟩ ≤ hits c.block ⟨physical, count⟩ := by
  rw [own, uses_normal]
  exact c.weighted _

theorem own_compressed (logical physical count bytes : Nat) :
    c.own ⟨logical, physical, count, extentCompressedFlags compressionIac1 bytes⟩ ≤
      hits c.block ⟨physical, ceilBlocks bytes⟩ := by
  have hcompressed := compressedFlags_compressed bytes
  have hkind := extentKind_of_compressed hcompressed
  rw [own, uses, if_pos (by exact hkind), Extent.physical, extentPhysicalBlocks, if_neg (by rw [hkind]; decide),
    if_pos (by exact hcompressed)]
  exact (c.weighted _).trans (hits_mono _ (ceilBlocks_mono (by rw [extentStoredBytes_compressedFlags]; exact Nat.mod_le _ _)))

end Flags

section Contents

variable {c : Ledger} {o : FileObject} {n m : Nat}

theorem settles_fileMaterializeCompressedExtent (e : Extent) : Settles c (fileMaterializeCompressedExtent e) := by
  apply of_ite (settles_pure ())
  apply settles_bind settles_call
  intro _ n
  have halloc : Triple (Owns c n) (compressionAllocDataExact e.blockCount)
      (fun p => Owns c (n + hits c.block ⟨p, e.blockCount⟩)) Always := by
    apply triple_owned
    intro o
    apply (triple_compressionAllocDataExact _).post
    intro p s hs
    exact ⟨o, by rwa [Nat.add_right_comm]⟩
  apply halloc.bind
  intro replacement
  apply triple_check
  intro _
  apply (settles_writeBlocks _ _).seq
  apply Triple.bind (Q := fun _ => Owns c n)
  · apply (triple_fileReplaceRange _ _ _ _).pre
    intro s hs
    have := own_normal (c := c) e.logicalBlock replacement e.blockCount
    exact hs.mono (by omega)
  · exact fun _ => (settles_finalize n).bind fun _ => settles_validate n

theorem data_normalRuns (es : List Extent) : c.runs (normalRuns es) = c.data es := by
  rw [runs, data]
  congr 1
  induction es with
  | nil => rfl
  | cons e es ih =>
    rw [useCount_cons, ← ih, uses, normalRuns, List.filter_cons]
    by_cases hkind : extentKind e.flags = extentNormal
    · simp [hkind, normalRuns]
    · simp [hkind, normalRuns]

theorem triple_releaseAll {destroy : FileM Unit}
    (hdestroy : ∀ o m, Triple (Purse c o (m + (chainBlocks o.checksums).count c.block)) destroy
      (fun _ s => ∃ finalized, Purse c { o with checksums := [], finalized := finalized } m s) Always) :
    Triple (Owns c n)
      (do
        destroy
        let entries ← fileExtentSnapshot
        freeRuns (normalRuns entries)
        pagedExtentDestroyPages)
      (fun _ s => ∃ o, Purse c o n s) Always := by
  apply triple_owned
  intro o
  rw [held, ← Nat.add_assoc]
  apply (hdestroy o _).seq
  apply Triple.of_exists
  intro finalized
  apply triple_fileExtentSnapshot.bind_and
  rintro entries rfl
  dsimp only
  rw [Nat.add_comm (c.data _), ← Nat.add_assoc, ← data_normalRuns]
  apply (triple_freeRuns _).seq
  exact (triple_pagedExtentDestroyPages (o := { o with checksums := [], finalized := finalized })).post fun _ s hs => ⟨_, hs⟩

theorem triple_fileReleaseExternalStorage :
    Triple (Owns c n) fileReleaseExternalStorage (fun _ s => ∃ o, Purse c o n s) Always :=
  (settles_validate n).bind fun _ => triple_releaseAll fun _ _ => triple_destroyChecksums

theorem settles_fileStoreInline (size : Nat) : Settles c (fileStoreInline size) := by
  apply of_ite (settles_fail _)
  apply settles_bind settles_validate
  intro _
  apply settles_bind settles_get
  intro s
  apply of_ite (settles_fail _)
  intro n
  apply triple_fileReleaseExternalStorage.seq
  apply Triple.of_exists
  intro o
  apply triple_replaced (fun _ => rfl) (f := fun o => { o with
    payload := if size = 0 then .extents [] else .inline, logicalSize := size, checksums := [], finalized := false })
    fun _ => rfl
  split <;> exact le_rfl

theorem settles_filePromoteInline : Settles c filePromoteInline := by
  apply settles_bind settles_validate
  intro _
  apply settles_bind settles_get
  intro s
  apply of_ite (settles_pure ())
  intro n
  apply triple_owned
  intro o
  apply triple_allocBlock.bind
  intro physical
  apply (keeps_writeBlocks _ _ _).seq
  apply Triple.bind (Q := fun _ => Owns c n)
  · apply triple_replaced (fun _ => rfl) (f := fun o => { o with
      payload := .extents [⟨0, physical, 1, extentNormal⟩], checksums := [], finalized := false }) fun _ => rfl
    have hown := own_normal (c := c) 0 physical 1
    rw [hits_block] at hown
    simp only [held, Payload.extentList, metadata_extents, chainBlocks, data_cons, data_nil, List.map_nil,
      List.count_nil]
    omega
  · exact fun _ => (builds_settles.checksumSetRange 0 1 n).bind fun _ => (settles_finalize n).bind fun _ => settles_validate n

theorem triple_storePayload (blocks : Nat) :
    Triple (Owns c n) (storePayload blocks) (fun p => Owns c (n + hits c.block ⟨p, blocks⟩)) Always := by
  apply triple_owned
  intro o
  apply (triple_compressionAllocDataExact blocks).bind
  intro physical
  apply triple_check
  intro _
  apply (keeps_writeBlocks _ _ _).seq
  apply Triple.pure
  intro s hs
  exact ⟨o, by rwa [Nat.add_right_comm]⟩

theorem triple_fileStoreExtentPayload (blocks : Nat) :
    Triple (Owns c n) (fileStoreExtentPayload blocks)
      (fun stored s => ∀ logical, Owns c (n + c.own ⟨logical, stored.1, blocks, stored.2⟩) s) Always := by
  apply triple_check
  intro _
  have hbytes : Settles c (compressedBytes blocks) := settles_bind settles_get fun _ =>
    of_ite (settles_bind reads_request.keeps.settles fun _ => settles_pure _) (settles_pure 0)
  apply (hbytes n).bind
  intro bytes
  apply Triple.branch
  · apply (triple_storePayload _).bind
    intro physical
    apply Triple.pure
    intro s hs logical
    have := own_compressed (c := c) logical physical blocks bytes
    exact hs.mono (by dsimp only; omega)
  · apply (triple_storePayload _).bind
    intro physical
    apply Triple.pure
    intro s hs logical
    have := own_normal (c := c) logical physical blocks
    exact hs.mono (by dsimp only; omega)

theorem settles_replaceBlock (logical : Nat) : Settles c (replaceBlock logical) := by
  intro n
  apply triple_owned
  intro o
  apply triple_allocBlock.bind
  intro replacement
  apply (keeps_writeBlocks _ _ _).seq
  apply (triple_fileReplaceRange _ _ _ _).pre
  intro s hs
  have hown := own_normal (c := c) logical replacement 1
  rw [hits_block] at hown
  exact ⟨o, hs.mono (by omega)⟩

theorem settles_writeBlockData (logical : Nat) (mapped : Nat × UInt32) (fullOverwrite : Bool) :
    Settles c (writeBlockData logical mapped fullOverwrite) := by
  apply settles_bind settles_get
  intro s
  have hwrite : Settles c (if (extentKind mapped.2 == extentHole || !txBlockPrivate s mapped.1) = true then
      replaceBlock logical else writeBlocks ⟨mapped.1, 1⟩) := of_ite (settles_replaceBlock logical) (settles_writeBlocks _)
  exact of_ite hwrite (settles_bind settles_call fun _ => hwrite)

theorem composes_settles : Composes (Settles c) where
  toBuilds := builds_settles
  fail := settles_fail
  note _ := (keeps_note _).settles
  setSize := settles_setSize
  destroyChecksums := settles_destroyChecksums
  materialize := settles_fileMaterializeCompressedExtent
  promote := settles_filePromoteInline
  storeInline := settles_fileStoreInline
  ensure := settles_fileEnsureLogicalBlocks
  resize := settles_resizeExtents
  replaceBlock := settles_replaceBlock
  writeBlockData := settles_writeBlockData
  storeRun hf n := (triple_fileStoreExtentPayload _).bind fun _ =>
    ((triple_fileReplaceRange _ _ _ _).pre fun _ hs => hs _).bind fun u => hf u n
  punch logical count n := by
    apply (triple_fileReplaceRange _ _ _ _).pre
    intro s hs
    apply hs.mono
    rw [own, uses_hole hole_kind]
    omega

end Contents

end InfiltratorFS.File
