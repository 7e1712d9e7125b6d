import InfiltratorFS.File.Respect

namespace InfiltratorFS.File

open Prog

variable {env : Nat → Answer} {known : Payload → Prop} {blocks : Nat} {p : Payload}

section Common

def Laid (size : Nat) (p : Payload) : Prop :=
  (p = .inline ∧ 0 < size ∧ size ≤ inlineDataMax) ∨ (p ≠ .inline ∧ Tiled (ceilBlocks size) p.extentList)

theorem triple_setSize (size : FileState → Nat) :
    Upholds env known (modify fun s => s.setSize (size s)) known :=
  Triple.modify fun _ hs => ⟨hs.env_eq, hs.respected, hs.payload⟩

theorem replaceBlock_spec {logical : Nat} (htiled : Tiled blocks p.extentList) (hlogical : logical < blocks)
    (hcontains : Contains logical 1 p.extentList) :
    Upholds env (· = p) (replaceBlock logical) (Kept blocks p) := by
  refine tame_allocBlock.quiet.seq fun replacement => .bind (quiet_writeBlocks _).triple fun _ => ?_
  refine (fileReplaceRange_spec Nat.one_pos hlogical htiled hcontains).post fun _ s hs => hs.mono fun q hq => ?_
  exact (hq.materialized normal_not_compressed).kept

theorem fileStoreInline_spec (size : Nat) :
    Upholds env known (fileStoreInline size) (fun _ => True) := by
  refine triple_guard (by decide) fun _ => reads_fileValidateVolume.quiet.seq fun _ => ?_
  refine triple_at fun p _ => .look fun s _ => triple_guard (by decide) fun _ => ?_
  refine tame_fileReleaseExternalStorage.quiet.seq fun _ => ?_
  exact .modify fun _ hs => ⟨hs.env_eq, hs.respected, trivial⟩

def Promoted (p q : Payload) : Prop :=
  (p ≠ .inline ∧ q = p) ∨ (p = .inline ∧ Tiled 1 q.extentList ∧ ∀ e ∈ q.extentList, e.isCompressed = false)

theorem promoteIfInline_spec :
    Upholds env (· = p) promoteIfInline (Promoted p) := by
  have hinline (s : FileState) (hs : s.object.payload = p) : s.object.isInline = true ↔ p = .inline := by
    rw [FileObject.isInline, hs, beq_iff_eq]
  refine .look fun s hs => .ite (fun hc => ?_) fun hc => ?_
  · have hp := (hinline s hs.payload).mp hc
    refine .bind (reads_fileValidateVolume.quiet.seq fun _ => .look fun s hs => ?_) fun _ =>
      reads_fileValidateVolume.quiet.triple
    rw [if_neg (by rw [(hinline s hs.payload).mpr hp]; decide)]
    refine tame_allocBlock.quiet.seq fun physical => .bind (quiet_writeBlocks _).triple fun _ => ?_
    refine .bind (Q := fun _ => Ready env (Promoted p)) (.modify fun s hs => ⟨hs.env_eq, hs.respected, Or.inr
      ⟨hp, ⟨rfl, Nat.one_pos, rfl⟩, fun e he => ?_⟩⟩) fun _ => ?_
    · obtain rfl := List.mem_singleton.mp he
      exact normal_not_compressed
    · exact (builds_tame.checksumSetRange _ _).quiet.seq fun _ => tame_objectFinalize.quiet.seq fun _ =>
        reads_fileValidateVolume.quiet.triple
  · exact .pure fun _ hs' => hs'.mono fun _ h => .inl ⟨fun hp => hc ((hinline s hs.payload).mpr hp), h⟩

theorem closing_spec : Upholds env known (do
    dropUnusedChecksums
    call
    call
    call) (fun _ => True) := by
  refine tame_dropUnusedChecksums.quiet.seq fun _ => tame_call.quiet.seq fun _ => ?_
  exact tame_call.quiet.seq fun _ => tame_call.quiet.triple.post fun _ _ hs => hs.mono fun _ _ => trivial

end Common

section Write

variable {logical : Nat}

theorem writeBlockData_spec {mapped : Nat × UInt32} {fullOverwrite : Bool} (hlogical : logical < blocks) :
    Upholds env (Clean blocks logical (logical + 1)) (writeBlockData logical mapped fullOverwrite) (Mapped blocks) := by
  refine triple_at fun q hq => .look fun s _ => ?_
  have hstore : Upholds env (· = q) (if (extentKind mapped.2 == extentHole || !txBlockPrivate s mapped.1) = true then
      replaceBlock logical else writeBlocks ⟨mapped.1, 1⟩) (Mapped blocks) := by
    refine .branch ?_ ?_
    · exact (replaceBlock_spec hq.1 hlogical (hq.2.contains hq.1 Nat.one_pos le_rfl le_rfl)).post
        fun _ s hs => hs.mono fun _ h => h.tiled
    · exact (quiet_writeBlocks _).triple.post fun _ s hs => hs.mono fun _ h => h ▸ hq.1
  exact .branch hstore (tame_call.quiet.seq fun _ => hstore)

section

variable (htiled : Tiled blocks p.extentList)
include htiled

theorem plain_of_holds {e : Extent} (he : e ∈ p.extentList)
    (hholds : holds logical e = true) (hc : e.isCompressed = false) : Plain logical (logical + 1) p.extentList := by
  intro x hx hcx b hlo hhi
  obtain rfl : b = logical := by omega
  rw [Bool.eq_false_iff]
  intro hxb
  obtain ⟨hx1, hx2⟩ := holds_iff.mp hxb
  obtain ⟨he1, he2⟩ := holds_iff.mp hholds
  rw [htiled.eq_of_overlap hx he (hx1.trans_lt he2) (he1.trans_lt hx2), hc] at hcx
  cases hcx

theorem remapCompressed_spec {mapped : Nat × UInt32}
    (hmapped : ∃ e ∈ p.extentList, holds logical e = true ∧ mapped = (mappedBlock logical e, e.flags)) :
    Upholds env (· = p) (remapCompressed logical mapped) (Clean blocks logical (logical + 1)) := by
  refine .ite (fun hc => ?_) fun _ => ?_
  · refine .pure fun s hs => hs.mono ?_
    rintro _ rfl
    obtain ⟨e, he, hholds, rfl⟩ := hmapped
    exact ⟨htiled, plain_of_holds htiled he hholds hc⟩
  · refine .bind (fileMaterializeCompressedAt_spec htiled) fun _ => triple_at fun q hq => ?_
    refine .bind_and ((reads_fileMapBlock logical).quiet.spec (Φ := fun m : Nat × UInt32 => extentIsCompressed m.2 = false)
      fun s m t hs hrun => ?_) fun m hm => ?_
    · obtain ⟨e, he, hholds, rfl⟩ := fileMapBlock_ok hrun
      rw [Bool.eq_false_iff]
      intro hc
      have := hq.2 e (hs ▸ he) hc logical le_rfl (Nat.lt_succ_self _)
      rw [hholds] at this
      cases this
    · refine .bind (triple_note hm) fun _ => triple_guard (by decide) fun _ => ?_
      exact .pure fun _ hs => hs.mono fun _ h => h ▸ hq

theorem contains_of_hole {wanted : Nat} {e : Extent} (he : e ∈ p.extentList)
    (hflags : e.flags = extentHole) (hstart : e.logicalBlock ≤ logical) (hstop : logical + wanted ≤ e.stop) :
    Contains logical wanted p.extentList := by
  intro x hx hc hbefore hafter
  have hx' := eq_of_overlap htiled hx he (by omega) (by omega)
  rw [hx', Extent.isCompressed, hflags, hole_not_compressed] at hc
  cases hc

end

theorem writeLoop_spec {offset size done : Nat} (hsize : offset + size ≤ blocks * blockSize) (pending : Pending) :
    Upholds env (Mapped blocks) (writeLoop offset size done pending) (Mapped blocks) := by
  fun_induction writeLoop offset size done pending with
  | case1 done pending hmore logical within chunk ihBatch ihBlock =>
    have hlogical : logical < blocks := Nat.div_lt_of_lt_mul (by rw [Nat.mul_comm]; omega)
    refine triple_at fun p hp => ?_
    refine .bind_and ((reads_fileMapBlock _).quiet.spec (Φ := fun m : Nat × UInt32 => ∃ e ∈ p.extentList,
      holds logical e = true ∧ m = (mappedBlock logical e, e.flags)) fun s m t hs hrun => hs ▸ fileMapBlock_ok hrun) fun m hm => ?_
    refine .bind (remapCompressed_spec hp hm) fun mapped => ?_
    by_cases hbatch : within = 0 ∧ extentKind mapped.2 = extentHole ∧ blockSize ≤ size - done
    · rw [dif_pos hbatch]
      refine triple_at fun q hq => ?_
      refine .bind ((reads_holeBlocks _).quiet.spec (Φ := fun count => count ≠ 0 → ∃ e ∈ q.extentList,
        holds logical e = true ∧ e.flags = extentHole ∧ count = e.stop - logical)
        fun s count t hs hrun => hs ▸ holeBlocks_ok hrun) fun hole => ?_
      refine .of_and fun hhole => ?_
      by_cases hzero : hole = 0
      · rw [dif_pos hzero]
        exact triple_fail (by decide)
      · rw [dif_neg hzero]
        obtain ⟨e, he, hholds, hflags, hcount⟩ := hhole hzero
        obtain ⟨hstart, hstop⟩ := holds_iff.mp hholds
        have hend := (hq.1.mem_bounds he).2.2
        have hwanted : 0 < min (min ((size - done) / blockSize) hole) compressionClusterBlocks := by
          have hblock : 0 < (size - done) / blockSize := Nat.div_pos hbatch.2.2 (by decide)
          have hcluster : 0 < compressionClusterBlocks := by decide
          omega
        have hfits : logical + min (min ((size - done) / blockSize) hole) compressionClusterBlocks ≤ e.stop := by omega
        refine (builds_tame.checksumSetRange _ _).quiet.seq fun _ =>
          (tame_fileStoreExtentPayload _).quiet.seq fun stored => ?_
        refine .bind (fileReplaceRange_spec hwanted (hfits.trans hend) hq.1
          (contains_of_hole hq.1 he hflags hstart hfits)) fun _ => ?_
        refine (builds_tame.digestLoop _ _).quiet.seq fun _ => ?_
        exact (ihBatch mapped hbatch hole hzero).pre fun s hs => hs.mono fun _ h => h.tiled
    · rw [dif_neg hbatch]
      exact .bind (writeBlockData_spec hlogical) fun _ => .bind (builds_tame.pushDigest _ _).quiet.triple ihBlock
  | case2 => exact (builds_tame.checksumSetRange _ _).quiet.triple

theorem writeExtents_spec (size offset : Nat) :
    Upholds env (fun p => p = .inline ∨ ∃ n, Mapped n p) (writeExtents size offset) (fun _ => True) := by
  refine triple_at fun p hp => .bind promoteIfInline_spec fun _ => ?_
  have hmapped : ∀ q, Promoted p q → ∃ n, Mapped n q := by
    rintro q (⟨hne, rfl⟩ | ⟨_, hq, _⟩)
    · exact hp.resolve_left hne
    · exact ⟨1, hq⟩
  refine triple_at fun q hq => ?_
  obtain ⟨n, hn⟩ := hmapped q hq
  refine .bind ((fileEnsureLogicalBlocks_spec _).pre fun s hs => hs.mono fun _ h => h ▸ hn) fun _ => ?_
  refine .bind (triple_setSize _) fun _ => tame_objectFinalize.quiet.seq fun _ =>
    reads_fileValidateVolume.quiet.seq fun _ => ?_
  refine .bind (writeLoop_spec ?_ _) fun _ => ?_
  · exact (ceilBlocks_le_iff.mp le_rfl).trans (Nat.mul_le_mul_right _ (le_max_right _ _))
  · exact tame_call.quiet.seq fun _ => tame_call.quiet.seq fun _ =>
      Triple.pure fun _ hs => hs.mono fun _ _ => trivial

theorem infsWriteFile_spec (offset size : Nat) :
    Upholds env (fun p => p = .inline ∨ ∃ n, Mapped n p) (infsWriteFile offset size) (fun _ => True) := by
  have htx : Upholds env (fun p => p = .inline ∨ ∃ n, Mapped n p) (writeFileLookupTx size offset) (fun _ => True) := by
    refine triple_at fun p hp => .look fun s _ => triple_guard (by decide) fun _ => ?_
    refine triple_guard (by decide) fun _ => .branch ?_ ?_
    · exact .pure fun _ hs => hs.mono fun _ _ => trivial
    · refine tame_call.quiet.seq fun _ => reads_fileValidateVolume.quiet.seq fun _ => ?_
      refine .look fun s _ => .branch ?_ ?_
      · refine reads_fileValidateVolume.quiet.seq fun _ => tame_call.quiet.seq fun _ => ?_
        refine .bind (fileStoreInline_spec _) fun _ => builds_tame.storeInlineObject.quiet.seq fun _ => ?_
        exact .done
      · exact (writeExtents_spec size offset).pre fun s hs => hs.mono fun _ h => h ▸ hp
  refine triple_at fun p hp => .look fun s _ => triple_guard (by decide) fun _ => ?_
  refine triple_guard (by decide) fun _ => .branch ?_ ?_
  · exact .pure fun _ hs => hs.mono fun _ _ => trivial
  · refine tame_call.quiet.seq fun _ => tame_call.quiet.seq fun _ => ?_
    exact .bind (htx.pre fun s hs => hs.mono fun _ h => h ▸ hp) fun _ => tame_call.quiet.triple

end Write

section Begun

structure Begun (env : Nat → Answer) (s₀ s : FileState) : Prop where
  object : s.object = s₀.object
  incompatFlags : s.incompatFlags = s₀.incompatFlags
  writable : s.writable = s₀.writable
  ready : Ready env (· = s₀.object.payload) s

variable {s₀ : FileState}

theorem begun_call : Triple (Begun env s₀) call (fun _ => Begun env s₀) (Blameless env) := by
  intro s hs
  obtain ⟨hok, herror⟩ := tame_call.quiet.triple s hs.ready
  refine ⟨fun a t hrun => ?_, herror⟩
  have hready := hok a t hrun
  obtain ⟨answer, u, hrequest, hrun⟩ := bind_eq_ok.mp hrun
  cases hrun
  rw [request] at hrequest
  split at hrequest
  · cases hrequest
    exact ⟨hs.object, hs.incompatFlags, hs.writable, hready⟩
  · cases hrequest

theorem begun_fail {α : Type} {Q : α → FileState → Prop} {e : Status} (he : e ≠ .notSupported) :
    Triple (Begun env s₀) (fail e) Q (Blameless env) :=
  Triple.fail fun _ hs => hs.ready.blameless he

theorem begun_validate : Triple (Begun env s₀) fileValidateVolume (fun _ => Begun env s₀) (Blameless env) := by
  have hcheck : Triple (Begun env s₀) checkFinalized (fun _ => Begun env s₀) (Blameless env) := by
    intro s hs
    rw [checkFinalized]
    split
    · refine ⟨fun a t hrun => ?_, fun e t hrun => (by cases hrun)⟩
      cases hrun
      exact ⟨hs.object, hs.incompatFlags, hs.writable, hs.ready.env_eq, hs.ready.respected, hs.ready.payload⟩
    · refine ⟨fun a t hrun => (by cases hrun), fun e t hrun => ?_⟩
      cases hrun
      exact hs.ready.blameless (by decide)
  refine .bind hcheck fun _ => .look fun s _ => ?_
  exact .branch (begun_fail (by decide)) (.branch (begun_fail (by decide)) (.branch (begun_fail (by decide)) begun_call))

theorem Begun.inlineEnabled {s : FileState} (h : Begun env s₀ s) : s.inlineEnabled = s₀.inlineEnabled := by
  rw [FileState.inlineEnabled, FileState.inlineEnabled, FileState.enabled, FileState.enabled, h.object, h.incompatFlags]

end Begun

section Truncate

variable {s₀ : FileState}

/-- The last block of the file can be replaced without cutting its extent. -/
def TailSafe (size oldSize : Nat) (entries : List Extent) : Prop :=
  ceilBlocks size = ceilBlocks oldSize → size < oldSize → size % blockSize ≠ 0 →
    Contains (ceilBlocks size - 1) 1 entries

theorem resizeExtents_spec {target : Nat} {zeroed : Prop} (htiled : Tiled blocks p.extentList)
    (hplain : 0 < target → target < blocks → Plain (target - 1) target p.extentList) (hzeroed : zeroed → target ≤ blocks)
    (htail : target = blocks → zeroed → Contains (target - 1) 1 p.extentList) :
    Upholds env (· = p) (resizeExtents target blocks)
      (fun q => Tiled target q.extentList ∧ (zeroed → 0 < target → Contains (target - 1) 1 q.extentList)) := by
  have hcut (hlt : target < blocks) (q : Payload) (hq : Kept (min blocks target) p q) :
      Tiled target q.extentList ∧ (zeroed → 0 < target → Contains (target - 1) 1 q.extentList) := by
    have hq' : Tiled target q.extentList := min_eq_right hlt.le ▸ hq.tiled
    refine ⟨hq', fun _ hpos => ?_⟩
    exact (hq.plain (hplain hpos hlt)).contains hq' Nat.one_pos le_rfl (by omega)
  have hplain' (hlt : target < blocks) : 0 < target → ∀ x ∈ p.extentList, x.isCompressed = true →
      holds (target - 1) x = false :=
    fun hpos x hx hc => hplain hpos hlt x hx hc (target - 1) le_rfl (by omega)
  refine .look fun s _ => .ite (fun hgrow => ?_) fun hgrow => ?_
  · refine ((fileEnsureLogicalBlocks_spec target).pre fun s hs => hs.mono fun _ h => h ▸ htiled).post
      fun _ s hs => hs.mono fun q hq => ?_
    refine ⟨?_, fun hz => absurd (hzeroed hz) (by omega)⟩
    rwa [Mapped, max_eq_right hgrow.le] at hq
  · refine .ite (fun hpaged => ?_) fun _ => .ite (fun hlt => ?_) fun hlt => ?_
    · refine .bind (pagedExtentTruncate_spec htiled (hplain' hpaged.1)) fun _ => ?_
      exact reads_fileValidateVolume.quiet.triple.post fun _ s hs => hs.mono (hcut hpaged.1)
    · exact (classicTruncate_spec htiled (hplain' hlt)).post fun _ s hs => hs.mono (hcut hlt)
    · refine .pure fun s hs => hs.mono ?_
      rintro _ rfl
      obtain rfl : target = blocks := by omega
      exact ⟨htiled, fun hz _ => htail rfl hz⟩

theorem zeroTail_spec {logical : Nat} (htiled : Tiled blocks p.extentList) (hlogical : logical < blocks)
    (hcontains : Contains logical 1 p.extentList) :
    Upholds env (· = p) (zeroTail logical) (fun _ => True) := by
  refine (reads_fileMapBlock _).quiet.seq fun mapped => .branch ?_ ?_
  · refine tame_call.quiet.seq fun _ => .bind (replaceBlock_spec htiled hlogical hcontains) fun _ => ?_
    exact (builds_tame.checksumSetRange _ _).quiet.triple.post fun _ s hs => hs.mono fun _ _ => trivial
  · exact .pure fun _ hs => hs.mono fun _ _ => trivial

theorem truncateExtents_spec {size oldSize : Nat} (hp : Laid oldSize p) (hsafe : TailSafe size oldSize p.extentList) :
    Upholds env (· = p) (truncateExtents size oldSize) (fun _ => True) := by
  -- the extents once an inline file has its block
  have hpromoted (q : Payload) (hq : Promoted p q) :
      Tiled (ceilBlocks oldSize) q.extentList ∧ TailSafe size oldSize q.extentList := by
    rcases hq with ⟨hne, rfl⟩ | ⟨hinline, htiled, hplain⟩
    · rcases hp with ⟨hinline, _⟩ | hp
      · exact absurd hinline hne
      · exact ⟨hp.2, hsafe⟩
    · have hone : ceilBlocks oldSize = 1 := by
        rcases hp with ⟨_, hpos, hmax⟩ | ⟨hne, _⟩
        · rw [inlineDataMax] at hmax
          rw [ceilBlocks, blockSize, if_neg (by omega)]
          omega
        · exact absurd hinline hne
      refine ⟨hone ▸ htiled, fun _ _ _ e he hc => ?_⟩
      rw [hplain e he] at hc
      cases hc
  refine .bind promoteIfInline_spec fun _ => triple_at fun q hq => ?_
  obtain ⟨htiled, hsafe⟩ := hpromoted q hq
  refine .bind_and (reads_fileLogicalBlocksVolume.quiet.spec (Φ := fun count => count = ceilBlocks oldSize)
    fun s count t hs hrun => ?_) fun present hpresent => ?_
  · rw [fileLogicalBlocksVolume_ok hrun, hs]
    exact Tiled.lastStop htiled
  · subst hpresent
    have hzeroed : size < oldSize ∧ size % blockSize ≠ 0 → ceilBlocks size ≤ ceilBlocks oldSize :=
      fun h => ceilBlocks_mono h.1.le
    -- the truncation proper, and the tail of its last block
    have hrest (q : Payload) (htiled : Tiled (ceilBlocks oldSize) q.extentList)
        (hplain : 0 < ceilBlocks size → ceilBlocks size < ceilBlocks oldSize →
          Plain (ceilBlocks size - 1) (ceilBlocks size) q.extentList)
        (hsafe : TailSafe size oldSize q.extentList) :
        Upholds env (· = q) (do
          resizeExtents (ceilBlocks size) (ceilBlocks oldSize)
          modify fun s => s.setSize size
          objectFinalize
          fileValidateVolume
          if size < oldSize ∧ 0 < ceilBlocks size ∧ size % blockSize ≠ 0 then zeroTail (ceilBlocks size - 1) else pure ()
          dropUnusedChecksums
          call
          call
          call) (fun _ => True) := by
      refine .bind (resizeExtents_spec htiled hplain hzeroed fun heq hz => hsafe heq hz.1 hz.2) fun _ => ?_
      refine .bind (triple_setSize _) fun _ => tame_objectFinalize.quiet.seq fun _ =>
        reads_fileValidateVolume.quiet.seq fun _ => triple_at fun r hr => ?_
      refine .ite (fun hz => ?_) fun _ => closing_spec
      exact .bind (zeroTail_spec hr.1 (by omega) (hr.2 ⟨hz.1, hz.2.2⟩ hz.2.1)) fun _ => closing_spec
    refine .ite (fun hcut => ?_) fun hcut => ?_
    · refine .bind (fileMaterializeCompressedAt_spec htiled) fun _ => triple_at fun r hr => ?_
      refine hrest r hr.1 (fun hpos _ => hr.2.mono le_rfl (by omega)) fun heq => absurd heq (by omega)
    · exact hrest q htiled (fun hpos hlt => absurd ⟨hlt, hpos⟩ hcut) hsafe

theorem infsTruncateFile_spec {size : Nat} (hp : Laid s₀.object.logicalSize s₀.object.payload)
    (hsafe : s₀.writable = true → ¬(s₀.inlineEnabled = true ∧ size ≤ inlineDataMax) →
      TailSafe size s₀.object.logicalSize s₀.object.payload.extentList) :
    Triple (Begun env s₀) (infsTruncateFile size) (fun _ => Ready env fun _ => True) (Blameless env) := by
  refine .bind begun_call fun _ => .look fun s hs => ?_
  refine .ite (fun _ => begun_fail (by decide)) fun hwritable => ?_
  rw [hs.writable, Bool.not_eq_false] at hwritable
  refine .bind begun_call fun _ => .bind begun_validate fun _ => .look fun s hs => ?_
  rw [hs.inlineEnabled, hs.object]
  refine .pre (P := Ready env (· = s₀.object.payload)) ?_ fun t ht => ht.ready
  refine .ite (fun _ => ?_) fun hnot => truncateExtents_spec hp (hsafe hwritable hnot)
  have hstore : Upholds env (· = s₀.object.payload) (do
      fileStoreInline size
      storeInlineObject
      call) (fun _ => True) :=
    Triple.bind (fileStoreInline_spec _) fun _ => builds_tame.storeInlineObject.quiet.seq fun _ => tame_call.quiet.triple
  exact .branch hstore (tame_call.quiet.seq fun _ => hstore)

end Truncate

section Punch

variable {s₀ : FileState} {lo hi logical offset length size : Nat}

theorem punchPartialBlock_spec (hlo : lo ≤ logical) (hhi : logical < hi) :
    Upholds env (Clean blocks lo hi) (punchPartialBlock logical) (Clean blocks lo hi) := by
  refine triple_at fun q hq => ?_
  refine .bind_and ((reads_fileMapBlock logical).quiet.spec (Φ := fun _ => logical < blocks) fun s m t hs hrun => ?_)
    fun mapped hlogical => ?_
  · obtain ⟨e, he, hholds, _⟩ := fileMapBlock_ok hrun
    exact (holds_iff.mp hholds).2.trans_le (hq.1.mem_bounds (hs ▸ he)).2.2
  · refine .ite (fun _ => .pure fun _ hs => hs.mono fun _ h => h ▸ hq) fun _ => ?_
    refine tame_call.quiet.seq fun _ =>
      Triple.bind (replaceBlock_spec hq.1 hlogical (hq.2.contains hq.1 Nat.one_pos hlo hhi)) fun _ => ?_
    exact (builds_tame.checksumSetRange _ _).quiet.triple.post fun _ s hs => hs.mono fun _ h => ⟨h.tiled, h.plain hq.2⟩

theorem punchFullBlocks_spec {count : Nat} (hlo : lo ≤ logical) (hhi : count ≠ 0 → logical + count ≤ hi)
    (hblocks : hi ≤ blocks) :
    Upholds env (Clean blocks lo hi) (punchFullBlocks logical count) (Clean blocks lo hi) := by
  fun_induction punchFullBlocks logical count with
  | case1 => exact .done
  | case2 logical count hmore ih =>
    have hend := hhi hmore
    have hpos : 0 < min uint32Max count := by
      have : 0 < uint32Max := by decide
      omega
    refine triple_at fun q hq => .bind (fileReplaceRange_spec hpos (by omega) hq.1
      (hq.2.contains hq.1 hpos hlo (by omega))) fun _ => ?_
    refine (ih (by omega) fun _ => by omega).pre fun s hs => hs.mono fun r hr => ?_
    have hr' := hr.materialized hole_not_compressed
    exact ⟨hr'.tiled, hr'.kept.plain hq.2⟩

theorem paddedSize_le (size : Nat) : paddedSize size ≤ ceilBlocks size * blockSize := by
  rw [paddedSize, ceilBlocks]
  by_cases h : size % blockSize = 0
  · rw [if_pos h, if_pos h]
    rw [blockSize] at h ⊢
    omega
  · rw [if_neg h, if_neg h]
    rw [blockSize] at h ⊢
    omega

theorem block_lt_of_punched {b : Nat} (h : b * blockSize < min (offset + length) (paddedSize size)) :
    b < ceilBlocks (min (offset + length) size) := by
  have hpadded := paddedSize_le size
  have hsize : ceilBlocks (min (offset + length) size) = min (ceilBlocks (offset + length)) (ceilBlocks size) := by
    rcases Nat.le_total (offset + length) size with hle | hle
    · rw [min_eq_left hle, min_eq_left (ceilBlocks_mono hle)]
    · rw [min_eq_right hle, min_eq_right (ceilBlocks_mono hle)]
  rw [hsize]
  refine Nat.lt_min.mpr ⟨?_, ?_⟩
  · rw [← not_le, ceilBlocks_le_iff]
    omega
  · exact Nat.lt_of_mul_lt_mul_right (h.trans_le ((min_le_right _ _).trans hpadded))

theorem punchExtents_spec (hoffset : offset < size) (hlength : 0 < length)
    (htiled : Tiled (ceilBlocks size) p.extentList) :
    Upholds env (· = p) (punchExtents offset length size) (fun _ => True) := by
  set first := offset / blockSize with hfirst
  set last := ceilBlocks (min (offset + length) size) with hlast
  set stop := min (offset + length) (paddedSize size) with hstop
  have hin {b : Nat} (hb : b * blockSize < stop) : b < last := block_lt_of_punched hb
  have hlastBlocks : last ≤ ceilBlocks size := ceilBlocks_mono (min_le_right _ _)
  have hnonempty : first < last := by
    rw [hlast, ← not_le, ceilBlocks_le_iff]
    rw [blockSize] at hfirst ⊢
    omega
  have htail (pos : Nat) (hpos : offset ≤ pos) :
      Upholds env (Clean (ceilBlocks size) first last) (do
        if pos < stop then punchPartialBlock (pos / blockSize) else pure ()
        dropUnusedChecksums
        call
        call
        call) (fun _ => True) := by
    refine .ite (fun hlt => ?_) fun _ => closing_spec
    refine .bind (punchPartialBlock_spec (Nat.div_le_div_right hpos)
      (hin ((Nat.div_mul_le_self _ _).trans_lt hlt))) fun _ => closing_spec
  have hfull (pos : Nat) (hpos : offset ≤ pos) :
      Upholds env (Clean (ceilBlocks size) first last) (punchFullBlocks (pos / blockSize) ((stop - pos) / blockSize))
        (Clean (ceilBlocks size) first last) := by
    refine punchFullBlocks_spec (Nat.div_le_div_right hpos) (fun hne => ?_) hlastBlocks
    -- the last of the full blocks starts before the end of the range
    have hb : (pos / blockSize + (stop - pos) / blockSize - 1) * blockSize < stop := by
      rw [blockSize] at hne ⊢
      omega
    have := hin hb
    omega
  have hrest (head : Nat) :
      Upholds env (Clean (ceilBlocks size) first last) (do
        punchFullBlocks ((offset + head) / blockSize) ((stop - (offset + head)) / blockSize)
        if offset + head + (stop - (offset + head)) / blockSize * blockSize < stop then
          punchPartialBlock ((offset + head + (stop - (offset + head)) / blockSize * blockSize) / blockSize)
        else pure ()
        dropUnusedChecksums
        call
        call
        call) (fun _ => True) :=
    Triple.bind (hfull _ (Nat.le_add_right _ _)) fun _ => htail _ (by omega)
  refine .ite (fun _ => ?_) fun hnot => absurd hnonempty hnot
  have hstart := @fileMaterializeCompressedRange_spec env _ p first (last - first) htiled
  rw [Nat.add_sub_cancel' hnonempty.le] at hstart
  refine .bind hstart fun _ => .branch ?_ (hrest _)
  exact .bind (punchPartialBlock_spec le_rfl hnonempty) fun _ => hrest _

theorem infsPunchHole_spec (hp : Laid s₀.object.logicalSize s₀.object.payload) :
    Triple (Begun env s₀) (infsPunchHole offset length) (fun _ => Ready env fun _ => True) (Blameless env) := by
  refine .ite (fun _ => .pure fun s hs => hs.ready.mono fun _ _ => trivial) fun hlength => ?_
  refine .ite (fun _ => begun_fail (by decide)) fun _ => .bind begun_call fun _ => .look fun s hs => ?_
  rw [hs.object]
  refine .ite (fun _ => .pure fun s hs => hs.ready.mono fun _ _ => trivial) fun hoffset => ?_
  refine .bind begun_call fun _ => .bind begun_call fun _ => .bind begun_validate fun _ =>
    Triple.look fun s hs => ?_
  rw [hs.object]
  refine .pre (P := Ready env (· = s₀.object.payload)) ?_ fun t ht => ht.ready
  refine .ite (fun _ => ?_) fun hinline => ?_
  · refine reads_fileValidateVolume.quiet.seq fun _ => tame_call.quiet.seq fun _ => ?_
    exact .bind (fileStoreInline_spec _) fun _ => builds_tame.storeInlineObject.quiet.seq fun _ => tame_call.quiet.triple
  · refine punchExtents_spec (by omega) (by omega) ?_
    rcases hp with ⟨heq, _⟩ | hp
    · rw [FileObject.isInline, heq] at hinline
      exact absurd rfl hinline
    · exact hp.2

end Punch

end InfiltratorFS.File
