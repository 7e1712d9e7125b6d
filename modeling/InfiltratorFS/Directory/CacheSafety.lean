import InfiltratorFS.Directory.Transaction

namespace InfiltratorFS.Directory

open Prog

section Invariant

/-- Publications do not fail, the cache agrees with the live graph, and so
does whatever an abort would bring back. -/
structure Fine (casefold : Bool) (v : NamespaceVolume) : Prop where
  publication : ∀ t, (v.publication t).status = .ok
  folded : v.live.casefold = casefold
  sound : v.live.objects.view.Sound casefold
  coherent : ∀ cache, v.live.cache = some cache → Coherent casefold cache v.live.objects.view
  base : v.txActive = true → v.base.casefold = casefold ∧ v.base.objects.view.Sound casefold

def Idle (casefold : Bool) (v : NamespaceVolume) : Prop := Fine casefold v ∧ v.operationActive = false

/-- An operation is open: whatever was staged, the abort has a way back. -/
abbrev Framed (v₀ v : NamespaceVolume) : Prop := v = { v₀ with live := v.live, published := v.published }

/-- The volume with the same graph; only the cache and the calls made differ. -/
structure Steady (v₀ v : NamespaceVolume) : Prop where
  same : Framed v₀ v
  near : Near v₀.live v₀.live.objects v.live

variable {casefold : Bool} {v₀ v : NamespaceVolume}

abbrev Settles {α : Type} (casefold : Bool) (v₀ : NamespaceVolume) (x : VolumeM α) : Prop :=
  Triple (Steady v₀) x (fun _ => Idle casefold) fun _ => Idle casefold

theorem Fine.steady (h : Fine casefold v) : Steady v v where
  same := rfl
  near := ⟨rfl, h.folded ▸ h.sound, h.folded ▸ h.coherent⟩

theorem Steady.fine (h : Steady v₀ v) (h₀ : Fine casefold v₀) : Fine casefold v where
  publication := by rw [h.same]; exact h₀.publication
  folded := h.near.casefold.trans h₀.folded
  sound := by rw [h.near.objects]; exact h₀.sound
  coherent := by
    rw [h.near.objects, ← h₀.folded]
    exact h.near.coherent
  base := by rw [h.same]; exact h₀.base

theorem Steady.superblock (h : Steady v₀ v) : v.live.superblock = v₀.live.superblock := by
  rw [h.near.same]
  rfl

theorem Fine.of_clear (hpublication : ∀ t, (v.publication t).status = .ok) (hcasefold : v.live.casefold = casefold)
    (hsound : v.live.objects.view.Sound casefold) (hclear : ∀ cache, v.live.cache = some cache → cache = directoryCacheClear)
    (hbase : v.txActive = true → v.base.casefold = casefold ∧ v.base.objects.view.Sound casefold) : Fine casefold v where
  publication := hpublication
  folded := hcasefold
  sound := hsound
  coherent cache hcache := hclear cache hcache ▸ Coherent.clear casefold _
  base := hbase

theorem cache_reset (s : Live) (cache : DirectoryCache) (h : (directoryCacheReset s).cache = some cache) :
    cache = directoryCacheClear := by
  obtain ⟨_, _, rfl⟩ := Option.map_eq_some_iff.mp h
  rfl

end Invariant

section Steps

variable {casefold : Bool} {v₀ : NamespaceVolume}

theorem triple_lift {α : Type} {x : LiveM α} {P : Live → Prop} {Q : α → Live → Prop} {E : Status → Live → Prop}
    (h : Triple P x Q E) :
    Triple (fun v => Framed v₀ v ∧ P v.live) (lift x) (fun a v => Framed v₀ v ∧ Q a v.live)
      (fun e v => Framed v₀ v ∧ E e v.live) := by
  rintro v ⟨hsame, hv⟩
  obtain ⟨hok, herror⟩ := h v.live hv
  constructor
  · intro a t ht
    obtain ⟨hresult, rfl⟩ := Prod.mk.inj ht
    exact ⟨by rw [hsame], hok a _ (Prod.ext hresult rfl)⟩
  · intro e t ht
    obtain ⟨hresult, rfl⟩ := Prod.mk.inj ht
    exact ⟨by rw [hsame], herror e _ (Prod.ext hresult rfl)⟩

theorem triple_steady {α : Type} {x : LiveM α}
    (h : Maintains (Near v₀.live v₀.live.objects) x) : Maintains (Steady v₀) (lift x) :=
  (triple_lift h).mono (fun _ hv => ⟨hv.same, hv.near⟩) (fun _ _ hv => ⟨hv.1, hv.2⟩) (fun _ _ hv => ⟨hv.1, hv.2⟩)

theorem triple_steady_call : Maintains (Steady v₀) (lift call) := triple_steady triple_call_near

theorem triple_steady_request : Maintains (Steady v₀) (lift request) :=
  triple_steady triple_request_near

variable {E : Status → NamespaceVolume → Prop}

def begun (v : NamespaceVolume) : NamespaceVolume :=
  if v.txActive then v else { v with base := v.live.superblock, txActive := true }

theorem Fine.begun (h : Fine casefold v₀) : Fine casefold (begun v₀) := by
  unfold Directory.begun
  split
  · exact h
  · exact ⟨h.publication, h.folded, h.sound, h.coherent, fun _ => ⟨h.folded, h.sound⟩⟩

theorem triple_txBegin : Triple (Steady v₀) txBegin (fun _ => Steady (begun v₀)) (fun _ => Steady v₀) := by
  apply Triple.look
  intro v hv
  apply Triple.check
  apply Triple.check
  apply triple_steady_call.seq
  apply Triple.modify
  intro w hw
  have hactive : w.txActive = v₀.txActive := by rw [hw.same]
  unfold begun
  rw [hactive]
  by_cases hv₀ : v₀.txActive = true
  · rw [if_pos hv₀, if_pos hv₀]
    exact hw
  · rw [if_neg hv₀, if_neg hv₀]
    refine ⟨?_, hw.near⟩
    rw [hw.superblock, hw.same]

section

variable (hpub : ∀ t, (v₀.publication t).status = .ok)

include hpub

theorem triple_publicationStep :
    Triple (Steady v₀) publicationStep (fun answer v => answer.status = .ok ∧ Steady v₀ v) E := by
  intro v hv
  have hstatus : (v.publication v.published).status = .ok := by
    have hsame : v.publication = v₀.publication := by rw [hv.same]
    rw [hsame]
    exact hpub _
  constructor
  · intro a t ht
    obtain ⟨hresult, rfl⟩ := Prod.mk.inj ht
    cases hresult
    refine ⟨hstatus, ?_, hv.near⟩
    rw [hv.same]
  · intro e t ht
    cases ht

theorem triple_precheckpointStep :
    Triple (Steady v₀) precheckpointStep (fun _ => Steady v₀) E := by
  apply (triple_publicationStep hpub).bind_and
  intro answer hstatus
  rw [if_neg (not_not_intro hstatus)]
  exact .pure fun _ h => h

theorem triple_publishCheckpoint :
    Triple (Steady v₀) publishCheckpoint (fun _ => Steady { v₀ with txActive := false }) E := by
  apply (triple_publicationStep hpub).bind_and
  intro answer hstatus
  rw [if_pos (.inl hstatus), if_neg (not_not_intro hstatus)]
  apply Triple.bind (Q := fun _ => Steady { v₀ with txActive := false })
  · apply Triple.modify
    intro v hv
    refine ⟨?_, hv.near⟩
    rw [hv.same]
  · intro _
    exact .pure fun _ h => h

end

/-- After a publication that succeeds there is no transaction, unless the
volume is read-only. -/
def synced (v : NamespaceVolume) : NamespaceVolume :=
  if v.writable then { v with txActive := false } else v

theorem Fine.synced (h : Fine casefold v₀) : Fine casefold (synced v₀) := by
  unfold Directory.synced
  split
  · exact ⟨h.publication, h.folded, h.sound, h.coherent, fun hactive => nomatch hactive⟩
  · exact h

def Finished (v₀ v : NamespaceVolume) : Prop := Steady v₀ v ∨ Steady (synced v₀) v

theorem Finished.fine {v : NamespaceVolume} (h : Finished v₀ v) (h₀ : Fine casefold v₀) : Fine casefold v := by
  rcases h with h | h
  · exact h.fine h₀
  · exact h.fine h₀.synced

variable (hpub : ∀ t, (v₀.publication t).status = .ok)
include hpub

theorem triple_volumeSync :
    Triple (Steady v₀) volumeSync (fun _ => Steady (synced v₀)) (fun _ => Steady v₀) := by
  apply Triple.look
  intro v hv
  have hwritable : v.writable = v₀.writable := by rw [hv.same]
  have hactive : v.txActive = v₀.txActive := by rw [hv.same]
  rw [hwritable, hactive]
  apply Triple.check
  by_cases hw : v₀.writable = true
  · have hsynced : synced v₀ = { v₀ with txActive := false } := if_pos hw
    rw [if_neg (by rw [hw]; decide), hsynced]
    apply triple_steady_call.seq
    by_cases ha : v₀.txActive = true
    · rw [if_pos ha]
      apply (triple_precheckpointStep hpub).seq
      apply (triple_precheckpointStep hpub).seq
      apply (triple_precheckpointStep hpub).seq
      apply (triple_precheckpointStep hpub).seq
      exact triple_publishCheckpoint hpub
    · have hidle : ({ v₀ with txActive := false } : NamespaceVolume) = v₀ := by
        rw [← Bool.not_eq_true _ |>.mp ha]
      rw [if_neg ha, hidle]
      exact .pure fun _ h => h
  · have hsynced : synced v₀ = v₀ := if_neg hw
    rw [if_pos (by rw [Bool.not_eq_true _ |>.mp hw]; decide), hsynced]
    exact .pure fun _ h => h

theorem triple_finishMutation :
    Triple (Steady v₀) finishMutation (fun _ => Finished v₀) (fun _ => Steady v₀) := by
  apply Triple.look
  intro v hv
  apply Triple.check
  apply triple_steady_request.bind
  intro answer
  apply Triple.branch
  · exact (triple_volumeSync hpub).post fun _ _ h => .inr h
  · exact .pure fun _ h => .inl h

theorem triple_publish (c : MutationCall) :
    Triple (Steady v₀) c.publish (fun _ => Finished v₀) (fun _ => Steady v₀) := by
  unfold MutationCall.publish
  split
  · exact (triple_volumeSync hpub).post fun _ _ h => .inr h
  · exact triple_finishMutation hpub

end Steps

section Mutations

variable {casefold : Bool} {v₀ : NamespaceVolume}

theorem triple_body {s : Live} {g : Graph} (c : MutationCall) : Leads (Near s g) c.body (Kept s) := by
  cases c with
  | create path type =>
    exact (triple_createObject path type).bind fun _ => Triple.pure fun _ h => h
  | reflink source destination =>
    have hcreate : Leads (Near s g) (reflinkFileTx source destination) (Kept s) := by
      apply (triple_lookupPath source).any.bind
      intro id
      apply triple_indexFind.any.bind_and
      intro node _
      apply Triple.require
      intro _
      apply (triple_createObject destination .file).seq
      apply triple_kept
      intro g'
      apply (triple_lookupPath destination).any.seq
      exact triple_call_any.post fun _ t ht => ⟨g', ht⟩
    exact hcreate.bind fun _ => Triple.pure fun _ h => h
  | link existing new replace => exact triple_linkFileTx existing new replace
  | remove path wantDirectory =>
    exact (triple_removeObject path wantDirectory).bind fun _ => Triple.pure fun _ h => h
  | rename old new replace => exact triple_renameTx old new replace
  | update path force =>
    apply (triple_lookupPath path).any.seq
    apply triple_request_near.any.bind
    intro answer
    exact Triple.pure fun t ht => ⟨g, ht⟩

theorem triple_stage (h₀ : Fine casefold v₀) (c : MutationCall) :
    Triple (Steady v₀) c.stage (fun _ v => Fine casefold v) (fun _ => Framed v₀) := by
  have hbody : Triple (Steady v₀) (lift c.body) (fun _ v => Framed v₀ v ∧ Kept v₀.live v.live) (fun _ => Framed v₀) :=
    (triple_lift (triple_body c)).mono (fun _ hv => ⟨hv.same, hv.near⟩) (fun _ _ hv => hv) (fun _ _ hv => hv.1)
  apply hbody.bind
  intro staged
  apply Triple.at_state
  rintro v ⟨hframe, g, hnear⟩
  have hcasefold : v.live.casefold = casefold := hnear.casefold.trans h₀.folded
  have hfine : Fine casefold v := by
    refine ⟨?_, hcasefold, ?_, ?_, ?_⟩
    · rw [hframe]; exact h₀.publication
    · rw [hnear.objects, ← h₀.folded]; exact hnear.sound
    · rw [hnear.objects, ← h₀.folded]; exact hnear.coherent
    · rw [hframe]; exact h₀.base
  apply Triple.branch
  · apply (triple_publish hfine.publication c).mono
    · rintro _ rfl
      exact hfine.steady
    · intro _ w hw
      exact hw.fine hfine
    · intro _ w hw
      have hw' := hw.same
      rw [hframe] at hw'
      exact hw'
  · apply Triple.pure
    rintro _ rfl
    exact hfine

def opened (v : NamespaceVolume) : NamespaceVolume :=
  { begun v with operation := v.live.superblock, operationActive := true }

theorem Fine.opened (h : Fine casefold v₀) : Fine casefold (opened v₀) :=
  ⟨h.begun.publication, h.begun.folded, h.begun.sound, h.begun.coherent, h.begun.base⟩

theorem live_begun (v : NamespaceVolume) : (begun v).live = v.live := by
  unfold begun
  split <;> rfl

theorem operationActive_begun (v : NamespaceVolume) : (begun v).operationActive = v.operationActive := by
  unfold begun
  split <;> rfl

theorem triple_mutationScopeBegin (hidle : v₀.operationActive = false) :
    Triple (Steady v₀) mutationScopeBegin (fun _ => Steady (opened v₀)) (fun _ => Steady v₀) := by
  apply Triple.look
  intro v hv
  apply triple_txBegin.seq
  have hclosed : v.operationActive = false := by rw [hv.same]; exact hidle
  rw [hclosed]
  apply Triple.bind (Q := fun _ => Steady (opened v₀))
  · apply Triple.modify
    intro w hw
    refine ⟨?_, hw.near⟩
    unfold opened
    rw [hw.superblock, live_begun, hw.same]
  · intro _
    exact .pure fun _ h => h

/-- The operation goes back to its own superblock with an empty cache, so a
transaction that is aborted after it finds nothing stale. -/
theorem triple_mutationScopeFail (h₀ : Fine casefold v₀) (started : Bool) {E : Status → NamespaceVolume → Prop} :
    Triple (Framed (opened v₀)) (mutationScopeFail started) (fun _ => Idle casefold) E := by
  have hopened := h₀.opened
  apply Triple.bind
    (Q := fun _ v => Idle casefold v ∧ ∀ cache, v.live.cache = some cache → cache = directoryCacheClear)
  · apply Triple.modify
    intro v hv
    have hactive : v.operationActive = true := by rw [hv]; rfl
    have hoperation : v.operation = v₀.live.superblock := by rw [hv]; rfl
    rw [if_pos hactive]
    refine ⟨⟨Fine.of_clear ?_ ?_ ?_ (cache_reset _) ?_, rfl⟩, cache_reset _⟩
    · rw [hv]; exact hopened.publication
    · change v.operation.casefold = casefold
      rw [hoperation]; exact h₀.folded
    · change v.operation.objects.view.Sound casefold
      rw [hoperation]; exact h₀.sound
    · rw [hv]; exact hopened.base
  · intro _
    cases started with
    | false => exact .pure fun v hv => hv.1
    | true =>
      apply Triple.modify
      rintro v ⟨⟨hfine, hidle⟩, hclear⟩
      split
      · rename_i hactive
        obtain ⟨hfolded, hsound⟩ := hfine.base hactive
        exact ⟨Fine.of_clear hfine.publication hfolded hsound hclear (fun h => nomatch h), rfl⟩
      · exact ⟨hfine, hidle⟩

theorem triple_mutation (h₀ : Idle casefold v₀) (c : MutationCall) : Settles casefold v₀ c.run := by
  have hidle : ∀ v, Steady v₀ v → Idle casefold v := by
    intro v hv
    refine ⟨hv.fine h₀.1, ?_⟩
    rw [hv.same]
    exact h₀.2
  apply ((triple_mutationScopeBegin h₀.2).error fun _ v hv => hidle v hv).bind
  intro started
  apply (triple_stage h₀.1.opened c).attempt_bind
  · exact fun _ => .modify fun w hw => ⟨⟨hw.publication, hw.folded, hw.sound, hw.coherent, hw.base⟩, rfl⟩
  · exact fun _ => (triple_mutationScopeFail h₀.1 started).bind fun _ => .fail fun _ h => h

end Mutations

section Run

variable {casefold : Bool} {v₀ v : NamespaceVolume}

theorem Steady.idle (h : Steady v₀ v) (h₀ : Idle casefold v₀) : Idle casefold v := by
  refine ⟨h.fine h₀.1, ?_⟩
  rw [h.same]
  exact h₀.2

theorem Idle.synced (h : Idle casefold v) : Idle casefold (synced v) := by
  refine ⟨h.1.synced, ?_⟩
  unfold Directory.synced
  split <;> exact h.2

theorem Idle.begun (h : Idle casefold v) : Idle casefold (begun v) :=
  ⟨h.1.begun, (operationActive_begun v).trans h.2⟩

theorem Finished.idle (h : Finished v₀ v) (h₀ : Idle casefold v₀) : Idle casefold v := by
  rcases h with h | h
  · exact h.idle h₀
  · exact h.idle h₀.synced

section

variable (h₀ : Idle casefold v₀)

include h₀

theorem idle_bind {α β : Type} {x : VolumeM α} {f : α → VolumeM β} {v₁ : NamespaceVolume}
    (hx : Triple (Steady v₀) x (fun _ => Steady v₁) fun _ => Steady v₀)
    (hf : ∀ a, Settles casefold v₁ (f a)) : Settles casefold v₀ (x >>= f) :=
  (hx.error fun _ _ h => h.idle h₀).bind hf

theorem idle_guard {α : Type} {c : Prop} [Decidable c] {e : Status} {x : VolumeM α}
    (hx : ¬c → Settles casefold v₀ x) : Settles casefold v₀ (if c then fail e else x) :=
  Triple.guard hx fun _ h => h.idle h₀

theorem triple_requireReopen (status : Status) : Settles casefold v₀ (do requireReopen status; fail status : VolumeM Unit) := by
  apply Triple.bind (Q := fun _ => Idle casefold)
  · apply Triple.modify
    intro v hv
    obtain ⟨hfine, hidle⟩ := hv.idle h₀
    exact ⟨⟨hfine.publication, hfine.folded, hfine.sound, hfine.coherent, hfine.base⟩, hidle⟩
  · intro _
    exact .fail fun _ h => h

/-- The last write decides between the new superblock and a volume that has to
be opened again. -/
theorem triple_commit {change : NamespaceVolume → NamespaceVolume}
    (hchange : ∀ v, Steady v₀ v → Idle casefold (change v)) : Settles casefold v₀ (do
        match ← attempt (lift call) with
        | .error status =>
          requireReopen status
          fail status
        | .ok _ => modify change) := by
  apply triple_steady_call.attempt_bind
  · exact fun _ => .modify hchange
  · exact triple_requireReopen h₀

theorem triple_setDeferredPublish (enabled : Bool) : Settles casefold v₀ (setDeferredPublish enabled) := by
  have hset : ∀ v₁, Idle casefold v₁ → Triple (Steady v₁) (modify fun v => { v with deferredPublish := enabled })
      (fun _ => Idle casefold) (fun _ : Status => Idle casefold) := by
    intro v₁ h₁
    apply Triple.modify
    intro v hv
    obtain ⟨hfine, hidle⟩ := hv.idle h₁
    exact ⟨⟨hfine.publication, hfine.folded, hfine.sound, hfine.coherent, hfine.base⟩, hidle⟩
  apply Triple.look
  intro v hv
  apply idle_guard h₀
  intro _
  split
  · exact idle_bind h₀ (triple_volumeSync h₀.1.publication) fun _ => hset _ h₀.synced
  · exact hset _ h₀

/-- The transaction of a catalog change starts from the live superblock, so
aborting it changes no name. -/
theorem triple_snapshotChange : Settles casefold v₀ snapshotChange := by
  apply Triple.look
  intro v hv
  have hwritable : v.writable = v₀.writable := by rw [hv.same]
  rw [hwritable]
  apply idle_guard h₀
  intro hw
  have hsynced : synced v₀ = { v₀ with txActive := false } := if_pos (by simpa using hw)
  apply idle_bind h₀ (triple_volumeSync h₀.1.publication)
  intro _
  apply idle_bind h₀.synced triple_steady_call
  intro _
  apply idle_bind h₀.synced triple_txBegin
  intro _
  have hbegun : begun (synced v₀) = { v₀ with base := v₀.live.superblock, txActive := true } := by
    rw [hsynced]
    rfl
  have hidle := h₀.synced.begun
  apply (triple_steady_call.bind fun _ => triple_finishMutation hidle.1.publication).attempt_bind
  · exact fun _ => .pure fun x hx => hx.idle hidle
  · intro status
    refine .bind (.modify fun x hx => ?_) fun _ => .fail fun _ h => h
    obtain ⟨hfine, hclosed⟩ := hx.idle hidle
    split
    · have hbase : x.base = x.live.superblock := by
        rw [hx.superblock, hx.same, hbegun]
      refine ⟨⟨hfine.publication, ?_, ?_, ?_, fun h => nomatch h⟩, rfl⟩
      · change x.base.casefold = casefold
        rw [hbase]; exact hfine.folded
      · change x.base.objects.view.Sound casefold
        rw [hbase]; exact hfine.sound
      · change ∀ cache, x.live.cache = some cache → Coherent casefold cache x.base.objects.view
        rw [hbase]; exact hfine.coherent
    · exact ⟨hfine, hclosed⟩

theorem triple_snapshotRollback (retained : ValidGraph casefold) : Settles casefold v₀ (snapshotRollback retained) := by
  apply Triple.look
  intro v hv
  apply idle_guard h₀
  intro _
  apply idle_guard h₀
  intro _
  apply idle_bind h₀ (triple_volumeSync h₀.1.publication)
  intro _
  apply idle_bind h₀.synced triple_steady_call
  intro _
  apply triple_commit h₀.synced
  intro w hw
  obtain ⟨hfine, hidle⟩ := hw.idle h₀.synced
  exact ⟨Fine.of_clear hfine.publication hfine.folded retained.sound (cache_reset _) hfine.base, hidle⟩

theorem triple_volumeResize : Settles casefold v₀ volumeResize := by
  apply Triple.look
  intro v hv
  apply idle_guard h₀
  intro _
  apply idle_bind h₀ (triple_volumeSync h₀.1.publication)
  intro _
  apply idle_bind h₀.synced triple_steady_request
  intro answer
  apply Triple.branch
  · exact .pure fun _ h => h.idle h₀.synced
  · apply triple_commit h₀.synced
    intro w hw
    obtain ⟨hfine, hidle⟩ := hw.idle h₀.synced
    exact ⟨Fine.of_clear hfine.publication hfine.folded hfine.sound (cache_reset _) hfine.base, hidle⟩

end

def PublicCall.restores : PublicCall casefold → Bool
  | .snapshotRestorePath _ _ _ => true
  | _ => false

theorem triple_publicCall (h₀ : Idle casefold v₀) (c : PublicCall casefold) (hc : c.restores = false) :
    Settles casefold v₀ c.run := by
  cases c with
  | lookup path =>
    exact idle_bind h₀ (triple_steady (triple_lookupPath path)) fun _ => .pure fun _ h => h.idle h₀
  | mutation c => exact triple_mutation h₀ c
  | sync =>
    exact (triple_volumeSync h₀.1.publication).mono (fun _ h => h) (fun _ _ h => h.idle h₀.synced) fun _ _ h => h.idle h₀
  | setDeferredPublish enabled => exact triple_setDeferredPublish h₀ enabled
  | snapshotChange => exact triple_snapshotChange h₀
  | snapshotRestorePath destination replace steps => cases hc
  | snapshotRollback retained => exact triple_snapshotRollback h₀ retained
  | resize => exact triple_volumeResize h₀

theorem idle_publicCall (h : Idle casefold v) (c : PublicCall casefold) (hc : c.restores = false) :
    Idle casefold (c.run v).2 := (triple_publicCall h c hc).final h.1.steady

theorem idle_runCalls (calls : List (PublicCall casefold)) (hcalls : ∀ c ∈ calls, c.restores = false) :
    ∀ v, Idle casefold v → Idle casefold (runCalls calls v) := by
  induction calls with
  | nil =>
    intro v h
    exact h
  | cons c rest ih =>
    intro v h
    exact ih (fun d hd => hcalls d (List.mem_cons_of_mem c hd)) _
      (idle_publicCall h c (hcalls c List.mem_cons_self))

end Run

section Answers

def answered : Answer := ⟨.ok, ok_ne_notFound, Vector.replicate 16 2, false⟩

def Live.readable (s : Live) : Live := { s with env := fun _ => answered }

def Live.uncached (s : Live) : Live := { s with cache := none }

def Answers (casefold : Bool) (es : List Dirent) (name : Name) : Except Status (ObjectId × ObjectType) → Prop
  | .ok found => Bound casefold es name found
  | .error status => status = .notFound ∧ Unbound casefold es name

theorem Answers.unique {casefold : Bool} {es : List Dirent} {name : Name} {r r' : Except Status (ObjectId × ObjectType)}
    (hes : (es.map fun e => foldName casefold e.name).Nodup) (h : Answers casefold es name r)
    (h' : Answers casefold es name r') : r = r' := by
  rcases r with status | found <;> rcases r' with status' | found'
  · rw [h.1, h'.1]
  · obtain ⟨e, he, hname, _⟩ := h'
    exact absurd hname (h.2 e he)
  · obtain ⟨e, he, hname, _⟩ := h
    exact absurd hname (h'.2 e he)
  · obtain ⟨e, he, hname, rfl⟩ := h
    obtain ⟨e', he', hname', rfl⟩ := h'
    rw [nodup_of_distinct hes he he' (hname.trans hname'.symm)]

variable {body : DirectoryBody} {id : ObjectId}

theorem answers_dirLookupVolume {s : Live} (hsound : s.objects.view.Sound s.casefold)
    (hcoherent : ∀ cache, s.cache = some cache → Coherent s.casefold cache s.objects.view)
    (henv : ∀ t, (s.env t).status = .ok) (hbody : s.objects.view id = some body.entries) (name : Name) (wantEntry : Bool) :
    Answers s.casefold body.entries name (dirLookupVolume id body name wantEntry s).1 := by
  have hnear : Near s s.objects s := ⟨rfl, hsound, hcoherent⟩
  have hlookup : Triple (Near s s.objects) (dirLookupVolume id body name wantEntry)
      (Found s s.objects body.entries name) (Missed s s.objects body.entries name) :=
    triple_dirLookupVolume hbody wantEntry
  obtain ⟨hok, herror⟩ := hlookup s hnear
  rcases hrun : dirLookupVolume id body name wantEntry s with ⟨status | found, t⟩
  · rcases (herror status t hrun).2 with hmissed | ⟨tick, hstatus, hne⟩
    · exact hmissed
    · exact absurd ((henv tick).symm.trans hstatus).symm hne
  · exact (hok found t hrun).2

theorem view_directory {g : Graph} (h : g.directory id = some body) :
    g.view id = some body.entries := by
  unfold Graph.view
  rw [h]
  rfl

/-- A volume as it is opened: no transaction, and an empty cache or none. -/
structure NamespaceVolume.Opened (v : NamespaceVolume) : Prop where
  tx : v.txActive = false
  operation : v.operationActive = false
  cache : ∀ cache, v.live.cache = some cache → cache = directoryCacheClear

/-- Every cached name is an entry, a complete directory has all of its entries
cached, and a lookup answers the same with and without the cache. -/
structure Live.CacheAgrees (s : Live) (id : ObjectId) (body : DirectoryBody) : Prop where
  same : ∀ name wantEntry, (dirLookupVolume id body name wantEntry s.readable).1 =
    (dirLookupVolume id body name wantEntry s.readable.uncached).1
  exists_of_hit : ∀ cache name found, s.cache = some cache → cache.lookup s.casefold id name = some found →
    ∃ e ∈ body.entries, foldName s.casefold e.name = foldName s.casefold name ∧ (e.objectId, e.objectType) = found
  hit_of_complete : ∀ cache, s.cache = some cache → cache.complete id = true →
    ∀ e ∈ body.entries, cache.lookup s.casefold id e.name = some (e.objectId, e.objectType)

theorem Idle.cacheAgrees {casefold : Bool} {v : NamespaceVolume} (h : Idle casefold v)
    (hbody : v.live.objects.directory id = some body) : v.live.CacheAgrees id body := by
  obtain ⟨⟨_, rfl, hsound, hcoherent, _⟩, _⟩ := h
  have hview := view_directory hbody
  constructor
  · intro name wantEntry
    apply Answers.unique (hsound.distinct id _ hview)
    · exact answers_dirLookupVolume (s := v.live.readable) hsound hcoherent (fun _ => rfl) hview name wantEntry
    · exact answers_dirLookupVolume (s := v.live.readable.uncached) hsound (fun _ h => nomatch h) (fun _ => rfl) hview name
        wantEntry
  · intro cache name found hcache hhit
    have hk := hcoherent cache hcache
    obtain ⟨es, hes, hfound⟩ := hk.known _ _ ((DirectoryCache.lookup_eq_some hk.formed found).mp hhit)
    obtain rfl : body.entries = es := Option.some.inj (hview.symm.trans hes)
    exact hfound
  · intro cache hcache hcomplete e he
    have hk := hcoherent cache hcache
    rw [DirectoryCache.lookup_eq_some hk.formed]
    exact hk.complete id _ hview ((DirectoryCache.complete_iff hk.formed).mp hcomplete) e he

/-- The cache agrees with every directory after any run in which no
publication fails and no path is restored out of a snapshot. -/
theorem cacheAgrees_runCalls (v : NamespaceVolume) (hopened : v.Opened)
    (hsound : v.live.objects.view.Sound v.live.casefold) (hpublication : ∀ t, (v.publication t).status = .ok)
    (calls : List (PublicCall v.live.casefold)) (hcalls : ∀ c ∈ calls, c.restores = false) (id : ObjectId)
    (body : DirectoryBody) (hbody : (runCalls calls v).live.objects.directory id = some body) :
    (runCalls calls v).live.CacheAgrees id body := by
  have hidle : Idle v.live.casefold v := by
    refine ⟨Fine.of_clear hpublication rfl hsound hopened.cache fun h => ?_, hopened.operation⟩
    rw [hopened.tx] at h
    cases h
  exact (idle_runCalls calls hcalls v hidle).cacheAgrees hbody

def emptyVolume (publication : Nat → Answer) : NamespaceVolume where
  live :=
    { casefold := false, utf8 := fun _ => true, removable := fun _ => true, hardLinks := true, symbolicLinks := true
      directoryTree := false, pagedMetadata := false, rootId := Vector.replicate 16 1
      objects := fun id => if id = Vector.replicate 16 1 then some ⟨none, .directory (.classic [])⟩ else none
      cache := some directoryCacheClear, env := fun _ => answered, tick := 0 }
  base := ⟨false, true, true, false, false, Vector.replicate 16 1, fun _ => none⟩
  operation := ⟨false, true, true, false, false, Vector.replicate 16 1, fun _ => none⟩
  txActive := false
  operationActive := false
  writable := true
  reopenRequiredStatus := .ok
  deferredPublish := false
  publication := publication
  published := 0

variable (publication : Nat → Answer)

theorem opened_emptyVolume : (emptyVolume publication).Opened where
  tx := rfl
  operation := rfl
  cache _ h := (Option.some.inj h).symm

theorem sound_emptyVolume :
    (emptyVolume publication).live.objects.view.Sound (emptyVolume publication).live.casefold := by
  have hempty : ∀ id es, (emptyVolume publication).live.objects.view id = some es → es = [] := by
    intro id es hes
    rw [view_apply] at hes
    by_cases hid : id = Vector.replicate 16 1
    · have hnode : (emptyVolume publication).live.objects id = some ⟨none, .directory (.classic [])⟩ := if_pos hid
      rw [hnode] at hes
      exact (Option.some.inj hes).symm
    · have hnode : (emptyVolume publication).live.objects id = none := if_neg hid
      rw [hnode] at hes
      cases hes
  constructor
  · intro id es hes
    rw [hempty id es hes]
    exact List.nodup_nil
  · intro id es hes e he
    rw [hempty id es hes] at he
    cases he

/-- One file created on an empty volume whose publications succeed. -/
theorem cacheAgrees_create :
    (runCalls ([.mutation (.create [[97]] .file)] : List (PublicCall false)) (emptyVolume fun _ => answered)).live.CacheAgrees
      (Vector.replicate 16 1) (.classic [⟨[97], Vector.replicate 16 2, .file⟩]) :=
  cacheAgrees_runCalls (emptyVolume fun _ => answered) (opened_emptyVolume _) (sound_emptyVolume _) (fun _ => rfl)
    ([.mutation (.create [[97]] .file)] : List (PublicCall false))
    (fun _ hc => List.mem_singleton.mp hc ▸ rfl) (Vector.replicate 16 1)
    (.classic [⟨[97], Vector.replicate 16 2, .file⟩]) (by decide +kernel)

/-- The first flush of the publication fails: the create is undone, the root is
empty again, and the cache still finds the file. -/
theorem stale_hit_after_failed_flush :
    let v := emptyVolume fun _ => ⟨.ioError, by decide, Vector.replicate 16 0, false⟩
    let create : PublicCall v.live.casefold := .mutation (.create [[97]] .file)
    let s := (runCalls [create] v).live
    (create.run v).1 = .error .ioError ∧ s.objects.directory (Vector.replicate 16 1) = some (.classic []) ∧
      (dirLookupVolume (Vector.replicate 16 1) (.classic []) [97] true s.readable).1 = .ok (Vector.replicate 16 2, .file) ∧
      (dirLookupVolume (Vector.replicate 16 1) (.classic []) [97] true s.readable.uncached).1 = .error .notFound := by
  decide +kernel

end Answers

end InfiltratorFS.Directory
