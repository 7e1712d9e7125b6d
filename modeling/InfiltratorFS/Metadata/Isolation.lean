import InfiltratorFS.Metadata.Streams
import InfiltratorFS.Library.Triple

namespace InfiltratorFS.Metadata

open Prog Directory

section States

variable (v : StreamVolume)

def At (t : Tree) (w : StreamVolume) : Prop := w = { v with live := t, tick := w.tick }

theorem At.refl : At v v.live v := rfl

theorem At.tick {v w : StreamVolume} {t : Tree} (h : At v t w) (tick : Nat) : At v t { w with tick := tick } := by
  unfold At at h ⊢
  rw [h]

theorem At.change {v w : StreamVolume} {t : Tree} (h : At v t w) (f : Tree → Tree) : At v (f t) { w with live := f w.live } := by
  unfold At at h ⊢
  rw [h]

theorem triple_request (t : Tree) :
    Triple (At v t) request (fun a w => (∃ n, a = v.env n ∧ a.status = .ok) ∧ At v t w)
      (fun _ w => (∃ n, (v.env n).status ≠ .ok) ∧ At v t w) := by
  intro w hw
  have henv : w.env = v.env := by rw [hw]
  have htick : At v t { w with tick := w.tick + 1 } := hw.tick _
  unfold request
  dsimp only
  split
  · refine ⟨fun a u h => ?_, fun e u h => nomatch h⟩
    cases h
    exact ⟨⟨w.tick, by rw [henv], ‹_›⟩, htick⟩
  · refine ⟨fun a u h => (nomatch h), fun e u h => ?_⟩
    cases h
    exact ⟨⟨w.tick, henv ▸ ‹_›⟩, htick⟩

theorem triple_call (t : Tree) :
    Triple (At v t) call (fun _ => At v t) (fun _ w => (∃ n, (v.env n).status ≠ .ok) ∧ At v t w) :=
  (triple_request v t).bind fun _ => .pure fun _ h => h.2

end States

section Frame

/-- Extensions are written once, and namespace objects by the calls on their own path. -/
def MetaObject.durable : MetaObject → Bool
  | .owner _ _ => true
  | .extension _ => true
  | _ => false

/-- What the calls on one owner leave alone. -/
structure Kept (owner : ObjectId) (t t' : Tree) : Prop where
  names : t'.names = t.names
  objects : ∀ id o, id ≠ owner → t.objects id = some o → o.durable = true → t'.objects id = some o

theorem Kept.refl (owner : ObjectId) (t : Tree) : Kept owner t t := ⟨rfl, fun _ _ _ h _ => h⟩

variable {owner : ObjectId}

theorem Kept.trans {t t' t'' : Tree} (h : Kept owner t t') (h' : Kept owner t' t'') : Kept owner t t'' where
  names := h'.names.trans h.names
  objects id o hid ho hdurable := h'.objects id o hid (h.objects id o hid ho hdurable) hdurable

def Loose (owner : ObjectId) (t : Tree) (id : ObjectId) : Prop := ∀ o, id ≠ owner → t.objects id = some o → o.durable = false

theorem loose_owner (owner : ObjectId) (t : Tree) : Loose owner t owner := fun _ h => absurd rfl h

variable {id : ObjectId} {α : Type}

theorem Kept.loose {t t' : Tree} (h : Kept owner t t')
    (hid : ∀ o, t'.objects id = some o → o.durable = false) : Loose owner t id := by
  intro o hne ho
  by_contra hdurable
  rw [Bool.not_eq_false] at hdurable
  have := hid o (h.objects id o hne ho hdurable)
  rw [hdurable] at this
  cases this

theorem Kept.update {t t' : Tree} (h : Kept owner t t') (hid : Loose owner t id) (o : Option MetaObject) :
    Kept owner t { t' with objects := Function.update t'.objects id o } where
  names := h.names
  objects id' o' hne ho hdurable := by
    have hother : id' ≠ id := by
      rintro rfl
      rw [hid o' hne ho] at hdurable
      cases hdurable
    exact (Function.update_of_ne hother ..).trans (h.objects id' o' hne ho hdurable)

/-- The state inside of a call: the tree has moved on, and nothing else has. -/
structure Within (owner : ObjectId) (v₀ v : StreamVolume) : Prop where
  same : v = { v₀ with live := v.live, tick := v.tick }
  kept : Kept owner v₀.live v.live

variable {owner : ObjectId} {v₀ : StreamVolume} {x : StreamM α} {Q : α → Prop}

/-- A program that is between two such states, whether it succeeds or not. -/
def Stays (owner : ObjectId) (v₀ : StreamVolume) {α : Type} (x : StreamM α) (Q : α → Prop) : Prop :=
  Triple (Within owner v₀) x (fun a v => Q a ∧ Within owner v₀ v) (fun _ v => Within owner v₀ v)

theorem Stays.pure {a : α} (h : Q a) : Stays owner v₀ (Pure.pure a) Q :=
  Triple.pure fun _ hv => ⟨h, hv⟩

theorem Stays.fail {e : Status} : Stays owner v₀ (fail e : StreamM α) Q :=
  Triple.fail fun _ hv => hv

section

variable (hx : Stays owner v₀ x Q)
include hx

theorem Stays.bind {β : Type} {f : α → StreamM β} {R : β → Prop}
    (hf : ∀ a, Q a → Stays owner v₀ (f a) R) : Stays owner v₀ (x >>= f) R :=
  Triple.bind hx fun a => .of_and (hf a)

theorem Stays.ite {c : Prop} [Decidable c] {y : StreamM α} (hy : Stays owner v₀ y Q) :
    Stays owner v₀ (if c then x else y) Q := Triple.branch hx hy

theorem Stays.forget : Stays owner v₀ x fun _ => True :=
  hx.post fun _ _ h => ⟨trivial, h.2⟩

end

theorem Stays.get_bind {β : Type} {f : StreamVolume → StreamM β} {R : β → Prop}
    (h : ∀ v, Within owner v₀ v → Stays owner v₀ (f v) R) : Stays owner v₀ (get >>= f) R := Triple.look h

theorem Stays.ofExcept {r : Except Status α} (h : ∀ a, r = .ok a → Q a) :
    Stays owner v₀ (ofExcept r) Q :=
  Triple.ofExcept (fun a _ hr hv => ⟨h a hr, hv⟩) (fun _ _ _ hv => hv)

theorem Stays.of_at
    (h : ∀ t, Triple (At v₀ t) x (fun a w => Q a ∧ At v₀ t w) (fun _ => At v₀ t)) : Stays owner v₀ x Q := by
  intro v hv
  have hback : ∀ w, At v₀ v.live w → Within owner v₀ w := by
    intro w hw
    have hlive : w.live = v.live := by rw [hw]
    refine ⟨?_, hlive ▸ hv.kept⟩
    rw [hlive]
    exact hw
  exact (h v.live).mono (fun _ h => h) (fun _ w hw => ⟨hw.1, hback w hw.2⟩) (fun _ w hw => hback w hw) v hv.same

theorem stays_request : Stays owner v₀ request fun _ => True :=
  .of_at fun t => (triple_request v₀ t).mono (fun _ h => h) (fun _ _ h => ⟨trivial, h.2⟩) fun _ _ h => h.2

theorem stays_call : Stays owner v₀ call fun _ => True := stays_request.bind fun _ _ => .pure trivial

theorem stays_look {β : Type} {f : StreamVolume → StreamM β} {R : β → Prop}
    (h : ∀ v, Within owner v₀ v → Stays owner v₀ (f v) R) : Stays owner v₀ (call >>= fun _ => get >>= f) R :=
  stays_call.bind fun _ _ => .get_bind h

section

variable (hid : Loose owner v₀.live id)
include hid

theorem stays_update (f : Tree → Tree) (o : Option MetaObject)
    (hf : ∀ t, f t = { t with objects := Function.update t.objects id o }) :
    Stays owner v₀ (modify fun v => { v with live := f v.live }) fun _ => True := by
  apply Triple.modify
  intro v hv
  refine ⟨trivial, ?_, ?_⟩
  · conv_lhs => rw [hv.same]
  · rw [hf]
    exact hv.kept.update hid o

theorem stays_put (o : MetaObject) : Stays owner v₀ (put id o) fun _ => True :=
  stays_call.bind fun _ _ => stays_update hid _ (some o) fun _ => rfl

theorem stays_indexRemove : Stays owner v₀ (indexRemove id) fun _ => True :=
  stays_call.bind fun _ _ => stays_update hid _ none fun _ => rfl

end

theorem stays_generateUniqueObjectId (attempts : Nat) :
    Stays owner v₀ (generateUniqueObjectId attempts) (Loose owner v₀.live) := by
  induction attempts with
  | zero => exact .fail
  | succ attempts ih =>
    apply stays_request.bind
    intro answer _
    apply Stays.ite
    · exact ih
    · apply stays_look
      intro v hv
      split
      · exact ih
      · rename_i hfree
        refine .pure (hv.kept.loose fun o ho => ?_)
        rw [ho] at hfree
        exact absurd rfl hfree

theorem stays_createObject (o : MetaObject) : Stays owner v₀ (createObject o) (Loose owner v₀.live) :=
  (stays_generateUniqueObjectId 32).bind fun _ hid => (stays_put hid o).bind fun _ _ => .pure hid

end Frame

section Steps

variable {owner : ObjectId} {v₀ : StreamVolume}

theorem stays_metadataSetStore {existing : Option ObjectId} (h : ∀ id, existing = some id → Loose owner v₀.live id)
    (set : MetadataSet) : Stays owner v₀ (metadataSetStore existing set) fun _ => True := by
  apply Stays.get_bind
  intro v _
  apply Stays.ite
  · exact .fail
  · cases existing with
    | none => exact (stays_createObject _).forget
    | some id => exact (stays_put (h id rfl) _).bind fun _ _ => .pure trivial

variable {attributes : Attributes} {id : ObjectId} {type : ObjectType} {set : Option MetadataSet} {v : StreamVolume}

theorem Within.loose_set (hv : Within owner v₀ v) {set : MetadataSet}
    (h : v.live.objects id = some (.metadataSet set)) : Loose owner v₀.live id := by
  apply hv.kept.loose
  intro o ho
  rw [h] at ho
  cases ho
  rfl

theorem stays_replaceReference (reference extensionId : ObjectId) :
    Stays owner v₀ (metadataReferenceReplaceTypedExtension reference extensionId) fun _ => True := by
  apply stays_look
  intro v hv
  apply Stays.ite
  · exact .pure trivial
  · split
    · exact .fail
    · exact .pure trivial
    · rename_i _ hset
      have hloose := hv.loose_set hset
      apply (Stays.ofExcept fun _ _ => trivial).bind
      intro set _
      apply Stays.ite
      · exact (stays_indexRemove hloose).bind fun _ _ => .pure trivial
      · exact stays_metadataSetStore (fun id hid => by cases hid; exact hloose) _
    · exact .fail

theorem stays_namedStreamCreateObject (flags : UInt64) (data : List UInt8) :
    Stays owner v₀ (namedStreamCreateObject flags data) fun _ => True := by
  apply (stays_createObject _).bind
  intro id hid
  apply Stays.ite
  · exact (stays_put hid _).bind fun _ _ => .pure trivial
  · exact .pure trivial

theorem stays_namedStreamDestroyObject (id : ObjectId) : Stays owner v₀ (namedStreamDestroyObject id) fun _ => True := by
  apply stays_look
  intro v hv
  split
  · rename_i hstream
    apply stays_indexRemove
    apply hv.kept.loose
    intro o ho
    rw [hstream] at ho
    cases ho
    rfl
  · exact .fail

theorem stays_metadataSetReplaceStream
    (hset : ∀ s, set = some s → Loose owner v₀.live attributes.extendedAttributes) (name : Name) (replacement : Option ObjectId) :
    Stays owner v₀ (metadataSetReplaceStream owner type attributes set name replacement) fun _ => True := by
  have hown : Stays owner v₀ (ownTypedExtension attributes.extendedAttributes set) fun _ => True := by
    cases set with
    | some s => exact .pure trivial
    | none =>
      apply Stays.ite
      · exact .pure trivial
      · apply stays_look
        intro v _
        split
        · exact .fail
        · exact .pure trivial
        · exact .fail
  have hstore : ∀ typedExtension entries,
      Stays owner v₀ (storeEntries attributes.extendedAttributes typedExtension entries set) fun _ => True := by
    intro typedExtension entries
    cases set with
    | some s =>
      apply Stays.ite
      · exact (stays_indexRemove (hset s rfl)).bind fun _ _ => .pure trivial
      · exact stays_metadataSetStore (fun id hid => by cases hid; exact hset s rfl) _
    | none =>
      apply Stays.ite
      · exact .pure trivial
      · exact stays_metadataSetStore (fun _ hid => by cases hid) _
  apply hown.bind
  intro typedExtension _
  apply (Stays.ofExcept fun _ _ => trivial).bind
  intro result _
  apply (hstore typedExtension result.entries).bind
  intro reference _
  exact (stays_put (loose_owner owner _) _).bind fun _ _ => .pure trivial

theorem ownerAttributes_eq_ok {path : Path}
    (h : ownerAttributes v path = .ok (id, type, attributes)) :
    v.live.names path = some id ∧ v.live.objects id = some (.owner type attributes) := by
  obtain ⟨found, hname, h⟩ := except_bind_eq_ok.mp h
  unfold lookupPath at hname
  split at hname
  · cases hname
  · cases hname
    split at h
    · cases h
    · cases h
      exact ⟨‹_›, ‹_›⟩
    · cases h

theorem referenceMetadata_eq_some {reference : ObjectId} {set : MetadataSet}
    (h : referenceMetadata v reference = .ok (some set)) : ∃ s, v.live.objects reference = some (.metadataSet s) := by
  unfold referenceMetadata at h
  split at h
  · cases h
  · split at h
    · cases h
    · obtain ⟨_, _, h⟩ := except_bind_eq_ok.mp h
      cases h
    · exact ⟨_, ‹_›⟩
    · cases h

theorem namedStreamOwnerMetadata_eq_ok {path : Path}
    (h : namedStreamOwnerMetadata v path = .ok (id, type, attributes, set)) :
    ownerAttributes v path = .ok (id, type, attributes) ∧ referenceMetadata v attributes.extendedAttributes = .ok set := by
  obtain ⟨⟨_, _, _⟩, howner, h⟩ := except_bind_eq_ok.mp h
  obtain ⟨_, hreference, h⟩ := except_bind_eq_ok.mp h
  cases h
  exact ⟨howner, hreference⟩

variable {path : Path} (hpath : v₀.live.names path = some owner)

include hpath

theorem Within.owner_eq (hv : Within owner v₀ v)
    (h : ownerAttributes v path = .ok (id, type, attributes)) : id = owner := by
  have hname := (ownerAttributes_eq_ok h).1
  rw [hv.kept.names, hpath] at hname
  cases hname
  rfl

theorem Within.metadata (hv : Within owner v₀ v)
    (h : namedStreamOwnerMetadata v path = .ok (id, type, attributes, set)) :
    id = owner ∧ ∀ s, set = some s → Loose owner v₀.live attributes.extendedAttributes := by
  obtain ⟨howner, hreference⟩ := namedStreamOwnerMetadata_eq_ok h
  refine ⟨hv.owner_eq hpath howner, fun s hs => ?_⟩
  subst hs
  obtain ⟨s', hs'⟩ := referenceMetadata_eq_some hreference
  exact hv.loose_set hs'

theorem stays_namedStreamSetTx (name : Name) (data : List UInt8) :
    Stays owner v₀ (namedStreamSetTx path name data) fun _ => True := by
  apply stays_look
  intro v hv
  apply (Stays.ofExcept fun r hr => hr).bind
  rintro ⟨id, type, attributes, set⟩ hmetadata
  obtain ⟨rfl, hloose⟩ := hv.metadata hpath hmetadata
  apply (stays_namedStreamCreateObject _ _).bind
  intro stream _
  apply (stays_metadataSetReplaceStream hloose _ _).bind
  intro replaced _
  apply Stays.ite
  · exact (stays_namedStreamDestroyObject _).bind fun _ _ => .pure trivial
  · exact .pure trivial

theorem stays_namedStreamDeleteTx (name : Name) : Stays owner v₀ (namedStreamDeleteTx path name) fun _ => True := by
  apply stays_look
  intro v hv
  apply (Stays.ofExcept fun r hr => hr).bind
  rintro ⟨id, type, attributes, set⟩ hmetadata
  obtain ⟨rfl, hloose⟩ := hv.metadata hpath hmetadata
  apply Stays.ite
  · exact .fail
  · apply (stays_metadataSetReplaceStream hloose _ _).bind
    intro removed _
    apply Stays.ite
    · exact .fail
    · exact (stays_namedStreamDestroyObject _).bind fun _ _ => .pure trivial

omit hpath in
theorem stays_replaceTypedExtension (type : ObjectType) (attributes : Attributes) (extensionId : ObjectId) :
    Stays owner v₀ (replaceTypedExtension owner type attributes extensionId) fun _ => True :=
  (stays_replaceReference _ _).bind fun _ _ => (stays_put (loose_owner owner _) _).bind fun _ _ => .pure trivial

theorem stays_setTypedExtensionTx (extension : Option TypedExtension) :
    Stays owner v₀ (setTypedExtensionTx path extension) fun _ => True := by
  apply stays_look
  intro v hv
  apply Stays.ite
  · exact .fail
  · apply (Stays.ofExcept fun r hr => hr).bind
    rintro ⟨id, type, attributes⟩ howner
    obtain rfl := hv.owner_eq hpath howner
    cases extension with
    | some value => exact (stays_createObject _).forget.bind fun _ _ => stays_replaceTypedExtension _ _ _
    | none =>
      dsimp only
      split
      · exact stays_replaceTypedExtension _ _ _
      · exact .pure trivial
      · exact .fail

end Steps

section Scope

/-- The volume inside of the scope of a mutation: both ways back lead to the
tree from which the mutation began. -/
def opened (v : StreamVolume) : StreamVolume :=
  { v with base := if v.txActive then v.base else v.live, txActive := true, operation := v.live, operationActive := true }

variable {v : StreamVolume}

/-- Why a mutation can fail apart from its body and the publication. -/
def Trouble (v : StreamVolume) : Prop := v.writable = false ∨ v.reopenRequiredStatus ≠ .ok ∨ ∃ n, (v.env n).status ≠ .ok

theorem triple_mutationScopeBegin (hv : v.operationActive = false) :
    Triple (· = v) mutationScopeBegin
      (fun started w => (started = !v.txActive ∧ v.writable = true ∧ v.reopenRequiredStatus = .ok) ∧ At (opened v) v.live w)
      (fun _ w => Trouble v ∧ At v v.live w) := by
  have hbegin : Triple (· = v) txBegin
      (fun _ w => (v.writable = true ∧ v.reopenRequiredStatus = .ok) ∧
        At { v with base := if v.txActive then v.base else v.live, txActive := true } v.live w)
      (fun _ w => Trouble v ∧ At v v.live w) := by
    apply Triple.get_bind
    rintro v rfl
    apply Triple.ite
    · intro hreopen
      exact .fail fun w hw => ⟨.inr (.inl hreopen), hw ▸ .refl v⟩
    · intro hreopen
      apply Triple.ite
      · intro hwritable
        exact .fail fun w hw => ⟨.inl (by simpa using hwritable), hw ▸ .refl v⟩
      · intro hwritable
        have hcall : Triple (At v v.live) call _ (fun _ w => Trouble v ∧ At v v.live w) :=
          (triple_call v v.live).error fun _ _ h => h.imp_left fun h => .inr (.inr h)
        refine .bind (hcall.pre fun w hw => hw ▸ .refl v) ?_
        intro _
        apply Triple.modify
        intro w hw
        refine ⟨⟨by simpa using hwritable, not_not.mp hreopen⟩, ?_⟩
        unfold At at hw ⊢
        rw [hw]
        rcases hactive : v.txActive <;> simp
  apply Triple.get_bind
  rintro v rfl
  apply hbegin.bind_and
  intro _ hopen
  rw [hv]
  apply Triple.bind (Q := fun _ w => At (opened v) v.live w)
  · apply Triple.modify
    intro w hw
    unfold At opened
    rw [hw]
  · intro _
    exact .pure fun w hw => ⟨⟨rfl, hopen⟩, hw⟩

structure Idle (v : StreamVolume) : Prop where
  closed : v.operationActive = false
  steady : ∀ n, (v.publication n).status = .ok

/-- What no call changes of the volume. -/
structure Settled (v w : StreamVolume) : Prop where
  typedExtensions : w.typedExtensions = v.typedExtensions
  namedStreams : w.namedStreams = v.namedStreams
  utf8 : w.utf8 = v.utf8
  operationActive : w.operationActive = v.operationActive
  writable : w.writable = v.writable
  reopenRequiredStatus : w.reopenRequiredStatus = v.reopenRequiredStatus
  publication : w.publication = v.publication

theorem publicationStep_apply (v : StreamVolume) :
    publicationStep v = (.ok (v.publication v.published), { v with published := v.published + 1 }) := rfl

theorem triple_publish (v : StreamVolume) (t : Tree) :
    Triple (At v t) publish (fun _ w => ∃ published, At { v with txActive := false, published := published } t w)
      (fun _ _ => ¬∀ n, (v.publication n).status = .ok) := by
  intro w hw
  have hpublication : w.publication = v.publication := by rw [hw]
  unfold publish
  rw [bind_of_ok (publicationStep_apply w)]
  by_cases hfirst : (w.publication w.published).status = .ok
  · rw [if_neg (not_not.mpr hfirst), bind_of_ok (publicationStep_apply _)]
    dsimp only
    by_cases hsecond : (w.publication (w.published + 1)).status = .ok
    · simp only [hsecond, true_or, if_true, ne_eq, not_true_eq_false, if_false]
      refine ⟨fun a u h => ?_, fun e u h => nomatch h⟩
      cases h
      refine ⟨w.published + 2, ?_⟩
      unfold At at hw ⊢
      rw [hw]
    · simp only [hsecond, false_or, ne_eq, not_false_eq_true, if_true]
      refine ⟨fun a u h => ?_, fun e u _ hsteady => hsecond (hpublication ▸ hsteady _)⟩
      split at h <;> cases h
  · rw [if_pos hfirst]
    exact ⟨fun a u h => (nomatch h), fun e u _ hsteady => hfirst (hpublication ▸ hsteady _)⟩

theorem triple_finishMutation {t : Tree} (hactive : v.txActive = true) :
    Triple (At v t) finishMutation
      (fun _ w => ∃ txActive published, At { v with txActive := txActive, published := published } t w)
      (fun _ w => (∀ n, (v.publication n).status = .ok) → Trouble v ∧ At v t w) := by
  apply Triple.get_bind
  intro u hu
  have hu' : u.txActive = true := by rw [hu]; exact hactive
  have hrequest : Triple (At v t) request _ (fun _ w => (∀ n, (v.publication n).status = .ok) → Trouble v ∧ At v t w) :=
    (triple_request v t).error fun _ _ h _ => h.imp_left fun h => .inr (.inr h)
  refine .bind_and (hrequest.pre fun w hw => hw ▸ hu) ?_
  intro answer _
  rw [hu']
  apply Triple.ite
  · intro hfalse
    cases hfalse
  · intro _
    apply Triple.branch
    · exact (triple_publish v t).mono (fun _ h => h) (fun _ _ ⟨published, h⟩ => ⟨false, published, h⟩) fun _ _ h hsteady =>
        absurd hsteady h
    · exact .pure fun w hw => ⟨v.txActive, v.published, hw⟩

theorem triple_mutationScopeFail (v : StreamVolume) {E : Status → StreamVolume → Prop} (hv : v.operationActive = false) :
    Triple (fun w => At (opened v) w.live w) (mutationScopeFail (!v.txActive)) (fun _ w => w.live = v.live ∧ Settled v w) E := by
  apply Triple.bind (Q := fun _ w => ∃ tick, w = { opened v with operationActive := false, tick := tick })
  · apply Triple.modify
    intro w hw
    have hactive : w.operationActive = true := by rw [hw]; rfl
    have hoperation : w.operation = v.live := by rw [hw]; rfl
    rw [if_pos hactive, hoperation]
    exact ⟨w.tick, by rw [hw]; rfl⟩
  · intro _
    rcases hstarted : v.txActive
    · apply Triple.modify
      rintro w ⟨tick, rfl⟩
      have hbase : (opened v).base = v.live := by simp [opened, hstarted]
      rw [if_pos (by rfl)]
      exact ⟨hbase, rfl, rfl, rfl, hv.symm, rfl, rfl, rfl⟩
    · apply Triple.pure
      rintro w ⟨tick, rfl⟩
      exact ⟨rfl, rfl, rfl, rfl, hv.symm, rfl, rfl, rfl⟩

theorem At.settled {w : StreamVolume} {t : Tree} (h : At v t w) : Settled v w := by
  rw [h]
  exact ⟨rfl, rfl, rfl, rfl, rfl, rfl, rfl⟩

/-- S is what the caller knows of the publication, and F what a failed body
means. -/
theorem triple_mutation (hv : v.operationActive = false) {S F : Prop} (hsteady : S → ∀ n, (v.publication n).status = .ok)
    {body : StreamM Bool} {Q : Tree → Prop}
    (hbody : Triple (At (opened v) v.live) body (fun _ w => Q w.live ∧ At (opened v) w.live w)
      (fun _ w => S → F ∧ At (opened v) w.live w)) :
    Triple (· = v) (mutation body)
      (fun _ w => (v.writable = true ∧ v.reopenRequiredStatus = .ok) ∧ Q w.live ∧ Settled v w)
      (fun _ w => S → (F ∨ Trouble v) ∧ w.live = v.live ∧ Settled v w) := by
  have hstage : Triple (At (opened v) v.live) (do if ← body then finishMutation)
      (fun _ w => Q w.live ∧ ∃ txActive published, At { opened v with txActive := txActive, published := published } w.live w)
      (fun _ w => S → (F ∨ Trouble v) ∧ At (opened v) w.live w) := by
    apply (hbody.error fun _ _ h hS => (h hS).imp_left .inl).bind
    intro staged
    apply Triple.at_state
    rintro u ⟨hQ, hu⟩
    have hback : ∀ {p : StreamVolume} {w : StreamVolume}, At p u.live w → w.live = u.live ∧ At p w.live w := by
      intro p w hw
      have hlive : w.live = u.live := by rw [hw]
      exact ⟨hlive, hlive ▸ hw⟩
    apply Triple.branch
    · have hfinish : Triple (At (opened v) u.live) finishMutation _ _ := triple_finishMutation rfl
      apply hfinish.mono
      · rintro _ rfl
        exact hu
      · rintro _ w ⟨txActive, published, hw⟩
        obtain ⟨hlive, hw⟩ := hback hw
        exact ⟨hlive ▸ hQ, txActive, published, hw⟩
      · intro _ w hw hS
        obtain ⟨htrouble, hw⟩ := hw (hsteady hS)
        exact ⟨.inr htrouble, (hback hw).2⟩
    · apply Triple.pure
      rintro u rfl
      exact ⟨hQ, true, (opened v).published, hu⟩
  apply ((triple_mutationScopeBegin hv).error fun _ w hw _ => ⟨.inr hw.1, by rw [hw.2], hw.2.settled⟩).bind_and
  rintro started ⟨rfl, hopen⟩
  apply hstage.attempt_bind
  · intro _
    apply Triple.modify
    rintro w ⟨hQ, txActive, published, hw⟩
    refine ⟨hopen, hQ, ?_⟩
    rw [hw]
    exact ⟨rfl, rfl, rfl, hv.symm, rfl, rfl, rfl⟩
  · intro e w hw
    by_cases hS : S
    · obtain ⟨hreason, hat⟩ := hw hS
      exact ((triple_mutationScopeFail v hv).bind fun _ => .fail fun _ h _ => ⟨hreason, h⟩) w hat
    · refine ⟨fun a u h => ?_, fun _ _ _ hS' => absurd hS' hS⟩
      obtain ⟨_, _, _, h⟩ := bind_eq_ok.mp h
      cases h

end Scope

section Runs

/-- What a call on one owner leaves of the volume. -/
structure Later (owner : ObjectId) (v w : StreamVolume) : Prop where
  kept : Kept owner v.live w.live
  settled : Settled v w

theorem Settled.refl (v : StreamVolume) : Settled v v := ⟨rfl, rfl, rfl, rfl, rfl, rfl, rfl⟩

theorem Settled.trans {u v w : StreamVolume} (h : Settled u v) (h' : Settled v w) : Settled u w :=
  ⟨h'.typedExtensions.trans h.typedExtensions, h'.namedStreams.trans h.namedStreams, h'.utf8.trans h.utf8,
    h'.operationActive.trans h.operationActive, h'.writable.trans h.writable,
    h'.reopenRequiredStatus.trans h.reopenRequiredStatus, h'.publication.trans h.publication⟩

theorem Idle.settled {v w : StreamVolume} (hv : Idle v) (h : Settled v w) : Idle w :=
  ⟨h.operationActive.trans hv.closed, fun n => h.publication ▸ hv.steady n⟩

variable {owner : ObjectId} {v : StreamVolume} {path : Path}

theorem later_mutation (hv : Idle v) {body : StreamM Bool}
    (hbody : ∀ v₀, v₀.live = v.live → Stays owner v₀ body fun _ => True) : Later owner v (mutation body v).2 := by
  have hstays := hbody (opened v) rfl
  have htriple : Triple (At (opened v) v.live) body (fun _ w => Kept owner v.live w.live ∧ At (opened v) w.live w)
      (fun _ w => True → True ∧ At (opened v) w.live w) := by
    apply hstays.mono
    · intro w hw
      have hlive : w.live = v.live := by rw [hw]
      exact ⟨hlive ▸ hw, by rw [hlive]; exact .refl owner _⟩
    · rintro _ w ⟨_, hw⟩
      exact ⟨hw.kept, hw.same⟩
    · exact fun _ w hw _ => ⟨trivial, hw.same⟩
  obtain ⟨hok, herror⟩ := triple_mutation hv.closed (fun _ => hv.steady) htriple v rfl
  rcases hrun : mutation body v with ⟨e | a, w⟩
  · obtain ⟨-, hlive, hsettled⟩ := herror e w hrun trivial
    exact ⟨by rw [hlive]; exact .refl owner _, hsettled⟩
  · obtain ⟨_, hkept, hsettled⟩ := hok a w hrun
    exact ⟨hkept, hsettled⟩

theorem later_refl (v : StreamVolume) : Later owner v v := ⟨.refl owner _, .refl v⟩

theorem later_streamCall (hv : Idle v) {name : Name} {body : StreamM Bool}
    (hbody : ∀ v₀, v₀.live = v.live → Stays owner v₀ body fun _ => True) :
    Later owner v (streamCall path name body v).2 := by
  unfold streamCall
  rw [bind_of_ok (get_apply v)]
  split
  · exact later_refl v
  · split
    · exact later_refl v
    · split
      · exact later_refl v
      · exact later_mutation hv hbody

theorem later_run (hv : Idle v) (hpath : v.live.names path = some owner) (c : StreamCall) (hc : c.path = path) :
    Later owner v (c.run v).2 := by
  subst hc
  cases c with
  | set path name data =>
    exact later_streamCall hv fun v₀ h₀ => stays_namedStreamSetTx (h₀ ▸ hpath) name data
  | delete path name =>
    exact later_streamCall hv fun v₀ h₀ => stays_namedStreamDeleteTx (h₀ ▸ hpath) name
  | setTypedExtension path extension =>
    have hrun : (StreamCall.setTypedExtension path extension).run =
        if !absolute path || !typedExtensionInputValid extension then fail .invalidArgument
        else mutation (setTypedExtensionTx path extension) := rfl
    rw [hrun]
    split
    · exact later_refl v
    · exact later_mutation hv fun v₀ h₀ => stays_setTypedExtensionTx (h₀ ▸ hpath) extension

theorem later_runCalls (hv : Idle v) (hpath : v.live.names path = some owner) (calls : List StreamCall)
    (hcalls : ∀ c ∈ calls, c.path = path) : Later owner v (runCalls calls v) := by
  induction calls generalizing v with
  | nil => exact later_refl v
  | cons c calls ih =>
    have hstep := later_run hv hpath c (hcalls c List.mem_cons_self)
    have hrest := ih (hv.settled hstep.settled) (hstep.kept.names ▸ hpath) fun c' hc' => hcalls c' (List.mem_cons_of_mem c hc')
    exact ⟨hstep.kept.trans hrest.kept, hstep.settled.trans hrest.settled⟩

end Runs

section Views

/-- One path shows the same metadata as before, and its reference still resolves. -/
structure SameMetadata (v w : StreamVolume) (path : Path) : Prop where
  list : namedStreamList w path = namedStreamList v path
  read : ∀ name size offset, namedStreamRead w path name size offset = namedStreamRead v path name size offset
  extension : getTypedExtension w path = getTypedExtension v path
  reference : validateMetadataReference w path = .ok ()

def HasMetadataSet (v : StreamVolume) (path : Path) : Prop :=
  ∃ id type attributes set, v.live.names path = some id ∧ v.live.objects id = some (.owner type attributes) ∧
    idIsZero attributes.extendedAttributes = false ∧
    v.live.objects attributes.extendedAttributes = some (.metadataSet set)

/-- The reference of a path is zero, or it leads to an extension of this value. -/
structure Plain (v : StreamVolume) (path : Path) (id : ObjectId) (type : ObjectType) (attributes : Attributes)
    (value : Option TypedExtension) : Prop where
  name : v.live.names path = some id
  object : v.live.objects id = some (.owner type attributes)
  zero : value = none → idIsZero attributes.extendedAttributes = true
  extension : ∀ e, value = some e → idIsZero attributes.extendedAttributes = false ∧ v.typedExtensions = true ∧
    v.live.objects attributes.extendedAttributes = some (.extension e)

section

variable {v : StreamVolume} {path : Path} {id : ObjectId} {type : ObjectType} {attributes : Attributes}

theorem ownerAttributes_eq (hname : v.live.names path = some id) (hobject : v.live.objects id = some (.owner type attributes)) :
    ownerAttributes v path = .ok (id, type, attributes) := by
  simp only [ownerAttributes, lookupPath, hname, Bind.bind, Except.bind, hobject]

variable {value : Option TypedExtension} (h : Plain v path id type attributes value)

include h

theorem Plain.metadata : namedStreamOwnerMetadata v path = .ok (id, type, attributes, none) := by
  have hreference : referenceMetadata v attributes.extendedAttributes = .ok none := by
    cases value with
    | none => rw [referenceMetadata, if_pos (h.zero rfl)]
    | some e =>
      obtain ⟨hzero, henabled, hobject⟩ := h.extension e rfl
      simp [referenceMetadata, typedExtensionValidateReference, hzero, henabled, hobject, Bind.bind, Except.bind, pure,
        Except.pure]
  simp only [namedStreamOwnerMetadata, ownerAttributes_eq h.name h.object, Bind.bind, Except.bind, hreference, pure,
    Except.pure]

theorem Plain.list : namedStreamList v path = if v.namedStreams then .ok [] else .error .notSupported := by
  cases hstreams : v.namedStreams <;> simp [namedStreamList, hstreams, h.metadata, Bind.bind, Except.bind]

theorem Plain.read (name : Name) (size offset : Nat) :
    namedStreamRead v path name size offset =
      if !namedStreamNameValid v name then .error .invalidArgument
      else .error (if v.namedStreams then .notFound else .notSupported) := by
  cases hstreams : v.namedStreams <;> simp [namedStreamRead, hstreams, h.metadata, Bind.bind, Except.bind]

theorem Plain.typedExtension :
    getTypedExtension v path = value.elim (.error .notFound) .ok := by
  cases value with
  | none =>
    simp [getTypedExtension, ownerAttributes_eq h.name h.object, metadataReferenceTypedExtension, h.zero rfl, Bind.bind,
      Except.bind]
  | some e =>
    obtain ⟨hzero, henabled, hobject⟩ := h.extension e rfl
    simp [getTypedExtension, ownerAttributes_eq h.name h.object, metadataReferenceTypedExtension,
      typedExtensionValidateReference, hzero, henabled, hobject, Bind.bind, Except.bind, pure, Except.pure]

theorem Plain.valid : validateMetadataReference v path = .ok () := by
  cases value with
  | none => simp [validateMetadataReference, ownerAttributes_eq h.name h.object, h.zero rfl, Bind.bind, Except.bind, pure,
      Except.pure]
  | some e =>
    obtain ⟨hzero, henabled, hobject⟩ := h.extension e rfl
    simp [validateMetadataReference, ownerAttributes_eq h.name h.object, typedExtensionValidateReference, hzero, henabled,
      hobject, Bind.bind, Except.bind, pure, Except.pure]

theorem Plain.later {w : StreamVolume} {owner : ObjectId} {type' : ObjectType} {attributes' : Attributes}
    (hother : v.live.objects owner = some (.owner type' attributes')) (hne : id ≠ owner) (hlater : Later owner v w) :
    Plain w path id type attributes value where
  name := by rw [hlater.kept.names]; exact h.name
  object := hlater.kept.objects id _ hne h.object rfl
  zero := h.zero
  extension e he := by
    obtain ⟨hzero, henabled, hobject⟩ := h.extension e he
    refine ⟨hzero, hlater.settled.typedExtensions.trans henabled, hlater.kept.objects _ _ ?_ hobject rfl⟩
    intro heq
    rw [heq, hother] at hobject
    cases hobject

theorem Plain.same {w : StreamVolume} (hw : Plain w path id type attributes value) (hstreams : w.namedStreams = v.namedStreams)
    (hutf8 : w.utf8 = v.utf8) : SameMetadata v w path where
  list := by rw [hw.list, h.list, hstreams]
  read name size offset := by
    have hname : namedStreamNameValid w name = namedStreamNameValid v name := by
      unfold namedStreamNameValid
      rw [hutf8]
    rw [hw.read, h.read, hstreams, hname]
  extension := by rw [hw.typedExtension, h.typedExtension]
  reference := hw.valid

end

theorem plain_of_valid {v : StreamVolume} {path : Path} (hvalid : validateMetadataReference v path = .ok ())
    (hset : ¬HasMetadataSet v path) : ∃ id type attributes value, Plain v path id type attributes value := by
  unfold validateMetadataReference at hvalid
  rcases howner : ownerAttributes v path with e | ⟨id, type, attributes⟩
  · rw [howner] at hvalid
    cases hvalid
  · obtain ⟨hname, hobject⟩ := ownerAttributes_eq_ok howner
    rw [howner] at hvalid
    rcases hzero : idIsZero attributes.extendedAttributes
    · rcases hreference : v.live.objects attributes.extendedAttributes with _ | object
      · simp [hzero, hreference, Bind.bind, Except.bind] at hvalid
      · cases object with
        | extension value =>
          refine ⟨id, type, attributes, some value, hname, hobject, fun h => (nomatch h), fun e he => ?_⟩
          cases he
          refine ⟨hzero, ?_, hreference⟩
          by_contra hdisabled
          rw [Bool.not_eq_true] at hdisabled
          simp [hzero, hreference, typedExtensionValidateReference, hdisabled, Bind.bind, Except.bind] at hvalid
        | metadataSet set => exact absurd ⟨id, type, attributes, set, hname, hobject, hzero, hreference⟩ hset
        | _ => simp [hzero, hreference, Bind.bind, Except.bind] at hvalid
    · exact ⟨id, type, attributes, none, hname, hobject, fun _ => hzero, fun e he => nomatch he⟩

end Views

end InfiltratorFS.Metadata
