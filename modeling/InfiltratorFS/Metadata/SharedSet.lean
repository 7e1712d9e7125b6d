import InfiltratorFS.Metadata.Isolation

namespace InfiltratorFS.Metadata

open Prog Directory Function

section Sets

variable {v w : StreamVolume} {reference id : ObjectId} {set : MetadataSet} {rest : List StreamEntry} {name : Name}

structure ValidSet (v : StreamVolume) (reference : ObjectId) (set : MetadataSet) : Prop where
  nonzero : idIsZero reference = false
  enabled : v.namedStreams = true
  object : v.live.objects reference = some (.metadataSet set)
  shape : metadataSetPayloadShapeValid v set.entries = true
  extension : idIsZero set.typedExtension = true ∨
    (v.typedExtensions = true ∧ ∃ e, v.live.objects set.typedExtension = some (.extension e))
  streams : ∀ e ∈ set.entries, ∃ flags data, v.live.objects e.streamId = some (.namedStream flags data)
  distinct : (set.entries.map StreamEntry.streamId).Nodup

theorem validateStreams_eq_ok {prior : List ObjectId} {entries : List StreamEntry} :
    validateStreams v prior entries = .ok () ↔
      (∀ e ∈ entries, ∃ flags data, v.live.objects e.streamId = some (.namedStream flags data)) ∧
        (∀ e ∈ entries, e.streamId ∉ prior) ∧ (entries.map StreamEntry.streamId).Nodup := by
  fun_induction validateStreams v prior entries with
  | case1 => simp
  | case2 prior e rest flags data hstream hprior => simp [hprior]
  | case3 prior e rest flags data hstream hprior ih =>
    rw [ih, List.forall_mem_cons, List.forall_mem_cons]
    simp only [List.map_cons, List.nodup_cons, List.mem_cons, not_or, List.mem_map, not_exists, not_and]
    constructor
    · rintro ⟨hstreams, hnot, hnodup⟩
      exact ⟨⟨⟨flags, data, hstream⟩, hstreams⟩, ⟨hprior, fun x hx => (hnot x hx).2⟩, fun x hx => (hnot x hx).1, hnodup⟩
    · rintro ⟨⟨_, hstreams⟩, ⟨_, hnot⟩, hdistinct, hnodup⟩
      exact ⟨hstreams, fun x hx => ⟨hdistinct x hx, hnot x hx⟩, hnodup⟩
  | case4 prior e rest hother =>
    refine iff_of_false (by simp) fun ⟨hstreams, _⟩ => ?_
    obtain ⟨flags, data, hstream⟩ := hstreams e List.mem_cons_self
    exact hother flags data hstream

theorem metadataSetLoad_eq_ok :
    metadataSetLoad v reference = .ok set ↔
      idIsZero reference = false ∧ v.namedStreams = true ∧ v.live.objects reference = some (.metadataSet set) ∧
        metadataSetPayloadShapeValid v set.entries = true := by
  unfold metadataSetLoad
  rw [except_guard_eq_ok, except_guard_eq_ok]
  refine and_congr (by simp) (and_congr (by simp) ?_)
  split
  · rename_i found hfound
    rw [hfound]
    constructor
    · intro h
      split at h
      · cases h
        exact ⟨rfl, ‹_›⟩
      · cases h
    · rintro ⟨heq, hshape⟩
      cases heq
      rw [if_pos hshape]
  · rename_i hother
    exact iff_of_false (by simp) fun h => hother set h.1

theorem typedExtensionValidateReference_eq_ok {e : TypedExtension} :
    typedExtensionValidateReference v id = .ok e ↔
      idIsZero id = false ∧ v.typedExtensions = true ∧ v.live.objects id = some (.extension e) := by
  unfold typedExtensionValidateReference
  rw [except_guard_eq_ok, except_guard_eq_ok]
  refine and_congr (by simp) (and_congr (by simp) ?_)
  split
  · rename_i value hvalue
    simp [hvalue]
  · rename_i hother
    exact iff_of_false (by simp) (hother e)

theorem validateSetExtension_eq_ok :
    validateSetExtension v set = .ok () ↔ idIsZero set.typedExtension = true ∨
      (v.typedExtensions = true ∧ ∃ e, v.live.objects set.typedExtension = some (.extension e)) := by
  unfold validateSetExtension
  split
  · rename_i hzero
    simp [hzero]
  · rename_i hzero
    simp [except_bind_eq_ok, typedExtensionValidateReference_eq_ok, hzero, pure, Except.pure]

theorem validSet_iff : metadataSetValidateReference v reference = .ok set ↔ ValidSet v reference set := by
  have hbind : metadataSetValidateReference v reference = .ok set ↔ metadataSetLoad v reference = .ok set ∧
      validateSetExtension v set = .ok () ∧ validateStreams v [] set.entries = .ok () := by
    simp only [metadataSetValidateReference, except_bind_eq_ok, pure, Except.pure, Except.ok.injEq]
    constructor
    · rintro ⟨found, hload, _, hextension, _, hstreams, rfl⟩
      exact ⟨hload, hextension, hstreams⟩
    · rintro ⟨hload, hextension, hstreams⟩
      exact ⟨set, hload, (), hextension, (), hstreams, rfl⟩
  rw [hbind, metadataSetLoad_eq_ok, validateSetExtension_eq_ok, validateStreams_eq_ok]
  constructor
  · rintro ⟨⟨hnonzero, henabled, hobject, hshape⟩, hextension, hstreams, _, hdistinct⟩
    exact ⟨hnonzero, henabled, hobject, hshape, hextension, hstreams, hdistinct⟩
  · intro h
    exact ⟨⟨h.nonzero, h.enabled, h.object, h.shape⟩, h.extension, h.streams, fun _ _ => List.not_mem_nil, h.distinct⟩

theorem shapeValid_congr (h : w.utf8 = v.utf8) (entries : List StreamEntry) :
    metadataSetPayloadShapeValid w entries = metadataSetPayloadShapeValid v entries := by
  have hentry : streamEntryValid w = streamEntryValid v := by
    funext e
    unfold streamEntryValid namedStreamNameValid
    rw [h]
  unfold metadataSetPayloadShapeValid
  rw [hentry]

theorem ValidSet.mono (h : ValidSet v reference set) (hobjects : ∀ id o, v.live.objects id = some o → w.live.objects id = some o)
    (hstreams : w.namedStreams = v.namedStreams) (hextensions : w.typedExtensions = v.typedExtensions) (hutf8 : w.utf8 = v.utf8) :
    ValidSet w reference set where
  nonzero := h.nonzero
  enabled := hstreams.trans h.enabled
  object := hobjects _ _ h.object
  shape := (shapeValid_congr hutf8 _).trans h.shape
  extension := by
    rcases h.extension with hzero | ⟨henabled, e, he⟩
    · exact .inl hzero
    · exact .inr ⟨hextensions.trans henabled, e, hobjects _ _ he⟩
  streams e he := by
    obtain ⟨flags, data, hstream⟩ := h.streams e he
    exact ⟨flags, data, hobjects _ _ hstream⟩
  distinct := h.distinct

theorem entriesBytes_cons (e : StreamEntry) (rest : List StreamEntry) :
    entriesBytes (e :: rest) = e.recordSize + entriesBytes rest := rfl

theorem entriesBytes_append (xs ys : List StreamEntry) : entriesBytes (xs ++ ys) = entriesBytes xs + entriesBytes ys := by
  simp [entriesBytes]

theorem foldlM_replaceEntry (name : Name) (replacement : Option ObjectId) (rest : List StreamEntry) (r : Replacement)
    (hnames : ∀ e ∈ rest, e.name ≠ name) (hbytes : entriesBytes r.entries + entriesBytes rest ≤ metadataSetDataMax) :
    rest.foldlM (replaceEntry name replacement) r = .ok ⟨r.entries ++ rest, r.replaced, r.found⟩ := by
  induction rest generalizing r with
  | nil => simp [pure, Except.pure]
  | cons e rest ih =>
    rw [entriesBytes_cons] at hbytes
    have hstep : replaceEntry name replacement r e = .ok ⟨r.entries ++ [e], r.replaced, r.found⟩ := by
      unfold replaceEntry
      rw [if_neg (hnames e List.mem_cons_self), if_neg (by omega)]
      rfl
    rw [List.foldlM_cons, hstep]
    have hkept : entriesBytes (r.entries ++ [e]) + entriesBytes rest ≤ metadataSetDataMax := by
      have hsingle : entriesBytes [e] = e.recordSize := by simp [entriesBytes]
      rw [entriesBytes_append, hsingle]
      omega
    have hrest := ih ⟨r.entries ++ [e], r.replaced, r.found⟩ (fun x hx => hnames x (List.mem_cons_of_mem e hx)) hkept
    rw [List.append_assoc, List.singleton_append] at hrest
    exact hrest

theorem shapeValid_cons {e : StreamEntry} (h : metadataSetPayloadShapeValid v (e :: rest) = true) :
    metadataSetPayloadShapeValid v rest = true ∧ namedStreamNameValid v e.name = true ∧ idIsZero e.streamId = false ∧
      (∀ x ∈ rest, x.name ≠ e.name) ∧ entriesBytes rest ≤ metadataSetDataMax := by
  simp only [metadataSetPayloadShapeValid, streamEntryValid, Bool.and_eq_true, decide_eq_true_eq, List.all_cons, List.map_cons,
    List.nodup_cons, Bool.not_eq_true'] at h ⊢
  obtain ⟨⟨hbytes, hentry, hall⟩, hname, hnodup⟩ := h
  rw [entriesBytes_cons] at hbytes
  refine ⟨⟨⟨by omega, hall⟩, hnodup⟩, hentry.1.1.1, hentry.1.1.2, fun x hx heq => hname ?_, by omega⟩
  rw [← heq]
  exact List.mem_map_of_mem hx

theorem replaceEntries_delete {e : StreamEntry}
    (h : metadataSetPayloadShapeValid v (e :: rest) = true) :
    replaceEntries (e :: rest) e.name none = .ok ⟨rest, e.streamId, true⟩ := by
  obtain ⟨_, _, _, hnames, hbytes⟩ := shapeValid_cons h
  have hfold : (e :: rest).foldlM (replaceEntry e.name none) ⟨[], zeroId, false⟩ = .ok ⟨rest, e.streamId, true⟩ := by
    have hstep : replaceEntry e.name none ⟨[], zeroId, false⟩ e = .ok ⟨[], e.streamId, true⟩ := by
      unfold replaceEntry
      rw [if_pos rfl]
    rw [List.foldlM_cons, hstep]
    exact foldlM_replaceEntry e.name none rest ⟨[], e.streamId, true⟩ hnames
      (by rwa [entriesBytes, List.map_nil, List.sum_nil, Nat.zero_add])
  unfold replaceEntries
  rw [hfold]
  rfl

theorem replaceEntries_add (hname : name.length ≤ nameMax) :
    replaceEntries [] name (some id) = .ok ⟨[⟨name, namedStreamRecordSize name.length, id⟩], zeroId, false⟩ := by
  have hfits : ¬metadataSetDataMax - entriesBytes [] < namedStreamRecordSize name.length := by
    have hnil : entriesBytes [] = 0 := rfl
    unfold nameMax at hname
    unfold namedStreamRecordSize metadataSetDataMax
    omega
  change (if metadataSetDataMax - entriesBytes [] < namedStreamRecordSize name.length then Except.error Status.noSpace
    else _) = _
  rw [if_neg hfits]
  rfl

theorem length_of_nameValid (h : namedStreamNameValid v name = true) : name.length ≤ nameMax := by
  unfold namedStreamNameValid at h
  simp only [Bool.and_eq_true, decide_eq_true_eq] at h
  exact h.1.2

theorem shapeValid_single (hname : namedStreamNameValid v name = true)
    (hid : idIsZero id = false) :
    metadataSetPayloadShapeValid v [⟨name, namedStreamRecordSize name.length, id⟩] = true := by
  have hlength := length_of_nameValid hname
  unfold nameMax at hlength
  have hbytes : entriesBytes [⟨name, namedStreamRecordSize name.length, id⟩] ≤ metadataSetDataMax := by
    simp only [entriesBytes, List.map_cons, List.map_nil, List.sum_cons, List.sum_nil, namedStreamRecordSize,
      metadataSetDataMax]
    omega
  have hrecord : 24 + name.length ≤ namedStreamRecordSize name.length ∧ namedStreamRecordSize name.length % 8 = 0 := by
    unfold namedStreamRecordSize
    omega
  simp [metadataSetPayloadShapeValid, streamEntryValid, hbytes, hname, hid, hrecord]

end Sets

section Lists

variable {v : StreamVolume} {path : Path} {id : ObjectId} {type : ObjectType} {attributes : Attributes}
  {entries : List StreamEntry} {infos : List (Name × Nat)}

theorem streamInfos_length (h : streamInfos v entries = .ok infos) :
    infos.length = entries.length := by
  fun_induction streamInfos v entries generalizing infos with
  | case1 =>
    cases h
    rfl
  | case2 e rest _ data hstream ih =>
    obtain ⟨tail, htail, h⟩ := except_bind_eq_ok.mp h
    cases h
    rw [List.length_cons, List.length_cons, ih htail]
  | case3 => cases h

theorem streamInfos_ok
    (h : ∀ e ∈ entries, ∃ flags data, v.live.objects e.streamId = some (.namedStream flags data)) :
    ∃ infos, streamInfos v entries = .ok infos := by
  induction entries with
  | nil => exact ⟨[], rfl⟩
  | cons e rest ih =>
    obtain ⟨flags, data, hstream⟩ := h e List.mem_cons_self
    obtain ⟨infos, hinfos⟩ := ih fun x hx => h x (List.mem_cons_of_mem e hx)
    refine ⟨(e.name, data.length) :: infos, ?_⟩
    unfold streamInfos
    rw [hstream]
    exact except_bind_eq_ok.mpr ⟨infos, hinfos, rfl⟩

variable (hname : v.live.names path = some id) (hobject : v.live.objects id = some (.owner type attributes))

include hname hobject

theorem namedStreamOwnerMetadata_set {set : MetadataSet} (h : ValidSet v attributes.extendedAttributes set) :
    namedStreamOwnerMetadata v path = .ok (id, type, attributes, some set) := by
  have hreference : referenceMetadata v attributes.extendedAttributes = .ok (some set) := by
    unfold referenceMetadata
    rw [h.nonzero, h.object]
    exact except_bind_eq_ok.mpr ⟨set, validSet_iff.mpr h, rfl⟩
  exact except_bind_eq_ok.mpr ⟨_, ownerAttributes_eq hname hobject, except_bind_eq_ok.mpr ⟨_, hreference, rfl⟩⟩

theorem namedStreamList_set {set : MetadataSet} (h : ValidSet v attributes.extendedAttributes set) :
    ∃ infos, namedStreamList v path = .ok infos ∧ infos.length = set.entries.length := by
  obtain ⟨infos, hinfos⟩ := streamInfos_ok h.streams
  refine ⟨infos, ?_, streamInfos_length hinfos⟩
  unfold namedStreamList
  rw [h.enabled]
  exact except_bind_eq_ok.mpr ⟨_, namedStreamOwnerMetadata_set hname hobject h, hinfos⟩

theorem namedStreamList_length (hzero : idIsZero attributes.extendedAttributes = false)
    (h : namedStreamList v path = .ok infos) :
    ¬v.live.objects attributes.extendedAttributes = none ∧
      ∀ set, v.live.objects attributes.extendedAttributes = some (.metadataSet set) → infos.length = set.entries.length := by
  unfold namedStreamList at h
  obtain ⟨-, h⟩ := except_guard_eq_ok.mp h
  obtain ⟨⟨id', type', attributes', found⟩, hmetadata, h⟩ := except_bind_eq_ok.mp h
  obtain ⟨howner, hreference⟩ := namedStreamOwnerMetadata_eq_ok hmetadata
  rw [ownerAttributes_eq hname hobject] at howner
  cases howner
  unfold referenceMetadata at hreference
  rw [hzero] at hreference
  constructor
  · intro hnone
    rw [hnone] at hreference
    cases hreference
  · intro set hset
    rw [hset] at hreference
    obtain ⟨loaded, hloaded, heq⟩ := except_bind_eq_ok.mp hreference
    cases heq
    have hobject' := (validSet_iff.mp hloaded).object
    rw [hset] at hobject'
    cases hobject'
    exact streamInfos_length h

end Lists

theorem At.here {v w : StreamVolume} {t : Tree} (h : At v t w) {P : Tree → Prop} (ht : P t) : P w.live ∧ At v w.live w := by
  have hlive : w.live = t := by rw [h]
  exact ⟨hlive ▸ ht, hlive ▸ h⟩

section Success

variable {v : StreamVolume} {t : Tree} (henv : ∀ n, (v.env n).status = .ok) {reference id fresh : ObjectId} {set : MetadataSet}

include henv

theorem total_request : Total (At v t) request (fun a w => (∃ n, a = v.env n) ∧ At v t w) := by
  intro w hw
  have henv' : w.env = v.env := by rw [hw]
  refine ⟨w.env w.tick, { w with tick := w.tick + 1 }, ?_, ⟨w.tick, by rw [henv']⟩, hw.tick _⟩
  unfold request
  rw [if_pos (by rw [henv']; exact henv _)]

theorem total_call : Total (At v t) call (fun _ => At v t) := (total_request henv).bind fun _ => .pure fun _ h => h.2

theorem total_put (id : ObjectId) (o : MetaObject) : Total (At v t) (put id o) (fun _ => At v (t.put id o)) :=
  (total_call henv).bind fun _ => .modify fun _ hw => hw.change (Tree.put · id o)

theorem total_indexRemove (id : ObjectId) : Total (At v t) (indexRemove id) (fun _ => At v (t.drop id)) :=
  (total_call henv).bind fun _ => .modify fun _ hw => hw.change (Tree.drop · id)

theorem total_metadataSetStore
    (hshape : metadataSetPayloadShapeValid v set.entries = true) :
    Total (At v t) (metadataSetStore (some reference) set)
      (fun id w => id = reference ∧ At v (t.put reference (.metadataSet set)) w) := by
  apply Total.get_bind
  intro s hs
  have hshape' : metadataSetPayloadShapeValid s set.entries = true := (shapeValid_congr hs.settled.utf8 _).trans hshape
  rw [hshape']
  have hput : Total (· = s) (put reference (.metadataSet set)) fun _ => At v (t.put reference (.metadataSet set)) :=
    (total_put henv _ _).pre fun w hw => hw ▸ hs
  exact hput.bind fun _ => .pure fun _ h => ⟨rfl, h⟩

def storedTree (t : Tree) (reference typedExtension : ObjectId) (entries : List StreamEntry) : Tree :=
  if entries = [] then t.drop reference else t.put reference (.metadataSet ⟨typedExtension, entries⟩)

theorem total_metadataSetReplaceStream {type : ObjectType} {attributes : Attributes}
    {name : Name} {replacement : Option ObjectId} {r : Replacement} (hr : replaceEntries set.entries name replacement = .ok r)
    (hshape : metadataSetPayloadShapeValid v r.entries = true) :
    Total (At v t) (metadataSetReplaceStream id type attributes (some set) name replacement)
      (fun replaced w => replaced = r.replaced ∧
        ∃ o, At v ((storedTree t attributes.extendedAttributes set.typedExtension r.entries).put id o) w) := by
  have hstore : Total (At v t) (storeEntries attributes.extendedAttributes set.typedExtension r.entries (some set))
      (fun _ => At v (storedTree t attributes.extendedAttributes set.typedExtension r.entries)) := by
    unfold storeEntries storedTree
    by_cases hempty : r.entries = []
    · simp only [if_pos hempty]
      exact (total_indexRemove henv _).bind fun _ => .pure fun _ h => h
    · simp only [if_neg hempty]
      have hset : Total (At v t) (metadataSetStore (some attributes.extendedAttributes) ⟨set.typedExtension, r.entries⟩) _ :=
        total_metadataSetStore henv hshape
      exact hset.post fun _ _ h => h.2
  intro w hw
  obtain ⟨reference, w₁, hrun₁, hw₁⟩ := hstore w hw
  obtain ⟨_, w₂, hrun₂, hw₂⟩ := total_put henv id (.owner type ⟨attributes.portableFlags, reference⟩) w₁ hw₁
  refine ⟨r.replaced, w₂, ?_, rfl, _, hw₂⟩
  unfold metadataSetReplaceStream
  rw [bind_of_ok (show ownTypedExtension attributes.extendedAttributes (some set) w = (.ok set.typedExtension, w) from rfl)]
  rw [bind_of_ok (show ofExcept (replaceEntries ((Option.map MetadataSet.entries (some set)).getD []) name replacement) w
    = (.ok r, w) by rw [ofExcept_apply]; exact congrArg (·, w) hr)]
  rw [bind_of_ok hrun₁, bind_of_ok hrun₂]
  rfl

theorem total_namedStreamDestroyObject {flags : UInt64} {data : List UInt8}
    (h : t.objects id = some (.namedStream flags data)) :
    Total (At v t) (namedStreamDestroyObject id) (fun _ => At v (t.drop id)) := by
  apply (total_call henv).bind
  intro _
  apply Total.get_bind
  intro s hs
  have hstream : s.live.objects id = some (.namedStream flags data) := by rw [hs]; exact h
  rw [hstream]
  exact (total_indexRemove henv id).pre fun w hw => hw ▸ hs

def Resized (t : Tree) (reference : ObjectId) (set : MetadataSet) : Prop :=
  t.objects reference = none ∨
    ∃ set', t.objects reference = some (.metadataSet set') ∧ set'.entries.length ≠ set.entries.length

omit henv in
theorem resized_storedTree (t : Tree) (reference : ObjectId) {entries : List StreamEntry}
    (h : entries.length ≠ set.entries.length) : Resized (storedTree t reference set.typedExtension entries) reference set := by
  unfold storedTree Resized
  split
  · exact .inl (update_self ..)
  · exact .inr ⟨_, update_self .., h⟩

omit henv in
theorem Resized.update (h : Resized t reference set) (hne : reference ≠ id)
    (o : Option MetaObject) : Resized { t with objects := update t.objects id o } reference set := by
  unfold Resized
  dsimp only
  rw [update_of_ne hne]
  exact h

theorem total_createObject (hid : ∀ n, (v.env n).id = fresh) (husable : usableId fresh = true)
    (hfree : t.objects fresh = none) (o : MetaObject) :
    Total (At v t) (createObject o) (fun id w => id = fresh ∧ At v (t.put fresh o) w) := by
  have hgenerate : Total (At v t) (generateUniqueObjectId 32) (fun id w => id = fresh ∧ At v t w) := by
    apply (total_request henv).bind_and
    rintro answer ⟨n, rfl⟩
    rw [hid n, husable]
    apply (total_call henv).bind
    intro _
    apply Total.get_bind
    intro s hs
    have hfree' : s.live.objects fresh = none := by rw [hs]; exact hfree
    rw [hfree']
    exact .pure fun w hw => ⟨rfl, hw ▸ hs⟩
  apply hgenerate.bind_and
  rintro id rfl
  exact (total_put henv id o).bind fun _ => .pure fun _ h => ⟨rfl, h⟩

variable {path : Path} {id : ObjectId} {type : ObjectType} {attributes : Attributes} {set : MetadataSet}
  (hname : v.live.names path = some id) (hobject : v.live.objects id = some (.owner type attributes))
  (hset : ValidSet v attributes.extendedAttributes set)

include hname hobject hset

/-- Both transactions first look up the owner and its metadata set. -/
theorem total_ownerMetadata {f : ObjectId × ObjectType × Attributes × Option MetadataSet → StreamM Bool}
    {Q : Bool → StreamVolume → Prop}
    (h : Total (At v v.live) (f (id, type, attributes, some set)) Q) :
    Total (At v v.live) (do call; let v ← get; let found ← ofExcept (namedStreamOwnerMetadata v path); f found) Q := by
  apply (total_call henv).bind
  intro _
  apply Total.get_bind
  intro s hs
  have hlive : s.live = v.live := by rw [hs]
  have hmetadata : namedStreamOwnerMetadata s path = .ok (id, type, attributes, some set) :=
    namedStreamOwnerMetadata_set (hlive ▸ hname) (hlive ▸ hobject)
      (hset.mono (fun _ _ h => hlive ▸ h) hs.settled.2 hs.settled.1 hs.settled.3)
  rw [hmetadata]
  exact h.pre fun w hw => hw ▸ hs

theorem total_namedStreamDeleteTx {e : StreamEntry} {rest : List StreamEntry} (hentries : set.entries = e :: rest) :
    Total (At v v.live) (namedStreamDeleteTx path e.name)
      (fun _ w => Resized w.live attributes.extendedAttributes set ∧ At v w.live w) := by
  have hreference := hset.object
  have hshape := hset.shape
  rw [hentries] at hshape
  obtain ⟨hrest, _, hstreamId, _⟩ := shapeValid_cons hshape
  obtain ⟨flags, data, hstream⟩ := hset.streams e (hentries ▸ List.mem_cons_self)
  have hne : attributes.extendedAttributes ≠ id := ne_of_apply_ne v.live.objects (by rw [hreference, hobject]; nofun)
  have hne' : attributes.extendedAttributes ≠ e.streamId := ne_of_apply_ne v.live.objects (by rw [hreference, hstream]; nofun)
  have hne'' : e.streamId ≠ id := ne_of_apply_ne v.live.objects (by rw [hstream, hobject]; nofun)
  apply total_ownerMetadata henv hname hobject hset
  have hreplace : replaceEntries set.entries e.name none = .ok ⟨rest, e.streamId, true⟩ := by
    rw [hentries]
    exact replaceEntries_delete hshape
  apply (total_metadataSetReplaceStream henv hreplace hrest).bind_and
  rintro removed rfl
  rw [hstreamId]
  apply Total.of_exists
  intro o
  have hstored : (storedTree v.live attributes.extendedAttributes set.typedExtension rest).objects e.streamId =
      some (.namedStream flags data) := by
    unfold storedTree
    split <;> exact (update_of_ne hne'.symm ..).trans hstream
  have hwritten : (Tree.put (storedTree v.live attributes.extendedAttributes set.typedExtension rest) id o).objects e.streamId =
      some (.namedStream flags data) := (update_of_ne hne'' ..).trans hstored
  apply (total_namedStreamDestroyObject henv hwritten).bind
  intro _
  apply Total.pure
  have hlength : rest.length ≠ set.entries.length := by
    rw [hentries, List.length_cons]
    omega
  exact fun w hw => hw.here (P := (Resized · _ set)) (((resized_storedTree _ _ hlength).update hne _).update hne' _)

theorem total_namedStreamSetTx (hid : ∀ n, (v.env n).id = fresh) (husable : usableId fresh = true)
    (hfree : v.live.objects fresh = none) {name : Name} (hvalid : namedStreamNameValid v name = true)
    (hentries : set.entries = []) :
    Total (At v v.live) (namedStreamSetTx path name [])
      (fun _ w => Resized w.live attributes.extendedAttributes set ∧ At v w.live w) := by
  have hreference := hset.object
  have hne : attributes.extendedAttributes ≠ id := ne_of_apply_ne v.live.objects (by rw [hreference, hobject]; nofun)
  have hnonzero : idIsZero fresh = false := by
    unfold usableId at husable
    simp only [Bool.and_eq_true, Bool.not_eq_true'] at husable
    exact husable.1.1
  apply total_ownerMetadata henv hname hobject hset
  have hcreate : Total (At v v.live) (namedStreamCreateObject attributes.portableFlags []) _ :=
    (total_createObject henv hid husable hfree _).bind fun _ => .pure fun _ h => h
  apply hcreate.bind_and
  rintro stream rfl
  have hreplace : replaceEntries set.entries name (some stream) =
      .ok ⟨[⟨name, namedStreamRecordSize name.length, stream⟩], zeroId, false⟩ := by
    rw [hentries]
    exact replaceEntries_add (length_of_nameValid hvalid)
  apply (total_metadataSetReplaceStream henv hreplace (shapeValid_single hvalid hnonzero)).bind_and
  rintro replaced rfl
  rw [show idIsZero zeroId = true by decide]
  apply Total.of_exists
  intro o
  apply Total.pure
  exact fun w hw => hw.here (P := (Resized · _ set)) ((resized_storedTree _ _ (by rw [hentries]; exact Nat.one_ne_zero)).update hne _)

end Success

section Runs

variable {v : StreamVolume} (hv : Idle v) (hwritable : v.writable = true) (hreopen : v.reopenRequiredStatus = .ok)
  (henv : ∀ n, (v.env n).status = .ok)

include hv hwritable hreopen henv

theorem mutation_succeeds {body : StreamM Bool} {Q : Tree → Prop}
    (hbody : Total (At (opened v) v.live) body (fun _ w => Q w.live ∧ At (opened v) w.live w)) :
    Q (mutation body v).2.live := by
  have hmutation := triple_mutation (S := True) (F := False) hv.closed (fun _ => hv.steady) hbody.triple v rfl
  rcases hrun : mutation body v with ⟨e | a, w⟩
  · obtain ⟨hfalse | hreadOnly | hstatus | ⟨n, hn⟩, -⟩ := hmutation.2 e w hrun trivial
    · exact hfalse.elim
    · rw [hwritable] at hreadOnly
      cases hreadOnly
    · exact absurd hreopen hstatus
    · exact absurd (henv n) hn
  · exact (hmutation.1 a w hrun).2.1

theorem streamCall_succeeds {path : Path} {name : Name} {body : StreamM Bool} {Q : Tree → Prop} (hpath : absolute path = true)
    (hname : namedStreamNameValid v name = true) (henabled : v.namedStreams = true)
    (hbody : Total (At (opened v) v.live) body (fun _ w => Q w.live ∧ At (opened v) w.live w)) :
    Q (streamCall path name body v).2.live := by
  unfold streamCall
  rw [bind_of_ok (get_apply v), hpath, hname, hwritable, henabled]
  exact mutation_succeeds hv hwritable hreopen henv hbody

theorem exists_resizing_call {path : Path} {id : ObjectId} {type : ObjectType} {attributes : Attributes} {set : MetadataSet}
    (hpath : absolute path = true) (hname : v.live.names path = some id)
    (hobject : v.live.objects id = some (.owner type attributes)) (hset : ValidSet v attributes.extendedAttributes set)
    {name : Name} (hvalid : namedStreamNameValid v name = true) {fresh : ObjectId} (hid : ∀ n, (v.env n).id = fresh)
    (husable : usableId fresh = true) (hfree : v.live.objects fresh = none) :
    ∃ c : StreamCall, c.path = path ∧ Resized (c.run v).2.live attributes.extendedAttributes set := by
  have hset' : ValidSet (opened v) attributes.extendedAttributes set := hset.mono (fun _ _ h => h) rfl rfl rfl
  have henv' : ∀ n, ((opened v).env n).status = .ok := henv
  rcases hentries : set.entries with _ | ⟨e, rest⟩
  · refine ⟨.set path name [], rfl, ?_⟩
    exact streamCall_succeeds (Q := (Resized · attributes.extendedAttributes set)) hv hwritable hreopen henv hpath hvalid
      hset.enabled (total_namedStreamSetTx henv' hname hobject hset' hid husable hfree hvalid hentries)
  · refine ⟨.delete path e.name, rfl, ?_⟩
    have hentry : namedStreamNameValid v e.name = true := by
      have hshape := hset.shape
      rw [hentries] at hshape
      exact (shapeValid_cons hshape).2.1
    exact streamCall_succeeds (Q := (Resized · attributes.extendedAttributes set)) hv hwritable hreopen henv hpath hentry
      hset.enabled (total_namedStreamDeleteTx henv' hname hobject hset' hentries)

end Runs

section Reflink

variable {v v' w u : StreamVolume} {id : ObjectId} {source destination path : Path}

theorem mutation_closed {body : StreamM Bool} (h : mutation body v = (.ok (), v')) : v.operationActive = false := by
  obtain ⟨_, _, hbegin, -⟩ := bind_eq_ok.mp h
  obtain ⟨_, _, hget, hbegin⟩ := bind_eq_ok.mp hbegin
  cases hget
  obtain ⟨_, _, -, hbegin⟩ := bind_eq_ok.mp hbegin
  by_contra hopen
  rw [Bool.not_eq_false] at hopen
  rw [hopen] at hbegin
  simp only [if_true] at hbegin
  split at hbegin <;> cases hbegin

/-- The clone: a new name, a new object, and the reference of the source in it. -/
structure Cloned (v v' : StreamVolume) (source destination : Path) (id cloneId : ObjectId) (attributes : Attributes) : Prop where
  sourceName : v.live.names source = some id
  sourceObject : v.live.objects id = some (.owner .file attributes)
  unused : v.live.names destination = none
  fresh : v.live.objects cloneId = none
  names : v'.live.names = update v.live.names destination (some cloneId)
  objects : v'.live.objects = update v.live.objects cloneId (some (.owner .file attributes))
  settled : Settled v v'
  closed : v.operationActive = false
  writable : v.writable = true
  reopen : v.reopenRequiredStatus = .ok
  absolute : absolute source = true

theorem generateUniqueObjectId_eq_ok {t : Tree} {attempts : Nat} (hw : At v t w)
    (h : generateUniqueObjectId attempts w = (.ok id, u)) : t.objects id = none ∧ At v t u := by
  induction attempts generalizing w with
  | zero => cases h
  | succ attempts ih =>
    obtain ⟨answer, w₁, hrequest, h⟩ := bind_eq_ok.mp h
    have hw₁ := ((triple_request v t w hw).1 answer w₁ hrequest).2
    split at h
    · exact ih hw₁ h
    · obtain ⟨_, w₂, hcall, h⟩ := bind_eq_ok.mp h
      have hw₂ := (triple_call v t w₁ hw₁).1 _ w₂ hcall
      rw [bind_of_ok (get_apply w₂)] at h
      split at h
      · exact ih hw₂ h
      · rename_i hfree
        cases h
        rw [hw₂] at hfree
        exact ⟨by simpa using hfree, hw₂⟩

theorem put_eq_ok {t : Tree} {o : MetaObject} (hw : At v t w)
    (h : put id o w = (.ok (), u)) : At v (t.put id o) u := by
  obtain ⟨_, w₁, hcall, h⟩ := bind_eq_ok.mp h
  cases h
  exact ((triple_call v t w hw).1 _ w₁ hcall).change (Tree.put · id o)

def Reflinks (source destination : Path) (t t' : Tree) : Prop :=
  ∃ id cloneId attributes o, (t.names source = some id ∧ t.objects id = some (.owner .file attributes) ∧
    t.names destination = none ∧ t.objects cloneId = none) ∧
    t' = ((t.put cloneId o).bind destination cloneId).put cloneId (.owner .file attributes)

theorem reflinkFileTx_eq_ok {t : Tree} {staged : Bool} (hw : At v t w)
    (h : reflinkFileTx source destination w = (.ok staged, u)) :
    Reflinks source destination t u.live ∧ At v u.live u := by
  obtain ⟨_, s, hcall, h⟩ := bind_eq_ok.mp h
  have hs := (triple_call v t w hw).1 _ s hcall
  have hlive : s.live = t := by rw [hs]
  rw [bind_of_ok (get_apply s)] at h
  obtain ⟨-, h⟩ := guard_eq_ok.mp h
  obtain ⟨⟨id, type, attributes⟩, _, howner, h⟩ := bind_eq_ok.mp h
  rw [ofExcept_apply] at howner
  obtain ⟨hfound, rfl⟩ := Prod.mk.inj howner
  obtain ⟨hname, hobject⟩ := ownerAttributes_eq_ok hfound
  obtain ⟨htype, hlink⟩ := guard_eq_ok.mp h
  obtain rfl : type = .file := not_not.mp htype
  obtain ⟨hfree, hlink⟩ := guard_eq_ok.mp hlink
  obtain ⟨cloneId, s₁, hcreate, h⟩ := bind_eq_ok.mp hlink
  obtain ⟨_, s₀, hid, hcreate⟩ := bind_eq_ok.mp hcreate
  obtain ⟨hfresh, hs₀⟩ := generateUniqueObjectId_eq_ok hs hid
  obtain ⟨_, s₁, hput, hcreate⟩ := bind_eq_ok.mp hcreate
  cases hcreate
  rw [bind_of_ok (modify_apply ..)] at h
  have hbound := (put_eq_ok hs₀ hput).change (Tree.bind · destination cloneId)
  obtain ⟨_, s₂, hcall, h⟩ := bind_eq_ok.mp h
  have hs₂ := (triple_call v _ _ hbound).1 _ s₂ hcall
  obtain ⟨_, s₃, hput, h⟩ := bind_eq_ok.mp h
  cases h
  rw [hlive] at hname hobject hfree
  exact (put_eq_ok hs₂ hput).here ⟨id, cloneId, attributes, _, ⟨hname, hobject, by simpa using hfree, hfresh⟩, rfl⟩

theorem reflinkFile_eq_ok (h : reflinkFile source destination v = (.ok (), v')) :
    ∃ id cloneId attributes, Cloned v v' source destination id cloneId attributes := by
  unfold reflinkFile at h
  obtain ⟨habsolute, h⟩ := guard_eq_ok.mp h
  obtain ⟨-, h⟩ := guard_eq_ok.mp h
  have hclosed := mutation_closed h
  have hbody : Triple (At (opened v) v.live) (reflinkFileTx source destination)
      (fun _ w => Reflinks source destination v.live w.live ∧ At (opened v) w.live w)
      (fun _ w => False → False ∧ At (opened v) w.live w) :=
    fun w hw => ⟨fun _ _ hrun => reflinkFileTx_eq_ok hw hrun, fun _ _ _ hfalse => hfalse.elim⟩
  obtain ⟨⟨hwritable, hreopen⟩, ⟨id, cloneId, attributes, o, ⟨hname, hobject, hunused, hfresh⟩, hlive⟩, hsettled⟩ :=
    (triple_mutation hclosed False.elim hbody v rfl).1 () v' h
  refine ⟨id, cloneId, attributes, hname, hobject, hunused, hfresh, ?_, ?_, hsettled, hclosed, hwritable, hreopen, ?_⟩
  · rw [hlive]
    rfl
  · rw [hlive]
    exact update_idem ..
  · simp only [Bool.or_eq_true, Bool.not_eq_true', not_or, Bool.not_eq_false] at habsolute
    exact habsolute.1

def StreamVolume.facing (v : StreamVolume) (env publication : Nat → Answer) : StreamVolume :=
  { v with env := env, publication := publication }

def Isolated (v : StreamVolume) (path other : Path) : Prop :=
  ∀ env publication, (∀ n, (publication n).status = .ok) → ∀ calls : List StreamCall, (∀ c ∈ calls, c.path = path) →
    SameMetadata v (runCalls calls (v.facing env publication)) other

section

variable {source destination : Path} {id cloneId : ObjectId} {attributes : Attributes}
  (h : Cloned v v' source destination id cloneId attributes)

include h

theorem Cloned.owner_eq {id' : ObjectId} {type : ObjectType} {attributes' : Attributes} (hname : v.live.names source = some id')
    (hobject : v.live.objects id' = some (.owner type attributes')) : id = id' ∧ .file = type ∧ attributes = attributes' := by
  cases h.sourceName.symm.trans hname
  cases h.sourceObject.symm.trans hobject
  exact ⟨rfl, rfl, rfl⟩

theorem Cloned.ne : id ≠ cloneId := ne_of_apply_ne v.live.objects (by rw [h.sourceObject, h.fresh]; nofun)

theorem Cloned.added {id' : ObjectId} {o : MetaObject} (ho : v.live.objects id' = some o) : v'.live.objects id' = some o := by
  rw [h.objects, update_of_ne (ne_of_apply_ne v.live.objects (by rw [ho, h.fresh]; nofun))]
  exact ho

theorem Cloned.name_source : v'.live.names source = some id := by
  rw [h.names, update_of_ne (ne_of_apply_ne v.live.names (by rw [h.sourceName, h.unused]; nofun))]
  exact h.sourceName

theorem Cloned.name_destination : v'.live.names destination = some cloneId := by
  rw [h.names]
  exact update_self ..

theorem Cloned.object_destination : v'.live.objects cloneId = some (.owner .file attributes) := by
  rw [h.objects]
  exact update_self ..

theorem Cloned.idle {env publication : Nat → Answer} (hsteady : ∀ n, (publication n).status = .ok) :
    Idle (v'.facing env publication) :=
  ⟨h.settled.operationActive.trans h.closed, hsteady⟩

theorem Cloned.plain {value : Option TypedExtension} (hplain : Plain v source id .file attributes value) :
    Plain v' source id .file attributes value ∧ Plain v' destination cloneId .file attributes value := by
  have hextension : ∀ e, value = some e → idIsZero attributes.extendedAttributes = false ∧ v'.typedExtensions = true ∧
      v'.live.objects attributes.extendedAttributes = some (.extension e) := by
    intro e he
    obtain ⟨hzero, henabled, hobject⟩ := hplain.extension e he
    exact ⟨hzero, h.settled.typedExtensions.trans henabled, h.added hobject⟩
  exact ⟨⟨h.name_source, h.added h.sourceObject, hplain.zero, hextension⟩,
    ⟨h.name_destination, h.object_destination, hplain.zero, hextension⟩⟩

end

theorem isolated_of_plain {other : Path} {owner : ObjectId} {type type' : ObjectType}
    {attributes attributes' : Attributes} {value : Option TypedExtension} (hclosed : v.operationActive = false)
    (hpath : v.live.names path = some owner) (howner : v.live.objects owner = some (.owner type' attributes'))
    (hplain : Plain v other id type attributes value) (hne : id ≠ owner) : Isolated v path other := by
  intro env publication hsteady calls hcalls
  have hidle : Idle (v.facing env publication) := ⟨hclosed, hsteady⟩
  have hlater := later_runCalls hidle hpath calls hcalls
  have hfacing : Plain (v.facing env publication) other id type attributes value :=
    ⟨hplain.name, hplain.object, hplain.zero, hplain.extension⟩
  exact hplain.same (hfacing.later howner hne hlater) hlater.settled.namedStreams hlater.settled.utf8

theorem validSet_of_valid {type : ObjectType} {attributes : Attributes} {set : MetadataSet}
    (hvalid : validateMetadataReference v path = .ok ()) (hname : v.live.names path = some id)
    (hobject : v.live.objects id = some (.owner type attributes)) (hzero : idIsZero attributes.extendedAttributes = false)
    (hset : v.live.objects attributes.extendedAttributes = some (.metadataSet set)) :
    ValidSet v attributes.extendedAttributes set := by
  unfold validateMetadataReference at hvalid
  rw [ownerAttributes_eq hname hobject] at hvalid
  obtain ⟨_, howner, hvalid⟩ := except_bind_eq_ok.mp hvalid
  cases howner
  simp only [hzero, hset, Bool.not_false, if_true] at hvalid
  obtain ⟨found, hfound, _⟩ := except_bind_eq_ok.mp hvalid
  have hobject' := (validSet_iff.mp hfound).object
  rw [hset] at hobject'
  cases hobject'
  exact validSet_iff.mp hfound

/-- A clone and its source keep their metadata apart exactly when the source
had no metadata set: a set is shared by its ID and changed in place. -/
theorem reflink_isolated_iff {source destination : Path} {name : Name} {fresh : ObjectId}
    (hreflink : reflinkFile source destination v = (.ok (), v')) (hvalid : validateMetadataReference v source = .ok ())
    (hname : namedStreamNameValid v name = true) (husable : usableId fresh = true) (hfree : v'.live.objects fresh = none) :
    (Isolated v' source destination ∧ Isolated v' destination source) ↔ ¬HasMetadataSet v source := by
  obtain ⟨id, cloneId, attributes, h⟩ := reflinkFile_eq_ok hreflink
  constructor
  · rintro ⟨hisolated, _⟩ ⟨id', type', attributes', set, hname', hobject', hzero, hset⟩
    obtain ⟨rfl, rfl, rfl⟩ := h.owner_eq hname' hobject'
    have hvalidSet : ValidSet v' attributes.extendedAttributes set :=
      (validSet_of_valid hvalid hname' hobject' hzero hset).mono (fun _ _ ho => h.added ho) h.settled.2 h.settled.1 h.settled.3
    -- Every request succeeds, and the random IDs are the free one.
    let env : Nat → Answer := fun _ => ⟨.ok, fresh, false⟩
    have hsteady : ∀ n, (env n).status = .ok := fun _ => rfl
    have hvalidFacing : ValidSet (v'.facing env env) attributes.extendedAttributes set :=
      hvalidSet.mono (fun _ _ ho => ho) rfl rfl rfl
    have hnameFacing : namedStreamNameValid (v'.facing env env) name = true := by
      unfold namedStreamNameValid StreamVolume.facing
      rw [h.settled.utf8]
      exact hname
    have hidle : Idle (v'.facing env env) := h.idle hsteady
    obtain ⟨c, hc, hresized⟩ := exists_resizing_call hidle (h.settled.writable.trans h.writable)
      (h.settled.reopenRequiredStatus.trans h.reopen) hsteady h.absolute h.name_source (h.added h.sourceObject) hvalidFacing
      hnameFacing (fun _ => rfl) husable hfree
    have hlist := (hisolated env env hsteady [c] (by simpa using hc)).list
    have hlater := later_run hidle h.name_source c hc
    obtain ⟨infos, hinfos, hlength⟩ := namedStreamList_set h.name_destination h.object_destination hvalidSet
    rw [hinfos] at hlist
    obtain ⟨hsome, hsize⟩ := namedStreamList_length (hlater.kept.names ▸ h.name_destination)
      (hlater.kept.objects cloneId _ h.ne.symm h.object_destination rfl) hzero hlist
    rcases hresized with hnone | ⟨set', hset', hne⟩
    · exact hsome hnone
    · exact hne ((hsize set' hset').symm.trans hlength)
  · intro hset
    obtain ⟨id', type', attributes', value, hplain⟩ := plain_of_valid hvalid hset
    obtain ⟨rfl, rfl, rfl⟩ := h.owner_eq hplain.name hplain.object
    obtain ⟨hsource, hdestination⟩ := h.plain hplain
    have hclosed := h.settled.operationActive.trans h.closed
    exact ⟨isolated_of_plain hclosed hsource.name hsource.object hdestination h.ne.symm,
      isolated_of_plain hclosed hdestination.name hdestination.object hsource h.ne⟩

def smallVolume (reference : MetaObject) : StreamVolume :=
  let tree : Tree :=
    { names := fun path => if path = [47, 97] then some (Vector.replicate 16 1) else none
      objects := fun id =>
        if id = Vector.replicate 16 1 then some (.owner .file ⟨0, Vector.replicate 16 2⟩)
        else if id = Vector.replicate 16 2 then some reference
        else if id = Vector.replicate 16 3 then some (.namedStream 0 [120])
        else none }
  let env : Nat → Answer := fun _ => ⟨.ok, Vector.replicate 16 4, false⟩
  { typedExtensions := true, namedStreams := true, sharedExtents := true, utf8 := fun _ => true
    live := tree, base := tree, operation := tree, txActive := false, operationActive := false
    writable := true, reopenRequiredStatus := .ok, deferredPublish := false
    env := env, tick := 0, publication := env, published := 0 }

def smallExtension : TypedExtension := ⟨Vector.replicate 16 9, 1, 0, []⟩

theorem reflink_isolated_extension :
    (reflinkFile [47, 97] [47, 98] (smallVolume (.extension smallExtension))).1 = .ok () ∧
      let v := (reflinkFile [47, 97] [47, 98] (smallVolume (.extension smallExtension))).2
      Isolated v [47, 97] [47, 98] ∧ Isolated v [47, 98] [47, 97] := by
  have hname : namedStreamNameValid (smallVolume (.extension smallExtension)) [115] = true := rfl
  have husable : usableId (Vector.replicate 16 5) = true := rfl
  refine ⟨rfl, (reflink_isolated_iff (Prod.ext rfl rfl) rfl hname husable rfl).mpr ?_⟩
  rintro ⟨id, type, attributes, set, hname, hobject, _, hset⟩
  cases hname
  cases hobject
  cases hset

def smallSet : MetadataSet := ⟨zeroId, [⟨[115], 32, Vector.replicate 16 3⟩]⟩

theorem set_destroyed_under_clone :
    let cloned := reflinkFile [47, 97] [47, 98] (smallVolume (.metadataSet smallSet))
    let deleted := (StreamCall.delete [47, 97] [115]).run cloned.2
    cloned.1 = .ok () ∧ validateMetadataReference cloned.2 [47, 98] = .ok () ∧
      namedStreamList cloned.2 [47, 98] = .ok [([115], 1)] ∧ deleted.1 = .ok () ∧
      namedStreamList deleted.2 [47, 98] = .error .notFound ∧
      validateMetadataReference deleted.2 [47, 98] = .error .corrupt := by
  refine ⟨rfl, rfl, rfl, rfl, rfl, rfl⟩

end Reflink

end InfiltratorFS.Metadata
