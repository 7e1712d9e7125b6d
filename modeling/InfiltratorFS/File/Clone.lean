import InfiltratorFS.File.Unlink

namespace InfiltratorFS.File

open Prog Segment

section Model

def copyDigests (logical remaining : Nat) : FileM Unit :=
  if remaining = 0 then pure ()
  else do
    call
    checksumSetRange logical (min checksumsPerObject remaining)
    copyDigests (logical + min checksumsPerObject remaining) (remaining - min checksumsPerObject remaining)
termination_by remaining
decreasing_by
  have : 0 < checksumsPerObject := by decide
  omega

def reflinkCopyChecksums : List Extent → FileM Unit
  | [] => pure ()
  | e :: es => do
      if extentKind e.flags = extentNormal then copyDigests e.logicalBlock e.blockCount else pure ()
      reflinkCopyChecksums es

/-- The extents of the source in the object of the destination, which is
cleared first. -/
def reflinkExtents (source : FileObject) : FileM Unit := do
  let entries := source.payload.extentList
  call
  modify fun s =>
    { s with
      object := { s.object with
        payload := .extents []
        logicalSize := source.logicalSize
        checksums := []
        finalized := false } }
  if entries.length ≤ maxFileExtents then modify fun s => s.setPayload (.extents entries)
  else pagedExtentRewriteAll entries true
  reflinkCopyChecksums entries

/-- `reflink_file_tx` over the object of the destination. The first two calls
stand for the source, which is looked up, read and validated, and for
`create_object` and the lookup of what it made; the last two for
`write_object` and `finish_mutation`. -/
def reflinkFileTx (source : FileObject) : FileM Unit := do
  let s ← get
  if s.writable = false then fail .readOnly
  else if s.enabled incompatSharedExtents = false then fail .notSupported
  else do
    call
    call
    fileValidateVolume
    if source.isInline = true then do
      call
      fileStoreInline source.logicalSize
    else reflinkExtents source
    objectFinalize
    call
    call

def createdObject (portableFlags : UInt64) : FileObject := ⟨0, portableFlags, .extents [], [], true⟩

end Model

section Steps

theorem Builds.reflinkCopyChecksums {C : ∀ {α : Type}, FileM α → Prop} (hC : Builds C) (entries : List Extent) :
    C (reflinkCopyChecksums entries) := by
  have hcopy (logical remaining : Nat) : C (copyDigests logical remaining) := by
    fun_induction copyDigests logical remaining with
    | case1 => exact hC.pure ()
    | case2 logical remaining _ ih => exact hC.bind hC.call fun _ => hC.bind (hC.checksumSetRange _ _) fun _ => ih
  induction entries with
  | nil => exact hC.pure ()
  | cons e es ih => exact hC.when (hcopy _ _) fun _ => ih

theorem walks_reflinkExtents (source : FileObject) : Walks (reflinkExtents source) := by
  apply walks_bind walks_call
  intro _
  apply walks_bind (walks_change fun _ => rfl)
  intro _
  exact of_ite (walks_bind (walks_change fun _ => rfl) fun _ => composes_walks.reflinkCopyChecksums _)
    (walks_bind (walks_pagedExtentRewriteAll _ _) fun _ => composes_walks.reflinkCopyChecksums _)

theorem walks_reflinkFileTx (source : FileObject) : Walks (reflinkFileTx source) := by
  have hstore : Walks (do
      objectFinalize
      call
      call) :=
    walks_bind walks_finalize fun _ => walks_bind walks_call fun _ => walks_call
  apply walks_bind walks_get
  intro s
  apply of_ite (walks_fail _)
  apply of_ite (walks_fail _)
  apply walks_bind walks_call
  intro _
  apply walks_bind walks_call
  intro _
  apply walks_bind reads_fileValidateVolume.walks
  intro _
  exact of_ite (walks_bind walks_call fun _ => walks_bind (walks_fileStoreInline _) fun _ => hstore)
    (walks_bind (walks_reflinkExtents source) fun _ => hstore)

end Steps

section Fresh

variable {known : Payload → Prop} {hand : List Nat} {α β : Type}

/-- A new file in the operation that makes it: what it holds, and what is in
hand for it, was allocated for it, and nothing was given up. -/
structure Fresh (known : Payload → Prop) (hand : List Nat) (s : FileState) : Prop where
  freed : s.freed = []
  payload : known s.object.payload
  held : ∀ b ∈ hand ++ (s.object.payload.metadata ++ chainBlocks s.object.checksums), covers s.allocated b = true

structure Blank (s : FileState) : Prop where
  freed : s.freed = []
  payload : s.object.payload = .extents []
  checksums : s.object.checksums = []

theorem Blank.fresh {s : FileState} (h : Blank s) : Fresh (·.extentList = []) [] s := by
  refine ⟨h.freed, by rw [h.payload]; rfl, fun b hb => ?_⟩
  rw [h.payload, h.checksums] at hb
  cases hb

theorem fresh_tick (s : FileState) (n : Nat) (h : Fresh known hand s) : Fresh known hand { s with tick := s.tick + n } :=
  ⟨h.freed, h.payload, h.held⟩

theorem blank_tick (s : FileState) (n : Nat) (h : Blank s) : Blank { s with tick := s.tick + n } :=
  ⟨h.freed, h.payload, h.checksums⟩

theorem fresh_call : Triple (Fresh known hand) call (fun _ => Fresh known hand) Always := reads_call.triple fresh_tick

theorem Fresh.allocate {s : FileState} (h : Fresh known hand s) (run : Segment) :
    Fresh known hand { s with allocated := s.allocated ++ [run] } := by
  refine ⟨h.freed, h.payload, fun b hb => ?_⟩
  rw [covers_append, h.held b hb, Bool.true_or]

theorem fresh_allocBlock : Triple (Fresh known hand) allocBlock (fun block => Fresh known (block :: hand)) Always := by
  have hrun : Triple (Fresh known hand) (allocRun 1)
      (fun run s => Fresh known hand s ∧ ∀ b, run.contains b = true → covers s.allocated b = true) Always := by
    apply (reads_request.triple fresh_tick).bind
    intro answer
    apply Triple.bind (Q := fun _ s => Fresh known hand s ∧ ∀ b,
      (Segment.mk (max 1 answer.block) (max 1 (min 1 answer.count))).contains b = true → covers s.allocated b = true)
    · apply Triple.modify
      intro s hs
      exact ⟨hs.allocate _, fun b hb => covers_append_self _ hb⟩
    · exact fun _ => .pure fun _ hs => hs
  apply hrun.bind
  intro run
  apply triple_check
  intro hcount
  apply Triple.pure
  rintro s ⟨hs, hrun⟩
  refine ⟨hs.freed, hs.payload, fun b hb => ?_⟩
  rcases List.mem_cons.mp hb with rfl | hb
  · apply hrun
    rw [contains_iff, Segment.stop]
    omega
  · exact hs.held b hb

theorem account_fresh : Account (Fresh known) where
  less := fun hle hs => ⟨hs.freed, hs.payload, fun b hb => hs.held b (by
    rw [← List.count_pos_iff, List.count_append] at hb ⊢
    exact hb.trans_le (Nat.add_le_add_right (hle b) _))⟩
  call := fun _ => fresh_call
  write := fun _ _ => .bind (.modify fun _ hs => ⟨hs.freed, hs.payload, hs.held⟩) fun _ => fresh_call
  alloc := fun _ => fresh_allocBlock

theorem fresh_storePages (pages : List (List Extent)) :
    Triple (Fresh known hand) (storePages [] pages)
      (fun stored s => stored.map (·.extents) = pages ∧ Fresh known (stored.map (·.block) ++ hand) s) Always := by
  induction pages generalizing hand with
  | nil => exact .pure fun _ hs => ⟨rfl, hs⟩
  | cons entries rest ih =>
    apply fresh_call.seq
    apply (account_fresh.metadataPageStore hand).bind
    intro block
    apply (@ih (block :: hand)).bind_and
    intro stored hstored
    apply Triple.pure
    intro s hs
    refine ⟨by rw [List.map_cons, hstored], hs.freed, hs.payload, fun b hb => hs.held b ?_⟩
    simp only [List.map_cons, List.cons_append, List.mem_cons, List.mem_append] at hb ⊢
    tauto

theorem fresh_pagedExtentRewriteAll (entries : List Extent) :
    Triple (Fresh known []) (pagedExtentRewriteAll entries true) (fun _ => Fresh (·.extentList = entries) []) Always := by
  apply triple_check
  intro _
  apply triple_check
  intro _
  apply fresh_call.seq
  apply Triple.look
  intro s hs
  apply (fresh_storePages (paginate entries)).bind_and
  intro stored hstored
  have hset (index : List Nat) : Triple (Fresh known (index ++ (stored.map (·.block) ++ [])))
      (modify fun s => s.setPayload (.pages stored index) : FileM Unit) (fun _ => Fresh (·.extentList = entries) [])
      Always := by
    apply Triple.modify
    intro t ht
    refine ⟨ht.freed, ?_, fun b hb => ht.held b ?_⟩
    · show List.flatMap (·.extents) stored = entries
      rw [List.flatMap_def, hstored, paginate_flatten]
    · simp only [FileState.setPayload, Payload.metadata, Payload.pageList, Payload.index, List.nil_append,
        List.append_nil, List.mem_append] at hb ⊢
      tauto
  have hindex : Triple (Fresh known (stored.map (·.block) ++ [])) (do
      let index ← if (paginate entries).length ≤ extentPagePointers then pure []
        else extentPointerTreeBuild 3 (paginate entries).length
      modify fun s => s.setPayload (.pages stored index)) (fun _ => Fresh (·.extentList = entries) []) Always := by
    apply Triple.ite
    · exact fun _ => hset []
    · exact fun _ => (account_fresh.extentPointerTreeBuild _ _ _).bind fun index => hset index
  -- nothing is released: there were neither pages nor a tree above them
  have hdrop : List.drop (paginate entries).length (([] : List Nat)) = [] := List.drop_nil
  simp only [if_true, Payload.pageList, Payload.index, List.map_nil, hdrop]
  exact hindex

theorem fresh_checksumSetObject (start : Nat) :
    Triple (Fresh known []) (checksumSetObject start) (fun _ => Fresh known []) Always := by
  apply Triple.get_bind
  intro s hs
  apply Triple.bind ((account_fresh.checksumInsert [] start s.object.checksums).pre ?_)
  · intro chain
    apply fresh_call.seq
    apply Triple.modify
    intro t ht
    refine ⟨ht.freed, ht.payload, fun b hb => ht.held b ?_⟩
    simp only [FileState.setChecksums, List.nil_append, List.append_nil, List.mem_append] at hb ⊢
    tauto
  · rintro _ rfl
    refine ⟨hs.freed, hs.payload, fun b hb => hs.held b ?_⟩
    simp only [List.nil_append, List.append_nil, List.mem_append] at hb ⊢
    tauto

theorem builds_fresh : Builds fun x => Triple (Fresh known []) x (fun _ => Fresh known []) Always where
  pure _ := .done
  bind := Triple.bind
  reads h := h.triple fresh_tick
  finalize := .modify fun _ hs => ⟨hs.freed, hs.payload, hs.held⟩
  checksumSetObject := fresh_checksumSetObject

theorem blank_fileStoreInline (size : Nat) :
    Triple Blank (fileStoreInline size) (fun _ => Fresh (·.extentList = []) []) Always := by
  have hvalidate : Triple Blank fileValidateVolume (fun _ => Blank) Always := reads_fileValidateVolume.triple blank_tick
  have hrelease : Triple Blank fileReleaseExternalStorage (fun _ => Blank) Always := by
    apply hvalidate.seq
    apply Triple.bind (Q := fun _ => Blank)
    · apply Triple.look
      intro s hs
      rw [if_pos hs.checksums]
      exact .pure fun _ ht => ht
    · intro _
      apply Triple.bind (Q := fun entries s => entries = [] ∧ Blank s)
      · apply Triple.look
        intro s hs
        rw [hs.payload]
        exact .pure fun _ ht => ⟨rfl, ht⟩
      · intro entries
        apply Triple.of_and
        rintro rfl
        apply Triple.bind (Q := fun _ => Blank)
        · exact .pure fun _ ht => ht
        · intro _
          apply Triple.look
          intro s hs
          rw [hs.payload]
          exact .pure fun _ ht => ht
  apply triple_check
  intro _
  apply hvalidate.seq
  apply Triple.look
  intro s hs
  apply triple_check
  intro _
  apply hrelease.seq
  apply Triple.modify
  intro t ht
  refine ⟨ht.freed, ?_, ?_⟩
  · dsimp only
    split <;> rfl
  · dsimp only
    split <;> exact fun b hb => nomatch hb

theorem fresh_reflinkExtents (source : FileObject) :
    Triple Blank (reflinkExtents source) (fun _ => Fresh (·.extentList = source.payload.extentList) []) Always := by
  apply (reads_call.triple blank_tick).seq
  apply Triple.bind (Q := fun _ => Blank)
  · exact .modify fun s hs => ⟨hs.freed, rfl, rfl⟩
  · intro _
    apply Triple.branch
    · apply Triple.bind (Q := fun _ => Fresh (·.extentList = source.payload.extentList) [])
      · apply Triple.modify
        intro s hs
        refine ⟨hs.freed, rfl, fun b hb => ?_⟩
        simp only [FileState.setPayload, hs.checksums] at hb
        cases hb
      · exact fun _ => builds_fresh.reflinkCopyChecksums _
    · exact ((fresh_pagedExtentRewriteAll _).pre fun s hs => hs.fresh).bind fun _ => builds_fresh.reflinkCopyChecksums _

/-- The clone has the extents of the source, and metadata of its own that was
allocated for it. -/
theorem fresh_reflinkFileTx (source : FileObject) :
    Triple Blank (reflinkFileTx source) (fun _ => Fresh (·.extentList = source.payload.extentList) []) Always := by
  have hstore : Triple (Fresh (·.extentList = source.payload.extentList) []) (do
      objectFinalize
      call
      call) (fun _ => Fresh (·.extentList = source.payload.extentList) []) Always := by
    apply Triple.bind (Q := fun _ => Fresh (·.extentList = source.payload.extentList) [])
    · exact .modify fun s hs => ⟨hs.freed, hs.payload, hs.held⟩
    · exact fun _ => fresh_call.bind fun _ => fresh_call
  apply Triple.look
  intro s hs
  apply triple_check
  intro _
  apply triple_check
  intro _
  apply (reads_call.triple blank_tick).seq
  apply (reads_call.triple blank_tick).seq
  apply (reads_fileValidateVolume.triple blank_tick).seq
  apply Triple.ite
  · intro hinline
    have hextents : source.payload.extentList = [] := by
      rw [FileObject.isInline, beq_iff_eq] at hinline
      rw [hinline]
      rfl
    rw [hextents] at hstore ⊢
    exact (reads_call.triple blank_tick).bind fun _ => (blank_fileStoreInline _).bind fun _ => hstore
  · exact fun _ => (fresh_reflinkExtents source).bind fun _ => hstore

theorem reflinkFileTx_shared {source : FileObject} {s t : FileState} (h : reflinkFileTx source s = (.ok (), t)) :
    s.enabled incompatSharedExtents = true := by
  rw [reflinkFileTx, bind_of_ok (get_apply s)] at h
  by_contra hshared
  rw [Bool.not_eq_true] at hshared
  split at h
  · cases h
  · cases h

end Fresh

section Acts

/-- `destroy_replaced_object_tx` for a file. The calls stand for the lookups of
`rename_tx` before it and for all that follows. -/
def destroyReplacedObjectTx (hardLinks : Bool) (links : Nat) : FileM Unit := do
  call
  fileValidateVolume
  releaseUnlinked hardLinks links
  call

/-- What the calls of the interface do to one file. A rename only stores the
object of the file it moves, and does away with the one it replaces. -/
inductive FileAct
  | operation (op : FileOperation)
  | replace (hardLinks : Bool) (links : Nat)
  | rename

def FileAct.run : FileAct → FileM Unit
  | .operation op => op.run
  | .replace hardLinks links => destroyReplacedObjectTx hardLinks links
  | .rename => call

def FileAct.remains : FileAct → Bool
  | .operation (.unlink _ links) => decide (1 < links)
  | .replace _ links => decide (1 < links)
  | _ => true

theorem walks_releaseUnlinked (hardLinks : Bool) (links : Nat) : Walks (releaseUnlinked hardLinks links) :=
  of_ite (walks_fail _) (of_ite (of_ite (walks_fail _) (walks_pure ()))
    (walks_bind tame_checksumDestroyChain.walks fun _ => walks_bind reads_fileExtentSnapshot.walks fun _ =>
      walks_bind (tame_freeRuns _).walks fun _ => tame_pagedExtentDestroyPages.walks))

theorem walks_act (act : FileAct) : Walks act.run := by
  have hunlinked {x : FileM Unit} (hx : Walks x) (hardLinks : Bool) (links : Nat) : Walks (do
      call
      fileValidateVolume
      releaseUnlinked hardLinks links
      x) :=
    walks_bind walks_call fun _ => walks_bind reads_fileValidateVolume.walks fun _ =>
      walks_bind (walks_releaseUnlinked hardLinks links) fun _ => hx
  cases act with
  | operation op =>
    cases op with
    | change op => exact walks_run op
    | unlink hardLinks links =>
      exact walks_bind walks_call fun _ => hunlinked (walks_bind walks_call fun _ => walks_bind walks_call fun _ =>
        walks_bind walks_call fun _ => walks_call) hardLinks links
  | replace hardLinks links => exact hunlinked walks_call hardLinks links
  | rename => exact walks_call

theorem triple_act {c : Ledger} (act : FileAct) :
    Triple (Owns c 0) act.run (fun _ s => ∃ o, Purse c o (if act.remains = true then c.held o else 0) s) Always := by
  have hsettled {x : FileM Unit} (hx : Settles c x) : Triple (Owns c 0) x (fun _ s => ∃ o, Purse c o (c.held o) s) Always :=
    (hx 0).post fun _ s ⟨o, hs⟩ => ⟨o, by rwa [Nat.zero_add] at hs⟩
  cases act with
  | operation op =>
    cases op with
    | change op => exact hsettled (settles_run op)
    | unlink hardLinks links =>
      simp only [FileAct.remains, decide_eq_true_eq]
      exact triple_infsUnlink hardLinks links
  | replace hardLinks links =>
    simp only [FileAct.remains, decide_eq_true_eq]
    exact triple_unlinked keeps_call hardLinks links
  | rename => exact hsettled settles_call

open Classical in
/-- The account of a block that is not handed out. It has no place that could
be given up. -/
noncomputable def sparedLedger (s : FileState) (b : Nat) (hshared : s.enabled incompatSharedExtents = true)
    (hhanded : ∀ n, (s.env n).run.contains b = false) : Ledger where
  start := s
  block := b
  limit := 0
  weight := if Referenced s.others b then 0 else 1
  handed_once := by
    intro n _ h
    rw [hhanded n] at h
    cases h
  weight_cases := by
    split
    · exact .inr ⟨rfl, ‹_›, hshared⟩
    · exact .inl rfl

/-- An act gives up no block that another file has and the file has at most in
its extents, and takes it up nowhere else. -/
theorem act_spares {s t : FileState} {act : FileAct} {b : Nat} (hshared : s.enabled incompatSharedExtents = true)
    (hfreed : s.freed = []) (hhanded : ∀ n, (s.env n).run.contains b = false)
    (hmetadata : b ∉ s.object.payload.metadata ++ chainBlocks s.object.checksums)
    (hdata : Referenced s.others b ∨ ¬Referenced s.object.payload.extentList b) (hrun : act.run s = (.ok (), t)) :
    covers t.freed b = false ∧ (act.remains = true →
      b ∉ t.object.payload.metadata ++ chainBlocks t.object.checksums ∧
        (¬Referenced s.others b → ¬Referenced t.object.payload.extentList b)) := by
  let c := sparedLedger s b hshared hhanded
  have hweight : Referenced s.others b → c.weight = 0 := fun h => if_pos h
  have hweight' : ¬Referenced s.others b → c.weight = 1 := fun h => if_neg h
  have hstart : Owns c 0 s := by
    refine ⟨s.object, rfl, rfl, rfl, rfl, ?_, ?_⟩
    · have hgone : s.gone b = 0 := by
        rw [FileState.gone, hfreed]
        rfl
      rw [List.mem_append, not_or, ← List.count_eq_zero, ← List.count_eq_zero] at hmetadata
      have hdata : c.data s.object.payload.extentList = 0 := by
        rw [Ledger.data, Nat.mul_eq_zero]
        rcases hdata with hothers | hnone
        · exact .inl (hweight hothers)
        · rw [referenced_iff, Nat.pos_iff_ne_zero, not_not] at hnone
          exact .inr hnone
      show s.gone b + (0 + c.held s.object) ≤ 0
      rw [hgone, Ledger.held, hdata, show c.block = b from rfl, hmetadata.1, hmetadata.2]
    · rintro ⟨n, _, hn⟩
      cases (hhanded n).symm.trans hn
  obtain ⟨o, ho⟩ := (triple_act act s hstart).1 () t hrun
  have henough : t.gone b + (if act.remains = true then c.held o else 0) ≤ 0 := ho.enough
  constructor
  · rw [← Bool.not_eq_true]
    intro hcovers
    rw [FileState.gone, if_pos hcovers] at henough
    omega
  · intro hremains
    rw [if_pos hremains, Ledger.held, show c.block = b from rfl] at henough
    rw [ho.object, List.mem_append, not_or, ← List.count_eq_zero, ← List.count_eq_zero]
    refine ⟨by omega, fun hothers => ?_⟩
    rw [referenced_iff]
    have hdata : c.data o.payload.extentList = useCount b o.payload.extentList := by
      rw [Ledger.data, hweight' hothers, Nat.one_mul]
      rfl
    omega

end Acts

end InfiltratorFS.File
