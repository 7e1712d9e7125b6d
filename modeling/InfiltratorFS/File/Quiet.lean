import InfiltratorFS.File.Mutators
import InfiltratorFS.Library.Triple

namespace InfiltratorFS.File

open Prog Segment

structure FileState.Same (s t : FileState) : Prop where
  env : t.env = s.env
  events : t.events = s.events
  payload : t.object.payload = s.object.payload

theorem FileState.Same.refl (s : FileState) : s.Same s := ⟨rfl, rfl, rfl⟩

theorem FileState.Same.trans {s t u : FileState} (h : s.Same t) (h' : t.Same u) : s.Same u :=
  ⟨h'.env.trans h.env, h'.events.trans h.events, h'.payload.trans h.payload⟩

/-- A program that leaves the extents alone and never refuses them: it fails
with `INFS_STATUS_NOT_SUPPORTED` only where a call has answered so. -/
def Quiet {α : Type} (x : FileM α) : Prop :=
  ∀ s, s.Same (x s).2 ∧ ((x s).1 = .error .notSupported → ∃ t, (s.env t).status = .notSupported)

section Rules

variable {α β : Type}

theorem quiet_pure (a : α) : Quiet (pure a : FileM α) :=
  fun s => ⟨.refl s, fun h => nomatch h⟩

theorem quiet_get : Quiet (get : FileM FileState) :=
  fun s => ⟨.refl s, fun h => nomatch h⟩

theorem quiet_fail {e : Status} (he : e ≠ .notSupported) : Quiet (fail e : FileM α) := by
  intro s
  refine ⟨.refl s, fun h => ?_⟩
  cases h
  exact absurd rfl he

theorem quiet_ofExcept {r : Except Status α} (hr : r ≠ .error .notSupported) : Quiet (ofExcept r : FileM α) := by
  intro s
  rw [ofExcept_apply]
  exact ⟨.refl s, fun h => absurd h hr⟩

theorem quiet_modify {f : FileState → FileState} (hf : ∀ s : FileState, s.Same (f s)) : Quiet (modify f) :=
  fun s => ⟨hf s, fun h => nomatch h⟩

theorem quiet_bind {x : FileM α} {f : α → FileM β} (hx : Quiet x) (hf : ∀ a, Quiet (f a)) : Quiet (x >>= f) := by
  intro s
  obtain ⟨hsame, herror⟩ := hx s
  rcases hrun : x s with ⟨e | a, t⟩
  · rw [bind_of_error hrun]
    rw [hrun] at hsame herror
    exact ⟨hsame, fun h => herror (by cases h; rfl)⟩
  · rw [bind_of_ok hrun]
    rw [hrun] at hsame
    obtain ⟨hsame', herror'⟩ := hf a t
    refine ⟨hsame.trans hsame', fun h => ?_⟩
    obtain ⟨i, hi⟩ := herror' h
    exact ⟨i, by rwa [hsame.env] at hi⟩

end Rules

def Answer.run (a : Answer) : Segment := ⟨max 1 a.block, max 1 a.count⟩

/-- Everything an operation does to its state. It takes what the allocator
offers, and it writes only to what it has taken. -/
inductive FileStep : FileState → FileState → Prop
  | answer (s : FileState) : FileStep s { s with tick := s.tick + 1 }
  | change (s : FileState) (object : FileObject) : FileStep s { s with object := object }
  | note (s : FileState) (event : FileEvent) : FileStep s { s with events := s.events ++ [event] }
  | allocate (s : FileState) (n : Nat) (run : Segment)
      (hrun : ∀ b, run.contains b = true → (s.env n).run.contains b = true) :
      FileStep s { s with allocated := s.allocated ++ [run] }
  | free (s : FileState) (run : Segment) : FileStep s { s with freed := s.freed ++ [run] }
  | write (s : FileState) (run : Segment) (hrun : ∀ b, run.contains b = true → covers s.allocated b = true) :
      FileStep s { s with written := s.written ++ [run] }

abbrev FileSteps := Relation.ReflTransGen FileStep

/-- A program that is made of these steps, whether it succeeds or fails. -/
def Walks {α : Type} (x : FileM α) : Prop := ∀ s, FileSteps s (x s).2

section Rules

variable {α β : Type}

theorem walks_pure (a : α) : Walks (pure a : FileM α) := fun _ => .refl

theorem walks_fail (e : Status) : Walks (fail e : FileM α) := fun _ => .refl

theorem walks_get : Walks (get : FileM FileState) := fun _ => .refl

theorem walks_ofExcept (r : Except Status α) : Walks (ofExcept r : FileM α) := by
  intro s
  rw [ofExcept_apply]

theorem steps_bind {x : FileM α} {f : α → FileM β} {s : FileState} (hx : FileSteps s (x s).2)
    (hf : ∀ a t, x s = (.ok a, t) → FileSteps t (f a t).2) : FileSteps s ((x >>= f) s).2 := by
  rcases hrun : x s with ⟨e | a, t⟩
  · rw [hrun] at hx
    rwa [bind_of_error hrun]
  · rw [hrun] at hx
    rw [bind_of_ok hrun]
    exact hx.trans (hf a t hrun)

theorem walks_bind {x : FileM α} {f : α → FileM β} (hx : Walks x) (hf : ∀ a, Walks (f a)) : Walks (x >>= f) :=
  fun s => steps_bind (hx s) fun a t _ => hf a t

theorem walks_modify {f : FileState → FileState} (hf : ∀ s, FileStep s (f s)) : Walks (modify f) :=
  fun s => .single (hf s)

theorem walks_change {f : FileState → FileState} (hf : ∀ s, f s = { s with object := (f s).object }) : Walks (modify f) := by
  apply walks_modify
  intro s
  rw [hf s]
  exact .change s _

theorem walks_when {p : Prop} [Decidable p] {x : FileM Unit} {f : Unit → FileM β} (hx : Walks x) (hf : ∀ u, Walks (f u)) :
    Walks (if p then x >>= f else pure () >>= f) :=
  of_ite (walks_bind hx hf) (walks_bind (walks_pure ()) hf)

theorem request_state (s : FileState) : (request s).2 = { s with tick := s.tick + 1 } := by
  rw [request]
  split <;> rfl

theorem walks_request : Walks request := by
  intro s
  rw [request_state]
  exact .single (.answer s)

theorem walks_call : Walks call := walks_bind walks_request fun _ => walks_pure ()

theorem walks_note (event : FileEvent) : Walks (note event) := walks_modify fun s => .note s event

theorem walks_finalize : Walks objectFinalize := walks_change fun _ => rfl

end Rules

structure Tame {α : Type} (x : FileM α) : Prop where
  quiet : Quiet x
  walks : Walks x

section Rules

variable {α β : Type} {x y : FileM α}

theorem tame_pure (a : α) : Tame (pure a : FileM α) := ⟨quiet_pure a, walks_pure a⟩

theorem tame_get : Tame (get : FileM FileState) := ⟨quiet_get, walks_get⟩

theorem tame_fail {e : Status} (he : e ≠ .notSupported) : Tame (fail e : FileM α) := ⟨quiet_fail he, walks_fail e⟩

theorem tame_bind {f : α → FileM β} (hx : Tame x) (hf : ∀ a, Tame (f a)) : Tame (x >>= f) :=
  ⟨quiet_bind hx.quiet fun a => (hf a).quiet, walks_bind hx.walks fun a => (hf a).walks⟩

theorem tame_change {f : FileState → FileState} (hf : ∀ s, f s = { s with object := (f s).object })
    (hpayload : ∀ s : FileState, (f s).object.payload = s.object.payload) : Tame (modify f) :=
  ⟨quiet_modify fun s => ⟨by rw [hf s], by rw [hf s], hpayload s⟩, walks_change hf⟩

/-- A program that only looks at the file and asks for answers. -/
structure Reads (x : FileM α) : Prop where
  quiet : Quiet x
  ticks : ∀ s, ∃ n, (x s).2 = { s with tick := s.tick + n }

theorem Reads.walks (h : Reads x) : Walks x := by
  intro s
  obtain ⟨n, hn⟩ := h.ticks s
  rw [hn]
  clear hn
  induction n with
  | zero => exact .refl
  | succ n ih => exact ih.tail (.answer _)

theorem Reads.tame (h : Reads x) : Tame x := ⟨h.quiet, h.walks⟩

theorem reads_pure (a : α) : Reads (pure a : FileM α) := ⟨quiet_pure a, fun _ => ⟨0, rfl⟩⟩

theorem reads_get : Reads (get : FileM FileState) := ⟨quiet_get, fun _ => ⟨0, rfl⟩⟩

theorem reads_fail {e : Status} (he : e ≠ .notSupported) : Reads (fail e : FileM α) := ⟨quiet_fail he, fun _ => ⟨0, rfl⟩⟩

theorem reads_bind {f : α → FileM β} (hx : Reads x) (hf : ∀ a, Reads (f a)) : Reads (x >>= f) := by
  refine ⟨quiet_bind hx.quiet fun a => (hf a).quiet, fun s => ?_⟩
  obtain ⟨n, hn⟩ := hx.ticks s
  rcases hrun : x s with ⟨e | a, t⟩
  · rw [bind_of_error hrun]
    exact ⟨n, by rw [← hn, hrun]⟩
  · rw [bind_of_ok hrun]
    obtain ⟨m, hm⟩ := (hf a).ticks t
    obtain rfl : t = { s with tick := s.tick + n } := by rw [← hn, hrun]
    exact ⟨n + m, by rw [hm, Nat.add_assoc]⟩

end Rules

section Requests

theorem quiet_request : Quiet request := by
  intro s
  simp only [request]
  split
  · exact ⟨⟨rfl, rfl, rfl⟩, fun h => nomatch h⟩
  · refine ⟨⟨rfl, rfl, rfl⟩, fun h => ⟨s.tick, ?_⟩⟩
    simpa using h

theorem reads_request : Reads request := ⟨quiet_request, fun s => ⟨1, request_state s⟩⟩

theorem reads_call : Reads call := reads_bind reads_request fun _ => reads_pure ()

theorem tame_call : Tame call := reads_call.tame

variable (run : Segment)

theorem quiet_writeBlocks : Quiet (writeBlocks run) :=
  quiet_bind (quiet_modify fun _ => ⟨rfl, rfl, rfl⟩) fun _ => tame_call.quiet

variable {s t : FileState}

theorem request_ok {answer : Answer} (h : request s = (.ok answer, t)) :
    answer = s.env s.tick ∧ t = { s with tick := s.tick + 1 } := by
  rw [request] at h
  split at h
  · cases h
    exact ⟨rfl, rfl⟩
  · cases h

theorem allocRun_ok {wanted : Nat} {run : Segment} (h : allocRun wanted s = (.ok run, t)) :
    t.allocated = s.allocated ++ [run] ∧ ∀ b, run.contains b = true → (s.env s.tick).run.contains b = true := by
  obtain ⟨answer, u, hu, hrest⟩ := bind_eq_ok.mp h
  obtain ⟨rfl, rfl⟩ := request_ok hu
  cases hrest
  refine ⟨rfl, fun b hb => ?_⟩
  simp only [contains_iff, Segment.stop, Answer.run] at hb ⊢
  omega

theorem tame_allocRun (wanted : Nat) : Tame (allocRun wanted) := by
  refine ⟨quiet_bind quiet_request fun _ => quiet_bind (quiet_modify fun _ => ⟨rfl, rfl, rfl⟩) fun _ => quiet_pure _, fun s => ?_⟩
  apply steps_bind (walks_request s)
  intro answer t h
  obtain ⟨rfl, rfl⟩ := request_ok h
  refine .single (.allocate _ s.tick _ fun b hb => ?_)
  simp only [contains_iff, Segment.stop, Answer.run] at hb ⊢
  omega

theorem covers_append_self (runs : List Segment) {run : Segment} {b : Nat} (hb : run.contains b = true) :
    covers (runs ++ [run]) b = true := by
  rw [covers_append, covers_cons, hb]
  simp

theorem allocBlock_ok {block : Nat} (h : allocBlock s = (.ok block, t)) :
    ∀ b, (Segment.mk block 1).contains b = true → covers t.allocated b = true := by
  obtain ⟨run, u, hu, hrest⟩ := bind_eq_ok.mp h
  have hallocated := (allocRun_ok hu).1
  obtain ⟨hcount, hrest⟩ := guard_eq_ok.mp hrest
  cases hrest
  intro b hb
  rw [hallocated]
  apply covers_append_self
  rwa [← not_not.mp hcount] at hb

theorem tame_allocBlock : Tame allocBlock :=
  tame_bind (tame_allocRun 1) fun _ => of_ite (tame_fail (by decide)) (tame_pure _)

theorem steps_writeBlocks {run : Segment} (hrun : ∀ b, run.contains b = true → covers s.allocated b = true) :
    FileSteps s (writeBlocks run s).2 :=
  .head (.write s run hrun) (tame_call.walks _)

theorem walks_allocWrite {α : Type} {f : Nat → FileM α} (hf : ∀ block, Walks (f block)) : Walks (do
    let block ← allocBlock
    writeBlocks ⟨block, 1⟩
    f block) :=
  fun s => steps_bind (tame_allocBlock.walks s) fun block _ h =>
    steps_bind (steps_writeBlocks (allocBlock_ok h)) fun _ u _ => hf block u

theorem tame_freeRun : Tame (freeRun run) :=
  tame_bind ⟨quiet_modify fun _ => ⟨rfl, rfl, rfl⟩, walks_modify fun s => .free s run⟩ fun _ => tame_call

theorem tame_freeUnsharedLoop (cursor stop : Nat) : Tame (freeUnsharedLoop fileOtherReferenceCover freeRun cursor stop) := by
  fun_induction freeUnsharedLoop fileOtherReferenceCover freeRun cursor stop with
  | case1 cursor h ihCover ihNext =>
    refine tame_bind (tame_bind tame_call fun _ => tame_bind tame_get fun _ => tame_pure _) fun found => ?_
    split
    · exact ihCover found ‹_›
    · split
      · exact tame_fail (by decide)
      · exact tame_bind (tame_freeRun _) fun _ => ihNext found ‹_›
  | case2 => exact tame_pure ()

theorem tame_fileFreeUnsharedRun : Tame (fileFreeUnsharedRun run) := by
  refine tame_bind tame_get fun s => of_ite (tame_pure ()) (of_ite (tame_freeRun run) ?_)
  cases addChecked run.start run.count with
  | none => exact tame_fail (by decide)
  | some stop => exact tame_freeUnsharedLoop _ _

theorem tame_freeRuns (runs : List Segment) : Tame (freeRuns runs) := by
  induction runs with
  | nil => exact tame_pure ()
  | cons run runs ih => exact tame_bind (tame_fileFreeUnsharedRun run) fun _ => ih

theorem tame_compressionAllocDataExact (wanted : Nat) : Tame (compressionAllocDataExact wanted) :=
  of_ite (tame_fail (by decide)) (tame_bind (tame_allocRun wanted) fun _ =>
    of_ite (tame_bind (tame_freeRun _) fun _ => tame_fail (by decide)) (tame_pure _))

theorem compressionAllocDataExact_ok {wanted physical : Nat}
    (h : compressionAllocDataExact wanted s = (.ok physical, t)) :
    ∀ b, (Segment.mk physical wanted).contains b = true → covers t.allocated b = true := by
  rw [compressionAllocDataExact] at h
  obtain ⟨-, h⟩ := guard_eq_ok.mp h
  obtain ⟨run, u, hu, hrest⟩ := bind_eq_ok.mp h
  have hallocated := (allocRun_ok hu).1
  split at hrest
  · obtain ⟨_, _, _, hfail⟩ := bind_eq_ok.mp hrest
    cases hfail
  · rename_i hcount
    cases hrest
    intro b hb
    rw [hallocated]
    apply covers_append_self
    rwa [← not_not.mp hcount] at hb

theorem walks_allocWriteExact {α : Type} {wanted : Nat} {f : Nat → FileM α} (hf : ∀ physical, Walks (f physical)) : Walks (do
    let physical ← compressionAllocDataExact wanted
    if 2 ^ 64 ≤ physical * blockSize then fail .overflow
    else do
      writeBlocks ⟨physical, wanted⟩
      f physical) := by
  intro s
  apply steps_bind ((tame_compressionAllocDataExact wanted).walks s)
  intro physical t h
  split
  · exact .refl
  · exact steps_bind (steps_writeBlocks (compressionAllocDataExact_ok h)) fun _ u _ => hf physical u

theorem tame_checksumInsert (start : Nat) (chain : List ChecksumObject) : Tame (checksumInsert start chain) := by
  induction chain with
  | nil => exact tame_bind tame_allocBlock fun _ => tame_pure _
  | cons c chain ih =>
    exact of_ite (tame_pure _) (of_ite (tame_bind tame_allocBlock fun _ => tame_pure _)
      (tame_bind ih fun _ => tame_pure _))

theorem tame_checksumSetObject (start : Nat) : Tame (checksumSetObject start) :=
  tame_bind tame_get fun _ => tame_bind (tame_checksumInsert _ _) fun _ =>
    tame_bind tame_call fun _ => tame_change (fun _ => rfl) fun _ => rfl

theorem tame_checksumDestroyLoop (guard : Nat) (chain : List ChecksumObject) :
    Tame (checksumDestroyLoop guard chain) := by
  induction chain generalizing guard with
  | nil =>
    cases guard with
    | zero => exact tame_pure ()
    | succ guard => exact tame_pure ()
  | cons c chain ih =>
    cases guard with
    | zero => exact tame_fail (by decide)
    | succ guard => exact tame_bind tame_call fun _ => tame_bind (tame_freeRun _) fun _ => ih guard

theorem tame_checksumDestroyChain : Tame checksumDestroyChain :=
  tame_bind tame_get fun _ => tame_bind (tame_checksumDestroyLoop _ _) fun _ => tame_change (fun _ => rfl) fun _ => rfl

theorem tame_destroyChecksums : Tame destroyChecksums :=
  tame_bind tame_get fun _ => of_ite (tame_pure ()) tame_checksumDestroyChain

theorem tame_objectFinalize : Tame objectFinalize := tame_change (fun _ => rfl) fun _ => rfl

theorem reads_fileValidateVolume : Reads fileValidateVolume := by
  have hcheck : Reads checkFinalized := by
    refine ⟨fun s => ?_, fun s => ⟨1, ?_⟩⟩
    · simp only [checkFinalized]
      split
      · exact ⟨⟨rfl, rfl, rfl⟩, fun h => nomatch h⟩
      · exact ⟨⟨rfl, rfl, rfl⟩, fun h => by cases h⟩
    · rw [checkFinalized]
      split <;> rfl
  exact reads_bind hcheck fun _ => reads_bind reads_get fun _ => of_ite (reads_fail (by decide))
    (of_ite (reads_fail (by decide)) (of_ite (reads_fail (by decide)) reads_call))

end Requests

section Pages

theorem reads_pagedExtentSnapshotLoop (next : Nat) (pages : List ExtentPage) :
    Reads (pagedExtentSnapshotLoop next pages) := by
  induction pages generalizing next with
  | nil => exact reads_pure next
  | cons page pages ih =>
    exact reads_bind reads_call fun _ => reads_bind reads_get fun _ =>
      of_ite (reads_fail (by decide)) (ih _)

theorem reads_pagedExtentSnapshot : Reads pagedExtentSnapshot :=
  reads_bind reads_call fun _ => reads_bind reads_get fun _ =>
    reads_bind (reads_pagedExtentSnapshotLoop _ _) fun _ => of_ite (reads_fail (by decide)) (reads_pure _)

theorem reads_pagedExtentLoadPage (index : Nat) : Reads (pagedExtentLoadPage index) := by
  refine reads_bind reads_call fun _ => reads_bind reads_get fun s => ?_
  cases s.object.payload.pageList[index]? with
  | none => exact reads_fail (by decide)
  | some page => exact of_ite (reads_fail (by decide)) (reads_pure _)

theorem reads_pagedExtentFindPage (logical lo hi : Nat) : Reads (pagedExtentFindPage logical lo hi) := by
  fun_induction pagedExtentFindPage logical lo hi with
  | case1 lo hi _ _ ihLow ihHigh =>
    exact reads_bind (reads_pagedExtentLoadPage _) fun _ => of_ite ihLow (of_ite ihHigh (reads_pure _))
  | case2 => exact reads_fail (by decide)

variable (logical : Nat)

theorem reads_lookupEntries : Reads (lookupEntries logical) :=
  reads_bind reads_get fun _ => of_ite
    (reads_bind reads_get fun _ => reads_pagedExtentFindPage _ _ _) (reads_pure _)

theorem reads_fileMapBlock : Reads (fileMapBlock logical) := by
  refine reads_bind reads_get fun s => reads_bind (reads_lookupEntries logical) fun entries => ?_
  cases entries.find? (holds logical) with
  | none => exact reads_fail (by decide)
  | some e => exact of_ite (reads_bind reads_call fun _ => reads_pure _) (reads_pure _)

theorem extentLookup_ne (entries : List Extent) :
    extentLookup logical entries ≠ .error .notSupported := by
  induction entries with
  | nil => simp [extentLookup]
  | cons e es ih =>
    rw [extentLookup]
    cases addChecked e.logicalBlock e.blockCount with
    | none => simp
    | some stop =>
      simp only
      split
      · simp
      · exact ih

theorem reads_fileExtentLookup : Reads (fileExtentLookup logical) :=
  reads_bind (reads_lookupEntries logical) fun entries => by
    refine ⟨quiet_ofExcept (extentLookup_ne logical entries), fun s => ⟨0, ?_⟩⟩
    rw [ofExcept_apply]
    rfl

theorem reads_holeBlocks : Reads (holeBlocks logical) := by
  refine reads_bind (reads_lookupEntries logical) fun entries => ?_
  cases entries.find? (holds logical) with
  | none => exact reads_pure 0
  | some e => exact of_ite (reads_fail (by decide)) (reads_pure _)

theorem reads_fileExtentSnapshot : Reads fileExtentSnapshot :=
  reads_bind reads_get fun _ => of_ite reads_pagedExtentSnapshot (reads_pure _)

theorem reads_fileLogicalBlocksVolume : Reads fileLogicalBlocksVolume :=
  reads_bind reads_get fun _ => of_ite (reads_bind reads_pagedExtentSnapshot fun _ => reads_pure _)
    (reads_bind (reads_pure _) fun _ => reads_pure _)

theorem reads_fileAllocatedBlocksVolume : Reads fileAllocatedBlocksVolume :=
  reads_bind reads_get fun _ => of_ite (reads_bind reads_pagedExtentSnapshot fun _ => reads_pure _)
    (reads_bind (reads_pure _) fun _ => reads_pure _)

variable (old : Option Nat)

theorem quiet_metadataPageStore : Quiet (metadataPageStore old) := by
  refine quiet_bind quiet_get fun s => ?_
  cases old with
  | none => exact quiet_bind tame_allocBlock.quiet fun _ => quiet_bind (quiet_writeBlocks _) fun _ => quiet_pure _
  | some block =>
    exact of_ite (quiet_bind (quiet_writeBlocks _) fun _ => quiet_pure _) (quiet_bind tame_allocBlock.quiet fun _ =>
      quiet_bind (quiet_writeBlocks _) fun _ => quiet_bind (tame_freeRun _).quiet fun _ => quiet_pure _)

theorem walks_metadataPageStore : Walks (metadataPageStore old) := by
  intro s
  apply steps_bind (walks_get s)
  rintro u t ⟨⟩
  cases old with
  | none => exact walks_allocWrite (fun _ => walks_pure _) s
  | some block =>
    dsimp only
    split
    · rename_i hprivate
      refine steps_bind (steps_writeBlocks fun b hb => ?_) fun _ u _ => walks_pure _ u
      rw [contains_iff, Segment.stop] at hb
      obtain rfl : b = block := by
        dsimp only at hb
        omega
      exact hprivate
    · exact walks_allocWrite (fun _ => walks_bind (tame_freeRun _).walks fun _ => walks_pure _) s

theorem tame_metadataPageStore : Tame (metadataPageStore old) :=
  ⟨quiet_metadataPageStore old, walks_metadataPageStore old⟩

theorem tame_storePages (old : List Nat) (pages : List (List Extent)) : Tame (storePages old pages) := by
  induction pages generalizing old with
  | nil => exact tame_pure []
  | cons entries rest ih =>
    exact tame_bind tame_call fun _ => tame_bind (tame_metadataPageStore _) fun _ =>
      tame_bind (ih _) fun _ => tame_pure _

theorem tame_storeIndexPages (n : Nat) : Tame (storeIndexPages n) := by
  induction n with
  | zero => exact tame_pure []
  | succ n ih => exact tame_bind (tame_metadataPageStore none) fun _ => tame_bind ih fun _ => tame_pure _

theorem tame_extentPointerTreeBuild (fuel count : Nat) : Tame (extentPointerTreeBuild fuel count) := by
  induction fuel generalizing count with
  | zero => exact tame_fail (by decide)
  | succ fuel ih =>
    exact tame_bind tame_call fun _ => tame_bind (tame_storeIndexPages _) fun _ =>
      of_ite (tame_pure _) (tame_bind (ih _) fun _ => tame_pure _)

theorem tame_freeEach {before : FileM Unit} (h : Tame before) (blocks : List Nat) : Tame (freeEach before blocks) := by
  induction blocks with
  | nil => exact tame_pure ()
  | cons block blocks ih => exact tame_bind h fun _ => tame_bind (tame_freeRun _) fun _ => ih

theorem tame_pagedExtentDestroyPages : Tame pagedExtentDestroyPages :=
  tame_bind tame_get fun _ => of_ite (tame_pure ()) (tame_bind tame_call fun _ =>
    tame_bind (tame_freeEach (tame_pure ()) _) fun _ => tame_freeEach tame_call _)

theorem tame_fileReleaseExternalStorage : Tame fileReleaseExternalStorage :=
  tame_bind reads_fileValidateVolume.tame fun _ => tame_bind tame_destroyChecksums fun _ =>
    tame_bind reads_fileExtentSnapshot.tame fun _ => tame_bind (tame_freeRuns _) fun _ => tame_pagedExtentDestroyPages

end Pages

section Contents

theorem tame_storePayload (blocks : Nat) : Tame (storePayload blocks) :=
  ⟨quiet_bind (tame_compressionAllocDataExact _).quiet fun _ => of_ite (quiet_fail (by decide))
    (quiet_bind (quiet_writeBlocks _) fun _ => quiet_pure _), walks_allocWriteExact fun _ => walks_pure _⟩

theorem tame_fileStoreExtentPayload (blocks : Nat) : Tame (fileStoreExtentPayload blocks) := by
  have hbytes : Tame (compressedBytes blocks) := tame_bind tame_get fun _ =>
    of_ite (tame_bind reads_request.tame fun _ => tame_pure _) (tame_pure 0)
  exact of_ite (tame_fail (by decide)) (tame_bind hbytes fun _ => of_ite
    (tame_bind (tame_storePayload _) fun _ => tame_pure _) (tame_bind (tame_storePayload _) fun _ => tame_pure _))

theorem tame_dropUnusedChecksums : Tame dropUnusedChecksums :=
  tame_bind reads_fileAllocatedBlocksVolume.tame fun _ => of_ite tame_destroyChecksums (tame_pure ())

end Contents

section Composition

/-- A property of programs that a program has because its parts have it. -/
structure Builds (C : ∀ {α : Type}, FileM α → Prop) : Prop where
  pure : ∀ {α : Type} (a : α), C (Pure.pure a : FileM α)
  bind : ∀ {α β : Type} {x : FileM α} {f : α → FileM β}, C x → (∀ a, C (f a)) → C (x >>= f)
  reads : ∀ {α : Type} {x : FileM α}, Reads x → C x
  finalize : C objectFinalize
  checksumSetObject : ∀ start, C (checksumSetObject start)

namespace Builds

variable {C : ∀ {α : Type}, FileM α → Prop} (hC : Builds C)

include hC

theorem call : C File.call := hC.reads reads_call

theorem validate : C fileValidateVolume := hC.reads reads_fileValidateVolume

theorem when {p : Prop} [Decidable p] {x : FileM Unit} {f : Unit → FileM Unit} (hx : C x) (hf : ∀ u, C (f u)) :
    C (if p then x >>= f else Pure.pure () >>= f) :=
  of_ite (hC.bind hx hf) (hC.bind (hC.pure ()) hf)

theorem checksumSetRange (logical count : Nat) : C (checksumSetRange logical count) := by
  fun_induction File.checksumSetRange logical count with
  | case1 => exact hC.pure ()
  | case2 logical count _ _ _ ih => exact hC.bind (hC.checksumSetObject _) fun _ => ih

theorem digestLoop (logical count : Nat) : C (digestLoop logical count) := by
  fun_induction File.digestLoop logical count with
  | case1 => exact hC.pure ()
  | case2 logical count _ ih => exact hC.bind (hC.checksumSetRange _ _) fun _ => ih

theorem pushDigest (logical : Nat) (pending : Pending) : C (pushDigest logical pending) := by
  have hpush (p : Pending) : C (if p.2 = checksumsPerObject then do
      flushPending p
      Pure.pure (p.1, 0)
    else Pure.pure p) :=
    of_ite (hC.bind (hC.checksumSetRange _ _) fun _ => hC.pure _) (hC.pure _)
  exact of_ite (hC.bind (hC.checksumSetRange _ _) fun _ => hpush _) (hpush _)

theorem storeInlineObject : C storeInlineObject :=
  hC.bind hC.call fun _ => hC.bind hC.finalize fun _ => hC.bind hC.validate fun _ => hC.call

end Builds

theorem builds_tame : Builds Tame where
  pure := tame_pure
  bind := tame_bind
  reads := Reads.tame
  finalize := tame_objectFinalize
  checksumSetObject := tame_checksumSetObject

end Composition

end InfiltratorFS.File
