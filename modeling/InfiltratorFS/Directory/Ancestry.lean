import InfiltratorFS.Directory.Transaction

namespace InfiltratorFS.Directory

open Prog

section Tree

/-- The directory has an entry for the child, which is a directory too. -/
def Graph.Holds (g : Graph) (d child : ObjectId) : Prop :=
  ∃ body e, g.directory d = some body ∧ e ∈ body.entries ∧ e.objectId = child ∧ e.objectType = .directory

/-- The directories of a subtree, its top included. -/
inductive Graph.Inside (g : Graph) (top : ObjectId) : ObjectId → Prop
  | self : Graph.Inside g top top
  | entry {d child : ObjectId} (h : Graph.Inside g top d) (hchild : g.Holds d child) : Graph.Inside g top child

inductive Graph.Depth (g : Graph) (root : ObjectId) : ObjectId → Nat → Prop
  | root : Graph.Depth g root root 0
  | entry {d child : ObjectId} {n : Nat} (h : Graph.Depth g root d n) (hchild : g.Holds d child) :
      Graph.Depth g root child (n + 1)

/-- What `validate_namespace_graph` makes sure of the directories: the root has
no name, the parent of every other one is the directory that has its name, and
all of them are reached from the root. -/
structure ValidNamespace (g : Graph) (root : ObjectId) : Prop where
  root_unnamed : ∀ d, ¬g.Holds d root
  parent : ∀ d child, g.Holds d child → ∃ node, g child = some node ∧ node.parentId = some d
  reachable : ∀ id body, g.directory id = some body → g.Inside root id

variable {g : Graph} {root top : ObjectId}

theorem Graph.Inside.depth {id : ObjectId} (h : g.Inside root id) : ∃ n, g.Depth root id n := by
  induction h with
  | self => exact ⟨0, .root⟩
  | entry _ hchild ih =>
    obtain ⟨n, hn⟩ := ih
    exact ⟨n + 1, .entry hn hchild⟩

theorem ValidNamespace.inside_child (hvalid : ValidNamespace g root) {d child : ObjectId} (hchild : g.Holds d child)
    (hne : child ≠ top) : g.Inside top child ↔ g.Inside top d := by
  constructor
  · intro h
    cases h with
    | self => exact absurd rfl hne
    | entry hd hholds =>
      obtain ⟨node, hnode, hparent⟩ := hvalid.parent _ _ hchild
      obtain ⟨node', hnode', hparent'⟩ := hvalid.parent _ _ hholds
      rw [hnode] at hnode'
      cases hnode'
      rw [hparent] at hparent'
      cases hparent'
      exact hd
  · intro h
    exact h.entry hchild

theorem ValidNamespace.not_inside_root (hvalid : ValidNamespace g root) (hne : root ≠ top) : ¬g.Inside top root := by
  intro h
  cases h with
  | self => exact hne rfl
  | entry _ hholds => exact hvalid.root_unnamed _ hholds

end Tree

section Walk

/-- What a walk of a number of steps can say of a directory at a depth. -/
def Verdict (g : Graph) (top id : ObjectId) (n fuel : Nat) (r : Except Status Bool) : Prop :=
  (¬g.Inside top id → r = if n < fuel then .ok false else .error .loopDetected) ∧
    (g.Inside top id → r = .ok true ∨ r = .error .loopDetected)

variable {s : Live} {top id : ObjectId} {n fuel : Nat}

theorem verdict_exhausted {g : Graph} : Verdict g top id n 0 (.error .loopDetected) :=
  ⟨fun _ => (if_neg (Nat.not_lt_zero n)).symm, fun _ => .inr rfl⟩

theorem verdict_found {g : Graph} : Verdict g top top n fuel (.ok true) :=
  ⟨fun h => absurd .self h, fun _ => .inl rfl⟩

theorem verdict_up {g : Graph} {d child : ObjectId} {r : Except Status Bool}
    (hinside : g.Inside top child ↔ g.Inside top d) (h : Verdict g top d n fuel r) : Verdict g top child (n + 1) (fuel + 1) r := by
  refine ⟨fun hnot => ?_, fun hchild => h.2 (hinside.mp hchild)⟩
  simp only [Nat.add_lt_add_iff_right]
  exact h.1 fun hd => hnot (hinside.mpr hd)

section

variable (s : Live) (n : Nat)

def Live.ticked : Live := { s with tick := n }

@[simp] theorem ticked_env : (s.ticked n).env = s.env := rfl

@[simp] theorem ticked_cache : (s.ticked n).cache = s.cache := rfl

@[simp] theorem ticked_objects : (s.ticked n).objects = s.objects := rfl

@[simp] theorem ticked_rootId : (s.ticked n).rootId = s.rootId := rfl

@[simp] theorem ticked_casefold : (s.ticked n).casefold = s.casefold := rfl

@[simp] theorem ticked_tick : (s.ticked n).tick = n := rfl

@[simp] theorem ticked_ticked (m : Nat) : (s.ticked n).ticked m = s.ticked m := rfl

end

section

variable (h : ∀ t, (s.env t).status = .ok)

include h

theorem request_calm (n : Nat) :
    request (s.ticked n) = (.ok (s.env n), s.ticked (n + 1)) := by
  rw [request]
  simp only [ticked_env, ticked_tick, h n, if_pos]
  rfl

theorem call_calm (n : Nat) : call (s.ticked n) = (.ok (), s.ticked (n + 1)) := by
  rw [call, bind_of_ok (request_calm h n)]
  rfl

theorem indexFind_calm (n : Nat) {node : Node}
    (hnode : s.objects id = some node) : indexFind id (s.ticked n) = (.ok node, s.ticked (n + 1)) := by
  rw [indexFind, bind_of_ok (call_calm h n), bind_of_ok (get_apply _)]
  simp only [ticked_objects, hnode]
  rfl

end

/-- The walk over the parents, by induction on the depth: a step up is a step
of the walk. -/
theorem idIsAncestor_verdict (hvalid : ValidNamespace s.objects s.rootId) (hcalm : ∀ t, (s.env t).status = .ok)
    (top : ObjectId) (hdepth : s.objects.Depth s.rootId id n) (fuel tick : Nat) :
    Verdict s.objects top id n fuel (idIsAncestor top fuel id (s.ticked tick)).1 := by
  induction hdepth generalizing fuel tick with
  | root =>
    cases fuel with
    | zero => exact verdict_exhausted
    | succ fuel =>
      rw [idIsAncestor, bind_of_ok (get_apply _)]
      by_cases htop : s.rootId = top
      · subst htop
        rw [if_pos rfl]
        exact verdict_found
      · rw [if_neg htop, ticked_rootId, if_pos rfl]
        have houtside := hvalid.not_inside_root htop
        exact ⟨fun _ => (if_pos (Nat.succ_pos fuel)).symm, fun h => absurd h houtside⟩
  | entry _ hchild ih =>
    rename_i d child n _
    cases fuel with
    | zero => exact verdict_exhausted
    | succ fuel =>
      rw [idIsAncestor, bind_of_ok (get_apply _)]
      by_cases htop : child = top
      · subst htop
        rw [if_pos rfl]
        exact verdict_found
      · have hroot : child ≠ s.rootId := by
          rintro rfl
          exact hvalid.root_unnamed _ hchild
        obtain ⟨node, hnode, hparent⟩ := hvalid.parent _ _ hchild
        rw [if_neg htop, ticked_rootId, if_neg hroot, bind_of_ok (indexFind_calm hcalm tick hnode)]
        simp only [hparent]
        have hup := ih fuel (tick + 1)
        exact verdict_up (hvalid.inside_child hchild htop) hup

end Walk

section SameGraph

def SameGraph (s t : Live) : Prop := t.objects = s.objects ∧ t.rootId = s.rootId ∧ t.env = s.env

abbrev Reads {α : Type} (x : LiveM α) : Prop := Moves (fun _ => True) SameGraph x

theorem SameGraph.refl (s : Live) : SameGraph s s := ⟨rfl, rfl, rfl⟩

theorem SameGraph.trans (a b c : Live) (hab : SameGraph a b) (hbc : SameGraph b c) : SameGraph a c :=
  ⟨hbc.1.trans hab.1, hbc.2.1.trans hab.2.1, hbc.2.2.trans hab.2.2⟩

variable {α β : Type} {x : LiveM α}

theorem reads_bind {f : α → LiveM β} (hx : Reads x) (hf : ∀ a, Reads (f a)) : Reads (x >>= f) :=
  moves_bind SameGraph.trans hx hf

theorem reads_pure (a : α) : Reads (pure a : LiveM α) := moves_pure SameGraph.refl a

theorem reads_fail (e : Status) : Reads (fail e : LiveM α) := moves_fail SameGraph.refl e

theorem reads_get : Reads (get : LiveM Live) := moves_get SameGraph.refl

theorem reads_guard {c : Prop} [Decidable c] {e : Status} (hx : Reads x) : Reads (if c then fail e else x) :=
  of_ite (reads_fail e) hx

theorem reads_cache (f : Live → Option DirectoryCache) : Reads (modify fun s => { s with cache := f s } : LiveM Unit) :=
  fun _ _ => ⟨trivial, rfl, rfl, rfl⟩

theorem reads_request : Reads request := by
  intro s _
  rw [request]
  simp only
  split
  · exact ⟨trivial, rfl, rfl, rfl⟩
  · exact ⟨trivial, rfl, rfl, rfl⟩

theorem reads_call : Reads call := reads_bind reads_request fun _ => reads_pure _

section

variable (id : ObjectId)

include id

theorem reads_directoryCacheStore (name : Name) (objectId : ObjectId) (type : ObjectType) (page : Option Nat) :
    Reads (directoryCacheStore id name objectId type page) := by
  intro s _
  rw [directoryCacheStore]
  split
  · exact ⟨trivial, SameGraph.refl s⟩
  · exact ⟨trivial, rfl, rfl, rfl⟩

theorem reads_scanEntries (page : Option Nat) (first : Bool) (name : Name) (entries : List Dirent) :
    ∀ wanted cachedAll, Reads (scanEntries id page first name entries wanted cachedAll) := by
  induction entries with
  | nil =>
    intro wanted cachedAll
    exact reads_pure _
  | cons entry rest ih =>
    intro wanted cachedAll
    apply reads_bind (reads_directoryCacheStore _ _ _ _ _)
    intro stored
    apply reads_bind reads_get
    intro s
    exact ih _ _

theorem reads_scanPages (name : Name) (pages : List (List Dirent)) :
    ∀ p wanted cachedAll, Reads (scanPages id name pages p wanted cachedAll) := by
  induction pages with
  | nil =>
    intro p wanted cachedAll
    exact reads_pure _
  | cons page rest ih =>
    intro p wanted cachedAll
    apply reads_bind reads_call
    intro _
    apply reads_bind (reads_scanEntries _ _ _ _ _ _ _)
    intro found
    exact ih _ _ _

theorem reads_finishScan (found : Option Dirent × Bool) : Reads (finishScan id found) := by
  obtain ⟨wanted, cachedAll⟩ := found
  cases cachedAll with
  | false =>
    cases wanted with
    | none => exact reads_fail _
    | some entry => exact reads_pure _
  | true =>
    apply reads_bind (reads_cache _)
    intro _
    cases wanted with
    | none => exact reads_fail _
    | some entry => exact reads_pure _

theorem reads_cachedFirst (name : Name) {uncached : LiveM (ObjectId × ObjectType)} (h : Reads uncached) :
    Reads (cachedFirst id name uncached) := by
  apply reads_bind (reads_bind reads_get fun _ => reads_pure _)
  intro found
  split
  · exact reads_pure _
  · apply reads_bind (reads_bind reads_get fun _ => reads_pure _)
    intro complete
    exact reads_guard h

theorem reads_treeDirLookup (entries : List Dirent) (name : Name) (wantEntry : Bool) :
    Reads (treeDirLookup id entries name wantEntry) := by
  apply reads_cachedFirst
  apply reads_bind reads_call
  intro _
  apply reads_bind reads_get
  intro s
  split
  · exact reads_fail _
  · split
    · exact reads_bind (reads_directoryCacheStore _ _ _ _ _) fun _ => reads_pure _
    · exact reads_pure _

theorem reads_dirLookupVolume (body : DirectoryBody) (name : Name) (wantEntry : Bool) :
    Reads (dirLookupVolume id body name wantEntry) := by
  apply reads_cachedFirst
  cases body with
  | tree entries => exact reads_treeDirLookup _ _ _ _
  | paged pages => exact reads_cachedFirst _ _ (reads_bind (reads_scanPages _ _ _ _ _ _) fun _ => reads_finishScan _ _)
  | classic entries => exact reads_bind (reads_scanEntries _ _ _ _ _ _ _) fun _ => reads_finishScan _ _

theorem reads_indexFind : Reads (indexFind id) := by
  apply reads_bind reads_call
  intro _
  apply reads_bind reads_get
  intro s
  split
  · exact reads_fail _
  · exact reads_pure _

theorem reads_readDirectory : Reads (readDirectory id) := by
  apply reads_bind (reads_indexFind id)
  intro node
  split
  · exact reads_pure _
  · exact reads_fail _

end

theorem reads_lookupFrom (path : List Name) : ∀ current, Reads (lookupFrom path current) := by
  induction path with
  | nil =>
    intro current
    exact reads_pure _
  | cons component rest ih =>
    intro current
    apply reads_bind reads_get
    intro s
    apply reads_guard
    apply reads_guard
    apply reads_bind (reads_indexFind current)
    intro node
    split
    · apply of_ite (ih _)
      apply of_ite
      · split
        · exact ih _
        · exact reads_bind (reads_indexFind _) fun _ => reads_guard (ih _)
      · apply reads_bind (reads_dirLookupVolume _ _ _ _)
        intro found
        exact reads_bind (reads_indexFind _) fun _ => reads_guard (ih _)
    · exact reads_fail _

theorem reads_splitParent (path : List Name) : Reads (splitParent path) := by
  apply reads_bind reads_get
  intro s
  split
  · exact reads_fail _
  · apply reads_guard
    apply reads_guard
    apply reads_bind (reads_bind reads_get fun _ => reads_lookupFrom _ _)
    intro parent
    exact reads_bind (reads_indexFind _) fun _ => reads_guard (reads_pure _)

theorem reads_lookupOptional {lookup : LiveM (ObjectId × ObjectType)} (h : Reads lookup) : Reads (lookupOptional lookup) := by
  apply reads_bind (moves_attempt h)
  intro found
  split
  · exact reads_pure _
  · exact reads_pure _
  · exact reads_fail _

theorem reads_findTarget (source : ObjectId × ObjectType) (replace : Bool) (target : Option (ObjectId × ObjectType)) :
    Reads (findTarget source replace target) := by
  cases target with
  | none => exact reads_pure _
  | some target =>
    apply reads_bind
    · apply reads_guard
      exact reads_bind (reads_indexFind _) fun _ => reads_guard (reads_guard (reads_guard (reads_pure _)))
    · intro node
      exact reads_pure _

theorem SameGraph.of_reads (hx : Reads x) {s t : Live} {r : Except Status α} (h : x s = (r, t)) : SameGraph s t := by
  have hs := (hx s trivial).2
  rw [h] at hs
  exact hs

end SameGraph

section Rename

theorem reads_renameChecks (oldPath newPath : List Name) (replace : Bool) : Reads (renameChecks oldPath newPath replace) := by
  apply reads_bind (reads_splitParent oldPath)
  intro old
  apply reads_bind (reads_splitParent newPath)
  intro new
  apply reads_bind (reads_readDirectory old.1)
  intro oldParent
  apply reads_bind (reads_dirLookupVolume _ _ _ _)
  intro source
  apply reads_bind (reads_indexFind source.1)
  intro node
  apply reads_guard
  apply reads_bind (reads_readDirectory new.1)
  intro newParent
  apply reads_bind (reads_lookupOptional (reads_dirLookupVolume _ _ _ _))
  intro found
  apply of_ite (reads_pure _)
  exact reads_bind (reads_findTarget _ _ _) fun _ => reads_pure _

variable {replace : Bool} {oldPath newPath : List Name} {s t : Live} {plan : RenamePlan}

theorem readDirectory_ok {id : ObjectId} {found : Node × DirectoryBody} (h : readDirectory id s = (.ok found, t)) :
    s.objects.directory id = some found.2 := by
  obtain ⟨node, u, hfind, hbody⟩ := bind_eq_ok.mp h
  obtain ⟨_, v, hcall, hget⟩ := bind_eq_ok.mp hfind
  rw [bind_of_ok (get_apply v)] at hget
  have hsteady := SameGraph.of_reads reads_call hcall
  rcases hnode : v.objects id with _ | found'
  · rw [hnode] at hget
    cases hget
  · rw [hnode] at hget
    cases hget
    obtain ⟨parent, object⟩ := node
    cases object with
    | directory body =>
      cases hbody
      rw [Graph.directory, ← hsteady.1, hnode]
    | file links => cases hbody
    | symlink => cases hbody

theorem renameChecks_directory (h : renameChecks oldPath newPath replace s = (.ok (some plan), t)) :
    ∃ body, s.objects.directory plan.new.1 = some body := by
  obtain ⟨old, s₁, h₁, h⟩ := bind_eq_ok.mp h
  obtain ⟨new, s₂, h₂, h⟩ := bind_eq_ok.mp h
  obtain ⟨oldParent, s₃, h₃, h⟩ := bind_eq_ok.mp h
  obtain ⟨source, s₄, h₄, h⟩ := bind_eq_ok.mp h
  obtain ⟨node, s₅, h₅, h⟩ := bind_eq_ok.mp h
  have hsteady : SameGraph s s₅ :=
    (((((SameGraph.of_reads (reads_splitParent _) h₁).trans _ _ _ (SameGraph.of_reads (reads_splitParent _) h₂)).trans _ _ _
      (SameGraph.of_reads (reads_readDirectory _) h₃)).trans _ _ _ (SameGraph.of_reads (reads_dirLookupVolume _ _ _ _) h₄)).trans _ _ _
      (SameGraph.of_reads (reads_indexFind _) h₅))
  obtain ⟨-, h⟩ := guard_eq_ok.mp h
  obtain ⟨newParent, s₆, h₆, h⟩ := bind_eq_ok.mp h
  obtain ⟨found, s₇, h₇, h⟩ := bind_eq_ok.mp h
  split at h
  · cases h
  · obtain ⟨target, s₈, h₈, h⟩ := bind_eq_ok.mp h
    cases h
    have hnew := readDirectory_ok h₆
    rw [hsteady.1] at hnew
    exact ⟨newParent.2, hnew⟩

def RenamePlan.Refused (plan : RenamePlan) (s : Live) : Prop := (movesBelow plan.source plan.new.1 s).1 ≠ .ok false

section

variable (h : renameChecks oldPath newPath replace s = (.ok (some plan), t))

include h

theorem renameTx_refused (hrefused : plan.Refused t) :
    ∃ e, (renameTx oldPath newPath replace s).1 = .error e := by
  rw [renameTx, bind_of_ok h]
  show ∃ e, (plan.finish t).1 = .error e
  rw [RenamePlan.Refused] at hrefused
  rw [RenamePlan.finish, bind_apply]
  rcases hmoves : movesBelow plan.source plan.new.1 t with ⟨e | ancestor, u⟩
  · exact ⟨e, rfl⟩
  · rw [hmoves] at hrefused
    cases ancestor with
    | false => exact absurd rfl hrefused
    | true => exact ⟨.invalidArgument, rfl⟩

theorem renameTx_error {e : Status} (herror : (movesBelow plan.source plan.new.1 t).1 = .error e) :
    (renameTx oldPath newPath replace s).1 = .error e := by
  rw [renameTx, bind_of_ok h]
  show (plan.finish t).1 = .error e
  rw [RenamePlan.finish, bind_apply]
  rcases hmoves : movesBelow plan.source plan.new.1 t with ⟨r, u⟩
  rw [hmoves] at herror
  cases herror
  rfl

theorem renameTx_admitted (hadmitted : ¬plan.Refused t) :
    ∃ u, renameTx oldPath newPath replace s = plan.apply u := by
  rw [renameTx, bind_of_ok h]
  show ∃ u, plan.finish t = plan.apply u
  rw [RenamePlan.Refused, not_not] at hadmitted
  rw [RenamePlan.finish, bind_apply]
  rcases hmoves : movesBelow plan.source plan.new.1 t with ⟨e | ancestor, u⟩
  · rw [hmoves] at hadmitted
    cases hadmitted
  · rw [hmoves] at hadmitted
    cases hadmitted
    exact ⟨u, rfl⟩

end

theorem refused_exact_iff (hvalid : ValidNamespace s.objects s.rootId) (hcalm : ∀ t, (s.env t).status = .ok)
    (hsource : plan.source.2 = .directory) {body : DirectoryBody}
    (hnew : s.objects.directory plan.new.1 = some body) :
    (plan.Refused s ↔ s.objects.Inside plan.source.1 plan.new.1) ↔
      s.objects.Inside plan.source.1 plan.new.1 ∨ ∃ n < 1024, s.objects.Depth s.rootId plan.new.1 n := by
  have hverdict (n : Nat) (hn : s.objects.Depth s.rootId plan.new.1 n) :
      Verdict s.objects plan.source.1 plan.new.1 n 1024 (movesBelow plan.source plan.new.1 s).1 := by
    rw [movesBelow, if_pos hsource]
    exact idIsAncestor_verdict hvalid hcalm plan.source.1 hn 1024 s.tick
  rw [RenamePlan.Refused]
  by_cases hinside : s.objects.Inside plan.source.1 plan.new.1
  · obtain ⟨n, hn⟩ := (hvalid.reachable _ _ hnew).depth
    have hrefused : (movesBelow plan.source plan.new.1 s).1 ≠ .ok false := by
      rcases (hverdict n hn).2 hinside with h | h
      · rw [h]
        decide
      · rw [h]
        exact fun hfalse => nomatch hfalse
    exact ⟨fun _ => .inl hinside, fun _ => ⟨fun _ => hinside, fun _ => hrefused⟩⟩
  · constructor
    · intro hexact
      obtain ⟨n, hn⟩ := (hvalid.reachable _ _ hnew).depth
      refine .inr ⟨n, ?_, hn⟩
      by_contra hdeep
      have hloop := (hverdict n hn).1 hinside
      rw [if_neg hdeep] at hloop
      exact hinside (hexact.mp (by rw [hloop]; exact fun hfalse => nomatch hfalse))
    · rintro (h | ⟨n, hlt, hn⟩)
      · exact absurd h hinside
      · have hfalse := (hverdict n hn).1 hinside
        rw [if_pos hlt] at hfalse
        exact ⟨fun h => absurd hfalse h, fun h => absurd h hinside⟩

end Rename

end InfiltratorFS.Directory
