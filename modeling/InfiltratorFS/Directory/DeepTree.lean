import InfiltratorFS.Directory.Ancestry

namespace InfiltratorFS.Directory

open Prog Function

section Reachable

/-- The namespaces that calls lead to. Every call has an environment of its
own; one that fails leaves the namespace as it was. -/
inductive Reachable (start : Live) : Live → Prop
  | start : Reachable start start
  | call {s t : Live} {staged : Bool} (c : MutationCall) (env : Nat → Answer) (h : Reachable start s)
      (hrun : c.body { s with env := env, tick := 0 } = (.ok staged, t)) : Reachable start t

end Reachable

section Calm

variable {s : Live}

/-- Every call outside of the namespace succeeds, and there is no cache. -/
structure Calm (s : Live) : Prop where
  env : ∀ t, (s.env t).status = .ok
  cache : s.cache = none

variable {entries : List Dirent} {name : Name} {id : ObjectId}

/-- A component that the checks of a path let through. -/
structure Plain (s : Live) (name : Name) : Prop where
  length : 1 ≤ name.length ∧ name.length ≤ nameMax
  accepted : nameAccepted s name = true
  dots : name ≠ [46] ∧ name ≠ [46, 46]

variable (h : Calm s)
include h

theorem cachedFirst_calm (n : Nat) (id : ObjectId) (name : Name) (uncached : LiveM (ObjectId × ObjectType)) :
    cachedFirst id name uncached (s.ticked n) = uncached (s.ticked n) := by
  have hlookup : directoryCacheLookup id name (s.ticked n) = (.ok none, s.ticked n) := by
    rw [directoryCacheLookup, bind_of_ok (get_apply _), ticked_cache, h.cache]
    rfl
  have hcomplete : directoryCacheComplete id (s.ticked n) = (.ok false, s.ticked n) := by
    rw [directoryCacheComplete, bind_of_ok (get_apply _), ticked_cache, h.cache]
    rfl
  rw [cachedFirst, bind_of_ok hlookup]
  show (directoryCacheComplete id >>= fun complete => if complete = true then fail .notFound else uncached) (s.ticked n) = _
  rw [bind_of_ok hcomplete]
  rfl

theorem directoryCacheStore_calm (n : Nat) (id : ObjectId) (name : Name) (objectId : ObjectId) (type : ObjectType)
    (page : Option Nat) : directoryCacheStore id name objectId type page (s.ticked n) = (.ok false, s.ticked n) := by
  rw [directoryCacheStore, ticked_cache, h.cache]

variable {e : Dirent}

theorem treeDirLookup_found (n : Nat) (wantEntry : Bool)
    (hfind : (entries.find? fun e => namespaceNameEqual s.casefold e.name name) = some e) :
    treeDirLookup id entries name wantEntry (s.ticked n) = (.ok (e.objectId, e.objectType), s.ticked (n + 1)) := by
  rw [treeDirLookup, cachedFirst_calm h, bind_of_ok (call_calm h.env n), bind_of_ok (get_apply _)]
  simp only [ticked_casefold, hfind]
  cases wantEntry with
  | false => rfl
  | true => exact bind_of_ok (directoryCacheStore_calm h (n + 1) _ _ _ _ _)

theorem treeDirLookup_absent (n : Nat) (wantEntry : Bool)
    (hfind : (entries.find? fun e => namespaceNameEqual s.casefold e.name name) = none) :
    treeDirLookup id entries name wantEntry (s.ticked n) = (.error .notFound, s.ticked (n + 1)) := by
  rw [treeDirLookup, cachedFirst_calm h, bind_of_ok (call_calm h.env n), bind_of_ok (get_apply _)]
  simp only [ticked_casefold, hfind]
  rfl

theorem dirLookupVolume_tree {n : Nat} {wantEntry : Bool} :
    dirLookupVolume id (.tree entries) name wantEntry (s.ticked n) = treeDirLookup id entries name wantEntry (s.ticked n) := by
  rw [dirLookupVolume, cachedFirst_calm h]

variable {parent : Option ObjectId}

theorem readDirectory_calm (n : Nat) {body : DirectoryBody}
    (hnode : s.objects id = some ⟨parent, .directory body⟩) :
    readDirectory id (s.ticked n) = (.ok (⟨parent, .directory body⟩, body), s.ticked (n + 1)) := by
  rw [readDirectory, bind_of_ok (indexFind_calm h.env n hnode)]
  rfl

theorem lookupFrom_cons (n : Nat) {component : Name} (hplain : Plain s component) {rest : List Name} {current : ObjectId}
    {child : Node}
    (hnode : s.objects current = some ⟨parent, .directory (.tree entries)⟩)
    (hfind : (entries.find? fun e => namespaceNameEqual s.casefold e.name component) = some e)
    (hchild : s.objects e.objectId = some child) (htype : child.object.type = e.objectType) :
    lookupFrom (component :: rest) current (s.ticked n) = lookupFrom rest e.objectId (s.ticked (n + 3)) := by
  have hlength := hplain.length
  have haccepted : nameAccepted (s.ticked n) component = true := hplain.accepted
  rw [lookupFrom, bind_of_ok (get_apply _), if_neg (by omega), if_neg (by rw [haccepted]; decide),
    bind_of_ok (indexFind_calm h.env n hnode)]
  simp only
  rw [if_neg hplain.dots.1, if_neg hplain.dots.2,
    bind_of_ok ((dirLookupVolume_tree h).trans (treeDirLookup_found h (n + 1) true hfind)), bind_of_ok (indexFind_calm h.env (n + 2) hchild), if_neg (not_not.mpr htype)]

theorem splitParent_calm {n m : Nat} {path : List Name} (hplain : Plain s name) {parent : ObjectId}
    {up : Option ObjectId} {body : DirectoryBody} (hlookup : lookupFrom path s.rootId (s.ticked n) = (.ok parent, s.ticked m))
    (hnode : s.objects parent = some ⟨up, .directory body⟩) :
    splitParent (path ++ [name]) (s.ticked n) = (.ok (parent, name), s.ticked (m + 1)) := by
  have hlength := hplain.length
  have haccepted : nameAccepted (s.ticked n) name = true := hplain.accepted
  have hpath : lookupPath path (s.ticked n) = (.ok parent, s.ticked m) := by
    rw [lookupPath, bind_of_ok (get_apply _), ticked_rootId, hlookup]
  rw [splitParent, bind_of_ok (get_apply _), List.getLast?_concat]
  simp only
  rw [if_neg (by omega), if_neg (by simp [hplain.dots.1, hplain.dots.2, haccepted]), List.dropLast_concat, bind_of_ok hpath,
    bind_of_ok (indexFind_calm h.env m hnode)]
  rfl

end Calm

section Create

variable {s : Live}

section

variable {lookup : LiveM (ObjectId × ObjectType)} {t : Live} (h : lookup s = (.error .notFound, t))

include h

theorem lookupOptional_absent : lookupOptional lookup s = (.ok none, t) := by
  rw [lookupOptional, bind_apply, attempt_apply, h]
  rfl

theorem unlessFound_absent : unlessFound lookup s = (.ok (), t) := by
  rw [unlessFound, bind_of_ok (lookupOptional_absent h)]
  rfl

end

def Live.withObjects (s : Live) (g : Graph) : Live := { s with objects := g }

theorem Calm.withObjects (h : Calm s) (g : Graph) : Calm (s.withObjects g) := ⟨h.env, h.cache⟩

variable {entries : List Dirent}

theorem treeDirAdd_calm (h : Calm s) (n : Nat) {id : ObjectId} {e : Dirent}
    (hvalid : addArgumentsValid s e.name e.objectId = true)
    (hfind : (entries.find? fun x => namespaceNameEqual s.casefold x.name e.name) = none) (hroom : entries.length < 2 ^ 32 - 1) :
    treeDirAdd id entries e (s.ticked n) = (.ok (entries ++ [e]), s.ticked (n + 2)) := by
  have hvalid' : addArgumentsValid (s.ticked n) e.name e.objectId = true := hvalid
  have hany : (entries.any fun x => namespaceNameEqual (s.ticked n).casefold x.name e.name) = false := by
    rw [List.find?_eq_none] at hfind
    rw [List.any_eq_false]
    exact hfind
  rw [treeDirAdd, bind_of_ok (get_apply _), if_neg (by rw [hvalid']; decide),
    bind_of_ok (unlessFound_absent (treeDirLookup_absent h n false hfind)), bind_of_ok (call_calm h.env (n + 1)),
    if_neg (by rw [hany]; decide), if_neg (by omega), bind_of_ok (directoryCacheStore_calm h (n + 2) _ _ _ _ _)]
  rfl

theorem addName_calm (h : Calm s) (n : Nat) {id : ObjectId} {up : Option ObjectId} {e : Dirent}
    (hnode : s.objects id = some ⟨up, .directory (.tree entries)⟩) (hvalid : addArgumentsValid s e.name e.objectId = true)
    (hfind : (entries.find? fun x => namespaceNameEqual s.casefold x.name e.name) = none) (hroom : entries.length < 2 ^ 32 - 1) :
    addName id e (s.ticked n) = (.ok (),
      (s.withObjects (update s.objects id (some ⟨up, .directory (.tree (entries ++ [e]))⟩))).ticked (n + 4)) := by
  have hadd : dirAddVolume id (.tree entries) e (s.ticked (n + 1)) = (.ok (.tree (entries ++ [e])), s.ticked (n + 3)) := by
    rw [dirAddVolume]
    exact bind_of_ok (treeDirAdd_calm h (n + 1) hvalid hfind hroom)
  rw [addName, bind_of_ok (readDirectory_calm h n hnode), bind_of_ok hadd, setNode, bind_of_ok (modify_apply _ _)]
  exact call_calm (h.withObjects _).env (n + 3)

theorem createObject_calm (h : Calm s) {n m : Nat} (htree : s.directoryTree = true) {path : List Name} {name : Name}
    {parent fresh : ObjectId} {up : Option ObjectId}
    (hsplit : splitParent path (s.ticked n) = (.ok (parent, name), s.ticked m))
    (hnode : s.objects parent = some ⟨up, .directory (.tree entries)⟩)
    (hfind : (entries.find? fun x => namespaceNameEqual s.casefold x.name name) = none) (hroom : entries.length < 2 ^ 32 - 1)
    (hvalid : addArgumentsValid s name fresh = true) (hid : ∀ t, (s.env t).id = fresh) (hfresh : s.objects fresh = none)
    (hroot : fresh ≠ s.rootId) :
    createObject path .directory (s.ticked n) = (.ok (), (s.withObjects
      (update (update s.objects fresh (some ⟨some parent, .directory (.tree [])⟩)) parent
        (some ⟨up, .directory (.tree (entries ++ [⟨name, fresh, .directory⟩]))⟩))).ticked (m + 7)) := by
  have hne : parent ≠ fresh := by
    rintro rfl
    rw [hfresh] at hnode
    cases hnode
  have hnew : (s.withObjects (update s.objects fresh (some ⟨some parent, .directory (.tree [])⟩))).objects parent =
      some ⟨up, .directory (.tree entries)⟩ := by
    show update s.objects fresh _ parent = _
    rw [update_of_ne hne, hnode]
  have hadd := addName_calm (h.withObjects _) (m + 3) (e := ⟨name, fresh, .directory⟩) hnew hvalid hfind hroom
  rw [createObject, bind_of_ok (get_apply _), if_neg (by rintro ⟨h, _⟩; cases h), bind_of_ok hsplit,
    bind_of_ok (readDirectory_calm h m hnode),
    bind_of_ok (unlessFound_absent ((dirLookupVolume_tree h).trans (treeDirLookup_absent h (m + 1) false hfind))),
    bind_of_ok (request_calm h.env (m + 2)), bind_of_ok (get_apply _), if_neg (by rw [hid]; simp [hfresh, hroot]), setNode,
    bind_of_ok (modify_apply _ _), hid]
  have hobject : freshObject (s.ticked (m + 3)) .directory = .directory (.tree []) := by
    have htree' : (s.ticked (m + 3)).directoryTree = true := htree
    rw [freshObject, if_pos htree']
  rw [hobject]
  exact hadd

end Create

section Chain

/-- The ID of a number. Its last bytes keep it from being zero. -/
def ident (n : Nat) : ObjectId :=
  Vector.ofFn fun i => if i.val = 0 then UInt8.ofNat n else if i.val = 1 then UInt8.ofNat (n / 256) else 1

def number (id : ObjectId) : Nat := id[0].toNat + 256 * id[1].toNat

theorem number_ident {n : Nat} (h : n < 65536) : number (ident n) = n := by
  simp only [number, ident, Vector.getElem_ofFn]
  simp
  omega

theorem ident_inj {n m : Nat} (hn : n < 65536) (hm : m < 65536) : ident n = ident m ↔ n = m := by
  constructor
  · intro h
    rw [← number_ident hn, h, number_ident hm]
  · rintro rfl
    rfl

theorem number_lt (id : ObjectId) : number id < 65536 := by
  have hlow := id[0].toNat_lt
  have hhigh := id[1].toNat_lt
  rw [number]
  omega

theorem idIsZero_ident (n : Nat) : idIsZero (ident n) = false := by
  simp only [idIsZero, ident, Vector.toList_ofFn, List.all_eq_false, List.mem_ofFn]
  exact ⟨1, ⟨2, rfl⟩, by decide⟩

/-- The entries of the directory at a depth of the chain. The root has a second
directory beside the chain if there is a spare one. -/
def chainEntries (n : Nat) (spare : Bool) (i : Nat) : List Dirent :=
  (if i < n then [⟨[97], ident (i + 1), .directory⟩] else []) ++
    if i = 0 ∧ spare = true then [⟨[98], ident 2000, .directory⟩] else []

def chainNode (n : Nat) (spare : Bool) (i : Nat) : Option Node :=
  if i ≤ n then some ⟨if i = 0 then none else some (ident (i - 1)), .directory (.tree (chainEntries n spare i))⟩
  else if i = 2000 ∧ spare = true then some ⟨some (ident 0), .directory (.tree [])⟩
  else none

def chainGraph (n : Nat) (spare : Bool) : Graph := fun id =>
  if id = ident (number id) then chainNode n spare (number id) else none

variable {n : Nat} {spare : Bool} {i : Nat}

theorem chainGraph_ident (h : i < 65536) : chainGraph n spare (ident i) = chainNode n spare i := by
  rw [chainGraph, number_ident h, if_pos rfl]

theorem chainGraph_eq_some {id : ObjectId} {node : Node} (h : chainGraph n spare id = some node) :
    ∃ i < 65536, id = ident i ∧ chainNode n spare i = some node := by
  rw [chainGraph] at h
  split at h
  · rename_i hid
    exact ⟨number id, number_lt id, hid, h⟩
  · cases h

theorem chainGraph_node (hn : n ≤ 1024) (hi : i ≤ n) :
    chainGraph n spare (ident i) =
      some ⟨if i = 0 then none else some (ident (i - 1)), .directory (.tree (chainEntries n spare i))⟩ := by
  rw [chainGraph_ident (by omega), chainNode, if_pos hi]

theorem chainGraph_spare (hn : n ≤ 1024) :
    chainGraph n true (ident 2000) = some ⟨some (ident 0), .directory (.tree [])⟩ := by
  rw [chainGraph_ident (by omega), chainNode, if_neg (by omega), if_pos ⟨rfl, rfl⟩]

theorem chainGraph_directory {id : ObjectId} {body : DirectoryBody} (h : (chainGraph n spare).directory id = some body) :
    (∃ i ≤ n, id = ident i ∧ body = .tree (chainEntries n spare i)) ∨ (spare = true ∧ id = ident 2000 ∧ body = .tree []) := by
  rw [Graph.directory] at h
  rcases hnode : chainGraph n spare id with _ | node
  · rw [hnode] at h
    cases h
  · obtain ⟨i, hi, rfl, hchain⟩ := chainGraph_eq_some hnode
    rw [hnode] at h
    rw [chainNode] at hchain
    split at hchain
    · rename_i hle
      cases hchain
      cases h
      exact .inl ⟨i, hle, rfl, rfl⟩
    · obtain ⟨hspare, hchain⟩ := Option.ite_none_right_eq_some.mp hchain
      cases hchain
      cases h
      exact .inr ⟨hspare.2, by rw [hspare.1], rfl⟩

section

variable (hn : n ≤ 1024)

include hn

theorem chainGraph_holds {d child : ObjectId} :
    (chainGraph n spare).Holds d child ↔
      (∃ i < n, d = ident i ∧ child = ident (i + 1)) ∨ (spare = true ∧ d = ident 0 ∧ child = ident 2000) := by
  constructor
  · rintro ⟨body, e, hbody, he, rfl, -⟩
    obtain ⟨i, -, rfl, rfl⟩ | ⟨-, -, rfl⟩ := chainGraph_directory hbody
    · rcases List.mem_append.mp he with he | he
      · obtain ⟨hlt, he⟩ := List.mem_ite_nil_right.mp he
        cases List.mem_singleton.mp he
        exact .inl ⟨i, hlt, rfl, rfl⟩
      · obtain ⟨hroot, he⟩ := List.mem_ite_nil_right.mp he
        cases List.mem_singleton.mp he
        exact .inr ⟨hroot.2, by rw [hroot.1], rfl⟩
    · cases he
  · rintro (⟨i, hi, rfl, rfl⟩ | ⟨hspare, rfl, rfl⟩)
    · refine ⟨.tree (chainEntries n spare i), ⟨[97], ident (i + 1), .directory⟩, ?_, ?_, rfl, rfl⟩
      · rw [Graph.directory, chainGraph_node hn (by omega)]
      · exact List.mem_append.mpr (.inl (by rw [if_pos hi]; exact List.mem_singleton.mpr rfl))
    · refine ⟨.tree (chainEntries n spare 0), ⟨[98], ident 2000, .directory⟩, ?_, ?_, rfl, rfl⟩
      · rw [Graph.directory, chainGraph_node hn (by omega)]
      · exact List.mem_append.mpr (.inr (by rw [if_pos ⟨rfl, hspare⟩]; exact List.mem_singleton.mpr rfl))

theorem chainGraph_inside (hi : i ≤ n) : (chainGraph n spare).Inside (ident 0) (ident i) := by
  induction i with
  | zero => exact .self
  | succ i ih => exact (ih (by omega)).entry ((chainGraph_holds hn).mpr (.inl ⟨i, by omega, rfl, rfl⟩))

theorem chainGraph_depth (hi : i ≤ n) : (chainGraph n spare).Depth (ident 0) (ident i) i := by
  induction i with
  | zero => exact .root
  | succ i ih => exact (ih (by omega)).entry ((chainGraph_holds hn).mpr (.inl ⟨i, by omega, rfl, rfl⟩))

theorem chainGraph_valid : ValidNamespace (chainGraph n spare) (ident 0) where
  root_unnamed := by
    intro d h
    rcases (chainGraph_holds hn).mp h with ⟨i, hi, -, h⟩ | ⟨-, -, h⟩
    · rw [ident_inj (by omega) (by omega)] at h
      omega
    · rw [ident_inj (by omega) (by omega)] at h
      omega
  parent := by
    intro d child h
    rcases (chainGraph_holds hn).mp h with ⟨i, hi, rfl, rfl⟩ | ⟨rfl, rfl, rfl⟩
    · exact ⟨_, chainGraph_node hn (by omega), by rw [if_neg (by omega), Nat.add_sub_cancel]⟩
    · exact ⟨_, chainGraph_spare hn, rfl⟩
  reachable := by
    intro id body h
    obtain ⟨i, hi, rfl, -⟩ | ⟨hspare, rfl, -⟩ := chainGraph_directory h
    · exact chainGraph_inside hn hi
    · exact Graph.Inside.self.entry ((chainGraph_holds hn).mpr (.inr ⟨hspare, rfl, rfl⟩))

theorem chainGraph_outside (hi : i ≤ n) : ¬(chainGraph n spare).Inside (ident 2000) (ident i) := by
  have hall (id : ObjectId) (h : (chainGraph n spare).Inside (ident 2000) id) : id = ident 2000 := by
    induction h with
    | self => rfl
    | entry _ hchild ih =>
      subst ih
      rcases (chainGraph_holds hn).mp hchild with ⟨i, hi, h, -⟩ | ⟨-, h, -⟩
      · rw [ident_inj (by omega) (by omega)] at h
        omega
      · rw [ident_inj (by omega) (by omega)] at h
        omega
  intro h
  have := hall _ h
  rw [ident_inj (by omega) (by omega)] at this
  omega

end

theorem chainGraph_update {m j : Nat} {spare' : Bool} {x y : Option Node} (hx : chainGraph m spare' (ident i) = x)
    (hy : chainGraph m spare' (ident j) = y) (hsame : ∀ k, k ≠ i → k ≠ j → chainNode n spare k = chainNode m spare' k) :
    update (update (chainGraph n spare) (ident j) y) (ident i) x = chainGraph m spare' := by
  funext id
  by_cases hi : id = ident i
  · rw [hi, update_self, hx]
  · rw [update_of_ne hi]
    by_cases hj : id = ident j
    · rw [hj, update_self, hy]
    · rw [update_of_ne hj, chainGraph, chainGraph]
      split
      · rename_i hid
        exact hsame _ (fun h => hi (h ▸ hid)) fun h => hj (h ▸ hid)
      · rfl

end Chain

section Run

def answering (id : ObjectId) : Nat → Answer := fun _ => ⟨.ok, ok_ne_notFound, id, false⟩

/-- The namespace of a chain on a volume with the features that the formatter
sets. -/
def chainLive (n : Nat) (spare : Bool) (fresh : ObjectId) : Live where
  casefold := false
  utf8 := fun _ => true
  removable := fun _ => true
  hardLinks := true
  symbolicLinks := true
  directoryTree := true
  pagedMetadata := true
  rootId := ident 0
  objects := chainGraph n spare
  cache := none
  env := answering fresh
  tick := 0

def formatted : Live := chainLive 0 false (ident 0)

variable {n : Nat} (spare : Bool) (fresh : ObjectId)

theorem chainLive_calm (n : Nat) : Calm (chainLive n spare fresh) := ⟨fun _ => rfl, rfl⟩

theorem chainLive_objects (n : Nat) : (chainLive n spare fresh).objects = chainGraph n spare := rfl

theorem chainLive_plain (n : Nat) {c : UInt8} (h : c ≠ 46) : Plain (chainLive n spare fresh) [c] where
  length := by simp [nameMax]
  accepted := rfl
  dots := by simp [h]

theorem chainLive_node (hn : n ≤ 1024) {i : Nat} (hi : i ≤ n) :
    (chainLive n spare fresh).objects (ident i) =
      some ⟨if i = 0 then none else some (ident (i - 1)), .directory (.tree (chainEntries n spare i))⟩ := by
  rw [chainLive_objects, chainGraph_node hn hi]

theorem chainEntries_find {i : Nat} (hi : i < n) :
    ((chainEntries n spare i).find? fun e => namespaceNameEqual (chainLive n spare fresh).casefold e.name [97]) =
      some ⟨[97], ident (i + 1), .directory⟩ := by
  rw [chainEntries, if_pos hi, List.singleton_append, List.find?_cons_of_pos]
  rfl

theorem chainLive_step (hn : n ≤ 1024) {i : Nat} (hi : i < n) (rest : List Name) (t : Nat) :
    lookupFrom ([97] :: rest) (ident i) ((chainLive n spare fresh).ticked t) =
      lookupFrom rest (ident (i + 1)) ((chainLive n spare fresh).ticked (t + 3)) := by
  have hnode := chainLive_node spare fresh hn (Nat.le_of_lt hi)
  have hchild := chainLive_node spare fresh hn (Nat.succ_le_of_lt hi)
  have hfind := chainEntries_find spare fresh hi
  rw [lookupFrom_cons (chainLive_calm spare fresh n) t (chainLive_plain spare fresh n (by decide)) hnode hfind hchild rfl]

theorem chainLive_lookup (hn : n ≤ 1024) (k i : Nat) (hi : i + k ≤ n) (t : Nat) :
    lookupFrom (List.replicate k [97]) (ident i) ((chainLive n spare fresh).ticked t) =
      (.ok (ident (i + k)), (chainLive n spare fresh).ticked (t + 3 * k)) := by
  induction k generalizing i t with
  | zero => rfl
  | succ k ih =>
    have hend : i + 1 + k = i + (k + 1) := by omega
    have hticks : t + 3 + 3 * k = t + 3 * (k + 1) := by omega
    rw [List.replicate_succ, chainLive_step spare fresh hn (by omega), ih (i + 1) (by omega), hend, hticks]

theorem chainLive_split (hn : n ≤ 1024) {c : UInt8} (hc : c ≠ 46) (t : Nat) :
    splitParent (List.replicate n [97] ++ [[c]]) ((chainLive n spare fresh).ticked t) =
      (.ok (ident n, [c]), (chainLive n spare fresh).ticked (t + 3 * n + 1)) := by
  have hlookup := chainLive_lookup spare fresh hn n 0 (by omega) t
  rw [Nat.zero_add] at hlookup
  exact splitParent_calm (chainLive_calm spare fresh n) (chainLive_plain spare fresh n hc) hlookup
    (chainLive_node spare fresh hn (Nat.le_refl _))

theorem chainGraph_grow (hn : n < 1024) :
    update (update (chainGraph n false) (ident (n + 1)) (some ⟨some (ident n), .directory (.tree [])⟩)) (ident n)
      (some ⟨if n = 0 then none else some (ident (n - 1)),
        .directory (.tree (chainEntries n false n ++ [⟨[97], ident (n + 1), .directory⟩]))⟩) = chainGraph (n + 1) false := by
  refine chainGraph_update ?_ ?_ fun k hk hk' => ?_
  · rw [chainGraph_node (by omega) (by omega)]
    simp [chainEntries]
  · rw [chainGraph_node (by omega) (Nat.le_refl _)]
    simp [chainEntries]
  · have hle : k ≤ n + 1 ↔ k ≤ n := by omega
    have hlt : k < n + 1 ↔ k < n := by omega
    simp only [chainNode, chainEntries, hle, hlt]

theorem chainGraph_grow_spare (h : 0 < n) (hn : n ≤ 1024) :
    update (update (chainGraph n false) (ident 2000) (some ⟨some (ident 0), .directory (.tree [])⟩)) (ident 0)
      (some ⟨none, .directory (.tree (chainEntries n false 0 ++ [⟨[98], ident 2000, .directory⟩]))⟩) = chainGraph n true := by
  refine chainGraph_update ?_ (chainGraph_spare hn) fun k hk hk' => ?_
  · rw [chainGraph_node hn (by omega)]
    simp [chainEntries]
  · simp only [chainNode, chainEntries, hk, hk', false_and]

theorem chainLive_arguments (n : Nat) {c : UInt8} (hc : c ≠ 46) (hslash : c ≠ 47) (i : Nat) :
    addArgumentsValid (chainLive n spare fresh) [c] (ident i) = true := by
  have hzero : idIsZero (ident i) = false := idIsZero_ident i
  simp [addArgumentsValid, hzero, hc, Ne.symm hslash, nameMax, chainLive]

theorem chainLive_fresh {j : Nat} (hn : n < j) (hj : j < 65536) :
    (chainLive n false fresh).objects (ident j) = none ∧ ident j ≠ (chainLive n false fresh).rootId := by
  constructor
  · rw [chainLive_objects, chainGraph_ident hj, chainNode, if_neg (by omega), if_neg (by simp)]
  · show ident j ≠ ident 0
    rw [Ne, ident_inj hj (by omega)]
    omega

theorem chainLive_grow (hn : n < 1024) :
    createObject (List.replicate n [97] ++ [[97]]) .directory ((chainLive n false (ident (n + 1))).ticked 0) =
      (.ok (), (chainLive (n + 1) false (ident (n + 1))).ticked (3 * n + 8)) := by
  have hsplit := chainLive_split false (ident (n + 1)) (Nat.le_of_lt hn) (show (97 : UInt8) ≠ 46 by decide) 0
  have hnode := chainLive_node false (ident (n + 1)) (Nat.le_of_lt hn) (Nat.le_refl n)
  obtain ⟨hfresh, hroot⟩ := chainLive_fresh (ident (n + 1)) n.lt_succ_self (by omega)
  have hempty : chainEntries n false n = [] := by simp [chainEntries]
  have hcreate := createObject_calm (chainLive_calm false (ident (n + 1)) n) rfl hsplit hnode (by rw [hempty]; rfl)
    (by rw [hempty]; decide) (chainLive_arguments false (ident (n + 1)) n (by decide) (by decide) (n + 1)) (fun _ => rfl) hfresh hroot
  rw [hcreate, chainLive_objects, chainGraph_grow hn]
  have hticks : 0 + 3 * n + 1 + 7 = 3 * n + 8 := by omega
  rw [hticks]
  rfl

theorem chainLive_spare (h : 0 < n) (hn : n ≤ 1024) :
    createObject [[98]] .directory ((chainLive n false (ident 2000)).ticked 0) =
      (.ok (), (chainLive n true (ident 2000)).ticked 8) := by
  have hnode := chainLive_node false (ident 2000) hn (Nat.zero_le n)
  have hlookup : lookupFrom [] (chainLive n false (ident 2000)).rootId ((chainLive n false (ident 2000)).ticked 0) =
      (.ok (ident 0), (chainLive n false (ident 2000)).ticked 0) := rfl
  have hsplit := splitParent_calm (chainLive_calm false (ident 2000) n)
    (chainLive_plain false (ident 2000) n (show (98 : UInt8) ≠ 46 by decide))
    hlookup hnode
  obtain ⟨hfresh, hroot⟩ := chainLive_fresh (ident 2000) (show n < 2000 by omega) (by decide)
  have hentries : chainEntries n false 0 = [⟨[97], ident 1, .directory⟩] := by simp [chainEntries, h]
  have hcreate := createObject_calm (chainLive_calm false (ident 2000) n) rfl hsplit hnode (by rw [hentries]; rfl)
    (by rw [hentries]; decide) (chainLive_arguments false (ident 2000) n (by decide) (by decide) 2000) (fun _ => rfl) hfresh hroot
  have hgrow := chainGraph_grow_spare h hn
  rw [List.nil_append] at hcreate
  rw [hcreate, chainLive_objects, if_pos rfl, hgrow]
  rfl

theorem chain_reachable (hn : n ≤ 1024) : ∃ fresh t, Reachable formatted ((chainLive n false fresh).ticked t) := by
  induction n with
  | zero => exact ⟨ident 0, 0, .start⟩
  | succ n ih =>
    obtain ⟨fresh, t, hreach⟩ := ih (by omega)
    have hrun : (MutationCall.create (List.replicate n [97] ++ [[97]]) .directory).body ((chainLive n false (ident (n + 1))).ticked 0) =
        (.ok true, (chainLive (n + 1) false (ident (n + 1))).ticked (3 * n + 8)) := bind_of_ok (chainLive_grow (by omega))
    exact ⟨ident (n + 1), 3 * n + 8, .call _ (answering (ident (n + 1))) hreach hrun⟩

/-- Calls lead to a chain of any length up to 1024 with a directory beside it. -/
theorem spare_reachable (h : 0 < n) (hn : n ≤ 1024) : Reachable formatted ((chainLive n true (ident 2000)).ticked 8) := by
  obtain ⟨fresh, t, hreach⟩ := chain_reachable hn
  have hrun : (MutationCall.create [[98]] .directory).body ((chainLive n false (ident 2000)).ticked 0) =
      (.ok true, (chainLive n true (ident 2000)).ticked 8) := bind_of_ok (chainLive_spare h hn)
  exact .call _ (answering (ident 2000)) hreach hrun

/-- The checks of `rename("/b", "/a/.../a/x")` find nothing to object to. -/
theorem chainLive_checks (h : 0 < n) (hn : n ≤ 1024) :
    ∃ t, renameChecks [[98]] (List.replicate n [97] ++ [[120]]) true ((chainLive n true (ident 2000)).ticked 8) =
      (.ok (some ⟨(ident 0, [98]), (ident n, [120]), (ident 2000, .directory), none⟩), (chainLive n true (ident 2000)).ticked t) := by
  have hcalm := chainLive_calm true (ident 2000) n
  have hroot := chainLive_node true (ident 2000) hn (Nat.zero_le n)
  have hend := chainLive_node true (ident 2000) hn (Nat.le_refl n)
  have hspare : (chainLive n true (ident 2000)).objects (ident 2000) = some ⟨some (ident 0), .directory (.tree [])⟩ := by
    rw [chainLive_objects, chainGraph_spare hn]
  have hlookup : lookupFrom [] (chainLive n true (ident 2000)).rootId ((chainLive n true (ident 2000)).ticked 8) =
      (.ok (ident 0), (chainLive n true (ident 2000)).ticked 8) := rfl
  have hold := splitParent_calm hcalm (chainLive_plain true (ident 2000) n (show (98 : UInt8) ≠ 46 by decide)) hlookup hroot
  have hnew := chainLive_split true (ident 2000) hn (show (120 : UInt8) ≠ 46 by decide) 9
  have hsource : ((chainEntries n true 0).find? fun e => namespaceNameEqual (chainLive n true (ident 2000)).casefold e.name [98]) =
      some ⟨[98], ident 2000, .directory⟩ := by
    simp only [chainEntries, if_pos h, and_self, if_true]
    rfl
  have hfree : ((chainEntries n true n).find? fun e => namespaceNameEqual (chainLive n true (ident 2000)).casefold e.name [120]) =
      none := by
    rw [chainEntries, if_neg (Nat.lt_irrefl n), if_neg (by omega)]
    rfl
  refine ⟨9 + 3 * n + 1 + 5, ?_⟩
  rw [List.nil_append] at hold
  rw [renameChecks, bind_of_ok hold, bind_of_ok hnew, bind_of_ok (readDirectory_calm hcalm _ hroot),
    bind_of_ok ((dirLookupVolume_tree hcalm).trans (treeDirLookup_found hcalm _ true hsource)),
    bind_of_ok (indexFind_calm hcalm.env _ hspare), if_neg (by decide), bind_of_ok (readDirectory_calm hcalm _ hend)]
  rw [bind_of_ok (lookupOptional_absent ((dirLookupVolume_tree hcalm).trans (treeDirLookup_absent hcalm _ true hfree)))]
  rfl

end Run

section Exact

/-- Where the checks before it have passed, the check for ancestry decides
between failure and the rest of the rename. It refuses exactly the moves of a
directory into its own subtree if and only if the new parent is in that subtree
or less than 1024 levels below the root. -/
theorem rename_ancestry_exact_iff {s t : Live} (hvalid : ValidNamespace s.objects s.rootId) (hcalm : ∀ n, (s.env n).status = .ok)
    {oldPath newPath : List Name} {replace : Bool} {plan : RenamePlan}
    (hchecks : renameChecks oldPath newPath replace s = (.ok (some plan), t)) (hsource : plan.source.2 = .directory) :
    (plan.Refused t → ∃ e, (renameTx oldPath newPath replace s).1 = .error e) ∧
    (¬plan.Refused t → ∃ u, renameTx oldPath newPath replace s = plan.apply u) ∧
    ((plan.Refused t ↔ s.objects.Inside plan.source.1 plan.new.1) ↔
      s.objects.Inside plan.source.1 plan.new.1 ∨ ∃ n < 1024, s.objects.Depth s.rootId plan.new.1 n) := by
  refine ⟨renameTx_refused hchecks, renameTx_admitted hchecks, ?_⟩
  obtain ⟨body, hbody⟩ := renameChecks_directory hchecks
  obtain ⟨hobjects, hroot, henv⟩ := SameGraph.of_reads (reads_renameChecks _ _ _) hchecks
  rw [← hobjects, ← hroot] at hvalid ⊢
  rw [← hobjects] at hbody
  rw [← henv] at hcalm
  exact refused_exact_iff hvalid hcalm hsource hbody

/-- `rename("/b", "/a/x")` on a volume with two directories in its root. -/
theorem rename_ancestry_exact_small :
    ∃ t plan, renameChecks [[98]] [[97], [120]] true ((chainLive 1 true (ident 2000)).ticked 8) = (.ok (some plan), t) ∧
      ((plan.Refused t ↔ (chainGraph 1 true).Inside plan.source.1 plan.new.1) ↔
        (chainGraph 1 true).Inside plan.source.1 plan.new.1 ∨ ∃ n < 1024, (chainGraph 1 true).Depth (ident 0) plan.new.1 n) := by
  obtain ⟨t, hchecks⟩ := chainLive_checks (n := 1) (by decide) (by decide)
  exact ⟨_, _, hchecks, (rename_ancestry_exact_iff (chainGraph_valid (by decide)) (fun _ => rfl) hchecks rfl).2.2⟩

theorem chainLive_refused {n : Nat} (h : 0 < n) (hn : n ≤ 1024) (hdeep : ¬n < 1024) :
    (renameTx [[98]] (List.replicate n [97] ++ [[120]]) true ((chainLive n true (ident 2000)).ticked 8)).1 = .error .loopDetected := by
  obtain ⟨t, hchecks⟩ := chainLive_checks h hn
  have hvalid : ValidNamespace (chainLive n true (ident 2000)).objects (chainLive n true (ident 2000)).rootId := chainGraph_valid hn
  have hdepth : (chainLive n true (ident 2000)).objects.Depth (chainLive n true (ident 2000)).rootId (ident n) n :=
    chainGraph_depth hn (Nat.le_refl n)
  have hloop := (idIsAncestor_verdict hvalid (fun _ => rfl) (ident 2000) hdepth 1024 t).1 (chainGraph_outside hn (Nat.le_refl n))
  rw [if_neg hdeep] at hloop
  apply renameTx_error hchecks
  rw [movesBelow, if_pos rfl]
  exact hloop

/-- 1024 directories are made one in the other and one more in the root. The
latter cannot be moved to the end of the chain. -/
theorem deep_rename_refused :
    ∃ n s, n = 1024 ∧ Reachable formatted s ∧ ValidNamespace s.objects s.rootId ∧ ¬s.objects.Inside (ident 2000) (ident n) ∧
      (renameTx [[98]] (List.replicate n [97] ++ [[120]]) true s).1 = .error .loopDetected := by
  obtain ⟨n, hn⟩ : ∃ n, n = 1024 := ⟨1024, rfl⟩
  exact ⟨n, _, hn, spare_reachable (by omega) (by omega), chainGraph_valid (by omega),
    chainGraph_outside (by omega) (Nat.le_refl n), chainLive_refused (by omega) (by omega) (by omega)⟩

end Exact

end InfiltratorFS.Directory
