import InfiltratorFS.Directory.Coherence
import Mathlib.Data.List.GetD

namespace InfiltratorFS.Directory

open Prog Function

section Near

/-- A state that differs from the first one in its graph, in its cache, which
is coherent with that graph, and in the calls made so far. -/
structure Near (s₀ : Live) (g : Graph) (s : Live) : Prop where
  same : s = { s₀ with objects := g, cache := s.cache, tick := s.tick }
  sound : g.view.Sound s₀.casefold
  coherent : ∀ cache, s.cache = some cache → Coherent s₀.casefold cache g.view

def Reported (s₀ : Live) (status : Status) : Prop := ∃ t, (s₀.env t).status = status ∧ status ≠ .ok

variable {s₀ s : Live} {g : Graph}

section

variable (h : Near s₀ g s)
include h

theorem Near.casefold : s.casefold = s₀.casefold := by rw [h.same]

theorem Near.objects : s.objects = g := by rw [h.same]

theorem Near.env : s.env = s₀.env := by rw [h.same]

theorem Near.step (n : Nat) : Near s₀ g { s with tick := n } where
  same := by rw [h.same]
  sound := h.sound
  coherent := h.coherent

end

theorem Reported.ne_notFound {status : Status} (h : Reported s₀ status) : status ≠ .notFound := by
  obtain ⟨t, rfl, _⟩ := h
  exact (s₀.env t).known

variable (C : Option DirectoryCache → Prop)

theorem triple_request :
    Triple (fun s => Near s₀ g s ∧ C s.cache) request (fun _ s => Near s₀ g s ∧ C s.cache)
      (fun e s => Near s₀ g s ∧ Reported s₀ e) := by
  rintro s ⟨hs, hcache⟩
  have hrun : request s = (if (s.env s.tick).status = .ok then (.ok (s.env s.tick), { s with tick := s.tick + 1 })
    else (.error (s.env s.tick).status, { s with tick := s.tick + 1 })) := rfl
  rw [hrun]
  split
  · refine ⟨fun a t h => ?_, fun e t h => by cases h⟩
    cases h
    exact ⟨hs.step _, hcache⟩
  · rename_i hstatus
    refine ⟨fun a t h => (by cases h), fun e t h => ?_⟩
    cases h
    exact ⟨hs.step _, s.tick, by rw [hs.env], hstatus⟩

theorem triple_call_cached :
    Triple (fun s => Near s₀ g s ∧ C s.cache) call (fun _ s => Near s₀ g s ∧ C s.cache)
      (fun e s => Near s₀ g s ∧ Reported s₀ e) :=
  (triple_request C).bind fun _ => .pure fun _ h => h

theorem triple_call : Triple (Near s₀ g) call (fun _ => Near s₀ g) (fun e s => Near s₀ g s ∧ Reported s₀ e) :=
  (triple_call_cached fun _ => True).mono (fun _ h => ⟨h, trivial⟩) (fun _ _ h => h.1) (fun _ _ h => h)

end Near

section Lookup

variable {s₀ : Live} {g : Graph} {id : ObjectId} {es seen : List Dirent} {name : Name}

def Covered (s₀ : Live) (id : ObjectId) (seen : List Dirent) (c : Option DirectoryCache) : Prop :=
  ∀ cache, c = some cache → ∀ e ∈ seen,
    cache.Knows s₀.casefold (id, foldName s₀.casefold e.name) (e.objectId, e.objectType)

def Wanted (s₀ : Live) (name : Name) (seen : List Dirent) : Option Dirent → Prop
  | none => Unbound s₀.casefold seen name
  | some e => e ∈ seen ∧ foldName s₀.casefold e.name = foldName s₀.casefold name

def Found (s₀ : Live) (g : Graph) (es : List Dirent) (name : Name) (found : ObjectId × ObjectType) (s : Live) : Prop :=
  Near s₀ g s ∧ Bound s₀.casefold es name found

def Missed (s₀ : Live) (g : Graph) (es : List Dirent) (name : Name) (e : Status) (s : Live) : Prop :=
  Near s₀ g s ∧ ((e = .notFound ∧ Unbound s₀.casefold es name) ∨ Reported s₀ e)

/-- The entry of a name that is stored has to be in the directory; what was
known of the directory before stays known. -/
theorem triple_store (hid : g.view id = some es) {e : Dirent} (he : e ∈ es)
    (hname : foldName s₀.casefold e.name = foldName s₀.casefold name) (hseen : ∀ f ∈ seen, f ∈ es) (page : Option Nat)
    (all : Bool) {E : Status → Live → Prop} :
    Triple (fun s => Near s₀ g s ∧ (all = true → Covered s₀ id seen s.cache))
      (directoryCacheStore id name e.objectId e.objectType page)
      (fun stored s => Near s₀ g s ∧ ((all && stored) = true → Covered s₀ id (seen ++ [e]) s.cache)) E := by
  rintro s ⟨hs, hcovered⟩
  unfold directoryCacheStore
  rcases hcache : s.cache with _ | cache
  · refine ⟨fun stored t h => ?_, fun e t h => by cases h⟩
    cases h
    refine ⟨hs, fun _ cache hsome => ?_⟩
    rw [hcache] at hsome
    cases hsome
  · refine ⟨fun stored t h => ?_, fun e t h => by cases h⟩
    have hk := hs.coherent cache hcache
    obtain ⟨hstored, rfl⟩ := Prod.mk.inj h
    rw [Except.ok.injEq, hs.casefold] at hstored
    refine ⟨⟨?_, hs.sound, fun k hk' => ?_⟩, fun hall k hk' f hf => ?_⟩
    · rw [hs.same]
    · cases hk'
      rw [hs.casefold]
      exact hk.store hs.sound hid he hname page
    · cases hk'
      rw [hs.casefold]
      have hlength : ¬(name.length = 0 ∨ nameMax < name.length) := by
        have := hs.sound.named id es hid e he
        rwa [← length_foldName s₀.casefold, hname, length_foldName] at this
      obtain ⟨hall, hyes⟩ := Bool.and_eq_true_iff.mp hall
      rw [← hstored] at hyes
      rw [DirectoryCache.knows_store hk.formed _ _ _ hlength]
      by_cases hkey : foldName s₀.casefold f.name = foldName s₀.casefold name
      · right
        have hfes : f ∈ es := by
          rcases List.mem_append.mp hf with hf | hf
          · exact hseen f hf
          · rw [List.mem_singleton.mp hf]
            exact he
        obtain rfl := nodup_of_distinct (hs.sound.distinct id es hid) hfes he (hkey.trans hname.symm)
        exact ⟨hyes, by rw [hkey], rfl⟩
      · left
        refine ⟨fun hpair => hkey (Prod.mk.inj hpair).2, ?_⟩
        rcases List.mem_append.mp hf with hf | hf
        · exact hcovered hall cache hcache f hf
        · rw [List.mem_singleton.mp hf] at hkey
          exact absurd hname hkey

theorem Wanted.next {wanted : Option Dirent} (h : Wanted s₀ name seen wanted) (first : Bool) (e : Dirent) :
    Wanted s₀ name (seen ++ [e])
      (if !(first && wanted.isSome) && namespaceNameEqual s₀.casefold e.name name then some e else wanted) := by
  split
  · rename_i hyes
    rw [Bool.and_eq_true, namespaceNameEqual_iff] at hyes
    exact ⟨by simp, hyes.2⟩
  · rename_i hno
    cases wanted with
    | none =>
      intro f hf
      rcases List.mem_append.mp hf with hf | hf
      · exact h f hf
      · rw [List.mem_singleton.mp hf]
        intro hsame
        apply hno
        rw [Bool.and_eq_true, namespaceNameEqual_iff]
        exact ⟨by simp, hsame⟩
    | some w => exact ⟨List.mem_append_left _ h.1, h.2⟩

section

variable (hid : g.view id = some es)

include hid

theorem triple_scanEntries (page : Option Nat) (first : Bool) (rest : List Dirent)
    (hrest : ∀ e ∈ rest, e ∈ es) {E : Status → Live → Prop} : ∀ (seen : List Dirent) (wanted : Option Dirent) (all : Bool),
    (∀ f ∈ seen, f ∈ es) → Wanted s₀ name seen wanted →
    Triple (fun s => Near s₀ g s ∧ (all = true → Covered s₀ id seen s.cache)) (scanEntries id page first name rest wanted all)
      (fun found s => Wanted s₀ name (seen ++ rest) found.1 ∧ Near s₀ g s ∧
        (found.2 = true → Covered s₀ id (seen ++ rest) s.cache)) E := by
  induction rest with
  | nil =>
    intro seen wanted all _ hwanted
    rw [List.append_nil]
    exact .pure fun s hs => ⟨hwanted, hs⟩
  | cons e rest ih =>
    intro seen wanted all hseen hwanted
    have he := hrest e (List.mem_cons_self ..)
    apply (triple_store hid he rfl hseen page all).bind
    intro stored
    apply Triple.get_bind
    rintro s ⟨hs, hcovered⟩
    rw [hs.casefold]
    have hnext := ih (fun f hf => hrest f (List.mem_cons_of_mem _ hf)) (seen ++ [e]) _ (all && stored)
      (fun f hf => by
        rcases List.mem_append.mp hf with hf | hf
        · exact hseen f hf
        · rw [List.mem_singleton.mp hf]
          exact he)
      (hwanted.next first e)
    rw [List.append_assoc, List.singleton_append] at hnext
    apply hnext.pre
    rintro t rfl
    exact ⟨hs, hcovered⟩

theorem triple_scanPages (rest : List (List Dirent)) (hrest : ∀ page ∈ rest, ∀ e ∈ page, e ∈ es) :
    ∀ (p : Nat) (seen : List Dirent) (wanted : Option Dirent) (all : Bool), (∀ f ∈ seen, f ∈ es) → Wanted s₀ name seen wanted →
    Triple (fun s => Near s₀ g s ∧ (all = true → Covered s₀ id seen s.cache)) (scanPages id name rest p wanted all)
      (fun found s => Wanted s₀ name (seen ++ rest.flatten) found.1 ∧ Near s₀ g s ∧
        (found.2 = true → Covered s₀ id (seen ++ rest.flatten) s.cache)) (fun e s => Near s₀ g s ∧ Reported s₀ e) := by
  induction rest with
  | nil =>
    intro p seen wanted all _ hwanted
    rw [List.flatten_nil, List.append_nil]
    exact .pure fun s hs => ⟨hwanted, hs⟩
  | cons page rest ih =>
    intro p seen wanted all hseen hwanted
    have hpage := hrest page (List.mem_cons_self ..)
    apply (triple_call_cached fun c => all = true → Covered s₀ id seen c).seq
    apply (triple_scanEntries hid (some p) true page hpage seen wanted all hseen hwanted).bind_and
    intro found hfound
    have hnext := ih (fun q hq => hrest q (List.mem_cons_of_mem _ hq)) (p + 1) (seen ++ page) found.1 found.2
      (fun f hf => by
        rcases List.mem_append.mp hf with hf | hf
        · exact hseen f hf
        · exact hpage f hf) hfound
    rwa [List.append_assoc, ← List.flatten_cons] at hnext

theorem triple_finishScan {found : Option Dirent × Bool} (hfound : Wanted s₀ name es found.1) :
    Triple (fun s => Near s₀ g s ∧ (found.2 = true → Covered s₀ id es s.cache)) (finishScan id found)
      (Found s₀ g es name) (Missed s₀ g es name) := by
  have hrest : Triple (Near s₀ g)
      (match found.1 with
        | none => fail .notFound
        | some entry => pure (entry.objectId, entry.objectType) : LiveM (ObjectId × ObjectType))
      (Found s₀ g es name) (Missed s₀ g es name) := by
    rcases hwanted : found.1 with _ | e
    · rw [hwanted] at hfound
      exact .fail fun s hs => ⟨hs, Or.inl ⟨rfl, hfound⟩⟩
    · rw [hwanted] at hfound
      exact .pure fun s hs => ⟨hs, e, hfound.1, hfound.2, rfl⟩
  unfold finishScan
  apply Triple.ite
  · intro hall
    apply Triple.bind (Q := fun _ => Near s₀ g) _ fun _ => hrest
    apply Triple.modify
    rintro s ⟨hs, hcovered⟩
    refine ⟨by rw [hs.same], hs.sound, fun k hk => ?_⟩
    obtain ⟨cache, hcache, rfl⟩ := Option.map_eq_some_iff.mp hk
    exact (hs.coherent cache hcache).markComplete hid (hcovered hall cache hcache)
  · intro _
    exact hrest.pre fun s hs => hs.1

theorem triple_cachedFirst {uncached : LiveM (ObjectId × ObjectType)}
    (h : Triple (Near s₀ g) uncached (Found s₀ g es name) (Missed s₀ g es name)) :
    Triple (Near s₀ g) (cachedFirst id name uncached) (Found s₀ g es name) (Missed s₀ g es name) := by
  intro s hs
  have hlookup : directoryCacheLookup id name s = (.ok (s.cache.bind fun cache => cache.lookup s.casefold id name), s) := rfl
  have hcomplete : directoryCacheComplete id s = (.ok (s.cache.any fun cache => cache.complete id), s) := rfl
  unfold cachedFirst
  rw [bind_of_ok hlookup]
  rcases hcache : s.cache with _ | cache
  · simp only [Option.bind_none]
    rw [bind_of_ok hcomplete, hcache]
    exact h s hs
  · have hk := hs.coherent cache hcache
    simp only [Option.bind_some]
    rw [hs.casefold]
    rcases hfound : cache.lookup s₀.casefold id name with _ | found
    · simp only
      rw [bind_of_ok hcomplete, hcache]
      rcases hall : cache.complete id with _ | _
      · simp only [Option.any_some, hall, Bool.false_eq_true, if_false]
        exact h s hs
      · simp only [Option.any_some, hall, if_true]
        refine ⟨fun a t hrun => (by cases hrun), fun e t hrun => ?_⟩
        cases hrun
        refine ⟨hs, Or.inl ⟨rfl, fun e he hsame => ?_⟩⟩
        have hknows := hk.complete id es hid ((DirectoryCache.complete_iff hk.formed).mp hall) e he
        rw [hsame] at hknows
        exact (DirectoryCache.lookup_eq_none hk.formed).mp hfound _ hknows
    · refine ⟨fun a t hrun => ?_, fun e t hrun => by cases hrun⟩
      cases hrun
      refine ⟨hs, ?_⟩
      obtain ⟨os, hos, hbound⟩ := hk.known _ _ ((DirectoryCache.lookup_eq_some hk.formed found).mp hfound)
      obtain rfl : es = os := Option.some.inj (hid.symm.trans hos)
      exact hbound

theorem triple_treeDirLookup (wantEntry : Bool) :
    Triple (Near s₀ g) (treeDirLookup id es name wantEntry) (Found s₀ g es name) (Missed s₀ g es name) := by
  apply triple_cachedFirst hid
  apply Triple.bind (triple_call.error fun e s h => ⟨h.1, Or.inr h.2⟩)
  intro _
  apply Triple.look
  intro s hs
  rw [hs.casefold]
  rcases hfind : es.find? fun entry => namespaceNameEqual s₀.casefold entry.name name with _ | e
  · rw [hfind]
    apply Triple.fail
    intro t ht
    refine ⟨ht, Or.inl ⟨rfl, fun e he hsame => ?_⟩⟩
    have := List.find?_eq_none.mp hfind e he
    rw [namespaceNameEqual_iff] at this
    exact this hsame
  · have hmem := List.mem_of_find?_eq_some hfind
    have hyes : namespaceNameEqual s₀.casefold e.name name = true := by simpa using List.find?_some hfind
    have hname := (namespaceNameEqual_iff ..).mp hyes
    rw [hfind]
    have hpure : Triple (Near s₀ g) (pure (e.objectId, e.objectType)) (Found s₀ g es name) (Missed s₀ g es name) :=
      Triple.pure fun t ht => ⟨ht, e, hmem, hname, rfl⟩
    apply Triple.branch
    · have hnone : ∀ f ∈ ([] : List Dirent), f ∈ es := List.forall_mem_nil _
      apply Triple.bind ((triple_store hid hmem hname hnone none false).pre fun t ht => ⟨ht, fun hfalse => by cases hfalse⟩)
      intro stored
      exact hpure.pre fun t ht => ht.1
    · exact hpure

end

theorem triple_pagedDirLookup {pages : List (List Dirent)} (hid : g.view id = some pages.flatten) :
    Triple (Near s₀ g) (pagedDirLookup id pages name) (Found s₀ g pages.flatten name) (Missed s₀ g pages.flatten name) := by
  apply triple_cachedFirst hid
  have hnone : Wanted s₀ name [] none := List.forall_mem_nil _
  have hscan := triple_scanPages hid pages (fun page hpage e he => List.mem_flatten.mpr ⟨page, hpage, he⟩) 0 [] none true
    (List.forall_mem_nil _) hnone
  rw [List.nil_append] at hscan
  apply Triple.bind (hscan.mono (fun s hs => ⟨hs, fun _ _ _ => List.forall_mem_nil _⟩) (fun _ _ h => h)
    fun e s h => ⟨h.1, Or.inr h.2⟩)
  intro found
  apply Triple.of_and
  exact triple_finishScan hid

/-- The lookup of a directory of the graph, through the cache: it finds what
the directory holds, and NOT_FOUND means that the name is free. -/
theorem triple_dirLookupVolume {body : DirectoryBody} (hid : g.view id = some body.entries) (wantEntry : Bool) :
    Triple (Near s₀ g) (dirLookupVolume id body name wantEntry) (Found s₀ g body.entries name)
      (Missed s₀ g body.entries name) := by
  apply triple_cachedFirst hid
  cases body with
  | classic entries =>
    have hnone : Wanted s₀ name [] none := List.forall_mem_nil _
    have hscan := triple_scanEntries (E := Missed s₀ g entries name) hid none false entries (fun e he => he) [] none true
      (List.forall_mem_nil _) hnone
    rw [List.nil_append] at hscan
    apply Triple.bind (hscan.pre fun s hs => ⟨hs, fun _ _ _ => List.forall_mem_nil _⟩)
    intro found
    apply Triple.of_and
    exact triple_finishScan hid
  | paged pages => exact triple_pagedDirLookup hid
  | tree entries => exact triple_treeDirLookup hid wantEntry

end Lookup

section Change

/-- The directory was changed in memory and in the cache, but not written yet. -/
structure Staged (s₀ : Live) (g : Graph) (v : View) (s : Live) : Prop where
  same : s = { s₀ with objects := g, cache := s.cache, tick := s.tick }
  sound : v.Sound s₀.casefold
  coherent : ∀ cache, s.cache = some cache → Coherent s₀.casefold cache v

def nodeView : Option Node → Option (List Dirent)
  | some ⟨_, .directory body⟩ => some body.entries
  | _ => none

theorem view_apply (g : Graph) (id : ObjectId) : g.view id = nodeView (g id) := by
  unfold Graph.view Graph.directory nodeView
  rcases g id with _ | ⟨_, _ | _ | _⟩ <;> rfl

theorem view_update (g : Graph) (id : ObjectId) (node : Option Node) :
    Graph.view (update g id node) = update g.view id (nodeView node) := by
  funext other
  rw [view_apply]
  by_cases h : other = id
  · rw [h, update_self, update_self]
  · rw [update_of_ne h, update_of_ne h, view_apply]

protected theorem View.Sound.update {casefold : Bool} {v : View} (h : v.Sound casefold) {id : ObjectId} {new : Option (List Dirent)}
    (hdistinct : ∀ es, new = some es → (es.map fun e => foldName casefold e.name).Nodup)
    (hnamed : ∀ es, new = some es → ∀ e ∈ es, ¬(e.name.length = 0 ∨ nameMax < e.name.length)) :
    View.Sound casefold (update v id new) := by
  constructor
  · intro other es hother
    obtain ⟨-, hes⟩ | ⟨-, hother⟩ := ProbeTable.update_eq_iff.mp hother
    · exact hdistinct es hes
    · exact h.distinct other es hother
  · intro other es hother
    obtain ⟨-, hes⟩ | ⟨-, hother⟩ := ProbeTable.update_eq_iff.mp hother
    · exact hnamed es hes
    · exact h.named other es hother

variable {s₀ : Live} {g : Graph} {id : ObjectId} {es : List Dirent} {E : Status → Live → Prop}

theorem Staged.setNode {parent : Option ObjectId} {body : DirectoryBody} :
    Triple (Staged s₀ g (update g.view id (some body.entries))) (setNode id (some ⟨parent, .directory body⟩))
      (fun _ => Near s₀ (update g id (some ⟨parent, .directory body⟩))) E := by
  apply Triple.modify
  intro s hs
  have hview : Graph.view (update g id (some ⟨parent, .directory body⟩)) =
      update g.view id (some body.entries) := view_update ..
  refine ⟨?_, hview ▸ hs.sound, fun cache hcache => hview ▸ hs.coherent cache hcache⟩
  rw [hs.same]

theorem triple_setNode_empty {node : Option Node} (hold : ∀ es, g.view id = some es → es = [])
    (hnew : ∀ es, nodeView node = some es → es = []) :
    Triple (Near s₀ g) (setNode id node) (fun _ => Near s₀ (update g id node)) E := by
  apply Triple.modify
  intro s hs
  refine ⟨by rw [hs.same], ?_, fun cache hcache => ?_⟩
  · rw [view_update]
    apply hs.sound.update
    · intro es hes
      rw [hnew es hes]
      exact List.nodup_nil
    · intro es hes e he
      rw [hnew es hes] at he
      cases he
  · rw [view_update]
    exact (hs.coherent cache hcache).update_empty rfl hold hnew

theorem triple_setNode_same {node : Node} (hview : g.view id = nodeView (some node)) :
    Triple (Near s₀ g) (setNode id (some node)) (fun _ => Near s₀ (update g id (some node))) E := by
  apply Triple.modify
  intro s hs
  have hsame : Graph.view (update g id (some node)) = g.view := by
    rw [view_update, ← hview, update_eq_self]
  exact ⟨by rw [hs.same], hsame ▸ hs.sound, fun cache hcache => hsame ▸ hs.coherent cache hcache⟩

end Change

section Addition

variable {s₀ : Live} {g : Graph} {id : ObjectId} {es : List Dirent} {entry : Dirent}

theorem View.Sound.add {casefold : Bool} {v : View} (h : v.Sound casefold) (hid : v id = some es)
    (hname : ¬(entry.name.length = 0 ∨ nameMax < entry.name.length)) (hfree : Unbound casefold es entry.name) :
    View.Sound casefold (update v id (some (es ++ [entry]))) := by
  apply h.update
  · intro es' hes'
    obtain rfl := Option.some.inj hes'
    rw [List.map_append, List.nodup_append]
    refine ⟨h.distinct id es hid, List.nodup_singleton _, fun a ha b hb => ?_⟩
    obtain ⟨e, he, rfl⟩ := List.mem_map.mp ha
    rw [List.map_singleton, List.mem_singleton] at hb
    rw [hb]
    exact hfree e he
  · intro es' hes' e he
    obtain rfl := Option.some.inj hes'
    rcases List.mem_append.mp he with he | he
    · exact h.named id es hid e he
    · rw [List.mem_singleton.mp he]
      exact hname

theorem triple_storeNew (hid : g.view id = some es) (hname : ¬(entry.name.length = 0 ∨ nameMax < entry.name.length))
    (hfree : Unbound s₀.casefold es entry.name) (page : Option Nat) {E : Status → Live → Prop} :
    Triple (Near s₀ g) (directoryCacheStore id entry.name entry.objectId entry.objectType page)
      (fun _ => Staged s₀ g (update g.view id (some (es ++ [entry])))) E := by
  intro s hs
  have hsound := hs.sound.add hid hname hfree
  unfold directoryCacheStore
  rcases hcache : s.cache with _ | cache
  · refine ⟨fun stored t h => ?_, fun e t h => by cases h⟩
    cases h
    refine ⟨hs.same, hsound, fun k hk => ?_⟩
    rw [hcache] at hk
    cases hk
  · refine ⟨fun stored t h => ?_, fun e t h => by cases h⟩
    cases h
    refine ⟨by rw [hs.same], hsound, fun k hk => ?_⟩
    cases hk
    rw [hs.casefold]
    apply (hs.coherent cache hcache).add hid hname hfree
    intro e
    rw [List.mem_append, List.mem_singleton]

theorem addArgumentsValid.name {s : Live} {name : Name} {objectId : ObjectId} (h : addArgumentsValid s name objectId = true) :
    ¬(name.length = 0 ∨ nameMax < name.length) := by
  unfold addArgumentsValid at h
  simp only [Bool.and_eq_true, bne_iff_ne, ne_eq, decide_eq_true_eq] at h
  omega

theorem unbound_of_any {casefold : Bool} {name : Name}
    (h : ¬(es.any fun e => namespaceNameEqual casefold e.name name) = true) : Unbound casefold es name := by
  intro e he hsame
  apply h
  rw [List.any_eq_true]
  exact ⟨e, he, (namespaceNameEqual_iff ..).mpr hsame⟩

section Lookup

variable {lookup : LiveM (ObjectId × ObjectType)} {name : Name}
  (h : Triple (Near s₀ g) lookup (Found s₀ g es name) (Missed s₀ g es name))

include h

theorem triple_lookupOptional : Triple (Near s₀ g) (lookupOptional lookup)
    (fun found s => (found = none → Unbound s₀.casefold es name) ∧ Near s₀ g s) fun _ _ => True := by
  apply h.attempt_bind
  · exact fun found => .pure fun s hs => ⟨nofun, hs.1⟩
  · rintro e s ⟨hs, hmissed⟩
    refine ⟨fun a u hpure => ?_, fun _ _ _ => trivial⟩
    rcases hmissed with ⟨rfl, hunbound⟩ | hreported
    · cases hpure
      exact ⟨fun _ => hunbound, hs⟩
    · have hne := hreported.ne_notFound
      cases e <;> first | exact absurd rfl hne | cases hpure

theorem triple_unlessFound :
    Triple (Near s₀ g) (unlessFound lookup) (fun _ s => Unbound s₀.casefold es name ∧ Near s₀ g s) (fun _ _ => True) := by
  apply (triple_lookupOptional h).bind
  intro found
  apply Triple.require
  intro hnone
  exact .pure fun s hs => ⟨hs.1 (by simpa using hnone), hs.2⟩

end Lookup

theorem flatten_appendToPages {pages grown : List (List Dirent)} (h : appendToPages pages entry = some grown) :
    grown.flatten = pages.flatten ++ [entry] := by
  have hnew : (pages ++ [[entry]]).flatten = pages.flatten ++ [entry] := by simp
  unfold appendToPages at h
  split at h
  · split at h
    · cases h
    · cases h
      exact hnew
  · rename_i last hlast
    split at h
    · split at h
      · cases h
      · cases h
        exact hnew
    · cases h
      have hpages : pages = pages.dropLast ++ [last] := (List.dropLast_append_getLast? last hlast).symm
      conv_rhs => rw [hpages]
      simp

theorem triple_call_any : Leads (Near s₀ g) call (Near s₀ g) := triple_call.error (fun _ _ _ => trivial)

theorem triple_dirAdd :
    Triple (Near s₀ g) (dirAdd es entry)
      (fun grown s => (grown = es ++ [entry] ∧ ¬(entry.name.length = 0 ∨ nameMax < entry.name.length) ∧
        Unbound s₀.casefold es entry.name) ∧ Near s₀ g s) (fun _ _ => True) := by
  apply Triple.look
  intro s hs
  apply Triple.require
  intro hvalid
  apply Triple.require
  intro hany
  apply Triple.require
  intro _
  rw [hs.casefold] at hany
  rw [Bool.not_eq_true, Bool.not_eq_false'] at hvalid
  exact .pure fun t ht => ⟨⟨rfl, addArgumentsValid.name hvalid, unbound_of_any hany⟩, ht⟩

theorem triple_pagedDirAdd {pages : List (List Dirent)} (hid : g.view id = some pages.flatten) :
    Triple (Near s₀ g) (pagedDirAdd id pages entry)
      (fun grown => Staged s₀ g (update g.view id (some grown.flatten))) (fun _ _ => True) := by
  apply Triple.look
  intro s hs
  apply Triple.require
  intro hvalid
  rw [Bool.not_eq_true, Bool.not_eq_false'] at hvalid
  apply (triple_unlessFound (triple_pagedDirLookup hid)).bind_and
  intro _ hfree
  apply triple_call_any.seq
  rcases hgrown : appendToPages pages entry with _ | grown
  · exact .fail fun _ _ => trivial
  · apply triple_call_any.seq
    apply (triple_storeNew hid (addArgumentsValid.name hvalid) hfree _).seq
    apply Triple.pure
    intro t ht
    rw [flatten_appendToPages hgrown]
    exact ht

theorem triple_treeDirAdd (hid : g.view id = some es) :
    Triple (Near s₀ g) (treeDirAdd id es entry)
      (fun grown => Staged s₀ g (update g.view id (some grown))) (fun _ _ => True) := by
  apply Triple.look
  intro s hs
  apply Triple.require
  intro hvalid
  rw [Bool.not_eq_true, Bool.not_eq_false'] at hvalid
  apply (triple_unlessFound (triple_treeDirLookup hid false)).bind_and
  intro _ hfree
  apply triple_call_any.seq
  apply Triple.require
  intro _
  apply Triple.require
  intro _
  apply (triple_storeNew hid (addArgumentsValid.name hvalid) hfree none).seq
  exact .pure fun t ht => ht

theorem triple_dirAddVolume {body : DirectoryBody} (hid : g.view id = some body.entries) :
    Triple (Near s₀ g) (dirAddVolume id body entry)
      (fun body' => Staged s₀ g (update g.view id (some body'.entries))) (fun _ _ => True) := by
  cases body with
  | classic entries =>
    apply triple_dirAdd.bind_and
    rintro grown ⟨rfl, hname, hfree⟩
    apply (triple_storeNew hid hname hfree none).seq
    exact .pure fun t ht => ht
  | paged pages => exact (triple_pagedDirAdd hid).bind fun grown => .pure fun t ht => ht
  | tree entries => exact (triple_treeDirAdd hid).bind fun grown => .pure fun t ht => ht

end Addition

section Removal

variable {s₀ : Live} {g : Graph} {id : ObjectId} {es : List Dirent} {name : Name}

theorem mem_eraseP_iff {p : Dirent → Bool} (h : es.Pairwise fun a b => ¬(p a = true ∧ p b = true)) (e : Dirent) :
    e ∈ es.eraseP p ↔ e ∈ es ∧ p e = false := by
  induction es with
  | nil => simp
  | cons a es ih =>
    obtain ⟨hhead, htail⟩ := List.pairwise_cons.mp h
    by_cases hp : p a = true
    · rw [List.eraseP_cons_of_pos hp, List.mem_cons]
      constructor
      · intro he
        exact ⟨Or.inr he, by simpa [hp] using hhead e he⟩
      · rintro ⟨rfl | he, hne⟩
        · rw [hp] at hne
          cases hne
        · exact he
    · rw [List.eraseP_cons_of_neg hp, List.mem_cons, List.mem_cons, ih htail]
      constructor
      · rintro (rfl | he)
        · exact ⟨Or.inl rfl, Bool.not_eq_true _ ▸ hp⟩
        · exact ⟨Or.inr he.1, he.2⟩
      · rintro ⟨rfl | he, hne⟩
        · exact .inl rfl
        · exact .inr ⟨he, hne⟩

theorem pairwise_of_distinct {casefold : Bool} {p : Dirent → Bool} (h : (es.map fun e => foldName casefold e.name).Nodup)
    (hp : ∀ a b, p a = true → p b = true → foldName casefold a.name = foldName casefold b.name) :
    es.Pairwise fun a b => ¬(p a = true ∧ p b = true) := by
  rw [List.Nodup, List.pairwise_map] at h
  apply h.imp
  rintro a b hne ⟨ha, hb⟩
  exact hne (hp a b ha hb)

variable {pages : List (List Dirent)} {es' : List Dirent} {E : Status → Live → Prop}

theorem View.Sound.sublist {casefold : Bool} {v : View} (h : v.Sound casefold) (hid : v id = some es)
    (hsub : es'.Sublist es) : View.Sound casefold (update v id (some es')) := by
  apply h.update
  · intro es'' hes
    obtain rfl := Option.some.inj hes
    exact (h.distinct id es hid).sublist (hsub.map _)
  · intro es'' hes e he
    obtain rfl := Option.some.inj hes
    exact h.named id es hid e (hsub.subset he)

section

variable (hid : g.view id = some es)
include hid

theorem triple_cacheRemove (hsub : es'.Sublist es)
    (hes' : ∀ e, e ∈ es' ↔ e ∈ es ∧ foldName s₀.casefold e.name ≠ foldName s₀.casefold name) :
    Triple (Near s₀ g) (directoryCacheRemove id name) (fun _ => Staged s₀ g (update g.view id (some es'))) E := by
  apply Triple.modify
  intro s hs
  refine ⟨by rw [hs.same], hs.sound.sublist hid hsub, fun k hk => ?_⟩
  obtain ⟨cache, hcache, rfl⟩ := Option.map_eq_some_iff.mp hk
  rw [hs.casefold]
  exact (hs.coherent cache hcache).remove hid hes'

theorem triple_cacheInvalidate (hsub : es'.Sublist es) :
    Triple (Near s₀ g) (directoryCacheInvalidateParent id)
      (fun _ => Staged s₀ g (update g.view id (some es'))) E := by
  apply Triple.modify
  intro s hs
  refine ⟨by rw [hs.same], hs.sound.sublist hid hsub, fun k hk => ?_⟩
  obtain ⟨cache, hcache, rfl⟩ := Option.map_eq_some_iff.mp hk
  exact (hs.coherent cache hcache).invalidateParent _

theorem triple_eraseName :
    Triple (Near s₀ g) (directoryCacheRemove id name)
      (fun _ => Staged s₀ g (update g.view id (some (eraseName s₀.casefold es name)))) E := by
  intro s hs
  apply triple_cacheRemove hid (List.eraseP_sublist) _ s hs
  intro e
  have hpair := pairwise_of_distinct (p := fun e => namespaceNameEqual s₀.casefold e.name name) (hs.sound.distinct id es hid)
    (fun a b ha hb => by
      rw [namespaceNameEqual_iff] at ha hb
      exact ha.trans hb.symm)
  rw [mem_eraseP_iff hpair, ← Bool.not_eq_true, namespaceNameEqual_iff]

end

theorem triple_findPage (pages : List (List Dirent)) (order : List Nat) :
    Triple (Near s₀ g) (findPage pages name order)
      (fun p s => (∃ e ∈ pages.getD p [], e.name = name) ∧ Near s₀ g s) (fun _ _ => True) := by
  induction order with
  | nil => exact .fail fun _ _ => trivial
  | cons p rest ih =>
    apply triple_call_any.seq
    apply Triple.ite
    · intro hany
      obtain ⟨e, he, hname⟩ := List.any_eq_true.mp hany
      exact .pure fun s hs => ⟨⟨e, he, by simpa using hname⟩, hs⟩
    · intro _
      exact ih

theorem flatten_without {p : Nat} {q : Dirent → Bool} (hp : p < pages.length)
    (hpair : pages.flatten.Pairwise fun a b => ¬(q a = true ∧ q b = true)) (hq : ∃ e ∈ pages.getD p [], q e = true) :
    (pages.set p ((pages.getD p []).eraseP q)).flatten = pages.flatten.eraseP q := by
  have hsplit : pages = pages.take p ++ pages.getD p [] :: pages.drop (p + 1) := by
    rw [List.getD_eq_getElem _ _ hp, List.getElem_cons_drop hp, List.take_append_drop]
  have hset : pages.set p ((pages.getD p []).eraseP q) =
      pages.take p ++ (pages.getD p []).eraseP q :: pages.drop (p + 1) := by
    rw [List.set_eq_take_append_cons_drop, if_pos hp]
  obtain ⟨e, he, hqe⟩ := hq
  have hbefore : ∀ a ∈ (pages.take p).flatten, ¬q a = true := by
    intro a ha hqa
    rw [hsplit, List.flatten_append, List.flatten_cons] at hpair
    exact (List.pairwise_append.mp hpair).2.2 a ha e (List.mem_append_left _ he) ⟨hqa, hqe⟩
  rw [hset]
  conv_rhs => rw [hsplit]
  rw [List.flatten_append, List.flatten_append, List.flatten_cons, List.flatten_cons, List.eraseP_append_right _ hbefore,
    List.eraseP_append_left hqe _ he]

theorem flatten_eraseIdx {p : Nat} (hp : p < pages.length) :
    (pages.eraseIdx p).flatten = (pages.set p []).flatten := by
  rw [List.eraseIdx_eq_take_drop_succ, List.set_eq_take_append_cons_drop, if_pos hp, List.flatten_append, List.flatten_append,
    List.flatten_cons, List.nil_append]

theorem triple_pagedDirRemove (hid : g.view id = some pages.flatten) :
    Triple (Near s₀ g) (pagedDirRemove id pages name)
      (fun rest => Staged s₀ g (update g.view id (some rest.flatten))) (fun _ _ => True) := by
  refine fun s hs => (?_ : Triple (Near s₀ g) _ _ _) s hs
  apply (.look fun _ _ => .pure fun t ht => ht : Leads (Near s₀ g) (directoryCachePage id name) (Near s₀ g)).bind
  intro hint
  apply (triple_findPage pages (removalOrder pages hint)).bind_and
  rintro p ⟨e, he, rfl⟩
  have hp : p < pages.length := by
    by_contra hge
    rw [List.getD_eq_default _ _ (Nat.le_of_not_lt hge)] at he
    cases he
  have hmem : e ∈ pages.flatten := by
    rw [List.getD_eq_getElem _ _ hp] at he
    exact List.mem_flatten.mpr ⟨_, List.getElem_mem hp, he⟩
  have hdistinct := hs.sound.distinct id _ hid
  have hpair := pairwise_of_distinct (p := fun f => f.name == e.name) hdistinct
    (fun a b ha hb => by rw [beq_iff_eq.mp ha, beq_iff_eq.mp hb])
  have hpage := flatten_without hp hpair ⟨e, he, by simp⟩
  have hmember : ∀ f, f ∈ pages.flatten.eraseP (fun f => f.name == e.name) ↔
      f ∈ pages.flatten ∧ foldName s₀.casefold f.name ≠ foldName s₀.casefold e.name := by
    intro f
    rw [mem_eraseP_iff hpair]
    constructor
    · rintro ⟨hf, hne⟩
      refine ⟨hf, fun hsame => ?_⟩
      rw [nodup_of_distinct hdistinct hf hmem hsame] at hne
      simp at hne
    · rintro ⟨hf, hne⟩
      refine ⟨hf, ?_⟩
      rw [beq_eq_false_iff_ne]
      intro hsame
      exact hne (by rw [hsame])
  apply Triple.ite
  · intro hone
    apply (triple_cacheInvalidate hid List.eraseP_sublist).seq
    apply Triple.pure
    intro t ht
    obtain ⟨x, hx⟩ := List.length_eq_one_iff.mp hone
    have hempty : (pages.getD p []).eraseP (fun f => f.name == e.name) = [] := by
      rw [hx, List.mem_singleton] at he
      rw [hx, ← he]
      simp
    rw [flatten_eraseIdx hp, ← hempty, hpage]
    exact ht
  · intro _
    apply triple_call_any.seq
    apply (triple_cacheRemove hid List.eraseP_sublist hmember).seq
    apply Triple.pure
    intro t ht
    rw [hpage]
    exact ht

theorem triple_dirRemoveVolume {body : DirectoryBody} (hid : g.view id = some body.entries) :
    Triple (Near s₀ g) (dirRemoveVolume id body name)
      (fun body' => Staged s₀ g (update g.view id (some body'.entries))) (fun _ _ => True) := by
  apply Triple.look
  intro s hs
  rw [hs.casefold]
  cases body with
  | classic entries =>
    apply Triple.branch
    · exact (triple_eraseName hid).bind fun _ => .pure fun t ht => ht
    · exact .fail fun _ _ => trivial
  | paged pages => exact (triple_pagedDirRemove hid).bind fun rest => .pure fun t ht => ht
  | tree entries =>
    apply triple_call_any.seq
    apply Triple.branch
    · exact (triple_eraseName hid).bind fun _ => .pure fun t ht => ht
    · exact .fail fun _ _ => trivial

end Removal

end InfiltratorFS.Directory
