import InfiltratorFS.Directory.Namespace
import InfiltratorFS.Library.Triple
import Mathlib.Data.List.Nodup

namespace InfiltratorFS.Directory

open Prog Function DirectoryCache

section View

abbrev View := ObjectId → Option (List Dirent)

def Graph.view (g : Graph) : View := fun id => (g.directory id).map (·.entries)

structure View.Sound (casefold : Bool) (v : View) : Prop where
  distinct : ∀ id es, v id = some es → (es.map fun e => foldName casefold e.name).Nodup
  named : ∀ id es, v id = some es → ∀ e ∈ es, ¬(e.name.length = 0 ∨ nameMax < e.name.length)

def Bound (casefold : Bool) (es : List Dirent) (name : Name) (found : ObjectId × ObjectType) : Prop :=
  ∃ e ∈ es, foldName casefold e.name = foldName casefold name ∧ (e.objectId, e.objectType) = found

def Unbound (casefold : Bool) (es : List Dirent) (name : Name) : Prop :=
  ∀ e ∈ es, foldName casefold e.name ≠ foldName casefold name

/-- Every cached name is an entry of its directory, and a complete directory
has all of its entries cached. -/
structure Coherent (casefold : Bool) (cache : DirectoryCache) (v : View) : Prop where
  formed : cache.WellFormed casefold
  known : ∀ key found, cache.Knows casefold key found →
    ∃ es, v key.1 = some es ∧ ∃ e ∈ es, foldName casefold e.name = key.2 ∧ (e.objectId, e.objectType) = found
  complete : ∀ id es, v id = some es → cache.Complete id →
    ∀ e ∈ es, cache.Knows casefold (id, foldName casefold e.name) (e.objectId, e.objectType)

variable {casefold : Bool} {cache : DirectoryCache} {v : View} {id : ObjectId} {es es' : List Dirent} {name : Name}

theorem nodup_of_distinct {e e' : Dirent} (h : (es.map fun e => foldName casefold e.name).Nodup) (he : e ∈ es)
    (he' : e' ∈ es) (hname : foldName casefold e.name = foldName casefold e'.name) : e = e' :=
  List.inj_on_of_nodup_map h he he' hname

theorem Coherent.clear (casefold : Bool) (v : View) : Coherent casefold directoryCacheClear v where
  formed := DirectoryCache.wellFormed_clear casefold
  known key found h := absurd h (DirectoryCache.not_knows_clear casefold key found)
  complete id _ _ h := absurd h (DirectoryCache.not_complete_clear id)

variable (h : Coherent casefold cache v)
include h

theorem Coherent.store (hv : View.Sound casefold v) (hid : v id = some es) {e : Dirent}
    (he : e ∈ es) (hname : foldName casefold e.name = foldName casefold name) (page : Option Nat) :
    Coherent casefold (cache.store casefold id name e.objectId e.objectType page).2 v := by
  have hlength : ¬(name.length = 0 ∨ nameMax < name.length) := by
    have := hv.named id es hid e he
    rwa [← length_foldName casefold, hname, length_foldName] at this
  constructor
  · exact wellFormed_store h.formed _ _ _
  · intro key found hknows
    rcases (knows_store h.formed _ _ _ hlength key found).mp hknows with ⟨_, hold⟩ | ⟨_, rfl, rfl⟩
    · exact h.known key found hold
    · exact ⟨es, hid, e, he, hname, rfl⟩
  · intro other os hother hcomplete f hf
    obtain ⟨hold, hstored⟩ := complete_store h.formed _ _ _ hlength hcomplete
    have hknows := h.complete other os hother hold f hf
    rw [knows_store h.formed _ _ _ hlength]
    by_cases hkey : (other, foldName casefold f.name) = (id, foldName casefold name)
    · right
      obtain ⟨rfl, hfold⟩ := Prod.mk.inj hkey
      obtain rfl : es = os := Option.some.inj (hid.symm.trans hother)
      obtain rfl := nodup_of_distinct (hv.distinct other es hid) hf he (hfold.trans hname.symm)
      exact ⟨hstored.resolve_right (not_not_intro rfl), hkey, rfl⟩
    · exact .inl ⟨hkey, hknows⟩

theorem Coherent.markComplete (hid : v id = some es)
    (hall : ∀ e ∈ es, cache.Knows casefold (id, foldName casefold e.name) (e.objectId, e.objectType)) :
    Coherent casefold (cache.markComplete id) v := by
  constructor
  · exact DirectoryCache.wellFormed_markComplete h.formed
  · intro key found hknows
    rw [knows_markComplete] at hknows
    exact h.known key found hknows
  · intro other os hother hcomplete e he
    rw [knows_markComplete]
    rcases DirectoryCache.complete_markComplete h.formed hcomplete with hold | rfl
    · exact h.complete other os hother hold e he
    · obtain rfl : es = os := Option.some.inj (hid.symm.trans hother)
      exact hall e he

theorem Coherent.add (hid : v id = some es) {entry : Dirent}
    (hname : ¬(entry.name.length = 0 ∨ nameMax < entry.name.length)) (hfree : Unbound casefold es entry.name)
    (hes' : ∀ e, e ∈ es' ↔ e ∈ es ∨ e = entry) (page : Option Nat) :
    Coherent casefold (cache.store casefold id entry.name entry.objectId entry.objectType page).2
      (update v id (some es')) := by
  constructor
  · exact wellFormed_store h.formed _ _ _
  · intro key found hknows
    rcases (knows_store h.formed _ _ _ hname key found).mp hknows with ⟨_, hold⟩ | ⟨_, rfl, rfl⟩
    · obtain ⟨os, hos, e, he, hfold, hfound⟩ := h.known key found hold
      by_cases hk : key.1 = id
      · rw [hk] at hos ⊢
        obtain rfl : es = os := Option.some.inj (hid.symm.trans hos)
        exact ⟨es', update_self .., e, (hes' e).mpr (.inl he), hfold, hfound⟩
      · exact ⟨os, by rw [update_of_ne hk, hos], e, he, hfold, hfound⟩
    · exact ⟨es', update_self .., entry, (hes' entry).mpr (.inr rfl), rfl, rfl⟩
  · intro other os hother hcomplete e he
    obtain ⟨hold, hstored⟩ := complete_store h.formed _ _ _ hname hcomplete
    rw [knows_store h.formed _ _ _ hname]
    obtain ⟨rfl, hnew⟩ | ⟨hk, hother⟩ := ProbeTable.update_eq_iff.mp hother
    · obtain rfl := Option.some.inj hnew
      rcases (hes' e).mp he with hmem | rfl
      · exact .inl ⟨fun hkey => hfree e hmem (Prod.mk.inj hkey).2, h.complete other es hid hold e hmem⟩
      · exact .inr ⟨hstored.resolve_right (not_not_intro rfl), rfl, rfl⟩
    · exact .inl ⟨fun hkey => hk (Prod.mk.inj hkey).1, h.complete other os hother hold e he⟩

theorem Coherent.remove (hid : v id = some es)
    (hes' : ∀ e, e ∈ es' ↔ e ∈ es ∧ foldName casefold e.name ≠ foldName casefold name) :
    Coherent casefold (cache.remove casefold id name) (update v id (some es')) := by
  constructor
  · exact DirectoryCache.wellFormed_remove h.formed
  · intro key found hknows
    obtain ⟨hold, hne⟩ := (knows_remove h.formed key found).mp hknows
    obtain ⟨os, hos, e, he, hfold, hfound⟩ := h.known key found hold
    by_cases hk : key.1 = id
    · rw [hk] at hos ⊢
      obtain rfl : es = os := Option.some.inj (hid.symm.trans hos)
      refine ⟨es', update_self .., e, (hes' e).mpr ⟨he, fun hsame => hne ?_⟩, hfold, hfound⟩
      ext1
      · exact hk
      · exact hfold.symm.trans hsame
    · exact ⟨os, by rw [update_of_ne hk, hos], e, he, hfold, hfound⟩
  · intro other os hother hcomplete e he
    rw [DirectoryCache.complete_remove] at hcomplete
    rw [knows_remove h.formed]
    obtain ⟨rfl, hnew⟩ | ⟨hk, hother⟩ := ProbeTable.update_eq_iff.mp hother
    · obtain rfl := Option.some.inj hnew
      obtain ⟨hmem, hne⟩ := (hes' e).mp he
      exact ⟨h.complete other es hid hcomplete e hmem, fun hkey => hne (Prod.mk.inj hkey).2⟩
    · exact ⟨h.complete other os hother hcomplete e he, fun hkey => hk (Prod.mk.inj hkey).1⟩

theorem Coherent.invalidateParent (new : Option (List Dirent)) :
    Coherent casefold (cache.invalidateParent id) (update v id new) := by
  constructor
  · exact DirectoryCache.wellFormed_invalidateParent h.formed
  · intro key found hknows
    obtain ⟨hold, hne⟩ := (knows_invalidateParent key found).mp hknows
    obtain ⟨os, hos, hrest⟩ := h.known key found hold
    exact ⟨os, by rw [update_of_ne hne, hos], hrest⟩
  · intro other os hother hcomplete e he
    obtain ⟨hold, hne⟩ := DirectoryCache.complete_invalidateParent h.formed hcomplete
    rw [update_of_ne hne] at hother
    rw [knows_invalidateParent]
    exact ⟨h.complete other os hother hold e he, hne⟩

theorem Coherent.update_empty {old new : Option (List Dirent)} (hid : v id = old)
    (hold : ∀ es, old = some es → es = []) (hnew : ∀ es, new = some es → es = []) :
    Coherent casefold cache (update v id new) := by
  constructor
  · exact h.formed
  · intro key found hknows
    obtain ⟨os, hos, e, he, hrest⟩ := h.known key found hknows
    have hk : key.1 ≠ id := by
      intro hk
      rw [hk, hid] at hos
      rw [hold os hos] at he
      cases he
    exact ⟨os, by rw [update_of_ne hk, hos], e, he, hrest⟩
  · intro other os hother hcomplete e he
    obtain ⟨-, hos⟩ | ⟨-, hother⟩ := ProbeTable.update_eq_iff.mp hother
    · rw [hnew os hos] at he
      cases he
    · exact h.complete other os hother hcomplete e he

end View

end InfiltratorFS.Directory
