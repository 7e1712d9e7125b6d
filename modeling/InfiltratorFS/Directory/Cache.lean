import InfiltratorFS.Directory.Names
import InfiltratorFS.Library.ProbeTable

namespace InfiltratorFS.Directory

open ProbeTable

section Model

inductive ObjectType
  | directory
  | file
  | symlink
  deriving DecidableEq, Inhabited

structure CacheEntry where
  parentId : ObjectId
  objectId : ObjectId
  hash : UInt64
  pageIndex : Option Nat
  type : ObjectType
  nameLength : Nat
  name : Name
  deriving DecidableEq

structure CacheState where
  parentId : ObjectId
  complete : Bool
  deriving DecidableEq

/-- The directory cache: the names seen so far, and which directories have
all of their names in it. -/
structure DirectoryCache where
  entries : Nat → Slot CacheEntry
  states : Nat → Slot CacheState

def directoryCacheSlots : Nat := 65536

def directoryStateSlots : Nat := 8192

def directoryCacheHash (casefold : Bool) (parentId : ObjectId) (name : Name) : UInt64 :=
  parentId.toList.foldl fnvStep (namespaceNameHash casefold name)

def entryStart (casefold : Bool) (parentId : ObjectId) (name : Name) : Nat :=
  (directoryCacheHash casefold parentId name).toNat % directoryCacheSlots

def stateStart (parentId : ObjectId) : Nat := (objectCacheHash parentId).toNat % directoryStateSlots

def CacheEntry.hits (casefold : Bool) (parentId : ObjectId) (name : Name) (e : CacheEntry) : Bool :=
  e.hash == directoryCacheHash casefold parentId name && e.nameLength == name.length && e.parentId == parentId &&
    namespaceNameEqual casefold e.name name

def CacheState.hits (parentId : ObjectId) (s : CacheState) : Bool := s.parentId == parentId

def directoryCacheClear : DirectoryCache := ⟨fun _ => .empty, fun _ => .empty⟩

namespace DirectoryCache

variable (cache : DirectoryCache) (parentId : ObjectId) (casefold : Bool)

def state : Option CacheState :=
  match find directoryStateSlots cache.states (CacheState.hits parentId) (stateStart parentId) with
  | some q =>
    match cache.states q with
    | .live s => some s
    | _ => none
  | none => none

def complete : Bool :=
  match cache.state parentId with
  | some s => s.complete
  | none => false

def markComplete : DirectoryCache :=
  match store directoryStateSlots cache.states (CacheState.hits parentId) (fun s => { s with complete := true })
    ⟨parentId, true⟩ (stateStart parentId) with
  | some states => { cache with states := states }
  | none => cache

def markIncomplete : DirectoryCache :=
  { cache with
    states := adjust directoryStateSlots cache.states (CacheState.hits parentId) (fun s => { s with complete := false })
      (stateStart parentId) }

def find (parentId : ObjectId) (name : Name) : Option CacheEntry :=
  match ProbeTable.find directoryCacheSlots cache.entries (CacheEntry.hits casefold parentId name)
    (entryStart casefold parentId name) with
  | some q =>
    match cache.entries q with
    | .live e => some e
    | _ => none
  | none => none

def lookup (parentId : ObjectId) (name : Name) : Option (ObjectId × ObjectType) :=
  (cache.find casefold parentId name).map fun e => (e.objectId, e.type)

def page (parentId : ObjectId) (name : Name) : Option Nat :=
  (cache.find casefold parentId name).bind (·.pageIndex)

def store (parentId : ObjectId) (name : Name) (objectId : ObjectId) (type : ObjectType)
    (pageIndex : Option Nat) : Bool × DirectoryCache :=
  if name.length = 0 ∨ nameMax < name.length then (false, cache)
  else
    match ProbeTable.store directoryCacheSlots cache.entries (CacheEntry.hits casefold parentId name)
      (fun e => { e with objectId := objectId, type := type, pageIndex := pageIndex.or e.pageIndex })
      ⟨parentId, objectId, directoryCacheHash casefold parentId name, pageIndex, type, name.length, name⟩
      (entryStart casefold parentId name) with
    | some entries => (true, { cache with entries := entries })
    | none => (false, cache.markIncomplete parentId)

def remove (parentId : ObjectId) (name : Name) : DirectoryCache :=
  { cache with
    entries := ProbeTable.remove directoryCacheSlots cache.entries (CacheEntry.hits casefold parentId name)
      (entryStart casefold parentId name) }

def invalidateParent : DirectoryCache :=
  { cache with entries := sweep cache.entries fun e => e.parentId == parentId }.markIncomplete parentId

end DirectoryCache

end Model

section Meaning

variable (casefold : Bool)

abbrev CacheKey := ObjectId × Name

def CacheEntry.key (e : CacheEntry) : CacheKey := (e.parentId, foldName casefold e.name)

def keyStart (key : CacheKey) : Nat :=
  (key.1.toList.foldl fnvStep (key.2.foldl fnvStep fnvBasis)).toNat % directoryCacheSlots

def CacheEntry.Formed (e : CacheEntry) : Prop :=
  e.hash = directoryCacheHash casefold e.parentId e.name ∧ e.nameLength = e.name.length

namespace DirectoryCache

structure WellFormed (cache : DirectoryCache) : Prop where
  entries : Placed directoryCacheSlots keyStart (CacheEntry.key casefold) cache.entries
  formed : ∀ e, Holds directoryCacheSlots cache.entries e → e.Formed casefold
  states : Placed directoryStateSlots stateStart CacheState.parentId cache.states

def Knows (cache : DirectoryCache) (key : CacheKey) (found : ObjectId × ObjectType) : Prop :=
  ∃ e, Holds directoryCacheSlots cache.entries e ∧ e.key casefold = key ∧ (e.objectId, e.type) = found

def Complete (cache : DirectoryCache) (parentId : ObjectId) : Prop :=
  ∃ s, Holds directoryStateSlots cache.states s ∧ s.parentId = parentId ∧ s.complete = true

end DirectoryCache

end Meaning

section Specs

variable {casefold : Bool} {cache : DirectoryCache} {parentId : ObjectId} {name : Name}

theorem entryStart_eq (casefold : Bool) (parentId : ObjectId) (name : Name) :
    entryStart casefold parentId name = keyStart (parentId, foldName casefold name) := by
  rw [entryStart, directoryCacheHash, namespaceNameHash_eq]
  rfl

theorem directoryCacheHash_congr {left right : Name} (h : foldName casefold left = foldName casefold right) :
    directoryCacheHash casefold parentId left = directoryCacheHash casefold parentId right := by
  rw [directoryCacheHash, directoryCacheHash, namespaceNameHash_eq, namespaceNameHash_eq, h]

theorem CacheEntry.hits_iff {e : CacheEntry} (he : e.Formed casefold) :
    e.hits casefold parentId name = true ↔ e.key casefold = (parentId, foldName casefold name) := by
  obtain ⟨hhash, hlength⟩ := he
  unfold CacheEntry.hits CacheEntry.key
  simp only [Bool.and_eq_true, beq_iff_eq, namespaceNameEqual_iff, Prod.mk.injEq]
  constructor
  · rintro ⟨⟨_, hparent⟩, hname⟩
    exact ⟨hparent, hname⟩
  · rintro ⟨hparent, hname⟩
    refine ⟨⟨⟨?_, ?_⟩, hparent⟩, hname⟩
    · rw [hhash, hparent, directoryCacheHash_congr hname]
    · have := congrArg List.length hname
      rwa [length_foldName, length_foldName, ← hlength] at this

theorem CacheState.hits_iff (s : CacheState) : s.hits parentId = true ↔ s.parentId = parentId := beq_iff_eq

namespace DirectoryCache

theorem wellFormed_clear (casefold : Bool) : directoryCacheClear.WellFormed casefold :=
  ⟨placed_empty, fun e he => absurd he (not_holds_empty e), placed_empty⟩

theorem not_knows_clear (casefold : Bool) (key : CacheKey) (found : ObjectId × ObjectType) :
    ¬directoryCacheClear.Knows casefold key found := by
  rintro ⟨e, he, _⟩
  exact not_holds_empty e he

theorem not_complete_clear (parentId : ObjectId) : ¬directoryCacheClear.Complete parentId := by
  rintro ⟨s, hs, _⟩
  exact not_holds_empty s hs

variable (h : cache.WellFormed casefold) {other : ObjectId}

include h

theorem WellFormed.hits (e : CacheEntry) (he : Holds directoryCacheSlots cache.entries e) :
    e.hits casefold parentId name = true ↔ e.key casefold = (parentId, foldName casefold name) :=
  CacheEntry.hits_iff (h.formed e he)

theorem lookup_eq_some (found : ObjectId × ObjectType) :
    cache.lookup casefold parentId name = some found ↔ cache.Knows casefold (parentId, foldName casefold name) found := by
  unfold lookup find
  rw [entryStart_eq]
  obtain ⟨q, e, hq, hlt, he, hkey⟩ | ⟨hnone, habsent⟩ :=
    find_cases (k := (parentId, foldName casefold name)) h.entries h.hits (by decide)
  · simp only [hq, he, Option.map_some, Option.some.injEq]
    constructor
    · intro hfound
      exact ⟨e, ⟨q, hlt, he⟩, hkey, hfound⟩
    · rintro ⟨e', he', hkey', hfound⟩
      rw [h.entries.eq_of_key ⟨q, hlt, he⟩ he' (hkey.trans hkey'.symm), hfound]
  · rw [hnone]
    constructor
    · intro hfound
      cases hfound
    · rintro ⟨e, he, hkey, _⟩
      exact absurd hkey (habsent e he)

theorem lookup_eq_none :
    cache.lookup casefold parentId name = none ↔
      ∀ found, ¬cache.Knows casefold (parentId, foldName casefold name) found := by
  rw [Option.eq_none_iff_forall_ne_some]
  apply forall_congr'
  intro found
  rw [ne_eq, lookup_eq_some h]

theorem complete_iff : cache.complete parentId = true ↔ cache.Complete parentId := by
  unfold complete state
  obtain ⟨q, s, hq, hlt, hs, hparent⟩ | ⟨hnone, habsent⟩ :=
    find_cases (k := parentId) h.states (fun s _ => s.hits_iff) (by decide)
  · simp only [hq, hs]
    constructor
    · intro hcomplete
      exact ⟨s, ⟨q, hlt, hs⟩, hparent, hcomplete⟩
    · rintro ⟨t, ht, hparent', hcomplete⟩
      rwa [h.states.eq_of_key ⟨q, hlt, hs⟩ ht (hparent.trans hparent'.symm)]
  · rw [hnone]
    constructor
    · intro hfalse
      cases hfalse
    · rintro ⟨t, ht, hparent, _⟩
      exact absurd hparent (habsent t ht)

theorem wellFormed_markComplete : (cache.markComplete parentId).WellFormed casefold := by
  unfold markComplete
  split
  · rename_i states hstates
    exact ⟨h.entries, h.formed, (store_eq_some h.states (by decide) (fun s _ => s.hits_iff) hstates (fun _ => rfl) rfl).1⟩
  · exact h

theorem complete_markComplete (hother : (cache.markComplete parentId).Complete other) :
    cache.Complete other ∨ other = parentId := by
  by_cases hne : other = parentId
  · exact .inr hne
  · left
    unfold markComplete at hother
    split at hother
    · rename_i states hstates
      obtain ⟨s, hs, hparent, hcomplete⟩ := hother
      obtain ⟨-, e, hkey, -, hholds⟩ :=
        store_eq_some h.states (by decide) (fun s _ => s.hits_iff) hstates (fun _ => rfl) rfl
      rcases (hholds s).mp hs with ⟨hold, _⟩ | rfl
      · exact ⟨s, hold, hparent, hcomplete⟩
      · exact absurd (hparent.symm.trans hkey) hne
    · exact hother

variable (key : CacheKey)

omit h in
@[simp] theorem knows_markComplete (found : ObjectId × ObjectType) :
    (cache.markComplete parentId).Knows casefold key found ↔ cache.Knows casefold key found := by
  unfold markComplete
  split <;> rfl

theorem wellFormed_markIncomplete : (cache.markIncomplete parentId).WellFormed casefold := by
  refine ⟨h.entries, h.formed, ?_⟩
  apply placed_adjust h.states
  intro s
  rfl

theorem complete_markIncomplete (hother : (cache.markIncomplete parentId).Complete other) :
    cache.Complete other ∧ other ≠ parentId := by
  obtain ⟨s, hs, hparent, hcomplete⟩ := hother
  rcases (holds_adjust h.states (by decide) (fun s _ => s.hits_iff) s).mp hs with ⟨hold, hne⟩ | ⟨s', _, _, rfl⟩
  · exact ⟨⟨s, hold, hparent, hcomplete⟩, hparent ▸ hne⟩
  · cases hcomplete

omit h in
@[simp] theorem knows_markIncomplete (found : ObjectId × ObjectType) :
    (cache.markIncomplete parentId).Knows casefold key found ↔ cache.Knows casefold key found := Iff.rfl

variable (objectId : ObjectId)

theorem wellFormed_store (type : ObjectType) (pageIndex : Option Nat) :
    (cache.store casefold parentId name objectId type pageIndex).2.WellFormed casefold := by
  unfold store
  split
  · exact h
  · rw [entryStart_eq]
    split
    · rename_i entries hentries
      obtain ⟨hplaced, e, hkey, hform, hholds⟩ :=
        store_eq_some h.entries (by decide) h.hits hentries (fun _ => rfl) rfl
      refine ⟨hplaced, fun f hf => ?_, h.states⟩
      rcases (hholds f).mp hf with ⟨hold, _⟩ | rfl
      · exact h.formed f hold
      · rcases hform with rfl | ⟨old, hold, rfl⟩
        · exact ⟨rfl, rfl⟩
        · exact h.formed old hold
    · exact wellFormed_markIncomplete h

/-- A stored name is answered with the stored object; a name that did not get
a slot is not answered at all. -/
theorem knows_store (type : ObjectType) (pageIndex : Option Nat)
    (hname : ¬(name.length = 0 ∨ nameMax < name.length)) (key : CacheKey) (found : ObjectId × ObjectType) :
    (cache.store casefold parentId name objectId type pageIndex).2.Knows casefold key found ↔
      (key ≠ (parentId, foldName casefold name) ∧ cache.Knows casefold key found) ∨
      ((cache.store casefold parentId name objectId type pageIndex).1 = true ∧
        key = (parentId, foldName casefold name) ∧ found = (objectId, type)) := by
  unfold store
  rw [if_neg hname, entryStart_eq]
  split
  · rename_i entries hentries
    obtain ⟨-, e, hkey, hform, hholds⟩ := store_eq_some h.entries (by decide) h.hits hentries (fun _ => rfl) rfl
    have hstored : (e.objectId, e.type) = (objectId, type) := by
      rcases hform with rfl | ⟨old, _, rfl⟩
      · rfl
      · rfl
    constructor
    · rintro ⟨f, hf, rfl, rfl⟩
      rcases (hholds f).mp hf with ⟨hold, hne⟩ | rfl
      · exact .inl ⟨hne, f, hold, rfl, rfl⟩
      · exact .inr ⟨rfl, hkey, hstored⟩
    · rintro (⟨hk, f, hf, rfl, hfound⟩ | ⟨_, rfl, rfl⟩)
      · exact ⟨f, (hholds f).mpr (.inl ⟨hf, hk⟩), rfl, hfound⟩
      · exact ⟨e, (hholds e).mpr (.inr rfl), hkey, hstored⟩
  · rename_i hnone
    rw [knows_markIncomplete]
    constructor
    · rintro ⟨f, hf, rfl, hfound⟩
      exact .inl ⟨store_eq_none h.entries h.hits hnone hf, f, hf, rfl, hfound⟩
    · rintro (⟨_, hknows⟩ | ⟨hfalse, _⟩)
      · exact hknows
      · cases hfalse

theorem complete_store (type : ObjectType) (pageIndex : Option Nat)
    (hname : ¬(name.length = 0 ∨ nameMax < name.length))
    (hother : (cache.store casefold parentId name objectId type pageIndex).2.Complete other) :
    cache.Complete other ∧
      ((cache.store casefold parentId name objectId type pageIndex).1 = true ∨ other ≠ parentId) := by
  unfold store at hother ⊢
  rw [if_neg hname] at hother ⊢
  split at hother
  · exact ⟨hother, Or.inl rfl⟩
  · rename_i hnone
    obtain ⟨hcomplete, hne⟩ := complete_markIncomplete h hother
    exact ⟨hcomplete, Or.inr hne⟩

theorem wellFormed_remove : (cache.remove casefold parentId name).WellFormed casefold := by
  refine ⟨placed_remove h.entries _, fun e he => ?_, h.states⟩
  unfold remove at he
  rw [entryStart_eq] at he
  exact h.formed e ((holds_remove h.entries (by decide) h.hits e).mp he).1

theorem knows_remove (found : ObjectId × ObjectType) :
    (cache.remove casefold parentId name).Knows casefold key found ↔
      cache.Knows casefold key found ∧ key ≠ (parentId, foldName casefold name) := by
  unfold remove Knows
  rw [entryStart_eq]
  constructor
  · rintro ⟨e, he, rfl, hfound⟩
    obtain ⟨hold, hne⟩ := (holds_remove h.entries (by decide) h.hits e).mp he
    exact ⟨⟨e, hold, rfl, hfound⟩, hne⟩
  · rintro ⟨⟨e, he, rfl, hfound⟩, hne⟩
    exact ⟨e, (holds_remove h.entries (by decide) h.hits e).mpr ⟨he, hne⟩, rfl, hfound⟩

omit h in
@[simp] theorem complete_remove (other : ObjectId) :
    (cache.remove casefold parentId name).Complete other ↔ cache.Complete other := Iff.rfl

theorem wellFormed_invalidateParent : (cache.invalidateParent parentId).WellFormed casefold := by
  apply wellFormed_markIncomplete
  refine ⟨placed_sweep h.entries, fun e he => ?_, h.states⟩
  exact h.formed e ((holds_sweep e).mp he).1

omit h in
theorem knows_invalidateParent (found : ObjectId × ObjectType) :
    (cache.invalidateParent parentId).Knows casefold key found ↔ cache.Knows casefold key found ∧ key.1 ≠ parentId := by
  unfold invalidateParent
  rw [knows_markIncomplete]
  constructor
  · rintro ⟨e, he, rfl, hfound⟩
    obtain ⟨hold, hne⟩ := (holds_sweep e).mp he
    exact ⟨⟨e, hold, rfl, hfound⟩, by simpa [CacheEntry.key] using hne⟩
  · rintro ⟨⟨e, he, rfl, hfound⟩, hne⟩
    exact ⟨e, (holds_sweep e).mpr ⟨he, by simpa [CacheEntry.key] using hne⟩, rfl, hfound⟩

theorem complete_invalidateParent (hother : (cache.invalidateParent parentId).Complete other) :
    cache.Complete other ∧ other ≠ parentId := by
  have hswept : ({ cache with entries := sweep cache.entries fun e => e.parentId == parentId } :
      DirectoryCache).WellFormed casefold :=
    ⟨placed_sweep h.entries, fun e he => h.formed e ((holds_sweep e).mp he).1, h.states⟩
  exact complete_markIncomplete hswept hother

end DirectoryCache

end Specs

end InfiltratorFS.Directory
