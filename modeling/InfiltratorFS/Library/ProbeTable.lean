import Mathlib.Logic.Function.Basic

/-- A slot of an open addressing table. A removed entry leaves a tombstone,
so that the entries placed behind it stay within reach. -/
inductive Slot (α : Type)
  | empty
  | live (entry : α)
  | tombstone
  deriving DecidableEq

namespace ProbeTable

variable {α κ : Type}

section Operations

variable (size : Nat) (table : Nat → Slot α) (hit : α → Bool)

def probe (start : Nat) : Nat → Nat → Option Nat
  | 0, _ => none
  | fuel + 1, i =>
    match table ((start + i) % size) with
    | .empty => none
    | .live e => if hit e then some ((start + i) % size) else probe start fuel (i + 1)
    | .tombstone => probe start fuel (i + 1)

def find (start : Nat) : Option Nat := probe size table hit start size 0

/-- Linear probing for an insertion: an entry that is hit is changed, and a
fresh one goes to the first tombstone passed on the way to an empty slot. A
table without an empty slot takes no fresh entry. -/
def place (change : α → α) (fresh : α) (start : Nat) : Nat → Nat → Option Nat → Option (Nat → Slot α)
  | 0, _, _ => none
  | fuel + 1, i, spare =>
    match table ((start + i) % size) with
    | .empty => some (Function.update table (spare.getD ((start + i) % size)) (.live fresh))
    | .live e =>
      if hit e then some (Function.update table ((start + i) % size) (.live (change e)))
      else place change fresh start fuel (i + 1) spare
    | .tombstone => place change fresh start fuel (i + 1) (spare.or (some ((start + i) % size)))

def store (change : α → α) (fresh : α) (start : Nat) : Option (Nat → Slot α) :=
  place size table hit change fresh start size 0 none

def remove (start : Nat) : Nat → Slot α :=
  match find size table hit start with
  | some q => Function.update table q .tombstone
  | none => table

def adjust (change : α → α) (start : Nat) : Nat → Slot α :=
  match find size table hit start with
  | some q =>
    match table q with
    | .live e => Function.update table q (.live (change e))
    | _ => table
  | none => table

def sweep : Nat → Slot α := fun q =>
  match table q with
  | .live e => if hit e then .tombstone else .live e
  | slot => slot

end Operations

section Placement

variable (size : Nat) (home : κ → Nat) (key : α → κ)

/-- Every entry is reached from the home slot of its key over slots that are
not empty, and no key is there twice. -/
structure Placed (table : Nat → Slot α) : Prop where
  reached : ∀ e q, q < size → table q = .live e →
    ∃ i < size, (home (key e) + i) % size = q ∧ ∀ j < i, table ((home (key e) + j) % size) ≠ .empty
  unique : ∀ e e' q q', q < size → q' < size → table q = .live e → table q' = .live e' → key e = key e' → q = q'

def Holds (table : Nat → Slot α) (e : α) : Prop := ∃ q < size, table q = .live e

end Placement

variable {size : Nat} {home : κ → Nat} {key : α → κ} {table table' : Nat → Slot α} {hit : α → Bool}

theorem placed_empty : Placed size home key (fun _ => (.empty : Slot α)) :=
  ⟨fun _ _ _ h => (nomatch h), fun _ _ _ _ _ _ h => (nomatch h)⟩

theorem not_holds_empty (e : α) : ¬Holds size (fun _ => .empty) e := by
  rintro ⟨_, _, h⟩
  cases h

theorem Placed.eq_of_key (h : Placed size home key table) {e e' : α} (he : Holds size table e)
    (he' : Holds size table e') (hkey : key e = key e') : e = e' := by
  obtain ⟨q, hq, ht⟩ := he
  obtain ⟨q', hq', ht'⟩ := he'
  obtain rfl := h.unique e e' q q' hq hq' ht ht' hkey
  rw [ht] at ht'
  cases ht'
  rfl

theorem Placed.of_change (h : Placed size home key table) (hempty : ∀ q, table' q = .empty → table q = .empty)
    (hlive : ∀ q e', table' q = .live e' → ∃ e, table q = .live e ∧ key e = key e') : Placed size home key table' := by
  constructor
  · intro e' q hq hl
    obtain ⟨e, ht, hkey⟩ := hlive q e' hl
    obtain ⟨i, hi, hqi, hpath⟩ := h.reached e q hq ht
    rw [hkey] at hqi hpath
    exact ⟨i, hi, hqi, fun j hj he => hpath j hj (hempty _ he)⟩
  · intro e₁ e₂ q₁ q₂ hq₁ hq₂ h₁ h₂ hkey
    obtain ⟨f₁, ht₁, hk₁⟩ := hlive q₁ e₁ h₁
    obtain ⟨f₂, ht₂, hk₂⟩ := hlive q₂ e₂ h₂
    apply h.unique f₁ f₂ q₁ q₂ hq₁ hq₂ ht₁ ht₂
    rw [hk₁, hk₂, hkey]

theorem update_eq_iff {ι γ : Type} [DecidableEq ι] {f : ι → γ} {i j : ι} {x y : γ} :
    Function.update f i x j = y ↔ (j = i ∧ x = y) ∨ (j ≠ i ∧ f j = y) := by
  by_cases h : j = i
  · simp [h]
  · simp [h]

theorem Placed.update (h : Placed size home key table) {q : Nat} {slot : Slot α} (hslot : slot ≠ .empty)
    (hlive : ∀ e', slot = .live e' → ∃ e, table q = .live e ∧ key e = key e') :
    Placed size home key (Function.update table q slot) := by
  apply h.of_change
  · intro q' he
    obtain ⟨-, he⟩ | ⟨-, he⟩ := update_eq_iff.mp he
    · exact absurd he hslot
    · exact he
  · intro q' e' he
    obtain ⟨rfl, hnew⟩ | ⟨-, hold⟩ := update_eq_iff.mp he
    · exact hlive e' hnew
    · exact ⟨e', hold, rfl⟩

section Search

variable {start fuel i q : Nat}

theorem probe_eq_some (h : probe size table hit start fuel i = some q) (hsize : 0 < size) :
    q < size ∧ ∃ e, table q = .live e ∧ hit e = true := by
  fun_induction probe size table hit start fuel i with
  | case3 fuel i e he hhit =>
    cases h
    exact ⟨Nat.mod_lt _ hsize, e, he, hhit⟩
  | case4 _ _ _ _ _ ih => exact ih h
  | case5 _ _ _ ih => exact ih h
  | _ => cases h

/-- No entry in the slots from i up to stop is hit. -/
def Misses (size : Nat) (table : Nat → Slot α) (hit : α → Bool) (start i stop : Nat) : Prop :=
  ∀ j, i ≤ j → j < stop → ∀ e, table ((start + j) % size) = .live e → hit e = false

theorem misses_self : Misses size table hit start i i := fun _ h₁ h₂ => absurd h₁ (Nat.not_le_of_lt h₂)

theorem Misses.earlier {stop : Nat} (h : Misses size table hit start (i + 1) stop)
    (hhere : ∀ e, table ((start + i) % size) = .live e → hit e = false) : Misses size table hit start i stop := by
  intro j hj hstop
  rcases Nat.eq_or_lt_of_le hj with rfl | hlt
  · exact hhere
  · exact h j hlt hstop

theorem probe_eq_none (h : probe size table hit start fuel i = none) :
    ∃ m, (m = i + fuel ∨ table ((start + m) % size) = .empty) ∧ Misses size table hit start i m := by
  fun_induction probe size table hit start fuel i with
  | case1 i => exact ⟨i, .inl rfl, misses_self⟩
  | case2 fuel i he => exact ⟨i, .inr he, misses_self⟩
  | case3 => cases h
  | case4 fuel i e he hmiss ih =>
    obtain ⟨m, hend, hbefore⟩ := ih h
    refine ⟨m, hend.imp_left (by omega), hbefore.earlier fun e' he' => ?_⟩
    rw [he] at he'
    cases he'
    exact Bool.not_eq_true _ ▸ hmiss
  | case5 fuel i ht ih =>
    obtain ⟨m, hend, hbefore⟩ := ih h
    refine ⟨m, hend.imp_left (by omega), hbefore.earlier fun e he => ?_⟩
    rw [ht] at he
    cases he

variable {k : κ} (h : Placed size home key table) (hhit : ∀ e, Holds size table e → (hit e = true ↔ key e = k))

include hhit

theorem find_eq_some (hsome : find size table hit (home k) = some q) (hsize : 0 < size) :
    q < size ∧ ∃ e, table q = .live e ∧ key e = k := by
  obtain ⟨hq, e, ht, hyes⟩ := probe_eq_some hsome hsize
  exact ⟨hq, e, ht, (hhit e ⟨q, hq, ht⟩).mp hyes⟩

include h

/-- The slots before an empty one, or all of them, hold every entry of the key. -/
theorem Placed.no_entry {m : Nat} (hend : m = size ∨ table ((home k + m) % size) = .empty)
    (hmiss : Misses size table hit (home k) 0 m) {e : α} (he : Holds size table e) : key e ≠ k := by
  intro hkey
  have hyes := (hhit e he).mpr hkey
  obtain ⟨q, hq, ht⟩ := he
  obtain ⟨i, hi, hqi, hpath⟩ := h.reached e q hq ht
  rw [hkey] at hqi hpath
  have him : i < m := by
    by_contra hge
    rcases hend with rfl | hempty
    · exact hge hi
    · rcases Nat.eq_or_lt_of_le (Nat.le_of_not_lt hge) with rfl | hlt
      · rw [hqi, ht] at hempty
        cases hempty
      · exact hpath m hlt hempty
  rw [← hqi] at ht
  rw [hmiss i (Nat.zero_le i) him e ht] at hyes
  cases hyes

theorem find_eq_none (hnone : find size table hit (home k) = none) {e : α} (he : Holds size table e) : key e ≠ k := by
  obtain ⟨m, hend, hmiss⟩ := probe_eq_none hnone
  rw [Nat.zero_add] at hend
  exact h.no_entry hhit hend hmiss he

theorem find_cases (hsize : 0 < size) :
    (∃ q e, find size table hit (home k) = some q ∧ q < size ∧ table q = .live e ∧ key e = k) ∨
      (find size table hit (home k) = none ∧ ∀ e, Holds size table e → key e ≠ k) := by
  cases hfind : find size table hit (home k) with
  | none => exact .inr ⟨rfl, fun e he => find_eq_none h hhit hfind he⟩
  | some q =>
    obtain ⟨hq, e, he, hkey⟩ := find_eq_some hhit hfind hsize
    exact .inl ⟨q, e, rfl, hq, he, hkey⟩

end Search

section Changes

variable {k : κ} {change : α → α} (h : Placed size home key table)

include h

theorem placed_remove (start : Nat) : Placed size home key (remove size table hit start) := by
  unfold remove
  split
  · exact h.update (by simp) fun e he => by cases he
  · exact h

theorem Placed.holds_update_live {q : Nat} {e : α} (hq : q < size) (ht : table q = .live e) (f : α) :
    Holds size (Function.update table q (.live (change e))) f ↔ (Holds size table f ∧ key f ≠ key e) ∨ f = change e := by
  constructor
  · rintro ⟨q', hq', hf⟩
    obtain ⟨-, hf⟩ | ⟨hqq, hf⟩ := update_eq_iff.mp hf
    · cases hf
      exact .inr rfl
    · exact .inl ⟨⟨q', hq', hf⟩, fun hk => hqq (h.unique f e q' q hq' hq hf ht hk)⟩
  · rintro (⟨⟨q', hq', hf⟩, hne⟩ | rfl)
    · refine ⟨q', hq', update_eq_iff.mpr (.inr ⟨?_, hf⟩)⟩
      rintro rfl
      rw [ht] at hf
      cases hf
      exact hne rfl
    · exact ⟨q, hq, Function.update_self ..⟩

theorem placed_adjust (hchange : ∀ e, key (change e) = key e) (start : Nat) :
    Placed size home key (adjust size table hit change start) := by
  unfold adjust
  split
  · split
    · rename_i e he
      exact h.update (by simp) fun e' he' => by cases he'; exact ⟨e, he, (hchange e).symm⟩
    · exact h
  · exact h

variable (hsize : 0 < size) (hhit : ∀ e, Holds size table e → (hit e = true ↔ key e = k))

include hsize hhit

theorem holds_remove (e : α) : Holds size (remove size table hit (home k)) e ↔ Holds size table e ∧ key e ≠ k := by
  unfold remove
  obtain ⟨q, f, hq, hlt, hf, hkey⟩ | ⟨hnone, habsent⟩ := find_cases h hhit hsize
  · rw [hq]
    constructor
    · rintro ⟨q', hq', he⟩
      obtain ⟨-, he⟩ | ⟨hqq, he⟩ := update_eq_iff.mp he
      · cases he
      · exact ⟨⟨q', hq', he⟩, fun hk => hqq (h.unique e f q' q hq' hlt he hf (hk.trans hkey.symm))⟩
    · rintro ⟨⟨q', hq', he⟩, hne⟩
      refine ⟨q', hq', update_eq_iff.mpr (.inr ⟨?_, he⟩)⟩
      rintro rfl
      rw [hf] at he
      cases he
      exact hne hkey
  · rw [hnone]
    constructor
    · intro he
      exact ⟨he, habsent e he⟩
    · exact And.left

theorem holds_adjust (f : α) : Holds size (adjust size table hit change (home k)) f ↔
    (Holds size table f ∧ key f ≠ k) ∨ ∃ e, Holds size table e ∧ key e = k ∧ f = change e := by
  unfold adjust
  obtain ⟨q, e, hq, hlt, he, hkey⟩ | ⟨hnone, habsent⟩ := find_cases h hhit hsize
  · simp only [hq, he]
    rw [h.holds_update_live hlt he, hkey]
    apply or_congr_right
    constructor
    · rintro rfl
      exact ⟨e, ⟨q, hlt, he⟩, hkey, rfl⟩
    · rintro ⟨e', he', hk', rfl⟩
      rw [h.eq_of_key he' ⟨q, hlt, he⟩ (hk'.trans hkey.symm)]
  · rw [hnone]
    constructor
    · intro hf
      exact .inl ⟨hf, habsent f hf⟩
    · rintro (hf | ⟨e, he, hk, _⟩)
      · exact hf.1
      · exact absurd hk (habsent e he)

end Changes

section Sweep

theorem placed_sweep (h : Placed size home key table) : Placed size home key (sweep table hit) := by
  apply h.of_change
  · intro q he
    unfold sweep at he
    split at he
    · split at he <;> cases he
    · exact he
  · intro q e he
    unfold sweep at he
    split at he
    · rename_i hf
      split at he
      · cases he
      · cases he
        exact ⟨e, hf, rfl⟩
    · exact ⟨e, he, rfl⟩

theorem holds_sweep (e : α) : Holds size (sweep table hit) e ↔ Holds size table e ∧ hit e = false := by
  constructor
  · rintro ⟨q, hq, he⟩
    unfold sweep at he
    split at he
    · rename_i f hf
      split at he
      · cases he
      · rename_i hmiss
        cases he
        exact ⟨⟨q, hq, hf⟩, Bool.not_eq_true _ ▸ hmiss⟩
    · rename_i hslot
      exact absurd he (hslot e)
  · rintro ⟨⟨q, hq, he⟩, hmiss⟩
    refine ⟨q, hq, ?_⟩
    unfold sweep
    rw [he]
    simp only [hmiss, Bool.false_eq_true, if_false]

end Sweep

section Store

variable {change : α → α} {fresh : α}

/-- What an insertion that looks at the slots from i up to stop does: it fails
if none of them is hit or empty, changes the entry it hits, or puts the fresh
entry into a slot that is not live and is reached over slots that are not empty. -/
inductive Insertion (size : Nat) (table : Nat → Slot α) (hit : α → Bool) (change : α → α) (fresh : α)
    (start i stop : Nat) : Option (Nat → Slot α) → Prop
  | full (hmiss : ∀ j, i ≤ j → j < stop → ∀ e, table ((start + j) % size) = .live e → hit e = false) :
      Insertion size table hit change fresh start i stop none
  | changed (m : Nat) (e : α) (hlive : table ((start + m) % size) = .live e) (hyes : hit e = true) :
      Insertion size table hit change fresh start i stop
        (some (Function.update table ((start + m) % size) (.live (change e))))
  | filled (m n : Nat) (hm : m < stop) (hnm : n ≤ m) (hempty : table ((start + m) % size) = .empty)
      (hmiss : ∀ j, i ≤ j → j < m → ∀ e, table ((start + j) % size) = .live e → hit e = false)
      (hpath : ∀ j < n, table ((start + j) % size) ≠ .empty) (hfree : ∀ e, table ((start + n) % size) ≠ .live e) :
      Insertion size table hit change fresh start i stop
        (some (Function.update table ((start + n) % size) (.live fresh)))

theorem Insertion.earlier {start i stop : Nat} {result : Option (Nat → Slot α)}
    (h : Insertion size table hit change fresh start (i + 1) stop result)
    (hhere : ∀ e, table ((start + i) % size) = .live e → hit e = false) :
    Insertion size table hit change fresh start i stop result := by
  cases h with
  | full hmiss => exact .full (Misses.earlier hmiss hhere)
  | changed m e hlive hyes => exact .changed m e hlive hyes
  | filled m n hm hnm hempty hmiss hpath hfree => exact .filled m n hm hnm hempty (Misses.earlier hmiss hhere) hpath hfree

theorem insertion_place {start fuel i : Nat} {spare : Option Nat} (hbefore : ∀ j < i, table ((start + j) % size) ≠ .empty)
    (hspare : ∀ q, spare = some q → ∃ j < i, (start + j) % size = q ∧ table q = .tombstone) :
    Insertion size table hit change fresh start i (i + fuel) (place size table hit change fresh start fuel i spare) := by
  fun_induction place size table hit change fresh start fuel i spare with
  | case1 => exact .full misses_self
  | case2 fuel i spare he =>
    cases spare with
    | none => exact .filled i i (by omega) (Nat.le_refl i) he misses_self hbefore fun e hl => by rw [he] at hl; cases hl
    | some q =>
      obtain ⟨j, hj, rfl, ht⟩ := hspare q rfl
      exact .filled i j (by omega) (by omega) he misses_self (fun j' hj' => hbefore j' (by omega))
        fun e hl => by rw [ht] at hl; cases hl
  | case3 fuel i spare e he hyes => exact .changed i e he hyes
  | case4 fuel i spare e he hmiss ih =>
    rw [show i + fuel.succ = i + 1 + fuel by omega]
    refine (ih (fun j hj => ?_) fun q hq => ?_).earlier fun e' he' => ?_
    · rcases Nat.eq_or_lt_of_le (Nat.le_of_lt_succ hj) with rfl | hlt
      · rw [he]
        simp
      · exact hbefore j hlt
    · obtain ⟨j, hj, hrest⟩ := hspare q hq
      exact ⟨j, Nat.lt_succ_of_lt hj, hrest⟩
    · rw [he] at he'
      cases he'
      exact Bool.not_eq_true _ ▸ hmiss
  | case5 fuel i spare ht ih =>
    rw [show i + fuel.succ = i + 1 + fuel by omega]
    refine (ih (fun j hj => ?_) fun q hq => ?_).earlier fun e he => ?_
    · rcases Nat.eq_or_lt_of_le (Nat.le_of_lt_succ hj) with rfl | hlt
      · rw [ht]
        simp
      · exact hbefore j hlt
    · cases spare with
      | none =>
        cases hq
        exact ⟨i, Nat.lt_succ_self i, rfl, ht⟩
      | some q' =>
        obtain ⟨j, hj, hrest⟩ := hspare q hq
        exact ⟨j, Nat.lt_succ_of_lt hj, hrest⟩
    · rw [ht] at he
      cases he

theorem insertion_store (start : Nat) :
    Insertion size table hit change fresh start 0 size (store size table hit change fresh start) := by
  have h : Insertion size table hit change fresh start 0 (0 + size) (store size table hit change fresh start) :=
    insertion_place (fun j hj => absurd hj (Nat.not_lt_zero j)) fun q hq => by cases hq
  rwa [Nat.zero_add] at h

variable {k : κ} (h : Placed size home key table) (hsize : 0 < size)
  (hhit : ∀ e, Holds size table e → (hit e = true ↔ key e = k))

include h hsize hhit

omit hsize in
theorem store_eq_none (hnone : store size table hit change fresh (home k) = none) {e : α} (he : Holds size table e) :
    key e ≠ k := by
  have hinsert : Insertion size table hit change fresh (home k) 0 size none := hnone ▸ insertion_store (home k)
  cases hinsert with
  | full hmiss => exact h.no_entry hhit (.inl rfl) hmiss he

theorem store_eq_some (hsome : store size table hit change fresh (home k) = some table')
    (hchange : ∀ e, key (change e) = key e) (hfresh : key fresh = k) :
    Placed size home key table' ∧ ∃ e, key e = k ∧ (e = fresh ∨ ∃ old, Holds size table old ∧ e = change old) ∧
      ∀ f, Holds size table' f ↔ (Holds size table f ∧ key f ≠ k) ∨ f = e := by
  have hinsert : Insertion size table hit change fresh (home k) 0 size (some table') := hsome ▸ insertion_store (home k)
  cases hinsert with
  | changed m e he hyes =>
    have hq := Nat.mod_lt (home k + m) hsize
    have hk : key e = k := (hhit e ⟨_, hq, he⟩).mp hyes
    refine ⟨h.update (by simp) fun e' he' => by cases he'; exact ⟨e, he, (hchange e).symm⟩, change e, ?_,
      .inr ⟨e, ⟨_, hq, he⟩, rfl⟩, fun f => ?_⟩
    · rw [hchange, hk]
    · rw [h.holds_update_live hq he, hk]
  | filled m n hm hnm hempty hmiss hpath hfree =>
    have hq := Nat.mod_lt (home k + n) hsize
    have hnokey : ∀ f, Holds size table f → key f ≠ k := fun f hf => h.no_entry hhit (.inr hempty) hmiss hf
    have hkept : ∀ q, table q ≠ .empty →
        Function.update table ((home k + n) % size) (.live fresh) q ≠ .empty := by
      intro q hne he
      obtain ⟨-, he⟩ | ⟨-, he⟩ := update_eq_iff.mp he
      · cases he
      · exact hne he
    refine ⟨⟨?_, ?_⟩, fresh, hfresh, .inl rfl, fun f => ?_⟩
    · intro f q hlt hf
      obtain ⟨rfl, hnew⟩ | ⟨-, hf⟩ := update_eq_iff.mp hf
      · cases hnew
        rw [hfresh]
        exact ⟨n, by omega, rfl, fun j hj => hkept _ (hpath j hj)⟩
      · obtain ⟨i, hi, hqi, hway⟩ := h.reached f q hlt hf
        exact ⟨i, hi, hqi, fun j hj => hkept _ (hway j hj)⟩
    · intro f f' q q' hlt hlt' hf hf' hkey
      obtain ⟨rfl, hnew⟩ | ⟨-, hf⟩ := update_eq_iff.mp hf <;> obtain ⟨rfl, hnew'⟩ | ⟨-, hf'⟩ := update_eq_iff.mp hf'
      · rfl
      · cases hnew
        exact absurd (hkey.symm.trans hfresh) (hnokey f' ⟨q', hlt', hf'⟩)
      · cases hnew'
        exact absurd (hkey.trans hfresh) (hnokey f ⟨q, hlt, hf⟩)
      · exact h.unique f f' q q' hlt hlt' hf hf' hkey
    · constructor
      · rintro ⟨q, hlt, hl⟩
        obtain ⟨-, hl⟩ | ⟨-, hl⟩ := update_eq_iff.mp hl
        · cases hl
          exact .inr rfl
        · exact .inl ⟨⟨q, hlt, hl⟩, hnokey f ⟨q, hlt, hl⟩⟩
      · rintro (⟨⟨q, hlt, hl⟩, _⟩ | rfl)
        · refine ⟨q, hlt, update_eq_iff.mpr (.inr ⟨?_, hl⟩)⟩
          rintro rfl
          exact hfree f hl
        · exact ⟨_, hq, Function.update_self ..⟩

end Store

end ProbeTable
