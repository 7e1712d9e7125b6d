import InfiltratorFS.Checkpoint.GraphLoad
import InfiltratorFS.Checkpoint.Healing

namespace InfiltratorFS.Recovery

open Prog CrashDisk Healing

section Selection

/-- The candidate of the greatest generation, the first of them on a tie. -/
def bestFrom : Nat → Option (Nat × Superblock) → List (Option Superblock) → Option (Nat × Superblock)
  | _, best, [] => best
  | i, best, none :: rest => bestFrom (i + 1) best rest
  | i, none, some sb :: rest => bestFrom (i + 1) (some (i, sb)) rest
  | i, some best, some sb :: rest =>
    bestFrom (i + 1) (if best.2.generation < sb.generation then some (i, sb) else some best) rest

variable (load : Nat → Superblock → Except Status (Nat → Bool))

def selectLoop : Nat → List (Option Superblock) → Except Status (Nat × Superblock × (Nat → Bool))
  | 0, _ => .error .corrupt
  | attempts + 1, found =>
    match bestFrom 0 none found with
    | none => .error .corrupt
    | some (i, sb) =>
      match load i sb with
      | .ok bitmap => .ok (i, sb, bitmap)
      | .error status => if status = .corrupt then selectLoop attempts (found.set i none) else .error status

def selectCheckpoint (found : List (Option Superblock)) : Except Status (Nat × Superblock × (Nat → Bool)) :=
  selectLoop load maxCandidates found

def Holds (found : List (Option Superblock)) (i : Nat) (sb : Superblock) : Prop := found[i]? = some (some sb)

/-- The first candidate is tried before the second: it is newer, or as new in
an earlier slot. -/
def Ahead (j : Nat) (a : Superblock) (i : Nat) (b : Superblock) : Prop :=
  b.generation.toNat < a.generation.toNat ∨ (b.generation.toNat = a.generation.toNat ∧ j < i)

variable {found : List (Option Superblock)} {i j : Nat} {sb b : Superblock}

theorem holds_cons {c : Option Superblock} :
    Holds (c :: found) i sb ↔ (i = 0 ∧ c = some sb) ∨ ∃ k, i = k + 1 ∧ Holds found k sb := by
  cases i with
  | zero => simp [Holds]
  | succ i => simp [Holds]

def Among (offset : Nat) (best : Option (Nat × Superblock)) (found : List (Option Superblock)) (j : Nat) (b : Superblock) : Prop :=
  best = some (j, b) ∨ ∃ k, j = offset + k ∧ Holds found k b

theorem among_cons {offset : Nat} {best : Option (Nat × Superblock)} {c : Option Superblock} :
    Among offset best (c :: found) j b ↔
      (best = some (j, b) ∨ (j = offset ∧ c = some b)) ∨ ∃ k, j = offset + 1 + k ∧ Holds found k b := by
  simp only [Among, holds_cons]
  constructor
  · rintro (hbest | ⟨k, rfl, ⟨rfl, hc⟩ | ⟨k, rfl, hk⟩⟩)
    · exact .inl (.inl hbest)
    · exact .inl (.inr ⟨rfl, hc⟩)
    · exact .inr ⟨k, by omega, hk⟩
  · rintro ((hbest | ⟨rfl, hc⟩) | ⟨k, rfl, hk⟩)
    · exact .inl hbest
    · exact .inr ⟨0, rfl, .inl ⟨rfl, hc⟩⟩
    · exact .inr ⟨k + 1, by omega, .inr ⟨k, rfl, hk⟩⟩

theorem bestFrom_some (found : List (Option Superblock)) (offset : Nat) (best : Option (Nat × Superblock))
    (hbest : ∀ j b, best = some (j, b) → j < offset) (h : bestFrom offset best found = some (i, sb)) :
    Among offset best found i sb ∧ ∀ j b, Among offset best found j b → ¬Ahead j b i sb := by
  induction found generalizing offset best with
  | nil =>
    rw [bestFrom] at h
    refine ⟨.inl h, fun j b hj => ?_⟩
    rcases hj with hj | ⟨k, -, hk⟩
    · cases h.symm.trans hj
      rintro (hlt | ⟨-, hlt⟩)
      · exact absurd hlt (Nat.lt_irrefl _)
      · exact absurd hlt (Nat.lt_irrefl _)
    · simp [Holds] at hk
  | cons c rest ih =>
    have hlater : ∀ j b, best = some (j, b) → j < offset + 1 := fun j b hb => Nat.lt_succ_of_lt (hbest j b hb)
    cases c with
    | none =>
      rw [bestFrom] at h
      obtain ⟨hin, hfirst⟩ := ih (offset + 1) best hlater h
      simp only [among_cons, reduceCtorEq, and_false, or_false]
      exact ⟨hin, hfirst⟩
    | some c =>
      cases best with
      | none =>
        rw [bestFrom] at h
        obtain ⟨hin, hfirst⟩ := ih (offset + 1) (some (offset, c)) (fun j b hb => by cases hb; exact Nat.lt_succ_self _) h
        simp only [among_cons, reduceCtorEq, false_or]
        simp only [Among, Option.some.injEq, Prod.mk.injEq, eq_comm (a := offset)] at hin hfirst
        simp only [Option.some.injEq]
        exact ⟨hin, hfirst⟩
      | some held =>
        obtain ⟨k, held⟩ := held
        rw [bestFrom] at h
        have hheld : k < offset := hbest k held rfl
        split at h
        · rename_i hnewer
          have hnewer : held.generation.toNat < c.generation.toNat := UInt64.lt_iff_toNat_lt.mp hnewer
          obtain ⟨hin, hfirst⟩ := ih (offset + 1) (some (offset, c)) (fun j b hb => by cases hb; exact Nat.lt_succ_self _) h
          have hc := hfirst offset c (.inl rfl)
          refine ⟨?_, fun j b hj => ?_⟩
          · rcases hin with hin | hin
            · cases hin
              exact among_cons.mpr (.inl (.inr ⟨rfl, rfl⟩))
            · exact among_cons.mpr (.inr hin)
          · rcases among_cons.mp hj with (hold | ⟨rfl, hnew⟩) | hrest
            · obtain ⟨rfl, rfl⟩ := Prod.mk.inj (Option.some.inj hold)
              simp only [Ahead] at hc ⊢
              omega
            · rwa [← Option.some.inj hnew]
            · exact hfirst j b (.inr hrest)
        · rename_i holder
          have holder : ¬held.generation.toNat < c.generation.toNat := mt UInt64.lt_iff_toNat_lt.mpr holder
          obtain ⟨hin, hfirst⟩ := ih (offset + 1) (some (k, held)) hlater h
          have hc := hfirst k held (.inl rfl)
          refine ⟨?_, fun j b hj => ?_⟩
          · rcases hin with hin | hin
            · exact among_cons.mpr (.inl (.inl hin))
            · exact among_cons.mpr (.inr hin)
          · rcases among_cons.mp hj with (hold | ⟨rfl, hnew⟩) | hrest
            · exact hfirst j b (.inl hold)
            · rw [← Option.some.inj hnew]
              simp only [Ahead] at hc ⊢
              omega
            · exact hfirst j b (.inr hrest)

theorem bestFrom_none (found : List (Option Superblock)) (offset : Nat) (best : Option (Nat × Superblock))
    (h : bestFrom offset best found = none) : ∀ j b, ¬Among offset best found j b := by
  induction found generalizing offset best with
  | nil =>
    rw [bestFrom] at h
    rintro j b (hj | ⟨k, -, hk⟩)
    · rw [h] at hj
      cases hj
    · simp [Holds] at hk
  | cons c rest ih =>
    cases c with
    | none =>
      rw [bestFrom] at h
      simp only [among_cons, reduceCtorEq, and_false, or_false]
      exact ih _ _ h
    | some c =>
      cases best with
      | none =>
        rw [bestFrom] at h
        exact absurd (.inl rfl) (ih _ _ h offset c)
      | some held =>
        rw [bestFrom] at h
        split at h
        · exact absurd (.inl rfl) (ih _ _ h offset c)
        · exact absurd (.inl rfl) (ih _ _ h held.1 held.2)

variable {load} {result : Except Status (Nat × Superblock × (Nat → Bool))}

def Fallen (load : Nat → Superblock → Except Status (Nat → Bool)) (found : List (Option Superblock)) (i : Nat)
    (sb : Superblock) : Prop :=
  ∀ j b, Holds found j b → Ahead j b i sb → load j b = .error .corrupt

/-- What the selection may return: a checkpoint that loads, or a status other
than corrupt, where all that is tried before is corrupt; or corrupt, where all
candidates are. -/
inductive Selects (load : Nat → Superblock → Except Status (Nat → Bool)) (found : List (Option Superblock)) :
    Except Status (Nat × Superblock × (Nat → Bool)) → Prop
  | loaded {i : Nat} {sb : Superblock} {bitmap : Nat → Bool} (hin : Holds found i sb) (hload : load i sb = .ok bitmap)
      (hfallen : Fallen load found i sb) : Selects load found (.ok (i, sb, bitmap))
  | returned {i : Nat} {sb : Superblock} {status : Status} (hstatus : status ≠ .corrupt) (hin : Holds found i sb)
      (hload : load i sb = .error status) (hfallen : Fallen load found i sb) : Selects load found (.error status)
  | corrupt (hall : ∀ j b, Holds found j b → load j b = .error .corrupt) : Selects load found (.error .corrupt)

theorem holds_set :
    Holds (found.set i none) j b ↔ j ≠ i ∧ Holds found j b := by
  rw [Holds, Holds, List.getElem?_set]
  split
  · rename_i heq
    subst heq
    split <;> simp
  · rename_i hne
    exact ⟨fun h => ⟨Ne.symm hne, h⟩, fun h => h.2⟩

theorem countP_set (h : Holds found i sb) :
    (found.set i none).countP Option.isSome + 1 = found.countP Option.isSome := by
  induction found generalizing i with
  | nil => simp [Holds] at h
  | cons c rest ih =>
    rcases holds_cons.mp h with ⟨rfl, rfl⟩ | ⟨k, rfl, hk⟩
    · rw [List.set_cons_zero, List.countP_cons_of_neg (by simp), List.countP_cons_of_pos rfl]
    · have hrest := ih hk
      rw [List.set_cons_succ, List.countP_cons, List.countP_cons]
      omega

/-- What holds of a selection among the others holds of the whole: the one
that was removed is corrupt. -/
theorem Selects.of_set (h : Selects load (found.set i none) result)
    (hin : Holds found i sb) (hload : load i sb = .error .corrupt) : Selects load found result := by
  have hrest {j : Nat} {b : Superblock} (hj : Holds found j b)
      (h : Holds (found.set i none) j b → load j b = .error .corrupt) : load j b = .error .corrupt := by
    by_cases hji : j = i
    · subst hji
      obtain rfl := Option.some.inj (Option.some.inj (hin.symm.trans hj))
      exact hload
    · exact h (holds_set.mpr ⟨hji, hj⟩)
  cases h with
  | loaded hk hb hfallen =>
    exact .loaded (holds_set.mp hk).2 hb fun j b hj hahead => hrest hj fun hj => hfallen j b hj hahead
  | returned hstatus hk hb hfallen =>
    exact .returned hstatus (holds_set.mp hk).2 hb fun j b hj hahead => hrest hj fun hj => hfallen j b hj hahead
  | corrupt hall => exact .corrupt fun j b hj => hrest hj (hall j b)

theorem selectLoop_selects (attempts : Nat) (found : List (Option Superblock))
    (hcount : found.countP Option.isSome ≤ attempts) : Selects load found (selectLoop load attempts found) := by
  induction attempts generalizing found with
  | zero =>
    refine .corrupt fun j b hj => ?_
    have hpositive : 0 < found.countP Option.isSome :=
      List.countP_pos_iff.mpr ⟨some b, List.mem_of_getElem? hj, rfl⟩
    omega
  | succ attempts ih =>
    have hamong {j : Nat} {b : Superblock} : Among 0 none found j b ↔ Holds found j b := by simp [Among]
    cases hbest : bestFrom 0 none found with
    | none =>
      rw [selectLoop, hbest]
      exact .corrupt fun j b hj => absurd (hamong.mpr hj) (bestFrom_none found 0 none hbest j b)
    | some best =>
      obtain ⟨i, sb⟩ := best
      obtain ⟨hamongst, hfirst⟩ := bestFrom_some found 0 none (fun _ _ h => nomatch h) hbest
      have hin : Holds found i sb := hamong.mp hamongst
      have hfallen : Fallen load found i sb := fun j b hj hahead => absurd hahead (hfirst j b (hamong.mpr hj))
      cases hload : load i sb with
      | ok bitmap =>
        rw [selectLoop, hbest]
        simp only [hload]
        exact .loaded hin hload hfallen
      | error status =>
        rw [selectLoop, hbest]
        simp only [hload]
        by_cases hcorrupt : status = .corrupt
        · rw [if_pos hcorrupt]
          have hless := countP_set hin
          exact (ih (found.set i none) (by omega)).of_set hin (hcorrupt ▸ hload)
        · rw [if_neg hcorrupt]
          exact .returned hcorrupt hin hload hfallen

theorem selectCheckpoint_selects (load : Nat → Superblock → Except Status (Nat → Bool))
    (hlength : found.length ≤ maxCandidates) : Selects load found (selectCheckpoint load found) :=
  selectLoop_selects maxCandidates found (List.countP_le_length.trans hlength)

theorem ahead_total {a : Superblock} (h : i ≠ j) : Ahead i a j b ∨ Ahead j b i a := by
  simp only [Ahead]
  omega

/-- The first candidate in line that is not corrupt decides. -/
theorem selects_decided
    (h : Selects load found result) (hin : Holds found i sb) (hfallen : Fallen load found i sb) :
    (∀ bitmap, load i sb = .ok bitmap → result = .ok (i, sb, bitmap)) ∧
      ∀ status, status ≠ .corrupt → load i sb = .error status → result = .error status := by
  -- two candidates that are first in line and not corrupt are the same
  have hsame {k : Nat} {b : Superblock} (hk : Holds found k b) (hkfallen : Fallen load found k b)
      (hi : load i sb ≠ .error .corrupt) (hb : load k b ≠ .error .corrupt) : k = i ∧ b = sb := by
    by_cases hki : k = i
    · subst hki
      exact ⟨rfl, Option.some.inj (Option.some.inj (hk.symm.trans hin))⟩
    · rcases ahead_total (a := b) (b := sb) hki with hahead | hahead
      · exact absurd (hfallen k b hk hahead) hb
      · exact absurd (hkfallen i sb hin hahead) hi
  cases h with
  | loaded hk hb hkfallen =>
    refine ⟨fun bitmap hload => ?_, fun status hstatus hload => ?_⟩
    · obtain ⟨rfl, rfl⟩ := hsame hk hkfallen (by rw [hload]; simp) (by rw [hb]; simp)
      rw [hload] at hb
      cases hb
      rfl
    · obtain ⟨rfl, rfl⟩ := hsame hk hkfallen (by rw [hload]; simpa using hstatus) (by rw [hb]; simp)
      rw [hload] at hb
      cases hb
  | returned he hk hb hkfallen =>
    refine ⟨fun bitmap hload => ?_, fun status hstatus hload => ?_⟩
    · obtain ⟨rfl, rfl⟩ := hsame hk hkfallen (by rw [hload]; simp) (by rw [hb]; simpa using he)
      rw [hload] at hb
      cases hb
    · obtain ⟨rfl, rfl⟩ := hsame hk hkfallen (by rw [hload]; simpa using hstatus) (by rw [hb]; simpa using he)
      rw [hload] at hb
      cases hb
      rfl
  | corrupt hall =>
    refine ⟨fun bitmap hload => ?_, fun status hstatus hload => ?_⟩
    · rw [hall i sb hin] at hload
      cases hload
    · rw [hall i sb hin] at hload
      exact absurd (Except.error.inj hload).symm hstatus

end Selection

section Open

variable (utf8Validate : List UInt8 → Bool)

/-- How a volume is opened, and what its storage answers besides its blocks:
the size, whether it is a device, whether it has the operations of a writer,
and which blocks cannot be read. -/
structure OpenMode where
  writable : Bool
  imageOnly : Bool
  repair : Bool
  size : Except Status (Nat × Bool)
  writeOps : Bool
  fault : Nat → Option Status

structure Opened where
  sb : Superblock
  bitmap : Nat → Bool
  writable : Bool

def strictLocators (mode : OpenMode) (bytes : Nat) : Prog Traced Status Unit := do
  let s ← get
  let rawA ← ofExcept (s.view mode.fault locatorBlockA)
  let a ← ofExcept (locatorDecode rawA (bytes / blockSize))
  let rawB ← ofExcept (s.view mode.fault locatorBlockB)
  let b ← ofExcept (locatorDecode rawB (bytes / blockSize))
  if a ≠ b then fail .corrupt else pure ()

def sixIdentical (found : List (Option Superblock)) : Bool :=
  found.countP Option.isSome == 6 && (List.range 6).all fun i =>
    match found[i]?, found[0]? with
    | some (some sb), some (some first) => sb == first
    | _, _ => false

/-- `open_019_volume_mode` up to its loop: the candidates, and whether the
whole graph is to be verified. -/
def prepareOpen (mode : OpenMode) : Prog Traced Status (List (Option Superblock) × Bool) := do
  let (bytes, isDevice) ← ofExcept mode.size
  if isDevice = true ∧ mode.imageOnly = true then fail .notSupported
  else if mode.writable = true ∧ mode.writeOps = false then fail .invalidArgument
  else do
    (if mode.writable = true ∧ mode.repair = false then strictLocators mode bytes else pure ())
    let s ← get
    let d := discoverHeaders utf8Validate (s.view mode.fault) bytes
    if d.status ≠ .ok then fail d.status
    else if mode.writable = true ∧ d.readError ≠ .ok then fail d.readError
    else if mode.writable = true ∧ mode.repair = false ∧ sixIdentical d.found = false then fail .corrupt
    else pure (d.found, !isDevice || !sixIdentical d.found)

variable (load : Nat → Superblock → Bool → Except Status (Nat → Bool))

/-- `open_019_volume_mode`. The graph loader only reads, so its result is a
function of the candidate. -/
def openVolume (mode : OpenMode) : Prog Traced Status Opened := do
  let (found, fullVerify) ← prepareOpen utf8Validate mode
  let (_, sb, bitmap) ← ofExcept (selectCheckpoint (fun i sb => load i sb fullVerify) found)
  if bitmap locatorBlockA = false ∨ bitmap locatorBlockB = false then fail .corrupt
  else do
    (if mode.writable = true ∧ mode.repair = true then do
      let (bytes, _) ← ofExcept mode.size
      heal utf8Validate mode.fault (bytes / blockSize) sb
    else pure ())
    pure ⟨sb, bitmap, mode.writable⟩

def Inert {α : Type} (x : Prog Traced Status α) : Prop := ∀ s, (x s).2 = s

variable {utf8Validate load}

variable {fullVerify : Bool} {found : List (Option Superblock)} {mode : OpenMode} {s s' : Traced} {α : Type}

theorem inert_pure (a : α) : Inert (pure a) := fun _ => rfl

theorem inert_fail (status : Status) : Inert (fail status : Prog Traced Status α) := fun _ => rfl

theorem inert_ofExcept (r : Except Status α) : Inert (ofExcept r : Prog Traced Status α) := fun s => by
  rw [ofExcept_apply]

theorem inert_get : Inert (get : Prog Traced Status Traced) := fun _ => rfl

theorem inert_bind {γ : Type} {x : Prog Traced Status α} {f : α → Prog Traced Status γ} (hx : Inert x)
    (hf : ∀ a, Inert (f a)) : Inert (x >>= f) := by
  intro s
  have hs := hx s
  rcases hrun : x s with ⟨e | a, s'⟩
  · rw [bind_of_error hrun]
    rw [hrun] at hs
    exact hs
  · rw [bind_of_ok hrun, hf a s']
    rw [hrun] at hs
    exact hs

theorem inert_strictLocators (mode : OpenMode) (bytes : Nat) : Inert (strictLocators mode bytes) := by
  apply inert_bind inert_get
  intro s
  apply inert_bind (inert_ofExcept _)
  intro rawA
  apply inert_bind (inert_ofExcept _)
  intro a
  apply inert_bind (inert_ofExcept _)
  intro rawB
  apply inert_bind (inert_ofExcept _)
  intro b
  exact of_ite (inert_fail _) (inert_pure _)

variable (utf8Validate) in
theorem inert_prepareOpen (mode : OpenMode) : Inert (prepareOpen utf8Validate mode) := by
  apply inert_bind (inert_ofExcept _)
  rintro ⟨bytes, isDevice⟩
  apply of_ite (inert_fail _)
  apply of_ite (inert_fail _)
  apply inert_bind (of_ite (inert_strictLocators mode bytes) (inert_pure _))
  intro _
  apply inert_bind inert_get
  intro s
  apply of_ite (inert_fail _)
  apply of_ite (inert_fail _)
  exact of_ite (inert_fail _) (inert_pure _)

theorem inert_openVolume (h : mode.writable = false) : Inert (openVolume utf8Validate load mode) := by
  apply inert_bind (inert_prepareOpen utf8Validate mode)
  rintro ⟨found, fullVerify⟩
  apply inert_bind (inert_ofExcept _)
  rintro ⟨slot, sb, bitmap⟩
  apply of_ite (inert_fail _)
  rw [if_neg (by simp [h])]
  exact inert_pure _

section

variable (hprepare : prepareOpen utf8Validate mode s = (.ok (found, fullVerify), s))
include hprepare

theorem openVolume_error {status : Status}
    (hselect : selectCheckpoint (fun i sb => load i sb fullVerify) found = .error status) :
    openVolume utf8Validate load mode s = (.error status, s) := by
  rw [openVolume, bind_of_ok hprepare]
  simp only [hselect]
  rw [bind_of_error (by rfl)]

theorem openVolume_selected {slot : Nat} {sb : Superblock} {bitmap : Nat → Bool}
    (hselect : selectCheckpoint (fun i sb => load i sb fullVerify) found = .ok (slot, sb, bitmap))
    (ha : bitmap locatorBlockA = true) (hb : bitmap locatorBlockB = true) :
    (¬(mode.writable = true ∧ mode.repair = true) →
      openVolume utf8Validate load mode s = (.ok ⟨sb, bitmap, mode.writable⟩, s)) ∧
    (mode.writable = true → mode.repair = true → ∀ bytes isDevice s', mode.size = .ok (bytes, isDevice) →
      (openVolume utf8Validate load mode s = (.ok ⟨sb, bitmap, true⟩, s') ↔
        heal utf8Validate mode.fault (bytes / blockSize) sb s = (.ok (), s'))) := by
  rw [openVolume, bind_of_ok hprepare]
  simp only [hselect]
  rw [bind_of_ok (by rfl)]
  simp only [ha, hb, Bool.true_eq_false, or_self, if_false]
  refine ⟨fun hplain => ?_, fun hwritable hrepair bytes isDevice s' hsize => ?_⟩
  · rw [if_neg hplain]
    rfl
  · rw [if_pos ⟨hwritable, hrepair⟩, hsize, hwritable, bind_eq_ok]
    refine ⟨fun ⟨_, _, hheal, hdone⟩ => ?_, fun hheal => ⟨(), s', hheal, rfl⟩⟩
    cases hdone
    exact hheal

end

section

variable (h : prepareOpen utf8Validate mode s = (.ok (found, fullVerify), s'))
include h

theorem prepareOpen_ok :
    s' = s ∧ ∃ bytes isDevice, mode.size = .ok (bytes, isDevice) ∧
      found = (discoverHeaders utf8Validate (s.view mode.fault) bytes).found ∧
      fullVerify = (!isDevice || !sixIdentical found) := by
  have hinert := inert_prepareOpen utf8Validate mode s
  rw [h] at hinert
  refine ⟨hinert, ?_⟩
  obtain ⟨⟨bytes, isDevice⟩, s₁, hread, hrest⟩ := bind_eq_ok.mp h
  rw [ofExcept_apply] at hread
  obtain ⟨hsize, rfl⟩ := Prod.mk.inj hread
  refine ⟨bytes, isDevice, hsize, ?_⟩
  simp only at hrest
  obtain ⟨-, hrest⟩ := guard_eq_ok.mp hrest
  obtain ⟨-, hrest⟩ := guard_eq_ok.mp hrest
  obtain ⟨_, s₂, hstrict, hfound⟩ := bind_eq_ok.mp hrest
  obtain rfl : s₂ = s := by
    have hkept := of_ite (C := Inert) (c := mode.writable = true ∧ mode.repair = false)
      (inert_strictLocators mode bytes) (inert_pure ()) s
    rw [hstrict] at hkept
    exact hkept
  rw [bind_of_ok (get_apply _)] at hfound
  obtain ⟨-, hfound⟩ := guard_eq_ok.mp hfound
  obtain ⟨-, hfound⟩ := guard_eq_ok.mp hfound
  obtain ⟨-, hfound⟩ := guard_eq_ok.mp hfound
  cases hfound
  exact ⟨rfl, rfl⟩

theorem prepareOpen_length
    : found.length ≤ maxCandidates := by
  obtain ⟨-, bytes, isDevice, -, rfl, -⟩ := prepareOpen_ok h
  exact length_found utf8Validate _ _

end

theorem openVolume_ok {opened : Opened}
    (h : openVolume utf8Validate load mode s = (.ok opened, s')) :
    ∃ found fullVerify slot, prepareOpen utf8Validate mode s = (.ok (found, fullVerify), s) ∧
      selectCheckpoint (fun i sb => load i sb fullVerify) found = .ok (slot, opened.sb, opened.bitmap) := by
  obtain ⟨⟨found, fullVerify⟩, s₁, hprepare, hrest⟩ := bind_eq_ok.mp h
  obtain ⟨rfl, -⟩ := prepareOpen_ok hprepare
  obtain ⟨⟨slot, sb, bitmap⟩, s₂, hselect, hfinish⟩ := bind_eq_ok.mp hrest
  rw [ofExcept_apply] at hselect
  refine ⟨found, fullVerify, slot, hprepare, ?_⟩
  simp only at hfinish
  obtain ⟨-, hfinish⟩ := guard_eq_ok.mp hfinish
  obtain ⟨_, s₃, -, hdone⟩ := bind_eq_ok.mp hfinish
  cases hdone
  exact (Prod.mk.inj hselect).1

variable (utf8Validate load) in
/-- The recovery of an open. For all candidates and all outcomes the selection
takes the newest one that loads, it passes over a newer one only if that is
corrupt, and it returns any other status. An open is the selection among what
discovery finds: it returns the selected checkpoint if that has both locator
blocks, after the repair of the copies where one is asked for, and a read-only
open leaves the device alone. -/
theorem open_selects_newest (mode : OpenMode) :
    (∀ (found : List (Option Superblock)) (outcome : Nat → Superblock → Except Status (Nat → Bool)),
      found.length ≤ maxCandidates → Selects outcome found (selectCheckpoint outcome found)) ∧
    (∀ s opened s', openVolume utf8Validate load mode s = (.ok opened, s') →
      ∃ found fullVerify slot, prepareOpen utf8Validate mode s = (.ok (found, fullVerify), s) ∧ Holds found slot opened.sb ∧
        load slot opened.sb fullVerify = .ok opened.bitmap ∧
        (∀ j b, Holds found j b → opened.sb.generation.toNat < b.generation.toNat → load j b fullVerify = .error .corrupt) ∧
        ∀ j b bitmap, Holds found j b → load j b fullVerify = .ok bitmap → b.generation.toNat ≤ opened.sb.generation.toNat) ∧
    (∀ s found fullVerify i sb status, prepareOpen utf8Validate mode s = (.ok (found, fullVerify), s) → Holds found i sb →
      Fallen (fun i sb => load i sb fullVerify) found i sb → status ≠ .corrupt → load i sb fullVerify = .error status →
      openVolume utf8Validate load mode s = (.error status, s)) ∧
    (∀ s found fullVerify i sb bitmap, prepareOpen utf8Validate mode s = (.ok (found, fullVerify), s) → Holds found i sb →
      Fallen (fun i sb => load i sb fullVerify) found i sb → load i sb fullVerify = .ok bitmap →
      bitmap locatorBlockA = true → bitmap locatorBlockB = true →
      (¬(mode.writable = true ∧ mode.repair = true) →
        openVolume utf8Validate load mode s = (.ok ⟨sb, bitmap, mode.writable⟩, s)) ∧
      (mode.writable = true → mode.repair = true → ∀ bytes isDevice s', mode.size = .ok (bytes, isDevice) →
        (openVolume utf8Validate load mode s = (.ok ⟨sb, bitmap, true⟩, s') ↔
          heal utf8Validate mode.fault (bytes / blockSize) sb s = (.ok (), s')))) ∧
    (mode.writable = false → ∀ s, (openVolume utf8Validate load mode s).2 = s) := by
  refine ⟨fun found outcome hlength => selectCheckpoint_selects outcome hlength, fun s opened s' hopen => ?_,
    fun s found fullVerify i sb status hprepare hin hfallen hstatus hload => ?_,
    fun s found fullVerify i sb bitmap hprepare hin hfallen hload ha hb => ?_, fun hreadonly => inert_openVolume hreadonly⟩
  · obtain ⟨found, fullVerify, slot, hprepare, hselect⟩ := openVolume_ok hopen
    have hselects := selectCheckpoint_selects (fun i sb => load i sb fullVerify) (prepareOpen_length hprepare)
    rw [hselect] at hselects
    cases hselects with
    | loaded hin hload hfallen =>
      have hnewer : ∀ j b, Holds found j b → opened.sb.generation.toNat < b.generation.toNat →
          load j b fullVerify = .error .corrupt := fun j b hj hlt => hfallen j b hj (.inl hlt)
      refine ⟨found, fullVerify, slot, hprepare, hin, hload, hnewer, fun j b bitmap hj hok => ?_⟩
      by_contra hlt
      rw [hnewer j b hj (by omega)] at hok
      cases hok
  · have hselects := selectCheckpoint_selects (fun i sb => load i sb fullVerify) (prepareOpen_length hprepare)
    exact openVolume_error hprepare ((selects_decided hselects hin hfallen).2 status hstatus hload)
  · have hselects := selectCheckpoint_selects (fun i sb => load i sb fullVerify) (prepareOpen_length hprepare)
    exact openVolume_selected hprepare ((selects_decided hselects hin hfallen).1 bitmap hload) ha hb

end Open

section Root

variable {utf8Validate : List UInt8 → Bool}

def graphLoad (mode : OpenMode) (image : Superblock → GraphImage) : Nat → Superblock → Bool → Except Status (Nat → Bool) :=
  fun _ sb fullVerify => loadCheckpointGraph mode.writable (image sb) sb fullVerify locatorFormatMinor

def withEntries (image : Superblock → GraphImage) (entries : Except Status (List IndexEntry)) : Superblock → GraphImage :=
  fun sb => { image sb with indexSnapshot := entries }

variable (utf8Validate) in
/-- The open verifies the whole graph: the storage is no device, or its
candidates are not six that are all the same. -/
def verifiesGraph (mode : OpenMode) (s : Traced) : Bool :=
  match mode.size with
  | .error _ => true
  | .ok (bytes, isDevice) =>
    !isDevice || !sixIdentical (discoverHeaders utf8Validate (s.view mode.fault) bytes).found

theorem prepareOpen_verifies {mode : OpenMode} {s s' : Traced} {found : List (Option Superblock)} {fullVerify : Bool}
    (h : prepareOpen utf8Validate mode s = (.ok (found, fullVerify), s')) : fullVerify = verifiesGraph utf8Validate mode s := by
  obtain ⟨-, bytes, isDevice, hsize, rfl, rfl⟩ := prepareOpen_ok h
  rw [verifiesGraph, hsize]

/-- For a device that opens, whatever the entries of its index: a successful
open shows that the index has the root if and only if the open verifies the
whole graph. -/
theorem open_shows_root_iff {mode : OpenMode} {image : Superblock → GraphImage} {s s' : Traced} {opened : Opened}
    (hopen : openVolume utf8Validate (graphLoad mode image) mode s = (.ok opened, s')) :
    (∀ entries o t, openVolume utf8Validate (graphLoad mode (withEntries image entries)) mode s = (.ok o, t) →
      RootIndexed (withEntries image entries o.sb) o.sb) ↔ verifiesGraph utf8Validate mode s = true := by
  constructor
  · intro hshows
    by_contra hfast
    rw [Bool.not_eq_true] at hfast
    obtain ⟨found, fullVerify, slot, hprepare, -⟩ := openVolume_ok hopen
    have hverify := prepareOpen_verifies hprepare
    -- the open of the device with an empty index is the same
    have hsame : openVolume utf8Validate (graphLoad mode (withEntries image (.ok []))) mode s = (.ok opened, s') := by
      rw [← hopen, openVolume, openVolume, bind_of_ok hprepare, bind_of_ok hprepare, hverify, hfast]
      rfl
    obtain ⟨entries, hentries, ⟨e, he, -⟩, -⟩ := hshows (.ok []) opened s' hsame
    cases hentries
    cases he
  · intro hfull entries o t hother
    obtain ⟨found, fullVerify, slot, hprepare, hselect⟩ := openVolume_ok hother
    have hselects := selectCheckpoint_selects (fun i sb => graphLoad mode (withEntries image entries) i sb fullVerify)
      (prepareOpen_length hprepare)
    rw [hselect] at hselects
    cases hselects with
    | loaded hin hload hfallen =>
      rw [prepareOpen_verifies hprepare, hfull] at hload
      exact load_rootIndexed hload

/-- The checkpoint of a small volume with its root at block 10 and its index
at block 11. -/
def rootCheckpoint : Superblock :=
  { copyOf 2 with rootObjectBlock := 10, objectIndexBlock := 11, incompatFlags := requiredIncompatFlags ||| 0x800 }

def uniformImage : Image := fun b =>
  if b = locatorBlockA ∨ b = locatorBlockB then locatorBlock rootCheckpoint.locator
  else if b = 0 ∨ b = 4096 ∨ b = 8191 then superblockBlock rootCheckpoint
  else default

def uniformDevice : Traced := ⟨⟨uniformImage, []⟩, 0, []⟩

theorem rootCheckpoint_source : SourceValid 8192 rootCheckpoint.locator := ⟨by decide, by decide⟩

theorem uniformImage_copy {b : Nat} (hb : b = 0 ∨ b = 4096 ∨ b = 8191) :
    checkpointAt (fun _ => true) (uniformImage b) = some rootCheckpoint := by
  have hblock : uniformImage b = superblockBlock rootCheckpoint := by
    rw [uniformImage, if_neg, if_pos hb]
    simp only [locatorBlockA, locatorBlockB]
    omega
  rw [hblock]
  exact checkpointAt_superblockBlock (by decide)

theorem uniformImage_hints :
    discoveryHints (some rootCheckpoint.locator) (some rootCheckpoint.locator) (some rootCheckpoint.locator) 8192 =
      .ok (locatorHints rootCheckpoint.locator 0 ++ locatorHints rootCheckpoint.locator 1) := by
  rfl

theorem uniformImage_found : discoverHeaders (fun _ => true) (uniformDevice.view readable) (8192 * blockSize) =
    ⟨.ok, List.replicate 6 (some rootCheckpoint), .ok⟩ := by
  have hdiv : 8192 * blockSize / blockSize = 8192 := rfl
  have hargs : ¬(8192 * blockSize % blockSize ≠ 0 ∨ 8192 < locatorMinVolumeBlocks) := by decide
  have hview (b : Nat) : uniformDevice.view readable b = .ok (uniformImage b) := rfl
  have hlocator {b : Nat} (hb : b = locatorBlockA ∨ b = locatorBlockB) :
      readLocator 8192 (.ok (uniformImage b)) = some rootCheckpoint.locator := by
    rw [uniformImage, if_pos hb, readLocator, locatorDecode_block rootCheckpoint_source.1 rootCheckpoint_source.2]
    rfl
  have hprimary : readPrimary (fun _ => true) 8192 (.ok (uniformImage 0)) = some rootCheckpoint.locator :=
    readPrimary_eq_some.mpr ⟨_, uniformImage_copy (.inl rfl), rfl, rootCheckpoint_source⟩
  have hfound : (locatorHints rootCheckpoint.locator 0 ++ locatorHints rootCheckpoint.locator 1).map
      (fun hint => checkCandidate (fun _ => true) hint (.ok (uniformImage hint.physicalBlock.toNat))) =
      List.replicate 6 (some rootCheckpoint) := by
    have hhint (source : Nat) : ∀ hint ∈ locatorHints rootCheckpoint.locator source,
        checkCandidate (fun _ => true) hint (.ok (uniformImage hint.physicalBlock.toNat)) = some rootCheckpoint := by
      intro hint hmem
      obtain ⟨j, -, rfl⟩ := List.mem_map.mp hmem
      have hpositions : ∀ j : Fin 3, (rootCheckpoint.locator.checkpoint.get j).toNat = 0 ∨
          (rootCheckpoint.locator.checkpoint.get j).toNat = 4096 ∨ (rootCheckpoint.locator.checkpoint.get j).toNat = 8191 := by decide
      exact (checkCandidate_eq_some _ _ _ _).mpr ⟨uniformImage_copy (hpositions j), rfl⟩
    rw [List.eq_replicate_iff, List.length_map, List.length_append, length_locatorHints, length_locatorHints]
    refine ⟨rfl, fun c hc => ?_⟩
    obtain ⟨hint, hmem, rfl⟩ := List.mem_map.mp hc
    rcases List.mem_append.mp hmem with hmem | hmem
    · exact hhint 0 hint hmem
    · exact hhint 1 hint hmem
  simp only [discoverHeaders, hdiv, if_neg hargs, hview, hlocator (.inl rfl), hlocator (.inr rfl), hprimary, uniformImage_hints,
    hfound]
  rfl

def readOnlyMode (isDevice : Bool) : OpenMode := ⟨false, false, true, .ok (8192 * blockSize, isDevice), true, readable⟩

def rootGraph (entries : List IndexEntry) : Superblock → GraphImage := fun sb =>
  { allocationMap := .ok fun b => decide (b < 4096)
    readObject := fun b =>
      if b = 10 then .ok ⟨sb.rootObjectId, Vector.replicate 16 0, objectDirectory, 1, 96, 0⟩
      else .ok ⟨Vector.replicate 16 2, Vector.replicate 16 0, objectIndex, 1, 8, entries.length⟩
    dirValidate := fun _ => .ok ()
    indexSnapshot := .ok entries
    indexSearch := fun _ => .error .notFound
    validateIntegrityMetadata := .ok ()
    validateNamespaceGraph := .ok ()
    validateChecksumGraph := .ok () }

theorem sixIdentical_uniform : sixIdentical (List.replicate 6 (some rootCheckpoint)) = true := by
  decide

variable (isDevice : Bool)

theorem uniform_verifies :
    verifiesGraph (fun _ => true) (readOnlyMode isDevice) uniformDevice = !isDevice := by
  have hfound := uniformImage_found
  rw [verifiesGraph]
  simp only [readOnlyMode, hfound, sixIdentical_uniform, Bool.not_true, Bool.or_false]

theorem uniform_prepareOpen : prepareOpen (fun _ => true) (readOnlyMode isDevice) uniformDevice =
    (.ok (List.replicate 6 (some rootCheckpoint), !isDevice), uniformDevice) := by
  have hfound := uniformImage_found
  rw [prepareOpen, bind_of_ok (by rfl)]
  simp only [readOnlyMode, Bool.false_eq_true, and_false, false_and, if_false]
  rw [bind_of_ok (by rfl), bind_of_ok (get_apply _)]
  simp only [hfound, sixIdentical_uniform, ne_eq, not_true_eq_false, if_false, Bool.not_true, Bool.or_false]
  rfl

theorem uniform_opens {entries : List IndexEntry}
    (hload : loadCheckpointGraph false (rootGraph entries rootCheckpoint) rootCheckpoint (!isDevice) locatorFormatMinor =
      .ok fun b => decide (b < 4096)) :
    openVolume (fun _ => true) (graphLoad (readOnlyMode isDevice) (rootGraph entries)) (readOnlyMode isDevice) uniformDevice =
      (.ok ⟨rootCheckpoint, fun b => decide (b < 4096), false⟩, uniformDevice) := by
  have hselect : selectCheckpoint (fun i sb => graphLoad (readOnlyMode isDevice) (rootGraph entries) i sb (!isDevice))
      (List.replicate 6 (some rootCheckpoint)) = .ok (0, rootCheckpoint, fun b => decide (b < 4096)) := by
    have hbest : bestFrom 0 none (List.replicate 6 (some rootCheckpoint)) = some (0, rootCheckpoint) := by decide
    rw [selectCheckpoint, maxCandidates, selectLoop, hbest]
    have hgraph : graphLoad (readOnlyMode isDevice) (rootGraph entries) 0 rootCheckpoint (!isDevice) =
      .ok fun b => decide (b < 4096) := hload
    simp only [hgraph]
  exact (openVolume_selected (uniform_prepareOpen isDevice) hselect rfl rfl).1 fun h => by cases h.1

/-- The graphs of the first two candidates are damaged. -/
def thirdLoads (i : Nat) (_ : Superblock) (_ : Bool) : Except Status (Nat → Bool) :=
  if i < 2 then .error .corrupt else .ok fun b => decide (b < 4096)

theorem open_selects_newest_third :
    openVolume (fun _ => true) thirdLoads (readOnlyMode true) uniformDevice =
      (.ok ⟨rootCheckpoint, fun b => decide (b < 4096), false⟩, uniformDevice) := by
  have hsame {j : Nat} {b : Superblock} (h : Holds (List.replicate 6 (some rootCheckpoint)) j b) : b = rootCheckpoint := by
    obtain ⟨-, h⟩ := List.mem_replicate.mp (List.mem_of_getElem? h)
    exact Option.some.inj h
  refine ((open_selects_newest (fun _ => true) thirdLoads (readOnlyMode true)).2.2.2.1 uniformDevice _ _ 2 rootCheckpoint _
    (uniform_prepareOpen true) rfl (fun j b hj hahead => ?_) rfl rfl rfl).1 fun h => nomatch h.1
  obtain rfl := hsame hj
  exact if_pos (by simpa [Ahead] using hahead)

def rootEntry : IndexEntry := ⟨rootCheckpoint.rootObjectId, 10, objectDirectory, 0, 0⟩

theorem uniform_verified : loadCheckpointGraph false (rootGraph [rootEntry] rootCheckpoint) rootCheckpoint true
    locatorFormatMinor = .ok fun b => decide (b < 4096) := by
  have hsort : sortEntries [rootEntry] = [rootEntry] := List.mergeSort_singleton _
  have hindex : validateIndexEntries (rootGraph [rootEntry] rootCheckpoint) rootCheckpoint (fun b => decide (b < 4096)) = .ok () := by
    have hheader : indexLoad (rootGraph [rootEntry] rootCheckpoint) rootCheckpoint =
      .ok ⟨Vector.replicate 16 2, Vector.replicate 16 0, objectIndex, 1, 8, 1⟩ := rfl
    have hentries : (rootGraph [rootEntry] rootCheckpoint).indexSnapshot = .ok [rootEntry] := rfl
    rw [validateIndexEntries, hheader, hentries]
    simp only [hsort]
    rfl
  have hroot : loadRoot false (rootGraph [rootEntry] rootCheckpoint) rootCheckpoint locatorFormatMinor =
    .ok fun b => decide (b < 4096) := rfl
  have hverify : verifyGraph (rootGraph [rootEntry] rootCheckpoint) rootCheckpoint (fun b => decide (b < 4096)) = .ok () := by
    rw [verifyGraph, hindex]
    rfl
  rw [loadCheckpointGraph, hroot]
  simp only [hverify, Bool.true_eq_false, if_false]

theorem open_shows_root_file : verifiesGraph (fun _ => true) (readOnlyMode false) uniformDevice = true ∧
    RootIndexed (rootGraph [rootEntry] rootCheckpoint) rootCheckpoint :=
  have hopen := uniform_opens false uniform_verified
  have hverifies := uniform_verifies false
  ⟨hverifies, (open_shows_root_iff hopen).mpr hverifies (.ok [rootEntry]) _ _ hopen⟩

/-- The fast open of a device whose index is empty succeeds. -/
theorem fast_open_without_root :
    openVolume (fun _ => true) (graphLoad (readOnlyMode true) (rootGraph [])) (readOnlyMode true) uniformDevice =
        (.ok ⟨rootCheckpoint, fun b => decide (b < 4096), false⟩, uniformDevice) ∧
      ¬RootIndexed (rootGraph [] rootCheckpoint) rootCheckpoint := by
  refine ⟨uniform_opens true rfl, ?_⟩
  rintro ⟨entries, hentries, ⟨e, he, -⟩, -⟩
  cases hentries
  cases he

end Root

end InfiltratorFS.Recovery
