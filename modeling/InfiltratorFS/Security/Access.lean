import InfiltratorFS.Metadata.Streams
import Mathlib.Data.UInt

namespace InfiltratorFS.Security

open Metadata (principalIdIsReserved)

section Flags

def hasFlag (flags bits : UInt16) : Bool := flags &&& bits != 0

theorem hasFlag_and (flags mask bits : UInt16) : hasFlag (flags &&& mask) bits = hasFlag flags (mask &&& bits) := by
  rw [hasFlag, hasFlag, UInt16.and_assoc]

theorem hasFlag_or (flags flags' bits : UInt16) :
    hasFlag (flags ||| flags') bits = (hasFlag flags bits || hasFlag flags' bits) := by
  have hdistrib : (flags ||| flags') &&& bits = (flags &&& bits) ||| (flags' &&& bits) := by
    apply UInt16.toBitVec_inj.mp
    simp only [UInt16.toBitVec_and, UInt16.toBitVec_or]
    apply BitVec.eq_of_getLsbD_eq
    intro i _
    simp only [BitVec.getLsbD_and, BitVec.getLsbD_or, Bool.and_or_distrib_right]
  rw [Bool.eq_iff_iff]
  simp only [hasFlag, hdistrib, bne_iff_ne, ne_eq, UInt16.or_eq_zero_iff, Bool.or_eq_true, not_and_or]

theorem hasFlag_zero (flags : UInt16) : hasFlag flags 0 = false := by
  rw [hasFlag, UInt16.and_zero]
  rfl

end Flags

section Rights

def names (mask : UInt64) (r : Nat) : Bool := mask.toBitVec.getLsbD r

def rightMask (r : Nat) : UInt64 := ⟨BitVec.twoPow 64 r⟩

variable {mask mask' : UInt64} {r : Nat}

theorem names_and : names (mask &&& mask') r = (names mask r && names mask' r) := by
  rw [names, UInt64.toBitVec_and, BitVec.getLsbD_and, names, names]

theorem names_lt (h : names mask r = true) : r < 64 := by
  by_contra hge
  rw [names, BitVec.getLsbD_of_ge _ _ (by omega)] at h
  cases h

theorem names_and_not : names (mask &&& ~~~mask') r = (names mask r && !names mask' r) := by
  rw [names_and]
  cases hmask : names mask r with
  | false => rfl
  | true =>
    rw [names, UInt64.toBitVec_not, BitVec.getLsbD_not, decide_eq_true (names_lt hmask), names]
    rfl

theorem names_zero : names 0 r = false := BitVec.getLsbD_zero

theorem eq_zero_iff : mask = 0 ↔ ∀ r, names mask r = false := by
  constructor
  · rintro rfl r
    exact names_zero
  · intro h
    apply UInt64.toBitVec_inj.mp
    apply BitVec.eq_of_getLsbD_eq
    intro i _
    rw [← names, h i]
    exact BitVec.getLsbD_zero.symm

theorem names_rightMask (hr : r < 64) {r' : Nat} : names (rightMask r) r' = true ↔ r' = r := by
  rw [names, rightMask, BitVec.getLsbD_twoPow, decide_eq_true hr, Bool.true_and, decide_eq_true_eq, eq_comm]

end Rights

section Descriptors

/-- The reserved IDs: fifteen zero bytes and a code. -/
def wellKnownId (code : UInt8) : ObjectId := (Vector.replicate 15 0).push code

def principalOwnerId : ObjectId := wellKnownId 1
def principalGroupId : ObjectId := wellKnownId 2
def principalEveryoneId : ObjectId := wellKnownId 3
def principalCreatorOwnerId : ObjectId := wellKnownId 4
def principalCreatorGroupId : ObjectId := wellKnownId 5

def principalIdIsWellKnown (id : ObjectId) : Bool :=
  id == principalOwnerId || id == principalGroupId || id == principalEveryoneId || id == principalCreatorOwnerId ||
    id == principalCreatorGroupId

def principalIdIsCreator (id : ObjectId) : Bool := id == principalCreatorOwnerId || id == principalCreatorGroupId

/-- `INFS_RIGHT_ALL`: the bits 0 to 16. -/
def rightAll : UInt64 := 0x1ffff

def aceAllow : UInt16 := 1
def aceDeny : UInt16 := 2

def aceInheritFile : UInt16 := 0x0001
def aceInheritDirectory : UInt16 := 0x0002
def aceInheritOnly : UInt16 := 0x0004
def aceNoPropagate : UInt16 := 0x0008
def aceInherited : UInt16 := 0x0010
def aceKnownFlags : UInt16 := 0x001f

def securityDaclPresent : UInt16 := 0x0001
def securityAutoInherit : UInt16 := 0x0004
def securityKnownFlags : UInt16 := 0x0007

structure Ace where
  principalId : ObjectId
  rights : UInt64
  disposition : UInt16
  flags : UInt16
  deriving DecidableEq

structure Descriptor where
  ownerPrincipalId : ObjectId
  primaryGroupPrincipalId : ObjectId
  flags : UInt16
  aces : List Ace
  deriving DecidableEq

def aceIsValid (ace : Ace) : Bool :=
  if idIsZero ace.principalId || ace.rights == 0 || (ace.rights &&& ~~~rightAll) != 0 ||
      (ace.disposition != aceAllow && ace.disposition != aceDeny) || hasFlag ace.flags (~~~aceKnownFlags) then false
  else if principalIdIsReserved ace.principalId && !principalIdIsWellKnown ace.principalId then false
  else if principalIdIsCreator ace.principalId then
    hasFlag ace.flags (aceInheritFile ||| aceInheritDirectory) && hasFlag ace.flags aceInheritOnly
  else true

def ordinaryId (id : ObjectId) : Bool := !idIsZero id && !principalIdIsReserved id

def descriptorIsValid (d : Descriptor) : Bool :=
  ordinaryId d.ownerPrincipalId && ordinaryId d.primaryGroupPrincipalId && !hasFlag d.flags (~~~securityKnownFlags) &&
    hasFlag d.flags securityDaclPresent && d.aces.all aceIsValid

theorem disposition_of_valid {ace : Ace} (h : aceIsValid ace = true) (hdeny : ace.disposition ≠ aceDeny) :
    ace.disposition = aceAllow := by
  unfold aceIsValid at h
  by_contra hallow
  simp [hallow, hdeny] at h

theorem rights_of_valid {ace : Ace} (h : aceIsValid ace = true) : ace.rights &&& ~~~rightAll = 0 := by
  unfold aceIsValid at h
  by_contra hrights
  simp [hrights] at h

theorem valid_of_mem {d : Descriptor} (h : descriptorIsValid d = true) {ace : Ace} (hace : ace ∈ d.aces) :
    aceIsValid ace = true := by
  unfold descriptorIsValid at h
  simp only [Bool.and_eq_true, List.all_eq_true] at h
  exact h.2 ace hace

end Descriptors

section Evaluation

def sizeMax : Nat := 2 ^ 64 - 1

/-- The identities of a requester, as an array that has a place in memory. -/
structure Subject where
  ids : List ObjectId
  fits : ids.length ≤ sizeMax / 16

def subjectHasPrincipal (s : Subject) (id : ObjectId) : Bool := s.ids.any (· == id)

variable (d : Descriptor)

def aceApplies (s : Subject) (principal : ObjectId) : Bool :=
  if principal == principalEveryoneId then true
  else if principal == principalOwnerId then subjectHasPrincipal s d.ownerPrincipalId
  else if principal == principalGroupId then subjectHasPrincipal s d.primaryGroupPrincipalId
  else if principalIdIsCreator principal || (principalIdIsReserved principal && !principalIdIsWellKnown principal) then false
  else subjectHasPrincipal s principal

/-- The loop of `infs_security_access_allowed` over the remaining rights. -/
def accessLoop (s : Subject) : UInt64 → List Ace → Bool
  | _, [] => false
  | remaining, ace :: rest =>
    if hasFlag ace.flags aceInheritOnly || !aceApplies d s ace.principalId then accessLoop s remaining rest
    else
      let hit := remaining &&& ace.rights
      if hit == 0 then accessLoop s remaining rest
      else if ace.disposition == aceDeny then false
      else if remaining &&& ~~~hit == 0 then true
      else accessLoop s (remaining &&& ~~~hit) rest

def accessAllowed (s : Subject) (requested : UInt64) : Bool :=
  if !descriptorIsValid d || (requested &&& ~~~rightAll) != 0 || decide (sizeMax / 16 < s.ids.length) then false
  else if requested == 0 then true
  else accessLoop d s requested d.aces

def decides (s : Subject) (r : Nat) (ace : Ace) : Bool :=
  !hasFlag ace.flags aceInheritOnly && aceApplies d s ace.principalId && names ace.rights r

def GrantsFirst (s : Subject) (aces : List Ace) (r : Nat) : Prop :=
  ∃ ace, aces.find? (decides d s r) = some ace ∧ ace.disposition = aceAllow

variable {d : Descriptor} {s : Subject} {aces : List Ace} {ace : Ace} {r : Nat}

theorem grantsFirst_cons_of_silent (h : decides d s r ace = false) :
    GrantsFirst d s (ace :: aces) r ↔ GrantsFirst d s aces r := by
  rw [GrantsFirst, List.find?_cons, h]
  rfl

theorem grantsFirst_cons_of_decides (h : decides d s r ace = true) :
    GrantsFirst d s (ace :: aces) r ↔ ace.disposition = aceAllow := by
  rw [GrantsFirst, List.find?_cons, h]
  constructor
  · rintro ⟨found, hfound, hallow⟩
    cases hfound
    exact hallow
  · intro hallow
    exact ⟨ace, rfl, hallow⟩

theorem GrantsFirst.append (h : GrantsFirst d s aces r) (extra : List Ace) : GrantsFirst d s (aces ++ extra) r := by
  obtain ⟨ace, hfind, hallow⟩ := h
  refine ⟨ace, ?_, hallow⟩
  rw [List.find?_append, hfind]
  rfl

theorem GrantsFirst.named (h : GrantsFirst d s aces r) : ∃ ace ∈ aces, names ace.rights r = true := by
  obtain ⟨ace, hfind, _⟩ := h
  have hdecides := List.find?_some hfind
  unfold decides at hdecides
  simp only [Bool.and_eq_true] at hdecides
  exact ⟨ace, List.mem_of_find?_eq_some hfind, hdecides.2⟩

theorem decides_eq (hin : ¬(hasFlag ace.flags aceInheritOnly || !aceApplies d s ace.principalId) = true) :
    decides d s r ace = names ace.rights r := by
  simp only [Bool.or_eq_true, Bool.not_eq_true', not_or, Bool.not_eq_true, Bool.not_eq_false] at hin
  rw [decides, hin.1, hin.2]
  rfl

/-- An entry that is silent on every remaining right is skipped. -/
theorem grantsFirst_skip {remaining : UInt64} (hsilent : ∀ r, names remaining r = true → decides d s r ace = false) :
    (∀ r, names remaining r = true → GrantsFirst d s aces r) ↔ ∀ r, names remaining r = true → GrantsFirst d s (ace :: aces) r :=
  forall₂_congr fun r hr => (grantsFirst_cons_of_silent (hsilent r hr)).symm

/-- The rights that are left are those the entry does not name. -/
theorem grantsFirst_left {remaining : UInt64} (hsay : ∀ r, decides d s r ace = names ace.rights r)
    (hallow : ace.disposition = aceAllow) :
    (∀ r, names (remaining &&& ~~~(remaining &&& ace.rights)) r = true → GrantsFirst d s aces r) ↔
      ∀ r, names remaining r = true → GrantsFirst d s (ace :: aces) r := by
  apply forall_congr'
  intro r
  rw [names_and_not, names_and]
  cases hright : names ace.rights r with
  | true =>
    rw [grantsFirst_cons_of_decides ((hsay r).trans hright)]
    simp [hallow]
  | false =>
    rw [grantsFirst_cons_of_silent ((hsay r).trans hright), Bool.and_false, Bool.not_false, Bool.and_true]

/-- The loop answers for all remaining rights what the first entry with a say
answers for each of them. -/
theorem accessLoop_iff (remaining : UInt64) (hne : remaining ≠ 0) (hvalid : ∀ ace ∈ aces, aceIsValid ace = true) :
    accessLoop d s remaining aces = true ↔ ∀ r, names remaining r = true → GrantsFirst d s aces r := by
  have hnamed {mask : UInt64} (h : mask ≠ 0) : ∃ r, names mask r = true := by simpa [eq_zero_iff] using h
  fun_induction accessLoop d s remaining aces with
  | case1 remaining =>
    obtain ⟨r, hr⟩ := hnamed hne
    refine iff_of_false Bool.false_ne_true fun h => ?_
    obtain ⟨_, hfind, _⟩ := h r hr
    cases hfind
  | case2 remaining ace rest hout ih =>
    refine (ih hne (List.forall_mem_cons.mp hvalid).2).trans (grantsFirst_skip fun r _ => ?_)
    rw [decides, ← Bool.not_not (aceApplies _ _ _), ← Bool.not_or, hout]
    rfl
  | case3 remaining ace rest hin hit hhit ih =>
    refine (ih hne (List.forall_mem_cons.mp hvalid).2).trans (grantsFirst_skip fun r hr => ?_)
    have hnone := eq_zero_iff.mp (beq_iff_eq.mp hhit) r
    rw [names_and, hr, Bool.true_and] at hnone
    rw [decides_eq hin, hnone]
  | case4 remaining ace rest hin hit hhit hdeny =>
    obtain ⟨r, hr⟩ := hnamed fun h => hhit (beq_iff_eq.mpr h)
    rw [names_and, Bool.and_eq_true] at hr
    refine iff_of_false Bool.false_ne_true fun h => ?_
    have hallow := (grantsFirst_cons_of_decides ((decides_eq hin).trans hr.2)).mp (h r hr.1)
    rw [beq_iff_eq.mp hdeny] at hallow
    exact absurd hallow (by decide)
  | case5 remaining ace rest hin hit hhit hdeny hdone =>
    have hallow := disposition_of_valid (hvalid ace List.mem_cons_self) (fun h => hdeny (beq_iff_eq.mpr h))
    rw [← grantsFirst_left (fun _ => decides_eq hin) hallow, beq_iff_eq.mp hdone]
    simp only [names_zero, Bool.false_eq_true, false_implies, implies_true]
  | case6 remaining ace rest hin hit hhit hdeny hmore ih =>
    have hallow := disposition_of_valid (hvalid ace List.mem_cons_self) (fun h => hdeny (beq_iff_eq.mpr h))
    rw [← grantsFirst_left (fun _ => decides_eq hin) hallow]
    exact ih (fun h => hmore (beq_iff_eq.mpr h)) (List.forall_mem_cons.mp hvalid).2

theorem accessAllowed_eq {requested : UInt64} (hvalid : descriptorIsValid d = true) (hne : requested ≠ 0)
    (hknown : requested &&& ~~~rightAll = 0) : accessAllowed d s requested = accessLoop d s requested d.aces := by
  have hfits : ¬sizeMax / 16 < s.ids.length := Nat.not_lt.mpr s.fits
  simp [accessAllowed, hvalid, hne, hknown, hfits]

/-- No entry names a right outside of the known ones, so a request for one is
refused by both rules. -/
theorem accessAllowed_iff_grantsFirst {requested : UInt64} (hvalid : descriptorIsValid d = true) (hne : requested ≠ 0) :
    accessAllowed d s requested = true ↔ ∀ r, names requested r = true → GrantsFirst d s d.aces r := by
  by_cases hknown : requested &&& ~~~rightAll = 0
  · rw [accessAllowed_eq hvalid hne hknown]
    exact accessLoop_iff requested hne fun ace hace => valid_of_mem hvalid hace
  · constructor
    · intro h
      simp [accessAllowed, hknown] at h
    · intro h
      refine absurd (eq_zero_iff.mpr fun r => ?_) hknown
      by_contra hr
      rw [Bool.not_eq_false, names_and, Bool.and_eq_true] at hr
      obtain ⟨ace, hace, hnamed⟩ := (h r hr.1).named
      have hnone := eq_zero_iff.mp (rights_of_valid (valid_of_mem hvalid hace)) r
      rw [names_and, hnamed, hr.2] at hnone
      cases hnone

theorem rightMask_ne_zero (hr : r < 64) : rightMask r ≠ 0 := by
  intro h
  have hset := (names_rightMask hr).mpr rfl
  rw [h, names_zero] at hset
  cases hset

/-- A request is granted exactly when each of its rights is allowed by the
first entry with a say on it. So a set of rights is granted when each right
alone is, and entries behind the others take nothing away. -/
theorem accessAllowed_first_match (d : Descriptor) (s : Subject) (requested : UInt64)
    (hvalid : descriptorIsValid d = true) (hne : requested ≠ 0) :
    (accessAllowed d s requested = true ↔ ∀ r, names requested r = true →
      ∃ ace, d.aces.find? (decides d s r) = some ace ∧ ace.disposition = aceAllow) ∧
    (accessAllowed d s requested = true ↔ ∀ r, names requested r = true → accessAllowed d s (rightMask r) = true) ∧
    ∀ extra, descriptorIsValid { d with aces := d.aces ++ extra } = true → accessAllowed d s requested = true →
      accessAllowed { d with aces := d.aces ++ extra } s requested = true := by
  refine ⟨accessAllowed_iff_grantsFirst hvalid hne, ?_, ?_⟩
  · rw [accessAllowed_iff_grantsFirst hvalid hne]
    apply forall₂_congr
    intro r hr
    have hlt := names_lt hr
    rw [accessAllowed_iff_grantsFirst hvalid (rightMask_ne_zero hlt)]
    simp only [names_rightMask hlt, forall_eq]
  · intro extra hextra hgranted
    rw [accessAllowed_iff_grantsFirst hvalid hne] at hgranted
    rw [accessAllowed_iff_grantsFirst hextra hne]
    intro r hr
    -- the owner and the group are those of the shorter list
    exact (hgranted r hr).append extra

def readerDescriptor : Descriptor :=
  ⟨Vector.replicate 16 7, Vector.replicate 16 8, securityDaclPresent,
    [⟨Vector.replicate 16 9, 1, aceAllow, 0⟩, ⟨principalEveryoneId, 1, aceDeny, 0⟩]⟩

def reader : Subject := ⟨[Vector.replicate 16 9], Nat.le_of_ble_eq_true rfl⟩

theorem readerDescriptor_first_match :
    accessAllowed readerDescriptor reader 1 = true ∧
      (accessAllowed readerDescriptor reader 1 = true ↔ ∀ r, names 1 r = true →
        ∃ ace, readerDescriptor.aces.find? (decides readerDescriptor reader r) = some ace ∧ ace.disposition = aceAllow) :=
  ⟨by decide, (accessAllowed_first_match readerDescriptor reader 1 (by decide) (by decide)).1⟩

end Evaluation

end InfiltratorFS.Security
