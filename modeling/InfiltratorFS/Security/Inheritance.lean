import InfiltratorFS.Security.Access

namespace InfiltratorFS.Security

open Metadata (principalIdIsReserved)

section Inherit

variable (childIsDirectory : Bool)

def countsFor (flags : UInt16) : Bool :=
  if childIsDirectory then
    let fileOnlyNoPropagate := hasFlag flags aceInheritFile && !hasFlag flags aceInheritDirectory && hasFlag flags aceNoPropagate
    !fileOnlyNoPropagate && hasFlag flags (aceInheritDirectory ||| aceInheritFile)
  else hasFlag flags aceInheritFile

def inheritsTo (flags : UInt16) : Bool :=
  let inherit :=
    if childIsDirectory then hasFlag flags (aceInheritDirectory ||| aceInheritFile) else hasFlag flags aceInheritFile
  if childIsDirectory && hasFlag flags aceInheritFile && !hasFlag flags aceInheritDirectory && hasFlag flags aceNoPropagate then
    false
  else inherit

def countInherited : List Ace → Nat
  | [] => 0
  | source :: rest =>
    if countsFor childIsDirectory source.flags then countInherited rest + 1
    else countInherited rest

def inheritanceFlags : UInt16 := aceInheritFile ||| aceInheritDirectory ||| aceInheritOnly ||| aceNoPropagate

def inheritedFlags (flags : UInt16) : UInt16 :=
  let target := flags ||| aceInherited
  if !childIsDirectory then target &&& ~~~inheritanceFlags
  else
    let target := if hasFlag flags aceInheritDirectory then target &&& ~~~aceInheritOnly else target ||| aceInheritOnly
    if hasFlag flags aceNoPropagate then target &&& ~~~(aceInheritFile ||| aceInheritDirectory ||| aceNoPropagate) else target

def inheritedPrincipal (owner group principal : ObjectId) : ObjectId :=
  if principal == principalCreatorOwnerId then owner
  else if principal == principalCreatorGroupId then group
  else principal

def inheritedAce (owner group : ObjectId) (source : Ace) : Ace :=
  { source with
    principalId := inheritedPrincipal owner group source.principalId
    flags := inheritedFlags childIsDirectory source.flags }

def writeInherited (owner group : ObjectId) : List Ace → List Ace
  | [] => []
  | source :: rest =>
    if inheritsTo childIsDirectory source.flags then
      inheritedAce childIsDirectory owner group source :: writeInherited owner group rest
    else writeInherited owner group rest

/-- `infs_security_inherit_descriptor`; `memory` is the answer of calloc. -/
def inheritDescriptor (memory : Bool) (parent : Descriptor) (childIsDirectory : Bool) (owner group : ObjectId) :
    Except Status Descriptor :=
  if !descriptorIsValid parent || idIsZero owner || idIsZero group || principalIdIsReserved owner ||
      principalIdIsReserved group then .error .invalidArgument
  else
    let flags := securityDaclPresent ||| (parent.flags &&& securityAutoInherit)
    if countInherited childIsDirectory parent.aces = 0 then .ok ⟨owner, group, flags, []⟩
    else if !memory then .error .noMemory
    else .ok ⟨owner, group, flags, writeInherited childIsDirectory owner group parent.aces⟩

end Inherit

section Passes

/-- An entry of a parent goes to a file if files inherit it. It goes to a
directory if directories inherit it, or if it is on its way to the files below. -/
def Inheritable (childIsDirectory : Bool) (flags : UInt16) : Prop :=
  if childIsDirectory then hasFlag flags aceInheritDirectory = true ∨
    (hasFlag flags aceInheritFile = true ∧ hasFlag flags aceNoPropagate = false)
  else hasFlag flags aceInheritFile = true

instance (childIsDirectory : Bool) (flags : UInt16) : Decidable (Inheritable childIsDirectory flags) :=
  inferInstanceAs (Decidable (if childIsDirectory then _ ∨ (_ ∧ _) else _))

variable {childIsDirectory : Bool} {owner group : ObjectId} {flags : UInt16}

theorem inheritable_file : Inheritable false flags ↔ hasFlag flags aceInheritFile = true := by simp [Inheritable]

theorem inheritable_directory : Inheritable true flags ↔ hasFlag flags aceInheritDirectory = true ∨
    (hasFlag flags aceInheritFile = true ∧ hasFlag flags aceNoPropagate = false) := by simp [Inheritable]

theorem hasFlag_either : hasFlag flags (aceInheritDirectory ||| aceInheritFile) =
    (hasFlag flags aceInheritDirectory || hasFlag flags aceInheritFile) := by
  have hcomm (a b : UInt16) : hasFlag a b = hasFlag b a := by rw [hasFlag, hasFlag, UInt16.and_comm]
  rw [hcomm, hasFlag_or, hcomm, hcomm aceInheritFile]

theorem countsFor_eq : countsFor childIsDirectory flags = decide (Inheritable childIsDirectory flags) := by
  cases childIsDirectory with
  | false => simp [countsFor, Inheritable]
  | true =>
    rw [countsFor, if_pos rfl, hasFlag_either, Bool.eq_iff_iff, decide_eq_true_eq, Inheritable, if_pos rfl]
    cases hasFlag flags aceInheritFile <;> cases hasFlag flags aceInheritDirectory <;> cases hasFlag flags aceNoPropagate <;>
      decide

theorem inheritsTo_eq : inheritsTo childIsDirectory flags = decide (Inheritable childIsDirectory flags) := by
  cases childIsDirectory with
  | false => simp [inheritsTo, Inheritable]
  | true =>
    rw [inheritsTo, hasFlag_either, Bool.eq_iff_iff, decide_eq_true_eq, Inheritable, if_pos rfl]
    cases hasFlag flags aceInheritFile <;> cases hasFlag flags aceInheritDirectory <;> cases hasFlag flags aceNoPropagate <;>
      decide

theorem writeInherited_eq (aces : List Ace) :
    writeInherited childIsDirectory owner group aces =
      (aces.filter fun a => decide (Inheritable childIsDirectory a.flags)).map (inheritedAce childIsDirectory owner group) := by
  induction aces with
  | nil => rfl
  | cons source rest ih =>
    rw [writeInherited, inheritsTo_eq, List.filter_cons]
    split
    · rw [List.map_cons, ih]
    · exact ih

theorem countInherited_eq (owner group : ObjectId) (aces : List Ace) :
    countInherited childIsDirectory aces = (writeInherited childIsDirectory owner group aces).length := by
  induction aces with
  | nil => rfl
  | cons source rest ih =>
    rw [countInherited, writeInherited, countsFor_eq, inheritsTo_eq]
    split
    · rw [List.length_cons, ih]
    · exact ih

theorem inheritDescriptor_eq_ok {memory : Bool} {parent child : Descriptor}
    (h : inheritDescriptor memory parent childIsDirectory owner group = .ok child) :
    descriptorIsValid parent = true ∧ ordinaryId owner = true ∧ ordinaryId group = true ∧
      child = ⟨owner, group, securityDaclPresent ||| (parent.flags &&& securityAutoInherit),
        writeInherited childIsDirectory owner group parent.aces⟩ := by
  unfold inheritDescriptor at h
  split at h
  · cases h
  · rename_i hchecks
    simp only [Bool.or_eq_true, not_or, Bool.not_eq_true, Bool.not_eq_false'] at hchecks
    obtain ⟨⟨⟨⟨hvalid, howner⟩, hgroup⟩, howner'⟩, hgroup'⟩ := hchecks
    refine ⟨hvalid, by simp [ordinaryId, howner, howner'], by simp [ordinaryId, hgroup, hgroup'], ?_⟩
    dsimp only at h
    split at h
    · rename_i hnone
      rw [countInherited_eq owner group, List.length_eq_zero_iff] at hnone
      cases h
      rw [hnone]
    · split at h
      · cases h
      · cases h
        rfl

end Passes

section Validity

variable {childIsDirectory : Bool} {owner group id : ObjectId} {flags : UInt16} {ace : Ace}

theorem ordinaryId_eq_true : ordinaryId id = true ↔ idIsZero id = false ∧ principalIdIsReserved id = false := by
  rw [ordinaryId, Bool.and_eq_true, Bool.not_eq_true', Bool.not_eq_true']

theorem ordinary_ne_wellKnown (h : ordinaryId id = true) {code : UInt8}
    (hcode : principalIdIsReserved (wellKnownId code) = true) : (id == wellKnownId code) = false := by
  rw [beq_eq_false_iff_ne]
  rintro rfl
  rw [(ordinaryId_eq_true.mp h).2] at hcode
  cases hcode

theorem principalIdIsCreator_ordinary (h : ordinaryId id = true) : principalIdIsCreator id = false := by
  rw [principalIdIsCreator, principalCreatorOwnerId, principalCreatorGroupId, ordinary_ne_wellKnown h (by decide),
    ordinary_ne_wellKnown h (by decide)]
  rfl

theorem hasFlag_inheritedFlags {bits : UInt16} (hinherited : hasFlag aceInherited bits = false)
    (honly : hasFlag aceInheritOnly bits = false) (hmask : (~~~inheritanceFlags) &&& bits = bits)
    (honlyMask : (~~~aceInheritOnly) &&& bits = bits)
    (hpropagate : (~~~(aceInheritFile ||| aceInheritDirectory ||| aceNoPropagate)) &&& bits = bits) :
    hasFlag (inheritedFlags childIsDirectory flags) bits = hasFlag flags bits := by
  have htarget : hasFlag (flags ||| aceInherited) bits = hasFlag flags bits := by rw [hasFlag_or, hinherited, Bool.or_false]
  unfold inheritedFlags
  dsimp only
  split
  · rw [hasFlag_and, hmask, htarget]
  · split <;> split <;> simp only [hasFlag_and, hpropagate, honlyMask, hasFlag_or, hinherited, honly, Bool.or_false]

theorem hasFlag_inheritedFlags_file {bits : UInt16} (hbits : (~~~inheritanceFlags) &&& bits = 0) :
    hasFlag (inheritedFlags false flags) bits = false := by
  rw [inheritedFlags, if_pos Bool.not_false, hasFlag_and, hbits, hasFlag_zero]

theorem hasFlag_inheritedFlags_directory {bit : UInt16}
    (hbit : bit = aceInheritFile ∨ bit = aceInheritDirectory ∨ bit = aceNoPropagate) :
    hasFlag (inheritedFlags true flags) bit = (hasFlag flags bit && !hasFlag flags aceNoPropagate) := by
  have hinherited : hasFlag aceInherited bit = false := by rcases hbit with rfl | rfl | rfl <;> decide
  have honly : hasFlag aceInheritOnly bit = false := by rcases hbit with rfl | rfl | rfl <;> decide
  have honlyMask : (~~~aceInheritOnly) &&& bit = bit := by rcases hbit with rfl | rfl | rfl <;> decide
  have hpropagate : (~~~(aceInheritFile ||| aceInheritDirectory ||| aceNoPropagate)) &&& bit = 0 := by
    rcases hbit with rfl | rfl | rfl <;> decide
  unfold inheritedFlags
  rw [if_neg (by decide)]
  dsimp only
  cases hasFlag flags aceNoPropagate with
  | true => rw [if_pos rfl, hasFlag_and, hpropagate, hasFlag_zero, Bool.not_true, Bool.and_false]
  | false =>
    rw [if_neg (by decide), Bool.not_false, Bool.and_true]
    split <;> simp only [hasFlag_and, honlyMask, hasFlag_or, hinherited, honly, Bool.or_false]

theorem inheritedPrincipal_valid (principal : ObjectId) (howner : ordinaryId owner = true) (hgroup : ordinaryId group = true) :
    ordinaryId (inheritedPrincipal owner group principal) = true ∨
      (inheritedPrincipal owner group principal = principal ∧ principalIdIsCreator principal = false) := by
  unfold inheritedPrincipal
  split
  · exact .inl howner
  · split
    · exact .inl hgroup
    · refine .inr ⟨rfl, ?_⟩
      simp_all [principalIdIsCreator]

theorem aceIsValid_inheritedAce (howner : ordinaryId owner = true) (hgroup : ordinaryId group = true)
    (hvalid : aceIsValid ace = true) : aceIsValid (inheritedAce childIsDirectory owner group ace) = true := by
  have hflags : hasFlag (inheritedFlags childIsDirectory ace.flags) (~~~aceKnownFlags) = hasFlag ace.flags (~~~aceKnownFlags) :=
    hasFlag_inheritedFlags (by decide) (by decide) (by decide) (by decide) (by decide)
  unfold aceIsValid at hvalid ⊢
  split at hvalid
  · cases hvalid
  · rename_i hchecks
    simp only [Bool.or_eq_true, not_or, Bool.not_eq_true] at hchecks
    obtain ⟨⟨⟨⟨hzero, hrights⟩, hknown⟩, hdisposition⟩, hunknown⟩ := hchecks
    split at hvalid
    · cases hvalid
    · rename_i hreserved
      rcases inheritedPrincipal_valid ace.principalId howner hgroup with hordinary | ⟨hsame, hcreator⟩
      · have hcreator := principalIdIsCreator_ordinary hordinary
        rw [ordinaryId_eq_true] at hordinary
        simp [inheritedAce, hordinary, hcreator, hflags, hrights, hknown, hdisposition, hunknown]
      · simp [inheritedAce, hsame, hzero, hcreator, hflags, hrights, hknown, hdisposition, hunknown, hreserved]

end Validity

section Chains

structure Heir where
  isDirectory : Bool
  owner : ObjectId
  group : ObjectId
  deriving DecidableEq

inductive Descends : Descriptor → List Heir → Descriptor → Prop
  | refl (d : Descriptor) : Descends d [] d
  | step {memory : Bool} {parent child last : Descriptor} {heir : Heir} {heirs : List Heir}
      (hchild : inheritDescriptor memory parent heir.isDirectory heir.owner heir.group = .ok child)
      (hrest : Descends child heirs last) : Descends parent (heir :: heirs) last

def yields : List Heir → Ace → Option Ace
  | [], ace => some ace
  | heir :: heirs, ace =>
    if Inheritable heir.isDirectory ace.flags then yields heirs (inheritedAce heir.isDirectory heir.owner heir.group ace)
    else none

theorem filterMap_yields_cons (heir : Heir) (heirs : List Heir) (aces : List Ace) :
    (writeInherited heir.isDirectory heir.owner heir.group aces).filterMap (yields heirs) =
      aces.filterMap (yields (heir :: heirs)) := by
  induction aces with
  | nil => rfl
  | cons source rest ih =>
    rw [writeInherited, inheritsTo_eq, List.filterMap_cons, yields]
    split
    · rename_i hinherits
      rw [if_pos (of_decide_eq_true hinherits), List.filterMap_cons, ih]
    · rename_i hinherits
      rw [if_neg (by simpa using hinherits)]
      exact ih

theorem Descends.aces {d last : Descriptor} {heirs : List Heir} (h : Descends d heirs last) :
    last.aces = d.aces.filterMap (yields heirs) := by
  induction h with
  | refl d => exact List.filterMap_some.symm
  | step hchild hrest ih =>
    obtain ⟨_, _, _, rfl⟩ := inheritDescriptor_eq_ok hchild
    rw [ih]
    exact filterMap_yields_cons _ _ _

theorem not_inheritable_of_file {isDirectory : Bool} {flags : UInt16} :
    ¬Inheritable isDirectory (inheritedFlags false flags) := by
  unfold Inheritable
  rw [hasFlag_inheritedFlags_file (by decide : (~~~inheritanceFlags) &&& aceInheritFile = 0),
    hasFlag_inheritedFlags_file (by decide : (~~~inheritanceFlags) &&& aceInheritDirectory = 0)]
  cases isDirectory <;> simp

theorem not_inheritable_of_noPropagate {isDirectory isDirectory' : Bool} {flags : UInt16}
    (h : hasFlag flags aceNoPropagate = true) : ¬Inheritable isDirectory' (inheritedFlags isDirectory flags) := by
  cases isDirectory with
  | false => exact not_inheritable_of_file
  | true =>
    unfold Inheritable
    rw [hasFlag_inheritedFlags_directory (.inl rfl), hasFlag_inheritedFlags_directory (.inr (.inl rfl)), h]
    cases isDirectory' <;> simp

theorem yields_noPropagate {heir heir' : Heir} {heirs : List Heir} {ace : Ace} (h : hasFlag ace.flags aceNoPropagate = true) :
    yields (heir :: heir' :: heirs) ace = none := by
  rw [yields]
  split
  · exact if_neg (not_inheritable_of_noPropagate h)
  · rfl

theorem filterMap_filter_of_none {α β : Type} {f : α → Option β} {p : α → Bool} (l : List α)
    (h : ∀ a ∈ l, p a = false → f a = none) : l.filterMap f = (l.filter p).filterMap f := by
  rw [List.filterMap_filter]
  apply List.filterMap_congr
  intro a ha
  cases hp : p a with
  | false => exact h a ha hp
  | true => rfl

theorem descriptorIsValid_inherited {memory isDirectory : Bool} {parent child : Descriptor} {owner group : ObjectId}
    (h : inheritDescriptor memory parent isDirectory owner group = .ok child) : descriptorIsValid child = true := by
  obtain ⟨hparent, howner, hgroup, rfl⟩ := inheritDescriptor_eq_ok h
  have hunknown : hasFlag (securityDaclPresent ||| (parent.flags &&& securityAutoInherit)) (~~~securityKnownFlags) = false := by
    rw [hasFlag_or, hasFlag_and]
    exact hasFlag_zero _
  have hpresent : hasFlag (securityDaclPresent ||| (parent.flags &&& securityAutoInherit)) securityDaclPresent = true := by
    rw [hasFlag_or]
    rfl
  have haces : (writeInherited isDirectory owner group parent.aces).all aceIsValid = true := by
    rw [writeInherited_eq, List.all_map, List.all_eq_true]
    intro ace hace
    exact aceIsValid_inheritedAce howner hgroup (valid_of_mem hparent (List.mem_of_mem_filter hace))
  simp [descriptorIsValid, howner, hgroup, hunknown, hpresent, haces]

theorem inheritDescriptor_closed (memory childIsDirectory : Bool) (parent child : Descriptor) (owner group : ObjectId)
    (h : inheritDescriptor memory parent childIsDirectory owner group = .ok child) :
    descriptorIsValid child = true ∧
    child.aces = (parent.aces.filter fun a => decide (Inheritable childIsDirectory a.flags)).map
      (inheritedAce childIsDirectory owner group) ∧
    (childIsDirectory = false → ∀ ace ∈ child.aces, hasFlag ace.flags inheritanceFlags = false) ∧
    (∀ heirs last, heirs ≠ [] → Descends child heirs last →
      last.aces = (parent.aces.filter fun a => !hasFlag a.flags aceNoPropagate).filterMap
        (yields (⟨childIsDirectory, owner, group⟩ :: heirs))) ∧
    countInherited childIsDirectory parent.aces = child.aces.length := by
  have hvalid := descriptorIsValid_inherited h
  have hdescends (heirs : List Heir) (last : Descriptor) (hrest : Descends child heirs last) :
      Descends parent (⟨childIsDirectory, owner, group⟩ :: heirs) last := .step h hrest
  obtain ⟨_, _, _, rfl⟩ := inheritDescriptor_eq_ok h
  refine ⟨hvalid, writeInherited_eq _, ?_, ?_, countInherited_eq owner group _⟩
  · rintro rfl ace hace
    rw [writeInherited_eq, List.mem_map] at hace
    obtain ⟨source, _, rfl⟩ := hace
    exact hasFlag_inheritedFlags_file (by decide)
  · intro heirs last hheirs hrest
    rw [(hdescends heirs last hrest).aces]
    apply filterMap_filter_of_none
    intro source _ hsource
    rw [Bool.not_eq_false'] at hsource
    obtain ⟨heir, heirs, rfl⟩ := List.exists_cons_of_ne_nil hheirs
    exact yields_noPropagate hsource

def projectDescriptor : Descriptor :=
  ⟨Vector.replicate 16 7, Vector.replicate 16 8, securityDaclPresent,
    [⟨Vector.replicate 16 9, 1, aceAllow, aceInheritFile⟩,
      ⟨principalEveryoneId, 2, aceDeny, aceInheritDirectory ||| aceNoPropagate⟩]⟩

theorem inheritDescriptor_closed_project :
    (writeInherited true (Vector.replicate 16 7) (Vector.replicate 16 8) projectDescriptor.aces).length = 2 ∧
      countInherited true projectDescriptor.aces = 2 :=
  have h := inheritDescriptor_closed true true projectDescriptor _ (Vector.replicate 16 7) (Vector.replicate 16 8) rfl
  ⟨by decide, h.2.2.2.2.trans (by decide)⟩

end Chains

section Templates

/-- A creator entry that files inherit and directories pass on. -/
structure Template (ace : Ace) : Prop where
  creator : principalIdIsCreator ace.principalId = true
  file : hasFlag ace.flags aceInheritFile = true
  propagates : hasFlag ace.flags aceNoPropagate = false

def creatorOf (template : Ace) (heir : Heir) : ObjectId :=
  if template.principalId == principalCreatorOwnerId then heir.owner else heir.group

variable {ace : Ace} {heir file : Heir} {dirs : List Heir}

theorem inheritedPrincipal_creator (h : principalIdIsCreator ace.principalId = true) :
    inheritedPrincipal heir.owner heir.group ace.principalId = creatorOf ace heir := by
  unfold principalIdIsCreator at h
  unfold inheritedPrincipal creatorOf
  split
  · rfl
  · rename_i howner
    rw [if_pos (by simpa [howner] using h)]

theorem inheritedPrincipal_other {owner group principal : ObjectId} (h : principalIdIsCreator principal = false) :
    inheritedPrincipal owner group principal = principal := by
  unfold principalIdIsCreator at h
  rw [Bool.or_eq_false_iff] at h
  rw [inheritedPrincipal, h.1, h.2]
  rfl

theorem yields_file (hfile : file.isDirectory = false) (hinherit : hasFlag ace.flags aceInheritFile = true) :
    ∃ e, yields [file] ace = some e ∧ e.principalId = inheritedPrincipal file.owner file.group ace.principalId ∧
      hasFlag e.flags aceInheritOnly = false := by
  refine ⟨inheritedAce false file.owner file.group ace, ?_, rfl, hasFlag_inheritedFlags_file (by decide)⟩
  rw [yields, hfile, if_pos (inheritable_file.mpr hinherit), yields]

theorem yields_directory (hheir : heir.isDirectory = true) (hinherit : hasFlag ace.flags aceInheritFile = true)
    (hpropagates : hasFlag ace.flags aceNoPropagate = false) (heirs : List Heir) :
    ∃ kept, yields (heir :: heirs) ace = yields heirs kept ∧
      kept.principalId = inheritedPrincipal heir.owner heir.group ace.principalId ∧
      hasFlag kept.flags aceInheritFile = true ∧ hasFlag kept.flags aceNoPropagate = false := by
  refine ⟨inheritedAce true heir.owner heir.group ace, ?_, rfl, ?_, ?_⟩
  · rw [yields, hheir, if_pos (inheritable_directory.mpr (.inr ⟨hinherit, hpropagates⟩))]
  · rw [inheritedAce, hasFlag_inheritedFlags_directory (.inl rfl), hinherit, hpropagates]
    rfl
  · rw [inheritedAce, hasFlag_inheritedFlags_directory (.inr (.inr rfl)), hpropagates]
    rfl

theorem yields_other (hdirs : ∀ d ∈ dirs, d.isDirectory = true) (hfile : file.isDirectory = false)
    (hprincipal : principalIdIsCreator ace.principalId = false) (hinherit : hasFlag ace.flags aceInheritFile = true)
    (hpropagates : hasFlag ace.flags aceNoPropagate = false) :
    ∃ e, yields (dirs ++ [file]) ace = some e ∧ e.principalId = ace.principalId ∧ hasFlag e.flags aceInheritOnly = false := by
  induction dirs generalizing ace with
  | nil =>
    obtain ⟨e, he, hname, honly⟩ := yields_file hfile hinherit
    exact ⟨e, he, hname.trans (inheritedPrincipal_other hprincipal), honly⟩
  | cons d dirs ih =>
    obtain ⟨kept, hkept, hname, hinherit', hpropagates'⟩ :=
      yields_directory (hdirs d List.mem_cons_self) hinherit hpropagates (dirs ++ [file])
    rw [inheritedPrincipal_other hprincipal] at hname
    obtain ⟨e, he, hsame, honly⟩ :=
      ih (fun x hx => hdirs x (List.mem_cons_of_mem d hx)) (hname ▸ hprincipal) hinherit' hpropagates'
    exact ⟨e, hkept.trans he, hsame.trans hname, honly⟩

theorem yields_template (hdirs : ∀ d ∈ dirs, d.isDirectory = true) (hfile : file.isDirectory = false) (htemplate : Template ace)
    (hordinary : ∀ d ∈ dirs, ordinaryId d.owner = true ∧ ordinaryId d.group = true) :
    ∃ e, yields (dirs ++ [file]) ace = some e ∧ e.principalId = creatorOf ace (dirs.headD file) ∧
      hasFlag e.flags aceInheritOnly = false := by
  cases dirs with
  | nil =>
    obtain ⟨e, he, hname, honly⟩ := yields_file hfile htemplate.file
    exact ⟨e, he, hname.trans (inheritedPrincipal_creator htemplate.creator), honly⟩
  | cons d dirs =>
    obtain ⟨kept, hkept, hname, hinherit, hpropagates⟩ :=
      yields_directory (hdirs d List.mem_cons_self) htemplate.file htemplate.propagates (dirs ++ [file])
    rw [inheritedPrincipal_creator htemplate.creator] at hname
    obtain ⟨howner, hgroup⟩ := hordinary d List.mem_cons_self
    have hcreator : principalIdIsCreator kept.principalId = false := by
      rw [hname, creatorOf]
      split
      · exact principalIdIsCreator_ordinary howner
      · exact principalIdIsCreator_ordinary hgroup
    obtain ⟨e, he, hsame, honly⟩ :=
      yields_other (fun x hx => hdirs x (List.mem_cons_of_mem d hx)) hfile hcreator hinherit hpropagates
    exact ⟨e, hkept.trans he, hsame.trans hname, honly⟩

theorem aceApplies_ordinary {d : Descriptor} {s : Subject} {id : ObjectId} (h : ordinaryId id = true) :
    aceApplies d s id = subjectHasPrincipal s id := by
  rw [aceApplies, principalEveryoneId, principalOwnerId, principalGroupId, ordinary_ne_wellKnown h (by decide),
    ordinary_ne_wellKnown h (by decide), ordinary_ne_wellKnown h (by decide), principalIdIsCreator_ordinary h,
    (ordinaryId_eq_true.mp h).2]
  rfl

theorem Descends.ordinary {d last : Descriptor} {heirs : List Heir} (h : Descends d heirs last) :
    ∀ heir ∈ heirs, ordinaryId heir.owner = true ∧ ordinaryId heir.group = true := by
  induction h with
  | refl d =>
    intro heir hheir
    cases hheir
  | step hchild _ ih =>
    obtain ⟨_, howner, hgroup, _⟩ := inheritDescriptor_eq_ok hchild
    intro heir hheir
    rcases List.mem_cons.mp hheir with rfl | hrest
    · exact ⟨howner, hgroup⟩
    · exact ih heir hrest

/-- The template yields an effective entry on the file that names the owner
(or the group) of the file, and no one else gets rights by it. -/
def FollowsCreator (last : Descriptor) (dirs : List Heir) (file : Heir) (template : Ace) : Prop :=
  ∃ e, yields (dirs ++ [file]) template = some e ∧ e ∈ last.aces ∧ hasFlag e.flags aceInheritOnly = false ∧
    e.principalId = creatorOf template file ∧
    ∀ s, aceApplies last s e.principalId = true →
      subjectHasPrincipal s file.owner = true ∨ subjectHasPrincipal s file.group = true

/-- A creator entry follows the file's creator exactly when the first
directory below the entry, if there is one, has the same creator. -/
theorem creator_template_iff (d₀ last : Descriptor) (dirs : List Heir) (file : Heir) (template : Ace)
    (hchain : Descends d₀ (dirs ++ [file]) last) (hdirs : ∀ d ∈ dirs, d.isDirectory = true)
    (hfile : file.isDirectory = false) (hmem : template ∈ d₀.aces) (htemplate : Template template) :
    FollowsCreator last dirs file template ↔ ∀ d ∈ dirs.head?, creatorOf template d = creatorOf template file := by
  have hordinary := hchain.ordinary
  obtain ⟨e, he, hprincipal, honly⟩ :=
    yields_template hdirs hfile htemplate fun d hd => hordinary d (List.mem_append_left _ hd)
  have hlast : e ∈ last.aces := by
    rw [hchain.aces, List.mem_filterMap]
    exact ⟨template, hmem, he⟩
  have hhead : creatorOf template (dirs.headD file) = creatorOf template file ↔
      ∀ d ∈ dirs.head?, creatorOf template d = creatorOf template file := by
    cases dirs <;> simp
  rw [← hhead, ← hprincipal]
  constructor
  · rintro ⟨e', he', _, _, hnames, _⟩
    rw [he] at he'
    cases he'
    exact hnames
  · intro hnames
    refine ⟨e, he, hlast, honly, hnames, fun s hs => ?_⟩
    obtain ⟨howner, hgroup⟩ := hordinary file (List.mem_append_right _ List.mem_cons_self)
    rw [hnames] at hs
    unfold creatorOf at hs
    split at hs
    · exact .inl ((aceApplies_ordinary howner).symm.trans hs)
    · exact .inr ((aceApplies_ordinary hgroup).symm.trans hs)

def creatorEntry : Ace := ⟨principalCreatorOwnerId, 1, aceAllow, aceInheritFile ||| aceInheritDirectory ||| aceInheritOnly⟩

def sharedDescriptor : Descriptor := ⟨Vector.replicate 16 7, Vector.replicate 16 8, securityDaclPresent, [creatorEntry]⟩

def subdirectory : Heir := ⟨true, Vector.replicate 16 9, Vector.replicate 16 8⟩

def fileBelow : Heir := ⟨false, Vector.replicate 16 10, Vector.replicate 16 8⟩

def fileBelowDescriptor : Descriptor :=
  ⟨Vector.replicate 16 10, Vector.replicate 16 8, securityDaclPresent, [⟨Vector.replicate 16 9, 1, aceAllow, aceInherited⟩]⟩

theorem descends_fileBelow : Descends sharedDescriptor ([subdirectory] ++ [fileBelow]) fileBelowDescriptor :=
  have hfirst : inheritDescriptor true sharedDescriptor true subdirectory.owner subdirectory.group = .ok _ := rfl
  .step hfirst (.step (show inheritDescriptor true _ false fileBelow.owner fileBelow.group = .ok _ from rfl) (.refl _))

theorem creatorEntry_template : Template creatorEntry := ⟨by decide, by decide, by decide⟩

theorem creator_template_iff_subdirectory :
    FollowsCreator fileBelowDescriptor [subdirectory] fileBelow creatorEntry ↔
      ∀ d ∈ [subdirectory].head?, creatorOf creatorEntry d = creatorOf creatorEntry fileBelow :=
  creator_template_iff sharedDescriptor fileBelowDescriptor [subdirectory] fileBelow creatorEntry descends_fileBelow
    (by decide) rfl List.mem_cons_self creatorEntry_template

/-- The owner of the subdirectory may read a file that someone else created in it. -/
theorem creator_template_lost :
    Descends sharedDescriptor ([subdirectory] ++ [fileBelow]) fileBelowDescriptor ∧ Template creatorEntry ∧
      creatorEntry ∈ sharedDescriptor.aces ∧ ¬FollowsCreator fileBelowDescriptor [subdirectory] fileBelow creatorEntry ∧
      accessAllowed fileBelowDescriptor ⟨[subdirectory.owner], Nat.le_of_ble_eq_true rfl⟩ 1 = true ∧
      accessAllowed fileBelowDescriptor ⟨[fileBelow.owner], Nat.le_of_ble_eq_true rfl⟩ 1 = false := by
  refine ⟨descends_fileBelow, creatorEntry_template, List.mem_cons_self, ?_, by decide, by decide⟩
  rintro ⟨e, he, _, _, hnames, _⟩
  have hyields : yields ([subdirectory] ++ [fileBelow]) creatorEntry = some ⟨Vector.replicate 16 9, 1, aceAllow, aceInherited⟩ :=
    rfl
  rw [hyields] at he
  cases he
  exact absurd hnames (by decide)

end Templates

end InfiltratorFS.Security
