import InfiltratorFS.Checkpoint.CrashSafety
import InfiltratorFS.Checkpoint.EntryPoints
import InfiltratorFS.Volume.Ownership

namespace InfiltratorFS.Healing

open Prog CrashDisk Function

section Device

/-- A disk that loses power after a number of requests, and the requests that
it has taken so far. -/
structure Traced where
  disk : Disk Nat Block
  power : Nat
  issued : List (Op Nat Block)

def Traced.request (op : Op Nat Block) : Prog Traced Status Unit := fun s =>
  match s.power with
  | 0 => (.error .ioError, s)
  | power + 1 => (.ok (), ⟨s.disk.apply op, power, s.issued ++ [op]⟩)

def tracedStorage : Storage Traced := ⟨fun address content => Traced.request (.write address content), Traced.request .flush⟩

def Traced.view (fault : Nat → Option Status) (s : Traced) (b : Nat) : Except Status Block :=
  match fault b with
  | some status => .error status
  | none => .ok (s.disk.read b)

def Traced.after (s : Traced) (ops : List (Op Nat Block)) : Traced :=
  ⟨s.disk.run (ops.take s.power), s.power - ops.length, s.issued ++ ops.take s.power⟩

/-- From this state the program issues these requests in order, as many of
them as the power lasts for, and it succeeds if the power lasts for all. -/
structure IssuesFrom (x : Prog Traced Status Unit) (s : Traced) (ops : List (Op Nat Block)) : Prop where
  state : (x s).2 = s.after ops
  ok_iff : (x s).1 = .ok () ↔ ops.length ≤ s.power

theorem issuesFrom_pure (s : Traced) : IssuesFrom (pure ()) s [] := by
  refine ⟨?_, ⟨fun _ => Nat.zero_le _, fun _ => rfl⟩⟩
  rw [Traced.after, List.take_nil, List.append_nil]
  rfl

theorem issuesFrom_request (op : Op Nat Block) (s : Traced) : IssuesFrom (Traced.request op) s [op] := by
  obtain ⟨disk, power, issued⟩ := s
  cases power with
  | zero =>
    refine ⟨?_, ⟨fun h => (nomatch h), fun h => absurd h (Nat.not_succ_le_zero 0)⟩⟩
    rw [Traced.after, List.take_zero, List.append_nil]
    rfl
  | succ power =>
    refine ⟨?_, ⟨fun _ => Nat.succ_le_succ (Nat.zero_le _), fun _ => rfl⟩⟩
    rw [Traced.after, List.take_of_length_le (Nat.succ_le_succ (Nat.zero_le _))]
    rfl

/-- What comes second sees the disk as the requests of what comes first left
it. -/
theorem IssuesFrom.bind {x y : Prog Traced Status Unit} {s : Traced} {xs ys : List (Op Nat Block)} (hx : IssuesFrom x s xs)
    (hy : ∀ s', s'.disk = s.disk.run xs → IssuesFrom y s' ys) : IssuesFrom (x >>= fun _ => y) s (xs ++ ys) := by
  obtain ⟨hstate, hok⟩ := hx
  rcases hrun : x s with ⟨e | u, s'⟩
  · rw [hrun] at hstate hok
    have hpower : s.power < xs.length := Nat.lt_of_not_le fun h => nomatch hok.mpr h
    refine ⟨?_, ⟨fun h => ?_, fun h => ?_⟩⟩
    · rw [bind_of_error hrun]
      rw [Traced.after] at hstate ⊢
      rw [List.take_append_of_le_length (by omega), List.length_append]
      have hleft : s.power - (xs.length + ys.length) = s.power - xs.length := by omega
      rw [hleft]
      exact hstate
    · rw [bind_of_error hrun] at h
      cases h
    · rw [List.length_append] at h
      omega
  · rw [hrun] at hstate hok
    have hpower : xs.length ≤ s.power := hok.mp rfl
    obtain rfl : s' = s.after xs := hstate
    have hdisk : (s.after xs).disk = s.disk.run xs := by
      rw [Traced.after, List.take_of_length_le hpower]
    obtain ⟨hstate', hok'⟩ := hy _ hdisk
    have hleft : (s.after xs).power = s.power - xs.length := rfl
    refine ⟨?_, ?_⟩
    · rw [bind_of_ok hrun, hstate', Traced.after, hdisk, hleft, Traced.after, Traced.after, List.take_append, Disk.run_append,
        List.take_of_length_le hpower, List.append_assoc, List.length_append, Nat.sub_sub]
    · rw [bind_of_ok hrun, hok', hleft, List.length_append]
      omega

end Device

section Model

variable (utf8Validate : List UInt8 → Bool) (fault : Nat → Option Status) (physicalBlocks : Nat)

def Traced.viewBlock (s : Traced) (total b : Nat) : Except Status Block :=
  if total ≤ b then .error .invalidArgument else s.view fault b

/-- `checkpoint_matches`. Both of its branches validate for minor 19, and the
checksum is no part of the record. -/
def checkpointMatches (best : Superblock) : Except Status Block → Bool
  | .error _ => false
  | .ok raw => decide (checkpointAt utf8Validate raw = some best)

def rewriteCopies (sb : Superblock) (raw : Block) : List (Fin 3) → Prog Traced Status Unit
  | [] => pure ()
  | j :: rest => do
      if sb.total ≤ (sb.checkpointBlock.get j).toNat then fail .invalidArgument
      else Traced.request (.write (sb.checkpointBlock.get j).toNat raw)
      Traced.request .flush
      rewriteCopies sb raw rest

def healCheckpoints (sb : Superblock) : Prog Traced Status Unit := do
  let s ← get
  let repair := (List.finRange 3).filter fun j =>
    !checkpointMatches utf8Validate sb (s.viewBlock fault sb.total (sb.checkpointBlock.get j).toNat)
  if repair = [] then pure ()
  else do
    let raw ← ofExcept (encodeSuperblock utf8Validate sb)
    rewriteCopies sb raw repair

/-- The test of `heal_locators`: the generation of a locator may lag. -/
def locatorMatches (sb : Superblock) (raw : Block) : Bool :=
  match locatorDecode raw physicalBlocks with
  | .error _ => false
  | .ok loc =>
    loc.totalBlocks == sb.totalBlocks && decide (loc.generation ≤ sb.generation) &&
      loc.filesystemUuid == sb.filesystemUuid && loc.checkpoint == sb.checkpointBlock

def healLocator (sb : Superblock) (copy : Fin 2) : Prog Traced Status Unit := do
  let s ← get
  let raw ← ofExcept (s.view fault (locatorAddress copy))
  if locatorMatches physicalBlocks sb raw = true then pure ()
  else do
    volumePublishLocator tracedStorage sb copy
    Traced.request .flush

def healLocators (sb : Superblock) : Prog Traced Status Unit := do
  healLocator fault physicalBlocks sb 0
  healLocator fault physicalBlocks sb 1

def heal (sb : Superblock) : Prog Traced Status Unit := do
  healCheckpoints utf8Validate fault sb
  healLocators fault physicalBlocks sb

end Model

section Requests

variable (utf8Validate : List UInt8 → Bool)

def readable : Nat → Option Status := fun _ => none

def mismatched (sb : Superblock) (image : Image) : List (Fin 3) :=
  (List.finRange 3).filter fun j => !decide (checkpointAt utf8Validate (image (sb.checkpointBlock.get j).toNat) = some sb)

def copyRepairs (sb : Superblock) (image : Image) : List (Op Nat Block) :=
  (mismatched utf8Validate sb image).flatMap (copyRequests sb)

def locatorRepair (physicalBlocks : Nat) (sb : Superblock) (image : Image) (copy : Fin 2) : List (Op Nat Block) :=
  if locatorMatches physicalBlocks sb (image (locatorAddress copy)) = true then [] else locatorRequests sb copy

def locatorRepairs (physicalBlocks : Nat) (sb : Superblock) (image : Image) : List (Op Nat Block) :=
  locatorRepair physicalBlocks sb image 0 ++ locatorRepair physicalBlocks sb image 1

variable {utf8Validate} {physicalBlocks : Nat} {sb : Superblock} {image : Image}

theorem issuesFrom_rewriteCopies (hpositions : ∀ j : Fin 3, (sb.checkpointBlock.get j).toNat < sb.total) (repair : List (Fin 3))
    (s : Traced) : IssuesFrom (rewriteCopies sb (superblockBlock sb) repair) s (repair.flatMap (copyRequests sb)) := by
  induction repair generalizing s with
  | nil => exact issuesFrom_pure s
  | cons j rest ih =>
    rw [rewriteCopies, if_neg (by have := hpositions j; omega), List.flatMap_cons]
    exact (issuesFrom_request _ s).bind fun s' _ => (issuesFrom_request _ s').bind fun s'' _ => ih s''

theorem mem_mismatched {j : Fin 3} :
    j ∈ mismatched utf8Validate sb image ↔ checkpointAt utf8Validate (image (sb.checkpointBlock.get j).toNat) ≠ some sb := by
  simp [mismatched]

theorem encode_of_fieldsValid (h : superblockFieldsValid utf8Validate sb locatorFormatMinor = true) :
    encodeSuperblock utf8Validate sb = .ok (superblockBlock sb) := by
  simp only [superblockFieldsValid, Bool.and_eq_true] at h
  rw [encodeSuperblock, if_pos]
  simp only [Bool.and_eq_true]
  exact ⟨⟨h.1.1.2, h.1.1.1.1.2⟩, h.1.1.1.2⟩

theorem issuesFrom_healCheckpoints (hfields : superblockFieldsValid utf8Validate sb locatorFormatMinor = true)
    (hpositions : ∀ j : Fin 3, (sb.checkpointBlock.get j).toNat < sb.total) (s : Traced) (hread : ∀ b, s.disk.read b = image b) :
    IssuesFrom (healCheckpoints utf8Validate readable sb) s (copyRepairs utf8Validate sb image) := by
  have hview (j : Fin 3) : s.viewBlock readable sb.total (sb.checkpointBlock.get j).toNat =
      .ok (image (sb.checkpointBlock.get j).toNat) := by
    have := hpositions j
    rw [Traced.viewBlock, if_neg (by omega), Traced.view, readable, hread]
  have hrun : healCheckpoints utf8Validate readable sb s =
      (if mismatched utf8Validate sb image = [] then pure ()
        else ofExcept (encodeSuperblock utf8Validate sb) >>= fun raw => rewriteCopies sb raw (mismatched utf8Validate sb image)) s := by
    rw [healCheckpoints, bind_of_ok (get_apply s)]
    simp only [hview, checkpointMatches]
    rfl
  have hissues : IssuesFrom (if mismatched utf8Validate sb image = [] then pure ()
        else ofExcept (encodeSuperblock utf8Validate sb) >>= fun raw => rewriteCopies sb raw (mismatched utf8Validate sb image)) s
      (copyRepairs utf8Validate sb image) := by
    split
    · rename_i hnone
      rw [copyRepairs, hnone]
      exact issuesFrom_pure s
    · rw [encode_of_fieldsValid hfields]
      exact issuesFrom_rewriteCopies hpositions _ s
  exact ⟨hrun ▸ hissues.state, hrun ▸ hissues.ok_iff⟩

theorem issuesFrom_healLocator (hvalid : locatorFieldsValid sb.locator = true) (copy : Fin 2) (s : Traced)
    (hread : s.disk.read (locatorAddress copy) = image (locatorAddress copy)) :
    IssuesFrom (healLocator readable physicalBlocks sb copy) s (locatorRepair physicalBlocks sb image copy) := by
  have hrun : healLocator readable physicalBlocks sb copy s =
      (if locatorMatches physicalBlocks sb (image (locatorAddress copy)) = true then pure ()
        else volumePublishLocator tracedStorage sb copy >>= fun _ => Traced.request .flush) s := by
    rw [healLocator, bind_of_ok (get_apply s), Traced.view, readable, hread]
    rfl
  have hissues : IssuesFrom (if locatorMatches physicalBlocks sb (image (locatorAddress copy)) = true then pure ()
        else volumePublishLocator tracedStorage sb copy >>= fun _ => Traced.request .flush) s
      (locatorRepair physicalBlocks sb image copy) := by
    rw [locatorRepair]
    split
    · exact issuesFrom_pure s
    · rw [volumePublishLocator, locatorEncode, if_pos hvalid]
      exact (issuesFrom_request _ s).bind fun s' _ => issuesFrom_request _ s'
  exact ⟨hrun ▸ hissues.state, hrun ▸ hissues.ok_iff⟩

end Requests

section Degraded

variable (utf8Validate : List UInt8 → Bool)

/-- A device on which discovery finds the checkpoint that is selected. -/
structure Degraded where
  physicalBlocks : Nat
  base : Image
  selected : Superblock
  found : selected ∈ (discover utf8Validate base physicalBlocks).candidates

variable {utf8Validate}

/-- The device when the power fails after so many requests of the repair, with
the result of the repair. -/
def Degraded.interrupted (d : Degraded utf8Validate) (power : Nat) : Except Status Unit × Traced :=
  heal utf8Validate readable d.physicalBlocks d.selected ⟨⟨d.base, []⟩, power, []⟩

def Degraded.repairs (d : Degraded utf8Validate) : List (Op Nat Block) :=
  copyRepairs utf8Validate d.selected d.base ++ locatorRepairs d.physicalBlocks d.selected d.base

/-- The positions of the selected checkpoint do not depend on a block that the
repair is about to overwrite: a locator names them, or the primary is intact. -/
def Degraded.Anchored (d : Degraded utf8Validate) : Prop :=
  (∃ copy, ∃ loc ∈ readLocator d.physicalBlocks (.ok (d.base (locatorAddress copy))), loc.geometry = d.selected.geometry) ∨
    checkpointAt utf8Validate (d.base 0) = some d.selected

variable (d : Degraded utf8Validate)

theorem Degraded.offered : Offered utf8Validate d.base d.physicalBlocks d.selected := (discover_agree utf8Validate d.found).2.1

theorem Degraded.copy : ∃ j : Fin 3, checkpointAt utf8Validate (d.base (d.selected.checkpointBlock.get j).toNat) = some d.selected := by
  obtain ⟨position, ⟨loc, -, hgeometry, j, rfl⟩, hat⟩ := d.offered
  have hpositions : loc.checkpoint = d.selected.checkpointBlock := congrArg Geometry.checkpoint hgeometry
  rw [hpositions] at hat
  exact ⟨j, hat⟩

theorem Degraded.fields : superblockFieldsValid utf8Validate d.selected locatorFormatMinor = true := by
  obtain ⟨j, hj⟩ := d.copy
  exact checkpointAt_fieldsValid hj

theorem Degraded.source : SourceValid d.physicalBlocks d.selected.locator := by
  obtain ⟨position, ⟨loc, hloc, hgeometry, -⟩, -⟩ := d.offered
  have hvalid : SourceValid d.physicalBlocks loc := by
    rcases mem_sources.mp hloc with ⟨copy, hcopy⟩ | hprimary
    · exact readLocator_valid hcopy
    · obtain ⟨sb, -, -, hvalid⟩ := readPrimary_eq_some.mp hprimary
      exact hvalid
  have hgeneration : d.selected.locator.generation ≠ 0 := by
    have h := d.fields
    simp only [superblockFieldsValid, Bool.and_eq_true, bne_iff_ne] at h
    exact h.1.1.1.1.1.2
  refine ⟨locatorFieldsValid_congr hvalid.1 hgeometry.symm hgeneration, ?_⟩
  have htotal : d.selected.locator.totalBlocks = loc.totalBlocks := (congrArg Geometry.totalBlocks hgeometry).symm
  rw [htotal]
  exact hvalid.2

theorem Degraded.positions : GoodPositions d.selected.checkpointBlock := goodPositions_of_valid d.source.1

theorem write_mem_copyRepairs {sb : Superblock} {image : Image} {a : Nat} {c : Block}
    (h : Op.write a c ∈ copyRepairs utf8Validate sb image) :
    ∃ j ∈ mismatched utf8Validate sb image, a = (sb.checkpointBlock.get j).toNat ∧ c = superblockBlock sb := by
  obtain ⟨j, hj, hwrite⟩ := List.mem_flatMap.mp h
  exact ⟨j, hj, write_mem_copyRequests.mp hwrite⟩

theorem write_mem_locatorRepairs {physicalBlocks : Nat} {sb : Superblock} {image : Image} {a : Nat} {c : Block}
    (h : Op.write a c ∈ locatorRepairs physicalBlocks sb image) :
    ∃ copy, locatorMatches physicalBlocks sb (image (locatorAddress copy)) = false ∧ a = locatorAddress copy ∧
      c = locatorBlock sb.locator := by
  have hone {copy : Fin 2} (h : Op.write a c ∈ locatorRepair physicalBlocks sb image copy) :
      ∃ copy, locatorMatches physicalBlocks sb (image (locatorAddress copy)) = false ∧ a = locatorAddress copy ∧
        c = locatorBlock sb.locator := by
    rw [locatorRepair] at h
    split at h
    · cases h
    · rename_i hmismatch
      exact ⟨copy, by simpa using hmismatch, write_mem_locatorRequests.mp h⟩
  rcases List.mem_append.mp h with h | h
  · exact hone h
  · exact hone h

theorem Degraded.issues (power : Nat) :
    IssuesFrom (heal utf8Validate readable d.physicalBlocks d.selected) ⟨⟨d.base, []⟩, power, []⟩ d.repairs := by
  -- no repair touches a locator before that locator is read
  have hcopies (copy : Fin 2) : Untouched (locatorAddress copy) (copyRepairs utf8Validate d.selected d.base) := by
    intro c hc
    obtain ⟨j, -, haddress, -⟩ := write_mem_copyRepairs hc
    exact d.positions.ne_locator j copy haddress.symm
  have hfirst : Untouched (locatorAddress 1) (locatorRepair d.physicalBlocks d.selected d.base 0) := by
    rw [locatorRepair]
    split
    · exact fun c hc => nomatch hc
    · exact untouched_locatorRequests (by decide)
  refine (issuesFrom_healCheckpoints d.fields d.source.position_lt _ fun b => rfl).bind fun s hs =>
    (issuesFrom_healLocator d.source.1 0 s ?_).bind fun s' hs' => issuesFrom_healLocator d.source.1 1 s' ?_
  · rw [hs]
    exact ((base_holds d.base _).run _ (hcopies 0)).read
  · rw [hs', hs]
    exact (((base_holds d.base _).run _ (hcopies 1)).run _ hfirst).read

theorem Degraded.interrupted_disk (power : Nat) :
    (d.interrupted power).2.disk = (⟨d.base, []⟩ : Disk Nat Block).run (d.repairs.take power) :=
  congrArg Traced.disk (d.issues power).state

theorem Degraded.interrupted_issued (power : Nat) : (d.interrupted power).2.issued = d.repairs.take power :=
  congrArg Traced.issued (d.issues power).state

theorem Degraded.untouched_copy {j : Fin 3}
    (h : checkpointAt utf8Validate (d.base (d.selected.checkpointBlock.get j).toNat) = some d.selected) :
    Untouched (d.selected.checkpointBlock.get j).toNat d.repairs := by
  refine untouched_append (fun c hc => ?_) fun c hc => ?_
  · obtain ⟨i, hi, haddress, -⟩ := write_mem_copyRepairs hc
    obtain rfl := d.positions.injective _ _ haddress
    exact mem_mismatched.mp hi h
  · obtain ⟨copy, -, haddress, -⟩ := write_mem_locatorRepairs hc
    exact d.positions.ne_locator j copy haddress

theorem locatorAddress_injective {i j : Fin 2} (h : locatorAddress i = locatorAddress j) : i = j := by
  revert i j
  decide

theorem Degraded.untouched_locator {copy : Fin 2}
    (h : locatorMatches d.physicalBlocks d.selected (d.base (locatorAddress copy)) = true) :
    Untouched (locatorAddress copy) d.repairs := by
  refine untouched_append (fun c hc => ?_) fun c hc => ?_
  · obtain ⟨j, -, haddress, -⟩ := write_mem_copyRepairs hc
    exact d.positions.ne_locator j copy haddress.symm
  · obtain ⟨copy', hmismatch, haddress, -⟩ := write_mem_locatorRepairs hc
    obtain rfl := locatorAddress_injective haddress
    rw [h] at hmismatch
    cases hmismatch

end Degraded

section Soundness

variable {utf8Validate : List UInt8 → Bool} (d : Degraded utf8Validate)

/-- What no interruption can break: every geometry was named before, and every
checkpoint lay at its block before or is the selected one. -/
structure Degraded.Sound (image : Image) : Prop where
  sources : ∀ loc ∈ sources utf8Validate image d.physicalBlocks,
    ∃ loc' ∈ InfiltratorFS.sources utf8Validate d.base d.physicalBlocks, loc'.geometry = loc.geometry
  checkpoints : ∀ a sb, (∀ copy, a ≠ locatorAddress copy) → checkpointAt utf8Validate (image a) = some sb →
    checkpointAt utf8Validate (d.base a) = some sb ∨ sb = d.selected

theorem Degraded.named : ∃ loc ∈ sources utf8Validate d.base d.physicalBlocks, loc.geometry = d.selected.geometry := by
  obtain ⟨position, ⟨loc, hloc, hgeometry, -⟩, -⟩ := d.offered
  exact ⟨loc, hloc, hgeometry⟩

theorem Degraded.sound_base : d.Sound d.base := ⟨fun loc hloc => ⟨loc, hloc, rfl⟩, fun _ _ _ h => .inl h⟩

theorem Degraded.keeps {a : Nat} {c : Block} (h : Op.write a c ∈ d.repairs) :
    Keeps (Torn utf8Validate d.physicalBlocks) d.Sound a c := by
  rcases List.mem_append.mp h with h | h
  · obtain ⟨j, -, rfl, rfl⟩ := write_mem_copyRepairs h
    have haddress := d.positions.ne_locator j
    refine keeps_superblockBlock d.fields haddress fun m content hm hcontent => ⟨?_, fun a sb ha hsb => ?_⟩
    · exact sources_update_checkpoint hm.sources haddress fun sb hsb => by rw [hcontent sb hsb]; exact d.named
    · by_cases heq : a = (d.selected.checkpointBlock.get j).toNat
      · rw [heq, update_self] at hsb
        exact .inr (hcontent sb hsb)
      · rw [update_of_ne heq] at hsb
        exact hm.checkpoints a sb ha hsb
  · obtain ⟨copy, -, rfl, rfl⟩ := write_mem_locatorRepairs h
    refine keeps_locatorBlock d.source fun m content hm hcontent => ⟨?_, fun a sb ha hsb => ?_⟩
    · exact sources_update_locator hm.sources fun loc hloc => by rw [hcontent loc hloc]; exact d.named
    · rw [update_of_ne (ha copy)] at hsb
      exact hm.checkpoints a sb ha hsb

/-- Whatever is offered on a sound image was offered before the repair. -/
theorem Degraded.Sound.offered {image : Image} (h : d.Sound image) {sb : Superblock}
    (hsb : Offered utf8Validate image d.physicalBlocks sb) : Offered utf8Validate d.base d.physicalBlocks sb := by
  obtain ⟨position, ⟨loc, hloc, hgeometry, j, rfl⟩, hat⟩ := hsb
  obtain ⟨loc', hloc', hsame⟩ := h.sources loc hloc
  have hvalid : GoodPositions loc.checkpoint := by
    rcases mem_sources.mp hloc with ⟨copy, hcopy⟩ | hprimary
    · exact goodPositions_of_valid (readLocator_valid hcopy).1
    · obtain ⟨-, -, -, hvalid⟩ := readPrimary_eq_some.mp hprimary
      exact goodPositions_of_valid hvalid.1
  rcases h.checkpoints _ sb (hvalid.ne_locator j) hat with hbase | rfl
  · have hpositions : loc'.checkpoint = loc.checkpoint := congrArg Geometry.checkpoint hsame
    exact ⟨(loc.checkpoint.get j), ⟨loc', hloc', hsame.trans hgeometry, j, by rw [hpositions]⟩, hbase⟩
  · exact d.offered

end Soundness

section Availability

variable {utf8Validate : List UInt8 → Bool} (d : Degraded utf8Validate) {image : Image}

theorem Degraded.holds_copy (j : Fin 3) : ∃ content,
    ((⟨d.base, []⟩ : Disk Nat Block).run (copyRepairs utf8Validate d.selected d.base)).Holds
      (d.selected.checkpointBlock.get j).toNat content ∧ checkpointAt utf8Validate content = some d.selected := by
  have hrun (repair : List (Fin 3)) (disk : Disk Nat Block) (h : j ∈ repair) :
      (disk.run (repair.flatMap (copyRequests d.selected))).Holds (d.selected.checkpointBlock.get j).toNat
        (superblockBlock d.selected) := by
    induction repair generalizing disk with
    | nil => cases h
    | cons i rest ih =>
      rw [List.flatMap_cons, Disk.run_append]
      by_cases hrest : j ∈ rest
      · exact ih _ hrest
      · obtain rfl : j = i := (List.mem_cons.mp h).resolve_right hrest
        refine (Disk.holds_write_flush _ _ _).run _ fun c hc => ?_
        obtain ⟨k, hk, hwrite⟩ := List.mem_flatMap.mp hc
        obtain rfl := d.positions.injective _ _ (write_mem_copyRequests.mp hwrite).1
        exact hrest hk
  by_cases hmatch : checkpointAt utf8Validate (d.base (d.selected.checkpointBlock.get j).toNat) = some d.selected
  · refine ⟨_, (base_holds d.base _).run _ fun c hc => ?_, hmatch⟩
    exact d.untouched_copy hmatch c (List.mem_append_left _ hc)
  · exact ⟨_, hrun _ _ (mem_mismatched.mpr hmatch), checkpointAt_superblockBlock d.fields⟩

theorem Degraded.untouched_position (j : Fin 3) :
    Untouched (d.selected.checkpointBlock.get j).toNat (locatorRepairs d.physicalBlocks d.selected d.base) := by
  intro c hc
  obtain ⟨copy, -, haddress, -⟩ := write_mem_locatorRepairs hc
  exact d.positions.ne_locator j copy haddress

/-- The selected checkpoint is offered at every point of the repair: at first
by what anchors it, and by the primary once all copies are repaired. -/
theorem Degraded.still_offered (hanchored : d.Anchored) {pre : List (Op Nat Block)} (hpre : pre <+: d.repairs)
    (hcrash : ((⟨d.base, []⟩ : Disk Nat Block).run pre).Crashes (Torn utf8Validate d.physicalBlocks) image) :
    Offered utf8Validate image d.physicalBlocks d.selected := by
  have hkept {a : Nat} (h : Untouched a pre) : image a = d.base a := ((base_holds d.base a).run pre h).crash hcrash
  have hprimary : (d.selected.checkpointBlock.get 0).toNat = 0 := by
    rw [d.positions.primary]
    rfl
  rcases List.prefix_or_prefix_of_prefix hpre
    (List.prefix_append (copyRepairs utf8Validate d.selected d.base) _) with hcopies | ⟨rest, rfl⟩
  · rcases hanchored with ⟨copy, loc, hloc, hgeometry⟩ | hzero
    · obtain ⟨j, hj⟩ := d.copy
      have hlocator : Untouched (locatorAddress copy) pre := fun c hc => by
        obtain ⟨i, -, haddress, -⟩ := write_mem_copyRepairs (hcopies.subset hc)
        exact d.positions.ne_locator i copy haddress.symm
      rw [← hkept hlocator] at hloc
      rw [← hkept <| Untouched.of_prefix (d.untouched_copy hj) hpre] at hj
      exact offered_of_locator copy j hloc hgeometry hj
    · refine offered_of_primary ?_ d.source
      rw [← hprimary] at hzero ⊢
      rwa [hkept <| Untouched.of_prefix (d.untouched_copy hzero) hpre]
  · rw [Degraded.repairs, List.prefix_append_right_inj] at hpre
    obtain ⟨content, hholds, hcontent⟩ := d.holds_copy 0
    rw [Disk.run_append] at hcrash
    have huntouched := Untouched.of_prefix (d.untouched_position 0) hpre
    have himage := (hholds.run rest huntouched).crash hcrash
    rw [hprimary] at himage
    exact offered_of_primary (himage ▸ hcontent) d.source

theorem Degraded.healed_copy (j : Fin 3)
    (hcrash : ((⟨d.base, []⟩ : Disk Nat Block).run d.repairs).Crashes (Torn utf8Validate d.physicalBlocks) image) :
    checkpointAt utf8Validate (image (d.selected.checkpointBlock.get j).toNat) = some d.selected := by
  obtain ⟨content, hholds, hcontent⟩ := d.holds_copy j
  rw [Degraded.repairs, Disk.run_append] at hcrash
  rw [(hholds.run _ (d.untouched_position j)).crash hcrash]
  exact hcontent

theorem locatorMatches_iff {physicalBlocks : Nat} {sb : Superblock} {raw : Block} :
    locatorMatches physicalBlocks sb raw = true ↔
      ∃ loc, locatorDecode raw physicalBlocks = .ok loc ∧ loc.geometry = sb.geometry ∧ loc.generation ≤ sb.generation := by
  rw [locatorMatches]
  cases locatorDecode raw physicalBlocks with
  | error e => simp
  | ok loc =>
    simp only [Bool.and_eq_true, beq_iff_eq, decide_eq_true_eq, Except.ok.injEq, exists_eq_left', Locator.geometry,
      Superblock.geometry, Geometry.mk.injEq]
    tauto

theorem Degraded.healed_locator (copy : Fin 2)
    (hcrash : ((⟨d.base, []⟩ : Disk Nat Block).run d.repairs).Crashes (Torn utf8Validate d.physicalBlocks) image) :
    locatorMatches d.physicalBlocks d.selected (image (locatorAddress copy)) = true := by
  by_cases hmatch : locatorMatches d.physicalBlocks d.selected (d.base (locatorAddress copy)) = true
  · rwa [((base_holds d.base _).run _ (d.untouched_locator hmatch)).crash hcrash]
  · have hself : locatorMatches d.physicalBlocks d.selected (locatorBlock d.selected.locator) = true :=
      locatorMatches_iff.mpr ⟨_, locatorDecode_block d.source.1 d.source.2, rfl, UInt64.le_refl _⟩
    have hwritten (disk : Disk Nat Block) : (disk.run (locatorRepair d.physicalBlocks d.selected d.base copy)).Holds
        (locatorAddress copy) (locatorBlock d.selected.locator) := by
      rw [locatorRepair, if_neg hmatch]
      exact disk.holds_write_flush _ _
    have hother : Untouched (locatorAddress 0) (locatorRepair d.physicalBlocks d.selected d.base 1) := by
      rw [locatorRepair]
      split
      · exact fun c hc => nomatch hc
      · exact untouched_locatorRequests (by decide)
    have himage : image (locatorAddress copy) = locatorBlock d.selected.locator := by
      rw [Degraded.repairs, locatorRepairs, Disk.run_append, Disk.run_append] at hcrash
      match copy with
      | 0 => exact ((hwritten _).run _ hother).crash hcrash
      | 1 => exact (hwritten _).crash hcrash
    rwa [himage]

end Availability

section CrashSafety

variable {utf8Validate : List UInt8 → Bool}

/-- The repair is crash safe where the positions of the selected checkpoint do
not hang on a stale primary. At every interruption discovery still finds the
selected checkpoint and nothing that it did not find before, so its newest
generation is the selected one unless a newer checkpoint had been rejected.
What matched is never written to. With enough power the repair completes, and
then every copy holds the selected checkpoint and every locator its geometry,
under a generation that may lag. -/
theorem healing_crash_safe (d : Degraded utf8Validate) (hanchored : d.Anchored) (power : Nat) :
    (∀ image, (d.interrupted power).2.disk.Crashes (Torn utf8Validate d.physicalBlocks) image →
      let found := discover utf8Validate image d.physicalBlocks
      found.status = .ok ∧ d.selected ∈ found.candidates ∧
        (∀ sb ∈ found.candidates, sb ∈ (discover utf8Validate d.base d.physicalBlocks).candidates) ∧
        ((∀ sb ∈ (discover utf8Validate d.base d.physicalBlocks).candidates,
            sb.generation.toNat ≤ d.selected.generation.toNat) →
          (found.candidates.map fun sb => sb.generation.toNat).max? = some d.selected.generation.toNat)) ∧
    (∀ j : Fin 3, checkpointAt utf8Validate (d.base (d.selected.checkpointBlock.get j).toNat) = some d.selected →
      Untouched (d.selected.checkpointBlock.get j).toNat (d.interrupted power).2.issued) ∧
    (∀ copy, locatorMatches d.physicalBlocks d.selected (d.base (locatorAddress copy)) = true →
      Untouched (locatorAddress copy) (d.interrupted power).2.issued) ∧
    (d.repairs.length ≤ power → (d.interrupted power).1 = .ok ()) ∧
    ((d.interrupted power).1 = .ok () →
      ∀ image, (d.interrupted power).2.disk.Crashes (Torn utf8Validate d.physicalBlocks) image →
        (∀ j : Fin 3, checkpointAt utf8Validate (image (d.selected.checkpointBlock.get j).toNat) = some d.selected) ∧
        ∀ copy, ∃ loc, readLocator d.physicalBlocks (.ok (image (locatorAddress copy))) = some loc ∧
          loc.geometry = d.selected.geometry ∧ loc.generation ≤ d.selected.generation) := by
  have hok : (d.interrupted power).1 = .ok () ↔ d.repairs.length ≤ power := (d.issues power).ok_iff
  have hpre : d.repairs.take power <+: d.repairs := List.take_prefix _ _
  rw [d.interrupted_disk, d.interrupted_issued]
  refine ⟨fun image hcrash => ?_, fun j hj => ?_, fun copy hcopy => ?_, hok.mpr, fun hdone image hcrash => ?_⟩
  · have hsound : d.Sound image := Disk.run_crash_invariant _ ⟨d.base, []⟩ (fun a c h => d.keeps (hpre.subset h))
      (fun w hw => nomatch hw) d.sound_base hcrash
    have hoffered := d.still_offered hanchored hpre hcrash
    obtain ⟨hphysical, -, hbase⟩ := discover_agree utf8Validate d.found
    have huuid : ∀ loc ∈ sources utf8Validate image d.physicalBlocks, loc.filesystemUuid = d.selected.filesystemUuid := by
      intro loc hloc
      obtain ⟨loc', hloc', hsame⟩ := hsound.sources loc hloc
      exact (congrArg Geometry.filesystemUuid hsame).symm.trans (hbase loc' hloc')
    obtain ⟨hcandidates, hstatus⟩ := discover_spec utf8Validate hphysical huuid
    have hbefore := (discover_spec utf8Validate hphysical hbase).1
    have hselected := (hcandidates d.selected).mpr hoffered
    have hold : ∀ sb ∈ (discover utf8Validate image d.physicalBlocks).candidates,
        sb ∈ (discover utf8Validate d.base d.physicalBlocks).candidates := fun sb hsb =>
      (hbefore sb).mpr (hsound.offered d ((hcandidates sb).mp hsb))
    refine ⟨hstatus ⟨_, hoffered⟩, hselected, hold, fun hnewest => ?_⟩
    obtain ⟨newest, hmax, hlow, hhigh⟩ := newest_of_bounds ⟨d.selected, hselected, Nat.le_refl _⟩
      fun sb hsb => hnewest sb (hold sb hsb)
    rw [hmax, Nat.le_antisymm hhigh hlow]
  · exact Untouched.of_prefix (d.untouched_copy hj) hpre
  · exact Untouched.of_prefix (d.untouched_locator hcopy) hpre
  · rw [List.take_of_length_le (hok.mp hdone)] at hcrash
    refine ⟨fun j => d.healed_copy j hcrash, fun copy => ?_⟩
    obtain ⟨loc, hdecode, hgeometry, hgeneration⟩ := locatorMatches_iff.mp (d.healed_locator copy hcrash)
    exact ⟨loc, by rw [readLocator, hdecode]; rfl, hgeometry, hgeneration⟩

abbrev copyOf (generation : UInt64) : Superblock := smallCheckpoint generation 8192 4096 8191

/-- The remote copies hold generation 2, the primary one that may be older,
and each locator a given content. -/
def laggingImage (primary : UInt64) (locator : Fin 2 → Block) : Image := fun b =>
  if b = locatorBlockA then locator 0
  else if b = locatorBlockB then locator 1
  else if b = 0 then superblockBlock (copyOf primary)
  else if b = 4096 ∨ b = 8191 then superblockBlock (copyOf 2)
  else default

section Lagging

variable (primary : UInt64) (locator : Fin 2 → Block)

theorem laggingImage_locator (copy : Fin 2) : laggingImage primary locator (locatorAddress copy) = locator copy := by
  match copy with
  | 0 => rfl
  | 1 => rfl

theorem laggingImage_primary : laggingImage primary locator 0 = superblockBlock (copyOf primary) := by
  rw [laggingImage, if_neg (by decide), if_neg (by decide), if_pos rfl]

theorem laggingImage_remote {b : Nat} (hb : b = 4096 ∨ b = 8191) :
    laggingImage primary locator b = superblockBlock (copyOf 2) := by
  rcases hb with rfl | rfl <;> rfl

end Lagging

theorem copyOf_fields (generation : UInt64) (h : generation ≠ 0) :
    superblockFieldsValid (fun _ => true) (copyOf generation) locatorFormatMinor = true := by
  have hone : superblockFieldsValid (fun _ => true) (copyOf 1) locatorFormatMinor = true := by decide
  simp only [superblockFieldsValid, Bool.and_eq_true, bne_iff_ne, smallCheckpoint] at hone ⊢
  tauto

theorem default_checkpoint : checkpointAt (fun _ => true) default = none := by
  have hmagic : ((readSuperblock default).magic == superblockMagic) = false := by decide +kernel
  rw [checkpointAt, validateSuperblockBlockMinor, superblockFieldsValid, hmagic]
  simp

theorem default_locator : readLocator 8192 (.ok default) = none := by
  have hmagic : (locatorLayout.get (default : Block).bytes).1 ≠ locatorMagic := by decide +kernel
  rw [readLocator, locatorDecode]
  generalize locatorLayout.get (default : Block).bytes = header at hmagic
  obtain ⟨magic, schema, size, major, minor, loc⟩ := header
  simp only
  rw [if_pos (.inr (.inl hmagic))]
  rfl

theorem copyOf_source {generation : UInt64} (h : generation ≠ 0) : SourceValid 8192 (copyOf generation).locator := by
  have hone : locatorFieldsValid (copyOf 1).locator = true := by decide
  have htotal : (copyOf generation).locator.totalBlocks.toNat = 8192 := rfl
  exact ⟨locatorFieldsValid_congr hone rfl h, htotal.le⟩

/-- Discovery finds generation 2 on the device through the map of the primary,
whatever the locators are, as long as they belong to the filesystem. -/
theorem laggingImage_found {primary : UInt64} {locator : Fin 2 → Block} (hprimary : primary ≠ 0)
    (hlocator : ∀ copy, ∀ loc ∈ readLocator 8192 (.ok (locator copy)), loc.filesystemUuid = Vector.replicate 16 1) :
    copyOf 2 ∈ (discover (fun _ => true) (laggingImage primary locator) 8192).candidates := by
  have hzero : checkpointAt (fun _ => true) (laggingImage primary locator 0) = some (copyOf primary) := by
    rw [laggingImage_primary]
    exact checkpointAt_superblockBlock (copyOf_fields primary hprimary)
  have huuid : ∀ loc ∈ sources (fun _ => true) (laggingImage primary locator) 8192,
      loc.filesystemUuid = Vector.replicate 16 1 := by
    intro loc hloc
    rcases mem_sources.mp hloc with ⟨copy, hcopy⟩ | hmap
    · rw [laggingImage_locator] at hcopy
      exact hlocator copy loc hcopy
    · obtain ⟨sb, hsb, rfl, -⟩ := readPrimary_eq_some.mp hmap
      obtain rfl := Option.some.inj (hzero.symm.trans hsb)
      rfl
  refine ((discover_spec _ (by decide) huuid).1 _).mpr ⟨4096, ⟨(copyOf primary).locator, ?_, rfl, 1, rfl⟩, ?_⟩
  · exact mem_sources.mpr (.inr (readPrimary_eq_some.mpr ⟨_, hzero, rfl, copyOf_source hprimary⟩))
  · have hposition : (4096 : UInt64).toNat = 4096 := rfl
    rw [hposition, laggingImage_remote primary locator (.inl rfl)]
    exact checkpointAt_superblockBlock (copyOf_fields 2 (by decide))

/-- Both locators are damaged, and the primary, which alone names the remote
copies, is one generation behind. -/
def staleDevice : Degraded fun _ => true where
  physicalBlocks := 8192
  base := laggingImage 1 default
  selected := copyOf 2
  found := laggingImage_found (by decide) fun _ loc hloc => by
    rw [show (default : Fin 2 → Block) _ = default from rfl, default_locator] at hloc
    cases hloc

variable {locator : Fin 2 → Block}

theorem staleImage_mismatched : mismatched (fun _ => true) (copyOf 2) (laggingImage 1 locator) = [0] := by
  have hremote (j : Fin 3) (h : ((copyOf 2).checkpointBlock.get j).toNat = 4096 ∨ ((copyOf 2).checkpointBlock.get j).toNat = 8191) :
      checkpointAt (fun _ => true) (laggingImage 1 locator ((copyOf 2).checkpointBlock.get j).toNat) = some (copyOf 2) := by
    rw [laggingImage_remote 1 locator h]
    exact checkpointAt_superblockBlock (copyOf_fields 2 (by decide))
  have hzero : checkpointAt (fun _ => true) (laggingImage 1 locator ((copyOf 2).checkpointBlock.get 0).toNat) ≠
      some (copyOf 2) := by
    rw [show ((copyOf 2).checkpointBlock.get 0).toNat = 0 from rfl, laggingImage_primary,
      checkpointAt_superblockBlock (copyOf_fields 1 (by decide))]
    decide
  have hlist : List.finRange 3 = [0, 1, 2] := rfl
  rw [mismatched, hlist, List.filter_cons_of_pos (by simpa using hzero), List.filter_cons_of_neg, List.filter_cons_of_neg,
    List.filter_nil]
  · simpa using hremote 2 (by decide)
  · simpa using hremote 1 (by decide)

theorem staleImage_copyRepairs : copyRepairs (fun _ => true) (copyOf 2) (laggingImage 1 locator) = copyRequests (copyOf 2) 0 := by
  rw [copyRepairs, staleImage_mismatched, List.flatMap_cons, List.flatMap_nil, List.append_nil]

/-- The first locator is damaged, the primary is one generation behind, and
the second locator names the copies. -/
def anchoredLocators (copy : Fin 2) : Block := if copy = 0 then default else locatorBlock (copyOf 2).locator

theorem anchored_first : readLocator 8192 (.ok (anchoredLocators 0)) = none := by
  rw [anchoredLocators, if_pos rfl]
  exact default_locator

theorem anchored_second : readLocator 8192 (.ok (anchoredLocators 1)) = some (copyOf 2).locator := by
  have hsource : SourceValid 8192 (copyOf 2).locator := copyOf_source (by decide)
  rw [anchoredLocators, if_neg (by decide), readLocator, locatorDecode_block hsource.1 hsource.2]
  rfl

def anchoredDevice : Degraded fun _ => true where
  physicalBlocks := 8192
  base := laggingImage 1 anchoredLocators
  selected := copyOf 2
  found := laggingImage_found (by decide) fun copy loc hloc => by
    obtain rfl | rfl : copy = 0 ∨ copy = 1 := by omega
    · rw [anchored_first] at hloc
      cases hloc
    · rw [anchored_second] at hloc
      obtain rfl := Option.some.inj hloc
      rfl

theorem anchoredDevice_anchored : anchoredDevice.Anchored := .inl ⟨1, _, anchored_second, rfl⟩

theorem anchoredDevice_repairs : anchoredDevice.repairs = copyRequests (copyOf 2) 0 ++ locatorRequests (copyOf 2) 0 := by
  have hfirst : locatorMatches 8192 (copyOf 2) (anchoredLocators 0) = false := by
    rw [← Bool.not_eq_true, locatorMatches_iff]
    rintro ⟨loc, hloc, -⟩
    have hnone := anchored_first
    rw [readLocator, hloc] at hnone
    cases hnone
  have hsecond : locatorMatches 8192 (copyOf 2) (anchoredLocators 1) = true :=
    locatorMatches_iff.mpr ⟨_, locatorDecode_block (copyOf_source (by decide)).1 (copyOf_source (by decide)).2, rfl, UInt64.le_refl _⟩
  have hrepairs : anchoredDevice.repairs = copyRepairs (fun _ => true) (copyOf 2) (laggingImage 1 anchoredLocators) ++
    locatorRepairs 8192 (copyOf 2) (laggingImage 1 anchoredLocators) := rfl
  rw [hrepairs, staleImage_copyRepairs, locatorRepairs, locatorRepair, locatorRepair, laggingImage_locator, laggingImage_locator,
    hfirst, hsecond, if_neg (by decide), if_pos rfl, List.append_nil]

/-- The repair of the primary and of the first locator, and what is found if
its first write is torn. -/
theorem healing_crash_safe_anchored :
    anchoredDevice.Anchored ∧ anchoredDevice.repairs = copyRequests (copyOf 2) 0 ++ locatorRequests (copyOf 2) 0 ∧
      (∀ image, (anchoredDevice.interrupted 1).2.disk.Crashes (Torn (fun _ => true) 8192) image →
        copyOf 2 ∈ (discover (fun _ => true) image 8192).candidates) ∧
      (anchoredDevice.interrupted 4).1 = .ok () :=
  ⟨anchoredDevice_anchored, anchoredDevice_repairs,
    fun image hcrash => ((healing_crash_safe anchoredDevice anchoredDevice_anchored 1).1 image hcrash).2.1,
    (healing_crash_safe anchoredDevice anchoredDevice_anchored 4).2.2.2.1 (by rw [anchoredDevice_repairs]; decide)⟩

/-- The repair of the stale primary is torn. The two intact copies are lost,
since no block names them any more. -/
theorem torn_primary_loses_copies :
    (staleDevice.interrupted 1).2.disk.Crashes (Torn (fun _ => true) staleDevice.physicalBlocks)
        (update staleDevice.base 0 default) ∧
      checkpointAt (fun _ => true) (update staleDevice.base 0 default 4096) = some staleDevice.selected ∧
      (discover (fun _ => true) (update staleDevice.base 0 default) staleDevice.physicalBlocks).status = .corrupt ∧
      (discover (fun _ => true) (update staleDevice.base 0 default) staleDevice.physicalBlocks).candidates = [] := by
  have hlocator (copy : Fin 2) :
      readLocator 8192 (.ok (update (laggingImage 1 default) 0 default (locatorAddress copy))) = none := by
    rw [update_of_ne (locatorAddress_ne_zero copy), laggingImage_locator]
    exact default_locator
  have hprimary : readPrimary (fun _ => true) 8192 (.ok (update (laggingImage 1 default) 0 default 0)) = none := by
    rw [update_self, Option.eq_none_iff_forall_not_mem]
    intro loc hloc
    obtain ⟨sb, hsb, -⟩ := readPrimary_eq_some.mp hloc
    rw [default_checkpoint] at hsb
    cases hsb
  have hdiscover : discover (fun _ => true) (update (laggingImage 1 default) 0 default) 8192 = ⟨.corrupt, [], .ok⟩ := by
    have hdiv : 8192 * blockSize / blockSize = 8192 := rfl
    have hargs : ¬(8192 * blockSize % blockSize ≠ 0 ∨ 8192 < locatorMinVolumeBlocks) := by decide
    have ha := hlocator 0
    have hb := hlocator 1
    simp only [show locatorAddress 0 = locatorBlockA from rfl] at ha
    simp only [show locatorAddress 1 = locatorBlockB from rfl] at hb
    simp only [discover, discoverHeaders, hdiv, if_neg hargs, ha, hb, hprimary]
    rfl
  refine ⟨?_, ?_, ?_, ?_⟩
  · have hfirst : staleDevice.repairs.take 1 = [.write 0 (superblockBlock (copyOf 2))] := by
      have hrepairs : staleDevice.repairs = copyRepairs (fun _ => true) (copyOf 2) (laggingImage 1 default) ++
        locatorRepairs 8192 (copyOf 2) (laggingImage 1 default) := rfl
      rw [hrepairs, staleImage_copyRepairs, copyRequests, List.cons_append, List.take_succ_cons, List.take_zero]
      rfl
    have htorn : Torn (fun _ => true) 8192 0 default := by
      rw [Torn, if_neg (by decide)]
      exact default_checkpoint
    rw [staleDevice.interrupted_disk, hfirst]
    exact .torn default htorn (.nil _)
  · have hbase : staleDevice.base 4096 = superblockBlock (copyOf 2) := laggingImage_remote 1 default (.inl rfl)
    rw [update_of_ne (by omega : 4096 ≠ 0), hbase]
    exact checkpointAt_superblockBlock (copyOf_fields 2 (by decide))
  · exact congrArg Discovery.status hdiscover
  · exact congrArg Discovery.candidates hdiscover

end CrashSafety

end InfiltratorFS.Healing
