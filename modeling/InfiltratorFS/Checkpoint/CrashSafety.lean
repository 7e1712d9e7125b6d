import Mathlib.Order.Fin.Basic
import InfiltratorFS.Checkpoint.Discovery
import InfiltratorFS.Checkpoint.Protocol
import InfiltratorFS.Library.CrashDisk

namespace InfiltratorFS

open Prog CrashDisk Function

section Power

/-- A disk that loses power after a number of requests. -/
structure Powered where
  disk : Disk Nat Block
  power : Nat

def Powered.request (op : Op Nat Block) : Prog Powered Status Unit := fun s =>
  match s.power with
  | 0 => (.error .ioError, s)
  | power + 1 => (.ok (), ⟨s.disk.apply op, power⟩)

def poweredStorage : Storage Powered := ⟨fun address content => Powered.request (.write address content), Powered.request .flush⟩

/-- A program issues these requests in order, and as many of them as the power
lasts for. The flag is raised at the commit mark. -/
def Issues (x : Prog (Powered × Bool) Status Unit) (ops : List (Op Nat Block)) : Prop :=
  ∀ s, ∃ pre, pre <+: ops ∧ ((x s).1 = .ok () → pre = ops) ∧ (x s).2.1.disk = s.1.disk.run pre ∧
    ((x s).2.2 = true ↔ s.2 = true ∨ .commit ∈ pre)

theorem issues_pure : Issues (pure ()) [] :=
  fun s => ⟨[], List.prefix_rfl, fun _ => rfl, rfl, by simp⟩

theorem Issues.bind {x y : Prog (Powered × Bool) Status Unit} {xs ys : List (Op Nat Block)} (hx : Issues x xs)
    (hy : Issues y ys) : Issues (x >>= fun _ => y) (xs ++ ys) := by
  intro s
  obtain ⟨pre, hpre, hok, hdisk, hflag⟩ := hx s
  rcases hrun : x s with ⟨e | u, s'⟩
  · rw [bind_of_error hrun]
    rw [hrun] at hdisk hflag
    exact ⟨pre, hpre.trans (List.prefix_append xs ys), fun h => (by cases h), hdisk, hflag⟩
  · rw [hrun] at hok hdisk hflag
    obtain rfl := hok rfl
    obtain ⟨pre', hpre', hok', hdisk', hflag'⟩ := hy s'
    rw [bind_of_ok hrun]
    refine ⟨pre ++ pre', (List.prefix_append_right_inj pre).mpr hpre', fun h => by rw [hok' h], ?_, ?_⟩
    · rw [hdisk', hdisk, Disk.run_append]
    · rw [hflag', hflag, List.mem_append, or_assoc]

theorem issues_request {op : Op Nat Block} (hop : op ≠ .commit) : Issues (onContext (Powered.request op)) [op] := by
  rintro ⟨⟨disk, power⟩, flag⟩
  cases power with
  | zero => exact ⟨[], List.nil_prefix, fun h => (by cases h), rfl, by simp [onContext, Powered.request]⟩
  | succ power => exact ⟨[op], List.prefix_rfl, fun _ => rfl, rfl, by simp [onContext, Powered.request, hop.symm]⟩

theorem issues_commit (f : Powered → Powered) (hf : ∀ s, (f s).disk = s.disk) :
    Issues (modify fun s => (f s.1, true)) [.commit] :=
  fun s => ⟨[.commit], List.prefix_rfl, fun _ => rfl, hf s.1, by simp⟩

end Power

section Requests

def copyRequests (sb : Superblock) (copy : Fin 3) : List (Op Nat Block) :=
  [.write (sb.checkpointBlock.get copy).toNat (superblockBlock sb), .flush]

def locatorRequests (sb : Superblock) (copy : Fin 2) : List (Op Nat Block) :=
  [.write (locatorAddress copy) (locatorBlock sb.locator), .flush]

def requestsBefore (sb : Superblock) (first : Nat) (relocate : Bool) : List (Op Nat Block) :=
  if relocate then locatorRequests sb 0 ++ copyRequests sb 1 else copyRequests sb (rotated first 0)

def requestsAfter (sb : Superblock) (first : Nat) (relocate : Bool) : List (Op Nat Block) :=
  if relocate then copyRequests sb 2 ++ (copyRequests sb 0 ++ locatorRequests sb 1)
  else copyRequests sb (rotated first 1) ++ copyRequests sb (rotated first 2)

theorem commit_not_mem_requestsBefore (sb : Superblock) (first : Nat) (relocate : Bool) :
    Op.commit ∉ requestsBefore sb first relocate := by
  cases relocate <;> simp [requestsBefore, copyRequests, locatorRequests]

variable {sb : Superblock}

theorem write_mem_copyRequests {j : Fin 3} {a : Nat} {c : Block} :
    Op.write a c ∈ copyRequests sb j ↔ a = (sb.checkpointBlock.get j).toNat ∧ c = superblockBlock sb := by
  simp [copyRequests]

theorem write_mem_locatorRequests {copy : Fin 2} {a : Nat} {c : Block} :
    Op.write a c ∈ locatorRequests sb copy ↔ a = locatorAddress copy ∧ c = locatorBlock sb.locator := by
  simp [locatorRequests]

def publicationIo (sb : Superblock) : CheckpointIo Powered := volumeCheckpointIo poweredStorage sb (superblockBlock sb)

theorem issues_publishLocator (hvalid : locatorFieldsValid sb.locator = true) (copy : Fin 2) :
    Issues (publishLocator (publicationIo sb) copy) (locatorRequests sb copy) := by
  have hlocator : (publicationIo sb).locator copy =
      Powered.request (.write (locatorAddress copy) (locatorBlock sb.locator)) := by
    simp [publicationIo, volumeCheckpointIo, volumePublishLocator, locatorEncode, hvalid, poweredStorage]
  rw [publishLocator, hlocator]
  exact (issues_request (by simp)).bind (issues_request (by simp))

theorem issues_copy (sb : Superblock) (first n : Nat) {y : Prog (Powered × Bool) Status Unit} {ys : List (Op Nat Block)}
    (hy : Issues y ys) :
    Issues (onContext ((publicationIo sb).checkpoint (rotated first n)) >>= fun _ =>
      onContext (publicationIo sb).flush >>= fun _ => y) (copyRequests sb (rotated first n) ++ ys) :=
  (issues_request (by simp)).bind ((issues_request (by simp)).bind hy)

theorem issues_publishCopy_first (sb : Superblock) (first : Nat) :
    Issues (publishCopy (publicationIo sb) first 0) (copyRequests sb (rotated first 0) ++ [.commit]) :=
  issues_copy sb first 0 (issues_commit id fun _ => rfl)

theorem issues_publishCopy_next (sb : Superblock) (first n : Nat) :
    Issues (publishCopy (publicationIo sb) first (n + 1)) (copyRequests sb (rotated first (n + 1)) ++ []) :=
  issues_copy sb first (n + 1) issues_pure

/-- A publication under limited power issues a prefix of its requests, and
the flag tells whether the commit mark is in it. -/
theorem checkpointPublish_prefix (hvalid : locatorFieldsValid sb.locator = true) (first : Nat)
    (relocate : Bool) (s : Powered) (flag : Bool) :
    ∃ pre, pre <+: requestsBefore sb first relocate ++ .commit :: requestsAfter sb first relocate ∧
      (checkpointPublish (publicationIo sb) first relocate (s, flag)).2.1.disk = s.disk.run pre ∧
      ((checkpointPublish (publicationIo sb) first relocate (s, flag)).2.2 = true ↔ .commit ∈ pre) := by
  have hcopies (first : Nat) {y : Prog (Powered × Bool) Status Unit} {ys : List (Op Nat Block)} (hy : Issues y ys) :=
    (issues_publishCopy_first sb first).bind
      ((issues_publishCopy_next sb first 0).bind ((issues_publishCopy_next sb first 1).bind hy))
  cases relocate with
  | false =>
    obtain ⟨pre, hpre, _, hdisk, hflag⟩ := (issues_pure.bind (hcopies first issues_pure)) (s, false)
    exact ⟨pre, by simpa [requestsBefore, requestsAfter] using hpre, hdisk, hflag.trans (by simp)⟩
  | true =>
    obtain ⟨pre, hpre, _, hdisk, hflag⟩ :=
      ((issues_publishLocator hvalid 0).bind (hcopies 1 (issues_publishLocator hvalid 1))) (s, false)
    exact ⟨pre, hpre, hdisk, hflag.trans (by simp)⟩

end Requests

section Positions

theorem locatorFieldsValid_congr {loc loc' : Locator} (h : locatorFieldsValid loc = true)
    (hg : loc'.geometry = loc.geometry) (hgeneration : loc'.generation ≠ 0) : locatorFieldsValid loc' = true := by
  simp only [Locator.geometry, Geometry.mk.injEq] at hg
  obtain ⟨htotal, hcheckpoint, huuid⟩ := hg
  simp only [locatorFieldsValid, Bool.and_eq_true] at h ⊢
  rw [htotal, hcheckpoint, huuid]
  exact ⟨⟨⟨⟨by simpa using hgeneration, h.1.1.1.2⟩, h.1.1.2⟩, h.1.2⟩, h.2⟩

/-- What valid positions are: the primary at block zero, none on a locator,
and no two on one block. -/
structure GoodPositions (checkpoint : Vector UInt64 3) : Prop where
  primary : (checkpoint.get (0 : Fin 3)) = 0
  ne_locator : ∀ j copy, (checkpoint.get j).toNat ≠ locatorAddress copy
  injective : ∀ i j : Fin 3, (checkpoint.get i).toNat = (checkpoint.get j).toNat → i = j

theorem goodPositions_of_valid {loc : Locator} (h : locatorFieldsValid loc = true) : GoodPositions loc.checkpoint := by
  simp only [locatorFieldsValid, Bool.and_eq_true, positionsValid, List.all_eq_true, List.mem_finRange, true_implies,
    decide_eq_true_eq, bne_iff_ne, beq_iff_eq, Bool.or_eq_true, Bool.not_eq_true', decide_eq_false_iff_not] at h
  obtain ⟨⟨_, hzero⟩, hpositions⟩ := h
  refine ⟨hzero, fun j copy => ?_, fun i j hij => ?_⟩
  · rw [locatorAddress]
    split
    · exact (hpositions j).1.1.2
    · exact (hpositions j).1.2
  · have hij' : (loc.checkpoint.get i) = (loc.checkpoint.get j) := UInt64.toNat_inj.mp hij
    rcases lt_trichotomy i j with hlt | rfl | hlt
    · exact absurd hij' (((hpositions i).2 j).resolve_left (by simpa using hlt))
    · rfl
    · exact absurd hij'.symm (((hpositions j).2 i).resolve_left (by simpa using hlt))

end Positions

section Publication

variable (utf8Validate : List UInt8 → Bool)

def Torn (physicalBlocks : Nat) (address : Nat) (content : Block) : Prop :=
  if address = locatorBlockA ∨ address = locatorBlockB then readLocator physicalBlocks (.ok content) = none
  else checkpointAt utf8Validate content = none

/-- A volume of generation g and a checkpoint of generation g + 1 to publish
on it. All three copies hold the old checkpoint, and each locator describes
it or is damaged, but not both are. -/
structure Publication where
  physicalBlocks : Nat
  base : Image
  old : Superblock
  new : Superblock
  first : Fin 3
  relocate : Bool
  physical : locatorMinVolumeBlocks ≤ physicalBlocks
  copies : ∀ j : Fin 3, checkpointAt utf8Validate (base (old.checkpointBlock.get j).toNat) = some old
  locators : ∀ copy, ∀ loc ∈ readLocator physicalBlocks (.ok (base (locatorAddress copy))), loc.geometry = old.geometry
  undamaged : ∃ copy, readLocator physicalBlocks (.ok (base (locatorAddress copy))) ≠ none
  newFields : superblockFieldsValid utf8Validate new locatorFormatMinor = true
  newSource : SourceValid physicalBlocks new.locator
  next : new.generation.toNat = old.generation.toNat + 1
  uuid : new.filesystemUuid = old.filesystemUuid
  ordinary : relocate = false → new.geometry = old.geometry

variable {utf8Validate}

/-- The disk, and whether `*committed` was set, when the power fails after so
many requests. -/
def Publication.interrupted (p : Publication utf8Validate) (power : Nat) : Disk Nat Block × Bool :=
  let final := (checkpointPublish (publicationIo p.new) p.first p.relocate (⟨⟨p.base, []⟩, power⟩, false)).2
  (final.1.disk, final.2)

/-- No checkpoint newer than the one to publish lies at a position that the
new geometry names, as if it were a copy of that geometry. -/
def Publication.NoStale (p : Publication utf8Validate) : Prop :=
  ∀ j : Fin 3, ∀ sb, checkpointAt utf8Validate (p.base (p.new.checkpointBlock.get j).toNat) = some sb →
    sb.geometry = p.new.geometry → sb.generation.toNat ≤ p.new.generation.toNat

theorem checkpointAt_fieldsValid {block : Block} {sb : Superblock} (h : checkpointAt utf8Validate block = some sb) :
    superblockFieldsValid utf8Validate sb locatorFormatMinor = true := by
  unfold checkpointAt at h
  split at h
  · rename_i hvalid
    obtain rfl := Option.some.inj h
    simp only [validateSuperblockBlockMinor, Bool.and_eq_true] at hvalid
    exact hvalid.1.1.1.2
  · cases h

theorem checkpointAt_superblockBlock {sb : Superblock}
    (h : superblockFieldsValid utf8Validate sb locatorFormatMinor = true) :
    checkpointAt utf8Validate (superblockBlock sb) = some sb := by
  rw [checkpointAt, validate_superblockBlock, h, if_pos rfl, readSuperblock_block]

namespace Publication

variable (p : Publication utf8Validate)

theorem oldValid : SourceValid p.physicalBlocks p.old.locator := by
  obtain ⟨copy, hsome⟩ := p.undamaged
  obtain ⟨loc, hloc⟩ := Option.ne_none_iff_exists'.mp hsome
  have hg : p.old.locator.geometry = loc.geometry := (p.locators copy loc hloc).symm
  have hvalid := readLocator_valid hloc
  have hgeneration : p.old.locator.generation ≠ 0 := by
    have h := checkpointAt_fieldsValid (p.copies 0)
    simp only [superblockFieldsValid, Bool.and_eq_true, bne_iff_ne] at h
    exact h.1.1.1.1.1.2
  refine ⟨locatorFieldsValid_congr hvalid.1 hg hgeneration, ?_⟩
  have htotal : p.old.locator.totalBlocks = loc.totalBlocks := congrArg Geometry.totalBlocks hg
  rw [htotal]
  exact hvalid.2

theorem oldPositions : GoodPositions p.old.checkpointBlock := goodPositions_of_valid p.oldValid.1

theorem newPositions : GoodPositions p.new.checkpointBlock := goodPositions_of_valid p.newSource.1

theorem base_primary : checkpointAt utf8Validate (p.base 0) = some p.old := by
  have h := p.copies 0
  rwa [p.oldPositions.primary] at h

end Publication

section Sources

variable {image : Image} {physicalBlocks : Nat} {loc : Locator}

theorem mem_sources : loc ∈ sources utf8Validate image physicalBlocks ↔
    (∃ copy, loc ∈ readLocator physicalBlocks (.ok (image (locatorAddress copy)))) ∨
      loc ∈ readPrimary utf8Validate physicalBlocks (.ok (image 0)) := by
  simp only [sources, List.mem_append, Option.mem_toList, Fin.exists_fin_two]
  rfl

theorem readPrimary_eq_some {block : Block} :
    loc ∈ readPrimary utf8Validate physicalBlocks (.ok block) ↔
      ∃ sb, checkpointAt utf8Validate block = some sb ∧ sb.locator = loc ∧ SourceValid physicalBlocks loc := by
  simp only [readPrimary, checkpointAt, Option.mem_def]
  split
  · simp only [Option.some.injEq, exists_eq_left', SourceValid]
    constructor
    · intro h
      split_ifs at h with hvalid
      obtain rfl := Option.some.inj h
      simp only [Bool.and_eq_true, decide_eq_true_eq] at hvalid
      exact ⟨rfl, hvalid⟩
    · rintro ⟨rfl, hvalid⟩
      rw [if_pos (by simp only [Bool.and_eq_true, decide_eq_true_eq]; exact hvalid)]
  · simp

theorem locatorAddress_ne_zero (copy : Fin 2) : locatorAddress copy ≠ 0 := by
  rw [locatorAddress]
  split <;> decide

theorem locatorAddress_eq (copy : Fin 2) : locatorAddress copy = locatorBlockA ∨ locatorAddress copy = locatorBlockB := by
  rw [locatorAddress]
  split <;> simp

theorem ne_locatorAddress {a : Nat} (h : ∀ copy, a ≠ locatorAddress copy) : ¬(a = locatorBlockA ∨ a = locatorBlockB) := by
  rintro (rfl | rfl)
  · exact h 0 rfl
  · exact h 1 rfl

theorem sources_update_locator {P : Locator → Prop} (h : ∀ loc ∈ sources utf8Validate image physicalBlocks, P loc)
    {copy : Fin 2} {content : Block} (hcontent : ∀ loc ∈ readLocator physicalBlocks (.ok content), P loc) :
    ∀ loc ∈ sources utf8Validate (update image (locatorAddress copy) content) physicalBlocks, P loc := by
  intro loc hloc
  rcases mem_sources.mp hloc with ⟨copy', hcopy⟩ | hprimary
  · by_cases heq : locatorAddress copy' = locatorAddress copy
    · rw [heq, update_self] at hcopy
      exact hcontent loc hcopy
    · rw [update_of_ne heq] at hcopy
      exact h loc (mem_sources.mpr (.inl ⟨copy', hcopy⟩))
  · rw [update_of_ne (locatorAddress_ne_zero copy).symm] at hprimary
    exact h loc (mem_sources.mpr (.inr hprimary))

theorem sources_update_checkpoint {P : Locator → Prop} (h : ∀ loc ∈ sources utf8Validate image physicalBlocks, P loc)
    {address : Nat} {content : Block} (haddress : ∀ copy, address ≠ locatorAddress copy)
    (hcontent : ∀ sb, checkpointAt utf8Validate content = some sb → P sb.locator) :
    ∀ loc ∈ sources utf8Validate (update image address content) physicalBlocks, P loc := by
  intro loc hloc
  rcases mem_sources.mp hloc with ⟨copy, hcopy⟩ | hprimary
  · rw [update_of_ne (haddress copy).symm] at hcopy
    exact h loc (mem_sources.mpr (.inl ⟨copy, hcopy⟩))
  · by_cases hzero : address = 0
    · subst hzero
      rw [update_self, readPrimary_eq_some] at hprimary
      obtain ⟨sb, hsb, rfl, _⟩ := hprimary
      exact hcontent sb hsb
    · rw [update_of_ne (Ne.symm hzero)] at hprimary
      exact h loc (mem_sources.mpr (.inr hprimary))

theorem keeps_locatorBlock {P : Image → Prop} {copy : Fin 2} (hloc : SourceValid physicalBlocks loc)
    (h : ∀ m content, P m → (∀ l ∈ readLocator physicalBlocks (.ok content), l = loc) →
      P (update m (locatorAddress copy) content)) :
    Keeps (Torn utf8Validate physicalBlocks) P (locatorAddress copy) (locatorBlock loc) := by
  refine ⟨fun m hm => h m _ hm fun l hl => ?_, fun m t hm ht => h m t hm ?_⟩
  · rw [readLocator, locatorDecode_block hloc.1 hloc.2] at hl
    exact (Option.some.inj hl).symm
  · rw [Torn, if_pos (locatorAddress_eq copy)] at ht
    rw [ht]
    simp

theorem keeps_superblockBlock {P : Image → Prop} {sb : Superblock} {address : Nat}
    (hsb : superblockFieldsValid utf8Validate sb locatorFormatMinor = true) (haddress : ∀ copy, address ≠ locatorAddress copy)
    (h : ∀ m content, P m → (∀ s, checkpointAt utf8Validate content = some s → s = sb) →
      P (update m address content)) :
    Keeps (Torn utf8Validate physicalBlocks) P address (superblockBlock sb) := by
  refine ⟨fun m hm => h m _ hm fun s hs => ?_, fun m t hm ht => h m t hm ?_⟩
  · rw [checkpointAt_superblockBlock hsb] at hs
    exact (Option.some.inj hs).symm
  · rw [Torn, if_neg (ne_locatorAddress haddress)] at ht
    rw [ht]
    simp

end Sources

section Soundness

variable (p : Publication utf8Validate)

def Publication.Known (g : Geometry) : Prop := g = p.old.geometry ∨ g = p.new.geometry

/-- What no interruption can break: every source has the old or the new
geometry, and no copy of these is newer than the new checkpoint. -/
structure Publication.Sound (image : Image) : Prop where
  sources : ∀ loc ∈ sources utf8Validate image p.physicalBlocks, p.Known loc.geometry
  bounded : ∀ g, p.Known g → ∀ j : Fin 3, ∀ sb, checkpointAt utf8Validate (image (g.checkpoint.get j).toNat) = some sb →
    sb.geometry = g → sb.generation.toNat ≤ p.new.generation.toNat

theorem Publication.Known.ne_locator {g : Geometry} (h : p.Known g) (j : Fin 3) (copy : Fin 2) :
    (g.checkpoint.get j).toNat ≠ locatorAddress copy := by
  rcases h with rfl | rfl
  · exact p.oldPositions.ne_locator j copy
  · exact p.newPositions.ne_locator j copy

theorem Publication.keeps_locator (copy : Fin 2) :
    Keeps (Torn utf8Validate p.physicalBlocks) p.Sound (locatorAddress copy) (locatorBlock p.new.locator) := by
  refine keeps_locatorBlock p.newSource fun m content hm hcontent => ⟨?_, fun g hg j sb hsb => ?_⟩
  · exact sources_update_locator hm.sources fun loc hloc => .inr (by rw [hcontent loc hloc]; rfl)
  · rw [update_of_ne (hg.ne_locator p j copy)] at hsb
    exact hm.bounded g hg j sb hsb

theorem Publication.keeps_checkpoint (j : Fin 3) :
    Keeps (Torn utf8Validate p.physicalBlocks) p.Sound (p.new.checkpointBlock.get j).toNat (superblockBlock p.new) := by
  have haddress := p.newPositions.ne_locator j
  refine keeps_superblockBlock p.newFields haddress fun m content hm hcontent => ⟨?_, fun g hg i sb hsb hgeometry => ?_⟩
  · exact sources_update_checkpoint hm.sources haddress fun sb hsb => .inr (by rw [hcontent sb hsb]; rfl)
  · by_cases heq : (g.checkpoint.get i).toNat = (p.new.checkpointBlock.get j).toNat
    · rw [heq, update_self] at hsb
      rw [hcontent sb hsb]
    · rw [update_of_ne heq] at hsb
      exact hm.bounded g hg i sb hsb hgeometry

theorem Publication.noStale (hstale : p.relocate = true → p.NoStale) : p.NoStale := by
  cases hmode : p.relocate with
  | true => exact hstale hmode
  | false =>
    intro j sb hsb _
    have hpositions : p.new.checkpointBlock = p.old.checkpointBlock := congrArg Geometry.checkpoint (p.ordinary hmode)
    rw [hpositions, p.copies j] at hsb
    obtain rfl := Option.some.inj hsb
    rw [p.next]
    exact Nat.le_succ _

theorem Publication.sound_base (hstale : p.NoStale) : p.Sound p.base := by
  refine ⟨fun loc hloc => ?_, fun g hg j sb hsb hgeometry => ?_⟩
  · rcases mem_sources.mp hloc with ⟨copy, hcopy⟩ | hprimary
    · exact .inl (p.locators copy loc hcopy)
    · obtain ⟨sb, hsb, rfl, _⟩ := readPrimary_eq_some.mp hprimary
      rw [p.base_primary] at hsb
      obtain rfl := Option.some.inj hsb
      exact .inl rfl
  · rcases hg with rfl | rfl
    · have hcopy := p.copies j
      rw [show (p.old.geometry.checkpoint.get j) = (p.old.checkpointBlock.get j) from rfl, hcopy] at hsb
      obtain rfl := Option.some.inj hsb
      rw [p.next]
      exact Nat.le_succ _
    · exact hstale j sb hsb hgeometry

theorem Publication.keeps_requests {a : Nat} {c : Block}
    (h : Op.write a c ∈ requestsBefore p.new p.first p.relocate ++ .commit :: requestsAfter p.new p.first p.relocate) :
    Keeps (Torn utf8Validate p.physicalBlocks) p.Sound a c := by
  have hcopy {j : Fin 3} (h : Op.write a c ∈ copyRequests p.new j) :
      Keeps (Torn utf8Validate p.physicalBlocks) p.Sound a c := by
    obtain ⟨rfl, rfl⟩ := write_mem_copyRequests.mp h
    exact p.keeps_checkpoint j
  have hlocator {copy : Fin 2} (h : Op.write a c ∈ locatorRequests p.new copy) :
      Keeps (Torn utf8Validate p.physicalBlocks) p.Sound a c := by
    obtain ⟨rfl, rfl⟩ := write_mem_locatorRequests.mp h
    exact p.keeps_locator copy
  cases hmode : p.relocate with
  | false =>
    simp only [hmode, requestsBefore, requestsAfter, Bool.false_eq_true, if_false, List.mem_append, List.mem_cons,
      reduceCtorEq, false_or] at h
    rcases h with h | h | h <;> exact hcopy h
  | true =>
    simp only [hmode, requestsBefore, requestsAfter, if_true, List.mem_append, List.mem_cons, reduceCtorEq,
      false_or] at h
    rcases h with (h | h) | h | h | h
    · exact hlocator h
    · exact hcopy h
    · exact hcopy h
    · exact hcopy h
    · exact hlocator h

end Soundness

section Availability

variable (p : Publication utf8Validate) {image : Image} {sb : Superblock} {physicalBlocks a : Nat}

theorem offered_of_locator {loc : Locator} (copy : Fin 2) (j : Fin 3)
    (hloc : loc ∈ readLocator physicalBlocks (.ok (image (locatorAddress copy)))) (hgeometry : loc.geometry = sb.geometry)
    (hsb : checkpointAt utf8Validate (image (sb.checkpointBlock.get j).toNat) = some sb) :
    Offered utf8Validate image physicalBlocks sb := by
  have hpositions : loc.checkpoint = sb.checkpointBlock := congrArg Geometry.checkpoint hgeometry
  exact ⟨(sb.checkpointBlock.get j), ⟨loc, mem_sources.mpr (.inl ⟨copy, hloc⟩), hgeometry, j, by rw [hpositions]⟩, hsb⟩

theorem offered_of_primary
    (hsb : checkpointAt utf8Validate (image 0) = some sb) (hvalid : SourceValid physicalBlocks sb.locator) :
    Offered utf8Validate image physicalBlocks sb := by
  have hzero : (sb.checkpointBlock.get (0 : Fin 3)) = 0 := (goodPositions_of_valid hvalid.1).primary
  have hmem : sb.locator ∈ sources utf8Validate image physicalBlocks :=
    mem_sources.mpr (.inr (readPrimary_eq_some.mpr ⟨sb, hsb, rfl, hvalid⟩))
  exact ⟨0, ⟨sb.locator, hmem, rfl, 0, hzero⟩, hsb⟩

theorem rotated_ne {first n m : Nat} (h : n % 3 ≠ m % 3) : rotated first n ≠ rotated first m := by
  rw [rotated, rotated, Ne, Fin.mk.injEq]
  omega

theorem untouched_copyRequests (sb : Superblock) {j : Fin 3} (h : a ≠ (sb.checkpointBlock.get j).toNat) :
    Untouched a (copyRequests sb j) := fun _ hc => h (write_mem_copyRequests.mp hc).1

theorem untouched_locatorRequests {copy : Fin 2} (h : a ≠ locatorAddress copy) :
    Untouched a (locatorRequests sb copy) := fun _ hc => h (write_mem_locatorRequests.mp hc).1

theorem untouched_append {xs ys : List (Op Nat Block)} (hx : Untouched a xs) (hy : Untouched a ys) :
    Untouched a (xs ++ ys) := fun c hc => (List.mem_append.mp hc).elim (hx c) (hy c)

theorem base_holds (image : Image) (a : Nat) : (⟨image, []⟩ : Disk Nat Block).Holds a (image a) :=
  ⟨rfl, fun w hw => by cases hw⟩

/-- Until the commit mark, the old checkpoint is offered: in ordinary mode by
the undamaged locator at a copy that is written later, in a relocation by the
primary, which names itself. -/
theorem Publication.offers_old {pre : List (Op Nat Block)} (hpre : pre <+: requestsBefore p.new p.first p.relocate)
    (hcrash : ((⟨p.base, []⟩ : Disk Nat Block).run pre).Crashes (Torn utf8Validate p.physicalBlocks) image) :
    Offered utf8Validate image p.physicalBlocks p.old := by
  have hkept {a : Nat} (ha : Untouched a (requestsBefore p.new p.first p.relocate)) : image a = p.base a :=
    ((base_holds p.base a).run pre (ha.of_prefix hpre)).crash hcrash
  cases hmode : p.relocate with
  | false =>
    obtain ⟨copy, hsome⟩ := p.undamaged
    obtain ⟨loc, hloc⟩ := Option.ne_none_iff_exists'.mp hsome
    have hpositions : p.new.checkpointBlock = p.old.checkpointBlock := congrArg Geometry.checkpoint (p.ordinary hmode)
    have hlocator : image (locatorAddress copy) = p.base (locatorAddress copy) := by
      apply hkept
      rw [hmode]
      exact untouched_copyRequests p.new (p.newPositions.ne_locator _ copy).symm
    have hcopy : image (p.old.checkpointBlock.get (rotated p.first 1)).toNat =
        p.base (p.old.checkpointBlock.get (rotated p.first 1)).toNat := by
      apply hkept
      rw [hmode]
      apply untouched_copyRequests
      rw [hpositions]
      exact fun h => rotated_ne (by decide) (p.oldPositions.injective _ _ h)
    refine offered_of_locator copy (rotated p.first 1) (?_ : loc ∈ _) ?_ ?_
    · rw [hlocator]
      exact hloc
    · exact p.locators copy loc hloc
    · rw [hcopy]
      exact p.copies _
  | true =>
    have hprimary : image 0 = p.base 0 := by
      apply hkept
      rw [hmode]
      apply untouched_append (untouched_locatorRequests (locatorAddress_ne_zero 0).symm)
      apply untouched_copyRequests
      intro h
      have h' := p.newPositions.injective 0 1 (by rw [p.newPositions.primary]; exact h)
      cases h'
    apply offered_of_primary _ p.oldValid
    rw [hprimary]
    exact p.base_primary

/-- After the commit mark, the new checkpoint is offered: the copy written
first is durable, and so is a locator that names it. -/
theorem Publication.offers_new {rest : List (Op Nat Block)} (hrest : rest <+: requestsAfter p.new p.first p.relocate)
    (hcrash : ((⟨p.base, []⟩ : Disk Nat Block).run
      (requestsBefore p.new p.first p.relocate ++ .commit :: rest)).Crashes (Torn utf8Validate p.physicalBlocks) image) :
    Offered utf8Validate image p.physicalBlocks p.new := by
  rw [Disk.run_append] at hcrash
  have hkept {a : Nat} {c : Block}
      (hdurable : ((⟨p.base, []⟩ : Disk Nat Block).run (requestsBefore p.new p.first p.relocate)).Holds a c)
      (ha : Untouched a (requestsAfter p.new p.first p.relocate)) : image a = c :=
    (hdurable.run (.commit :: rest) fun c hc =>
      (List.mem_cons.mp hc).elim (fun h => by cases h) (ha.of_prefix hrest c)).crash hcrash
  cases hmode : p.relocate with
  | false =>
    obtain ⟨copy, hsome⟩ := p.undamaged
    obtain ⟨loc, hloc⟩ := Option.ne_none_iff_exists'.mp hsome
    have hlocator : image (locatorAddress copy) = p.base (locatorAddress copy) := by
      have hcopy (j : Fin 3) := untouched_copyRequests p.new (p.newPositions.ne_locator j copy).symm
      apply hkept
      · rw [hmode]
        exact (base_holds p.base _).run _ (hcopy _)
      · rw [hmode]
        exact untouched_append (hcopy _) (hcopy _)
    have hcopy : image (p.new.checkpointBlock.get (rotated p.first 0)).toNat = superblockBlock p.new := by
      apply hkept
      · rw [hmode]
        exact Disk.holds_write_flush _ _ _
      · rw [hmode]
        apply untouched_append
        · exact untouched_copyRequests p.new fun h => rotated_ne (by decide) (p.newPositions.injective _ _ h)
        · exact untouched_copyRequests p.new fun h => rotated_ne (by decide) (p.newPositions.injective _ _ h)
    refine offered_of_locator copy (rotated p.first 0) (?_ : loc ∈ _) ?_ ?_
    · rw [hlocator]
      exact hloc
    · rw [p.ordinary hmode]
      exact p.locators copy loc hloc
    · rw [hcopy]
      exact checkpointAt_superblockBlock p.newFields
  | true =>
    have hlocator : image (locatorAddress 0) = locatorBlock p.new.locator := by
      have hcopy (j : Fin 3) := untouched_copyRequests p.new (p.newPositions.ne_locator j 0).symm
      apply hkept
      · rw [hmode, requestsBefore, if_pos rfl, Disk.run_append]
        exact (Disk.holds_write_flush _ _ _).run _ (hcopy _)
      · rw [hmode]
        exact untouched_append (hcopy _) (untouched_append (hcopy _) (untouched_locatorRequests (by decide)))
    have hcopy : image (p.new.checkpointBlock.get 1).toNat = superblockBlock p.new := by
      have hne {j : Fin 3} (hj : (1 : Fin 3) ≠ j) :=
        untouched_copyRequests p.new fun h => hj (p.newPositions.injective _ _ h)
      apply hkept
      · rw [hmode, requestsBefore, if_pos rfl, Disk.run_append]
        exact Disk.holds_write_flush _ _ _
      · rw [hmode]
        exact untouched_append (hne (by decide)) (untouched_append (hne (by decide))
          (untouched_locatorRequests (p.newPositions.ne_locator 1 1)))
    refine offered_of_locator 0 1 (?_ : p.new.locator ∈ _) rfl ?_
    · rw [hlocator, readLocator, locatorDecode_block p.newSource.1 p.newSource.2]
      rfl
    · rw [hcopy]
      exact checkpointAt_superblockBlock p.newFields

end Availability

section CrashSafety

theorem newest_of_bounds {candidates : List Superblock} {low high : Nat}
    (hlow : ∃ sb ∈ candidates, low ≤ sb.generation.toNat) (hhigh : ∀ sb ∈ candidates, sb.generation.toNat ≤ high) :
    ∃ newest, (candidates.map fun sb => sb.generation.toNat).max? = some newest ∧ low ≤ newest ∧ newest ≤ high := by
  obtain ⟨sb, hmem, hsb⟩ := hlow
  have hin : sb.generation.toNat ∈ candidates.map fun sb => sb.generation.toNat := List.mem_map_of_mem hmem
  cases hmax : (candidates.map fun sb => sb.generation.toNat).max? with
  | none =>
    rw [List.max?_eq_none_iff] at hmax
    rw [hmax] at hin
    cases hin
  | some newest =>
    obtain ⟨hnewest, hle⟩ := List.max?_eq_some_iff.mp hmax
    obtain ⟨sb', hmem', rfl⟩ := List.mem_map.mp hnewest
    exact ⟨_, rfl, hsb.trans (hle _ hin), hhigh sb' hmem'⟩

/-- Publication is crash safe: after any interruption discovery succeeds, its
newest candidate is the old or the new generation, and it is the new one once
the commit was announced. -/
theorem publication_crash_safe (p : Publication utf8Validate) (hstale : p.relocate = true → p.NoStale) (power : Nat)
    (image : Image) (hcrash : (p.interrupted power).1.Crashes (Torn utf8Validate p.physicalBlocks) image) :
    let d := discover utf8Validate image p.physicalBlocks
    d.status = .ok ∧
      (∃ sb ∈ d.candidates, sb.generation.toNat = p.old.generation.toNat ∨
        sb.generation.toNat = p.old.generation.toNat + 1) ∧
      ∃ newest, (d.candidates.map fun sb => sb.generation.toNat).max? = some newest ∧
        (newest = p.old.generation.toNat ∨ newest = p.old.generation.toNat + 1) ∧
        ((p.interrupted power).2 = true → newest = p.old.generation.toNat + 1) := by
  intro d
  obtain ⟨pre, hpre, hdisk, hflag⟩ := checkpointPublish_prefix p.newSource.1 p.first p.relocate ⟨⟨p.base, []⟩, power⟩ false
  have hcrash' : ((⟨p.base, []⟩ : Disk Nat Block).run pre).Crashes (Torn utf8Validate p.physicalBlocks) image := hdisk ▸ hcrash
  have hsound : p.Sound image :=
    Disk.run_crash_invariant pre ⟨p.base, []⟩ (fun a c h => p.keeps_requests (hpre.subset h)) (fun w hw => by cases hw)
      (p.sound_base (p.noStale hstale)) hcrash'
  have huuid : ∀ loc ∈ sources utf8Validate image p.physicalBlocks, loc.filesystemUuid = p.old.filesystemUuid := by
    intro loc hloc
    rcases hsound.sources loc hloc with h | h
    · exact congrArg Geometry.filesystemUuid h
    · exact (congrArg Geometry.filesystemUuid h).trans p.uuid
  obtain ⟨hcandidates, hstatus⟩ := discover_spec utf8Validate p.physical huuid
  have hhigh : ∀ sb ∈ d.candidates, sb.generation.toNat ≤ p.old.generation.toNat + 1 := by
    intro sb hsb
    obtain ⟨position, ⟨loc, hloc, hgeometry, j, rfl⟩, hat⟩ := (hcandidates sb).mp hsb
    rw [← p.next]
    have hpositions : loc.checkpoint = sb.geometry.checkpoint := congrArg Geometry.checkpoint hgeometry
    rw [hpositions] at hat
    exact hsound.bounded sb.geometry (hgeometry ▸ hsound.sources loc hloc) j sb hat rfl
  rcases prefix_commit_cases hpre with hbefore | ⟨rest, hrest, rfl⟩
  · have hold : Offered utf8Validate image p.physicalBlocks p.old := p.offers_old hbefore hcrash'
    have hmem := (hcandidates p.old).mpr hold
    obtain ⟨newest, hmax, hlow, hle⟩ := newest_of_bounds ⟨p.old, hmem, le_rfl⟩ hhigh
    refine ⟨hstatus ⟨_, hold⟩, ⟨p.old, hmem, Or.inl rfl⟩, newest, hmax, by omega, fun hcommitted => ?_⟩
    exact absurd (hbefore.subset (hflag.mp hcommitted)) (commit_not_mem_requestsBefore _ _ _)
  · have hnew : Offered utf8Validate image p.physicalBlocks p.new := p.offers_new hrest hcrash'
    have hmem := (hcandidates p.new).mpr hnew
    obtain ⟨newest, hmax, hlow, hle⟩ := newest_of_bounds ⟨p.new, hmem, p.next.ge⟩ hhigh
    exact ⟨hstatus ⟨_, hnew⟩, ⟨p.new, hmem, Or.inr p.next⟩, newest, hmax, by omega, fun _ => by omega⟩

def smallCheckpoint (generation total second third : UInt64) : Superblock :=
  { (default : Superblock) with
    magic := superblockMagic
    formatMajor := formatMajor
    formatMinor := locatorFormatMinor
    headerSize := 252
    blockShift := blockShift
    checksumType := checksumCrc64Ecma
    generation := generation
    totalBlocks := total
    checkpointBlock := #v[0, second, third]
    filesystemUuid := Vector.replicate 16 1
    rootObjectId := Vector.replicate 16 1
    incompatFlags := requiredIncompatFlags }

/-- A volume of 8192 blocks at generation 1, about to shrink to 4096 blocks,
whose other blocks hold a given content. -/
def smallBase (other : Block) : Image := fun b =>
  if b = locatorBlockA ∨ b = locatorBlockB then locatorBlock (smallCheckpoint 1 8192 4096 8191).locator
  else if b = 0 ∨ b = 4096 ∨ b = 8191 then superblockBlock (smallCheckpoint 1 8192 4096 8191)
  else other

variable (other : Block)

theorem smallBase_locator (copy : Fin 2) :
    readLocator 8192 (.ok (smallBase other (locatorAddress copy))) = some (smallCheckpoint 1 8192 4096 8191).locator := by
  have hblock : smallBase other (locatorAddress copy) = locatorBlock (smallCheckpoint 1 8192 4096 8191).locator :=
    if_pos (locatorAddress_eq copy)
  rw [hblock, readLocator, locatorDecode_block (by decide) (by decide)]
  rfl

def smallPublication (other : Block) : Publication fun _ => true where
  physicalBlocks := 8192
  base := smallBase other
  old := smallCheckpoint 1 8192 4096 8191
  new := smallCheckpoint 2 4096 2048 4095
  first := 0
  relocate := true
  physical := by decide
  copies j := by
    have hblock : smallBase other ((smallCheckpoint 1 8192 4096 8191).checkpointBlock.get j).toNat =
        superblockBlock (smallCheckpoint 1 8192 4096 8191) := by
      match j with
      | 0 => rfl
      | 1 => rfl
      | 2 => rfl
    rw [hblock]
    exact checkpointAt_superblockBlock (by decide)
  locators copy loc hloc := by
    rw [smallBase_locator] at hloc
    obtain rfl := Option.some.inj hloc
    rfl
  undamaged := ⟨0, by rw [smallBase_locator]; simp⟩
  newFields := by decide
  newSource := ⟨by decide, by decide⟩
  next := rfl
  uuid := rfl
  ordinary := by simp

theorem smallBase_primary : smallBase other 0 = superblockBlock (smallCheckpoint 1 8192 4096 8191) := by
  rw [smallBase, if_neg (by decide), if_pos (by decide)]

theorem smallBase_other {b : Nat} (hb : b = 2048 ∨ b = 4095) : smallBase other b = other := by
  rw [smallBase, if_neg, if_neg]
  · omega
  · simp only [locatorBlockA, locatorBlockB]
    omega

def smallImage (other : Block) : Image :=
  update (smallBase other) locatorBlockA (locatorBlock (smallCheckpoint 2 4096 2048 4095).locator)

theorem smallPublication_interrupted :
    (smallPublication other).interrupted 3 =
      (⟨smallImage other, [(2048, superblockBlock (smallCheckpoint 2 4096 2048 4095))]⟩, false) := by
  rfl

theorem smallImage_crashes :
    ((smallPublication other).interrupted 3).1.Crashes (Torn (fun _ => true) 8192) (smallImage other) := by
  rw [smallPublication_interrupted]
  exact Survives.lost (.nil _)

def cleanPublication : Publication fun _ => true := smallPublication (superblockBlock (smallCheckpoint 1 8192 4096 8191))

theorem smallCheckpoint_positions : ∀ j : Fin 3,
    ((smallCheckpoint 2 4096 2048 4095).checkpointBlock.get j).toNat = 0 ∨
      ((smallCheckpoint 2 4096 2048 4095).checkpointBlock.get j).toNat = 2048 ∨
      ((smallCheckpoint 2 4096 2048 4095).checkpointBlock.get j).toNat = 4095 := by decide

theorem cleanPublication_noStale : cleanPublication.NoStale := by
  intro j sb hsb _
  have hblock : smallBase (superblockBlock (smallCheckpoint 1 8192 4096 8191))
      ((smallCheckpoint 2 4096 2048 4095).checkpointBlock.get j).toNat =
      superblockBlock (smallCheckpoint 1 8192 4096 8191) := by
    rcases smallCheckpoint_positions j with h | h
    · rw [h]
      exact smallBase_primary _
    · exact smallBase_other _ h
  have hsb' : checkpointAt _ (smallBase (superblockBlock (smallCheckpoint 1 8192 4096 8191))
      ((smallCheckpoint 2 4096 2048 4095).checkpointBlock.get j).toNat) = some sb := hsb
  rw [hblock, checkpointAt_superblockBlock (by decide)] at hsb'
  obtain rfl := Option.some.inj hsb'
  exact (by decide : (1 : Nat) ≤ 2)

theorem publication_crash_safe_shrink :
    cleanPublication.NoStale ∧ (discover (fun _ => true)
      (smallImage (superblockBlock (smallCheckpoint 1 8192 4096 8191))) cleanPublication.physicalBlocks).status = .ok :=
  ⟨cleanPublication_noStale,
    (publication_crash_safe cleanPublication (fun _ => cleanPublication_noStale) 3 _ (smallImage_crashes _)).1⟩

/-- The volume one of whose unused blocks holds a checkpoint of generation 9
that looks like a copy of the new geometry. -/
def stalePublication : Publication fun _ => true := smallPublication (superblockBlock (smallCheckpoint 9 4096 2048 4095))

theorem smallImage_locator (copy : Fin 2) :
    ∃ loc, readLocator 8192 (.ok (smallImage other (locatorAddress copy))) = some loc ∧
      loc.filesystemUuid = Vector.replicate 16 1 ∧
      (copy = 0 → loc = (smallCheckpoint 2 4096 2048 4095).locator) := by
  match copy with
  | 0 =>
    have hblock : smallImage other (locatorAddress 0) = locatorBlock (smallCheckpoint 2 4096 2048 4095).locator :=
      update_self _ _ _
    refine ⟨(smallCheckpoint 2 4096 2048 4095).locator, ?_, rfl, fun _ => rfl⟩
    rw [hblock, readLocator, locatorDecode_block (by decide) (by decide)]
    rfl
  | 1 =>
    have hblock : smallImage other (locatorAddress 1) = smallBase other (locatorAddress 1) :=
      update_of_ne (by decide) _ _
    refine ⟨(smallCheckpoint 1 8192 4096 8191).locator, ?_, rfl, by decide⟩
    rw [hblock, smallBase_locator]

/-- A leftover checkpoint of the new geometry at a new position hides both
generations as soon as the new locator is durable. -/
theorem stale_copy_is_newest :
    let image := smallImage (superblockBlock (smallCheckpoint 9 4096 2048 4095));
    (stalePublication.interrupted 3).1.Crashes (Torn (fun _ => true) stalePublication.physicalBlocks) image ∧
      ∀ newest, ((discover (fun _ => true) image stalePublication.physicalBlocks).candidates.map
          fun sb => sb.generation.toNat).max? = some newest →
        newest ≠ stalePublication.old.generation.toNat ∧ newest ≠ stalePublication.old.generation.toNat + 1 := by
  intro image
  refine ⟨smallImage_crashes _, fun newest hnewest => ?_⟩
  have huuid : ∀ loc ∈ sources (fun _ => true) image 8192, loc.filesystemUuid = Vector.replicate 16 1 := by
    intro loc hloc
    rcases mem_sources.mp hloc with ⟨copy, hcopy⟩ | hprimary
    · obtain ⟨loc', hloc', huuid, _⟩ := smallImage_locator (superblockBlock (smallCheckpoint 9 4096 2048 4095)) copy
      rw [hloc'] at hcopy
      obtain rfl := Option.some.inj hcopy
      exact huuid
    · obtain ⟨sb, hsb, rfl, _⟩ := readPrimary_eq_some.mp hprimary
      have hblock : image 0 = superblockBlock (smallCheckpoint 1 8192 4096 8191) :=
        (update_of_ne (by decide) _ _).trans (smallBase_primary _)
      rw [hblock, checkpointAt_superblockBlock (by decide)] at hsb
      obtain rfl := Option.some.inj hsb
      rfl
  have hstale : Offered (fun _ => true) image 8192 (smallCheckpoint 9 4096 2048 4095) := by
    obtain ⟨loc, hloc, _, hnew⟩ := smallImage_locator (superblockBlock (smallCheckpoint 9 4096 2048 4095)) 0
    have hposition : ((smallCheckpoint 9 4096 2048 4095).checkpointBlock.get 1).toNat = 2048 := by decide
    have hblock : image 2048 = superblockBlock (smallCheckpoint 9 4096 2048 4095) :=
      (update_of_ne (by decide) _ _).trans (smallBase_other _ (.inl rfl))
    refine offered_of_locator 0 1 hloc ?_ ?_
    · rw [hnew rfl]
      rfl
    · rw [hposition, hblock]
      exact checkpointAt_superblockBlock (by decide)
  have hmem := ((discover_spec _ (by decide) huuid).1 _).mpr hstale
  have hle := (List.max?_eq_some_iff.mp hnewest).2 9 (List.mem_map.mpr ⟨_, hmem, rfl⟩)
  have hgeneration : stalePublication.old.generation.toNat = 1 := rfl
  omega

end CrashSafety

end Publication

end InfiltratorFS
