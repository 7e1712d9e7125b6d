import InfiltratorFS.Format.Locator
import Mathlib.Data.List.Basic

namespace InfiltratorFS

structure LocatorCandidate where
  physicalBlock : UInt64
  declaredTotalBlocks : UInt64
  declaredCheckpoint : Vector UInt64 3
  filesystemUuid : Vector UInt8 16
  sourceLocator : Nat

def locatorHints (loc : Locator) (source : Nat) : List LocatorCandidate :=
  (List.finRange 3).map fun j => ⟨(loc.checkpoint.get j), loc.totalBlocks, loc.checkpoint, loc.filesystemUuid, source⟩

def uuidConflict (loc : Locator) : Option Locator → Bool
  | some other => decide (loc.filesystemUuid ≠ other.filesystemUuid)
  | none => false

def appendCandidates (physicalBlocks : Nat) (source : Nat) (used : List LocatorCandidate) :
    Option Locator → Except Status (List LocatorCandidate)
  | none => .ok used
  | some loc =>
    if locatorFieldsValid loc = false ∨ physicalBlocks < loc.totalBlocks.toNat then .error .corrupt
    else .ok (used ++ locatorHints loc source)

/-- `infs_locator_candidates`. The valid mask says which locators are there. -/
def locatorCandidates (a b : Option Locator) (physicalBlocks : Nat) : Except Status (List LocatorCandidate) :=
  if a.any fun loc => uuidConflict loc b then .error .corrupt
  else do
    let used ← appendCandidates physicalBlocks 0 [] a
    let used ← appendCandidates physicalBlocks 1 used b
    if used.isEmpty then .error .corrupt else .ok used

section Discover

variable (utf8Validate : List UInt8 → Bool)

/-- `if (first_read_error == INFS_STATUS_OK) first_read_error = status`. -/
def noteError {α : Type} (first : Status) : Except Status α → Status
  | .ok _ => first
  | .error status => if first = .ok then status else first

def readLocator (physicalBlocks : Nat) : Except Status Block → Option Locator
  | .ok raw => (locatorDecode raw physicalBlocks).toOption
  | .error _ => none

def readPrimary (physicalBlocks : Nat) : Except Status Block → Option Locator
  | .ok raw =>
    if validateSuperblockBlockMinor utf8Validate raw locatorFormatMinor then
      let primary := (readSuperblock raw).locator
      if locatorFieldsValid primary && primary.totalBlocks.toNat ≤ physicalBlocks then some primary else none
    else none
  | .error _ => none

def sameGeometry (primary : Locator) : Option Locator → Bool
  | some loc => decide (primary.totalBlocks = loc.totalBlocks) && decide (primary.checkpoint = loc.checkpoint)
  | none => false

def appendPrimary (a b : Option Locator) (locations : List LocatorCandidate) :
    Option Locator → Except Status (List LocatorCandidate)
  | none => .ok locations
  | some primary =>
    if uuidConflict primary a || uuidConflict primary b then .error .corrupt
    else if sameGeometry primary a || sameGeometry primary b then .ok locations
    else .ok (locations ++ locatorHints primary 2)

def discoveryHints (a b primary : Option Locator) (physicalBlocks : Nat) : Except Status (List LocatorCandidate) :=
  if a.isSome || b.isSome then do
    let locations ← locatorCandidates a b physicalBlocks
    appendPrimary a b locations primary
  else appendPrimary a b [] primary

def checkCandidate (hint : LocatorCandidate) : Except Status Block → Option Superblock
  | .error _ => none
  | .ok raw =>
    if validateSuperblockBlockMinor utf8Validate raw locatorFormatMinor = false then none
    else
      let sb := readSuperblock raw
      if sb.totalBlocks ≠ hint.declaredTotalBlocks ∨ sb.filesystemUuid ≠ hint.filesystemUuid then none
      else if sb.checkpointBlock ≠ hint.declaredCheckpoint then none
      else some sb

/-- What discovery returns: its status, `out` and `valid` for each hint, and
the read error. -/
structure Discovery where
  status : Status
  found : List (Option Superblock)
  readError : Status

/-- `infs_locator_discover_019_headers_with_errors`, over what each block
reads as. -/
def discoverHeaders (read : Nat → Except Status Block) (physicalSizeBytes : Nat) : Discovery :=
  let physicalBlocks := physicalSizeBytes / blockSize
  if physicalSizeBytes % blockSize ≠ 0 ∨ physicalBlocks < locatorMinVolumeBlocks then ⟨.invalidArgument, [], .ok⟩
  else
    let rawA := read locatorBlockA
    let rawB := read locatorBlockB
    let raw0 := read 0
    let firstError := noteError (noteError (noteError .ok rawA) rawB) raw0
    let a := readLocator physicalBlocks rawA
    let b := readLocator physicalBlocks rawB
    match discoveryHints a b (readPrimary utf8Validate physicalBlocks raw0) physicalBlocks with
    | .error status => ⟨status, [], .ok⟩
    | .ok hints =>
      if hints.isEmpty then ⟨if firstError = .ok then .corrupt else firstError, [], .ok⟩
      else
        let found := hints.map fun hint => checkCandidate utf8Validate hint (read hint.physicalBlock.toNat)
        let firstError := hints.foldl (fun first hint => noteError first (read hint.physicalBlock.toNat)) firstError
        ⟨if found.any Option.isSome then .ok else if firstError = .ok then .corrupt else firstError, found,
          firstError⟩

def Discovery.candidates (d : Discovery) : List Superblock := d.found.filterMap id

end Discover

section Specification

/-! The candidates are the valid checkpoints at the positions that a source
names, as far as they agree with that source. -/

def LocatorCandidate.geometry (hint : LocatorCandidate) : Geometry :=
  ⟨hint.declaredTotalBlocks, hint.declaredCheckpoint, hint.filesystemUuid⟩

def Names (hints : List LocatorCandidate) (g : Geometry) (position : UInt64) : Prop :=
  ∃ hint ∈ hints, hint.geometry = g ∧ hint.physicalBlock = position

def SourceNames (sources : List Locator) (g : Geometry) (position : UInt64) : Prop :=
  ∃ loc ∈ sources, loc.geometry = g ∧ ∃ j : Fin 3, (loc.checkpoint.get j) = position

def SourceValid (physicalBlocks : Nat) (loc : Locator) : Prop :=
  locatorFieldsValid loc = true ∧ loc.totalBlocks.toNat ≤ physicalBlocks

def SourcesAgree (sources : List Locator) : Prop :=
  ∀ x ∈ sources, ∀ y ∈ sources, x.filesystemUuid = y.filesystemUuid

def maxCandidates : Nat := 9

variable {physicalBlocks : Nat} {a b other : Option Locator} {uuid : Vector UInt8 16} {loc : Locator}

theorem length_locatorHints (loc : Locator) (source : Nat) : (locatorHints loc source).length = 3 := by
  rw [locatorHints, List.length_map, List.length_finRange]

theorem SourceValid.position_lt (h : SourceValid physicalBlocks loc) (j : Fin 3) :
    (loc.checkpoint.get j).toNat < loc.totalBlocks.toNat := by
  have hfields := h.1
  simp only [locatorFieldsValid, Bool.and_eq_true, positionsValid, List.all_eq_true, List.mem_finRange, true_implies,
    decide_eq_true_eq] at hfields
  exact (hfields.2 j).1.1.1

/-- The hints for a list of sources, each under its own number. -/
def hintsOf (sources : List (Locator × Nat)) : List LocatorCandidate := sources.flatMap fun s => locatorHints s.1 s.2

theorem names_hintsOf (sources : List (Locator × Nat)) (g : Geometry) (position : UInt64) :
    Names (hintsOf sources) g position ↔ SourceNames (sources.map Prod.fst) g position := by
  simp only [Names, hintsOf, SourceNames, List.mem_flatMap, locatorHints, List.mem_map, List.mem_finRange, true_and]
  constructor
  · rintro ⟨_, ⟨s, hs, j, rfl⟩, hg, hp⟩
    exact ⟨s.1, ⟨s, hs, rfl⟩, hg, j, hp⟩
  · rintro ⟨_, ⟨s, hs, rfl⟩, hg, j, hp⟩
    exact ⟨_, ⟨s, hs, j, rfl⟩, hg, hp⟩

theorem length_hintsOf (sources : List (Locator × Nat)) : (hintsOf sources).length = 3 * sources.length := by
  induction sources with
  | nil => rfl
  | cons s sources ih =>
    rw [hintsOf, List.flatMap_cons, List.length_append, length_locatorHints, ← hintsOf, ih, List.length_cons]
    omega

theorem appendCandidates_valid (source : Nat) (used : List LocatorCandidate) (h : SourceValid physicalBlocks loc) :
    appendCandidates physicalBlocks source used (some loc) = .ok (used ++ locatorHints loc source) := by
  rw [appendCandidates, if_neg]
  rw [h.1]
  simpa using h.2

theorem uuidConflict_eq_false :
    uuidConflict loc other = false ↔ ∀ x ∈ other.toList, loc.filesystemUuid = x.filesystemUuid := by
  cases other <;> simp [uuidConflict]

theorem sameGeometry_eq_true :
    sameGeometry loc other = true ↔ ∃ x ∈ other.toList, loc.totalBlocks = x.totalBlocks ∧ loc.checkpoint = x.checkpoint := by
  cases other <;> simp [sameGeometry]

/-- The locators first: they conflict, or each adds its three positions. -/
theorem discoveryHints_locators (primary : Option Locator) (hvalid : ∀ loc ∈ a.toList ++ b.toList, SourceValid physicalBlocks loc) :
    ¬SourcesAgree (a.toList ++ b.toList) ∧ discoveryHints a b primary physicalBlocks = .error .corrupt ∨
    SourcesAgree (a.toList ++ b.toList) ∧ discoveryHints a b primary physicalBlocks =
      appendPrimary a b (hintsOf (a.toList.map (·, 0) ++ b.toList.map (·, 1))) primary := by
  cases a with
  | none =>
    cases b with
    | none => exact .inr ⟨by simp [SourcesAgree], rfl⟩
    | some y =>
      refine .inr ⟨by simp [SourcesAgree], ?_⟩
      simp only [discoveryHints, locatorCandidates, appendCandidates_valid 1 _ (hvalid y (by simp))]
      rfl
  | some x =>
    have hx := fun used => appendCandidates_valid 0 used (hvalid x (by simp))
    cases b with
    | none =>
      refine .inr ⟨by simp [SourcesAgree], ?_⟩
      simp only [discoveryHints, locatorCandidates, hx]
      rfl
    | some y =>
      by_cases huuid : x.filesystemUuid = y.filesystemUuid
      · refine .inr ⟨by simp [SourcesAgree, huuid], ?_⟩
        simp only [discoveryHints, locatorCandidates, Option.any_some, uuidConflict, huuid, hx, ne_eq, not_true_eq_false,
          decide_false, Bool.false_eq_true, if_false, appendCandidates_valid 1 _ (hvalid y (by simp))]
        rfl
      · refine .inl ⟨by simp [SourcesAgree, huuid], ?_⟩
        simp [discoveryHints, locatorCandidates, uuidConflict, huuid, bind, Except.bind]

theorem sourcesAgree_concat {xs : List Locator} {p : Locator} :
    SourcesAgree (xs ++ [p]) ↔ SourcesAgree xs ∧ ∀ x ∈ xs, p.filesystemUuid = x.filesystemUuid := by
  constructor
  · intro h
    exact ⟨fun x hx y hy => h x (List.mem_append_left _ hx) y (List.mem_append_left _ hy),
      fun x hx => h p (by simp) x (List.mem_append_left _ hx)⟩
  · rintro ⟨hxs, hp⟩ x hx y hy
    rw [List.mem_append, List.mem_singleton] at hx hy
    rcases hx with hx | rfl <;> rcases hy with hy | rfl
    · exact hxs x hx y hy
    · exact (hp x hx).symm
    · exact hp y hy
    · rfl

/-- What three sources come to. Conflicting ones are corrupt; others name what
the hints name, where the primary adds none if a locator has its geometry. -/
theorem discoveryHints_cases (primary : Option Locator)
    (hvalid : ∀ loc ∈ a.toList ++ b.toList ++ primary.toList, SourceValid physicalBlocks loc) :
    ¬SourcesAgree (a.toList ++ b.toList ++ primary.toList) ∧ discoveryHints a b primary physicalBlocks = .error .corrupt ∨
    SourcesAgree (a.toList ++ b.toList ++ primary.toList) ∧ ∃ hints, discoveryHints a b primary physicalBlocks = .ok hints ∧
      hints.length ≤ maxCandidates ∧
      ∀ g position, Names hints g position ↔ SourceNames (a.toList ++ b.toList ++ primary.toList) g position := by
  have hlen : (a.toList.map (·, 0) ++ b.toList.map (·, 1)).length ≤ 2 := by
    cases a <;> cases b <;> simp
  have hfst : (a.toList.map (·, 0) ++ b.toList.map (·, 1)).map Prod.fst = a.toList ++ b.toList := by
    cases a <;> cases b <;> rfl
  generalize hs : a.toList.map (·, 0) ++ b.toList.map (·, 1) = s at hlen hfst
  have hnames := names_hintsOf s
  have hshort := length_hintsOf s
  rw [hfst] at hnames
  rcases discoveryHints_locators primary fun loc hloc => hvalid loc (List.mem_append_left _ hloc) with ⟨hnot, herror⟩ | ⟨hagree, hrun⟩
  · exact .inl ⟨fun h => hnot fun x hx y hy => h x (List.mem_append_left _ hx) y (List.mem_append_left _ hy), herror⟩
  · rw [hrun, hs]
    cases primary with
    | none =>
      rw [Option.toList_none, List.append_nil]
      exact .inr ⟨hagree, _, rfl, by rw [maxCandidates]; omega, hnames⟩
    | some p =>
      have hconflict : ¬((uuidConflict p a || uuidConflict p b) = true) ↔ SourcesAgree (a.toList ++ b.toList ++ [p]) := by
        rw [sourcesAgree_concat, and_iff_right hagree, Bool.not_eq_true, Bool.or_eq_false_iff, uuidConflict_eq_false,
          uuidConflict_eq_false, ← List.forall_mem_append]
      rw [Option.toList_some, appendPrimary]
      split
      · rename_i h
        exact .inl ⟨fun hall => hconflict.mpr hall h, rfl⟩
      · rename_i h
        have hall := hconflict.mp h
        split
        · rename_i hsame
          refine .inr ⟨hall, _, rfl, by rw [maxCandidates]; omega, fun g position => ?_⟩
          obtain ⟨x, hx, htotal, hcheckpoint⟩ :
              ∃ x ∈ a.toList ++ b.toList, p.totalBlocks = x.totalBlocks ∧ p.checkpoint = x.checkpoint := by
            simpa only [Bool.or_eq_true, sameGeometry_eq_true, List.mem_append, or_and_right, exists_or] using hsame
          have hgeometry : x.geometry = p.geometry := by
            rw [Locator.geometry, Locator.geometry, htotal, hcheckpoint, (sourcesAgree_concat.mp hall).2 x hx]
          rw [hnames]
          constructor
          · rintro ⟨q, hq, hnamed⟩
            exact ⟨q, List.mem_append_left _ hq, hnamed⟩
          · rintro ⟨q, hq, hg, j, hj⟩
            rcases List.mem_append.mp hq with hq | hq
            · exact ⟨q, hq, hg, j, hj⟩
            · obtain rfl := List.mem_singleton.mp hq
              exact ⟨x, hx, hgeometry.trans hg, j, hcheckpoint ▸ hj⟩
        · have hlast : hintsOf s ++ locatorHints p 2 = hintsOf (s ++ [(p, 2)]) := by simp [hintsOf]
          refine .inr ⟨hall, _, rfl, ?_, fun g position => ?_⟩
          · rw [List.length_append, length_locatorHints, maxCandidates]
            omega
          · rw [hlast, names_hintsOf, List.map_append, hfst]
            rfl

variable (utf8Validate : List UInt8 → Bool)

abbrev Image := Nat → Block

def checkpointAt (block : Block) : Option Superblock :=
  if validateSuperblockBlockMinor utf8Validate block locatorFormatMinor then some (readSuperblock block) else none

/-- The sources that can be read and are valid. -/
def readSources (read : Nat → Except Status Block) (physicalBlocks : Nat) : List Locator :=
  (readLocator physicalBlocks (read locatorBlockA)).toList ++ (readLocator physicalBlocks (read locatorBlockB)).toList ++
    (readPrimary utf8Validate physicalBlocks (read 0)).toList

def sources (image : Image) (physicalBlocks : Nat) : List Locator :=
  (readLocator physicalBlocks (.ok (image locatorBlockA))).toList ++
    (readLocator physicalBlocks (.ok (image locatorBlockB))).toList ++
    (readPrimary utf8Validate physicalBlocks (.ok (image 0))).toList

def discover (image : Image) (physicalBlocks : Nat) : Discovery :=
  discoverHeaders utf8Validate (fun b => .ok (image b)) (physicalBlocks * blockSize)

/-- A source names the position of a checkpoint that agrees with it. -/
def Offered (image : Image) (physicalBlocks : Nat) (sb : Superblock) : Prop :=
  ∃ position, SourceNames (sources utf8Validate image physicalBlocks) sb.geometry position ∧
    checkpointAt utf8Validate (image position.toNat) = some sb

theorem readLocator_valid {r : Except Status Block} (h : loc ∈ readLocator physicalBlocks r) :
    SourceValid physicalBlocks loc := by
  cases r with
  | error status => cases h
  | ok raw =>
    simp only [readLocator, Option.mem_def] at h
    cases hdecode : locatorDecode raw physicalBlocks with
    | error e =>
      rw [hdecode] at h
      cases h
    | ok loc' =>
      rw [hdecode] at h
      cases h
      exact locatorDecode_ok hdecode

theorem checkCandidate_eq_some (hint : LocatorCandidate) (raw : Block) (sb : Superblock) :
    checkCandidate utf8Validate hint (.ok raw) = some sb ↔
      checkpointAt utf8Validate raw = some sb ∧ sb.geometry = hint.geometry := by
  simp only [checkCandidate, checkpointAt]
  cases validateSuperblockBlockMinor utf8Validate raw locatorFormatMinor with
  | false => simp
  | true =>
    simp only [Bool.true_eq_false, if_false, if_true, Option.some.injEq]
    constructor
    · intro h
      split_ifs at h with hid hpos
      obtain rfl := Option.some.inj h
      simp only [not_or, not_not] at hid hpos
      exact ⟨rfl, by rw [Superblock.geometry, LocatorCandidate.geometry, hid.1, hid.2, hpos]⟩
    · rintro ⟨rfl, hg⟩
      simp only [Superblock.geometry, LocatorCandidate.geometry, Geometry.mk.injEq] at hg
      rw [if_neg (by simp [hg.1, hg.2.2]), if_neg (by simp [hg.2.1])]

variable {utf8Validate} {read : Nat → Except Status Block} {bytes : Nat}

theorem readSources_valid (h : loc ∈ readSources utf8Validate read physicalBlocks) :
    SourceValid physicalBlocks loc := by
  rw [readSources, List.mem_append, List.mem_append, Option.mem_toList, Option.mem_toList, Option.mem_toList] at h
  rcases h with (h | h) | h
  · exact readLocator_valid h
  · exact readLocator_valid h
  · cases hread : read 0 with
    | error status =>
      rw [hread] at h
      cases h
    | ok raw =>
      simp only [hread, readPrimary] at h
      split at h
      · split at h
        · rename_i hvalid
          cases h
          simpa [SourceValid] using hvalid
        · cases h
      · cases h

def BadSize (bytes : Nat) : Prop := bytes % blockSize ≠ 0 ∨ bytes / blockSize < locatorMinVolumeBlocks

def Failed (read : Nat → Except Status Block) (status : Status) : Prop := ∃ b, read b = .error status

variable (utf8Validate read) in
theorem mem_found_iff (hints : List LocatorCandidate) (sb : Superblock) :
    some sb ∈ hints.map (fun hint => checkCandidate utf8Validate hint (read hint.physicalBlock.toNat)) ↔
      ∃ position, Names hints sb.geometry position ∧
        ∃ raw, read position.toNat = .ok raw ∧ checkpointAt utf8Validate raw = some sb := by
  simp only [List.mem_map]
  constructor
  · rintro ⟨hint, hmem, hcheck⟩
    cases hread : read hint.physicalBlock.toNat with
    | error status =>
      rw [hread] at hcheck
      cases hcheck
    | ok raw =>
      rw [hread, checkCandidate_eq_some] at hcheck
      exact ⟨_, ⟨hint, hmem, hcheck.2.symm, rfl⟩, raw, hread, hcheck.1⟩
  · rintro ⟨_, ⟨hint, hmem, hg, rfl⟩, raw, hread, hat⟩
    exact ⟨hint, hmem, by rw [hread, checkCandidate_eq_some]; exact ⟨hat, hg.symm⟩⟩

theorem noteError_failed {first : Status} (h : first = .ok ∨ Failed read first) (b : Nat) :
    noteError first (read b) = .ok ∨ Failed read (noteError first (read b)) := by
  cases hread : read b with
  | ok raw => exact h
  | error status =>
    rw [noteError]
    split
    · exact .inr ⟨b, hread⟩
    · exact h

theorem noteErrors_failed {first : Status} (h : first = .ok ∨ Failed read first) (hints : List LocatorCandidate) :
    hints.foldl (fun first hint => noteError first (read hint.physicalBlock.toNat)) first = .ok ∨
      Failed read (hints.foldl (fun first hint => noteError first (read hint.physicalBlock.toNat)) first) := by
  induction hints generalizing first with
  | nil => exact h
  | cons hint hints ih => exact ih (noteError_failed h _)

variable (utf8Validate read) in
/-- What discovery returns once its sources agree: the offered checkpoints, and
an error other than a corrupt volume only where a read has failed. -/
structure Discovered (physicalBlocks : Nat) (d : Discovery) : Prop where
  agree : SourcesAgree (readSources utf8Validate read physicalBlocks)
  length : d.found.length ≤ maxCandidates
  mem_iff : ∀ sb, some sb ∈ d.found ↔ ∃ position, SourceNames (readSources utf8Validate read physicalBlocks) sb.geometry position ∧
    ∃ raw, read position.toNat = .ok raw ∧ checkpointAt utf8Validate raw = some sb
  ok : ∀ sb, some sb ∈ d.found → d.status = .ok
  status : d.status = .ok ∨ d.status = .corrupt ∨ Failed read d.status
  readError : d.readError = .ok ∨ Failed read d.readError

variable (utf8Validate read bytes) in
theorem discoverHeaders_cases :
    BadSize bytes ∧ discoverHeaders utf8Validate read bytes = ⟨.invalidArgument, [], .ok⟩ ∨
    ¬BadSize bytes ∧ (¬SourcesAgree (readSources utf8Validate read (bytes / blockSize)) ∧
        discoverHeaders utf8Validate read bytes = ⟨.corrupt, [], .ok⟩ ∨
      Discovered utf8Validate read (bytes / blockSize) (discoverHeaders utf8Validate read bytes)) := by
  rw [discoverHeaders]
  dsimp only
  split
  · rename_i hbad
    exact .inl ⟨hbad, rfl⟩
  · rename_i hsize
    have hstart : Status.ok = .ok ∨ Failed read .ok := .inl rfl
    have hfirst := noteError_failed (noteError_failed (noteError_failed hstart locatorBlockA) locatorBlockB) 0
    generalize noteError (noteError (noteError .ok (read locatorBlockA)) (read locatorBlockB)) (read 0) = first at hfirst
    have hreport {status : Status} (h : status = .ok ∨ Failed read status) :
        (if status = .ok then Status.corrupt else status) = .corrupt ∨ Failed read (if status = .ok then .corrupt else status) := by
      split
      · exact .inl rfl
      · rename_i hne
        exact .inr (h.resolve_left hne)
    refine .inr ⟨hsize, ?_⟩
    rcases discoveryHints_cases (readPrimary utf8Validate (bytes / blockSize) (read 0))
      (fun _ => readSources_valid) with ⟨hnot, hrun⟩ | ⟨hagree, hints, hrun, hlength, hnames⟩
    · rw [hrun]
      exact .inl ⟨hnot, rfl⟩
    · have hmem (sb : Superblock) := mem_found_iff utf8Validate read hints sb
      simp only [hnames] at hmem
      rw [hrun]
      dsimp only
      cases hints with
      | nil => exact .inr ⟨hagree, Nat.zero_le _, hmem, fun sb h => (by cases h), .inr (hreport hfirst), .inl rfl⟩
      | cons hint hints =>
        have hlast := noteErrors_failed hfirst (hint :: hints)
        refine .inr ⟨hagree, by rwa [← List.length_map] at hlength, hmem, fun sb h => ?_, ?_, hlast⟩
        · exact if_pos (List.any_eq_true.mpr ⟨some sb, h, rfl⟩)
        · rw [List.isEmpty_cons, if_neg Bool.false_ne_true]
          dsimp only
          split
          · exact .inl rfl
          · exact .inr (hreport hlast)

/-- Discovery looks at blocks of the device only. -/
theorem discoverHeaders_congr {read' : Nat → Except Status Block} (h : ∀ b < bytes / blockSize, read' b = read b) :
    discoverHeaders utf8Validate read' bytes = discoverHeaders utf8Validate read bytes := by
  rw [discoverHeaders, discoverHeaders]
  dsimp only
  split
  · rfl
  · rename_i hsize
    have hmin : locatorMinVolumeBlocks ≤ bytes / blockSize := by omega
    rw [h locatorBlockA (lt_of_lt_of_le (by decide) hmin), h locatorBlockB (lt_of_lt_of_le (by decide) hmin),
      h 0 (lt_of_lt_of_le (by decide) hmin)]
    rcases discoveryHints_cases (readPrimary utf8Validate (bytes / blockSize) (read 0))
      (fun _ => readSources_valid) with ⟨-, hrun⟩ | ⟨-, hints, hrun, -, hnames⟩
    · rw [hrun]
    · have hsame : ∀ hint ∈ hints, read' hint.physicalBlock.toNat = read hint.physicalBlock.toNat := by
        intro hint hmem
        obtain ⟨loc, hloc, -, j, hj⟩ := (hnames hint.geometry hint.physicalBlock).mp ⟨hint, hmem, rfl, rfl⟩
        have hvalid := readSources_valid hloc
        rw [← hj]
        exact h _ ((hvalid.position_lt j).trans_le hvalid.2)
      rw [hrun]
      dsimp only
      rw [List.map_congr_left fun hint hmem => by rw [hsame hint hmem],
        List.foldl_ext _ _ _ fun first hint hmem => by rw [hsame hint hmem]]

theorem length_found (utf8Validate : List UInt8 → Bool) (read : Nat → Except Status Block) (bytes : Nat) :
    (discoverHeaders utf8Validate read bytes).found.length ≤ maxCandidates := by
  rcases discoverHeaders_cases utf8Validate read bytes with ⟨-, h⟩ | ⟨-, ⟨-, h⟩ | h⟩
  · rw [h]
    exact Nat.zero_le _
  · rw [h]
    exact Nat.zero_le _
  · exact h.length

variable (utf8Validate)

/-- On a device whose blocks can all be read, discovery is what its cases say. -/
theorem discover_cases (image : Image) (physicalBlocks : Nat) :
    (physicalBlocks < locatorMinVolumeBlocks ∨ ¬SourcesAgree (sources utf8Validate image physicalBlocks)) ∧
      (discover utf8Validate image physicalBlocks).candidates = [] ∨
    locatorMinVolumeBlocks ≤ physicalBlocks ∧ SourcesAgree (sources utf8Validate image physicalBlocks) ∧
      ∀ sb, (sb ∈ (discover utf8Validate image physicalBlocks).candidates ↔ Offered utf8Validate image physicalBlocks sb) ∧
        (Offered utf8Validate image physicalBlocks sb → (discover utf8Validate image physicalBlocks).status = .ok) := by
  have hdiv : physicalBlocks * blockSize / blockSize = physicalBlocks := Nat.mul_div_cancel _ (by decide)
  have hsize : BadSize (physicalBlocks * blockSize) ↔ physicalBlocks < locatorMinVolumeBlocks := by
    rw [BadSize, hdiv, Nat.mul_mod_left]
    simp
  have hcases := discoverHeaders_cases utf8Validate (fun b => .ok (image b)) (physicalBlocks * blockSize)
  rw [hsize, hdiv, ← discover] at hcases
  rcases hcases with ⟨hbad, h⟩ | ⟨hgood, ⟨hnot, h⟩ | h⟩
  · exact .inl ⟨.inl hbad, by rw [h]; rfl⟩
  · exact .inl ⟨.inr hnot, by rw [h]; rfl⟩
  · have hoffered (sb : Superblock) : some sb ∈ (discover utf8Validate image physicalBlocks).found ↔
        Offered utf8Validate image physicalBlocks sb := by
      rw [h.mem_iff, Offered]
      simp only [Except.ok.injEq, exists_eq_left']
      rfl
    refine .inr ⟨Nat.le_of_not_lt hgood, h.agree, fun sb => ⟨?_, fun hsb => h.ok sb ((hoffered sb).mpr hsb)⟩⟩
    rw [← hoffered, Discovery.candidates, List.mem_filterMap]
    simp only [id_eq, exists_eq_right]

/-- Where the surviving sources agree on the identity of the filesystem,
discovery finds exactly the offered checkpoints, and succeeds if there is one. -/
theorem discover_spec {image : Image}
    (hphysical : locatorMinVolumeBlocks ≤ physicalBlocks)
    (huuid : ∀ loc ∈ sources utf8Validate image physicalBlocks, loc.filesystemUuid = uuid) :
    (∀ sb, sb ∈ (discover utf8Validate image physicalBlocks).candidates ↔ Offered utf8Validate image physicalBlocks sb) ∧
      ((∃ sb, Offered utf8Validate image physicalBlocks sb) →
        (discover utf8Validate image physicalBlocks).status = .ok) := by
  rcases discover_cases utf8Validate image physicalBlocks with ⟨hbad | hnot, -⟩ | ⟨-, -, h⟩
  · omega
  · exact absurd (fun x hx y hy => (huuid x hx).trans (huuid y hy).symm) hnot
  · exact ⟨fun sb => (h sb).1, fun ⟨sb, hsb⟩ => (h sb).2 hsb⟩

theorem discover_agree {image : Image} {sb : Superblock}
    (h : sb ∈ (discover utf8Validate image physicalBlocks).candidates) :
    locatorMinVolumeBlocks ≤ physicalBlocks ∧ Offered utf8Validate image physicalBlocks sb ∧
      ∀ loc ∈ sources utf8Validate image physicalBlocks, loc.filesystemUuid = sb.filesystemUuid := by
  rcases discover_cases utf8Validate image physicalBlocks with ⟨-, hnone⟩ | ⟨hphysical, hagree, hcases⟩
  · rw [hnone] at h
    cases h
  · have hoffered := (hcases sb).1.mp h
    refine ⟨hphysical, hoffered, fun loc hloc => ?_⟩
    obtain ⟨position, ⟨source, hsource, hgeometry, -⟩, -⟩ := hoffered
    exact (hagree loc hloc source hsource).trans (congrArg Geometry.filesystemUuid hgeometry)

/-- Discovery is sound for all contents and all read failures. A candidate is a
valid checkpoint at a position of a source that it agrees with; the candidates
share one identity and fit the arrays; blocks outside of the device do not
count; conflicting sources are corrupt; and another status comes from a read. -/
theorem discoverHeaders_sound (read : Nat → Except Status Block) (bytes : Nat) :
    let d := discoverHeaders utf8Validate read bytes
    let listed := readSources utf8Validate read (bytes / blockSize)
    (∀ sb, some sb ∈ d.found → ∃ loc ∈ listed, loc.geometry = sb.geometry ∧ ∃ j : Fin 3, ∃ raw,
      (loc.checkpoint.get j).toNat < bytes / blockSize ∧ read (loc.checkpoint.get j).toNat = .ok raw ∧
        checkpointAt utf8Validate raw = some sb) ∧
    d.found.length ≤ maxCandidates ∧
    (∀ read', (∀ b < bytes / blockSize, read' b = read b) → discoverHeaders utf8Validate read' bytes = d) ∧
    (∀ sb sb', some sb ∈ d.found → some sb' ∈ d.found → sb.filesystemUuid = sb'.filesystemUuid) ∧
    (¬BadSize bytes → ∀ x ∈ listed, ∀ y ∈ listed, x.filesystemUuid ≠ y.filesystemUuid → d.status = .corrupt) ∧
    (¬BadSize bytes → d.status ≠ .ok → d.status ≠ .corrupt → Failed read d.status) ∧
    (d.readError ≠ .ok → Failed read d.readError) := by
  intro d listed
  have hlength : d.found.length ≤ maxCandidates := length_found utf8Validate read bytes
  have hcongr (read' : Nat → Except Status Block) (h : ∀ b < bytes / blockSize, read' b = read b) :
      discoverHeaders utf8Validate read' bytes = d := discoverHeaders_congr h
  have hcases := discoverHeaders_cases utf8Validate read bytes
  change _ ∧ d = _ ∨ _ ∧ (_ ∧ d = _ ∨ Discovered _ _ _ d) at hcases
  rcases hcases with ⟨hbad, h⟩ | ⟨-, ⟨-, h⟩ | h⟩
  · rw [h] at hlength hcongr ⊢
    exact ⟨fun sb hsb => (by cases hsb), hlength, hcongr, fun sb sb' hsb => (by cases hsb), fun hgood => absurd hbad hgood,
      fun hgood => absurd hbad hgood, fun hne => absurd rfl hne⟩
  · rw [h] at hlength hcongr ⊢
    exact ⟨fun sb hsb => (by cases hsb), hlength, hcongr, fun sb sb' hsb => (by cases hsb), fun _ _ _ _ _ _ => rfl,
      fun _ _ hne => absurd rfl hne, fun hne => absurd rfl hne⟩
  · refine ⟨fun sb hsb => ?_, hlength, hcongr, fun sb sb' hsb hsb' => ?_, fun _ x hx y hy hne => absurd (h.agree x hx y hy) hne,
      fun _ hok hcorrupt => (h.status.resolve_left hok).resolve_left hcorrupt, h.readError.resolve_left⟩
    · obtain ⟨_, ⟨loc, hloc, hg, j, rfl⟩, raw, hread, hat⟩ := (h.mem_iff sb).mp hsb
      have hvalid := readSources_valid hloc
      exact ⟨loc, hloc, hg, j, raw, (hvalid.position_lt j).trans_le hvalid.2, hread, hat⟩
    · obtain ⟨_, ⟨loc, hloc, hg, -⟩, -⟩ := (h.mem_iff sb).mp hsb
      obtain ⟨_, ⟨loc', hloc', hg', -⟩, -⟩ := (h.mem_iff sb').mp hsb'
      calc sb.filesystemUuid = loc.filesystemUuid := (congrArg Geometry.filesystemUuid hg).symm
        _ = loc'.filesystemUuid := h.agree loc hloc loc' hloc'
        _ = sb'.filesystemUuid := congrArg Geometry.filesystemUuid hg'

end Specification

end InfiltratorFS
