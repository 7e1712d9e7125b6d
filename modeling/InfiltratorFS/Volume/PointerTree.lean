import InfiltratorFS.Format.MetadataPage
import InfiltratorFS.Volume.AllocatorServes

namespace InfiltratorFS.PointerTree

open Prog Layout

section Model

def nextGeneration : VolumeM Block UInt64 := fun v =>
  match addChecked v.tx.baseSb.generation.toNat 1 with
  | none => (.error .overflow, v)
  | some generation => (.ok (UInt64.ofNat generation), v)

def generationValid (v : Volume Block) (block : Block) : Bool :=
  let generation := (pageLayout.get block.bytes).generation
  match (if v.tx.active then addChecked v.tx.baseSb.generation.toNat 1 else some v.sb.generation.toNat) with
  | none => false
  | some limit => generation != 0 && decide (generation.toNat ≤ limit)

/-- `extent_pointer_page_validate`, which leaves the number of pointers. -/
def pageValidate (v : Volume Block) (block : Block) (owner : ObjectId) (level : Nat) : Except Status Nat :=
  let h := pageLayout.get block.bytes
  if validateMetadataPage block extentIndexPageMagic owner = false ∨ generationValid v block = false then .error .corrupt
  else if h.entryCount.toNat = 0 ∨ pointersPerPage < h.entryCount.toNat ∨ h.bytesUsed.toNat ≠ h.entryCount.toNat * 8 ∨
      h.reserved.toNat ≠ level then .error .corrupt
  else if (List.range h.entryCount.toNat).all fun i =>
      pointerAt block i != 0 && decide ((pointerAt block i).toNat < v.total) && v.bitmap (pointerAt block i).toNat then
    .ok h.entryCount.toNat
  else .error .corrupt

variable (owner : ObjectId)

/-- The loop of `extent_pointer_tree_resolve`, from the top level down. -/
def resolveLoop : Nat → UInt64 → Nat → VolumeM Block UInt64
  | 0, _, _ => fail .corrupt
  | level + 1, node, index => do
      let span := pointersPerPage ^ level
      let block ← readBlock node.toNat
      let v ← get
      let count ← ofExcept (pageValidate v block owner level)
      if count ≤ index / span then fail .corrupt
      else if level = 0 then pure (pointerAt block (index / span))
      else resolveLoop level (pointerAt block (index / span)) (index % span)

def resolve (root : UInt64) (levels index : Nat) : VolumeM Block UInt64 :=
  if levels = 0 ∨ maxLevels < levels then fail .corrupt else resolveLoop owner levels root index

def pageStore (old : Nat) (page : MetadataPage) : VolumeM Block Nat := do
  txBegin
  let generation ← nextGeneration
  let block ← ofExcept (metadataPageFinalize { page with header.generation := generation })
  let v ← get
  if old ≠ 0 ∧ old < v.total ∧ txBlockPrivate v old = true then do
    writeBlock old block
    pure old
  else do
    let run ← allocRun 1
    if run.2 ≠ 1 then fail .corrupt
    else do
      match ← attempt (writeBlock run.1 block) with
      | .error e => do
          freeRun run.1 1
          fail e
      | .ok () => do
          (if old ≠ 0 then freeRun old 1 else pure ())
          checkTxError
          pure run.1

def fillPage (page : MetadataPage) (level : Nat) (pointers : List UInt64) : MetadataPage :=
  page.fill pointers.length 8 (pointerBytes pointers) (UInt32.ofNat level)

def buildPage (level : Nat) (pointers : List UInt64) : VolumeM Block UInt64 := do
  let generation ← nextGeneration
  let page ← ofExcept (metadataPageInit extentIndexPageMagic owner generation)
  let stored ← pageStore 0 (fillPage page level pointers)
  pure (UInt64.ofNat stored)

def buildLevel (level : Nat) : Nat → List UInt64 → VolumeM Block (List UInt64)
  | 0, _ => pure []
  | n + 1, current => do
      let parent ← buildPage owner level (current.take pointersPerPage)
      let parents ← buildLevel level n (current.drop pointersPerPage)
      pure (parent :: parents)

def parentCount (count : Nat) : Nat := count / pointersPerPage + if count % pointersPerPage ≠ 0 then 1 else 0

def allocate : VolumeM Block Unit := do
  let granted ← reserve
  if granted then pure () else fail .noMemory

def buildLoop : Nat → Nat → List UInt64 → VolumeM Block (UInt64 × Nat)
  | 0, _, _ => fail .fileTooLarge
  | fuel + 1, level, current => do
      allocate
      let parents ← buildLevel owner level (parentCount current.length) current
      if parents.length = 1 then pure (parents.headD 0, level + 1)
      else if maxLevels ≤ level + 1 then fail .fileTooLarge
      else buildLoop fuel (level + 1) parents

def build (pages : List UInt64) : VolumeM Block (UInt64 × Nat) :=
  if pages = [] then fail .invalidArgument
  else if levels pages.length = 0 then fail .fileTooLarge
  else do
    allocate
    buildLoop owner maxLevels 0 pages

end Model

section Fails

variable (owner : ObjectId)

/-- A page above the lowest level carries its level in the field that a
generic page must leave zero, so it is never stored. -/
theorem buildPage_upper {level : Nat} (hlevel : 0 < level) (hmax : level < maxLevels) (pointers : List UInt64)
    (v v' : Volume Block) (parent : UInt64) : buildPage owner level pointers v ≠ (.ok parent, v') := by
  intro h
  obtain ⟨generation, s₁, -, h⟩ := bind_eq_ok.mp h
  obtain ⟨page, s₂, -, h⟩ := bind_eq_ok.mp h
  obtain ⟨stored, s₃, h, -⟩ := bind_eq_ok.mp h
  obtain ⟨_, s₄, -, h⟩ := bind_eq_ok.mp h
  obtain ⟨generation', s₅, -, h⟩ := bind_eq_ok.mp h
  obtain ⟨block, s₆, hfinal, -⟩ := bind_eq_ok.mp h
  have hreserved : (fillPage page level pointers).header.reserved ≠ 0 := by
    have hcases : level = 1 ∨ level = 2 := by
      rw [maxLevels] at hmax
      omega
    rcases hcases with rfl | rfl
    · exact (by decide : UInt32.ofNat 1 ≠ 0)
    · exact (by decide : UInt32.ofNat 2 ≠ 0)
  rw [finalize_reserved (by exact hreserved)] at hfinal
  cases hfinal

variable {parents pages : List UInt64}

theorem buildLevel_length (level n : Nat) (current : List UInt64) {v v' : Volume Block}
    (h : buildLevel owner level n current v = (.ok parents, v')) : parents.length = n := by
  induction n generalizing current v v' parents with
  | zero =>
    cases h
    rfl
  | succ n ih =>
    obtain ⟨parent, s₁, -, h⟩ := bind_eq_ok.mp h
    obtain ⟨rest, s₂, hrest, h⟩ := bind_eq_ok.mp h
    cases h
    rw [List.length_cons, ih _ hrest]

theorem buildLevel_first (level : Nat) {n : Nat} (hn : 0 < n) (current : List UInt64) {v v' : Volume Block}
    (h : buildLevel owner level n current v = (.ok parents, v')) :
    ∃ parent s, buildPage owner level (current.take pointersPerPage) v = (.ok parent, s) := by
  cases n with
  | zero => cases hn
  | succ n =>
    obtain ⟨parent, s, hpage, -⟩ := bind_eq_ok.mp h
    exact ⟨parent, s, hpage⟩

theorem parentCount_pos {count : Nat} (h : 0 < count) : 0 < parentCount count := by
  rw [parentCount, pointersPerPage]
  split
  · omega
  · omega

theorem parentCount_two {count : Nat} (h : pointersPerPage < count) : 2 ≤ parentCount count := by
  rw [parentCount]
  rw [pointersPerPage] at *
  split
  · omega
  · omega

theorem parentCount_one {count : Nat} (h : 0 < count) (hle : count ≤ pointersPerPage) : parentCount count = 1 := by
  rw [parentCount]
  rw [pointersPerPage] at *
  split
  · omega
  · omega

theorem build_large (h : pointersPerPage < pages.length) (v v' : Volume Block)
    (r : UInt64 × Nat) : build owner pages v ≠ (.ok r, v') := by
  intro hbuild
  rw [build] at hbuild
  obtain ⟨-, hbuild⟩ := guard_eq_ok.mp hbuild
  obtain ⟨-, hbuild⟩ := guard_eq_ok.mp hbuild
  obtain ⟨_, s₁, -, hloop⟩ := bind_eq_ok.mp hbuild
  rw [maxLevels, buildLoop] at hloop
  obtain ⟨_, s₂, -, hloop⟩ := bind_eq_ok.mp hloop
  obtain ⟨parents, s₃, hlevel, hloop⟩ := bind_eq_ok.mp hloop
  have hlength := buildLevel_length owner 0 _ pages hlevel
  have htwo := parentCount_two h
  rw [if_neg (by omega), if_neg (by decide), buildLoop] at hloop
  obtain ⟨_, s₄, -, hloop⟩ := bind_eq_ok.mp hloop
  obtain ⟨grand, s₅, hupper, -⟩ := bind_eq_ok.mp hloop
  obtain ⟨parent, s, hpage⟩ := buildLevel_first owner _ (parentCount_pos (by omega)) _ hupper
  exact buildPage_upper owner (by decide) (by decide) _ _ _ _ hpage

theorem build_unowned {owner : ObjectId} (howner : idIsZero owner = true) (v v' : Volume Block)
    (r : UInt64 × Nat) : build owner pages v ≠ (.ok r, v') := by
  intro hbuild
  rw [build] at hbuild
  obtain ⟨hne, hbuild⟩ := guard_eq_ok.mp hbuild
  obtain ⟨-, hbuild⟩ := guard_eq_ok.mp hbuild
  obtain ⟨_, s₁, -, hloop⟩ := bind_eq_ok.mp hbuild
  rw [maxLevels, buildLoop] at hloop
  obtain ⟨_, s₂, -, hloop⟩ := bind_eq_ok.mp hloop
  obtain ⟨parents, s₃, hlevel, -⟩ := bind_eq_ok.mp hloop
  obtain ⟨parent, s, hpage⟩ := buildLevel_first owner 0 (parentCount_pos (List.length_pos_iff.mpr hne)) _ hlevel
  obtain ⟨generation, s₄, -, hpage⟩ := bind_eq_ok.mp hpage
  obtain ⟨page, s₅, hinit, -⟩ := bind_eq_ok.mp hpage
  rw [metadataPageInit, if_pos (.inl howner)] at hinit
  cases hinit

end Fails

section Page

def leafPage (owner : ObjectId) (generation : UInt64) (pointers : List UInt64) : MetadataPage :=
  fillPage (emptyPage extentIndexPageMagic owner generation) 0 pointers

variable {owner : ObjectId} {generation : UInt64} {pointers : List UInt64} (hle : pointers.length ≤ pointersPerPage)

include hle

theorem leafPage_fits : pointers.length * 8 ≤ pageDataBytes := Nat.mul_le_mul_right 8 hle

theorem finalize_leafPage (howner : idIsZero owner = false) (hgeneration : generation ≠ 0) :
    metadataPageFinalize (leafPage owner generation pointers) = .ok (leafPage owner generation pointers).block :=
  finalize_fill (leafPage_fits hle) (by decide) howner hgeneration

theorem pointerAt_leafPage (i : Nat) (hi : i < pointers.length) :
    pointerAt (leafPage owner generation pointers).block i = pointers[i] := by
  have hlength : (pointerBytes pointers).length = pointers.length * 8 := by rw [length_pointerBytes, Nat.mul_comm]
  rw [pointerAt, ← List.drop_drop, leafPage, fillPage, drop_header_fill (leafPage_fits hle) hlength]
  exact get_pointerBytes pointers _ i hi

end Page

section Stored

/-- An open transaction that still finds room for a page. -/
structure Ready (v : Volume Block) : Prop extends OpenTx v where
  granted : Granted v
  free : v.sb.freeBlocks ≠ 0
  clear : ∃ x, 1 ≤ x ∧ x < v.total ∧ v.bitmap x = false
  generation : v.tx.baseSb.generation.toNat + 1 < 2 ^ 64

/-- What a later lookup needs to know about a stored page. -/
structure Stored (v v' : Volume Block) (start : Nat) (block : Block) : Prop where
  inside : start < v.total
  disk : v'.medium.disk start = block
  total : v'.total = v.total
  bitmap : ∀ b, v.bitmap b = true → v'.bitmap b = true
  active : v'.tx.active = true
  baseSb : v'.tx.baseSb = v.tx.baseSb
  granted : Granted v'

variable {v : Volume Block}

theorem Ready.tickOn (hv : Ready v) : Ready v.tickOn :=
  { hv with granted := hv.granted.mono rfl (Nat.le_succ _) }

theorem allocate_ok (h : Granted v) : allocate v = (.ok (), v.tickOn) := by
  have hnow : v.answer.status = .ok := h _ (Nat.le_refl _)
  rw [PointerTree.allocate, bind_apply]
  simp only [reserve, hnow, decide_true]
  rfl

theorem Stored.tickOn {v' : Volume Block} {start : Nat} {block : Block} (h : Stored v v' start block) :
    Stored v v'.tickOn start block :=
  ⟨h.inside, h.disk, h.total, h.bitmap, h.active, h.baseSb, h.granted.mono rfl (Nat.le_succ _)⟩

/-- The generation under which the pages of the transaction are stored. -/
def pageGeneration (v : Volume Block) : UInt64 := UInt64.ofNat (v.tx.baseSb.generation.toNat + 1)

section Generation

variable {v : Volume Block} (hv : v.tx.baseSb.generation.toNat + 1 < 2 ^ 64)
include hv

theorem nextGeneration_ok : nextGeneration v = (.ok (pageGeneration v), v) := by
  rw [nextGeneration, addChecked, if_pos hv]
  rfl

theorem toNat_pageGeneration : (pageGeneration v).toNat = v.tx.baseSb.generation.toNat + 1 :=
  UInt64.toNat_ofNat_of_lt' (by rw [UInt64.size]; exact hv)

theorem pageGeneration_ne : pageGeneration v ≠ 0 := by
  intro h
  have hnat := toNat_pageGeneration hv
  rw [h] at hnat
  cases hnat

theorem generationValid_block (hactive : v.tx.active = true) {p : MetadataPage} (hp : p.header.generation = pageGeneration v) :
    generationValid v p.block = true := by
  rw [generationValid, MetadataPage.get_block, hp, hactive, addChecked, if_pos hv]
  simp [pageGeneration_ne hv, toNat_pageGeneration hv]

end Generation

theorem pageStore_new (hv : Ready v) (page : MetadataPage) {block : Block}
    (hfinal : metadataPageFinalize { page with header.generation := pageGeneration v } = .ok block) :
    ∃ start v', pageStore 0 page v = (.ok start, v') ∧ Stored v v' start block := by
  obtain ⟨x, hlow, hhigh, hx⟩ := hv.clear
  obtain ⟨start, u, halloc⟩ := allocRun_one hv.toOpenTx hv.granted hv.free ⟨hlow, hhigh⟩ hx
  obtain ⟨hclear, htook, -⟩ := Allocation.took (.metadata 1) hv.toOpenTx halloc
  have hgranted : Granted u := hv.granted.mono htook.env htook.tick
  have hnow : u.answer.status = .ok := hgranted _ (Nat.le_refl _)
  have hinside : start < v.total := hclear.1
  have hwrite : writeBlock start block u = (.ok (), { u with medium := u.medium.write start block }) := by
    rw [writeBlock, if_neg (by rw [htook.context.total_eq]; omega), storageWrite, resultOf, if_pos hnow]
  have hcheck : checkTxError { u with medium := u.medium.write start block } =
      (.ok (), { u with medium := u.medium.write start block }) := checkTxError_ok (htook.error.trans hv.error)
  refine ⟨start, { u with medium := u.medium.write start block }, ?_, ?_⟩
  · rw [pageStore, bind_of_ok hv.begin, bind_of_ok (nextGeneration_ok hv.generation), hfinal,
      bind_of_ok (by rfl), bind_of_ok (get_apply v), if_neg (by simp), bind_of_ok halloc, if_neg (by simp), bind_apply,
      attempt_apply, hwrite]
    simp only [ne_eq, not_true_eq_false, if_false]
    rw [bind_of_ok (by rfl), bind_of_ok hcheck]
    rfl
  · refine ⟨hinside, ?_, htook.context.total_eq, fun b hb => ?_, htook.context.active.trans hv.active, htook.context.baseSb,
      hgranted.mono rfl (Nat.le_succ _)⟩
    · show (u.medium.write start block).disk start = block
      have hstatus : (u.medium.env u.medium.tick).status = .ok := hnow
      simp [Medium.write, hstatus]
    · show u.bitmap b = true
      rw [htook.bitmap, setRange]
      split
      · rfl
      · exact hb

end Stored

section Resolve

def Pointable (v : Volume Block) (pages : List UInt64) : Prop :=
  ∀ p ∈ pages, p ≠ 0 ∧ p.toNat < v.total ∧ v.bitmap p.toNat = true

/-- The build makes a tree of the expected height, and the tree leads to every
page. -/
def Resolves (owner : ObjectId) (pages : List UInt64) (v : Volume Block) : Prop :=
  ∃ root v', build owner pages v = (.ok (root, levels pages.length), v') ∧
    ∀ i (h : i < pages.length), (resolve owner root (levels pages.length) i v').1 = .ok pages[i]

variable {v v' : Volume Block} {owner : ObjectId} {pages : List UInt64} {start : Nat}

theorem buildPage_leaf (hv : Ready v) (howner : idIsZero owner = false) (hle : pages.length ≤ pointersPerPage) :
    ∃ start v', buildPage owner 0 pages v = (.ok (UInt64.ofNat start), v') ∧
      Stored v v' start (leafPage owner (pageGeneration v) pages).block := by
  have hfinal := finalize_leafPage hle howner (pageGeneration_ne hv.generation)
  obtain ⟨start, v', hstore, hstored⟩ := pageStore_new hv (leafPage owner (pageGeneration v) pages) hfinal
  rw [leafPage] at hstore
  refine ⟨start, v', ?_, hstored⟩
  rw [buildPage, bind_of_ok (nextGeneration_ok hv.generation), metadataPageInit_ok howner (pageGeneration_ne hv.generation),
    bind_of_ok (by rfl), bind_of_ok hstore]
  rfl

theorem pageValidate_leafPage {generation : UInt64} (howner : idIsZero owner = false) (hgeneration : generation ≠ 0) (hne : pages ≠ [])
    (hle : pages.length ≤ pointersPerPage) (hvalid : generationValid v (leafPage owner generation pages).block = true)
    (hpages : Pointable v pages) : pageValidate v (leafPage owner generation pages).block owner 0 = .ok pages.length := by
  have hfinal : validateMetadataPage (leafPage owner generation pages).block extentIndexPageMagic owner = true :=
    (validate_finalized (finalize_leafPage hle howner hgeneration)).2
  have hpositive : pages.length ≠ 0 := fun hzero => hne (List.length_eq_zero_iff.mp hzero)
  have hreserved : (leafPage owner generation pages).header.reserved.toNat = 0 := rfl
  -- every slot that the reader checks is one of the pages that were handed in
  have hslots : ∀ i ∈ List.range pages.length,
      (pointerAt (leafPage owner generation pages).block i != 0 &&
        decide ((pointerAt (leafPage owner generation pages).block i).toNat < v.total) &&
        v.bitmap (pointerAt (leafPage owner generation pages).block i).toNat) = true := by
    intro i hi
    have hi : i < pages.length := List.mem_range.mp hi
    obtain ⟨hnonzero, hinside, hset⟩ := hpages pages[i] (List.getElem_mem hi)
    rw [pointerAt_leafPage hle i hi, hset]
    simp [hnonzero, hinside]
  have hcount : (leafPage owner generation pages).header.entryCount.toNat = pages.length :=
    entryCount_fill (leafPage_fits hle) (by decide)
  have hused : (leafPage owner generation pages).header.bytesUsed.toNat = pages.length * 8 := bytesUsed_fill (leafPage_fits hle)
  rw [pageValidate, MetadataPage.get_block, hcount, hused, hreserved, if_neg (by simp [hfinal, hvalid]),
    if_neg (by simp [hpositive, hle]), if_pos (List.all_eq_true.mpr hslots)]

theorem pageValidate_stored (hv : Ready v) (howner : idIsZero owner = false) (hne : pages ≠ [])
    (hle : pages.length ≤ pointersPerPage) (hpages : Pointable v pages)
    (h : Stored v v' start (leafPage owner (pageGeneration v) pages).block) :
    pageValidate v' (leafPage owner (pageGeneration v) pages).block owner 0 = .ok pages.length := by
  have hgeneration : pageGeneration v' = pageGeneration v := by rw [pageGeneration, h.baseSb, pageGeneration]
  refine pageValidate_leafPage howner (pageGeneration_ne hv.generation) hne hle
    (generationValid_block (by rw [h.baseSb]; exact hv.generation) h.active hgeneration.symm) fun p hp => ?_
  obtain ⟨hnonzero, hinside, hset⟩ := hpages p hp
  exact ⟨hnonzero, by rwa [h.total], h.bitmap _ hset⟩

theorem resolve_stored (hv : Ready v) (howner : idIsZero owner = false) (hle : pages.length ≤ pointersPerPage)
    (hpages : Pointable v pages) (h : Stored v v' start (leafPage owner (pageGeneration v) pages).block) (i : Nat)
    (hi : i < pages.length) : (resolve owner (UInt64.ofNat start) 1 i v').1 = .ok pages[i] := by
  have hne : pages ≠ [] := fun hnil => by
    rw [hnil] at hi
    cases hi
  have htotal : v.total < 2 ^ 64 := v.sb.totalBlocks.toNat_lt
  have hinside := h.inside
  have hnode : (UInt64.ofNat start).toNat = start := UInt64.toNat_ofNat_of_lt' (by rw [UInt64.size]; omega)
  have hnow : v'.answer.status = .ok := h.granted _ (Nat.le_refl _)
  have hread : readBlock start v' = (.ok (leafPage owner (pageGeneration v) pages).block, v'.tickOn) := by
    rw [readBlock, if_neg (by rw [h.total]; omega), storageRead, if_pos hnow, h.disk]
  have hvalid : pageValidate v'.tickOn (leafPage owner (pageGeneration v) pages).block owner 0 = .ok pages.length :=
    pageValidate_stored hv howner hne hle hpages h.tickOn
  rw [resolve, if_neg (by decide), resolveLoop, hnode, bind_of_ok hread, bind_of_ok (get_apply _), hvalid, bind_of_ok (by rfl),
    Nat.pow_zero, Nat.div_one, if_neg (by omega), if_pos rfl, pointerAt_leafPage hle i hi]
  rfl

theorem levels_one {count : Nat} (h : 0 < count) (hle : count ≤ pointersPerPage) : levels count = 1 := by
  rw [levels, if_neg (by omega), maxLevels, levelsLoop, if_neg (by omega)]

theorem build_small (hv : Ready v) (howner : idIsZero owner = false) (hne : pages ≠ []) (hle : pages.length ≤ pointersPerPage)
    (hpages : Pointable v pages) : Resolves owner pages v := by
  have hlength := List.length_pos_iff.mpr hne
  have hlevels := levels_one hlength hle
  obtain ⟨start, v', hpage, hstored⟩ := buildPage_leaf hv.tickOn.tickOn howner hle
  refine ⟨UInt64.ofNat start, v', ?_, fun i hi => ?_⟩
  · have hlevel : buildLevel owner 0 1 pages v.tickOn.tickOn = (.ok [UInt64.ofNat start], v') := by
      rw [buildLevel, List.take_of_length_le hle, bind_of_ok hpage, bind_of_ok (by rfl)]
      rfl
    rw [build, if_neg hne, hlevels, if_neg (by decide), bind_of_ok (allocate_ok hv.granted), maxLevels, buildLoop,
      bind_of_ok (allocate_ok hv.tickOn.granted), parentCount_one hlength hle, bind_of_ok hlevel]
    rfl
  · rw [hlevels]
    exact resolve_stored hv.tickOn.tickOn howner hle hpages hstored i hi

/-- A list of pages gets a tree that leads to all of them if and only if one
pointer page holds the list and the owner has an identifier. -/
theorem pointerTree_resolves_iff (hv : Ready v) (hpages : Pointable v pages) (hne : pages ≠ []) :
    Resolves owner pages v ↔ pages.length ≤ pointersPerPage ∧ idIsZero owner = false := by
  constructor
  · rintro ⟨root, v', hbuild, -⟩
    constructor
    · by_contra hlarge
      exact build_large owner (Nat.lt_of_not_le hlarge) v v' _ hbuild
    · by_contra hzero
      exact build_unowned (by simpa using hzero) v v' _ hbuild
  · rintro ⟨hle, howner⟩
    exact build_small hv howner hne hle hpages

end Resolve

section Example

/-- A volume of 1024 blocks whose lower half is in use, with a transaction
under way and no index of the free extents. -/
def halfVolume : Volume Block :=
  { (default : Volume Block) with
    medium := { (default : Medium Block) with env := fun _ => ⟨.ok, none⟩ }
    writable := true
    sb := { (default : Superblock) with generation := 1, totalBlocks := 1024, freeBlocks := 512 }
    bitmap := fun b => decide (b < 512)
    tx := { (default : Transaction) with
      active := true
      error := .ok
      baseSb := { (default : Superblock) with generation := 1, totalBlocks := 1024, freeBlocks := 512 } }
    freeIndex := ⟨[], false⟩ }

def usedPages (count : Nat) : List UInt64 := (List.range count).map fun i => UInt64.ofNat (i + 1)

theorem length_usedPages (count : Nat) : (usedPages count).length = count := by
  rw [usedPages, List.length_map, List.length_range]

theorem total_halfVolume : halfVolume.total = 1024 := rfl

theorem halfVolume_ready : Ready halfVolume where
  active := rfl
  index := fun hvalid => nomatch hvalid
  writable := rfl
  reopen := rfl
  error := rfl
  granted := fun _ _ => rfl
  free := by decide
  clear := ⟨600, by decide, by rw [total_halfVolume]; decide, rfl⟩
  generation := by decide

theorem usedPages_pointable {count : Nat} (h : count < 511) : Pointable halfVolume (usedPages count) := by
  intro p hp
  obtain ⟨i, hi, rfl⟩ := List.mem_map.mp hp
  have hi : i < count := List.mem_range.mp hi
  have hnat : (UInt64.ofNat (i + 1)).toNat = i + 1 := UInt64.toNat_ofNat_of_lt' (by rw [UInt64.size]; omega)
  refine ⟨fun hzero => ?_, ?_, ?_⟩
  · rw [hzero] at hnat
    cases hnat
  · rw [hnat, total_halfVolume]
    omega
  · rw [hnat]
    exact decide_eq_true (by omega)

theorem usedPages_ne {count : Nat} (h : 0 < count) : usedPages count ≠ [] := by
  intro hnil
  have hlength := length_usedPages count
  rw [hnil] at hlength
  rw [← hlength] at h
  cases h

def fileOwner : ObjectId := Vector.replicate 16 1

theorem pointerTree_resolves_one_page :
    Ready halfVolume ∧ Pointable halfVolume (usedPages 480) ∧ usedPages 480 ≠ [] ∧ Resolves fileOwner (usedPages 480) halfVolume :=
  have hpages := usedPages_pointable (show 480 < 511 by decide)
  have hne := usedPages_ne (show 0 < 480 by decide)
  ⟨halfVolume_ready, hpages, hne, (pointerTree_resolves_iff halfVolume_ready hpages hne).mpr
    ⟨by rw [length_usedPages]; decide, by decide⟩⟩

/-- With one page more than a pointer page holds the tree needs a second
level, and the build does not return one although half of the volume is free. -/
theorem second_level_never_built :
    Ready halfVolume ∧ Pointable halfVolume (usedPages 503) ∧ idIsZero fileOwner = false ∧
      (∀ b, 512 ≤ b → b < halfVolume.total → halfVolume.bitmap b = false) ∧ levels (usedPages 503).length = 2 ∧
      ∀ r v', build fileOwner (usedPages 503) halfVolume ≠ (.ok r, v') :=
  ⟨halfVolume_ready, usedPages_pointable (by decide), by decide, fun b hb _ => decide_eq_false (by omega),
    by rw [length_usedPages]; decide,
    fun r v' => build_large fileOwner (by rw [length_usedPages]; decide) halfVolume v' r⟩

end Example

end InfiltratorFS.PointerTree
