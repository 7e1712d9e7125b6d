import InfiltratorFS.Extents.PageStore

namespace InfiltratorFS.Paged

open Prog Segment PointerTree

open File (Extent extentsPerPage extentPagePointers)

section Reading

/-- Requests that only read leave everything but the clock as it was. -/
def Ticked (v v' : Volume Block) : Prop := ∃ t, v.medium.tick ≤ t ∧ v' = { v with medium.tick := t }

theorem Ticked.refl (v : Volume Block) : Ticked v v := ⟨v.medium.tick, le_rfl, rfl⟩

theorem Ticked.next (v : Volume Block) : Ticked v v.tickOn := ⟨_, Nat.le_succ _, rfl⟩

theorem Ticked.trans {u v w : Volume Block} (h : Ticked u v) (h' : Ticked v w) : Ticked u w := by
  obtain ⟨s, hs, rfl⟩ := h
  obtain ⟨t, ht, rfl⟩ := h'
  exact ⟨t, hs.trans ht, rfl⟩

theorem Ticked.serving {v v' : Volume Block} (h : Ticked v v') (hv : Serving v) : Serving v' := by
  obtain ⟨t, ht, rfl⟩ := h
  exact
    { active := hv.active
      index := hv.index
      writable := hv.writable
      reopen := hv.reopen
      error := hv.error
      granted := hv.granted.mono rfl ht
      generation := hv.generation
      first := hv.first
      zero := hv.zero
      counted := hv.counted }

end Reading

section Pointers

variable {v v' : Volume Block} {block : Block} {owner : ObjectId} {level count : Nat}

/-- What a pointer page that passes holds: only the lowest level passes, since
the level stands in the field that the generic check wants to be zero. -/
structure PointerPage (v : Volume Block) (block : Block) (owner : ObjectId) (count : Nat) : Prop where
  entries : (pageLayout.get block.bytes).entryCount.toNat = count
  owned : idIsZero owner = false
  positive : count ≠ 0
  fits : count ≤ pointersPerPage
  accepted : ∀ i, i < count → pointerAccepted v (pointerAt block i) = true

theorem validate_owner {magic : Vector UInt8 8} (h : validateMetadataPage block magic owner = true) :
    (pageLayout.get block.bytes).reserved = 0 ∧ idIsZero owner = false := by
  rw [validateMetadataPage] at h
  simp only [Bool.and_eq_true, beq_iff_eq, Bool.not_eq_true'] at h
  obtain ⟨⟨⟨⟨⟨⟨⟨⟨⟨-, -⟩, hzero⟩, howner⟩, -⟩, -⟩, hreserved⟩, -⟩, -⟩, -⟩ := h
  exact ⟨hreserved, howner ▸ hzero⟩

theorem pageValidate_ok (h : pageValidate v block owner level = .ok count) : level = 0 ∧ PointerPage v block owner count := by
  rw [pageValidate] at h
  obtain ⟨hvalid, h⟩ := except_guard_eq_ok.mp h
  obtain ⟨hshape, h⟩ := except_guard_eq_ok.mp h
  split at h
  · rename_i hall
    cases h
    rw [not_or, Bool.not_eq_false, Bool.not_eq_false] at hvalid
    simp only [not_or, Nat.not_lt, not_not] at hshape
    obtain ⟨hreserved, howner⟩ := validate_owner hvalid.1
    have hlevel : level = 0 := by
      rw [← hshape.2.2.2, hreserved]
      rfl
    exact ⟨hlevel, rfl, howner, hshape.1, hshape.2.1, fun i hi => List.all_eq_true.mp hall i (List.mem_range.mpr hi)⟩
  · cases h

theorem pageValidate_frame (h : pageValidate v block owner level = .ok count) (htotal : v'.total = v.total)
    (hactive : v'.tx.active = v.tx.active) (hbase : v'.tx.baseSb = v.tx.baseSb) (hopen : v.tx.active = true) :
    pageValidate v' block owner level =
      if (List.range count).all fun i => v'.bitmap (pointerAt block i).toNat then .ok count else .error .corrupt := by
  have hgeneration : generationValid v' block = generationValid v block := by
    rw [generationValid, generationValid, hactive, hbase, hopen]
    rfl
  rw [pageValidate] at h ⊢
  rw [hgeneration]
  obtain ⟨hvalid, h⟩ := except_guard_eq_ok.mp h
  obtain ⟨hshape, h⟩ := except_guard_eq_ok.mp h
  split at h
  · rename_i hall
    injection h with hcount
    rw [if_neg hvalid, if_neg hshape, hcount]
    rw [hcount] at hall
    have hslots : ((List.range count).all fun i =>
        pointerAt block i != 0 && decide ((pointerAt block i).toNat < v'.total) && v'.bitmap (pointerAt block i).toNat) =
          (List.range count).all fun i => v'.bitmap (pointerAt block i).toNat := by
      rw [Bool.eq_iff_iff, List.all_eq_true, List.all_eq_true]
      refine forall₂_congr fun i hi => ?_
      have hi := List.all_eq_true.mp hall i hi
      simp only [Bool.and_eq_true] at hi ⊢
      rw [htotal]
      simp [hi.1.1, hi.1.2]
    rw [hslots]
  · cases h

end Pointers

section Forms

inductive Form (v : Volume Block) (file : FileHead) (pages : List UInt64) : Prop
  | paged (head : ExtentHead) (harea : file.area = .paged head) (hcount : head.pageCount = pages.length)
      (hreserved : head.reserved = 0) (hpayload : file.payloadSize = filePayloadBytes + extentHeadBytes + pages.length * 8)
      (hle : pages.length ≤ extentPagePointers) (hpointers : ∀ i (h : i < pages.length), head.pointer i = pages[i])
  | tree (head : ExtentHead) (harea : file.area = .tree head) (hcount : head.pageCount = pages.length)
      (hreserved : head.reserved = 1) (hpayload : file.payloadSize = filePayloadBytes + extentHeadBytes + 8)
      (hlarge : extentPagePointers < pages.length) (hroot : pointerAccepted v (head.pointer 0) = true)
      (hpage : pageValidate v (v.medium.disk (head.pointer 0).toNat) file.objectId 0 = .ok pages.length)
      (hpointers : ∀ i (h : i < pages.length), pointerAt (v.medium.disk (head.pointer 0).toNat) i = pages[i])

/-- A paged file as it lies on the volume. -/
structure Laid (v : Volume Block) (file : FileHead) (pages : List UInt64) : Prop where
  feature : v.sb.incompatFlags &&& incompatPagedExtents ≠ 0
  nonempty : pages ≠ []
  enough : pages.length ≤ file.extentCount
  accepted : ∀ p ∈ pages, pointerAccepted v p = true
  form : Form v file pages

variable {v v' : Volume Block} {file : FileHead} {pages : List UInt64}

theorem pointerAccepted_iff {p : UInt64} : pointerAccepted v p = true ↔ p ≠ 0 ∧ p.toNat < v.total ∧ v.bitmap p.toNat = true := by
  simp [pointerAccepted, and_assoc]

theorem levels_le (count : Nat) : levels count ≤ 3 := by
  rw [levels, maxLevels]
  split
  · omega
  · simp only [levelsLoop]
    split_ifs <;> omega

theorem levelBelow_zero {n : Nat} (hn : n ≤ 3) (h : levelBelow n = 0) : n = 1 := by
  rw [levelBelow] at h
  omega

theorem levelBelow_one : levelBelow 1 = 0 := by decide

theorem pageBlocks_paged {head : ExtentHead} (harea : file.area = .paged head) (is : List Nat) (his : ∀ i ∈ is, i < head.pageCount)
    (v : Volume Block) : pageBlocks file is v = (.ok (is.map head.pointer), v) := by
  induction is with
  | nil => rfl
  | cons i is ih =>
    have hi := his i List.mem_cons_self
    have hblock : pageBlock file i v = (.ok (head.pointer i), v) := by
      simp only [pageBlock, harea]
      rw [if_neg (by omega)]
      rfl
    rw [pageBlocks, bind_of_ok hblock, bind_of_ok (ih fun j hj => his j (List.mem_cons_of_mem _ hj))]
    rfl

theorem resolve_one (hv : Serving v) {owner : ObjectId} {root : UInt64} {count : Nat} (hroot : root.toNat < v.total)
    (hpage : pageValidate v (v.medium.disk root.toNat) owner 0 = .ok count) (i : Nat) :
    resolve owner root 1 i v =
      (if count ≤ i then .error .corrupt else .ok (pointerAt (v.medium.disk root.toNat) i), v.tickOn) := by
  have hagain : pageValidate v.tickOn (v.medium.disk root.toNat) owner 0 = .ok count := hpage
  rw [resolve, if_neg (by decide), resolveLoop, bind_of_ok (hv.readBlock hroot), bind_of_ok (get_apply _), hagain,
    bind_of_ok (by rfl), Nat.pow_zero, Nat.div_one]
  by_cases hi : count ≤ i
  · rw [if_pos hi, if_pos hi]
    rfl
  · rw [if_neg hi, if_neg hi, if_pos rfl]
    rfl

theorem pageBlocks_tree {head : ExtentHead} {count : Nat} (harea : file.area = .tree head) (hreserved : head.reserved = 1)
    (hroot : (head.pointer 0).toNat < v.total)
    (hpage : pageValidate v (v.medium.disk (head.pointer 0).toNat) file.objectId 0 = .ok count) (is : List Nat)
    (his : ∀ i ∈ is, i < head.pageCount ∧ i < count) (hv : Serving v) :
    ∃ u, Ticked v u ∧ pageBlocks file is v = (.ok (is.map (pointerAt (v.medium.disk (head.pointer 0).toNat))), u) := by
  induction is generalizing v with
  | nil => exact ⟨v, .refl v, rfl⟩
  | cons i is ih =>
    obtain ⟨hin, hcount⟩ := his i List.mem_cons_self
    have hblock : pageBlock file i v = (.ok (pointerAt (v.medium.disk (head.pointer 0).toNat) i), v.tickOn) := by
      simp only [pageBlock, harea]
      rw [if_neg (by omega), hreserved, resolve_one hv hroot hpage, if_neg (by omega)]
    obtain ⟨u, hu, hrest⟩ := ih (v := v.tickOn) hroot hpage (fun j hj => his j (List.mem_cons_of_mem _ hj)) hv.tickOn
    refine ⟨u, (Ticked.next v).trans hu, ?_⟩
    rw [pageBlocks, bind_of_ok hblock, bind_of_ok hrest]
    rfl

theorem Laid.headValidate (h : Laid v file pages) (hv : Serving v) : ∃ u, Ticked v u ∧ headValidate file v = (.ok (), u) := by
  have hpositive : pages.length ≠ 0 := fun hzero => h.nonempty (List.length_eq_zero_iff.mp hzero)
  have henough := h.enough
  rw [Paged.headValidate, bind_of_ok (get_apply v), if_neg h.feature]
  cases h.form with
  | paged head harea hcount hreserved hpayload hle hpointers =>
    refine ⟨v, .refl v, ?_⟩
    have hall : ((List.range head.pageCount).all fun i => pointerAccepted v (head.pointer i)) = true := by
      rw [List.all_eq_true]
      intro i hi
      rw [List.mem_range, hcount] at hi
      rw [hpointers i hi]
      exact h.accepted _ (List.getElem_mem hi)
    simp only [harea]
    rw [if_neg (by omega), if_neg (by omega), if_neg (by rw [hcount]; simp [hpayload]), if_pos hall]
    rfl
  | tree head harea hcount hreserved hpayload hlarge hroot hpage hpointers =>
    refine ⟨v.tickOn, .next v, ?_⟩
    have hlevels : levels pages.length = 1 := levels_one (by omega) (pageValidate_ok hpage).2.fits
    have hagain : pageValidate v.tickOn (v.medium.disk (head.pointer 0).toNat) file.objectId 0 = .ok pages.length := hpage
    simp only [harea]
    rw [if_neg (by omega), if_neg (by rw [hcount, hlevels, hroot]; simp [hreserved]; omega), if_neg (by simp [hpayload]),
      bind_of_ok (hv.readBlock (pointerAccepted_iff.mp hroot).2.1), bind_of_ok (get_apply _), hreserved, levelBelow_one, hagain,
      bind_of_ok (by rfl)]
    rfl

theorem Laid.pageCount (h : Laid v file pages) : file.pageCount = pages.length := by
  cases h.form with
  | paged head harea hcount =>
    rw [FileHead.pageCount, harea]
    exact hcount
  | tree head harea hcount =>
    rw [FileHead.pageCount, harea]
    exact hcount

theorem map_range_getElem {α : Type} (xs : List α) (f : Nat → α) (h : ∀ i (hi : i < xs.length), f i = xs[i]) :
    (List.range xs.length).map f = xs := by
  apply List.ext_getElem
  · rw [List.length_map, List.length_range]
  · intro i hi hi'
    rw [List.getElem_map, List.getElem_range, h i hi']

theorem Laid.collect (h : Laid v file pages) (hv : Serving v) :
    ∃ u, Ticked v u ∧ collectPageBlocks file v = (.ok pages, u) := by
  have hpositive : pages.length ≠ 0 := fun hzero => h.nonempty (List.length_eq_zero_iff.mp hzero)
  rw [collectPageBlocks, h.pageCount, if_neg hpositive, bind_of_ok (allocate_ok hv.granted)]
  cases h.form with
  | paged head harea hcount hreserved hpayload hle hpointers =>
    refine ⟨v.tickOn, .next v, ?_⟩
    rw [pageBlocks_paged harea _ (fun i hi => by rw [hcount]; exact List.mem_range.mp hi),
      map_range_getElem pages head.pointer hpointers]
  | tree head harea hcount hreserved hpayload hlarge hroot hpage hpointers =>
    obtain ⟨u, hu, hrun⟩ := pageBlocks_tree (v := v.tickOn) harea hreserved (pointerAccepted_iff.mp hroot).2.1 hpage
      (List.range pages.length) (fun i hi => by rw [hcount]; exact ⟨List.mem_range.mp hi, List.mem_range.mp hi⟩) hv.tickOn
    refine ⟨u, (Ticked.next v).trans hu, ?_⟩
    rw [hrun]
    exact congrArg (fun found => (Except.ok found, u)) (map_range_getElem pages _ hpointers)

end Forms

section Valid

def FileHead.owned (file : FileHead) (pages : List UInt64) : List Nat :=
  match file.area with
  | .tree head => (head.pointer 0).toNat :: pages.map UInt64.toNat
  | _ => pages.map UInt64.toNat

/-- A valid PAGED or TREE file: the checks of the code accept its head and find
its pages, the pointer page has no slots beyond them, and no block serves
twice. -/
structure Valid (v : Volume Block) (file : FileHead) (pages : List UInt64) : Prop where
  owner : idIsZero file.objectId = false
  accepted : (headValidate file v).1 = .ok ()
  collected : (collectPageBlocks file v).1 = .ok pages
  exact : ∀ head, file.area = .tree head →
    (pageLayout.get (v.medium.disk (head.pointer 0).toNat).bytes).entryCount.toNat = pages.length
  distinct : (file.owned pages).Nodup

variable {v : Volume Block} {file : FileHead} {pages : List UInt64} {head : ExtentHead}

theorem Laid.valid (h : Laid v file pages) (hv : Serving v) (howner : idIsZero file.objectId = false)
    (hdistinct : (file.owned pages).Nodup) : Valid v file pages := by
  obtain ⟨_, -, hhead⟩ := h.headValidate hv
  obtain ⟨_, -, hcollect⟩ := h.collect hv
  refine ⟨howner, by rw [hhead], by rw [hcollect], fun head harea => ?_, hdistinct⟩
  cases h.form with
  | paged head' harea' => rw [harea'] at harea; cases harea
  | tree head' harea' hcount hreserved hpayload hlarge hroot hpage hpointers =>
    rw [harea'] at harea
    cases harea
    exact (pageValidate_ok hpage).2.entries

theorem pageBlocks_tree_inv {count : Nat} (harea : file.area = .tree head) (hreserved : head.reserved = 1)
    (hroot : (head.pointer 0).toNat < v.total)
    (hpage : pageValidate v (v.medium.disk (head.pointer 0).toNat) file.objectId 0 = .ok count) (is : List Nat) (hv : Serving v)
    {blocks : List UInt64} (h : (pageBlocks file is v).1 = .ok blocks) :
    (∀ i ∈ is, i < count) ∧ blocks = is.map (pointerAt (v.medium.disk (head.pointer 0).toNat)) := by
  induction is generalizing v blocks with
  | nil =>
    cases h
    exact ⟨by simp, rfl⟩
  | cons i is ih =>
    rw [pageBlocks] at h
    obtain ⟨block, hblock, h⟩ := fst_bind_ok h
    simp only [pageBlock, harea] at hblock h
    split at hblock
    · cases hblock
    · rename_i hin
      rw [if_neg hin, hreserved, resolve_one hv hroot hpage] at h
      rw [hreserved, resolve_one hv hroot hpage] at hblock
      simp only at hblock
      obtain ⟨hi, hblock⟩ := except_guard_eq_ok.mp hblock
      cases hblock
      obtain ⟨rest, hrest, h⟩ := fst_bind_ok h
      cases h
      obtain ⟨hall, hmap⟩ := ih (v := v.tickOn) hroot hpage hv.tickOn hrest
      refine ⟨fun j hj => ?_, ?_⟩
      · rcases List.mem_cons.mp hj with rfl | hj
        · omega
        · exact hall j hj
      · rw [hmap]
        rfl

theorem Valid.laid_paged (h : Valid v file pages) (hv : Serving v) (harea : file.area = .paged head) :
    Laid v file pages := by
  have hhead := h.accepted
  have hcollect := h.collected
  have hpages : file.pageCount = head.pageCount := by
    rw [FileHead.pageCount, harea]
  rw [headValidate, bind_of_ok (get_apply v)] at hhead
  simp only [harea] at hhead
  split_ifs at hhead with hfeature hcounts hbounds hpayload hall
  · cases hhead
  · cases hhead
  · cases hhead
  · cases hhead
  · rw [collectPageBlocks, hpages] at hcollect
    simp only [not_or, not_not, Nat.not_lt] at hcounts hbounds hpayload
    rw [if_neg hcounts.1, bind_of_ok (allocate_ok hv.granted), pageBlocks_paged harea _ (fun i hi => List.mem_range.mp hi)] at hcollect
    injection hcollect with hcollect
    have hlength : pages.length = head.pageCount := by rw [← hcollect, List.length_map, List.length_range]
    refine ⟨hfeature, ?_, by omega, ?_, .paged head harea hlength.symm hbounds.2 (by rw [hpayload, hlength]) (by omega) ?_⟩
    · intro hnil
      rw [hnil] at hlength
      exact hcounts.1 hlength.symm
    · intro p hp
      rw [← hcollect] at hp
      obtain ⟨i, hi, rfl⟩ := List.mem_map.mp hp
      exact List.all_eq_true.mp hall i hi
    · intro i hi
      simp only [← hcollect, List.getElem_map, List.getElem_range]
  · cases hhead

theorem Valid.laid_tree (h : Valid v file pages) (hv : Serving v) (harea : file.area = .tree head) :
    Laid v file pages := by
  have hhead := h.accepted
  have hcollect := h.collected
  have hpages : file.pageCount = head.pageCount := by
    rw [FileHead.pageCount, harea]
  rw [headValidate, bind_of_ok (get_apply v)] at hhead
  simp only [harea] at hhead
  split_ifs at hhead with hfeature hcounts hbounds hpayload
  · cases hhead
  · cases hhead
  · cases hhead
  · cases hhead
  · simp only [not_or, not_not, Nat.not_lt, Nat.not_le, Bool.not_eq_false] at hcounts hbounds hpayload
    obtain ⟨hlarge, hlevels, hroot⟩ := hbounds
    have hinside := (pointerAccepted_iff.mp hroot).2.1
    rw [bind_of_ok (hv.readBlock hinside), bind_of_ok (get_apply _)] at hhead
    obtain ⟨count, hpage, -⟩ := fst_bind_ok hhead
    replace hpage : pageValidate v (v.medium.disk (head.pointer 0).toNat) file.objectId (levelBelow head.reserved) = .ok count := by
      rw [ofExcept_apply] at hpage
      exact hpage
    obtain ⟨hzero, hpointers⟩ := pageValidate_ok hpage
    rw [hzero] at hpage
    have hone : head.reserved = 1 := levelBelow_zero (by rw [hlevels]; exact levels_le _) hzero
    obtain rfl : count = pages.length := by rw [← hpointers.entries, h.exact head harea]
    rw [collectPageBlocks, hpages, if_neg hcounts.1, bind_of_ok (allocate_ok hv.granted)] at hcollect
    obtain ⟨-, hmap⟩ := pageBlocks_tree_inv (v := v.tickOn) harea hone hinside hpage _ hv.tickOn hcollect
    have hlength : pages.length = head.pageCount := by rw [hmap, List.length_map, List.length_range]
    have hslot (i : Nat) (hi : i < pages.length) : pointerAt (v.medium.disk (head.pointer 0).toNat) i = pages[i] := by
      simp only [hmap, List.getElem_map, List.getElem_range]
      rfl
    refine ⟨hfeature, ?_, by omega, ?_, .tree head harea hlength.symm hone hpayload (by omega) hroot hpage hslot⟩
    · intro hnil
      rw [hnil] at hlength
      exact hcounts.1 hlength.symm
    · intro p hp
      obtain ⟨i, hi, rfl⟩ := List.mem_iff_getElem.mp hp
      rw [← hslot i hi]
      exact hpointers.accepted i hi

theorem Valid.laid (h : Valid v file pages) (hv : Serving v) : Laid v file pages := by
  cases harea : file.area with
  | classic entries =>
    have hhead := h.accepted
    rw [headValidate, bind_of_ok (get_apply v)] at hhead
    simp only [harea] at hhead
    split at hhead <;> cases hhead
  | paged head => exact h.laid_paged hv harea
  | tree head => exact h.laid_tree hv harea

end Valid

end InfiltratorFS.Paged
