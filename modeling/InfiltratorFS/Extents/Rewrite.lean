import InfiltratorFS.Extents.Valid

namespace InfiltratorFS.Paged

open Prog Segment PointerTree

open File (Extent extentsPerPage extentPagePointers paginate)

variable {retained live : Nat → Bool} {v₀ v : Volume Block} {gone : List Nat} {mine : List (Nat × Block)}

section Groups

def pagesFor (entries : List Extent) : Nat :=
  entries.length / extentsPerPage + if entries.length % extentsPerPage ≠ 0 then 1 else 0

theorem length_paginate (entries : List Extent) : (paginate entries).length = pagesFor entries := by
  fun_induction paginate entries with
  | case1 => rfl
  | case2 entries hne ih =>
    have hpos := List.length_pos_iff.mpr hne
    rw [List.length_cons, ih, pagesFor, pagesFor, List.length_drop, extentsPerPage]
    split <;> split <;> omega

theorem mem_paginate {entries group : List Extent} (h : group ∈ paginate entries) : group ≠ [] ∧ group.length ≤ extentsPerPage := by
  fun_induction paginate entries with
  | case1 => cases h
  | case2 entries hne ih =>
    rcases List.mem_cons.mp h with rfl | h
    · refine ⟨fun hnil => ?_, by rw [List.length_take]; exact Nat.min_le_left _ _⟩
      rcases List.take_eq_nil_iff.mp hnil with hzero | hnil
      · cases hzero
      · exact hne hnil
    · exact ih h

theorem pagesFor_pos {entries : List Extent} (h : entries ≠ []) : 0 < pagesFor entries := by
  have hpos := List.length_pos_iff.mpr h
  rw [pagesFor, extentsPerPage]
  split <;> omega

theorem pagesFor_le (entries : List Extent) : pagesFor entries ≤ entries.length := by
  rw [pagesFor, extentsPerPage]
  split <;> omega

end Groups

section Tree

variable {owner : ObjectId} {pages : List UInt64} {root : UInt64}

theorem Progress.freesTree (h : Progress retained live v₀ v gone mine) (hopen : v₀.tx.active = true)
    (hroot : Held live v₀ gone root.toNat)
    (hpage : pageValidate v₀ (v₀.medium.disk root.toNat) owner 0 = .ok pages.length)
    (hpointers : ∀ i (h : i < pages.length), pointerAt (v₀.medium.disk root.toNat) i = pages[i]) :
    ((∀ p ∈ pages, v.bitmap p.toNat = true) →
        ∃ v', treeFreeNode owner 0 root v = (.ok (), v') ∧ Progress retained live v₀ v' (root.toNat :: gone) mine) ∧
      (¬(∀ p ∈ pages, v.bitmap p.toNat = true) → (treeFreeNode owner 0 root v).1 = .error .corrupt) := by
  have hread := h.serving.readBlock (b := root.toNat) (by rw [h.total]; exact hroot.inside)
  rw [h.disk _ hroot.live hroot.kept] at hread
  have hframe := pageValidate_frame hpage (show v.tickOn.total = v₀.total from h.total) h.context.active h.context.baseSb hopen
  have hbits : ((List.range pages.length).all fun i => v.tickOn.bitmap (pointerAt (v₀.medium.disk root.toNat) i).toNat) = true ↔
      ∀ p ∈ pages, v.bitmap p.toNat = true := by
    rw [List.all_eq_true]
    constructor
    · intro hall p hp
      obtain ⟨i, hi, rfl⟩ := List.mem_iff_getElem.mp hp
      have := hall i (List.mem_range.mpr hi)
      rwa [hpointers i hi] at this
    · intro hall i hi
      have hi := List.mem_range.mp hi
      rw [hpointers i hi]
      exact hall _ (List.getElem_mem hi)
  have hstart : treeFreeNode owner 0 root v =
      (ofExcept (pageValidate v.tickOn (v₀.medium.disk root.toNat) owner 0) >>= fun _ => freeBlock root) v.tickOn := by
    have hchildren (children : List UInt64) :
        (treeFreeChildren owner 0 children >>= fun _ => freeBlock root) = freeBlock root := by
      rw [treeFreeChildren]
      rfl
    rw [treeFreeNode, bind_of_ok hread, bind_of_ok (get_apply _)]
    simp only [hchildren]
  rw [hstart]
  constructor
  · intro hset
    rw [hframe, if_pos (hbits.mpr hset), bind_of_ok (by rfl)]
    exact h.tickOn.freesBlock hroot
  · intro hnot
    rw [hframe, if_neg fun hall => hnot (hbits.mp hall)]
    rfl

end Tree

section Build

variable {owner : ObjectId} {pointers : List UInt64}

theorem Progress.buildsPage (h : Progress retained live v₀ v gone mine) (howner : idIsZero owner = false)
    (pointers : List UInt64) (hle : pointers.length ≤ pointersPerPage) :
    (∃ root v', buildPage owner 0 pointers v = (.ok (UInt64.ofNat root), v') ∧
        Progress retained live v₀ v' gone ((root, (leafPage owner (pageGeneration v₀) pointers).block) :: mine)) ∨
      ((buildPage owner 0 pointers v).1 = .error .noSpace ∧ (clearBlocks v₀.bitmap v₀.total).card ≤ mine.length) := by
  have hne : pageGeneration v₀ ≠ 0 := by
    rw [← h.generation_eq]
    exact pageGeneration_ne h.serving.generation
  have hgeneration := nextGeneration_ok h.serving.generation
  rw [h.generation_eq] at hgeneration
  have hstart : buildPage owner 0 pointers v =
      (pageStore 0 (leafPage owner (pageGeneration v₀) pointers) >>= fun stored => pure (UInt64.ofNat stored)) v := by
    rw [buildPage, bind_of_ok hgeneration, metadataPageInit_ok howner hne, bind_of_ok (by rfl)]
    rfl
  rw [hstart]
  rcases h.storesNew (leafPage owner (pageGeneration v₀) pointers) (finalize_leafPage hle howner hne) (.inl rfl) with
    ⟨root, v', hstore, hprogress⟩ | ⟨hnone, hempty⟩
  · refine .inl ⟨root, v', ?_, hprogress⟩
    rw [bind_of_ok hstore]
    rfl
  · have hroom := h.room
    rw [hempty, Finset.card_empty, Nat.zero_add] at hroom
    exact .inr ⟨fst_bind_error hnone, hroom⟩

theorem Progress.buildsLevel (howner : idIsZero owner = false) (n : Nat) (current : List UInt64)
    (h : Progress retained live v₀ v gone mine) :
    (∃ parents v' mine', buildLevel owner 0 n current v = (.ok parents, v') ∧ Progress retained live v₀ v' gone mine') ∨
      (buildLevel owner 0 n current v).1 = .error .noSpace := by
  induction n generalizing current v mine with
  | zero => exact .inl ⟨[], v, mine, rfl, h⟩
  | succ n ih =>
    rcases h.buildsPage howner (current.take pointersPerPage) (by rw [List.length_take]; exact Nat.min_le_left _ _)
      with ⟨root, u, hpage, hu⟩ | ⟨hnone, -⟩
    · rcases ih (current.drop pointersPerPage) hu with ⟨parents, v', mine', hrest, hv'⟩ | hnone
      · left
        refine ⟨UInt64.ofNat root :: parents, v', mine', ?_, hv'⟩
        rw [buildLevel, bind_of_ok hpage, bind_of_ok hrest]
        rfl
      · right
        rw [buildLevel, bind_of_ok hpage]
        exact fst_bind_error hnone
    · exact .inr (fst_bind_error hnone)

theorem buildPage_second (hv : Serving v) (howner : idIsZero owner = false) (pointers : List UInt64) :
    (buildPage owner 1 pointers v).1 = .error .invalidArgument := by
  rw [buildPage, bind_of_ok (nextGeneration_ok hv.generation), metadataPageInit_ok howner (pageGeneration_ne hv.generation),
    bind_of_ok (by rfl), bind_apply, pageStore, bind_of_ok hv.begin, bind_of_ok (nextGeneration_ok hv.generation),
    finalize_reserved (by exact (by decide : UInt32.ofNat 1 ≠ 0))]
  rfl

/-- One pointer page is built where it is enough. Otherwise the build fails,
but not with CORRUPT. -/
theorem Progress.builds (h : Progress retained live v₀ v gone mine) (howner : idIsZero owner = false) (hne : pointers ≠ [])
    (hlevels : levels pointers.length ≠ 0) :
    (pointers.length ≤ pointersPerPage ∧ ∃ root v', build owner pointers v = (.ok (UInt64.ofNat root, 1), v') ∧
        Progress retained live v₀ v' gone ((root, (leafPage owner (pageGeneration v₀) pointers).block) :: mine)) ∨
      ((build owner pointers v).1 = .error .noSpace ∧
        (pointers.length ≤ pointersPerPage → (clearBlocks v₀.bitmap v₀.total).card ≤ mine.length)) ∨
      (pointersPerPage < pointers.length ∧ (build owner pointers v).1 = .error .invalidArgument) := by
  have hpos := List.length_pos_iff.mpr hne
  have hstart : build owner pointers v =
      (buildLevel owner 0 (parentCount pointers.length) pointers >>= fun parents =>
        if parents.length = 1 then pure (parents.headD 0, 1) else buildLoop owner 2 1 parents) v.tickOn.tickOn := by
    rw [build, if_neg hne, if_neg hlevels, bind_of_ok (allocate_ok h.serving.granted), maxLevels, buildLoop,
      bind_of_ok (allocate_ok h.serving.tickOn.granted)]
    rfl
  rw [hstart]
  by_cases hle : pointers.length ≤ pointersPerPage
  · rw [parentCount_one hpos hle]
    have hlevel : buildLevel owner 0 1 pointers v.tickOn.tickOn =
        (buildPage owner 0 pointers >>= fun parent => pure [parent]) v.tickOn.tickOn := by
      rw [buildLevel, List.take_of_length_le hle]
      rfl
    rcases h.tickOn.tickOn.buildsPage howner pointers hle with ⟨root, v', hpage, hv'⟩ | ⟨hnone, hroom⟩
    · left
      refine ⟨hle, root, v', ?_, hv'⟩
      rw [bind_apply, hlevel, bind_of_ok hpage]
      rfl
    · right
      left
      refine ⟨fst_bind_error ?_, fun _ => hroom⟩
      rw [hlevel]
      exact fst_bind_error hnone
  · have htwo := parentCount_two (Nat.lt_of_not_le hle)
    right
    rcases h.tickOn.tickOn.buildsLevel howner (parentCount pointers.length) pointers with ⟨parents, u, mine', hlevel, hu⟩ | hnone
    · right
      refine ⟨Nat.lt_of_not_le hle, ?_⟩
      have hlength := buildLevel_length owner 0 _ pointers hlevel
      obtain ⟨n, hn⟩ : ∃ n, parentCount parents.length = n + 1 :=
        ⟨_, (Nat.succ_pred_eq_of_pos (parentCount_pos (by omega))).symm⟩
      have hsecond := buildPage_second hu.serving.tickOn howner (parents.take pointersPerPage)
      rw [bind_of_ok hlevel, if_neg (by omega), buildLoop, bind_of_ok (allocate_ok hu.serving.granted), hn, buildLevel]
      exact fst_bind_error (fst_bind_error hsecond)
    · exact .inl ⟨fst_bind_error hnone, fun hfits => absurd hfits hle⟩

end Build

section Head

variable {file : FileHead} {stored : List UInt64} {entries : List Extent}

/-- What a rewrite leaves behind: the head leads to the new pages, and these
hold the extents. -/
structure Rewritten (retained live : Nat → Bool) (v v' : Volume Block) (file file' : FileHead) (gone : List Nat)
    (stored : List UInt64) (groups : List (List Extent)) (count : Nat) : Prop where
  progress : ∃ mine, Progress retained live v v' gone mine ∧ ∀ b, b ∈ mine.map Prod.fst ↔ b ∈ file'.owned stored
  distinct : (file'.owned stored).Nodup
  form : Form v' file' stored
  accepted : ∀ p ∈ stored, pointerAccepted v' p = true
  objectId : file'.objectId = file.objectId
  logicalSize : file'.logicalSize = file.logicalSize
  extentCount : file'.extentCount = count
  length : stored.length = groups.length
  contents : ∀ i (h : i < stored.length) (h' : i < groups.length),
    v'.medium.disk stored[i].toNat = (extentPage file.objectId (pageGeneration v) groups[i]).block

theorem Progress.accepts (h : Progress retained live v₀ v gone mine) {p : UInt64} (hp : p.toNat ∈ mine.map Prod.fst) :
    pointerAccepted v p = true := by
  obtain ⟨hzero, hinside⟩ := h.inside _ hp
  refine pointerAccepted_iff.mpr ⟨?_, by rw [h.total]; exact hinside, h.set_of_mine hp⟩
  rintro rfl
  exact hzero rfl

theorem Progress.newHeads (hgroups : stored.length = (paginate entries).length) (hne : entries ≠ [])
    (hlevels : levels (pagesFor entries) ≠ 0) (howner : idIsZero file.objectId = false)
    (h : Progress retained live v₀ v gone (pageContents file.objectId (pageGeneration v₀) stored (paginate entries))) :
    (∃ file' v', newHead file entries.length stored v = (.ok file', v') ∧
        Rewritten retained live v₀ v' file file' gone stored (paginate entries) entries.length) ∨
      ((newHead file entries.length stored v).1 = .error .noSpace ∧
        (pagesFor entries ≤ pointersPerPage → (clearBlocks v₀.bitmap v₀.total).card ≤ pagesFor entries)) ∨
      (pointersPerPage < pagesFor entries ∧ (newHead file entries.length stored v).1 = .error .invalidArgument) := by
  have hlength : stored.length = pagesFor entries := hgroups.trans (length_paginate entries)
  have hnonempty : stored ≠ [] := by
    rintro rfl
    exact absurd hlength.symm (pagesFor_pos hne).ne'
  have hfst := pageContents_fst file.objectId (pageGeneration v₀) hgroups
  have hcontents {u : Volume Block} {mine : List (Nat × Block)} (hu : Progress retained live v₀ u gone mine)
      (hsub : ∀ p ∈ pageContents file.objectId (pageGeneration v₀) stored (paginate entries), p ∈ mine) (i : Nat)
      (hi : i < stored.length) (hi' : i < (paginate entries).length) :
      u.medium.disk stored[i].toNat = (extentPage file.objectId (pageGeneration v₀) (paginate entries)[i]).block := by
    refine hu.stored (stored[i].toNat, (extentPage file.objectId (pageGeneration v₀) (paginate entries)[i]).block) (hsub _ ?_)
    rw [pageContents, List.mem_iff_getElem]
    refine ⟨i, by rw [List.length_zip, List.length_map, List.length_map]; omega, ?_⟩
    rw [List.getElem_zip, List.getElem_map, List.getElem_map]
  by_cases hle : stored.length ≤ extentPagePointers
  · left
    refine ⟨_, v, by rw [newHead, if_pos hle]; rfl, ?_⟩
    refine ⟨⟨_, h, fun b => by rw [hfst]; rfl⟩, ?_, ?_, fun p hp => ?_, rfl, rfl, rfl, hgroups, hcontents h fun p hp => hp⟩
    · have := h.distinct
      rwa [hfst] at this
    · refine .paged _ rfl rfl rfl rfl hle fun i hi => ?_
      rw [ExtentHead.pointer, List.getD_eq_getElem?_getD, List.getElem?_eq_getElem hi, Option.getD_some]
    · exact h.accepts (by rw [hfst]; exact List.mem_map_of_mem hp)
  · have hrun : newHead file entries.length stored v =
        (build file.objectId stored >>= fun built => pure { file with
          payloadSize := filePayloadBytes + extentHeadBytes + 8
          extentCount := entries.length
          area := .tree ⟨stored.length, built.2, [built.1]⟩ }) v := by
      rw [newHead, if_neg hle]
    rw [hrun]
    rcases h.builds howner hnonempty (by rw [hlength]; exact hlevels) with ⟨hfits, root, v', hbuild, hv'⟩ | ⟨hnone, hroom⟩ |
      ⟨hlarge, hrefused⟩
    · left
      refine ⟨_, v', by rw [bind_of_ok hbuild]; rfl, ?_⟩
      have hroot : (UInt64.ofNat root).toNat = root := toNat_stored hv' List.mem_cons_self
      have haccepted (p : UInt64) (hp : p ∈ stored) : pointerAccepted v' p = true :=
        hv'.accepts (by rw [List.map_cons, hfst]; exact List.mem_cons_of_mem _ (List.mem_map_of_mem hp))
      have hdisk : v'.medium.disk root = (leafPage file.objectId (pageGeneration v') stored).block := by
        rw [hv'.generation_eq]
        exact hv'.stored (root, (leafPage file.objectId (pageGeneration v₀) stored).block) List.mem_cons_self
      have hpointer : ExtentHead.pointer ⟨stored.length, 1, [UInt64.ofNat root]⟩ 0 = UInt64.ofNat root := rfl
      refine ⟨⟨_, hv', fun b => ?_⟩, ?_, ?_, haccepted, rfl, rfl, rfl, hgroups,
        hcontents hv' fun p hp => List.mem_cons_of_mem _ hp⟩
      · rw [List.map_cons, hfst, FileHead.owned]
        simp only [hpointer, hroot]
      · have := hv'.distinct
        rw [List.map_cons, hfst] at this
        rw [FileHead.owned]
        simp only [hpointer, hroot]
        exact this
      · refine .tree _ rfl rfl rfl rfl (Nat.lt_of_not_le hle) ?_ ?_ fun i hi => ?_
        · rw [hpointer]
          exact hv'.accepts (by rw [hroot]; exact List.mem_cons_self)
        · rw [hpointer, hroot, hdisk]
          exact pageValidate_leafPage howner (pageGeneration_ne hv'.serving.generation) hnonempty hfits
            (generationValid_block hv'.serving.generation hv'.serving.active rfl) fun p hp => pointerAccepted_iff.mp (haccepted p hp)
        · rw [hpointer, hroot, hdisk]
          exact pointerAt_leafPage hfits i hi
    · have hcontents := congrArg List.length hfst
      rw [List.length_map, List.length_map, hlength] at hcontents
      rw [hlength, hcontents] at hroom
      exact .inr (.inl ⟨fst_bind_error hnone, hroom⟩)
    · exact .inr (.inr ⟨hlength ▸ hlarge, fst_bind_error hrefused⟩)

end Head

end InfiltratorFS.Paged
