import InfiltratorFS.Extents.Rebuild
import InfiltratorFS.Extents.Operation
import Mathlib.Algebra.Order.BigOperators.Group.List

namespace InfiltratorFS.Paged

open Prog PointerTree

open File (Extent extentsPerPage paginate uint32Max firstBlock lastStop ceilBlocks)

section Accepted

variable {v v' : Volume Block} {lo hi : Nat} {es : List Extent}

section

variable (h : Tiles Extent.segment lo hi es)
include h

theorem firstBlock_of_tiles (hne : es ≠ []) : firstBlock es = lo := by
  cases es with
  | nil => exact absurd rfl hne
  | cons e es => exact h.1

theorem lastStop_of_tiles (hne : es ≠ []) : lastStop es = hi := by
  rcases List.eq_nil_or_concat es with rfl | ⟨front, last, rfl⟩
  · exact absurd rfl hne
  · rw [List.concat_eq_append] at h ⊢
    rw [lastStop, List.getLastD_concat]
    exact (Tiles.concat_iff.mp h).2.2

theorem extentsAccepted_of_placed (hes : ∀ e ∈ es, Placed v e) :
    extentsAccepted v lo es = true := by
  induction es generalizing lo with
  | nil => rfl
  | cons e es ih =>
    obtain ⟨hstart, hpos, hrest⟩ := h
    have he := hes e List.mem_cons_self
    have hstop : (addChecked e.logicalBlock e.blockCount).isSome = true := by
      rw [addChecked, if_pos (show e.logicalBlock + e.blockCount < 2 ^ 64 from he.stop)]
      rfl
    have hstored : (File.extentKind e.flags == File.extentHole || extentStored v e) = true := by
      rw [Bool.or_eq_true, beq_iff_eq]
      exact he.stored
    have hlogical : e.logicalBlock = lo := hstart
    have hrest : extentsAccepted v e.stop es = true := ih hrest fun x hx => hes x (List.mem_cons_of_mem _ hx)
    rw [extentsAccepted, hrest, hstop, he.flags, hstored, hlogical,
      bne_iff_ne.mpr he.positive.ne', beq_self_eq_true]
    rfl

end

theorem placed_of_accepted (hcount : ∀ e ∈ es, e.blockCount ≤ uint32Max) (h : extentsAccepted v lo es = true) :
    (∃ hi, Tiles Extent.segment lo hi es) ∧ ∀ e ∈ es, Placed v e := by
  induction es generalizing lo with
  | nil => exact ⟨⟨lo, rfl⟩, by simp⟩
  | cons e es ih =>
    simp only [extentsAccepted, Bool.and_eq_true, bne_iff_ne, beq_iff_eq, Bool.or_eq_true] at h
    obtain ⟨⟨⟨⟨⟨hpos, hstart⟩, hstop⟩, hflags⟩, hstored⟩, hrest⟩ := h
    obtain ⟨⟨hi, htiles⟩, hplaced⟩ := ih (fun x hx => hcount x (List.mem_cons_of_mem _ hx)) hrest
    have hend : e.stop < 2 ^ 64 := by
      by_contra hnot
      rw [addChecked, if_neg (show ¬e.logicalBlock + e.blockCount < 2 ^ 64 from hnot)] at hstop
      cases hstop
    refine ⟨⟨hi, hstart, Nat.pos_of_ne_zero hpos, htiles⟩, fun x hx => ?_⟩
    rcases List.mem_cons.mp hx with rfl | hx
    · exact ⟨hcount x List.mem_cons_self, hend, hflags, hstored⟩
    · exact hplaced x hx

theorem extentsAccepted_frame (htotal : v'.total = v.total) (hfeatures : v'.sb.incompatFlags = v.sb.incompatFlags) (next : Nat)
    (es : List Extent) : extentsAccepted v' next es = extentsAccepted v next es := by
  induction es generalizing next with
  | nil => rfl
  | cons e es ih => rw [extentsAccepted, extentsAccepted, ih, extentStored, extentStored, htotal, hfeatures]

theorem Placed.frame {e : Extent} (h : Placed v e) (htotal : v'.total = v.total)
    (hfeatures : v'.sb.incompatFlags = v.sb.incompatFlags) : Placed v' e := by
  refine ⟨h.count, h.stop, h.flags, h.stored.imp_right fun hstored => ?_⟩
  rw [extentStored, htotal, hfeatures]
  exact hstored

end Accepted

section RoundTrip

variable {v : Volume Block} {owner : ObjectId} {lo hi : Nat} {group : List Extent}

theorem Placed.physical_lt {e : Extent} (h : Placed v e) : e.physicalBlock < 2 ^ 64 := by
  have htotal : v.total < 2 ^ 64 := v.sb.totalBlocks.toNat_lt
  rcases h.stored with hhole | hstored
  · rcases flags_cases h.flags with ⟨-, hzero⟩ | ⟨hnormal, -⟩ | ⟨-, hnormal, -⟩
    · omega
    · rw [hnormal] at hhole
      exact absurd hhole (by decide)
    · rw [hnormal] at hhole
      exact absurd hhole (by decide)
  · simp only [extentStored, Bool.and_eq_true, decide_eq_true_eq] at hstored
    omega

theorem recordExtent_extentRecord {e : Extent} (h : Placed v e) : recordExtent (extentRecord e) = e := by
  have hcount := h.count
  have hstop := h.stop
  have hphysical := h.physical_lt
  rw [uint32Max] at hcount
  rw [Extent.stop] at hstop
  have hl : (UInt64.ofNat e.logicalBlock).toNat = e.logicalBlock := UInt64.toNat_ofNat_of_lt' (by rw [UInt64.size]; omega)
  have hp : (UInt64.ofNat e.physicalBlock).toNat = e.physicalBlock := UInt64.toNat_ofNat_of_lt' hphysical
  have hc : (UInt32.ofNat e.blockCount).toNat = e.blockCount := UInt32.toNat_ofNat_of_lt' (by rw [UInt32.size]; omega)
  simp only [recordExtent, extentRecord, hl, hp, hc]

theorem extentPageValidate_extentPage (hv : Serving v) (howner : idIsZero owner = false) (hne : group ≠ [])
    (hle : group.length ≤ extentsPerPage) (htiles : Tiles Extent.segment lo hi group) (hgroup : ∀ e ∈ group, Placed v e) :
    extentPageValidate v (extentPage owner (pageGeneration v) group).block owner = .ok group := by
  have hvalid : validateMetadataPage (extentPage owner (pageGeneration v) group).block extentPageMagic owner = true :=
    (validate_finalized (finalize_extentPage hle howner (pageGeneration_ne hv.generation))).2
  have hgeneration : generationValid v (extentPage owner (pageGeneration v) group).block = true :=
    generationValid_block hv.generation hv.active rfl
  have hcount := entryCount_extentPage owner (pageGeneration v) hle
  have hused := bytesUsed_extentPage owner (pageGeneration v) hle
  have hpositive : group.length ≠ 0 := fun hzero => hne (List.length_eq_zero_iff.mp hzero)
  have hentries := getList_extentPage owner (pageGeneration v) hle fun e he => recordExtent_extentRecord (hgroup e he)
  have haccepted : extentsAccepted v (firstBlock group) group = true := by
    rw [firstBlock_of_tiles htiles hne]
    exact extentsAccepted_of_placed htiles hgroup
  rw [extentPageValidate, MetadataPage.get_block, hcount, hused, hentries, if_neg (by simp [hvalid, hgeneration]),
    if_neg (by simp [hpositive, hle]), if_pos haccepted]

theorem extentPageValidate_ok {block : Block} (h : extentPageValidate v block owner = .ok group) :
    group ≠ [] ∧ group.length ≤ extentsPerPage ∧ (∃ hi, Tiles Extent.segment (firstBlock group) hi group) ∧
      ∀ e ∈ group, Placed v e := by
  rw [extentPageValidate] at h
  simp only at h
  obtain ⟨-, h⟩ := except_guard_eq_ok.mp h
  obtain ⟨hshape, h⟩ := except_guard_eq_ok.mp h
  split at h
  · rename_i haccepted
    injection h with hgroup
    rw [hgroup] at haccepted
    have hlength : group.length = (pageLayout.get block.bytes).entryCount.toNat := by
      rw [← hgroup, List.length_map, Layout.getList, List.length_map, List.length_range]
    refine ⟨fun hnil => hshape (.inl ?_), ?_, placed_of_accepted (fun e he => ?_) haccepted⟩
    · rw [← hlength, hnil]
      rfl
    · rw [hlength]
      exact Nat.le_of_not_lt fun hmore => hshape (.inr (.inl hmore))
    · rw [← hgroup] at he
      obtain ⟨r, -, rfl⟩ := List.mem_map.mp he
      have := r.2.2.1.toNat_lt
      show r.2.2.1.toNat ≤ uint32Max
      rw [uint32Max]
      omega
  · cases h

end RoundTrip

section Loop

variable {v v' u : Volume Block} {file : FileHead} {pages : List UInt64} {i k next : Nat}

theorem Ticked.total (h : Ticked v u) : u.total = v.total := by
  obtain ⟨t, -, rfl⟩ := h
  rfl

theorem Ticked.extentPageValidate_eq (h : Ticked v u) (block : Block) (owner : ObjectId) :
    extentPageValidate u block owner = extentPageValidate v block owner := by
  obtain ⟨t, -, rfl⟩ := h
  have hframe : ∀ next es, extentsAccepted { v with medium.tick := t } next es = extentsAccepted v next es :=
    extentsAccepted_frame rfl rfl
  rw [extentPageValidate, extentPageValidate]
  simp only [hframe]
  rfl

theorem Ticked.disk (h : Ticked v u) : u.medium.disk = v.medium.disk := by
  obtain ⟨t, -, rfl⟩ := h
  rfl

variable (h : Laid v file pages)
include h

theorem Laid.pageBlock (hv : Serving v) (hi : i < pages.length) :
    ∃ u, Ticked v u ∧ pageBlock file i v = (.ok pages[i], u) := by
  cases h.form with
  | paged head harea hcount hreserved hpayload hle hpointers =>
    refine ⟨v, .refl v, ?_⟩
    simp only [Paged.pageBlock, harea]
    rw [if_neg (by omega), hpointers i hi]
    rfl
  | tree head harea hcount hreserved hpayload hlarge hroot hpage hpointers =>
    refine ⟨v.tickOn, .next v, ?_⟩
    simp only [Paged.pageBlock, harea]
    rw [if_neg (by omega), hreserved, resolve_one hv (pointerAccepted_iff.mp hroot).2.1 hpage, if_neg (by omega), hpointers i hi]

theorem Laid.snapshotLoop_cons (hv : Serving v) (hi : i < pages.length) (is : List Nat) (next : Nat)
    (all : List Extent) :
    ∃ u, Ticked v u ∧ snapshotLoop file (i :: is) next all v =
      (do
        let entries ← ofExcept (extentPageValidate v (v.medium.disk pages[i].toNat) file.objectId)
        if file.extentCount - all.length < entries.length ∨ firstBlock entries ≠ next then fail .corrupt
        else snapshotLoop file is (lastStop entries) (all ++ entries)) u := by
  obtain ⟨u, hu, hblock⟩ := h.pageBlock hv hi
  have hin : pages[i].toNat < u.total := by
    rw [hu.total]
    exact (pointerAccepted_iff.mp (h.accepted _ (List.getElem_mem hi))).2.1
  have hnext := hu.trans (.next u)
  refine ⟨u.tickOn, hnext, ?_⟩
  rw [snapshotLoop, bind_of_ok hblock, bind_of_ok ((hu.serving hv).readBlock hin), bind_of_ok (get_apply _),
    hnext.extentPageValidate_eq, hu.disk]

theorem Laid.snapshotLoop_sound (hv : Serving v) {m : Nat} (hlength : k + m = pages.length)
    {all : List Extent} {found : List Extent × Nat}
    (hrun : snapshotLoop file (List.range' k m) next all v = (.ok found, v')) :
    Ticked v v' ∧ ∃ groups : List (List Extent), groups.length = m ∧
      (∀ i (hi : k + i < pages.length) (hi' : i < groups.length),
        extentPageValidate v (v.medium.disk pages[k + i].toNat) file.objectId = .ok groups[i]) ∧
      found.1 = all ++ groups.flatten ∧ Tiles Extent.segment next found.2 groups.flatten := by
  induction m generalizing v k next all with
  | zero =>
    cases hrun
    exact ⟨.refl _, [], rfl, by simp, (List.append_nil _).symm, rfl⟩
  | succ m ih =>
    have hin : k < pages.length := by omega
    obtain ⟨u, hu, hturn⟩ := h.snapshotLoop_cons hv hin (List.range' (k + 1) m) next all
    rw [List.range'_succ, hturn, bind_eq_ok] at hrun
    obtain ⟨entries, w, hentries, hrun⟩ := hrun
    rw [ofExcept_apply, Prod.mk.injEq] at hentries
    obtain ⟨hentries, rfl⟩ := hentries
    obtain ⟨hne, -, ⟨hi, htiles⟩, -⟩ := extentPageValidate_ok hentries
    obtain ⟨hchecks, hrun⟩ := guard_eq_ok.mp hrun
    rw [not_or, not_not] at hchecks
    obtain ⟨hticked, groups, hgroups, hreads, hfound, hrest⟩ := ih (h.ticked hu) (hu.serving hv) (by omega) hrun
    rw [lastStop_of_tiles htiles hne] at hrest
    rw [hchecks.2] at htiles
    refine ⟨hu.trans hticked, entries :: groups, by rw [List.length_cons, hgroups], fun i hi hi' => ?_, ?_, ?_⟩
    · cases i with
      | zero => exact hentries
      | succ i =>
        have hindex : k + 1 + i = k + (i + 1) := by omega
        have hread := hreads i (by omega) (Nat.lt_of_succ_lt_succ hi')
        rw [hu.extentPageValidate_eq, hu.disk] at hread
        simp only [hindex] at hread
        exact hread
    · rw [hfound, List.flatten_cons, List.append_assoc]
    · rw [List.flatten_cons]
      exact Tiles.append_iff.mpr ⟨hi, htiles, hrest⟩

theorem Laid.snapshotLoop_ok (hv : Serving v) {groups : List (List Extent)}
    (hlength : k + groups.length = pages.length)
    (hpages : ∀ i (hi : k + i < pages.length) (hi' : i < groups.length),
      extentPageValidate v (v.medium.disk pages[k + i].toNat) file.objectId = .ok groups[i])
    {hi : Nat} {all : List Extent} (htiles : Tiles Extent.segment next hi groups.flatten)
    (hcount : all.length + groups.flatten.length ≤ file.extentCount) :
    ∃ u, Ticked v u ∧
      snapshotLoop file (List.range' k groups.length) next all v = (.ok (all ++ groups.flatten, hi), u) := by
  induction groups generalizing v k next all with
  | nil =>
    rw [List.flatten_nil, Tiles.nil_iff] at htiles
    refine ⟨v, .refl v, ?_⟩
    rw [List.flatten_nil, List.append_nil, ← htiles]
    rfl
  | cons group groups ih =>
    rw [List.length_cons] at hlength
    have hin : k < pages.length := by omega
    have hgroup := hpages 0 hin (Nat.succ_pos _)
    have hne := (extentPageValidate_ok hgroup).1
    rw [List.flatten_cons] at htiles hcount
    obtain ⟨mid, hhere, hrest⟩ := Tiles.append_iff.mp htiles
    rw [List.length_append] at hcount
    obtain ⟨u, hu, hturn⟩ := h.snapshotLoop_cons hv hin (List.range' (k + 1) groups.length) next all
    have hchecks : ¬(file.extentCount - all.length < group.length ∨ firstBlock group ≠ next) := by
      rw [firstBlock_of_tiles hhere hne]
      omega
    have hlater : ∀ i (hi : k + 1 + i < pages.length) (hi' : i < groups.length),
        extentPageValidate u (u.medium.disk pages[k + 1 + i].toNat) file.objectId = .ok groups[i] := by
      intro i hi hi'
      have hpage := hpages (i + 1) (by omega) (Nat.succ_lt_succ hi')
      have hindex : k + (i + 1) = k + 1 + i := by omega
      simp only [hindex, List.getElem_cons_succ] at hpage
      rw [hu.extentPageValidate_eq, hu.disk]
      exact hpage
    obtain ⟨w, hw, hloop⟩ := ih (h.ticked hu) (hu.serving hv) (by omega) hlater hrest
      (show (all ++ group).length + groups.flatten.length ≤ file.extentCount by rw [List.length_append]; omega)
    refine ⟨w, hu.trans hw, ?_⟩
    rw [List.length_cons, List.range'_succ, hturn]
    have hgroup' : extentPageValidate v (v.medium.disk pages[k].toNat) file.objectId = .ok group := hgroup
    rw [hgroup', ofExcept_ok, pure_bind, if_neg hchecks, lastStop_of_tiles hhere hne, hloop, List.flatten_cons,
      List.append_assoc]

end Loop

section Filled

variable {retained live live' : Nat → Bool} {v v' : Volume Block} {file file' : FileHead} {pages stored : List UInt64}
  {groups : List (List Extent)} {es : List Extent}

structure Filled (v : Volume Block) (file : FileHead) (pages : List UInt64) (groups : List (List Extent)) : Prop where
  length : groups.length = pages.length
  reads : ∀ i (hi : i < pages.length) (hi' : i < groups.length),
    extentPageValidate v (v.medium.disk pages[i].toNat) file.objectId = .ok groups[i]
  tiled : File.Tiled (ceilBlocks file.logicalSize) groups.flatten
  count : groups.flatten.length = file.extentCount

theorem Filled.placed (h : Filled v file pages groups) : ∀ e ∈ groups.flatten, Placed v e := by
  intro e he
  obtain ⟨group, hgroup, he⟩ := List.mem_flatten.mp he
  obtain ⟨i, hi, rfl⟩ := List.mem_iff_getElem.mp hgroup
  exact (extentPageValidate_ok (h.reads i (by rw [← h.length]; exact hi) hi)).2.2.2 e he

theorem length_flatten_le {n : Nat} (hgroups : ∀ group ∈ groups, group.length ≤ n) : groups.flatten.length ≤ groups.length * n := by
  rw [List.length_flatten]
  have hsum := List.sum_le_card_nsmul (groups.map List.length) n fun x hx => by
    obtain ⟨group, hgroup, rfl⟩ := List.mem_map.mp hx
    exact hgroups group hgroup
  rw [List.length_map] at hsum
  exact hsum

theorem Filled.length_le (h : Filled v file pages groups) (hs : Standing retained live v file pages) :
    groups.flatten.length ≤ pointersPerPage * extentsPerPage := by
  have hle : groups.flatten.length ≤ groups.length * extentsPerPage := length_flatten_le fun group hgroup => by
    obtain ⟨i, hi, rfl⟩ := List.mem_iff_getElem.mp hgroup
    exact (extentPageValidate_ok (h.reads i (by rw [← h.length]; exact hi) hi)).2.1
  refine hle.trans (Nat.mul_le_mul_right _ ?_)
  rw [h.length]
  exact hs.fits

theorem extentPageValidate_frame (htotal : v'.total = v.total) (hfeatures : v'.sb.incompatFlags = v.sb.incompatFlags)
    (hactive : v'.tx.active = v.tx.active) (hbase : v'.tx.baseSb = v.tx.baseSb) (hopen : v.tx.active = true) (block : Block)
    (owner : ObjectId) : extentPageValidate v' block owner = extentPageValidate v block owner := by
  have hgeneration : generationValid v' block = generationValid v block := by
    rw [generationValid, generationValid, hactive, hbase, hopen]
    rfl
  rw [extentPageValidate, extentPageValidate, hgeneration]
  simp only [extentsAccepted_frame htotal hfeatures]

theorem Elsewhere.filled (h : Elsewhere retained (file.owned pages) v v' live') (hv : Serving v)
    (hfilled : Filled v file pages groups) : Filled v' file pages groups := by
  refine ⟨hfilled.length, fun i hi hi' => ?_, hfilled.tiled, hfilled.count⟩
  rw [h.disk _ (mem_owned_of_page (List.getElem_mem hi)), extentPageValidate_frame h.total h.features
    (h.serving.active.trans hv.active.symm) h.baseSb hv.active]
  exact hfilled.reads i hi hi'

theorem tiles_of_mem_flatten {lo hi : Nat} (h : Tiles Extent.segment lo hi groups.flatten) {group : List Extent}
    (hgroup : group ∈ groups) : ∃ lo hi, Tiles Extent.segment lo hi group := by
  obtain ⟨front, back, rfl⟩ := List.append_of_mem hgroup
  rw [List.flatten_append, List.flatten_cons] at h
  obtain ⟨lo', -, h⟩ := Tiles.append_iff.mp h
  obtain ⟨hi', h, -⟩ := Tiles.append_iff.mp h
  exact ⟨lo', hi', h⟩

theorem Rewritten.filled {gone : List Nat}
    (h : Rewritten retained live v v' file file' gone stored (paginate es) es.length)
    (howner : idIsZero file.objectId = false) (htiled : File.Tiled (ceilBlocks file.logicalSize) es)
    (hes : ∀ e ∈ es, Placed v e) : Filled v' file' stored (paginate es) := by
  obtain ⟨mine, hprogress, -⟩ := h.progress
  obtain ⟨free, hsb⟩ := hprogress.context.superblock
  have hflat := File.paginate_flatten es
  refine ⟨h.length.symm, fun i hi hi' => ?_, by rw [hflat, h.logicalSize]; exact htiled, by rw [hflat, h.extentCount]⟩
  have hmem : (paginate es)[i] ∈ paginate es := List.getElem_mem hi'
  obtain ⟨hne, hle⟩ := mem_paginate hmem
  obtain ⟨lo, hi, htiles⟩ := tiles_of_mem_flatten (by rw [hflat]; exact htiled) hmem
  rw [h.contents i _ hi', h.objectId, ← hprogress.generation_eq]
  refine extentPageValidate_extentPage hprogress.serving howner hne hle htiles fun e he => ?_
  refine (hes e ?_).frame hprogress.total (by rw [hsb])
  rw [← hflat]
  exact List.mem_flatten.mpr ⟨_, hmem, he⟩

variable (h : Standing retained live v file pages)
include h

theorem Standing.snapshot_start :
    ∃ u, Ticked v u ∧ pagedExtentSnapshot file v =
      (do
        let found ← snapshotLoop file (List.range' 0 pages.length) 0 []
        if found.1.length ≠ file.extentCount ∨ found.2 ≠ ceilBlocks file.logicalSize then fail .corrupt
        else pure found.1) u := by
  have hlaid := h.valid.laid h.serving
  obtain ⟨u, hu, hhead⟩ := hlaid.headValidate h.serving
  refine ⟨u.tickOn, hu.trans (.next u), ?_⟩
  rw [pagedExtentSnapshot, bind_of_ok hhead, bind_of_ok (allocate_ok (hu.serving h.serving).granted), hlaid.pageCount,
    List.range_eq_range']

theorem Standing.snapshot_filled (hfilled : Filled v file pages groups) :
    ∃ u, Ticked v u ∧ pagedExtentSnapshot file v = (.ok groups.flatten, u) := by
  obtain ⟨u, hu, hstart⟩ := h.snapshot_start
  obtain ⟨w, hw, hloop⟩ := ((h.valid.laid h.serving).ticked hu).snapshotLoop_ok (hu.serving h.serving) (k := 0)
    (by rw [hfilled.length, Nat.zero_add]) (fun i hi hi' => by
      rw [hu.extentPageValidate_eq, hu.disk]
      simpa only [Nat.zero_add] using hfilled.reads i (by omega) hi')
    hfilled.tiled (show [].length + groups.flatten.length ≤ file.extentCount by
      rw [hfilled.count, List.length_nil, Nat.zero_add])
  rw [hfilled.length] at hloop
  refine ⟨w, hu.trans hw, ?_⟩
  rw [hstart, bind_of_ok hloop, List.nil_append, if_neg (by simp [hfilled.count])]
  rfl

theorem Standing.snapshot_iff :
    (pagedExtentSnapshot file v).1 = .ok es ↔ ∃ groups, Filled v file pages groups ∧ groups.flatten = es := by
  constructor
  · intro hok
    obtain ⟨u, hu, hstart⟩ := h.snapshot_start
    rw [hstart] at hok
    obtain ⟨found, hloop, hrun⟩ := fst_bind_ok hok
    obtain ⟨-, groups, hlength, hreads, hfound, htiles⟩ :=
      ((h.valid.laid h.serving).ticked hu).snapshotLoop_sound (hu.serving h.serving) (Nat.zero_add _) (Prod.ext hloop rfl)
    rw [List.nil_append] at hfound
    split at hrun
    · cases hrun
    · rename_i hchecks
      rw [not_or, not_not, not_not, hfound] at hchecks
      rw [pure_apply, Except.ok.injEq] at hrun
      rw [hchecks.2] at htiles
      refine ⟨groups, ⟨hlength, fun i hi hi' => ?_, htiles, hchecks.1⟩, hfound.symm.trans hrun⟩
      have hread := hreads i (by omega) hi'
      rw [hu.extentPageValidate_eq, hu.disk] at hread
      simpa only [Nat.zero_add] using hread
  · rintro ⟨groups, hfilled, rfl⟩
    obtain ⟨u, -, hrun⟩ := h.snapshot_filled hfilled
    rw [hrun]

end Filled

end InfiltratorFS.Paged
