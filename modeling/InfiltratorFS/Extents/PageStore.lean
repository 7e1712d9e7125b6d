import InfiltratorFS.Extents.Progress

namespace InfiltratorFS.Paged

open Prog Segment PointerTree

open File (Extent extentsPerPage)

variable {retained live : Nat → Bool} {v₀ v : Volume Block} {gone : List Nat} {mine : List (Nat × Block)}

section Order

structure Held (live : Nat → Bool) (v₀ : Volume Block) (gone : List Nat) (b : Nat) : Prop where
  nonzero : b ≠ 0
  inside : b < v₀.total
  live : live b = true
  kept : b ∉ gone
  set : v₀.bitmap b = true

/-- The first blocks of a list are given up. The others are still held. -/
theorem Held.drop {old : List UInt64} (h : ∀ p ∈ old, Held live v₀ gone p.toNat) (hdistinct : (old.map UInt64.toNat).Nodup) (n : Nat) :
    ∀ p ∈ old.drop n, Held live v₀ ((old.take n).map UInt64.toNat ++ gone) p.toNat := by
  intro p hp
  have hheld := h p (List.mem_of_mem_drop hp)
  refine { hheld with kept := fun hmem => ?_ }
  rw [← List.take_append_drop n old, List.map_append, List.nodup_append] at hdistinct
  rcases List.mem_append.mp hmem with hmem | hmem
  · exact hdistinct.2.2 _ hmem _ (List.mem_map_of_mem hp) rfl
  · exact hheld.kept hmem

variable (h : Progress retained live v₀ v gone mine)
include h

theorem Progress.perm {gone' : List Nat} {mine' : List (Nat × Block)}
    (hgone : ∀ b, b ∈ gone' ↔ b ∈ gone) (hmine : mine'.Perm mine) : Progress retained live v₀ v gone' mine' := by
  have hfst : (mine'.map Prod.fst).Perm (mine.map Prod.fst) := hmine.map _
  exact
    { h with
      accounts := accounts_congr h.accounts fun b => by rw [exchanged_iff, exchanged_iff, hgone, hfst.mem_iff]
      disk := fun b hb hnot => h.disk b hb fun hmem => hnot ((hgone b).mpr hmem)
      stored := fun p hp => h.stored p (hmine.mem_iff.mp hp)
      distinct := hfst.nodup_iff.mpr h.distinct
      fresh := fun b hb hlive => (hgone b).mpr (h.fresh b (hfst.mem_iff.mp hb) hlive)
      inside := fun b hb => h.inside b (hfst.mem_iff.mp hb)
      own := fun b hb => h.own b (hfst.mem_iff.mp hb)
      times := fun b => by simp only [h.times, hgone]
      room := by rw [hmine.length_eq]; exact h.room }

theorem Progress.set_of_mine {b : Nat} (hb : b ∈ mine.map Prod.fst) :
    v.bitmap b = true :=
  (h.accounts.set_iff b (by rw [h.total]; exact (h.inside b hb).2)).mpr (.inl (exchanged_iff.mpr (.inr hb)))

theorem Progress.generation_eq : pageGeneration v = pageGeneration v₀ := by
  rw [pageGeneration, h.context.baseSb, pageGeneration]

theorem Progress.set_of_held {b : Nat} (hb : Held live v₀ gone b) : v.bitmap b = true :=
  (h.accounts.set_iff b (by rw [h.total]; exact hb.inside)).mpr (.inl (exchanged_iff.mpr (.inl ⟨hb.live, hb.kept⟩)))

end Order

section Free

theorem Progress.freesBlock (h : Progress retained live v₀ v gone mine) {p : UInt64} (hp : Held live v₀ gone p.toNat) :
    ∃ v', freeBlock p v = (.ok (), v') ∧ Progress retained live v₀ v' (p.toNat :: gone) mine := by
  obtain ⟨v', hrun, hfreed⟩ := freeRun_once h.serving.toOpenTx h.serving.granted (by rw [h.total]; exact hp.inside)
    (h.set_of_held hp)
  have hprogress := h.free hp.nonzero hp.live hp.kept hp.set hfreed
  exact ⟨v', by rw [freeBlock, bind_of_ok hrun, checkTxError_ok hprogress.serving.error], hprogress⟩

theorem Progress.freesBlocks (blocks : List UInt64) (h : Progress retained live v₀ v gone mine)
    (hheld : ∀ p ∈ blocks, Held live v₀ gone p.toNat) (hdistinct : (blocks.map UInt64.toNat).Nodup) :
    ∃ v', freeBlocks blocks v = (.ok (), v') ∧ Progress retained live v₀ v' (blocks.map UInt64.toNat ++ gone) mine := by
  induction blocks generalizing v gone with
  | nil => exact ⟨v, rfl, h⟩
  | cons p blocks ih =>
    obtain ⟨u, hfree, hu⟩ := h.freesBlock (hheld p List.mem_cons_self)
    obtain ⟨v', hrest, hv'⟩ := ih hu (Held.drop hheld hdistinct 1) (List.nodup_cons.mp hdistinct).2
    refine ⟨v', by rw [freeBlocks, bind_of_ok hfree, hrest], hv'.perm (fun b => ?_) (List.Perm.refl _)⟩
    simp only [List.map_cons, List.cons_append, List.mem_cons, List.mem_append]
    tauto

end Free

section Store

theorem finalize_generation {page : MetadataPage} {generation : UInt64} {block : Block}
    (h : metadataPageFinalize { page with header.generation := generation } = .ok block) :
    ofExcept (metadataPageFinalize { page with header.generation := generation }) v = (.ok block, v) := by
  rw [h]
  rfl

theorem Progress.storesNew (h : Progress retained live v₀ v gone mine) (page : MetadataPage) {block : Block}
    (hfinal : metadataPageFinalize { page with header.generation := pageGeneration v₀ } = .ok block) {old : Nat}
    (hold : old = 0 ∨ (Held live v₀ gone old ∧ txBlockPrivate v₀ old = false)) :
    (∃ new v', pageStore old page v = (.ok new, v') ∧
        Progress retained live v₀ v' (if old = 0 then gone else old :: gone) ((new, block) :: mine)) ∨
      ((pageStore old page v).1 = .error .noSpace ∧ clearBlocks v.bitmap v.total = ∅) := by
  rw [← h.generation_eq] at hfinal
  have hprivate : ¬(old ≠ 0 ∧ old < v.total ∧ txBlockPrivate v old = true) := by
    rintro ⟨hne, -, hp⟩
    rcases hold with rfl | ⟨hheld, hnot⟩
    · exact hne rfl
    · rw [h.private_eq old hheld.set, hnot] at hp
      cases hp
  rw [pageStore, bind_of_ok h.serving.begin, bind_of_ok (nextGeneration_ok h.serving.generation),
    bind_of_ok (finalize_generation hfinal), bind_of_ok (get_apply v), if_neg hprivate]
  rcases allocRun_outcome h.serving.toOpenTx h.serving.granted h.serving.zero h.serving.counted with
    ⟨start, u, halloc, htook⟩ | ⟨hnone, hempty⟩
  · have hu := h.take htook
    have hwrite := hu.serving.writeBlock (by rw [hu.total, ← h.total]; exact htook.inside) block
    have hw := hu.write block
    left
    rw [bind_of_ok halloc, if_neg (by simp), bind_apply, attempt_apply, hwrite]
    rcases hold with rfl | ⟨hheld, -⟩
    · refine ⟨start, _, ?_, hw⟩
      simp only [ne_eq, not_true_eq_false, if_false]
      rw [bind_of_ok (by rfl), bind_of_ok (checkTxError_ok hw.serving.error)]
      rfl
    · obtain ⟨w, hfree, hfreed⟩ := freeRun_once hw.serving.toOpenTx hw.serving.granted (by rw [hw.total]; exact hheld.inside)
        (hw.set_of_held hheld)
      have hprogress := hw.free hheld.nonzero hheld.live hheld.kept hheld.set hfreed
      refine ⟨start, w, ?_, ?_⟩
      · simp only [ne_eq, hheld.nonzero, not_false_eq_true, if_true]
        rw [bind_of_ok hfree, bind_of_ok (checkTxError_ok hprogress.serving.error)]
        rfl
      · rw [if_neg hheld.nonzero]
        exact hprogress
  · exact .inr ⟨by rw [bind_of_error hnone], hempty⟩

theorem Progress.storesPage (h : Progress retained live v₀ v gone mine) (page : MetadataPage) {block : Block}
    (hfinal : metadataPageFinalize { page with header.generation := pageGeneration v₀ } = .ok block) (old : List UInt64)
    (hheld : ∀ p ∈ old, Held live v₀ gone p.toNat) :
    (∃ new v', pageStore (old.headD 0).toNat page v = (.ok new, v') ∧
        (∀ p ∈ old.take 1, txBlockPrivate v₀ p.toNat = true → p.toNat = new) ∧
        Progress retained live v₀ v' ((old.take 1).map UInt64.toNat ++ gone) ((new, block) :: mine)) ∨
      ((pageStore (old.headD 0).toNat page v).1 = .error .noSpace ∧ clearBlocks v.bitmap v.total = ∅) := by
  cases old with
  | nil =>
    rcases h.storesNew page hfinal (.inl rfl) with ⟨new, v', hrun, hprogress⟩ | hnone
    · exact .inl ⟨new, v', hrun, by simp, hprogress⟩
    · exact .inr hnone
  | cons p old =>
    have hp := hheld p List.mem_cons_self
    cases hprivate : txBlockPrivate v₀ p.toNat with
    | true =>
      have hadopt := h.adopt ⟨hp.nonzero, hp.inside⟩ hp.live hp.kept hp.set hprivate
      have hwrite := hadopt.serving.writeBlock (by rw [hadopt.total]; exact hp.inside) block
      refine .inl ⟨p.toNat, _, ?_, by simp, hadopt.write block⟩
      have hown : p.toNat ≠ 0 ∧ p.toNat < v.total ∧ txBlockPrivate v p.toNat = true :=
        ⟨hp.nonzero, by rw [h.total]; exact hp.inside, (h.private_eq _ hp.set).trans hprivate⟩
      rw [← h.generation_eq] at hfinal
      rw [List.headD_cons, pageStore, bind_of_ok h.serving.begin, bind_of_ok (nextGeneration_ok h.serving.generation),
        bind_of_ok (finalize_generation hfinal), bind_of_ok (get_apply v), if_pos hown, bind_of_ok hwrite]
      rfl
    | false =>
      rcases h.storesNew page hfinal (.inr ⟨hp, hprivate⟩) with ⟨new, v', hrun, hprogress⟩ | hnone
      · rw [if_neg hp.nonzero] at hprogress
        exact .inl ⟨new, v', hrun, by simp [hprivate], hprogress⟩
      · exact .inr hnone

end Store

section ExtentPages

def extentPage (owner : ObjectId) (generation : UInt64) (entries : List Extent) : MetadataPage :=
  fillExtents (emptyPage extentPageMagic owner generation) entries

variable (owner : ObjectId) (generation : UInt64) {entries : List Extent}

section

variable (hle : entries.length ≤ extentsPerPage)

include hle

theorem extentPage_fits : entries.length * 24 ≤ pageDataBytes :=
  (Nat.mul_le_mul_right 24 hle).trans (by decide)

theorem bytesUsed_extentPage :
    (extentPage owner generation entries).header.bytesUsed.toNat = entries.length * 24 :=
  bytesUsed_fill (extentPage_fits hle)

theorem entryCount_extentPage :
    (extentPage owner generation entries).header.entryCount.toNat = entries.length :=
  entryCount_fill (extentPage_fits hle) (by decide)

theorem getList_extentPage
    (hentries : ∀ e ∈ entries, recordExtent (extentRecord e) = e) :
    (extentLayout.getList entries.length ((extentPage owner generation entries).block.bytes.drop pageHeaderBytes)).map
      recordExtent = entries := by
  have hbytes : (extentLayout.putList (entries.map extentRecord)).length = entries.length * 24 := by
    rw [Layout.length_putList, List.length_map, Nat.mul_comm]
    rfl
  have hlength : entries.length = (entries.map extentRecord).length := (List.length_map _).symm
  rw [extentPage, fillExtents, drop_header_fill (extentPage_fits hle) hbytes, hlength, Layout.getList_putList, List.map_map]
  exact (List.map_congr_left hentries).trans (List.map_id _)

variable {owner generation} in
theorem finalize_extentPage (howner : idIsZero owner = false) (hgeneration : generation ≠ 0) :
    metadataPageFinalize (extentPage owner generation entries) = .ok (extentPage owner generation entries).block :=
  finalize_fill (extentPage_fits hle) (by decide) howner hgeneration

end

variable {owner} in
theorem Serving.encodesPage (h : Serving v) (howner : idIsZero owner = false) (hne : entries ≠ [])
    (hle : entries.length ≤ extentsPerPage) :
    extentPageEncode owner entries v = (.ok (extentPage owner (pageGeneration v) entries), v) := by
  rw [extentPageEncode, if_neg (by rw [not_or, Nat.not_lt]; exact ⟨hne, hle⟩), bind_of_ok (nextGeneration_ok h.generation),
    metadataPageInit_ok howner (pageGeneration_ne h.generation), bind_of_ok (by rfl)]
  rfl

def pageContents (owner : ObjectId) (generation : UInt64) (stored : List UInt64) (groups : List (List Extent)) :
    List (Nat × Block) :=
  (stored.map UInt64.toNat).zip (groups.map fun entries => (extentPage owner generation entries).block)

theorem pageContents_fst {stored : List UInt64} {groups : List (List Extent)} (h : stored.length = groups.length) :
    (pageContents owner generation stored groups).map Prod.fst = stored.map UInt64.toNat := by
  rw [pageContents, List.map_fst_zip]
  rw [List.length_map, List.length_map, h]

omit owner generation in
theorem toNat_stored (h : Progress retained live v₀ v gone mine) {new : Nat} (hnew : new ∈ mine.map Prod.fst) :
    (UInt64.ofNat new).toNat = new := by
  have hin := (h.inside new hnew).2
  have htotal : v₀.total < 2 ^ 64 := v₀.sb.totalBlocks.toNat_lt
  exact UInt64.toNat_ofNat_of_lt' (by rw [UInt64.size]; omega)

variable {owner} in
theorem Progress.storesPages (howner : idIsZero owner = false) (groups : List (List Extent)) (old : List UInt64)
    (hgroups : ∀ entries ∈ groups, entries ≠ [] ∧ entries.length ≤ extentsPerPage)
    (h : Progress retained live v₀ v gone mine) (hheld : ∀ p ∈ old, Held live v₀ gone p.toNat)
    (hdistinct : (old.map UInt64.toNat).Nodup) :
    (∃ stored v', storePages owner old groups v = (.ok stored, v') ∧ stored.length = groups.length ∧
        (∀ p ∈ old.take groups.length, txBlockPrivate v₀ p.toNat = true → p ∈ stored) ∧
        Progress retained live v₀ v' ((old.take groups.length).map UInt64.toNat ++ gone)
          (pageContents owner (pageGeneration v₀) stored groups ++ mine)) ∨
      ((storePages owner old groups v).1 = .error .noSpace ∧
        (clearBlocks v₀.bitmap v₀.total).card < mine.length + groups.length) := by
  induction groups generalizing v gone mine old with
  | nil => exact .inl ⟨[], v, rfl, rfl, by simp, by simpa [pageContents] using h⟩
  | cons entries groups ih =>
    obtain ⟨hne, hle⟩ := hgroups entries List.mem_cons_self
    have hencode := h.serving.encodesPage howner hne hle
    rw [h.generation_eq] at hencode
    have hgeneration : pageGeneration v₀ ≠ 0 := by
      rw [← h.generation_eq]
      exact pageGeneration_ne h.serving.generation
    have hfinal := finalize_extentPage hle howner hgeneration
    rcases h.storesPage (extentPage owner (pageGeneration v₀) entries) hfinal old hheld with
      ⟨new, u, hstore, hsame, hu⟩ | ⟨hnone, hempty⟩
    · have hnew := toNat_stored hu (List.mem_cons_self (a := new))
      have htake : old.take (groups.length + 1) = old.take 1 ++ old.tail.take groups.length := by cases old <;> simp
      rcases ih old.tail (fun e he => hgroups e (List.mem_cons_of_mem _ he)) hu
          (fun p hp => Held.drop hheld hdistinct 1 p (by rwa [List.drop_one]))
          (hdistinct.sublist ((List.tail_sublist old).map _)) with
        ⟨stored, v', hrest, hlength, hkept, hv'⟩ | ⟨hnone, hroom⟩
      · refine .inl ⟨UInt64.ofNat new :: stored, v', ?_, by rw [List.length_cons, hlength, List.length_cons], ?_, ?_⟩
        · rw [storePages, bind_of_ok hencode, bind_of_ok hstore, bind_of_ok hrest]
          rfl
        · intro p hp hprivate
          rw [List.length_cons, htake, List.mem_append] at hp
          rcases hp with hp | hp
          · rw [← hsame p hp hprivate, UInt64.ofNat_toNat]
            exact List.mem_cons_self
          · exact List.mem_cons_of_mem _ (hkept p hp hprivate)
        · refine hv'.perm (fun b => ?_) ?_
          · rw [List.length_cons, htake, List.map_append]
            simp only [List.mem_append]
            tauto
          · rw [pageContents, List.map_cons, hnew, List.map_cons, List.zip_cons_cons, List.cons_append, ← pageContents]
            exact List.perm_middle.symm
      · refine .inr ⟨?_, ?_⟩
        · rw [storePages, bind_of_ok hencode, bind_of_ok hstore]
          exact fst_bind_error hnone
        · rw [List.length_cons] at hroom ⊢
          omega
    · refine .inr ⟨?_, ?_⟩
      · rw [storePages, bind_of_ok hencode]
        exact fst_bind_error hnone
      · have hroom := h.room
        rw [hempty, Finset.card_empty] at hroom
        rw [List.length_cons]
        omega

end ExtentPages

end InfiltratorFS.Paged
