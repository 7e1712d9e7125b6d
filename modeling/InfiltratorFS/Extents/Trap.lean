import InfiltratorFS.Extents.Rewrite

namespace InfiltratorFS.Paged

open Prog Segment PointerTree

open File (Extent extentsPerPage extentPagePointers paginate)

variable {retained live : Nat → Bool} {v₀ v : Volume Block} {gone : List Nat} {mine : List (Nat × Block)}

section Given

theorem Laid.ticked {u : Volume Block} {file : FileHead} {pages : List UInt64} (h : Laid v file pages) (ht : Ticked v u) :
    Laid u file pages := by
  obtain ⟨t, -, rfl⟩ := ht
  refine ⟨h.feature, h.nonempty, h.enough, h.accepted, ?_⟩
  cases h.form with
  | paged head harea hcount hreserved hpayload hle hpointers => exact .paged head harea hcount hreserved hpayload hle hpointers
  | tree head harea hcount hreserved hpayload hlarge hroot hpage hpointers =>
    exact .tree head harea hcount hreserved hpayload hlarge hroot hpage hpointers

theorem deferredTimes_live (h : Accounts retained live v₀) {b : Nat} (hlive : live b = true) : deferredTimes v₀ b = 0 := by
  have hkept := h.live_kept b hlive
  rw [← Bool.not_eq_true, covers_deferred] at hkept
  omega

variable (h : Progress retained live v₀ v gone mine)
include h

theorem Progress.ticked {u : Volume Block} (ht : Ticked v u) :
    Progress retained live v₀ u gone mine := by
  obtain ⟨t, hle, rfl⟩ := ht
  exact
    { h with
      serving := Ticked.serving ⟨t, hle, rfl⟩ h.serving
      context := h.context.trans (.update _)
      accounts := h.accounts.update }

theorem Progress.cleared (hstart : Accounts retained live v₀) {b : Nat}
    (hin : b < v₀.total) (hlive : live b = true) (hgone : b ∈ gone) (hmine : b ∉ mine.map Prod.fst)
    (hprivate : txBlockPrivate v₀ b = true) : v.bitmap b = false ∧ deferredTimes v b = 0 := by
  have htimes : deferredTimes v b = 0 := by
    rw [h.times, deferredTimes_live hstart hlive, if_neg (by simp [hprivate])]
  refine ⟨?_, htimes⟩
  have hset := h.accounts.set_iff b (by rw [h.total]; exact hin)
  have hretained : retained b = false := by
    have hstartSet : v₀.bitmap b = true := (hstart.set_iff b hin).mpr (.inl hlive)
    refine h.accounts.retained_kept b ?_
    have hp := (h.private_eq b hstartSet).trans hprivate
    obtain ⟨r, hr, hcontains⟩ := (covers_iff _ b).mp (txBlockPrivate_iff.mp hp).2
    exact (covers_iff _ b).mpr ⟨r, List.mem_of_mem_drop hr, hcontains⟩
  rw [← Bool.not_eq_true, hset, exchanged_iff, covers_deferred, hretained, htimes]
  simp [hgone, hmine]

theorem Progress.deferredOnce (hstart : Accounts retained live v₀) {b : Nat}
    (hin : b < v₀.total) (hlive : live b = true) (hgone : b ∈ gone) (hprivate : txBlockPrivate v₀ b = false) :
    v.bitmap b = true ∧ deferredTimes v b = 1 := by
  have hstartSet : v₀.bitmap b = true := (hstart.set_iff b hin).mpr (.inl hlive)
  refine ⟨h.settled b hstartSet hprivate, ?_⟩
  rw [h.times, deferredTimes_live hstart hlive, if_pos ⟨hgone, hprivate⟩]

end Given

section Call

variable {file : FileHead} {pages : List UInt64} {entries : List Extent} {p : UInt64}

/-- A rewrite that frees a private page below a pointer page which it has still
to validate. -/
def Trapped (v : Volume Block) (file : FileHead) (pages : List UInt64) (entries : List Extent) : Prop :=
  entries ≠ [] ∧ (∃ head, file.area = .tree head) ∧ ∃ p ∈ pages.drop (pagesFor entries), txBlockPrivate v p.toNat = true

/-- A file whose blocks are live on a volume that serves requests. -/
structure Standing (retained live : Nat → Bool) (v : Volume Block) (file : FileHead) (pages : List UInt64) : Prop where
  serving : Serving v
  accounts : Accounts retained live v
  valid : Valid v file pages
  owned : ∀ b ∈ file.owned pages, live b = true

theorem mem_owned_of_page (hp : p ∈ pages) : p.toNat ∈ file.owned pages := by
  have hmem := List.mem_map_of_mem (f := UInt64.toNat) hp
  rw [FileHead.owned]
  split
  · exact List.mem_cons_of_mem _ hmem
  · exact hmem

def rewriteRest (file : FileHead) (entries : List Extent) (old : List UInt64) : VolumeM Block FileHead := do
  let stored ← storePages file.objectId old (paginate entries)
  freeBlocks (old.drop (pagesFor entries))
  freeOldTree file false
  newHead file entries.length stored

theorem nodup_take_drop (h : (pages.map UInt64.toNat).Nodup) (n : Nat) (hp : p ∈ pages.drop n) :
    p.toNat ∉ (pages.take n).map UInt64.toNat := by
  rw [← List.take_append_drop n pages, List.map_append, List.nodup_append] at h
  exact fun hmem => h.2.2 _ hmem _ (List.mem_map_of_mem hp) rfl

/-- How a rewrite of the extent pages of a file can end. -/
inductive RewriteEnds (retained live : Nat → Bool) (v : Volume Block) (file : FileHead) (pages : List UInt64) (entries : List Extent)
    (r : Except Status FileHead × Volume Block) : Prop
  | rewritten {file' : FileHead} {v' : Volume Block} {stored : List UInt64} (hok : r = (.ok file', v')) (hne : entries ≠ [])
      (hnot : ¬Trapped v file pages entries)
      (h : Rewritten retained live v v' file file' (file.owned pages) stored (paginate entries) entries.length)
  | trapped (hrun : r.1 = .error .corrupt) (h : Trapped v file pages entries)
  | refused {e : Status} (hrun : r.1 = .error e) (he : e ≠ .corrupt)
      (htrap : Trapped v file pages entries → (clearBlocks v.bitmap v.total).card < pagesFor entries)
      (hwhy : entries = [] ∨ pointersPerPage < pagesFor entries ∨ (clearBlocks v.bitmap v.total).card ≤ pagesFor entries)

variable (h : Standing retained live v file pages)
include h

theorem Standing.held (hp : p ∈ pages) (hgone : p.toNat ∉ gone) :
    Held live v gone p.toNat := by
  obtain ⟨hzero, hin, hset⟩ := pointerAccepted_iff.mp ((h.valid.laid h.serving).accepted p hp)
  refine ⟨fun hz => hzero (UInt64.toNat_inj.mp hz), hin, h.owned _ (mem_owned_of_page hp), hgone, hset⟩

theorem Standing.distinct : (pages.map UInt64.toNat).Nodup := by
  have hnodup := h.valid.distinct
  rw [FileHead.owned] at hnodup
  split at hnodup
  · exact (List.nodup_cons.mp hnodup).2
  · exact hnodup

theorem Standing.rewriteAll_start (hne : entries ≠ [])
    (hlevels : levels (pagesFor entries) ≠ 0) :
    ∃ u, Ticked v u ∧ rewriteAll file entries false v = rewriteRest file entries pages u := by
  have hlaid := h.valid.laid h.serving
  have hpaged : file.isPaged = true := by
    cases hlaid.form with
    | paged head harea => rw [FileHead.isPaged, harea]
    | tree head harea => rw [FileHead.isPaged, harea]
  obtain ⟨u₁, ht₁, hhead⟩ := hlaid.headValidate h.serving
  obtain ⟨u₂, ht₂, hcollect⟩ := (hlaid.ticked ht₁).collect (ht₁.serving h.serving)
  have hold : oldPageBlocks file false v = (.ok pages, u₂) := by
    rw [oldPageBlocks, if_pos ⟨rfl, hpaged⟩, bind_of_ok hhead, hcollect]
  have ht := ht₁.trans ht₂
  refine ⟨u₂.tickOn, ht.trans (.next _), ?_⟩
  have hcount : ¬levels (entries.length / extentsPerPage + if entries.length % extentsPerPage ≠ 0 then 1 else 0) = 0 := hlevels
  rw [rewriteAll, if_neg hne, if_neg hcount, bind_of_ok hold, bind_of_ok (allocate_ok (ht.serving h.serving).granted)]
  rfl

/-- The pages of a file after the new ones are stored and the surplus is freed:
a private page that was dropped is the only one that is clear. -/
theorem Standing.page_set_iff {u : Volume Block} {stored : List UInt64} {n : Nat}
    (hu : Progress retained live v u gone mine)
    (hkept : ∀ p ∈ pages.take n, txBlockPrivate v p.toNat = true → p ∈ stored)
    (hmine : ∀ p ∈ pages.drop n, p.toNat ∉ mine.map Prod.fst) (hstored : ∀ p ∈ stored, p.toNat ∈ mine.map Prod.fst)
    (hgone : ∀ p ∈ pages, p.toNat ∈ gone) :
    (∀ p ∈ pages, u.bitmap p.toNat = true) ↔ ¬∃ p ∈ pages.drop n, txBlockPrivate v p.toNat = true := by
  constructor
  · rintro hall ⟨p, hp, hprivate⟩
    have hmem := List.mem_of_mem_drop hp
    have hheld : Held live v [] p.toNat := h.held hmem (by simp)
    have hclear := (hu.cleared h.accounts hheld.inside hheld.live (hgone p hmem) (hmine p hp) hprivate).1
    rw [hall p hmem] at hclear
    cases hclear
  · intro hnone p hp
    have hheld : Held live v [] p.toNat := h.held hp (by simp)
    cases hprivate : txBlockPrivate v p.toNat with
    | false => exact hu.settled _ hheld.set hprivate
    | true =>
      rw [← List.take_append_drop n pages] at hp
      rcases List.mem_append.mp hp with hp | hp
      · exact hu.set_of_mine (hstored p (hkept p hp hprivate))
      · exact absurd ⟨p, hp, hprivate⟩ hnone

theorem Standing.fits : pages.length ≤ pointersPerPage := by
  cases (h.valid.laid h.serving).form with
  | paged head harea hcount hreserved hpayload hle =>
    refine hle.trans ?_
    decide
  | tree head harea hcount hreserved hpayload hlarge hroot hpage => exact (pageValidate_ok hpage).2.fits

theorem Standing.rewriteRest_ends {u : Volume Block} (hu : Ticked v u) (hne : entries ≠ [])
    (hlevels : levels (pagesFor entries) ≠ 0) : RewriteEnds retained live v file pages entries (rewriteRest file entries pages u) := by
  have hlaid := h.valid.laid h.serving
  have howner := h.valid.owner
  have hdistinct := h.distinct
  have hlength := length_paginate entries
  have hstart := (Progress.refl h.serving h.accounts).ticked hu
  rcases hstart.storesPages howner (paginate entries) pages (fun group hgroup => mem_paginate hgroup)
    (fun p hp => h.held hp (by simp)) hdistinct with ⟨stored, u₁, hstore, hstored, hkept, h₁⟩ | ⟨hnone, hroom⟩
  · have hfst := pageContents_fst file.objectId (pageGeneration v) hstored
    rw [hlength, List.append_nil, List.append_nil] at h₁
    rw [hlength] at hkept
    obtain ⟨u₂, hfree, h₂⟩ := h₁.freesBlocks (pages.drop (pagesFor entries))
      (fun p hp => h.held (List.mem_of_mem_drop hp) (nodup_take_drop hdistinct _ hp))
      (hdistinct.sublist ((List.drop_sublist _ _).map _))
    have hgone (b : Nat) : b ∈ (pages.drop (pagesFor entries)).map UInt64.toNat ++ (pages.take (pagesFor entries)).map UInt64.toNat ↔
        b ∈ pages.map UInt64.toNat := by
      rw [← List.map_append, List.mem_map, List.mem_map]
      refine exists_congr fun p => and_congr_left fun _ => ?_
      conv_rhs => rw [← List.take_append_drop (pagesFor entries) pages]
      rw [List.mem_append, List.mem_append]
      exact or_comm
    replace h₂ := h₂.perm (fun b => (hgone b).symm) (List.Perm.refl _)
    have hrun : rewriteRest file entries pages u =
        (freeOldTree file false >>= fun _ => newHead file entries.length stored) u₂ := by
      rw [rewriteRest, bind_of_ok hstore, bind_of_ok hfree]
    rw [hrun]
    have hfreed : (Trapped v file pages entries ∧ (freeOldTree file false u₂).1 = .error .corrupt) ∨
        (¬Trapped v file pages entries ∧ ∃ u₃, freeOldTree file false u₂ = (.ok (), u₃) ∧
          Progress retained live v u₃ (file.owned pages) (pageContents file.objectId (pageGeneration v) stored
            (paginate entries))) := by
      cases hform : hlaid.form with
      | paged head harea =>
        have hold : freeOldTree file false u₂ = (.ok (), u₂) := by
          rw [freeOldTree, harea]
          rfl
        refine .inr ⟨?_, u₂, hold, ?_⟩
        · rintro ⟨-, ⟨head', htree⟩, -⟩
          rw [harea] at htree
          cases htree
        · rwa [FileHead.owned, harea]
      | tree head harea hcount hreserved hpayload hlarge hroot hpage hpointers =>
        have howned : file.owned pages = (head.pointer 0).toNat :: pages.map UInt64.toNat := by rw [FileHead.owned, harea]
        have hrootNot : (head.pointer 0).toNat ∉ pages.map UInt64.toNat := by
          have hnodup := h.valid.distinct
          rw [howned] at hnodup
          exact (List.nodup_cons.mp hnodup).1
        have hrootHeld : Held live v (pages.map UInt64.toNat) (head.pointer 0).toNat := by
          obtain ⟨hzero, hin, hset⟩ := pointerAccepted_iff.mp hroot
          exact ⟨fun hz => hzero (UInt64.toNat_inj.mp hz), hin, h.owned _ (by rw [howned]; exact List.mem_cons_self), hrootNot, hset⟩
        have hold : freeOldTree file false = treeFreeNode file.objectId 0 (head.pointer 0) := by
          rw [freeOldTree, harea]
          simp only [hreserved, levelBelow_one]
          rfl
        obtain ⟨hgood, hbad⟩ := h₂.freesTree h.serving.active hrootHeld hpage hpointers
        have hbits := h.page_set_iff h₂ hkept
          (fun p hp hmem => nodup_take_drop hdistinct _ hp (h₁.fresh _ hmem (h.owned _ (mem_owned_of_page (List.mem_of_mem_drop hp)))))
          (fun p hp => by rw [hfst]; exact List.mem_map_of_mem hp) (fun p hp => List.mem_map_of_mem hp)
        rw [hold, howned]
        by_cases htrap : Trapped v file pages entries
        · exact .inl ⟨htrap, hbad fun hall => hbits.mp hall htrap.2.2⟩
        · exact .inr ⟨htrap, hgood (hbits.mpr fun hsome => htrap ⟨hne, ⟨head, harea⟩, hsome⟩)⟩
    rcases hfreed with ⟨htrap, hbad⟩ | ⟨hnot, u₃, hfreed, h₃⟩
    · exact .trapped (fst_bind_error hbad) htrap
    · rw [bind_of_ok hfreed]
      rcases h₃.newHeads hstored hne hlevels howner with ⟨file', v', hnew, hrewritten⟩ | ⟨hnone, hroom⟩ | ⟨hlarge, hrefused⟩
      · exact .rewritten hnew hne hnot hrewritten
      · exact .refused hnone (by decide) (fun htrap => absurd htrap hnot)
          (.inr ((Nat.lt_or_ge pointersPerPage (pagesFor entries)).imp_right hroom))
      · exact .refused hrefused (by decide) (fun htrap => absurd htrap hnot) (.inr (.inl hlarge))
  · rw [hlength, List.length_nil, Nat.zero_add] at hroom
    exact .refused (fst_bind_error hnone) (by decide) (fun _ => hroom) (.inr (.inr hroom.le))

end Call

end InfiltratorFS.Paged
