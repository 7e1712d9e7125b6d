import InfiltratorFS.Extents.Trap

namespace InfiltratorFS.Paged

open Prog Segment PointerTree

open File (Extent extentsPerPage extentPagePointers paginate)

section Outcome

variable {retained live : Nat → Bool} {v v' : Volume Block} {file file' : FileHead} {pages stored : List UInt64}
  {entries : List Extent}

theorem Rewritten.stands {gone : List Nat} (h : Rewritten retained live v v' file file' gone stored (paginate entries) entries.length)
    (hne : entries ≠ []) (hfeature : v.sb.incompatFlags &&& incompatPagedExtents ≠ 0) (howner : idIsZero file.objectId = false) :
    Standing retained (exchanged live gone (file'.owned stored)) v' file' stored := by
  obtain ⟨mine, hprogress, hmine⟩ := h.progress
  obtain ⟨free, hsb⟩ := hprogress.context.superblock
  have hlength : stored.length = pagesFor entries := h.length.trans (length_paginate entries)
  have hlaid : Laid v' file' stored := by
    refine ⟨?_, ?_, ?_, h.accepted, h.form⟩
    · rw [hsb]
      exact hfeature
    · intro hnil
      rw [hnil] at hlength
      exact absurd hlength.symm (pagesFor_pos hne).ne'
    · rw [h.extentCount, hlength]
      exact pagesFor_le entries
  refine ⟨hprogress.serving, ?_, ?_, fun b hb => exchanged_iff.mpr (.inr hb)⟩
  · exact accounts_congr hprogress.accounts fun b => by rw [exchanged_iff, exchanged_iff, hmine]
  · exact hlaid.valid hprogress.serving (by rw [h.objectId]; exact howner) h.distinct

theorem Rewritten.standing (hstart : Standing retained live v file pages)
    (h : Rewritten retained live v v' file file' (file.owned pages) stored (paginate entries) entries.length) (hne : entries ≠ []) :
    Standing retained (exchanged live (file.owned pages) (file'.owned stored)) v' file' stored :=
  h.stands hne (hstart.valid.laid hstart.serving).feature hstart.valid.owner

/-- What becomes of a block that the file no longer uses: a private one is
clear, any other waits to be cleared, and is recorded once. -/
def GivenUp (v v' : Volume Block) (b : Nat) : Prop :=
  if txBlockPrivate v b then v'.bitmap b = false ∧ deferredTimes v' b = 0 else v'.bitmap b = true ∧ deferredTimes v' b = 1

/-- After a rewrite the blocks of the file are those that its head leads to,
and every block it gave up was released once. -/
structure Replaced (retained live : Nat → Bool) (v v' : Volume Block) (file file' : FileHead) (pages stored : List UInt64) :
    Prop where
  standing : Standing retained (exchanged live (file.owned pages) (file'.owned stored)) v' file' stored
  own : ∀ b ∈ file'.owned stored, txBlockPrivate v' b = true
  once : ∀ b ∈ file.owned pages, b ∉ file'.owned stored → GivenUp v v' b
  elsewhere : ∀ b, b ∉ file.owned pages → deferredTimes v' b = deferredTimes v b

theorem Standing.inside (h : Standing retained live v file pages) {b : Nat} (hb : b ∈ file.owned pages) : b < v.total := by
  have hlaid := h.valid.laid h.serving
  have hpage (p : UInt64) (hp : p ∈ pages) : p.toNat < v.total := (pointerAccepted_iff.mp (hlaid.accepted p hp)).2.1
  cases hlaid.form with
  | paged head harea =>
    rw [FileHead.owned, harea] at hb
    obtain ⟨p, hp, rfl⟩ := List.mem_map.mp hb
    exact hpage p hp
  | tree head harea hcount hreserved hpayload hlarge hroot =>
    rw [FileHead.owned, harea] at hb
    rcases List.mem_cons.mp hb with rfl | hb
    · exact (pointerAccepted_iff.mp hroot).2.1
    · obtain ⟨p, hp, rfl⟩ := List.mem_map.mp hb
      exact hpage p hp

theorem Rewritten.replaced (hstart : Standing retained live v file pages)
    (h : Rewritten retained live v v' file file' (file.owned pages) stored (paginate entries) entries.length) (hne : entries ≠ []) :
    Replaced retained live v v' file file' pages stored := by
  obtain ⟨mine, hprogress, hmine⟩ := h.progress
  refine ⟨h.standing hstart hne, fun b hb => hprogress.own b ((hmine b).mpr hb), fun b hb hnot => ?_, fun b hb => ?_⟩
  · have hin := hstart.inside hb
    have hlive := hstart.owned b hb
    rw [GivenUp]
    split
    · rename_i hprivate
      exact hprogress.cleared hstart.accounts hin hlive hb (fun hmem => hnot ((hmine b).mp hmem)) hprivate
    · rename_i hprivate
      exact hprogress.deferredOnce hstart.accounts hin hlive hb (by simpa using hprivate)
  · rw [hprogress.times, if_neg fun hmem => hb hmem.1, Nat.add_zero]

section

variable (h : Standing retained live v file pages)
include h

theorem Standing.levels_ne (htrap : Trapped v file pages entries) :
    levels (pagesFor entries) ≠ 0 := by
  obtain ⟨hne, -, p, hp, -⟩ := htrap
  have hfew : pagesFor entries < pages.length := by
    by_contra hnot
    rw [List.drop_eq_nil_of_le (Nat.le_of_not_lt hnot)] at hp
    cases hp
  have hfits := h.fits
  rw [levels_one (pagesFor_pos hne) (by omega)]
  decide

theorem Standing.rewriteAll_ends (entries : List Extent) :
    RewriteEnds retained live v file pages entries (rewriteAll file entries false v) := by
  by_cases hne : entries = []
  · refine .refused (e := .invalidArgument) ?_ (by decide) (fun htrap => absurd hne htrap.1) (.inl hne)
    rw [rewriteAll, if_pos hne]
    rfl
  by_cases hlevels : levels (pagesFor entries) = 0
  · refine .refused (e := .fileTooLarge) ?_ (by decide) (fun htrap => absurd hlevels (h.levels_ne htrap)) (.inr (.inl ?_))
    · have hcount : levels (entries.length / extentsPerPage + if entries.length % extentsPerPage ≠ 0 then 1 else 0) = 0 := hlevels
      rw [rewriteAll, if_neg hne, if_pos hcount]
      rfl
    · by_contra hfits
      rw [levels_one (pagesFor_pos hne) (Nat.le_of_not_lt hfits)] at hlevels
      cases hlevels
  obtain ⟨u, hu, hrun⟩ := h.rewriteAll_start hne hlevels
  rw [hrun]
  exact h.rewriteRest_ends hu hne hlevels

theorem Standing.not_corrupt (htrap : ¬Trapped v file pages entries) :
    (rewriteAll file entries false v).1 ≠ .error .corrupt := by
  cases h.rewriteAll_ends entries with
  | rewritten hok =>
    rw [hok]
    exact fun hc => nomatch hc
  | trapped _ hin => exact absurd hin htrap
  | refused hrun he =>
    rw [hrun]
    exact fun hc => he (Except.error.inj hc)

theorem Standing.corrupt (htrap : Trapped v file pages entries)
    (hroom : pagesFor entries ≤ (clearBlocks v.bitmap v.total).card) :
    (rewriteAll file entries false v).1 = .error .corrupt := by
  cases h.rewriteAll_ends entries with
  | rewritten _ _ hnot => exact absurd htrap hnot
  | trapped hrun => exact hrun
  | refused _ _ hfew => exact absurd (hfew htrap) (Nat.not_lt.mpr hroom)

theorem Standing.rewrites (htrap : ¬Trapped v file pages entries) (hne : entries ≠ [])
    (hfits : pagesFor entries ≤ pointersPerPage) (hroom : pagesFor entries < (clearBlocks v.bitmap v.total).card) :
    ∃ file' stored v', rewriteAll file entries false v = (.ok file', v') ∧
      Rewritten retained live v v' file file' (file.owned pages) stored (paginate entries) entries.length := by
  cases h.rewriteAll_ends entries with
  | rewritten hok _ _ hrewritten => exact ⟨_, _, _, hok, hrewritten⟩
  | trapped _ hin => exact absurd hin htrap
  | refused _ _ _ hwhy =>
    rcases hwhy with hnil | hlarge | hfew
    · exact absurd hnil hne
    · omega
    · omega

variable (hok : rewriteAll file entries false v = (.ok file', v'))
include hok

theorem Standing.rewritten :
    entries ≠ [] ∧ ¬Trapped v file pages entries ∧
      ∃ stored, Rewritten retained live v v' file file' (file.owned pages) stored (paginate entries) entries.length := by
  cases h.rewriteAll_ends entries with
  | rewritten hrun hne hnot hrewritten =>
    rw [hok] at hrun
    cases hrun
    exact ⟨hne, hnot, _, hrewritten⟩
  | trapped hrun =>
    rw [hok] at hrun
    cases hrun
  | refused hrun =>
    rw [hok] at hrun
    cases hrun

theorem Standing.replaced :
    ∃ stored, Replaced retained live v v' file file' pages stored := by
  obtain ⟨hne, -, stored, hrewritten⟩ := h.rewritten hok
  exact ⟨stored, hrewritten.replaced h hne⟩

end

end Outcome

section Operation

/-- A moment inside an operation: the volume, its live blocks, and a file. -/
structure Stage where
  volume : Volume Block
  live : Nat → Bool
  file : FileHead
  pages : List UInt64

def Stage.Standing (retained : Nat → Bool) (s : Stage) : Prop := Paged.Standing retained s.live s.volume s.file s.pages

def Stage.Trapped (s : Stage) (entries : List Extent) : Prop := Paged.Trapped s.volume s.file s.pages entries

structure Elsewhere (retained : Nat → Bool) (owned : List Nat) (v v' : Volume Block) (live' : Nat → Bool) : Prop where
  serving : Serving v'
  accounts : Accounts retained live' v'
  total : v'.total = v.total
  features : v'.sb.incompatFlags = v.sb.incompatFlags
  baseSb : v'.tx.baseSb = v.tx.baseSb
  disk : ∀ b ∈ owned, v'.medium.disk b = v.medium.disk b
  live : ∀ b ∈ owned, live' b = true
  own : ∀ b ∈ owned, txBlockPrivate v' b = txBlockPrivate v b

theorem Elsewhere.standing {retained live live' : Nat → Bool} {v v' : Volume Block} {file : FileHead} {pages : List UInt64}
    (h : Elsewhere retained (file.owned pages) v v' live') (hs : Paged.Standing retained live v file pages) :
    Paged.Standing retained live' v' file pages := by
  have hlaid := hs.valid.laid hs.serving
  have hset {b : Nat} (hb : b ∈ file.owned pages) : v'.bitmap b = true :=
    (h.accounts.set_iff b (by rw [h.total]; exact hs.inside hb)).mpr (.inl (h.live b hb))
  have haccepted {p : UInt64} (hp : p.toNat ∈ file.owned pages) (hp' : pointerAccepted v p = true) :
      pointerAccepted v' p = true := by
    obtain ⟨hzero, hin, -⟩ := pointerAccepted_iff.mp hp'
    exact pointerAccepted_iff.mpr ⟨hzero, by rw [h.total]; exact hin, hset hp⟩
  have hlaid' : Laid v' file pages := by
    refine ⟨by rw [h.features]; exact hlaid.feature, hlaid.nonempty, hlaid.enough,
      fun p hp => haccepted (mem_owned_of_page hp) (hlaid.accepted p hp), ?_⟩
    cases hlaid.form with
    | paged head harea hcount hreserved hpayload hle hpointers => exact .paged head harea hcount hreserved hpayload hle hpointers
    | tree head harea hcount hreserved hpayload hlarge hroot hpage hpointers =>
      have hmem : (head.pointer 0).toNat ∈ file.owned pages := by
        rw [FileHead.owned, harea]
        exact List.mem_cons_self
      have hdisk := h.disk _ hmem
      refine .tree head harea hcount hreserved hpayload hlarge (haccepted hmem hroot) ?_ (by rw [hdisk]; exact hpointers)
      rw [hdisk, pageValidate_frame hpage h.total (h.serving.active.trans hs.serving.active.symm) h.baseSb hs.serving.active, if_pos]
      rw [List.all_eq_true]
      intro i hi
      have hi := List.mem_range.mp hi
      rw [hpointers i hi]
      exact hset (mem_owned_of_page (List.getElem_mem hi))
  exact ⟨h.serving, h.accounts, hlaid'.valid h.serving hs.valid.owner hs.valid.distinct, h.live⟩

/-- The steps of an operation, as seen by the extent pages of a file. -/
inductive Step (retained : Nat → Bool) : Stage → Stage → Prop
  | rewrite {s : Stage} {entries : List Extent} {file' : FileHead} {v' : Volume Block} {pages' : List UInt64}
      (hrun : rewriteAll s.file entries false s.volume = (.ok file', v'))
      (hpages : (collectPageBlocks file' v').1 = .ok pages') :
      Step retained s ⟨v', exchanged s.live (s.file.owned s.pages) (file'.owned pages'), file', pages'⟩
  | elsewhere {s : Stage} {v' : Volume Block} {live' : Nat → Bool} (h : Elsewhere retained (s.file.owned s.pages) s.volume v' live') :
      Step retained s ⟨v', live', s.file, s.pages⟩

theorem Step.standing {retained : Nat → Bool} {s t : Stage} (h : Step retained s t) (hs : s.Standing retained) :
    t.Standing retained := by
  cases h with
  | rewrite hrun hpages =>
    obtain ⟨stored, hreplaced⟩ := Paged.Standing.replaced hs hrun
    have hcollected := hreplaced.standing.valid.collected
    rw [hpages] at hcollected
    cases hcollected
    exact hreplaced.standing
  | elsewhere h => exact Elsewhere.standing h hs

/-- Inside one operation a rewrite of the extent pages of a valid file reports
corruption exactly when it drops a private page of a file with a pointer page.
Where it succeeds, the file owns exactly the pages that its new head leads to,
and every page it gave up is cleared or deferred once. -/
theorem rewrites_corrupt_iff {retained : Nat → Bool} {s t : Stage} (hs : s.Standing retained)
    (hrun : Relation.ReflTransGen (Step retained) s t) (entries : List Extent) :
    (¬t.Trapped entries → (rewriteAll t.file entries false t.volume).1 ≠ .error .corrupt) ∧
      (pagesFor entries ≤ (clearBlocks t.volume.bitmap t.volume.total).card → t.Trapped entries →
        (rewriteAll t.file entries false t.volume).1 = .error .corrupt) ∧
      ∀ file' v', rewriteAll t.file entries false t.volume = (.ok file', v') →
        ∃ pages', Replaced retained t.live t.volume v' t.file file' t.pages pages' := by
  have ht : t.Standing retained := by
    induction hrun with
    | refl => exact hs
    | tail _ hstep ih => exact hstep.standing ih
  exact ⟨fun htrap => Paged.Standing.not_corrupt ht htrap, fun hroom htrap => Paged.Standing.corrupt ht htrap hroom,
    fun file' v' hok => Paged.Standing.replaced ht hok⟩

end Operation

section Comb

/-- A volume of 262144 blocks whose lower half is in use, with an operation under
way that has allocated nothing yet. -/
def openVolume : Volume Block :=
  { (default : Volume Block) with
    medium := { (default : Medium Block) with env := fun _ => ⟨.ok, none⟩ }
    writable := true
    sb := { (default : Superblock) with
      generation := 1, totalBlocks := 262144, freeBlocks := 131072, incompatFlags := incompatPagedExtents }
    bitmap := fun b => decide (b < 131072)
    tx := { (default : Transaction) with
      active := true
      error := .ok
      baseSb := { (default : Superblock) with generation := 1, totalBlocks := 262144, freeBlocks := 131072 } }
    operation := { (default : Savepoint) with active := true }
    freeIndex := ⟨[], false⟩ }

/-- Holes and data blocks in turn. -/
def comb (count : Nat) : List Extent :=
  (List.range count).map fun i => if i % 2 = 0 then ⟨i, 0, 1, File.extentHole⟩ else ⟨i, i + 2, 1, File.extentNormal⟩

def blunted (count : Nat) : List Extent := comb count ++ [⟨count, 0, 2, File.extentHole⟩]

def onePage : FileHead where
  objectId := fileOwner
  payloadSize := 176
  logicalSize := 79994 * blockSize
  extentCount := 1
  area := .paged ⟨1, 0, [1]⟩

def firstStage : Stage := ⟨openVolume, fun b => decide (b < 131072), onePage, [1]⟩

theorem openVolume_clear : (clearBlocks openVolume.bitmap openVolume.total).card = 131072 := by
  have hclear : clearBlocks openVolume.bitmap openVolume.total = Finset.Ico 131072 262144 := by
    ext b
    rw [mem_clearBlocks, Finset.mem_Ico]
    have htotal : openVolume.total = 262144 := rfl
    have hbit : openVolume.bitmap b = decide (b < 131072) := rfl
    rw [htotal, hbit, decide_eq_false_iff_not]
    omega
  rw [hclear, Nat.card_Ico]

theorem openVolume_serving : Serving openVolume where
  active := rfl
  index := fun hvalid => nomatch hvalid
  writable := rfl
  reopen := rfl
  error := rfl
  granted := fun _ _ => rfl
  generation := by decide
  first := Nat.zero_le _
  zero := rfl
  counted := openVolume_clear.symm

theorem firstStage_standing : firstStage.Standing fun _ => false where
  serving := openVolume_serving
  accounts :=
    { openVolume_serving.toOpenTx with
      set_iff := fun b _ => by
        show decide (b < 131072) = true ↔ decide (b < 131072) = true ∨ false = true ∨ covers [] b = true
        simp
      live_kept := fun _ _ => rfl
      retained_kept := fun _ _ => rfl }
  valid := by
    refine Laid.valid ⟨by decide, by decide, by decide, fun p hp => ?_, ?_⟩ openVolume_serving (by decide) (by decide)
    · rw [List.mem_singleton.mp hp]
      rfl
    · refine .paged ⟨1, 0, [1]⟩ rfl rfl rfl rfl (by decide) fun i hi => ?_
      obtain rfl : i = 0 := Nat.lt_one_iff.mp hi
      rfl
  owned := fun b hb => by
    rw [List.mem_singleton.mp hb]
    rfl

theorem comb_length (count : Nat) : (comb count).length = count := by rw [comb, List.length_map, List.length_range]

theorem pagesFor_of_length {entries : List Extent} {n : Nat} (h : entries.length = n) :
    pagesFor entries = n / extentsPerPage + if n % extentsPerPage ≠ 0 then 1 else 0 := by rw [pagesFor, h]

theorem pagesFor_comb : pagesFor (comb 79994) = 480 := (pagesFor_of_length (comb_length 79994)).trans (by decide)

theorem pagesFor_blunted : pagesFor (blunted 79992) = 479 := by
  have hlength : (blunted 79992).length = 79993 := by
    rw [blunted, List.length_append, comb_length]
    rfl
  exact (pagesFor_of_length hlength).trans (by decide)

theorem comb_ne : comb 79994 ≠ [] := by
  intro hnil
  have hlength := comb_length 79994
  rw [hnil] at hlength
  cases hlength

theorem comb_rewritten : ∃ file' stored v', rewriteAll onePage (comb 79994) false openVolume = (.ok file', v') ∧
    Rewritten (fun _ => false) firstStage.live openVolume v' onePage file' (onePage.owned [1]) stored (paginate (comb 79994))
      (comb 79994).length := by
  refine Paged.Standing.rewrites firstStage_standing ?_ comb_ne (by rw [pagesFor_comb]; decide) ?_
  · rintro ⟨-, ⟨head, harea⟩, -⟩
    cases harea
  · show pagesFor (comb 79994) < (clearBlocks openVolume.bitmap openVolume.total).card
    rw [pagesFor_comb, openVolume_clear]
    decide

structure Grown (v : Volume Block) (file : FileHead) (stored : List UInt64) : Prop where
  length : stored.length = 480
  tree : ∃ head, file.area = .tree head
  own : ∀ p ∈ stored, txBlockPrivate v p.toNat = true
  room : 480 ≤ (clearBlocks v.bitmap v.total).card

theorem comb_grown {file' : FileHead} {stored : List UInt64} {v' : Volume Block}
    (h : Rewritten (fun _ => false) firstStage.live openVolume v' onePage file' (onePage.owned [1]) stored (paginate (comb 79994))
      (comb 79994).length) : Grown v' file' stored := by
  obtain ⟨mine, hprogress, hmine⟩ := h.progress
  have hlength : stored.length = 480 := by rw [h.length, length_paginate, pagesFor_comb]
  refine ⟨hlength, ?_, fun p hp => hprogress.own _ ((hmine _).mpr (mem_owned_of_page hp)), ?_⟩
  · cases h.form with
    | paged head harea hcount hreserved hpayload hle =>
      rw [hlength] at hle
      exact absurd hle (by decide)
    | tree head harea => exact ⟨head, harea⟩
  · have hroom := hprogress.room
    have hcount : mine.length ≤ 481 := by
      have hperm := (List.perm_ext_iff_of_nodup hprogress.distinct h.distinct).mpr hmine
      have howned := hperm.length_eq
      rw [List.length_map] at howned
      rw [howned, FileHead.owned]
      split
      · rw [List.length_cons, List.length_map, hlength]
      · rw [List.length_map, hlength]
        decide
    rw [openVolume_clear] at hroom
    omega

theorem Grown.trapped {v : Volume Block} {file : FileHead} {stored : List UInt64} {entries : List Extent} (h : Grown v file stored)
    (hne : entries ≠ []) (hfew : pagesFor entries ≤ 479) : Trapped v file stored entries := by
  have hlength := h.length
  refine ⟨hne, h.tree, stored[479], ?_, h.own _ (List.getElem_mem _)⟩
  rw [List.mem_iff_getElem]
  refine ⟨479 - pagesFor entries, by rw [List.length_drop, hlength]; omega, ?_⟩
  rw [List.getElem_drop]
  congr 1
  omega

/-- A first rewrite of an operation brings a file to 480 pages. One block less
in use, and the second needs 479: the last page, private by now, is freed, and
the pointer page that still names it is taken for corrupt. -/
theorem dropped_page_corrupt : firstStage.Standing (fun _ => false) ∧
    ∃ file' v', rewriteAll onePage (comb 79994) false openVolume = (.ok file', v') ∧
      (rewriteAll file' (blunted 79992) false v').1 = .error .corrupt := by
  obtain ⟨file', stored, v', hrun, hrewritten⟩ := comb_rewritten
  have hgrown := comb_grown hrewritten
  have hne : blunted 79992 ≠ [] := by
    rw [blunted]
    simp
  have hstanding := hrewritten.standing firstStage_standing comb_ne
  refine ⟨firstStage_standing, file', v', hrun, hstanding.corrupt (hgrown.trapped hne pagesFor_blunted.le) ?_⟩
  rw [pagesFor_blunted]
  exact (by decide : 479 ≤ 480).trans hgrown.room

theorem rewrites_corrupt_iff_comb : firstStage.Standing (fun _ => false) ∧
    (rewriteAll firstStage.file (comb 79994) false firstStage.volume).1 ≠ .error .corrupt := by
  refine ⟨firstStage_standing, (rewrites_corrupt_iff firstStage_standing .refl (comb 79994)).1 ?_⟩
  rintro ⟨-, ⟨head, harea⟩, -⟩
  cases harea

end Comb

end InfiltratorFS.Paged
