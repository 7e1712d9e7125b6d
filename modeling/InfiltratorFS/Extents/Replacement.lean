import InfiltratorFS.Extents.Snapshot

namespace InfiltratorFS.Paged

open Prog Segment PointerTree

open File (Extent extentsPerPage maxFileExtents paginate holds uint32Max ceilBlocks extentHole extentKind extentNormal)

section Statement

/-- A valid file with its extents, in its object or in extent pages. -/
inductive Holds (retained live : Nat → Bool) (v : Volume Block) (file : FileHead) (es : List Extent) : List UInt64 → Prop
  | classic (harea : file.area = .classic es) (hcount : file.extentCount = es.length) (hfits : es.length ≤ maxFileExtents)
      (hpayload : file.payloadSize = filePayloadBytes + es.length * 24) (howner : idIsZero file.objectId = false)
      (hserving : Serving v) (haccounts : Accounts retained live v) (htiled : File.Tiled (ceilBlocks file.logicalSize) es)
      (hplaced : ∀ e ∈ es, Placed v e) : Holds retained live v file es []
  | paged {pages : List UInt64} (hstanding : Standing retained live v file pages)
      (hsnapshot : (pagedExtentSnapshot file v).1 = .ok es) : Holds retained live v file es pages

/-- A list of extents with one of them in the place of a range: it covers the
same blocks, those of the range have their place in the new extent and all
others keep theirs, and the runs are the blocks that the file had in the
range. -/
structure Replacement (blocks : Nat) (new : Extent) (es es' : List Extent) (runs : List Segment) : Prop where
  tiled : File.Tiled blocks es'
  outside : ∀ b, holds b new = false → mapping es' b = mapping es b
  inside : ∀ b, holds b new = true → mapping es' b = some (place b new)
  released : runs.flatMap runBlocks = (List.range' new.logicalBlock new.blockCount).flatMap (heldAt es)

/-- A release routine that gives up live blocks and leaves all others alone. -/
def Lenient (retained : Nat → Bool) (release : Segment → VolumeM Block Unit) (runs : List Segment) : Prop :=
  ∀ (u : Volume Block) (live : Nat → Bool) (owned : List Nat), Serving u → Accounts retained live u →
    (∀ b ∈ owned, live b = true ∧ covers runs b = false) →
    (∀ b, covers runs b = true → b ≠ 0 ∧ b < u.total ∧ live b = true) →
      ∃ u' live', releaseAll release runs u = (.ok (), u') ∧ Elsewhere retained owned u u' live' ∧
        (clearBlocks u.bitmap u.total).card ≤ (clearBlocks u'.bitmap u'.total).card

/-- The lists that cannot be stored: those of a file with a pointer page that
would drop a private page, those of more pages than one pointer page names, and
those that do not fit the object on a volume without paged extents. -/
def Blocked (v : Volume Block) (file : FileHead) (pages : List UInt64) (entries : List Extent) : Prop :=
  if file.isPaged then pointersPerPage < pagesFor entries ∨ Trapped v file pages entries
  else maxFileExtents < entries.length ∧ v.sb.incompatFlags &&& incompatPagedExtents = 0

end Statement

section Lists

variable {n : Nat} {new : Extent} {es : List Extent} (htiled : File.Tiled n es)

include htiled

theorem replacement_spliced
    (hkind : ∀ e ∈ es, extentKind e.flags = extentHole ∨ extentKind e.flags = extentNormal)
    (hpos : 0 < new.blockCount) (hin : new.stop ≤ n) (hcut : CutsNone new.segment es) :
    Replacement n new es (spliced new es) (releasedRuns new.segment es) := by
  have hmapping := mapping_spliced htiled hpos (Nat.zero_le _) hin hcut
  have hstop : new.logicalBlock + new.blockCount = new.stop := rfl
  refine ⟨tiles_spliced htiled hpos (Nat.zero_le _) hin, fun b hb => ?_, fun b hb => ?_, ?_⟩
  · rw [hmapping, hb]
    rfl
  · rw [hmapping, hb]
    rfl
  · rw [← released_blocks htiled hkind hcut, flatMap_range'_within (b := new.logicalBlock) (c := new.stop) (Nat.zero_le _)
      (by omega) hin (fun x _ hx => if_neg ?_) (fun x hx _ => if_neg ?_)]
    · have hcount : new.stop - new.logicalBlock = new.blockCount := by omega
      rw [hcount]
      refine List.flatMap_congr fun b hb => if_pos ?_
      have hb := List.mem_range'_1.mp hb
      rw [contains_iff]
      exact ⟨hb.1, hb.2⟩
    · rw [contains_iff]
      exact fun hc => Nat.not_le.mpr hx hc.1
    · rw [contains_iff]
      exact fun hc => Nat.not_le.mpr hc.2 hx

theorem spliced_ne (hpos : 0 < new.blockCount) (hin : new.stop ≤ n) : spliced new es ≠ [] := by
  intro hnil
  have htiles : Tiles Extent.segment 0 n (spliced new es) := tiles_spliced htiled hpos (Nat.zero_le _) hin
  rw [hnil, Tiles.nil_iff] at htiles
  have hstop : new.logicalBlock + new.blockCount = new.stop := rfl
  omega

theorem length_spliced (hpos : 0 < new.blockCount) : (spliced new es).length ≤ es.length + 2 := by
  have hfold := length_foldl_emit (pieces new es) []
  have hpieces := length_pieces htiled hpos
  rw [List.length_nil, Nat.zero_add] at hfold
  exact hfold.trans hpieces

end Lists

section Programs

variable {release : Segment → VolumeM Block Unit} {v : Volume Block} {file : FileHead} {new : Extent} {es : List Extent} {n : Nat}

theorem releaseAll_append (xs ys : List Segment) :
    releaseAll release (xs ++ ys) = (do releaseAll release xs; releaseAll release ys) := by
  induction xs with
  | nil => rfl
  | cons x xs ih => rw [List.cons_append, releaseAll, releaseAll, ih, bind_assoc]

variable (htiled : File.Tiled n es) (hplaced : ∀ e ∈ es, Placed v e) (hpos : 0 < new.blockCount) (hin : new.stop ≤ n)
  (hcut : CutsNone new.segment es)

include htiled hplaced hpos hin hcut

/-- Both loops leave the same list and give up the same runs. -/
theorem replaceLoop_spliced {σ : Type} {step : List Segment → Prog σ Status Unit} (hnil : step [] = pure ())
    (happend : ∀ xs ys, step (xs ++ ys) = (do step xs; step ys)) :
    File.replaceLoop new (es.length + 3) step ⟨[], false, []⟩ es = (do
      step (releasedRuns new.segment es)
      pure ⟨spliced new es, true, releasedRuns new.segment es⟩) := by
  have hstop : new.logicalBlock + new.blockCount = new.stop := rfl
  obtain ⟨hpieces, hemitted⟩ := loopPieces_eq htiled hpos (Nat.zero_le _) (show new.logicalBlock < n by omega)
  have hlength := length_pieces htiled hpos
  rw [replaceLoop_eq hnil happend (fun e he => (hplaced e he).stop) hcut ⟨[], false, []⟩
    (by simp only [List.length_nil, hpieces]; omega)]
  simp only [hpieces, hemitted, List.nil_append]
  rfl

theorem replaceRebuild_eq {u : Volume Block} (hserving : Serving u) (hsnapshot : pagedExtentSnapshot file v = (.ok es, u))
    (hfew : es.length + 3 ≤ uint32Max) :
    replaceRebuild release file new v = (do
      releaseAll release (releasedRuns new.segment es)
      rewriteAll file (spliced new es) false) u.tickOn := by
  rw [replaceRebuild, bind_of_ok hsnapshot, if_neg (by omega), bind_of_ok (allocate_ok hserving.granted),
    replaceLoop_spliced htiled hplaced hpos hin hcut rfl releaseAll_append, bind_assoc]
  rfl

theorem classicReplace_eq (hserving : Serving v) :
    classicReplace release file es new v = (do
      let file ← storeClassic file (spliced new es)
      releaseAll release (releasedRuns new.segment es)
      pure file) v.tickOn.tickOn := by
  rw [classicReplace, bind_of_ok (allocate_ok hserving.granted), bind_of_ok (allocate_ok hserving.tickOn.granted),
    replaceLoop_spliced htiled hplaced hpos hin hcut rfl fun _ _ => rfl]
  rfl

end Programs

section Rebuilds

variable {retained live : Nat → Bool} {v : Volume Block} {file : FileHead} {pages : List UInt64} {es : List Extent} {new : Extent}

theorem Holds.list (h : Holds retained live v file es pages) :
    File.Tiled (ceilBlocks file.logicalSize) es ∧ ∀ e ∈ es, Placed v e := by
  cases h with
  | classic _ _ _ _ _ _ _ htiled hplaced => exact ⟨htiled, hplaced⟩
  | paged hstanding hsnapshot =>
    obtain ⟨groups, hfilled, rfl⟩ := hstanding.snapshot_iff.mp hsnapshot
    exact ⟨hfilled.tiled, hfilled.placed⟩

theorem Standing.rebuild_start (h : Standing retained live v file pages) (hsnapshot : (pagedExtentSnapshot file v).1 = .ok es)
    (hpos : 0 < new.blockCount) (hin : new.stop ≤ ceilBlocks file.logicalSize) (hcut : CutsNone new.segment es) :
    ∃ u, Ticked v u ∧ ∀ release, replaceRebuild release file new v = (do
      releaseAll release (releasedRuns new.segment es)
      rewriteAll file (spliced new es) false) u := by
  obtain ⟨htiled, hplaced⟩ := Holds.list (.paged h hsnapshot)
  obtain ⟨groups, hfilled, rfl⟩ := h.snapshot_iff.mp hsnapshot
  obtain ⟨u, hu, hrun⟩ := h.snapshot_filled hfilled
  exact ⟨u.tickOn, hu.trans (.next u), fun release => replaceRebuild_eq htiled hplaced hpos hin hcut (hu.serving h.serving) hrun
    ((Nat.add_le_add_right (hfilled.length_le h) 3).trans (by decide))⟩

end Rebuilds

section Conversion

variable {retained live live' : Nat → Bool} {v v' : Volume Block} {file : FileHead} {entries old : List Extent}

theorem Serving.converts (hv : Serving v) (haccounts : Accounts retained live v) (howner : idIsZero file.objectId = false)
    (harea : file.area = .classic old) (hne : entries ≠ []) (hfits : pagesFor entries ≤ pointersPerPage)
    (hroom : pagesFor entries < (clearBlocks v.bitmap v.total).card) :
    ∃ file' stored v', rewriteAll file entries true v = (.ok file', v') ∧
      Rewritten retained live v v' file file' [] stored (paginate entries) entries.length := by
  have hlength := length_paginate entries
  have hlevels : levels (pagesFor entries) = 1 := levels_one (pagesFor_pos hne) hfits
  have hcount : ¬levels (entries.length / extentsPerPage + if entries.length % extentsPerPage ≠ 0 then 1 else 0) = 0 := by
    show ¬levels (pagesFor entries) = 0
    rw [hlevels]
    decide
  have hold : oldPageBlocks file true v = (.ok [], v) := by
    rw [oldPageBlocks, if_neg (by simp)]
    rfl
  have htree : freeOldTree file true = pure () := by rw [freeOldTree, harea]
  have hstart := (Progress.refl hv haccounts).ticked (Ticked.next v)
  rcases hstart.storesPages howner (paginate entries) [] (fun group hgroup => mem_paginate hgroup) (by simp) (by simp) with
    ⟨stored, u, hstore, hstored, -, hu⟩ | ⟨-, hfew⟩
  · simp only [List.take_nil, List.map_nil, List.append_nil] at hu
    have hrun : rewriteAll file entries true v = newHead file entries.length stored u := by
      rw [rewriteAll, if_neg hne, if_neg hcount, bind_of_ok hold, bind_of_ok (allocate_ok hv.granted), bind_of_ok hstore, List.drop_nil,
        htree]
      rfl
    rcases hu.newHeads hstored hne hcount howner with ⟨file', v', hhead, hrewritten⟩ | ⟨-, hfew⟩ | ⟨hlarge, -⟩
    · exact ⟨file', stored, v', hrun.trans hhead, hrewritten⟩
    · have := hfew hfits
      omega
    · omega
  · rw [hlength, List.length_nil] at hfew
    omega

theorem Elsewhere.trans {owned : List Nat} {w : Volume Block} (h : Elsewhere retained owned v v' live)
    (h' : Elsewhere retained owned v' w live') : Elsewhere retained owned v w live' :=
  { h' with
    total := h'.total.trans h.total
    features := h'.features.trans h.features
    baseSb := h'.baseSb.trans h.baseSb
    disk := fun b hb => (h'.disk b hb).trans (h.disk b hb)
    own := fun b hb => (h'.own b hb).trans (h.own b hb) }

theorem Elsewhere.holds {pages : List UInt64} {es : List Extent} (h : Elsewhere retained (file.owned pages) v v' live')
    (hstanding : Standing retained live v file pages) (hsnapshot : (pagedExtentSnapshot file v).1 = .ok es) :
    Standing retained live' v' file pages ∧ (pagedExtentSnapshot file v').1 = .ok es := by
  obtain ⟨groups, hfilled, hes⟩ := hstanding.snapshot_iff.mp hsnapshot
  have hstanding' := h.standing hstanding
  exact ⟨hstanding', hstanding'.snapshot_iff.mpr ⟨groups, h.filled hstanding.serving hfilled, hes⟩⟩

theorem Rewritten.snapshot {file' : FileHead} {stored : List UInt64} {gone : List Nat}
    (h : Rewritten retained live v v' file file' gone stored (paginate entries) entries.length)
    (hstanding : Standing retained live' v' file' stored) (howner : idIsZero file.objectId = false)
    (htiled : File.Tiled (ceilBlocks file.logicalSize) entries) (hplaced : ∀ e ∈ entries, Placed v e) :
    (pagedExtentSnapshot file' v').1 = .ok entries :=
  hstanding.snapshot_iff.mpr ⟨_, h.filled howner htiled hplaced, File.paginate_flatten entries⟩

end Conversion

section Yields

variable {retained live live' : Nat → Bool} {v v' : Volume Block} {file : FileHead} {pages : List UInt64}
  {entries es : List Extent}
  {new : Extent} {release : Segment → VolumeM Block Unit}

theorem Ticked.elsewhere {owned : List Nat} (h : Ticked v v') (hserving : Serving v) (haccounts : Accounts retained live v)
    (howned : ∀ b ∈ owned, live b = true ∧ v.bitmap b = true) : Elsewhere retained owned v v' live := by
  have hprogress := (Progress.refl hserving haccounts).ticked h
  obtain ⟨free, hsb⟩ := hprogress.context.superblock
  refine ⟨hprogress.serving, ?_, hprogress.total, by rw [hsb], hprogress.context.baseSb, ?_, fun b hb => (howned b hb).1, ?_⟩
  · exact accounts_congr hprogress.accounts fun b => by simp [exchanged_iff]
  · exact fun b hb => hprogress.disk b (howned b hb).1 (by simp)
  · exact fun b hb => hprogress.private_eq b (howned b hb).2

theorem Ticked.clearBlocks_eq (h : Ticked v v') : clearBlocks v'.bitmap v'.total = clearBlocks v.bitmap v.total := by
  obtain ⟨t, -, rfl⟩ := h
  rfl

theorem Elsewhere.trapped_iff (h : Elsewhere retained (file.owned pages) v v' live') :
    Trapped v' file pages entries ↔ Trapped v file pages entries := by
  refine and_congr_right fun _ => and_congr_right fun _ => exists_congr fun p => and_congr_right fun hp => ?_
  rw [h.own _ (mem_owned_of_page (List.mem_of_mem_drop hp))]

theorem Serving.replaces (hserving : Serving v) (haccounts : Accounts retained live v) (howner : idIsZero file.objectId = false)
    (harea : file.area = .classic es) (hfits : es.length ≤ maxFileExtents)
    (htiled : File.Tiled (ceilBlocks file.logicalSize) es) (hplaced : ∀ e ∈ es, Placed v e) (hnew : Placed v new)
    (hin : new.stop ≤ ceilBlocks file.logicalSize) (hcut : CutsNone new.segment es)
    (hdata : ∀ b, covers (releasedRuns new.segment es) b = true → live b = true)
    (hrelease : Lenient retained release (releasedRuns new.segment es))
    (hroom : maxFileExtents < (spliced new es).length → pagesFor (spliced new es) < (clearBlocks v.bitmap v.total).card) :
    (∃ file' v' pages' live', classicReplace release file es new v = (.ok file', v') ∧
        Holds retained live' v' file' (spliced new es) pages') ↔
      ¬(maxFileExtents < (spliced new es).length ∧ v.sb.incompatFlags &&& incompatPagedExtents = 0) := by
  have hpos := hnew.positive
  have hne := spliced_ne htiled hpos hin
  have htiled' : File.Tiled (ceilBlocks file.logicalSize) (spliced new es) :=
    tiles_spliced htiled hpos (Nat.zero_le _) hin
  have hplaced' := Placed.spliced hplaced hnew hcut
  rw [classicReplace_eq htiled hplaced hpos hin hcut hserving]
  have hu : Ticked v v.tickOn.tickOn := (Ticked.next v).trans (.next _)
  have hfirst : Elsewhere retained [] v v.tickOn.tickOn live := hu.elsewhere hserving haccounts (by simp)
  have hinside (b : Nat) (hb : covers (releasedRuns new.segment es) b = true) : b ≠ 0 ∧ b < v.total := Placed.released hplaced hb
  by_cases hsmall : (spliced new es).length ≤ maxFileExtents
  · -- the new list fits the object
    refine iff_of_true ?_ fun hblocked => Nat.not_lt.mpr hsmall hblocked.1
    obtain ⟨w, live', hreleased, hsecond, -⟩ := hrelease _ live [] hfirst.serving hfirst.accounts (by simp)
      fun b hb => ⟨(hinside b hb).1, (hinside b hb).2, hdata b hb⟩
    rw [storeClassic, if_pos hsmall, pure_bind, bind_of_ok hreleased]
    have helse := hfirst.trans hsecond
    exact ⟨_, w, [], live', rfl, .classic rfl rfl hsmall rfl howner helse.serving helse.accounts htiled'
      fun e he => (hplaced' e he).frame helse.total helse.features⟩
  · -- it does not, and the file is converted
    have hlarge : maxFileExtents < (spliced new es).length := Nat.lt_of_not_le hsmall
    have hlength := length_spliced htiled hpos
    have hpages : pagesFor (spliced new es) ≤ pointersPerPage := by
      rw [maxFileExtents] at hfits
      rw [pagesFor, extentsPerPage, pointersPerPage]
      split <;> omega
    obtain ⟨file', stored, w, hok, hrewritten⟩ := hfirst.serving.converts hfirst.accounts howner harea hne hpages
      (by rw [hu.clearBlocks_eq]; exact hroom hlarge)
    obtain ⟨mine, hprogress, hmine⟩ := hrewritten.progress
    obtain ⟨free, hsb⟩ := hprogress.context.superblock
    have hfeatures : w.sb.incompatFlags = v.sb.incompatFlags := by
      rw [hsb]
      exact hfirst.features
    have hlive (b : Nat) (hb : live b = true) : exchanged live [] (file'.owned stored) b = true :=
      exchanged_iff.mpr (.inl ⟨hb, by simp⟩)
    have haccounts' : Accounts retained (exchanged live [] (file'.owned stored)) w :=
      accounts_congr hprogress.accounts fun b => by rw [exchanged_iff, exchanged_iff, hmine]
    -- the new pages are none of the blocks that are released
    obtain ⟨x, live', hreleased, hsecond, -⟩ := hrelease w _ (file'.owned stored) hprogress.serving haccounts'
      (fun b hb => ⟨exchanged_iff.mpr (.inr hb), by
        by_contra hcovers
        have hold := hprogress.fresh b ((hmine b).mpr hb) (hdata b (by simpa using hcovers))
        cases hold⟩)
      fun b hb => ⟨(hinside b hb).1, by rw [hprogress.total]; exact (hinside b hb).2, hlive b (hdata b hb)⟩
    rw [storeClassic, if_neg hsmall, bind_of_ok hok, bind_of_ok hreleased]
    constructor
    · rintro ⟨file'', v', pages', live'', hrun, hholds⟩ ⟨-, hnone⟩
      cases hrun
      cases hholds with
      | classic harea' =>
        cases hrewritten.form with
        | paged head harea'' =>
          rw [harea''] at harea'
          cases harea'
        | tree head harea'' =>
          rw [harea''] at harea'
          cases harea'
      | paged hstanding =>
        have hfeature := (hstanding.valid.laid hstanding.serving).feature
        rw [hsecond.features, hfeatures] at hfeature
        exact hfeature hnone
    · intro hnot
      have hfeature : v.tickOn.tickOn.sb.incompatFlags &&& incompatPagedExtents ≠ 0 := fun hzero => hnot ⟨hlarge, hzero⟩
      have hstanding := hrewritten.stands hne hfeature howner
      have hsnapshot := hrewritten.snapshot hstanding howner htiled' fun e he => (hplaced' e he).frame hfirst.total hfirst.features
      obtain ⟨hstanding', hsnapshot'⟩ := hsecond.holds hstanding hsnapshot
      exact ⟨file', x, stored, live', rfl, .paged hstanding' hsnapshot'⟩

variable (h : Standing retained live v file pages)
include h

/-- A rewrite with room for the pages succeeds unless it is in the trap or one
pointer page is not enough. -/
theorem Standing.rewrites_iff (hne : entries ≠ [])
    (hroom : pagesFor entries < (clearBlocks v.bitmap v.total).card) :
    (∃ file' v', rewriteAll file entries false v = (.ok file', v')) ↔
      ¬(pointersPerPage < pagesFor entries ∨ Trapped v file pages entries) := by
  constructor
  · rintro ⟨file', v', hok⟩
    obtain ⟨-, hnot, stored, hrewritten⟩ := h.rewritten hok
    have hfits := (hrewritten.standing h hne).fits
    rw [hrewritten.length, length_paginate] at hfits
    rintro (hlarge | htrap)
    · omega
    · exact hnot htrap
  · intro hnot
    rw [not_or, Nat.not_lt] at hnot
    obtain ⟨file', stored, v', hok, -⟩ := h.rewrites hnot.2 hne hnot.1 hroom
    exact ⟨file', v', hok⟩

variable (hsnapshot : (pagedExtentSnapshot file v).1 = .ok es) (hnew : Placed v new)
  (hin : new.stop ≤ ceilBlocks file.logicalSize) (hcut : CutsNone new.segment es)
  (hdata : ∀ b, covers (releasedRuns new.segment es) b = true → live b = true ∧ b ∉ file.owned pages)
  (hrelease : Lenient retained release (releasedRuns new.segment es))
include hsnapshot hnew hin hcut hdata hrelease

/-- The snapshot and the releases leave the file as it was for the rewrite. -/
theorem Standing.releases :
    ∃ w live', replaceRebuild release file new v = rewriteAll file (spliced new es) false w ∧
      Elsewhere retained (file.owned pages) v w live' ∧
      (clearBlocks v.bitmap v.total).card ≤ (clearBlocks w.bitmap w.total).card := by
  obtain ⟨-, hplaced⟩ := Holds.list (.paged h hsnapshot)
  obtain ⟨u, hu, hrun⟩ := h.rebuild_start hsnapshot hnew.positive hin hcut
  have hset (b : Nat) (hb : b ∈ file.owned pages) : v.bitmap b = true :=
    (h.accounts.set_iff b (h.inside hb)).mpr (.inl (h.owned b hb))
  have hfirst := hu.elsewhere h.serving h.accounts fun b hb => ⟨h.owned b hb, hset b hb⟩
  have hstanding := hfirst.standing h
  obtain ⟨w, live', hreleased, hsecond, hclear⟩ := hrelease u live (file.owned pages) hstanding.serving hstanding.accounts
    (fun b hb => ⟨h.owned b hb, by
      by_contra hcovers
      exact (hdata b (by simpa using hcovers)).2 hb⟩)
    fun b hb => by
      obtain ⟨hzero, hinside⟩ := Placed.released hplaced hb
      exact ⟨hzero, by rw [hu.total]; exact hinside, (hdata b hb).1⟩
  rw [hu.clearBlocks_eq] at hclear
  exact ⟨w, live', by rw [hrun, bind_of_ok hreleased], hfirst.trans hsecond, hclear⟩

theorem Standing.replaces (hroom : pagesFor (spliced new es) < (clearBlocks v.bitmap v.total).card) :
    (∃ file' v' pages' live', replaceRebuild release file new v = (.ok file', v') ∧
        Holds retained live' v' file' (spliced new es) pages') ↔
      ¬(pointersPerPage < pagesFor (spliced new es) ∨ Trapped v file pages (spliced new es)) := by
  have hpos := hnew.positive
  obtain ⟨htiled, hplaced⟩ := Holds.list (.paged h hsnapshot)
  obtain ⟨w, live', hrun, helse, hclear⟩ := h.releases hsnapshot hnew hin hcut hdata hrelease
  have hstanding := helse.standing h
  have hne := spliced_ne htiled hpos hin
  have hroom' := hroom.trans_le hclear
  rw [hrun, ← helse.trapped_iff]
  constructor
  · rintro ⟨file', v', -, -, hok, -⟩
    exact (hstanding.rewrites_iff hne hroom').mp ⟨file', v', hok⟩
  · intro hnot
    rw [not_or, Nat.not_lt] at hnot
    obtain ⟨file', stored, v', hok, hrewritten⟩ := hstanding.rewrites hnot.2 hne hnot.1 hroom'
    have hfinal := hrewritten.standing hstanding hne
    refine ⟨file', v', stored, _, hok, .paged hfinal (hrewritten.snapshot hfinal h.valid.owner ?_ fun e he => ?_)⟩
    · exact tiles_spliced htiled hpos (Nat.zero_le _) hin
    · exact (Placed.spliced hplaced hnew hcut e he).frame helse.total helse.features

theorem Standing.refuses (hgrown : Grown v file pages) (hpages : pagesFor (spliced new es) ≤ 479) :
    (replaceRebuild release file new v).1 = .error .corrupt := by
  obtain ⟨htiled, -⟩ := Holds.list (.paged h hsnapshot)
  obtain ⟨w, live', hrun, helse, hclear⟩ := h.releases hsnapshot hnew hin hcut hdata hrelease
  have htrapped := hgrown.trapped (spliced_ne htiled hnew.positive hin) hpages
  have hroom := hgrown.room
  rw [hrun]
  exact (helse.standing h).corrupt (helse.trapped_iff.mpr htrapped) (by omega)

end Yields

section Release

variable {retained : Nat → Bool}

theorem freeRun_elsewhere {u : Volume Block} {live : Nat → Bool} (owned : List Nat) (run : Segment) (hserving : Serving u)
    (haccounts : Accounts retained live u) (howned : ∀ b ∈ owned, live b = true ∧ run.contains b = false)
    (hrun : ∀ b, run.contains b = true → b ≠ 0 ∧ b < u.total ∧ live b = true) :
    ∃ u', freeRun run.start run.count u = (.ok (), u') ∧
      Elsewhere retained owned u u' (fun b => live b && !run.contains b) ∧
        clearBlocks u.bitmap u.total ⊆ clearBlocks u'.bitmap u'.total := by
  have hbounds (b : Nat) (hlo : run.start ≤ b) (hhi : b < run.start + run.count) : b ≠ 0 ∧ b < u.total ∧ live b = true :=
    hrun b ((contains_iff run b).mpr ⟨hlo, hhi⟩)
  have hstop : run.count = 0 ∨ run.start + run.count ≤ u.total := by
    by_cases hempty : run.count = 0
    · exact .inl hempty
    · have hlast := (hbounds (run.start + run.count - 1) (by omega) (by omega)).2.1
      exact .inr (by omega)
  obtain ⟨u', hfree, hreleased, hdisk⟩ := freeRun_released hserving.toOpenTx hserving.granted run.start run.count hstop
  have hmoves := moves_freeRun run.start run.count u hserving.toInTx
  rw [hfree] at hmoves
  have haccounts' := haccounts.drop run.start run.count (fun b hlo hhi => (hbounds b hlo hhi).2.2) hmoves.1 hreleased
  refine ⟨u', hfree, ⟨?_, haccounts', hreleased.context.total_eq, ?_, hreleased.context.baseSb, ?_, ?_, ?_⟩, ?_⟩
  · exact hserving.acts hmoves.2 haccounts'.toOpenTx (hreleased.granted hserving.granted) (by rw [hreleased.allocated])
      ((hreleased.bitmap 0).mpr ⟨hserving.zero, fun hin => (hbounds 0 hin.1 hin.2.1).1 rfl⟩)
  · obtain ⟨free, hsb⟩ := hreleased.context.superblock
    rw [hsb]
  · exact fun b _ => congrFun hdisk b
  · intro b hb
    rw [(howned b hb).1, (howned b hb).2]
    rfl
  · exact fun b _ => hreleased.private_eq b
  · intro b hb
    rw [mem_clearBlocks] at hb ⊢
    refine ⟨by rw [hreleased.context.total_eq]; exact hb.1, ?_⟩
    by_contra hset
    have hset := ((hreleased.bitmap b).mp (by simpa using hset)).1
    rw [hb.2] at hset
    cases hset

/-- Runs that share no block with each other may be given to `free_run` one
after the other. -/
theorem lenient_freeRun {runs : List Segment}
    (hdisjoint : runs.Pairwise fun r s => ∀ b, r.contains b = true → s.contains b = false) :
    Lenient retained (fun run => do freeRun run.start run.count; checkTxError) runs := by
  induction runs with
  | nil =>
    intro u live owned hserving haccounts howned _
    exact ⟨u, live, rfl, ⟨hserving, haccounts, rfl, rfl, rfl, fun _ _ => rfl, fun b hb => (howned b hb).1, fun _ _ => rfl⟩, le_rfl⟩
  | cons run runs ih =>
    intro u live owned hserving haccounts howned hdata
    obtain ⟨hfirst, hrest⟩ := List.pairwise_cons.mp hdisjoint
    have hsplit (b : Nat) (hb : b ∈ owned) : run.contains b = false ∧ covers runs b = false := by
      have hnone := (howned b hb).2
      rwa [covers_cons, Bool.or_eq_false_iff] at hnone
    obtain ⟨w, hfree, helse, hsub⟩ := freeRun_elsewhere owned run hserving haccounts
      (fun b hb => ⟨(howned b hb).1, (hsplit b hb).1⟩) fun b hb => hdata b (by rw [covers_cons, hb, Bool.true_or])
    have hlater (b : Nat) (hb : covers runs b = true) : run.contains b = false := by
      obtain ⟨s, hs, hin⟩ := (covers_iff _ b).mp hb
      by_contra hhit
      have hmiss := hfirst s hs b (by simpa using hhit)
      rw [(contains_iff s b).mpr hin] at hmiss
      cases hmiss
    obtain ⟨x, live', hrun, helse', hcard⟩ := ih hrest w _ owned helse.serving helse.accounts
      (fun b hb => ⟨helse.live b hb, (hsplit b hb).2⟩) fun b hb => by
        obtain ⟨hzero, hinside, hlive⟩ := hdata b (by rw [covers_cons, hb, Bool.or_true])
        refine ⟨hzero, by rw [helse.total]; exact hinside, ?_⟩
        rw [hlive, hlater b hb]
        rfl
    refine ⟨x, live', ?_, helse.trans helse', (Finset.card_le_card hsub).trans hcard⟩
    rw [releaseAll, bind_assoc, bind_of_ok hfree, bind_of_ok (checkTxError_ok helse.serving.error)]
    exact hrun

end Release

section Operation

variable {retained live : Nat → Bool} {v : Volume Block} {file : FileHead} {pages : List UInt64} {es : List Extent}
  {start count physical : Nat} {flags : UInt32}

theorem fileReplaceRange_start (release : Segment → VolumeM Block Unit) (hnew : Placed v ⟨start, physical, count, flags⟩) :
    fileReplaceRange release file start count physical flags v =
      (match file.area with
        | .classic old => classicReplace release file old ⟨start, physical, count, flags⟩
        | _ => replaceRebuild release file ⟨start, physical, count, flags⟩) v := by
  have hchecks : ¬((addChecked start count).isNone = true ∨ uint32Max < count ∨
      File.extentFlagsValid count physical flags = false) := by
    rintro (hnone | hlarge | hflags)
    · rw [addChecked, if_pos (show start + count < 2 ^ 64 from hnew.stop)] at hnone
      cases hnone
    · exact Nat.not_le.mpr hlarge hnew.count
    · exact absurd (hnew.flags.symm.trans hflags) (by decide)
  refine (congrFun (if_neg hchecks) v).trans ?_
  cases file.area with
  | classic old => rfl
  | paged head => rfl
  | tree head => rfl

theorem Standing.isPaged (h : Standing retained live v file pages) :
    file.isPaged = true ∧ ∀ release new, (match file.area with
      | .classic old => classicReplace release file old new
      | _ => replaceRebuild release file new) = replaceRebuild release file new := by
  cases (h.valid.laid h.serving).form with
  | paged head harea =>
    rw [FileHead.isPaged, harea]
    exact ⟨rfl, fun _ _ => rfl⟩
  | tree head harea =>
    rw [FileHead.isPaged, harea]
    exact ⟨rfl, fun _ _ => rfl⟩

/-- A valid extent in the place of a range that cuts no compressed extent of a
valid file. Both forms of the file come to the same list, which covers the same
blocks, has the range in the new extent and keeps everything else, and both call
the release routine for exactly what the file had in the range. With a routine
that leaves the file alone and with room for the pages, the list ends up in the
file unless it is one that cannot be stored. -/
theorem fileReplaceRange_yields_iff (hfile : Holds retained live v file es pages)
    (hnew : Placed v ⟨start, physical, count, flags⟩) (hin : start + count ≤ ceilBlocks file.logicalSize)
    (hcut : CutsNone ⟨start, count⟩ es) :
    Replacement (ceilBlocks file.logicalSize) ⟨start, physical, count, flags⟩ es
        (spliced ⟨start, physical, count, flags⟩ es) (releasedRuns ⟨start, count⟩ es) ∧
      (∃ u, Ticked v u ∧ ∀ release, fileReplaceRange release file start count physical flags v =
        if file.isPaged then (do
          releaseAll release (releasedRuns ⟨start, count⟩ es)
          rewriteAll file (spliced ⟨start, physical, count, flags⟩ es) false) u
        else (do
          let file ← storeClassic file (spliced ⟨start, physical, count, flags⟩ es)
          releaseAll release (releasedRuns ⟨start, count⟩ es)
          pure file) u) ∧
      ∀ release, Lenient retained release (releasedRuns ⟨start, count⟩ es) →
        (∀ b, covers (releasedRuns ⟨start, count⟩ es) b = true → live b = true ∧ b ∉ file.owned pages) →
        (file.isPaged = true ∨ maxFileExtents < (spliced ⟨start, physical, count, flags⟩ es).length →
          pagesFor (spliced ⟨start, physical, count, flags⟩ es) < (clearBlocks v.bitmap v.total).card) →
        ((∃ file' v' pages' live', fileReplaceRange release file start count physical flags v = (.ok file', v') ∧
            Holds retained live' v' file' (spliced ⟨start, physical, count, flags⟩ es) pages') ↔
          ¬Blocked v file pages (spliced ⟨start, physical, count, flags⟩ es)) := by
  obtain ⟨htiled, hplaced⟩ := hfile.list
  have hpos := hnew.positive
  refine ⟨replacement_spliced htiled (fun e he => (hplaced e he).kind) hpos hin hcut, ?_, fun release hrelease hdata hroom => ?_⟩
  · cases hfile with
    | classic harea hcount hfits hpayload howner hserving =>
      refine ⟨v.tickOn.tickOn, (Ticked.next v).trans (.next _), fun release => ?_⟩
      have hform : file.isPaged = false := by rw [FileHead.isPaged, harea]
      rw [fileReplaceRange_start release hnew, harea, hform]
      exact classicReplace_eq htiled hplaced hpos hin hcut hserving
    | paged hstanding hsnapshot =>
      obtain ⟨u, hu, hrun⟩ := hstanding.rebuild_start hsnapshot hpos hin hcut
      refine ⟨u, hu, fun release => ?_⟩
      rw [fileReplaceRange_start release hnew, hstanding.isPaged.2, if_pos hstanding.isPaged.1]
      exact hrun release
  · rw [fileReplaceRange_start release hnew]
    cases hfile with
    | classic harea hcount hfits hpayload howner hserving haccounts =>
      have hform : file.isPaged = false := by rw [FileHead.isPaged, harea]
      rw [Blocked, hform, harea]
      exact hserving.replaces haccounts howner harea hfits htiled hplaced hnew hin hcut (fun b hb => (hdata b hb).1) hrelease
        fun hlarge => hroom (.inr hlarge)
    | paged hstanding hsnapshot =>
      rw [Blocked, hstanding.isPaged.2, if_pos hstanding.isPaged.1]
      exact hstanding.replaces hsnapshot hnew hin hcut hdata hrelease (hroom (.inl hstanding.isPaged.1))

end Operation

section Examples

def shortFile : FileHead where
  objectId := fileOwner
  payloadSize := 208
  logicalSize := 4 * blockSize
  extentCount := 2
  area := .classic [⟨0, 500, 2, extentNormal⟩, ⟨2, 0, 2, extentHole⟩]

theorem shortFile_holds : Holds (fun _ => false) firstStage.live openVolume shortFile
    [⟨0, 500, 2, extentNormal⟩, ⟨2, 0, 2, extentHole⟩] [] := by
  refine .classic rfl rfl (by decide) rfl (by decide) openVolume_serving firstStage_standing.accounts
    ⟨rfl, by decide, rfl, by decide, rfl⟩ fun e he => ?_
  rcases List.mem_cons.mp he with rfl | he
  · exact placed_normal rfl (by decide) (by decide) (by decide) (by decide) (by decide)
  · rw [List.mem_singleton.mp he]
    exact placed_hole rfl rfl (by decide) (by decide) (by decide)

theorem eq_of_covers_one {p b : Nat} (h : covers [⟨p, 1⟩] b = true) : b = p := by
  obtain ⟨run, hrun, hlo, hhi⟩ := (covers_iff _ b).mp h
  rw [List.mem_singleton.mp hrun] at hlo hhi
  simp only [Segment.stop] at hlo hhi
  omega

/-- The second data block and the first one of the hole are replaced, and the
data block is released. -/
theorem fileReplaceRange_yields_iff_shortFile :
    ∃ file' v' pages' live', fileReplaceRange (fun run => do freeRun run.start run.count; checkTxError) shortFile 1 2 600
        extentNormal openVolume = (.ok file', v') ∧
      Holds (fun _ => false) live' v' file'
        (spliced ⟨1, 600, 2, extentNormal⟩ [⟨0, 500, 2, extentNormal⟩, ⟨2, 0, 2, extentHole⟩]) pages' := by
  have hnew : Placed openVolume ⟨1, 600, 2, extentNormal⟩ :=
    placed_normal rfl (by decide) (by decide) (by decide) (by decide) (by decide)
  have hruns : releasedRuns ⟨1, 2⟩ [⟨0, 500, 2, extentNormal⟩, ⟨2, 0, 2, extentHole⟩] = [⟨501, 1⟩] := by decide
  have hcut : CutsNone ⟨1, 2⟩ [⟨0, 500, 2, extentNormal⟩, ⟨2, 0, 2, extentHole⟩] := by
    intro e he hpacked
    simp only [List.mem_cons, List.not_mem_nil, or_false] at he
    rcases he with rfl | rfl <;> cases hpacked
  have hsmall : ¬maxFileExtents <
      (spliced ⟨1, 600, 2, extentNormal⟩ [⟨0, 500, 2, extentNormal⟩, ⟨2, 0, 2, extentHole⟩]).length := by decide
  refine ((fileReplaceRange_yields_iff shortFile_holds hnew (by decide) hcut).2.2 _ ?_ ?_ ?_).mpr ?_
  · rw [hruns]
    exact lenient_freeRun (List.pairwise_singleton _ _)
  · intro b hb
    rw [hruns] at hb
    rw [eq_of_covers_one hb]
    exact ⟨rfl, by decide⟩
  · rintro (hpaged | hlarge)
    · cases hpaged
    · exact absurd hlarge hsmall
  · rintro ⟨hlarge, -⟩
    exact hsmall hlarge

theorem comb_succ (n : Nat) : comb (n + 1) =
    comb n ++ [if n % 2 = 0 then ⟨n, 0, 1, extentHole⟩ else ⟨n, n + 2, 1, extentNormal⟩] := by
  rw [comb, List.range_succ, List.map_append, List.map_singleton]
  rfl

theorem comb_tiled (n : Nat) : File.Tiled n (comb n) := by
  induction n with
  | zero => rfl
  | succ n ih =>
    rw [comb_succ]
    refine Tiles.concat_iff.mpr ?_
    split
    · exact ⟨ih, Nat.one_pos, rfl⟩
    · exact ⟨ih, Nat.one_pos, rfl⟩

theorem comb_placed {n : Nat} (hn : n < 131070) : ∀ e ∈ comb n, Placed openVolume e ∧ e.isCompressed = false := by
  intro e he
  obtain ⟨i, hi, rfl⟩ := List.mem_map.mp he
  have hi := List.mem_range.mp hi
  have hstop : i + 1 < 2 ^ 64 := by omega
  have hinside : i + 2 + 1 ≤ openVolume.total := show i + 2 + 1 ≤ 262144 by omega
  split
  · exact ⟨placed_hole rfl rfl Nat.one_pos (show 1 ≤ uint32Max by decide) hstop, File.hole_not_compressed⟩
  · exact ⟨placed_normal rfl (Nat.succ_ne_zero (i + 1)) Nat.one_pos (show 1 ≤ uint32Max by decide) hstop hinside,
      File.normal_not_compressed⟩

theorem comb_cuts {n : Nat} (hn : n < 131070) (range : Segment) : CutsNone range (comb n) := by
  intro e he hpacked
  rw [(comb_placed hn e he).2] at hpacked
  cases hpacked

theorem Rewritten.comb_snapshot {retained live live' : Nat → Bool} {v' : Volume Block} {file file' : FileHead} {gone : List Nat}
    {stored : List UInt64} {n : Nat}
    (h : Rewritten retained live openVolume v' file file' gone stored (paginate (comb n)) (comb n).length)
    (hstanding : Standing retained live' v' file' stored) (howner : idIsZero file.objectId = false)
    (hsize : ceilBlocks file.logicalSize = n) (hn : n < 131070) : (pagedExtentSnapshot file' v').1 = .ok (comb n) := by
  refine h.snapshot hstanding howner ?_ fun e he => (comb_placed hn e he).1
  rw [hsize]
  exact comb_tiled n

theorem length_spliced_comb (n : Nat) : (spliced ⟨n, 0, 2, extentHole⟩ (comb (n + 2))).length ≤ n + 1 := by
  have hbefore := (tiles_before (comb_tiled (n + 2)) (Nat.zero_le n) (Nat.le_add_right n 2)).length_le
  have hafter := (tiles_after (comb_tiled (n + 2)) (Nat.zero_le (n + 2)) le_rfl).length_le
  have hfold := length_foldl_emit (pieces ⟨n, 0, 2, extentHole⟩ (comb (n + 2))) []
  have hpieces : (pieces ⟨n, 0, 2, extentHole⟩ (comb (n + 2))).length =
      ((comb (n + 2)).flatMap (before n)).length + (((comb (n + 2)).flatMap (after (n + 2))).length + 1) := by
    rw [pieces, List.length_append, List.length_cons]
    rfl
  rw [spliced]
  rw [List.length_nil] at hfold
  omega

theorem pagesFor_spliced_comb : pagesFor (spliced ⟨79992, 0, 2, extentHole⟩ (comb 79994)) ≤ 479 := by
  have hlength := length_spliced_comb 79992
  simp only [Nat.reduceAdd] at hlength
  rw [pagesFor, extentsPerPage]
  split <;> omega

theorem releasedRuns_comb {n : Nat} (hn : n % 2 = 0) : releasedRuns ⟨n, 2⟩ (comb (n + 2)) = [⟨n + 3, 1⟩] := by
  have hbefore : releasedRuns ⟨n, 2⟩ (comb n) = [] :=
    List.flatMap_eq_nil_iff.mpr fun e he => if_pos (.inl ((comb_tiled n).mem_bounds he).2.2)
  have hhole : File.releasedBlocks ⟨n, 2⟩ ⟨n, 0, 1, extentHole⟩ = [] :=
    if_pos (show extentKind extentHole ≠ extentNormal by decide)
  have hlast : File.releasedBlocks ⟨n, 2⟩ ⟨n + 1, n + 3, 1, extentNormal⟩ = [⟨n + 3, 1⟩] := by
    have hmax : max (n + 1) n = n + 1 := by omega
    have hmin : min (n + 1 + 1) (n + 2) - (n + 1) = 1 := by omega
    have hnormal : ¬extentKind extentNormal ≠ extentNormal := by decide
    simp only [File.releasedBlocks, if_neg hnormal, Extent.isCompressed, File.normal_not_compressed, Extent.stop, Segment.stop, hmax,
      hmin, Nat.sub_self, Nat.add_zero]
    rfl
  have hin : ¬Apart ⟨n, 2⟩ ⟨n + 1, n + 3, 1, extentNormal⟩ := by
    simp only [Apart, Extent.stop, Segment.stop]
    omega
  have hodd : ¬(n + 1) % 2 = 0 := by omega
  rw [comb_succ, comb_succ, if_pos hn, if_neg hodd, List.append_assoc, releasedRuns, List.flatMap_append, ← releasedRuns, hbefore]
  simp only [List.flatMap_append, List.flatMap_singleton, hhole, ite_self, List.nil_append, if_neg hin, hlast]

/-- The rewrite of the comb keeps the data block of the range live and puts no
page into it. -/
theorem comb_data {file' : FileHead} {stored : List UInt64} {v' : Volume Block}
    (h : Rewritten (fun _ => false) firstStage.live openVolume v' onePage file' (onePage.owned [1]) stored (paginate (comb 79994))
      (comb 79994).length) (b : Nat) (hb : covers (releasedRuns ⟨79992, 2⟩ (comb 79994)) b = true) :
    exchanged firstStage.live (onePage.owned [1]) (file'.owned stored) b = true ∧ b ∉ file'.owned stored := by
  rw [releasedRuns_comb (n := 79992) (by decide)] at hb
  rw [eq_of_covers_one hb]
  obtain ⟨mine, hprogress, hmine⟩ := h.progress
  have hgone : 79992 + 3 ∉ onePage.owned [1] := by decide
  exact ⟨exchanged_iff.mpr (.inl ⟨by decide, hgone⟩), fun hin => hgone (hprogress.fresh _ ((hmine _).mpr hin) (by decide))⟩

/-- An operation has brought a file to 480 private pages and now puts a hole in
the place of its last two blocks, of which one is data. The file is valid, the
range cuts nothing, the data block is live and there is room, but the list of
479 pages is refused. -/
theorem valid_replacement_corrupt : ∃ file' v' pages live,
    Holds (fun _ => false) live v' file' (comb 79994) pages ∧ Placed v' ⟨79992, 0, 2, extentHole⟩ ∧
      79992 + 2 ≤ ceilBlocks file'.logicalSize ∧ CutsNone ⟨79992, 2⟩ (comb 79994) ∧
      (∀ b, covers (releasedRuns ⟨79992, 2⟩ (comb 79994)) b = true → live b = true ∧ b ∉ file'.owned pages) ∧
      pagesFor (spliced ⟨79992, 0, 2, extentHole⟩ (comb 79994)) < (clearBlocks v'.bitmap v'.total).card ∧
      (fileReplaceRange (fun run => do freeRun run.start run.count; checkTxError) file' 79992 2 0 extentHole v').1 =
        .error .corrupt := by
  obtain ⟨file', stored, v', -, hrewritten⟩ := comb_rewritten
  have hgrown := comb_grown hrewritten
  have hstanding := hrewritten.standing firstStage_standing comb_ne
  have hsize : ceilBlocks onePage.logicalSize = 79994 := rfl
  have hsnapshot := hrewritten.comb_snapshot hstanding (by decide) hsize (by omega)
  have hin : 79992 + 2 ≤ ceilBlocks file'.logicalSize := by rw [hrewritten.logicalSize, hsize]
  have hnew : Placed v' ⟨79992, 0, 2, extentHole⟩ :=
    placed_hole rfl rfl Nat.two_pos (show 2 ≤ uint32Max by decide) (show 79992 + 2 < 2 ^ 64 by omega)
  have hcut : CutsNone ⟨79992, 2⟩ (comb 79994) := comb_cuts (by omega) _
  have hdata := comb_data hrewritten
  have hrelease : Lenient (fun _ => false) (fun run => do freeRun run.start run.count; checkTxError)
      (releasedRuns ⟨79992, 2⟩ (comb 79994)) := by
    rw [releasedRuns_comb (n := 79992) (by decide)]
    exact lenient_freeRun (List.pairwise_singleton _ _)
  refine ⟨file', v', stored, _, .paged hstanding hsnapshot, hnew, hin, hcut, hdata,
    (Nat.lt_succ_of_le pagesFor_spliced_comb).trans_le hgrown.room, ?_⟩
  rw [fileReplaceRange_start _ hnew, hstanding.isPaged.2]
  exact hstanding.refuses hsnapshot hnew hin hcut hdata hrelease hgrown pagesFor_spliced_comb

end Examples

end InfiltratorFS.Paged
