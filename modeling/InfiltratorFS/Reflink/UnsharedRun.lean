import InfiltratorFS.File.Release
import InfiltratorFS.Checkpoint.GraphLoad
import InfiltratorFS.Extents.Paged

namespace InfiltratorFS.Unshared

open Prog Segment
open File (Extent ExtentPage FileObject extentKind extentNormal extentHole extentPhysicalBlocks fileValidate extentPageValid extentsEnd
  ceilBlocks otherReferenceCover Referenced Scanned otherReferenceCover_spec referenced_cons incompatInlineData incompatSharedExtents
  incompatCompressedExtents freeUnsharedLoop freeUnshared)
open Paged (incompatPagedExtents)
open PointerTree (levels)
open Recovery (objectFile objectNamedStream)

section Model

/-- An entry of the object index, with what its object block holds if the
object is a file or a stream. -/
structure IndexEntry where
  objectId : ObjectId
  objectType : UInt16
  file : FileObject

/-- The volume as the release of a run sees it. The calls of `free_run` are
kept in their order. -/
structure Space where
  index : List IndexEntry
  incompatFlags : UInt64
  total : Nat
  bitmap : Nat → Bool
  txPrivate : Nat → Bool
  calls : List Segment
  env : Nat → Status
  tick : Nat

abbrev SpaceM := Prog Space Status

variable (s : Space) (owner : ObjectId)

def Space.enabled (feature : UInt64) : Bool := s.incompatFlags &&& feature != 0

/-- A read, a request for memory, or any other call that may fail. -/
def call : SpaceM Unit := fun s =>
  let s' := { s with tick := s.tick + 1 }
  if s.env s.tick = .ok then (.ok (), s') else (.error (s.env s.tick), s')

/-- `free_run` and the check of `tx_error` after it: blocks of this transaction
are free at once, the others stay until it is published. -/
def freeRun (run : Segment) : SpaceM Unit := do
  modify fun s => { s with
    calls := s.calls ++ [run]
    bitmap := fun b => s.bitmap b && !(run.contains b && s.txPrivate b) }
  call

def fileDataObjectType (type : UInt16) : Bool := type == objectFile || type == objectNamedStream

def blockUsable (b : Nat) : Bool := b != 0 && decide (b < s.total) && s.bitmap b

/-- The checks on where an extent is stored, for files of every form. -/
def extentStored (e : Extent) : Bool :=
  extentKind e.flags == extentHole ||
    ((!e.isCompressed || s.enabled incompatCompressedExtents) && e.physical.count != 0 && decide (e.physicalBlock < s.total) &&
      decide (e.physical.count ≤ s.total - e.physicalBlock))

/-- The ends of an extent, which are looked up in the bitmap for a classic file. -/
def endsUsed (e : Extent) : Bool :=
  extentKind e.flags == extentHole || (s.bitmap e.physicalBlock && s.bitmap (e.physical.stop - 1))

/-- The blocks of extent pages and of the pages of pointers above them. -/
def pageBlocks (f : FileObject) : List Nat :=
  match f.payload with
  | .pages pages index => pages.map (·.block) ++ index
  | _ => []

/-- `file_validate_volume` with the bitmap and the pages, which
`File.fileValidateVolume` leaves to the calls it makes. The pages that a
pointer tree leads to are looked at when the extents are read, and here already
in this model. No page of pointers is valid on a level above the lowest. -/
def fileValidateVolume (f : FileObject) : Bool :=
  fileValidate f && (!f.isInline || s.enabled incompatInlineData) &&
    match f.payload with
    | .inline => true
    | .extents entries => entries.all fun e => extentStored s e && endsUsed s e
    | .pages pages _ => s.enabled incompatPagedExtents && levels pages.length == 1 && (pageBlocks f).all (blockUsable s)

/-- `file_extent_snapshot`: the entries of a classic object, or those of the
pages, which follow each other up to the size of the file. -/
def fileExtentSnapshot (f : FileObject) : Except Status (List Extent) :=
  match f.payload with
  | .inline => .ok []
  | .extents entries => .ok entries
  | .pages pages _ =>
    if pages.all (fun page => extentPageValid s.incompatFlags page.extents && page.extents.all (extentStored s)) &&
        extentsEnd 0 f.payload.extentList == some (ceilBlocks f.logicalSize) then .ok f.payload.extentList
    else .error .corrupt

def isOther (entry : IndexEntry) : Bool := fileDataObjectType entry.objectType && entry.objectId != owner

def otherReferences (cursor stop : Nat) : List IndexEntry → Nat × Nat → SpaceM (Nat × Nat)
  | [], found => pure found
  | entry :: rest, found => do
    if !isOther owner entry then otherReferences cursor stop rest found
    else
      call
      let s ← get
      if !fileValidateVolume s entry.file then fail .corrupt
      else
        call
        let extents ← ofExcept (fileExtentSnapshot s entry.file)
        otherReferences cursor stop rest (otherReferenceCover cursor stop extents found)

def fileOtherReferenceCover (cursor stop : Nat) : SpaceM (Nat × Nat) := do
  call
  let s ← get
  otherReferences owner cursor stop s.index (cursor, stop)

def fileFreeUnsharedRun (run : Segment) : SpaceM Unit := do
  let s ← get
  freeUnshared (fileOtherReferenceCover owner) freeRun (s.enabled incompatSharedExtents) run

end Model

section Scan

variable {owner : ObjectId} {cursor stop : Nat} {s : Space}

def otherExtents (owner : ObjectId) (index : List IndexEntry) : List Extent :=
  (index.filter (isOther owner)).flatMap fun entry => entry.file.payload.extentList

def MappedByOther (owner : ObjectId) (s : Space) (b : Nat) : Prop :=
  ∃ entry ∈ s.index, isOther owner entry = true ∧ Referenced entry.file.payload.extentList b

theorem mappedByOther_iff {b : Nat} : MappedByOther owner s b ↔ Referenced (otherExtents owner s.index) b := by
  simp only [MappedByOther, Referenced, otherExtents, List.mem_flatMap, List.mem_filter]
  constructor
  · rintro ⟨entry, hentry, hother, e, he, hblock⟩
    exact ⟨e, ⟨entry, ⟨hentry, hother⟩, he⟩, hblock⟩
  · rintro ⟨e, ⟨entry, ⟨hentry, hother⟩, he⟩, hblock⟩
    exact ⟨entry, hentry, hother, e, he, hblock⟩

def Accepted (owner : ObjectId) (s : Space) : Prop :=
  ∀ entry ∈ s.index, isOther owner entry = true →
    fileValidateVolume s entry.file = true ∧ fileExtentSnapshot s entry.file = .ok entry.file.payload.extentList

def Calm (s : Space) : Prop := ∀ n, s.env n = .ok

def Still (s u : Space) : Prop := u = { s with tick := u.tick }

theorem total_call (h : Calm s) : Total (Still s) call fun _ => Still s := by
  intro u hu
  have henv : u.env u.tick = .ok := by
    rw [hu]
    exact h u.tick
  refine ⟨(), { u with tick := u.tick + 1 }, if_pos henv, ?_⟩
  unfold Still at hu ⊢
  rw [hu]

theorem fileValidateVolume_still {u : Space} (h : Still s u) (f : FileObject) : fileValidateVolume u f = fileValidateVolume s f := by
  rw [h]
  rfl

theorem fileExtentSnapshot_still {u : Space} (h : Still s u) (f : FileObject) : fileExtentSnapshot u f = fileExtentSnapshot s f := by
  rw [h]
  rfl

theorem otherReferenceCover_append (xs ys : List Extent) (found : Nat × Nat) :
    otherReferenceCover cursor stop (xs ++ ys) found =
      otherReferenceCover cursor stop ys (otherReferenceCover cursor stop xs found) := by
  induction xs generalizing found with
  | nil => rfl
  | cons e xs ih =>
    obtain ⟨coverEnd, nextStart⟩ := found
    rw [List.cons_append, otherReferenceCover, otherReferenceCover]
    split
    · exact ih _
    · split
      · exact ih _
      · exact ih _

theorem total_otherReferences (hcalm : Calm s) (entries : List IndexEntry) (hentries : ∀ entry ∈ entries, isOther owner entry = true →
      fileValidateVolume s entry.file = true ∧ fileExtentSnapshot s entry.file = .ok entry.file.payload.extentList)
    (found : Nat × Nat) :
    Total (Still s) (otherReferences owner cursor stop entries found)
      fun r u => r = otherReferenceCover cursor stop (otherExtents owner entries) found ∧ Still s u := by
  induction entries generalizing found with
  | nil => exact .pure fun u hu => ⟨rfl, hu⟩
  | cons entry entries ih =>
    have ih := ih fun entry' hentry' => hentries entry' (List.mem_cons_of_mem entry hentry')
    rw [otherReferences]
    cases hother : isOther owner entry with
    | false =>
      rw [otherExtents, List.filter_cons_of_neg (by simp [hother]), ← otherExtents]
      exact ih found
    | true =>
      obtain ⟨hvalid, hsnapshot⟩ := hentries entry List.mem_cons_self hother
      rw [otherExtents, List.filter_cons_of_pos hother, List.flatMap_cons, otherReferenceCover_append, ← otherExtents]
      refine (total_call hcalm).bind fun _ => .get_bind fun u hu => ?_
      rw [fileValidateVolume_still hu, hvalid, fileExtentSnapshot_still hu, hsnapshot]
      exact ((total_call hcalm).bind fun _ => ih _).pre fun w hw => hw ▸ hu

theorem total_fileOtherReferenceCover (hcalm : Calm s) (haccepted : Accepted owner s) :
    Total (Still s) (fileOtherReferenceCover owner cursor stop)
      fun r u => r = otherReferenceCover cursor stop (otherExtents owner s.index) (cursor, stop) ∧ Still s u := by
  refine (total_call hcalm).bind fun _ => .get_bind fun u hu => ?_
  have hindex : u.index = s.index := by rw [hu]
  rw [hindex]
  exact (total_otherReferences hcalm s.index haccepted _).pre fun w hw => hw ▸ hu

theorem otherReferenceCover_next (es : List Extent) (hes : ∀ e ∈ es, extentKind e.flags = extentNormal → 0 < e.physical.count)
    (found : Nat × Nat) :
    (otherReferenceCover cursor stop es found).2 = found.2 ∨ Referenced es (otherReferenceCover cursor stop es found).2 := by
  induction es generalizing found with
  | nil => exact .inl rfl
  | cons e es ih =>
    obtain ⟨coverEnd, nextStart⟩ := found
    have ih := ih fun e' he' => hes e' (List.mem_cons_of_mem e he')
    have hrest {found' : Nat × Nat} (h : (otherReferenceCover cursor stop es found').2 = found'.2 ∨
        Referenced es (otherReferenceCover cursor stop es found').2) (hfound : found'.2 = nextStart) :
        (otherReferenceCover cursor stop es found').2 = nextStart ∨
          Referenced (e :: es) (otherReferenceCover cursor stop es found').2 :=
      h.imp (fun heq => heq.trans hfound) fun hr => referenced_cons.mpr (.inr hr)
    rw [otherReferenceCover]
    dsimp only
    split
    · exact hrest (ih _) rfl
    · rename_i hkept
      have hnormal : extentKind e.flags = extentNormal := by
        by_contra hne
        exact hkept (.inl hne)
      split
      · exact hrest (ih _) rfl
      · rcases ih (coverEnd, min nextStart e.physical.start) with hmin | hr
        · rw [hmin]
          rcases Nat.le_total nextStart e.physical.start with hle | hle
          · exact .inl (Nat.min_eq_left hle)
          · right
            have hpositive := hes e List.mem_cons_self hnormal
            refine referenced_cons.mpr (.inl ⟨hnormal, (contains_iff _ _).mpr ⟨?_, ?_⟩⟩)
            · exact (Nat.min_eq_right hle).ge
            · dsimp only
              rw [Nat.min_eq_right hle, Segment.stop]
              omega
        · exact .inr (referenced_cons.mpr (.inr hr))

end Scan

section Release

variable {owner : ObjectId} {s : Space} {f : FileObject} {e : Extent}

theorem flagsValid_of_extentsEnd {next stop : Nat} {es : List Extent} (h : extentsEnd next es = some stop) (he : e ∈ es) :
    File.extentFlagsValid e.blockCount e.physicalBlock e.flags = true := by
  induction es generalizing next with
  | nil => cases he
  | cons e' es ih =>
    rw [extentsEnd] at h
    obtain ⟨hchecks, h⟩ := Option.ite_none_left_eq_some.mp h
    rcases List.mem_cons.mp he with rfl | he
    · by_contra hinvalid
      exact hchecks (.inr (.inr (Bool.not_eq_true _ ▸ hinvalid)))
    · split at h
      · cases h
      · exact ih h he

theorem kind_of_flagsValid (h : File.extentFlagsValid e.blockCount e.physicalBlock e.flags = true)
    (hhole : extentKind e.flags ≠ extentHole) :
    extentKind e.flags = extentNormal := by
  rw [File.extentFlagsValid] at h
  split at h
  · cases h
  · split at h
    · cases h
    · rename_i hkind
      by_contra hne
      exact hkind (.inl hne)

theorem count_of_extentStored (h : extentStored s e = true) (hkind : extentKind e.flags = extentNormal) : 0 < e.physical.count := by
  simp only [extentStored, hkind, Bool.or_eq_true, Bool.and_eq_true, bne_iff_ne, beq_iff_eq] at h
  rcases h with hhole | h
  · cases hhole
  · exact Nat.pos_of_ne_zero h.1.1.2

/-- The mutators accept a file that is accepted here, if their calls succeed. -/
theorem fileValidateVolume_refines {t : File.FileState} (hflags : t.incompatFlags = s.incompatFlags)
    (hfinalized : t.object.finalized = true) (h : fileValidateVolume s t.object = true) :
    Total (File.Steady t) File.fileValidateVolume fun _ => File.Steady t := by
  have henabled (feature : UInt64) : t.enabled feature = s.enabled feature := by
    rw [File.FileState.enabled, hflags, Space.enabled]
  rw [fileValidateVolume, Bool.and_eq_true, Bool.and_eq_true] at h
  obtain ⟨⟨hvalid, hinline⟩, hpayload⟩ := h
  refine File.total_validate hfinalized hvalid (fun hin => ?_) fun hpaged hany => ?_
  · rw [henabled]
    simpa [hin] using hinline
  · obtain ⟨e, he, hc⟩ := List.any_eq_true.mp hany
    rw [henabled]
    generalize t.object.payload = payload at hpayload hpaged he
    cases payload with
    | inline => cases he
    | pages => cases hpaged
    | extents entries =>
      have hstored := (Bool.and_eq_true_iff.mp (List.all_eq_true.mp hpayload e he)).1
      have hkind : extentKind e.flags = extentNormal := eq_of_beq (Bool.and_eq_true_iff.mp hc).1
      simp only [extentStored, hkind, hc, Bool.not_true, Bool.false_or, Bool.or_eq_true, Bool.and_eq_true, beq_iff_eq] at hstored
      exact (hstored.resolve_left (by decide)).1.1.1

theorem Accepted.stored (h : Accepted owner s) {entry : IndexEntry} (hentry : entry ∈ s.index) (hother : isOther owner entry = true)
    (he : e ∈ entry.file.payload.extentList) : extentStored s e = true := by
  obtain ⟨hvalid, hsnapshot⟩ := h entry hentry hother
  unfold fileValidateVolume at hvalid
  unfold fileExtentSnapshot at hsnapshot
  generalize entry.file.payload = payload at hvalid hsnapshot he
  cases payload with
  | inline => cases he
  | extents entries =>
    simp only [Bool.and_eq_true, List.all_eq_true] at hvalid
    exact (hvalid.2 e he).1
  | pages pages index =>
    dsimp only at hsnapshot
    split at hsnapshot
    · rename_i hchecks
      simp only [Bool.and_eq_true, List.all_eq_true] at hchecks
      obtain ⟨page, hpage, hmem⟩ := List.mem_flatMap.mp he
      exact (hchecks.1 page hpage).2 e hmem
    · cases hsnapshot

theorem Accepted.positive (h : Accepted owner s) (he : e ∈ otherExtents owner s.index) (hkind : extentKind e.flags = extentNormal) :
    0 < e.physical.count := by
  obtain ⟨entry, hentry, hmem⟩ := List.mem_flatMap.mp he
  obtain ⟨hentry, hother⟩ := List.mem_filter.mp hentry
  exact count_of_extentStored (h.stored hentry hother hmem) hkind

def released (s : Space) (run : Segment) : Space :=
  { s with
    calls := s.calls ++ [run]
    bitmap := fun b => s.bitmap b && !(run.contains b && s.txPrivate b) }

theorem bitmap_released {run : Segment} {b : Nat} (h : run.contains b = false) : (released s run).bitmap b = s.bitmap b := by
  simp [released, h]

def PagesApart (owner : ObjectId) (s : Space) (lo hi : Nat) : Prop :=
  ∀ entry ∈ s.index, isOther owner entry = true → ∀ b ∈ pageBlocks entry.file, ¬(lo ≤ b ∧ b < hi)

theorem Accepted.release (h : Accepted owner s) {run : Segment} (hfree : ∀ b, run.contains b = true → ¬MappedByOther owner s b)
    (hpages : PagesApart owner s run.start run.stop) : Accepted owner (released s run) := by
  intro entry hentry hother
  obtain ⟨hvalid, hsnapshot⟩ := h entry hentry hother
  refine ⟨?_, hsnapshot⟩
  have hapart := hpages entry hentry hother
  have hmapped (b : Nat) (hb : Referenced entry.file.payload.extentList b) : (released s run).bitmap b = s.bitmap b := by
    apply bitmap_released
    by_contra hcontains
    exact hfree b (by simpa using hcontains) ⟨entry, hentry, hother, hb⟩
  have hstored (e : Extent) (he : e ∈ entry.file.payload.extentList) := h.stored hentry hother he
  unfold fileValidateVolume pageBlocks at *
  generalize hpayload : entry.file.payload = payload at *
  simp only [Bool.and_eq_true] at hvalid ⊢
  refine ⟨hvalid.1, ?_⟩
  cases payload with
  | inline => rfl
  | extents entries =>
    have hflags (e : Extent) (he : e ∈ entries) : File.extentFlagsValid e.blockCount e.physicalBlock e.flags = true := by
      have hfile := hvalid.1.1
      rw [fileValidate, hpayload] at hfile
      cases entries with
      | nil => cases he
      | cons e' es =>
        rw [Bool.and_eq_true, beq_iff_eq] at hfile
        exact flagsValid_of_extentsEnd hfile.2 he
    have hall := hvalid.2
    simp only [List.all_eq_true, Bool.and_eq_true] at hall ⊢
    intro e he
    refine ⟨(hall e he).1, ?_⟩
    have hends := (hall e he).2
    by_cases hhole : extentKind e.flags = extentHole
    · simp [endsUsed, hhole]
    · -- the first and the last block of the extent belong to this file
      have hkind := kind_of_flagsValid (hflags e he) hhole
      have hpositive := count_of_extentStored (hstored e he) hkind
      have hfirst := hmapped e.physicalBlock ⟨e, he, hkind, (contains_iff _ _).mpr ⟨le_rfl, by
        rw [Segment.stop]
        exact Nat.lt_add_of_pos_right hpositive⟩⟩
      have hlast := hmapped (e.physical.stop - 1) ⟨e, he, hkind, (contains_iff _ _).mpr ⟨by
        rw [Segment.stop]
        omega, by
        rw [Segment.stop]
        omega⟩⟩
      rw [endsUsed, hfirst, hlast]
      exact hends
  | pages pages index =>
    simp only [Bool.and_eq_true, List.all_eq_true] at hvalid ⊢
    refine ⟨hvalid.2.1, fun b hb => ?_⟩
    have hb' : run.contains b = false := by
      by_contra hcontains
      exact hapart b hb ((contains_iff _ _).mp (by simpa using hcontains))
    rw [blockUsable, bitmap_released hb']
    exact hvalid.2.2 b hb

end Release

section Sweep

variable {owner : ObjectId} {s : Space} {shared : Nat → Prop} {lo next hi stop : Nat}

/-- The calls are the maximal parts of the run that no other file has, each of
them once. -/
structure Exact (shared : Nat → Prop) (lo hi : Nat) (runs : List Segment) : Prop where
  separated : Segment.Separated runs
  covers : ∀ b, Segment.covers runs b = true ↔ (lo ≤ b ∧ b < hi) ∧ ¬shared b

theorem Exact.skip {runs : List Segment} (h : Exact shared next hi runs) (hle : lo ≤ next)
    (hshared : ∀ b, lo ≤ b → b < next → shared b) : Exact shared lo hi runs := by
  refine ⟨h.separated, fun b => (h.covers b).trans ?_⟩
  constructor
  · rintro ⟨⟨hlo, hhi⟩, hb⟩
    exact ⟨⟨hle.trans hlo, hhi⟩, hb⟩
  · rintro ⟨⟨hlo, hhi⟩, hb⟩
    refine ⟨⟨?_, hhi⟩, hb⟩
    by_contra hlt
    exact hb (hshared b hlo (by omega))

theorem Exact.cons {runs : List Segment} (h : Exact shared next hi runs) (hlt : lo < next)
    (hle : next ≤ hi) (hclear : ∀ b, lo ≤ b → b < next → ¬shared b) (hnext : next = hi ∨ shared next) :
    Exact shared lo hi (⟨lo, next - lo⟩ :: runs) := by
  have hstop : (⟨lo, next - lo⟩ : Segment).stop = next := by
    rw [Segment.stop]
    dsimp only
    omega
  refine ⟨(Segment.separated_cons _ _).mpr ⟨by dsimp only; omega, h.separated, fun b hb => ?_⟩, fun b => ?_⟩
  · obtain ⟨⟨hlo, hhi⟩, hb⟩ := (h.covers b).mp hb
    rw [hstop]
    rcases hnext with rfl | hshared
    · omega
    · refine lt_of_le_of_ne hlo ?_
      rintro rfl
      exact hb hshared
  · rw [covers_cons, Bool.or_eq_true, h.covers, contains_iff, hstop]
    constructor
    · rintro (⟨hlo, hhi⟩ | ⟨⟨hlo, hhi⟩, hb⟩)
      · exact ⟨⟨hlo, hhi.trans_le hle⟩, hclear b hlo hhi⟩
      · exact ⟨⟨hlt.le.trans hlo, hhi⟩, hb⟩
    · rintro ⟨⟨hlo, hhi⟩, hb⟩
      rcases Nat.lt_or_ge b next with hbefore | hafter
      · exact .inl ⟨hlo, hbefore⟩
      · exact .inr ⟨⟨hafter, hhi⟩, hb⟩

theorem exact_nil (shared : Nat → Prop) (h : hi ≤ lo) : Exact shared lo hi [] := by
  refine ⟨Segment.separated_nil, fun b => ⟨fun hb => (by cases hb), ?_⟩⟩
  rintro ⟨⟨hlo, hhi⟩, _⟩
  omega

theorem PagesApart.mono {lo' hi' : Nat} (h : PagesApart owner s lo hi) (hlo : lo ≤ lo') (hhi : hi' ≤ hi) :
    PagesApart owner s lo' hi' :=
  fun entry hentry hother b hb hin => h entry hentry hother b hb ⟨hlo.trans hin.1, hin.2.trans_le hhi⟩

theorem total_freeRun (hcalm : Calm s) (run : Segment) : Total (Still s) (freeRun run) fun _ => Still (released s run) := by
  refine (Total.modify (R := fun _ => Still (released s run)) fun u hu => ?_).bind fun _ => total_call hcalm
  unfold Still at hu ⊢
  rw [hu]
  rfl

/-- The sweep from a cursor on. Each of its rounds moves the cursor. -/
theorem total_freeUnsharedLoop (cursor stop : Nat) (hcalm : Calm s) (haccepted : Accepted owner s)
    (hpages : PagesApart owner s cursor stop) :
    Total (Still s) (freeUnsharedLoop (fileOtherReferenceCover owner) freeRun cursor stop)
      fun _ u => ∃ runs, u.calls = s.calls ++ runs ∧ Exact (MappedByOther owner s) cursor stop runs := by
  fun_induction freeUnsharedLoop (fileOtherReferenceCover owner) freeRun cursor stop generalizing s with
  | case2 =>
    refine .pure fun u hu => ⟨[], ?_, exact_nil _ (by omega)⟩
    rw [hu, List.append_nil]
  | case1 cursor hlt ihCover ihNext =>
    have hscan : Scanned cursor stop (otherExtents owner s.index) (cursor, stop) _ := otherReferenceCover_spec _ _ le_rfl hlt hlt
    have hnext : (otherReferenceCover cursor stop (otherExtents owner s.index) (cursor, stop)).2 = stop ∨ _ :=
      otherReferenceCover_next _ (fun e he hkind => haccepted.positive he hkind) _
    refine (total_fileOtherReferenceCover hcalm haccepted).bind fun found => .of_and fun hfound => ?_
    rw [← hfound] at hscan hnext
    obtain ⟨hgrows, hwithin, hnextGt, hnextLe, hcovered, hclear⟩ := hscan
    dsimp only at hgrows hwithin hnextGt hnextLe hcovered hnext
    by_cases hcover : cursor < found.1
    · -- others have the blocks up to the end of the cover
      rw [if_pos hcover]
      refine (ihCover found hcover hcalm haccepted (hpages.mono hcover.le le_rfl)).post ?_
      rintro _ u ⟨runs, hcalls, hexact⟩
      refine ⟨runs, hcalls, hexact.skip hcover.le fun b hlo hhi => mappedByOther_iff.mpr ?_⟩
      exact (hcovered b hlo hhi).resolve_left (by omega)
    · rw [if_neg hcover, if_neg (by omega)]
      have hfree (b : Nat) (hlo : cursor ≤ b) (hhi : b < found.2) : ¬MappedByOther owner s b := by
        rw [mappedByOther_iff]
        exact hclear (by omega) b hlo hhi (by omega)
      have hstop : (⟨cursor, found.2 - cursor⟩ : Segment).stop = found.2 := by
        rw [Segment.stop]
        dsimp only
        omega
      have haccepted' : Accepted owner (released s ⟨cursor, found.2 - cursor⟩) := by
        refine haccepted.release (fun b hb => ?_) (hpages.mono le_rfl (by omega))
        obtain ⟨hlo, hhi⟩ := (contains_iff _ _).mp hb
        exact hfree b hlo (hstop ▸ hhi)
      have hcalm' : Calm (released s ⟨cursor, found.2 - cursor⟩) := hcalm
      refine (total_freeRun hcalm _).bind fun _ => (ihNext found (by omega) hcalm' haccepted' (hpages.mono hnextGt.le le_rfl)).post ?_
      rintro _ u ⟨runs, hcalls, hexact⟩
      refine ⟨⟨cursor, found.2 - cursor⟩ :: runs, ?_, hexact.cons hnextGt hnextLe hfree (hnext.imp_right mappedByOther_iff.mpr)⟩
      rw [hcalls, released, List.append_assoc, List.singleton_append]

theorem exact_singleton {run : Segment} (hcount : run.count ≠ 0) :
    Exact shared run.start run.stop [run] ↔ ∀ b, run.contains b = true → ¬shared b := by
  constructor
  · intro h b hb
    exact ((h.covers b).mp (by simpa using hb)).2
  · intro h
    refine ⟨Segment.separated_singleton (Nat.pos_of_ne_zero hcount), fun b => ?_⟩
    rw [covers_cons, Segment.covers_nil, Bool.or_false, contains_iff]
    refine ⟨fun hb => ⟨hb, h b ((contains_iff _ _).mpr hb)⟩, And.left⟩

/-- `file_free_unshared_run` ends, and passes to `free_run` exactly the parts
of the run that no other file has. Without shared extents it passes the whole
run, which is the same if no other file has a block of it. -/
theorem fileFreeUnsharedRun_exact (owner : ObjectId) (run : Segment) (s : Space) (hcalm : Calm s) (hrun : run.stop ≤ s.total)
    (htotal : s.total < 2 ^ 64) (haccepted : Accepted owner s) (hpages : PagesApart owner s run.start run.stop) :
    ∃ s' runs, fileFreeUnsharedRun owner run s = (.ok (), s') ∧ s'.calls = s.calls ++ runs ∧
      (s.enabled incompatSharedExtents = false → run.count ≠ 0 → runs = [run]) ∧
      (Exact (MappedByOther owner s) run.start run.stop runs ↔
        s.enabled incompatSharedExtents = true ∨ ∀ b, run.contains b = true → ¬MappedByOther owner s b) := by
  have hstill : Still s s := rfl
  unfold fileFreeUnsharedRun
  rw [bind_of_ok (get_apply s), freeUnshared]
  by_cases hcount : run.count = 0
  · have hempty : run.stop ≤ run.start := by
      rw [Segment.stop, hcount, Nat.add_zero]
    rw [if_pos hcount]
    refine ⟨s, [], rfl, (List.append_nil _).symm, fun _ h => absurd hcount h, iff_of_true (exact_nil _ hempty) (.inr fun b hb => ?_)⟩
    have hin := (contains_iff _ _).mp hb
    omega
  · rw [if_neg hcount]
    cases hshared : s.enabled incompatSharedExtents with
    | false =>
      rw [if_pos rfl]
      obtain ⟨_, s', hfree, hs'⟩ := total_freeRun hcalm run s hstill
      refine ⟨s', [run], hfree, ?_, fun _ _ => rfl, (exact_singleton hcount).trans (by simp)⟩
      rw [hs']
      rfl
    | true =>
      rw [if_neg (by decide), addChecked, if_pos (by rw [Segment.stop] at hrun; omega)]
      obtain ⟨_, s', hloop, runs, hcalls, hexact⟩ :=
        total_freeUnsharedLoop run.start run.stop hcalm haccepted hpages s hstill
      exact ⟨s', runs, hloop, hcalls, (fun h => by cases h), iff_of_true hexact (.inl rfl)⟩

end Sweep

section Example

def firstId : ObjectId := Vector.replicate 16 1
def secondId : ObjectId := Vector.replicate 16 2

def fileWith (extent : Extent) : FileObject where
  logicalSize := extent.blockCount * blockSize
  portableFlags := 0
  payload := .extents [extent]
  checksums := []
  finalized := true

def twoFiles (incompatFlags : UInt64) : Space where
  index := [⟨firstId, objectFile, fileWith ⟨0, 10, 4, extentNormal⟩⟩, ⟨secondId, objectFile, fileWith ⟨0, 11, 2, extentNormal⟩⟩]
  incompatFlags := incompatFlags
  total := 100
  bitmap := fun b => decide (b < 20)
  txPrivate := fun _ => false
  calls := []
  env := fun _ => .ok
  tick := 0

theorem twoFiles_accepted (incompatFlags : UInt64) : Accepted firstId (twoFiles incompatFlags) := by
  intro entry hentry hother
  rcases List.mem_cons.mp hentry with rfl | hentry
  · cases hother
  · rcases List.mem_cons.mp hentry with rfl | hentry
    · exact ⟨rfl, rfl⟩
    · cases hentry

theorem twoFiles_pagesApart (incompatFlags : UInt64) (lo hi : Nat) : PagesApart firstId (twoFiles incompatFlags) lo hi := by
  intro entry hentry hother b hb
  rcases List.mem_cons.mp hentry with rfl | hentry
  · cases hother
  · rcases List.mem_cons.mp hentry with rfl | hentry
    · cases hb
    · cases hentry

/-- The two blocks around those of the second file. -/
theorem fileFreeUnsharedRun_exact_twoFiles :
    ∃ s' runs, fileFreeUnsharedRun firstId ⟨10, 4⟩ (twoFiles incompatSharedExtents) = (.ok (), s') ∧ s'.calls = [] ++ runs ∧
      Exact (MappedByOther firstId (twoFiles incompatSharedExtents)) 10 14 runs := by
  obtain ⟨s', runs, hrun, hcalls, -, hexact⟩ := fileFreeUnsharedRun_exact firstId ⟨10, 4⟩ (twoFiles incompatSharedExtents)
    (fun _ => rfl)
    (by decide) (by decide) (twoFiles_accepted _) (twoFiles_pagesApart _ _ _)
  exact ⟨s', runs, hrun, hcalls, hexact.mpr (.inl rfl)⟩

/-- Without the feature the blocks of the second file are passed as well. -/
theorem unshared_frees_mapped_without_feature :
    (fileFreeUnsharedRun firstId ⟨10, 4⟩ (twoFiles 0)).1 = .ok () ∧
    (fileFreeUnsharedRun firstId ⟨10, 4⟩ (twoFiles 0)).2.calls = [⟨10, 4⟩] ∧
      MappedByOther firstId (twoFiles 0) 11 :=
  ⟨rfl, rfl, ⟨secondId, objectFile, fileWith ⟨0, 11, 2, extentNormal⟩⟩, by simp [twoFiles], rfl, ⟨0, 11, 2, extentNormal⟩,
    List.mem_cons_self, rfl, rfl⟩

end Example

end InfiltratorFS.Unshared
