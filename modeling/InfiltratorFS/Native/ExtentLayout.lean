import InfiltratorFS.Extents.Snapshot
import InfiltratorFS.Format.Locator
import InfiltratorFS.Library.Bisect
import InfiltratorFS.Native.LinuxMeta

namespace InfiltratorFS.ExtentLayout

open Layout PointerTree Bisect Prog

open File (Extent extentsPerPage extentPagePointers)

open LinuxMeta (Errno)

open Paged (FileHead filePayloadBytes extentHeadBytes levelBelow extentLayout)

section Model

/-- What the adapter sees of the volume. The field `unset` is what stands in a
variable that was never written. -/
structure Adapter where
  total : Nat
  bitmap : Nat → Bool
  generation : Nat
  checkpointBlocks : List Nat
  read : Nat → Except Errno Block
  kmalloc : Except Errno Unit
  unset : UInt64

variable (a : Adapter)

def blockAllocated (block : Nat) : Bool := decide (block < a.total) && a.bitmap block

def readAllocatedBlock (block : Nat) : Except Errno Block :=
  if a.total ≤ block then .error .io
  else if block = locatorBlockA ∨ block = locatorBlockB ∨ a.bitmap block = false ∨ block ∈ a.checkpointBlocks then
    .error .fsCorrupted
  else a.read block

/-- The checks that `infilfs_metadata_page_valid` and
`infilfs_extent_pointer_page_valid` share. -/
def pageHeaderValid (block : Block) (magic : Vector UInt8 8) (owner : ObjectId) (reserved : Nat) : Bool :=
  let h := pageLayout.get block.bytes
  h.magic == magic && h.ownerObjectId == owner &&
    bytesAreZero ((block.bytes.drop (pageChecksumOffset + 8)).take 24) &&
    uint64.get (block.bytes.drop pageChecksumOffset) == blockCrcWithZeroedChecksum block.bytes pageChecksumOffset 32 &&
    h.generation != 0 && decide (h.generation.toNat ≤ a.generation) && h.checksumType == pageChecksumType &&
    h.reserved.toNat == reserved

def metadataPageValid (block : Block) (magic : Vector UInt8 8) (owner : ObjectId) : Bool :=
  pageHeaderValid a block magic owner 0 && decide ((pageLayout.get block.bytes).bytesUsed.toNat ≤ pageDataBytes)

/-- `infilfs_extent_pointer_page_valid`, with the number of pointers. -/
def extentPointerPageValid (block : Block) (owner : ObjectId) (level : Nat) : Option Nat :=
  let h := pageLayout.get block.bytes
  if pageHeaderValid a block extentIndexPageMagic owner level = false then none
  else if h.entryCount.toNat = 0 ∨ pointersPerPage < h.entryCount.toNat ∨ h.bytesUsed.toNat ≠ h.entryCount.toNat * 8 then
    none
  else if (List.range h.entryCount.toNat).all fun i => blockAllocated a (pointerAt block i).toNat then
    some h.entryCount.toNat
  else none

def extentLayoutValidate (file : FileHead) : Except Errno Nat :=
  match file.area with
  | .classic _ => .error .fsCorrupted
  | .paged head =>
    if head.pageCount = 0 ∨ file.extentCount = 0 ∨ file.extentCount < head.pageCount then .error .fsCorrupted
    else if extentPagePointers < head.pageCount ∨ head.reserved ≠ 0 then .error .fsCorrupted
    else if filePayloadBytes + extentHeadBytes + head.pageCount * 8 ≠ file.payloadSize then .error .fsCorrupted
    else if (List.range head.pageCount).all fun i => blockAllocated a (head.pointer i).toNat then .ok head.pageCount
    else .error .fsCorrupted
  | .tree head =>
    if head.pageCount = 0 ∨ file.extentCount = 0 ∨ file.extentCount < head.pageCount then .error .fsCorrupted
    else if head.pageCount ≤ extentPagePointers ∨ head.reserved ≠ levels head.pageCount ∨ head.pointer 0 = 0 ∨
        blockAllocated a (head.pointer 0).toNat = false ∨
        file.payloadSize ≠ filePayloadBytes + extentHeadBytes + 8 then .error .fsCorrupted
    else do
      a.kmalloc
      let page ← readAllocatedBlock a (head.pointer 0).toNat
      if extentPointerPageValid a page file.objectId (levelBelow head.reserved) = none then .error .fsCorrupted
      else .ok head.pageCount

/-- The loop of `infilfs_extent_page_block`. Without levels it does not run, and
leaves the block number as it was. -/
def descend (owner : ObjectId) : Nat → UInt64 → Nat → Except Errno UInt64
  | 0, _, _ => .ok a.unset
  | level + 1, node, index => do
    let span := pointersPerPage ^ level
    let page ← readAllocatedBlock a node.toNat
    match extentPointerPageValid a page owner level with
    | none => .error .fsCorrupted
    | some count =>
      if count ≤ index / span then .error .fsCorrupted
      else if level = 0 then .ok (pointerAt page (index / span))
      else descend owner level (pointerAt page (index / span)) (index % span)

def extentPageBlock (file : FileHead) (i : Nat) : Except Errno UInt64 := do
  let pageCount ← extentLayoutValidate a file
  if pageCount ≤ i then .error .fsCorrupted
  else match file.area with
    | .classic _ => .error .fsCorrupted
    | .paged head => .ok (head.pointer i)
    | .tree head => do
      a.kmalloc
      descend a file.objectId head.reserved (head.pointer 0) i

structure Mapping where
  physical : Nat
  flags : UInt32
  extentLogical : Nat
  extentBlocks : Nat
  deriving DecidableEq

def mapExtent (logical : Nat) (e : Extent) : Except Errno Mapping :=
  if File.extentFlagsValid e.blockCount e.physicalBlock e.flags = false then .error .fsCorrupted
  else
    let physical := if File.extentKind e.flags = File.extentHole then 0
      else if e.isCompressed then e.physicalBlock
      else (e.physicalBlock + (logical - e.logicalBlock)) % 2 ^ 64
    .ok ⟨physical, e.flags, e.logicalBlock, e.blockCount⟩

/-- The loop over the extents of a classic object. -/
def mapClassic (logical : Nat) : List Extent → Except Errno Mapping
  | [] => .error .fsCorrupted
  | e :: es =>
    if e.blockCount = 0 ∨ logical < e.logicalBlock ∨ (e.logicalBlock + e.blockCount) % 2 ^ 64 ≤ logical then
      mapClassic logical es
    else mapExtent logical e

def probeEntry (logical : Nat) (es : List Extent) (i : Nat) : Except Errno (Probe Mapping) :=
  let e := es.getD i default
  if e.blockCount = 0 ∨ 2 ^ 64 - 1 - e.blockCount < e.logicalBlock then .error .fsCorrupted
  else if logical < e.logicalBlock then .ok .before
  else if e.stop ≤ logical then .ok .after
  else Probe.found <$> mapExtent logical e

def blockExtents (owner : ObjectId) (block : UInt64) : Except Errno (List Extent) := do
  let page ← readAllocatedBlock a block.toNat
  let h := pageLayout.get page.bytes
  if metadataPageValid a page extentPageMagic owner = false then .error .fsCorrupted
  else if h.entryCount.toNat = 0 ∨ extentsPerPage < h.entryCount.toNat ∨ h.bytesUsed.toNat ≠ h.entryCount.toNat * 24 then
    .error .fsCorrupted
  else .ok ((extentLayout.getList h.entryCount.toNat (page.bytes.drop pageHeaderBytes)).map Paged.recordExtent)

/-- The search among the extents of a page that should hold the block. -/
def searchPage (logical : Nat) (es : List Extent) : Except Errno Mapping := do
  match ← bisect (probeEntry logical es) es.length 0 es.length with
  | none => .error .fsCorrupted
  | some m => .ok m

def probePage (file : FileHead) (logical i : Nat) : Except Errno (Probe Mapping) := do
  let block ← extentPageBlock a file i
  let es ← blockExtents a file.objectId block
  if File.lastStop es % 2 ^ 64 ≤ File.firstBlock es then .error .fsCorrupted
  else if logical < File.firstBlock es then .ok .before
  else if File.lastStop es % 2 ^ 64 ≤ logical then .ok .after
  else Probe.found <$> searchPage logical es

/-- `infilfs_map_file_block_detail`. The answer `none` is a return of 0 that
has left the outputs as they were. -/
def mapFileBlockDetail (file : FileHead) (logical : Nat) : Except Errno (Option Mapping) :=
  match file.area with
  | .classic entries =>
    if file.payloadSize < filePayloadBytes + file.extentCount * 24 then .error .fsCorrupted
    else some <$> mapClassic logical (entries.take file.extentCount)
  | _ => do
    let pageCount ← extentLayoutValidate a file
    a.kmalloc
    bisect (probePage a file logical) pageCount 0 pageCount

end Model

section Sound

variable {a : Adapter} {file : FileHead} {logical : Nat} {m : Mapping}

/-- Page i of the file, as its head or its pointer tree gives it. -/
def Points (a : Adapter) (file : FileHead) (i : Nat) (block : UInt64) : Prop :=
  match file.area with
  | .classic _ => False
  | .paged head => block = head.pointer i
  | .tree head => head.reserved ≠ 0 ∧ descend a file.objectId head.reserved (head.pointer 0) i = .ok block

def FileExtent (a : Adapter) (file : FileHead) (e : Extent) : Prop :=
  ∃ i block es, i < file.pageCount ∧ Points a file i block ∧ blockExtents a file.objectId block = .ok es ∧ e ∈ es

/-- The outputs are those of an extent that covers the block. -/
def Maps (logical : Nat) (e : Extent) (m : Mapping) : Prop :=
  e.logicalBlock ≤ logical ∧ logical < e.stop ∧ mapExtent logical e = .ok m

/-- The pointer tree has a level, as one of at most 502³ pages does. -/
def HasLevels (file : FileHead) : Prop := ∀ head, file.area = .tree head → head.reserved ≠ 0

theorem extentLayoutValidate_ok {n : Nat} (h : extentLayoutValidate a file = .ok n) :
    file.isPaged = true ∧ n = file.pageCount := by
  rw [extentLayoutValidate] at h
  rw [FileHead.isPaged, FileHead.pageCount]
  cases harea : file.area with
  | classic entries =>
    rw [harea] at h
    cases h
  | paged head =>
    simp only [harea] at h
    repeat' split at h
    all_goals cases h
    exact ⟨rfl, rfl⟩
  | tree head =>
    simp only [harea] at h
    obtain ⟨-, h⟩ := except_guard_eq_ok.mp h
    obtain ⟨-, h⟩ := except_guard_eq_ok.mp h
    obtain ⟨-, -, h⟩ := except_bind_eq_ok.mp h
    obtain ⟨page, -, h⟩ := except_bind_eq_ok.mp h
    obtain ⟨-, h⟩ := except_guard_eq_ok.mp h
    cases h
    exact ⟨rfl, rfl⟩

theorem extentPageBlock_ok {i : Nat} {block : UInt64} (hlevels : HasLevels file)
    (h : extentPageBlock a file i = .ok block) : i < file.pageCount ∧ Points a file i block := by
  obtain ⟨n, hvalid, h⟩ := except_bind_eq_ok.mp h
  obtain ⟨-, rfl⟩ := extentLayoutValidate_ok hvalid
  obtain ⟨hi, h⟩ := except_guard_eq_ok.mp h
  refine ⟨by omega, ?_⟩
  rw [Points]
  split at h
  · cases h
  · exact (Except.ok.inj h).symm
  · rename_i harea
    obtain ⟨-, -, h⟩ := except_bind_eq_ok.mp h
    exact ⟨hlevels _ harea, h⟩

theorem map_found_eq {ε α : Type} {r : Except ε α} {x : α} (h : Probe.found <$> r = .ok (.found x)) : r = .ok x := by
  cases r with
  | error e => cases h
  | ok y =>
    cases h
    rfl

theorem probeEntry_found {es : List Extent} {i : Nat} (hi : i < es.length)
    (h : probeEntry logical es i = .ok (.found m)) : ∃ e ∈ es, Maps logical e m := by
  have hmem : es.getD i default ∈ es := by
    rw [List.getD_eq_getElem?_getD, List.getElem?_eq_getElem hi]
    exact List.getElem_mem hi
  simp only [probeEntry] at h
  split_ifs at h
  · cases h
  · cases h
  · exact ⟨_, hmem, by omega, by omega, map_found_eq h⟩

theorem probePage_found {i : Nat} (hlevels : HasLevels file)
    (h : probePage a file logical i = .ok (.found m)) : ∃ e, FileExtent a file e ∧ Maps logical e m := by
  obtain ⟨block, hblock, h⟩ := except_bind_eq_ok.mp h
  obtain ⟨es, hes, h⟩ := except_bind_eq_ok.mp h
  obtain ⟨hi, hpoints⟩ := extentPageBlock_ok hlevels hblock
  split_ifs at h
  · cases h
  · cases h
  · obtain ⟨found, hfound, h⟩ := except_bind_eq_ok.mp (map_found_eq h)
    cases found with
    | none => cases h
    | some n =>
      cases h
      obtain ⟨j, -, hj, hentry⟩ := bisect_sound hfound
      obtain ⟨e, he, hmaps⟩ := probeEntry_found hj hentry
      exact ⟨e, ⟨i, block, es, hi, hpoints, hes, he⟩, hmaps⟩

/-- Where a paged object is accepted, the page search decides. -/
theorem mapFileBlockDetail_paged (hpaged : file.isPaged = true) :
    mapFileBlockDetail a file logical = (do
      let pageCount ← extentLayoutValidate a file
      a.kmalloc
      bisect (probePage a file logical) pageCount 0 pageCount) := by
  cases harea : file.area with
  | classic entries =>
    rw [FileHead.isPaged, harea] at hpaged
    cases hpaged
  | paged head => simp only [mapFileBlockDetail, harea]
  | tree head => simp only [mapFileBlockDetail, harea]

theorem mapFileBlockDetail_some (hpaged : file.isPaged = true) (hlevels : HasLevels file)
    (h : mapFileBlockDetail a file logical = .ok (some m)) : ∃ e, FileExtent a file e ∧ Maps logical e m := by
  rw [mapFileBlockDetail_paged hpaged] at h
  obtain ⟨n, -, h⟩ := except_bind_eq_ok.mp h
  obtain ⟨-, -, h⟩ := except_bind_eq_ok.mp h
  obtain ⟨i, -, -, hprobe⟩ := bisect_sound h
  exact probePage_found hlevels hprobe

/-- Page i can be read and is valid, and its extents reach from the first block
to the last. -/
def PageSpan (a : Adapter) (file : FileHead) (i first last : Nat) : Prop :=
  ∃ block es, Points a file i block ∧ blockExtents a file.objectId block = .ok es ∧ File.firstBlock es = first ∧
    File.lastStop es % 2 ^ 64 = last ∧ first < last

/-- There is a gap between the pages where the block would have to be: every
page that the search looks at on its way there ends before the block or begins
after it. -/
def RunsOut (a : Adapter) (file : FileHead) (logical : Nat) : Prop :=
  ∃ gap ≤ file.pageCount, ∀ i ∈ probes gap file.pageCount 0 file.pageCount, ∃ first last,
    PageSpan a file i first last ∧ if i < gap then last ≤ logical else logical < first

section

variable {n : Nat} (hvalid : extentLayoutValidate a file = .ok n) (hlevels : HasLevels file) (hkmalloc : a.kmalloc = .ok ())
include hvalid hlevels hkmalloc

theorem extentPageBlock_iff {i : Nat} {block : UInt64} (hi : i < file.pageCount) :
    extentPageBlock a file i = .ok block ↔ Points a file i block := by
  refine ⟨fun h => (extentPageBlock_ok hlevels h).2, fun h => ?_⟩
  obtain ⟨-, rfl⟩ := extentLayoutValidate_ok hvalid
  rw [extentPageBlock, hvalid, hkmalloc]
  show (if file.pageCount ≤ i then _ else _) = _
  rw [if_neg (by omega)]
  rw [Points] at h
  split at h
  · exact h.elim
  · rw [h]
  · exact h.2

theorem probePage_side_iff {i gap : Nat} (hi : i < file.pageCount) :
    probePage a file logical i = .ok (if i < gap then .after else .before) ↔
      ∃ first last, PageSpan a file i first last ∧ if i < gap then last ≤ logical else logical < first := by
  constructor
  · intro h
    obtain ⟨block, hblock, h⟩ := except_bind_eq_ok.mp h
    obtain ⟨es, hes, h⟩ := except_bind_eq_ok.mp h
    obtain ⟨hspan, h⟩ := except_guard_eq_ok.mp h
    refine ⟨_, _, ⟨block, es, (extentPageBlock_iff hvalid hlevels hkmalloc hi).mp hblock, hes, rfl, rfl, by omega⟩, ?_⟩
    split_ifs at h ⊢
    · cases h
    · assumption
    · cases hsearch : searchPage logical es <;> rw [hsearch] at h <;> cases h
    · assumption
    · cases h
    · cases hsearch : searchPage logical es <;> rw [hsearch] at h <;> cases h
  · rintro ⟨_, _, ⟨block, es, hpoints, hes, rfl, rfl, hlt⟩, hside⟩
    rw [probePage, (extentPageBlock_iff hvalid hlevels hkmalloc hi).mpr hpoints]
    show (blockExtents a file.objectId block >>= _) = _
    rw [hes]
    show (if File.lastStop es % 2 ^ 64 ≤ File.firstBlock es then _ else _) = _
    rw [if_neg (by omega)]
    split_ifs at hside ⊢ <;> first | rfl | omega

theorem mapFileBlockDetail_none_iff : mapFileBlockDetail a file logical = .ok none ↔ RunsOut a file logical := by
  obtain ⟨hpaged, rfl⟩ := extentLayoutValidate_ok hvalid
  have hrun : mapFileBlockDetail a file logical = bisect (probePage a file logical) file.pageCount 0 file.pageCount := by
    rw [mapFileBlockDetail_paged hpaged, hvalid, hkmalloc]
    rfl
  rw [hrun, bisect_eq_none_iff (Nat.zero_le _), RunsOut]
  refine exists_congr fun gap => ?_
  rw [and_iff_right (Nat.zero_le gap)]
  refine and_congr_right fun _ => forall₂_congr fun i hi => ?_
  exact probePage_side_iff hvalid hlevels hkmalloc (probes_lt hi)

end

end Sound

section Contiguous

variable {a : Adapter} {file : FileHead} {logical lo hi : Nat} {es : List Extent} {pages : List (List Extent)} {owner : ObjectId}

/-- The object of the file is the classic form of the list. -/
def ClassicForm (file : FileHead) (entries : List Extent) : Prop :=
  file.area = .classic entries ∧ file.extentCount = entries.length ∧
    filePayloadBytes + entries.length * 24 ≤ file.payloadSize

/-- The object of the file is the paged form of a list, which is split into
pages so. -/
structure PagedForm (a : Adapter) (file : FileHead) (pages : List (List Extent)) : Prop where
  kmalloc : a.kmalloc = .ok ()
  validate : extentLayoutValidate a file = .ok pages.length
  page : ∀ i es, pages[i]? = some es → (extentPageBlock a file i >>= blockExtents a file.objectId) = .ok es

section

variable (h : Tiles Extent.segment lo hi es)
include h

theorem mapClassic_inside {e : Extent} (hhi : hi < 2 ^ 64)
    (he : e ∈ es) (hlogical : e.logicalBlock ≤ logical) (hend : logical < e.stop) :
    mapClassic logical es = mapExtent logical e := by
  induction es generalizing lo with
  | nil => cases he
  | cons x xs ih =>
    obtain ⟨-, hpos, hxs⟩ := h
    have hmod : (x.logicalBlock + x.blockCount) % 2 ^ 64 = x.stop := Nat.mod_eq_of_lt (hxs.le.trans_lt hhi)
    rw [mapClassic, hmod]
    rcases List.mem_cons.mp he with rfl | he'
    · rw [if_neg (by rw [Extent.segment_count] at hpos; omega)]
    · have hafter : x.stop ≤ e.logicalBlock := (hxs.mem_bounds he').1
      rw [if_pos (by omega)]
      exact ih hxs he'

theorem mapClassic_outside (hhi : hi < 2 ^ 64)
    (hout : ¬(lo ≤ logical ∧ logical < hi)) : mapClassic logical es = .error .fsCorrupted := by
  induction es generalizing lo with
  | nil => rfl
  | cons x xs ih =>
    obtain ⟨hstart, -, hxs⟩ := h
    have hle : x.stop ≤ hi := hxs.le
    have hstop : x.stop = x.logicalBlock + x.blockCount := rfl
    have hmod : (x.logicalBlock + x.blockCount) % 2 ^ 64 = x.stop := Nat.mod_eq_of_lt (hle.trans_lt hhi)
    rw [Extent.segment_start] at hstart
    rw [mapClassic, hmod, if_pos (by omega)]
    exact ih hxs (by rw [Extent.segment_stop]; omega)

theorem bisect_entries (hhi : hi < 2 ^ 64) (hlo : lo ≤ logical)
    (hlogical : logical < hi) : ∃ e ∈ es, e.logicalBlock ≤ logical ∧ logical < e.stop ∧
      bisect (probeEntry logical es) es.length 0 es.length = some <$> mapExtent logical e := by
  have hprobe (i : Nat) (e : Extent) (hget : es[i]? = some e) : probeEntry logical es i =
      if logical < e.logicalBlock then .ok .before else if e.stop ≤ logical then .ok .after
      else Probe.found <$> mapExtent logical e := by
    obtain ⟨-, hpos, hend⟩ := h.mem_bounds (List.mem_of_getElem? hget)
    rw [Extent.segment_stop, Extent.stop] at hend
    rw [Extent.segment_count] at hpos
    simp only [probeEntry, List.getD_eq_getElem?_getD, hget, Option.getD_some]
    rw [if_neg (by omega)]
  have hfind := bisect_tiles h hprobe
  rwa [if_pos ⟨hlo, hlogical⟩] at hfind

end

def pageSegment (es : List Extent) : Segment := ⟨File.firstBlock es, File.lastStop es - File.firstBlock es⟩

/-- A nonempty page spans what its extents tile. -/
theorem tiles_ends (h : Tiles Extent.segment lo hi es) (hne : es ≠ []) :
    File.firstBlock es = lo ∧ File.lastStop es = hi ∧ lo < hi := by
  refine ⟨Paged.firstBlock_of_tiles h hne, Paged.lastStop_of_tiles h hne, ?_⟩
  have hlength := h.length_le
  have hpos := List.length_pos_of_ne_nil hne
  omega

theorem tiles_pages (h : Tiles Extent.segment lo hi pages.flatten)
    (hne : ∀ es ∈ pages, es ≠ []) : Tiles pageSegment lo hi pages ∧
      ∀ es ∈ pages, Tiles Extent.segment (pageSegment es).start (pageSegment es).stop es ∧ (pageSegment es).stop ≤ hi := by
  induction pages generalizing lo with
  | nil => exact ⟨h, by simp⟩
  | cons es rest ih =>
    rw [List.flatten_cons] at h
    obtain ⟨mid, hes, hrest⟩ := Tiles.append_iff.mp h
    obtain ⟨hfirst, hlast, hlt⟩ := tiles_ends hes (hne es List.mem_cons_self)
    obtain ⟨htiles, heach⟩ := ih hrest fun x hx => hne x (List.mem_cons_of_mem es hx)
    have hpage : pageSegment es = ⟨lo, mid - lo⟩ := by rw [pageSegment, hfirst, hlast]
    have hstop : (pageSegment es).stop = mid := by rw [hpage, Segment.stop, Nat.add_sub_cancel' hlt.le]
    refine ⟨⟨hfirst, by rw [hpage]; exact Nat.sub_pos_of_lt hlt, hstop ▸ htiles⟩, fun x hx => ?_⟩
    rcases List.mem_cons.mp hx with rfl | hx'
    · rw [hstop, hpage]
      exact ⟨hes, hrest.le⟩
    · exact heach x hx'

theorem blockExtents_ne_nil {block : UInt64}
    (h : blockExtents a owner block = .ok es) : es ≠ [] := by
  obtain ⟨page, -, h⟩ := except_bind_eq_ok.mp h
  obtain ⟨-, h⟩ := except_guard_eq_ok.mp h
  obtain ⟨hcount, h⟩ := except_guard_eq_ok.mp h
  cases h
  intro hnil
  have hlength := congrArg List.length hnil
  simp only [List.length_map, getList, List.length_range, List.length_nil] at hlength
  omega

theorem blockExtents_of_read {block : UInt64} {page : Block} {n : Nat}
    (hread : readAllocatedBlock a block.toNat = .ok page) (hvalid : metadataPageValid a page extentPageMagic owner = true)
    (hcount : (pageLayout.get page.bytes).entryCount.toNat = n) (hused : (pageLayout.get page.bytes).bytesUsed.toNat = n * 24)
    (hne : n ≠ 0) (hle : n ≤ extentsPerPage) : blockExtents a owner block =
      .ok ((extentLayout.getList n (page.bytes.drop pageHeaderBytes)).map Paged.recordExtent) := by
  rw [blockExtents, hread]
  show (if metadataPageValid a page extentPageMagic owner = false then _ else _) = _
  rw [hvalid, if_neg (by decide), hcount, hused, if_neg (by omega)]

/-- A page that was encoded and stored is read back. -/
theorem blockExtents_extentPage {generation block : UInt64}
    (hread : readAllocatedBlock a block.toNat = .ok (Paged.extentPage owner generation es).block)
    (hzero : generation ≠ 0) (hgeneration : generation.toNat ≤ a.generation) (hne : es ≠ [])
    (hle : es.length ≤ extentsPerPage) (hes : ∀ e ∈ es, Paged.recordExtent (Paged.extentRecord e) = e) :
    blockExtents a owner block = .ok es := by
  have hcount := Paged.entryCount_extentPage owner generation hle
  have hused := Paged.bytesUsed_extentPage owner generation hle
  have hentries := Paged.getList_extentPage owner generation hle hes
  have hheader : (Paged.extentPage owner generation es).header =
      ⟨extentPageMagic, generation, owner, .ofNat es.length, .ofNat (es.length * 24), pageChecksumType, 0⟩ := rfl
  have hfits : es.length * 24 ≤ pageDataBytes := by
    rw [extentsPerPage] at hle
    rw [pageDataBytes]
    omega
  generalize Paged.extentPage owner generation es = page at *
  have hvalid : metadataPageValid a page.block extentPageMagic owner = true := by
    rw [metadataPageValid, pageHeaderValid, page.get_block, page.crc_block, page.padding_block, hused, hheader]
    simp [hzero, hgeneration, hfits]
  have hlength : es.length ≠ 0 := fun hlength => hne (List.length_eq_zero_iff.mp hlength)
  rw [blockExtents_of_read hread hvalid (by rw [page.get_block, hcount]) (by rw [page.get_block, hused]) hlength hle, hentries]

theorem PagedForm.probePage_eq {i : Nat} (hform : PagedForm a file pages) (hget : pages[i]? = some es)
    (h : Tiles Extent.segment lo hi es) (hne : es ≠ []) (hhi : hi < 2 ^ 64) :
    probePage a file logical i = if logical < lo then .ok .before
      else if hi ≤ logical then .ok .after else Probe.found <$> searchPage logical es := by
  obtain ⟨block, hblock, hes⟩ := except_bind_eq_ok.mp (hform.page i es hget)
  obtain ⟨hfirst, hlast, hlt⟩ := tiles_ends h hne
  rw [probePage, hblock]
  show (blockExtents a file.objectId block >>= _) = _
  rw [hes]
  show (if File.lastStop es % 2 ^ 64 ≤ File.firstBlock es then _ else _) = _
  rw [hfirst, hlast, Nat.mod_eq_of_lt hhi, if_neg (by omega)]

theorem mapFileBlockDetail_contiguous (hform : PagedForm a file pages)
    (h : Tiles Extent.segment lo hi pages.flatten) (hhi : hi < 2 ^ 64) :
    if lo ≤ logical ∧ logical < hi then
      ∃ e ∈ pages.flatten, e.logicalBlock ≤ logical ∧ logical < e.stop ∧
        mapFileBlockDetail a file logical = some <$> mapExtent logical e
    else mapFileBlockDetail a file logical = .ok none := by
  have hne : ∀ es ∈ pages, es ≠ [] := by
    intro es hes
    obtain ⟨i, hi⟩ := List.mem_iff_getElem?.mp hes
    obtain ⟨block, -, hblock⟩ := except_bind_eq_ok.mp (hform.page i es hi)
    exact blockExtents_ne_nil hblock
  obtain ⟨htiles, heach⟩ := tiles_pages h hne
  have hprobe (i : Nat) (es : List Extent) (hi : pages[i]? = some es) : probePage a file logical i =
      if logical < (pageSegment es).start then .ok .before else if (pageSegment es).stop ≤ logical then .ok .after
      else Probe.found <$> searchPage logical es := by
    have hmem := List.mem_of_getElem? hi
    obtain ⟨hes, hle⟩ := heach es hmem
    exact hform.probePage_eq hi hes (hne es hmem) (by omega)
  have hrun : mapFileBlockDetail a file logical = bisect (probePage a file logical) pages.length 0 pages.length := by
    rw [mapFileBlockDetail_paged (extentLayoutValidate_ok hform.validate).1, hform.validate, hform.kmalloc]
    rfl
  have hfind := bisect_tiles htiles hprobe
  rw [hrun]
  split
  · rename_i hplace
    rw [if_pos hplace] at hfind
    obtain ⟨es, hmem, hfirst, hlast, hfind⟩ := hfind
    obtain ⟨hes, hle⟩ := heach es hmem
    obtain ⟨e, he, hstart, hend, hsearch⟩ := bisect_entries hes (by omega) hfirst hlast
    have hpage : searchPage logical es = mapExtent logical e := by
      rw [searchPage, hsearch]
      cases mapExtent logical e <;> rfl
    exact ⟨e, List.mem_flatten.mpr ⟨es, hmem, he⟩, hstart, hend, by rw [hfind, hpage]⟩
  · rename_i hplace
    rwa [if_neg hplace] at hfind

theorem mapFileBlockDetail_classic {entries : List Extent} (h : ClassicForm file entries) :
    mapFileBlockDetail a file logical = some <$> mapClassic logical entries := by
  obtain ⟨harea, hcount, hsize⟩ := h
  simp only [mapFileBlockDetail, harea, hcount, List.take_length]
  exact if_neg (Nat.not_lt.mpr hsize)

theorem classic_eq_paged_iff {classic : FileHead} (hclassic : ClassicForm classic pages.flatten)
    (hform : PagedForm a file pages) (h : Tiles Extent.segment lo hi pages.flatten) (hhi : hi < 2 ^ 64) :
    mapFileBlockDetail a classic logical = mapFileBlockDetail a file logical ↔ lo ≤ logical ∧ logical < hi := by
  have hpaged := @mapFileBlockDetail_contiguous a file logical lo hi pages hform h hhi
  rw [mapFileBlockDetail_classic hclassic]
  by_cases hplace : lo ≤ logical ∧ logical < hi
  · rw [if_pos hplace] at hpaged
    obtain ⟨e, he, hstart, hend, hpaged⟩ := hpaged
    rw [hpaged, mapClassic_inside h hhi he hstart hend]
    exact iff_of_true rfl hplace
  · rw [if_neg hplace] at hpaged
    rw [hpaged, mapClassic_outside h hhi hplace]
    exact iff_of_false (fun hsame => by cases hsame) hplace

end Contiguous

section Verdict

/-- A return of 0 has set the outputs from an extent of the file that covers
the block. -/
def SoundAt (a : Adapter) (file : FileHead) (logical : Nat) : Prop :=
  ∀ r, mapFileBlockDetail a file logical = .ok r → ∃ m, r = some m ∧ ∃ e, FileExtent a file e ∧ Maps logical e m

/-- For an object that is accepted, the mapping of a block is sound exactly if
the page search does not run out at the block, or there is no memory for it. For
a contiguous list it runs out outside of the list, where the classic form fails.
The bound of the list follows from the 32-bit counts of its extents. -/
theorem mapFileBlockDetail_sound_iff (a : Adapter) (file : FileHead) (logical pageCount : Nat)
    (hvalid : extentLayoutValidate a file = .ok pageCount) (hlevels : HasLevels file) :
    (SoundAt a file logical ↔ (a.kmalloc = .ok () → ¬RunsOut a file logical)) ∧
      ∀ classic pages lo hi, ClassicForm classic pages.flatten → PagedForm a file pages →
        Tiles Extent.segment lo hi pages.flatten → hi < 2 ^ 64 →
        (mapFileBlockDetail a classic logical = mapFileBlockDetail a file logical ↔ lo ≤ logical ∧ logical < hi) := by
  obtain ⟨hpaged, rfl⟩ := extentLayoutValidate_ok hvalid
  refine ⟨⟨fun hsound hkmalloc hout => ?_, fun hstays r hr => ?_⟩,
    fun _ _ _ _ hclassic hform h hhi => classic_eq_paged_iff hclassic hform h hhi⟩
  · obtain ⟨m, hm, -⟩ := hsound none ((mapFileBlockDetail_none_iff hvalid hlevels hkmalloc).mpr hout)
    cases hm
  · cases r with
    | none =>
      have hkmalloc : a.kmalloc = .ok () := by
        rw [mapFileBlockDetail_paged hpaged] at hr
        obtain ⟨n, -, hr⟩ := except_bind_eq_ok.mp hr
        obtain ⟨u, hkmalloc, -⟩ := except_bind_eq_ok.mp hr
        exact hkmalloc
      exact absurd ((mapFileBlockDetail_none_iff hvalid hlevels hkmalloc).mp hr) (hstays hkmalloc)
    | some m => exact ⟨m, rfl, mapFileBlockDetail_some hpaged hlevels hr⟩

/-- One page with one extent of four blocks. -/
def onePage : List Extent := [⟨0, 100, 4, File.extentNormal⟩]

def onePageFile : FileHead := ⟨snapshotCatalogId, 176, 16384, 1, .paged ⟨1, 0, [9]⟩⟩

def onePageAdapter : Adapter where
  total := 4096
  bitmap := fun _ => true
  generation := 1
  checkpointBlocks := []
  read := fun _ => .ok (Paged.extentPage onePageFile.objectId 1 onePage).block
  kmalloc := .ok ()
  unset := 0

theorem onePage_form : PagedForm onePageAdapter onePageFile [onePage] where
  kmalloc := rfl
  validate := by decide +kernel
  page i es hi := by
    obtain ⟨rfl, rfl⟩ : i = 0 ∧ es = onePage := by
      cases i with
      | zero => exact ⟨rfl, (Option.some.inj hi).symm⟩
      | succ i => cases hi
    have hblock : extentPageBlock onePageAdapter onePageFile 0 = .ok 9 := by decide +kernel
    have hread : readAllocatedBlock onePageAdapter (9 : UInt64).toNat =
        .ok (Paged.extentPage onePageFile.objectId 1 onePage).block := by
      rw [readAllocatedBlock, if_neg (by decide), if_neg (by decide), onePageAdapter]
    have hes := blockExtents_extentPage hread (by decide) (by decide) (by decide) (by decide) (by decide)
    exact except_bind_eq_ok.mpr ⟨9, hblock, hes⟩

def oneExtentFile : FileHead := ⟨snapshotCatalogId, 184, 16384, 1, .classic onePage⟩

theorem onePage_levels : HasLevels onePageFile := by
  intro head harea
  cases harea

theorem mapFileBlockDetail_sound_one_page :
    SoundAt onePageAdapter onePageFile 3 ∧
      mapFileBlockDetail onePageAdapter oneExtentFile 3 = mapFileBlockDetail onePageAdapter onePageFile 3 := by
  obtain ⟨hsound, hsame⟩ := mapFileBlockDetail_sound_iff onePageAdapter onePageFile 3 1 onePage_form.validate onePage_levels
  have heq := (hsame oneExtentFile [onePage] 0 4 ⟨rfl, rfl, by decide⟩ onePage_form ⟨rfl, by decide, rfl⟩ (by decide)).mpr (by decide)
  refine ⟨hsound.mpr fun hkmalloc hout => ?_, heq⟩
  have hnone := (mapFileBlockDetail_none_iff onePage_form.validate onePage_levels hkmalloc).mpr hout
  rw [← heq] at hnone
  exact absurd hnone (by decide +kernel)

/-- The block after the last one: the paged form returns 0 and sets nothing. -/
theorem mapFileBlockDetail_runs_out :
    mapFileBlockDetail onePageAdapter onePageFile 4 = .ok none ∧
      mapFileBlockDetail onePageAdapter oneExtentFile 4 = .error .fsCorrupted := by
  have hpaged := @mapFileBlockDetail_contiguous onePageAdapter onePageFile 4 0 4 [onePage] onePage_form ⟨rfl, by decide, rfl⟩
    (by decide)
  rw [if_neg (by decide)] at hpaged
  exact ⟨hpaged, by decide +kernel⟩

end Verdict

end InfiltratorFS.ExtentLayout
