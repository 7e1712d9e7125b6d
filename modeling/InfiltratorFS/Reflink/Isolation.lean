import InfiltratorFS.Reflink.Content
import InfiltratorFS.File.Clone
import InfiltratorFS.Volume.Ownership

namespace InfiltratorFS.Reflink

open Storage File Segment Prog

section Store

variable {Digest : Type}

/-- A file on a volume: its object and where that is stored, the bytes of an
inline file, and what the checksum chain says. -/
structure StoredFile (Digest : Type) where
  objectId : ObjectId
  objectBlock : Nat
  object : FileObject
  bytes : Bytes
  checksum : Nat → Except Status Digest

namespace StoredFile

variable (f : StoredFile Digest)

def dataFile : DataFile Digest where
  objectId := f.objectId
  portableFlags := f.object.portableFlags
  logicalSize := f.object.logicalSize
  content := if f.object.isInline then .inline f.bytes else .extents f.object.payload.extentList
  checksum := f.checksum

def Holds (b : Nat) : Prop :=
  b = f.objectBlock ∨ b ∈ f.object.payload.metadata ++ chainBlocks f.object.checksums

def Maps (b : Nat) : Prop := Referenced f.object.payload.extentList b

def Uses (b : Nat) : Prop := f.Holds b ∨ f.Maps b

end StoredFile

/-- The files of a volume over its allocator and its storage. What else is
stored, the directories, the object index, the allocation map and the
checkpoints, is elsewhere. The last field has the bitmaps published so far. -/
structure Store (Digest : Type) where
  totalBlocks : Nat
  incompatFlags : UInt64
  writable : Bool
  files : List (StoredFile Digest)
  elsewhere : Nat → Prop
  journal : Journal
  storage : Backend
  generations : List (Nat → Bool)

namespace Store

def find (v : Store Digest) (id : ObjectId) : Option (StoredFile Digest) := v.files.find? (·.objectId == id)

def size (v : Store Digest) (id : ObjectId) : Option Nat := (v.find id).map (·.object.logicalSize)

def read [DecidableEq Digest] (codecs : Codecs Digest) (v : Store Digest) (id : ObjectId) (offset size : Nat) :
    Except Status Bytes :=
  match v.find id with
  | none => .error .notFound
  | some f => readFile codecs v.totalBlocks v.storage f.dataFile offset size

/-- What `file_other_reference_cover` scans for the owner of an extent. -/
def others (v : Store Digest) (id : ObjectId) : List Extent :=
  (v.files.filter (·.objectId != id)).flatMap (·.object.payload.extentList)

def start (v : Store Digest) (f : StoredFile Digest) (env : Nat → Answer) : FileState where
  object := f.object
  incompatFlags := v.incompatFlags
  writable := v.writable
  others := v.others f.objectId
  allocated := []
  freed := []
  env := env
  tick := 0
  events := []

end Store

def ZeroPolicy (policy : Option IoPolicy) : Prop := ∀ p ∈ policy, p.protectionCopies = 0 ∧ p.encryptionDomain = 0

def Untouched (touched : Nat → Prop) (storage storage' : Backend) : Prop :=
  ∀ policy, ZeroPolicy policy → ∀ offset size, 0 < size →
    (∀ b, offset / blockSize ≤ b → b * blockSize < offset + size → ¬touched b) →
      storage'.readPolicy policy offset size = storage.readPolicy policy offset size

/-- What the code around the files has done at the end of a part of an
operation: the blocks it has, those it released and those it wrote, and the
allocator and the storage as they are then. -/
structure Surroundings where
  elsewhere : Nat → Prop
  released : List Segment
  touched : Nat → Prop
  journal : Journal
  storage : Backend

/-- The code around the files has blocks of its own and gets more from the
allocator, which does not give away busy ones. It releases its own blocks and
those of the object of the file at hand. Nothing is deferred that was not
freed. -/
structure Surroundings.Fair (w : Surroundings) (v : Store Digest) (busy : Nat → Prop) (own : Nat → Prop)
    (freed written : List Segment) : Prop where
  elsewhere : ∀ b, w.elsewhere b → v.elsewhere b ∨ ¬busy b
  released : ∀ b, covers w.released b = true → v.elsewhere b ∨ own b ∨ ¬busy b
  touched : ∀ b, w.touched b → v.elsewhere b ∨ ¬busy b
  deferred : ∀ b, covers w.journal.deferred b = true →
    covers v.journal.deferred b = true ∨ covers freed b = true ∨ covers w.released b = true
  storage : Untouched (fun b => covers written b = true ∨ w.touched b) v.storage w.storage

def Store.after (v : Store Digest) (files : List (StoredFile Digest)) (w : Surroundings) : Store Digest :=
  { v with files := files, elsewhere := w.elsewhere, journal := w.journal, storage := w.storage }

/-- The run of a program for one file in an operation whose savepoint is at the
given allocation record. -/
structure Runs (first : Nat) (v : Store Digest) (f : StoredFile Digest) (x : FileM Unit) (result : Except Status Unit)
    (t : FileState) (w : Surroundings) : Prop where
  run : ∃ env, (∀ n b, (env n).run.contains b = true → ¬Settled first v.journal b) ∧ x (v.start f env) = (result, t)
  fair : w.Fair v (Settled first v.journal) (· = f.objectBlock) t.freed t.written
  steps : JournalSteps v.totalBlocks first v.journal w.journal

end Store

section Calls

variable {Digest : Type}

/-- An act on one file succeeds. The object is stored where it was or in a new
block. -/
inductive ActStep (first : Nat) (id : ObjectId) (act : FileAct) : Store Digest → Store Digest → Prop
  | stays {v : Store Digest} {f f' : StoredFile Digest} {t : FileState} {w : Surroundings} (hremains : act.remains = true)
      (hfind : v.find id = some f) (hrun : Runs first v f act.run (.ok ()) t w) (hid : f'.objectId = id)
      (hobject : f'.object = t.object)
      (hblock : f'.objectBlock = f.objectBlock ∨ ¬Settled first v.journal f'.objectBlock) :
      ActStep first id act v (v.after (v.files.map fun g => if g.objectId = id then f' else g) w)
  | goes {v : Store Digest} {f : StoredFile Digest} {t : FileState} {w : Surroundings} (hremains : act.remains = false)
      (hfind : v.find id = some f) (hrun : Runs first v f act.run (.ok ()) t w) :
      ActStep first id act v (v.after (v.files.filter (·.objectId != id)) w)

inductive ActSteps (first : Nat) : List (ObjectId × FileAct) → Store Digest → Store Digest → Prop
  | nil (v : Store Digest) : ActSteps first [] v v
  | cons {id : ObjectId} {act : FileAct} {acts : List (ObjectId × FileAct)} {u v w : Store Digest}
      (hstep : ActStep first id act u v) (hrest : ActSteps first acts v w) : ActSteps first ((id, act) :: acts) u w

/-- One of the acts fails, and leaves its traces on the storage. -/
inductive ActFails (first : Nat) : List (ObjectId × FileAct) → Store Digest → Backend → Prop
  | here {id : ObjectId} {act : FileAct} {acts : List (ObjectId × FileAct)} {v : Store Digest} {f : StoredFile Digest}
      {e : Status} {t : FileState} {w : Surroundings} (hfind : v.find id = some f)
      (hrun : Runs first v f act.run (.error e) t w) : ActFails first ((id, act) :: acts) v w.storage
  | later {id : ObjectId} {act : FileAct} {acts : List (ObjectId × FileAct)} {u v : Store Digest} {storage : Backend}
      (hstep : ActStep first id act u v) (hrest : ActFails first acts v storage) : ActFails first ((id, act) :: acts) u storage

/-- The calls that change files. A rename may replace a file, which is told by
its ID, by whether the volume has hard links, and by its number of names. -/
inductive Request
  | file (id : ObjectId) (op : FileOperation)
  | rename (id : ObjectId) (replaced : Option (ObjectId × Bool × Nat))

def Request.acts : Request → List (ObjectId × FileAct)
  | .file id op => [(id, .operation op)]
  | .rename id none => [(id, .rename)]
  | .rename id (some (target, hardLinks, links)) => [(target, .replace hardLinks links), (id, .rename)]

/-- The bitmap that `allocation_map_publish` writes. -/
def Surroundings.bitmap (w : Surroundings) (totalBlocks : Nat) (retained : Nat → Bool) : Nat → Bool :=
  w.journal.deferred.foldl (clearDeferredRange totalBlocks retained) w.journal.bitmap

def Store.published (v : Store Digest) (retained : Nat → Bool) (w : Surroundings) : Store Digest :=
  { v.after v.files w with
    journal := ⟨w.bitmap v.totalBlocks retained, [], [], w.journal.free⟩
    generations := v.generations ++ [w.bitmap v.totalBlocks retained] }

/-- What happens to the store. A failed call is undone up to what it has
written. A publication clears the deferred blocks that no snapshot retains. -/
inductive Step : Option Request → Store Digest → Store Digest → Prop
  | commit {request : Request} {v v' : Store Digest} (hacts : ActSteps v.journal.allocated.length request.acts v v') :
      Step (some request) v v'
  | undo {request : Request} {v : Store Digest} {storage : Backend}
      (hacts : ActFails v.journal.allocated.length request.acts v storage) :
      Step (some request) v { v with storage := storage }
  | publish {v : Store Digest} {retained : Nat → Bool} {w : Surroundings}
      (hfair : w.Fair v (v.journal.bitmap · = true) (fun _ => False) [] [])
      (hkept : ∀ b, v.journal.bitmap b = true → w.journal.bitmap b = true ∨ covers w.released b = true) :
      Step none v (v.published retained w)

/-- A volume in use: the store as it is, and as it was when it was last
published. -/
structure Session (Digest : Type) where
  base : Store Digest
  now : Store Digest

/-- What has become of the changes that a run started with: they are not
published yet, they are, or they were undone. -/
inductive Phase
  | pending
  | published
  | undone

def Phase.publish : Phase → Phase
  | .undone => .undone
  | _ => .published

def Phase.abort : Phase → Phase
  | .published => .published
  | _ => .undone

/-- A run of calls that are about other files, and of publications. One that
fails before its commit leaves the store as it was last published, on what has
been written since (`tx_abort`); after any publication the volume may be closed
to writers. -/
inductive RunsApart (id : ObjectId) (s : Session Digest) : Phase → Session Digest → Prop
  | refl : RunsApart id s .pending s
  | call {phase : Phase} {t : Session Digest} {request : Request} {v : Store Digest} (hrun : RunsApart id s phase t)
      (hstep : Step (some request) t.now v) (happart : ∀ act ∈ request.acts, act.1 ≠ id) : RunsApart id s phase ⟨t.base, v⟩
  | publish {phase : Phase} {t : Session Digest} {v : Store Digest} (writable : Bool) (hrun : RunsApart id s phase t)
      (hstep : Step none t.now v) : RunsApart id s phase.publish ⟨{ v with writable }, { v with writable }⟩
  | abort {phase : Phase} {t : Session Digest} {w : Surroundings} (writable : Bool) (hrun : RunsApart id s phase t)
      (hfair : w.Fair t.now (t.now.journal.bitmap · = true) (fun _ => False) [] []) :
      RunsApart id s phase.abort ⟨{ t.base with storage := w.storage, writable }, { t.base with storage := w.storage, writable }⟩

/-- `infs_reflink_file` succeeds. What was allocated for the new file is set and
belongs to nothing else. -/
inductive Reflinks : Store Digest → StoredFile Digest → StoredFile Digest → Store Digest → Prop
  | mk {v : Store Digest} {a b : StoredFile Digest} {t : FileState} {w : Surroundings} (hsource : v.find a.objectId = some a)
      (hnew : v.find b.objectId = none)
      (hrun : Runs v.journal.allocated.length v { b with object := createdObject a.object.portableFlags }
        (File.reflinkFileTx a.object) (.ok ()) t w)
      (hobject : b.object = t.object) (hcontent : reflinkFileTx a.dataFile b.objectId = .ok b.dataFile)
      (hblock : v.journal.bitmap b.objectBlock = false)
      (htaken : ∀ c, covers t.allocated c = true ∨ c = b.objectBlock → covers t.freed c = true ∨
        w.journal.bitmap c = true ∧ covers w.journal.deferred c = false ∧ ¬w.elsewhere c) :
      Reflinks v a b (v.after (v.files ++ [b]) w)

end Calls

section Reading

variable {Digest : Type} {storage storage' : Backend}

def SameBlocks (blocks : Nat → Prop) (storage storage' : Backend) : Prop :=
  ∀ policy, ZeroPolicy policy → ∀ offset size, 0 < size →
    (∀ b, offset / blockSize ≤ b → b * blockSize < offset + size → blocks b) →
      storage'.readPolicy policy offset size = storage.readPolicy policy offset size

theorem SameBlocks.refl (blocks : Nat → Prop) (storage : Backend) : SameBlocks blocks storage storage :=
  fun _ _ _ _ _ _ => rfl

theorem SameBlocks.trans {blocks : Nat → Prop} {s₁ s₂ s₃ : Backend} (h : SameBlocks blocks s₁ s₂)
    (h' : SameBlocks blocks s₂ s₃) : SameBlocks blocks s₁ s₃ :=
  fun policy hpolicy offset size hsize hin =>
    (h' policy hpolicy offset size hsize hin).trans (h policy hpolicy offset size hsize hin)

theorem Untouched.same {touched blocks : Nat → Prop} (h : Untouched touched storage storage')
    (hblocks : ∀ b, blocks b → ¬touched b) : SameBlocks blocks storage storage' :=
  fun policy hpolicy offset size hsize hin =>
    h policy hpolicy offset size hsize fun b hlo hhi => hblocks b (hin b hlo hhi)

theorem zeroPolicy_of_storagePolicy {f : StoredFile Digest} (h : f.object.storagePolicy = 0) :
    ZeroPolicy (some (fileStoragePolicy f.dataFile)) := by
  have hzero (mask : UInt64) (hmask : storagePolicyMask &&& mask = mask) : f.object.portableFlags &&& mask = 0 := by
    rw [← hmask, ← UInt64.and_assoc, show f.object.portableFlags &&& storagePolicyMask = 0 from h, UInt64.zero_and]
  intro p hp
  obtain rfl : fileStoragePolicy f.dataFile = p := Option.some.inj hp
  constructor
  · show attrProtectionCopies f.object.portableFlags = 0
    rw [attrProtectionCopies, hzero _ (by decide)]
    rfl
  · show attrEncryptionDomain f.object.portableFlags = 0
    rw [attrEncryptionDomain, hzero _ (by decide)]
    rfl

theorem readFile_same [DecidableEq Digest] {codecs : Codecs Digest} {f : StoredFile Digest}
    (hpolicy : f.object.storagePolicy = 0) (h : SameBlocks f.Maps storage storage') (totalBlocks offset size : Nat) :
    readFile codecs totalBlocks storage' f.dataFile offset size = readFile codecs totalBlocks storage f.dataFile offset size := by
  unfold readFile
  split
  · rfl
  · dsimp only
    split
    · rfl
    · rename_i entries hcontent
      have hentries : entries = f.object.payload.extentList := by
        simp only [StoredFile.dataFile] at hcontent
        split at hcontent
        · cases hcontent
        · cases hcontent
          rfl
      split
      · rfl
      · rename_i hvalid
        refine readBlocks_congr (fun logical _ => ?_) le_rfl _ _
        apply readLogicalBlock_congr
        intro e hlookup hkind
        have he := (mem_of_fileExtentLookup hlookup).1
        have hnormal := extentKind_normal (by simpa using hvalid) he hkind
        refine ⟨fun offset size hin => ?_, rfl⟩
        apply h _ (zeroPolicy_of_storagePolicy hpolicy) offset size hin.1
        exact fun b hlo hhi => ⟨e, hentries ▸ he, hnormal, hin.2 b hlo hhi⟩

end Reading

section Guard

variable {Digest : Type} {o : StoredFile Digest} {first : Nat} {v v' : Store Digest}

/-- A file in the midst of the others, at some point of an operation. What it
uses is allocated, is not about to be freed, and is shared with nobody but for
its data. -/
structure Guarded (o : StoredFile Digest) (first : Nat) (v : Store Digest) : Prop where
  member : o ∈ v.files
  unique : ∀ f ∈ v.files, f.objectId = o.objectId → f = o
  shared : (v.incompatFlags &&& incompatSharedExtents != 0) = true
  settled : ∀ b, o.Uses b → Settled first v.journal b
  kept : ∀ b, o.Uses b → covers v.journal.deferred b = false
  elsewhere : ∀ b, o.Uses b → ¬v.elsewhere b
  own : ∀ b, o.Holds b → ¬o.Maps b
  apart : ∀ f ∈ v.files, f.objectId ≠ o.objectId → ∀ b, (o.Holds b → ¬f.Uses b) ∧ (o.Maps b → ¬f.Holds b)

variable {act : FileAct} {t : FileState} {b : Nat} {id : ObjectId} {f : StoredFile Digest} {w : Surroundings}

theorem mem_of_find (h : v.find id = some f) : f ∈ v.files ∧ f.objectId = id := by
  have hid := List.find?_some (p := fun g : StoredFile Digest => g.objectId == id) h
  exact ⟨List.mem_of_find?_eq_some h, beq_iff_eq.mp hid⟩

theorem referenced_others :
    Referenced (v.others id) b ↔ ∃ f ∈ v.files, f.objectId ≠ id ∧ f.Maps b := by
  simp only [Referenced, StoredFile.Maps, Store.others, List.mem_flatMap, List.mem_filter, bne_iff_ne]
  tauto

theorem Surroundings.Fair.spares {busy own : Nat → Prop} {freed written : List Segment}
    (h : w.Fair v busy own freed written) (hbusy : busy b) (helsewhere : ¬v.elsewhere b) (hown : ¬own b) :
    ¬w.elsewhere b ∧ ¬covers w.released b = true ∧ ¬w.touched b ∧
      (covers v.journal.deferred b = false → covers freed b = false → covers w.journal.deferred b = false) := by
  have hreleased (hb : covers w.released b = true) : False :=
    (h.released b hb).elim helsewhere fun hb => hb.elim hown fun hfree => hfree hbusy
  refine ⟨fun hb => ?_, hreleased, fun hb => ?_, fun hkept hfreed => Bool.not_eq_true _ ▸ fun hdeferred => ?_⟩
  · exact (h.elsewhere b hb).elim helsewhere fun hfree => hfree hbusy
  · exact (h.touched b hb).elim helsewhere fun hfree => hfree hbusy
  · rcases h.deferred b hdeferred with hold | hfreed' | hrel
    · cases hkept.symm.trans hold
    · cases hfreed.symm.trans hfreed'
    · exact hreleased hrel

theorem start_tidy (v : Store Digest) (f : StoredFile Digest) (env : Nat → Answer) : Tidy env (v.start f env) :=
  ⟨rfl, fun _ hb => (nomatch hb), fun _ hb => (nomatch hb)⟩

theorem Runs.written_unsettled {x : FileM Unit} {result : Except Status Unit} (h : Runs first v f x result t w)
    (hx : Walks x) (hb : covers t.written b = true) :
    ¬Settled first v.journal b := by
  obtain ⟨env, hhanded, hrun⟩ := h.run
  have htidy := (hx (v.start f env)).tidy (start_tidy v f env)
  rw [hrun] at htidy
  obtain ⟨n, hn⟩ := htidy.handed b (htidy.written b hb)
  exact hhanded n b hn

section

variable (h : Guarded o first v)
include h

theorem Guarded.found : v.find o.objectId = some o := by
  rcases hfind : v.find o.objectId with _ | f
  · exact absurd (beq_self_eq_true o.objectId) (by simpa using List.find?_eq_none.mp hfind o h.member)
  · obtain ⟨hf, hid⟩ := mem_of_find hfind
    rw [h.unique f hf hid]

section

variable (hf : f ∈ v.files)
include hf

variable (hid : f.objectId ≠ o.objectId)
include hid

theorem Guarded.not_object (hb : o.Uses b) : ¬f.Holds b := by
  rcases hb with hholds | hmaps
  · exact fun hf' => (h.apart f hf hid b).1 hholds (.inl hf')
  · exact (h.apart f hf hid b).2 hmaps

theorem Guarded.same
    {x : FileM Unit} (hx : Walks x) {result : Except Status Unit}
    (hrun : Runs first v f x result t w) : SameBlocks o.Uses v.storage w.storage := by
  apply hrun.fair.storage.same
  rintro b hb (hwritten | htouched)
  · exact hrun.written_unsettled hx hwritten (h.settled b hb)
  · have hown : b ≠ f.objectBlock := fun heq => h.not_object hf hid hb (.inl heq)
    exact (hrun.fair.spares (h.settled b hb) (h.elsewhere b hb) hown).2.2.1 htouched

theorem Guarded.spared (hrun : Runs first v f act.run (.ok ()) t w)
    (hb : o.Uses b) :
    covers t.freed b = false ∧ (act.remains = true →
      b ∉ t.object.payload.metadata ++ chainBlocks t.object.checksums ∧
        (o.Holds b → ¬Referenced t.object.payload.extentList b)) := by
  obtain ⟨env, hhanded, hrun⟩ := hrun.run
  have hmaps : o.Maps b → Referenced (v.others f.objectId) b :=
    fun hmaps => referenced_others.mpr ⟨o, h.member, Ne.symm hid, hmaps⟩
  have hmetadata : b ∉ f.object.payload.metadata ++ chainBlocks f.object.checksums :=
    fun hmem => h.not_object hf hid hb (.inr hmem)
  have hdata : Referenced (v.others f.objectId) b ∨ ¬Referenced f.object.payload.extentList b := by
    rcases hb with hholds | hmapped
    · exact .inr fun hmapped => (h.apart f hf hid b).1 hholds (.inr hmapped)
    · exact .inl (hmaps hmapped)
  have hnone (n : Nat) : (env n).run.contains b = false := by
    rw [← Bool.not_eq_true]
    exact fun hn => hhanded n b hn (h.settled b hb)
  obtain ⟨hfreed, hremains⟩ := act_spares (s := v.start f env) h.shared rfl hnone hmetadata hdata hrun
  refine ⟨hfreed, fun hact => ⟨(hremains hact).1, fun hholds => (hremains hact).2 fun hothers => ?_⟩⟩
  -- nobody maps the metadata of the file, not even the file itself
  obtain ⟨g, hg, _, hmapped⟩ := referenced_others.mp hothers
  by_cases hgo : g.objectId = o.objectId
  · exact h.own b hholds (h.unique g hg hgo ▸ hmapped)
  · exact (h.apart g hg hgo b).1 hholds (.inr hmapped)

theorem Guarded.after (hrun : Runs first v f act.run (.ok ()) t w)
    {files : List (StoredFile Digest)} (hmember : o ∈ files)
    (hfiles : ∀ g ∈ files, g ∈ v.files ∨ g.objectId ≠ o.objectId ∧ ∀ b, o.Uses b → ¬g.Holds b ∧ (o.Holds b → ¬g.Maps b)) :
    Guarded o first (v.after files w) := by
  have hspares (b : Nat) (hb : o.Uses b) := hrun.fair.spares (h.settled b hb) (h.elsewhere b hb)
    fun heq => h.not_object hf hid hb (.inl heq)
  refine ⟨hmember, fun g hg hgo => ?_, h.shared, fun b hb => hrun.steps.settled (h.settled b hb),
    fun b hb => (hspares b hb).2.2.2 (h.kept b hb) (h.spared hf hid hrun hb).1, fun b hb => (hspares b hb).1, h.own,
    fun g hg hgo b => ?_⟩
  · rcases hfiles g hg with hg | ⟨hne, _⟩
    · exact h.unique g hg hgo
    · exact absurd hgo hne
  · rcases hfiles g hg with hg | ⟨_, hapart⟩
    · exact h.apart g hg hgo b
    · refine ⟨fun hholds hg => ?_, fun hmaps => (hapart b (.inr hmaps)).1⟩
      exact hg.elim (hapart b (.inl hholds)).1 ((hapart b (.inl hholds)).2 hholds)

end

theorem Guarded.step (hid : id ≠ o.objectId)
    (hstep : ActStep first id act v v') :
    Guarded o first v' ∧ SameBlocks o.Uses v.storage v'.storage ∧ v'.totalBlocks = v.totalBlocks ∧
      v'.generations = v.generations := by
  cases hstep with
  | @stays f f' t w hremains hfind hrun hf' hobject hblock =>
    obtain ⟨hf, rfl⟩ := mem_of_find hfind
    refine ⟨h.after hf hid hrun ?_ fun g hg => ?_, h.same hf hid (walks_act act) hrun, rfl, rfl⟩
    · refine List.mem_map.mpr ⟨o, h.member, if_neg (Ne.symm hid)⟩
    · obtain ⟨g', hg', rfl⟩ := List.mem_map.mp hg
      split
      · refine .inr ⟨by rwa [hf'], fun b hb => ?_⟩
        obtain ⟨hmetadata, hdata⟩ := (h.spared hf hid hrun hb).2 hremains
        refine ⟨?_, by rw [StoredFile.Maps, hobject]; exact hdata⟩
        rintro (rfl | hmem)
        · rcases hblock with hsame | hnew
          · exact h.not_object hf hid hb (.inl hsame)
          · exact hnew (h.settled _ hb)
        · exact hmetadata (hobject ▸ hmem)
      · exact .inl hg'
  | @goes f t w hremains hfind hrun =>
    obtain ⟨hf, rfl⟩ := mem_of_find hfind
    refine ⟨h.after hf hid hrun ?_ fun g hg => .inl (List.mem_filter.mp hg).1, h.same hf hid (walks_act act) hrun, rfl, rfl⟩
    exact List.mem_filter.mpr ⟨h.member, by simpa using Ne.symm hid⟩

variable {acts : List (ObjectId × FileAct)}

theorem Guarded.steps (hapart : ∀ act ∈ acts, act.1 ≠ o.objectId)
    (hsteps : ActSteps first acts v v') :
    Guarded o first v' ∧ SameBlocks o.Uses v.storage v'.storage ∧ v'.totalBlocks = v.totalBlocks ∧
      v'.generations = v.generations := by
  induction hsteps with
  | nil v => exact ⟨h, .refl _ _, rfl, rfl⟩
  | @cons id act acts u v w hstep _ ih =>
    obtain ⟨hid, hrest⟩ := List.forall_mem_cons.mp hapart
    obtain ⟨hv, hsame, htotal, hgenerations⟩ := h.step hid hstep
    obtain ⟨hw, hsame', htotal', hgenerations'⟩ := ih hv hrest
    exact ⟨hw, hsame.trans hsame', htotal'.trans htotal, hgenerations'.trans hgenerations⟩

theorem Guarded.fails (hapart : ∀ act ∈ acts, act.1 ≠ o.objectId)
    {storage : Backend} (hfails : ActFails first acts v storage) : SameBlocks o.Uses v.storage storage := by
  induction hfails with
  | @here id act acts v f e t w hfind hrun =>
    obtain ⟨hf, rfl⟩ := mem_of_find hfind
    exact h.same hf (hapart _ List.mem_cons_self) (walks_act act) hrun
  | @later id act acts u v storage hstep _ ih =>
    obtain ⟨hid, hrest⟩ := List.forall_mem_cons.mp hapart
    obtain ⟨hv, hsame, _⟩ := h.step hid hstep
    exact hsame.trans (ih hv hrest)

end

theorem settled_now {j : Journal} : Settled j.allocated.length j b ↔ j.bitmap b = true := by
  rw [Settled, List.drop_length]
  exact and_iff_left rfl

theorem Guarded.now (h : Guarded o first v) : Guarded o v.journal.allocated.length v :=
  { h with settled := fun b hb => settled_now.mpr (h.settled b hb).1 }

theorem Surroundings.Fair.same (h : Guarded o first v) (hfair : w.Fair v (v.journal.bitmap · = true) (fun _ => False) [] []) :
    SameBlocks o.Uses v.storage w.storage := by
  apply hfair.storage.same
  rintro b hb (hwritten | htouched)
  · cases hwritten
  · exact (hfair.spares (h.settled b hb).1 (h.elsewhere b hb) id).2.2.1 htouched

/-- What a call or a publication preserves, and that a publication keeps the
blocks of the file. -/
theorem Guarded.call (h : Guarded o v.journal.allocated.length v) {request : Option Request} (hstep : Step request v v')
    (hapart : ∀ r ∈ request, ∀ act ∈ r.acts, act.1 ≠ o.objectId) :
    Guarded o v'.journal.allocated.length v' ∧ SameBlocks o.Uses v.storage v'.storage ∧ v'.totalBlocks = v.totalBlocks ∧
      ∃ new, v'.generations = v.generations ++ new ∧ ∀ g ∈ new, ∀ b, o.Uses b → g b = true := by
  cases hstep with
  | @commit request _ _ hacts =>
    obtain ⟨hv, hsame, htotal, hgenerations⟩ := h.steps (hapart request rfl) hacts
    exact ⟨hv.now, hsame, htotal, [], by rw [hgenerations, List.append_nil], fun g hg => nomatch hg⟩
  | @undo request _ storage hacts =>
    exact ⟨{ h with }, h.fails (hapart request rfl) hacts, rfl, [], (List.append_nil _).symm, fun g hg => nomatch hg⟩
  | @publish _ retained w hfair hkept =>
    have hset (b : Nat) (hb : o.Uses b) : v.journal.bitmap b = true := (h.settled b hb).1
    have hspares (b : Nat) (hb : o.Uses b) := hfair.spares (hset b hb) (h.elsewhere b hb) id
    have hpublished (b : Nat) (hb : o.Uses b) : w.bitmap v.totalBlocks retained b = true := by
      obtain ⟨_, hreleased, _, hdeferred⟩ := hspares b hb
      rw [Surroundings.bitmap, clearDeferred_apply, (hkept b (hset b hb)).resolve_right hreleased, hdeferred (h.kept b hb) rfl]
      rfl
    refine ⟨⟨h.member, h.unique, h.shared, fun b hb => settled_now.mpr (hpublished b hb), fun _ _ => rfl,
      fun b hb => (hspares b hb).1, h.own, h.apart⟩, hfair.same h, rfl, [_], rfl, fun g hg => ?_⟩
    rw [List.mem_singleton.mp hg]
    exact hpublished

/-- The file is kept in the second store as it is in the first. -/
structure Kept (o : StoredFile Digest) (v v' : Store Digest) : Prop where
  guarded : Guarded o v'.journal.allocated.length v'
  total : v'.totalBlocks = v.totalBlocks
  generations : ∃ new, v'.generations = v.generations ++ new ∧ ∀ g ∈ new, ∀ b, o.Uses b → g b = true

theorem Kept.call {u : Store Digest} (h : Kept o u v) {request : Option Request} (hstep : Step request v v')
    (hapart : ∀ r ∈ request, ∀ act ∈ r.acts, act.1 ≠ o.objectId) : Kept o u v' ∧ SameBlocks o.Uses v.storage v'.storage := by
  obtain ⟨hguarded, hsame, htotal, new', hnew', hset'⟩ := h.guarded.call hstep hapart
  obtain ⟨new, hnew, hset⟩ := h.generations
  refine ⟨⟨hguarded, htotal.trans h.total, new ++ new', by rw [hnew', hnew, List.append_assoc], ?_⟩, hsame⟩
  exact fun g hg => (List.mem_append.mp hg).elim (hset g) (hset' g)

theorem Kept.closed {u : Store Digest} (h : Kept o u v) (storage : Backend) (writable : Bool) :
    Kept o u { v with storage, writable } :=
  ⟨{ h.guarded with }, h.total, h.generations⟩

/-- A run keeps the file in the store, and once the volume was published in
what is left if a publication fails. -/
theorem Guarded.run {s t : Session Digest} {phase : Phase} (h : Guarded o s.now.journal.allocated.length s.now)
    (hrun : RunsApart o.objectId s phase t) (hphase : phase ≠ .undone) :
    Kept o s.now t.now ∧ SameBlocks o.Uses s.now.storage t.now.storage ∧ (phase = .published → Kept o s.now t.base) := by
  induction hrun with
  | refl => exact ⟨⟨h, rfl, [], (List.append_nil _).symm, fun g hg => nomatch hg⟩, .refl _ _, fun hp => nomatch hp⟩
  | call _ hstep happart ih =>
    obtain ⟨hnow, hsame, hbase⟩ := ih hphase
    obtain ⟨hnow', hsame'⟩ := hnow.call hstep fun r hr => Option.some.inj hr ▸ happart
    exact ⟨hnow', hsame.trans hsame', hbase⟩
  | @publish phase _ _ writable _ hstep ih =>
    obtain ⟨hnow, hsame, -⟩ := ih fun hundone => hphase (by rw [hundone]; rfl)
    obtain ⟨hnow', hsame'⟩ := hnow.call hstep fun r hr => nomatch hr
    exact ⟨hnow'.closed _ writable, hsame.trans hsame', fun _ => hnow'.closed _ writable⟩
  | @abort phase _ w writable _ hfair ih =>
    cases phase with
    | pending | undone => exact absurd rfl hphase
    | published =>
      obtain ⟨hnow, hsame, hbase⟩ := ih hphase
      have hback := (hbase rfl).closed w.storage writable
      exact ⟨hback, hsame.trans (hfair.same hnow.guarded), fun _ => hback⟩

end Guard

section Isolation

variable {Digest : Type} {v v₁ : Store Digest} {a b o : StoredFile Digest}

/-- What the validation of a volume makes sure of: one object for each ID, and
no block in two places except for shared data. -/
structure Store.Consistent (v : Store Digest) : Prop where
  unique : ∀ f ∈ v.files, ∀ g ∈ v.files, f.objectId = g.objectId → f = g
  placed : ∀ f ∈ v.files, ∀ b, f.Uses b →
    v.journal.bitmap b = true ∧ covers v.journal.deferred b = false ∧ ¬v.elsewhere b
  own : ∀ f ∈ v.files, ∀ b, f.Holds b → ¬f.Maps b
  apart : ∀ f ∈ v.files, ∀ g ∈ v.files, f.objectId ≠ g.objectId → ∀ b, f.Holds b → ¬g.Uses b

/-- The clone maps what the source maps and holds what was free before, and
nothing else changes hands. -/
structure Cloned (v : Store Digest) (a b : StoredFile Digest) (v₁ : Store Digest) : Prop where
  files : v₁.files = v.files ++ [b]
  source : a ∈ v.files
  ids : ∀ f ∈ v.files, f.objectId ≠ b.objectId
  shared : (v₁.incompatFlags &&& incompatSharedExtents != 0) = true
  maps : ∀ c, b.Maps c ↔ a.Maps c
  free : ∀ c, b.Holds c → v.journal.bitmap c = false
  taken : ∀ c, b.Holds c → v₁.journal.bitmap c = true ∧ covers v₁.journal.deferred c = false ∧ ¬v₁.elsewhere c
  kept : ∀ c, v.journal.bitmap c = true ∧ covers v.journal.deferred c = false ∧ ¬v.elsewhere c →
    v₁.journal.bitmap c = true ∧ covers v₁.journal.deferred c = false ∧ ¬v₁.elsewhere c

theorem Reflinks.cloned (h : Reflinks v a b v₁) : Cloned v a b v₁ := by
  obtain @⟨t, w, hsource, hnew, hrun, hobject, _, hblock, htaken⟩ := h
  obtain ⟨env, hhanded, hran⟩ := hrun.run
  have hfresh := (fresh_reflinkFileTx a.object _ ⟨rfl, rfl, rfl⟩).1 () t hran
  have htidy := (walks_reflinkFileTx a.object _).tidy (start_tidy v { b with object := createdObject a.object.portableFlags } env)
  rw [hran] at htidy
  have hallocated (c : Nat) (hc : b.Holds c) : covers t.allocated c = true ∨ c = b.objectBlock := by
    rcases hc with hc | hc
    · exact .inr hc
    · rw [hobject] at hc
      exact .inl (hfresh.held c hc)
  have hfree (c : Nat) (hc : b.Holds c) : v.journal.bitmap c = false := by
    rcases hallocated c hc with hc | rfl
    · obtain ⟨n, hn⟩ := htidy.handed c hc
      rw [← Bool.not_eq_true, ← settled_now]
      exact hhanded n c hn
    · exact hblock
  refine ⟨rfl, (mem_of_find hsource).1, ?_, reflinkFileTx_shared hran, ?_, hfree, ?_, ?_⟩
  · intro f hf hid
    have hnone := List.find?_eq_none.mp hnew f hf
    rw [hid, beq_self_eq_true] at hnone
    exact hnone rfl
  · intro c
    rw [StoredFile.Maps, hobject, hfresh.payload, StoredFile.Maps]
  · intro c hc
    refine (htaken c (hallocated c hc)).resolve_left fun hfreed => ?_
    rw [hfresh.freed] at hfreed
    cases hfreed
  · rintro c ⟨hset, hkept, helsewhere⟩
    have hown : c ≠ b.objectBlock := by
      rintro rfl
      cases hblock.symm.trans hset
    obtain ⟨helsewhere', _, _, hdeferred⟩ := hrun.fair.spares (settled_now.mpr hset) helsewhere hown
    exact ⟨(hrun.steps.settled (settled_now.mpr hset)).1, hdeferred hkept (by rw [hfresh.freed]; rfl), helsewhere'⟩

theorem Cloned.mem_files {f : StoredFile Digest} (h : Cloned v a b v₁) : f ∈ v₁.files ↔ f ∈ v.files ∨ f = b := by
  rw [h.files, List.mem_append, List.mem_singleton]

theorem Cloned.guarded_source (hv : v.Consistent) (h : Cloned v a b v₁) : Guarded a v₁.journal.allocated.length v₁ := by
  have hset (c : Nat) (hc : a.Uses c) := hv.placed a h.source c hc
  refine ⟨h.mem_files.mpr (.inl h.source), ?_, h.shared, fun c hc => settled_now.mpr (h.kept c (hset c hc)).1,
    fun c hc => (h.kept c (hset c hc)).2.1, fun c hc => (h.kept c (hset c hc)).2.2, hv.own a h.source, ?_⟩
  · intro f hf hid
    rcases h.mem_files.mp hf with hf | rfl
    · exact hv.unique f hf a h.source hid
    · exact absurd hid.symm (h.ids a h.source)
  · intro f hf hid c
    rcases h.mem_files.mp hf with hf | rfl
    · exact ⟨hv.apart a h.source f hf (Ne.symm hid) c, fun hmaps hholds => hv.apart f hf a h.source hid c hholds (.inr hmaps)⟩
    · have hfree (hc : a.Uses c) : ¬f.Holds c := by
        intro hholds
        cases (h.free c hholds).symm.trans (hset c hc).1
      refine ⟨fun hholds hc => ?_, fun hmaps => hfree (.inr hmaps)⟩
      rcases hc with hc | hc
      · exact hfree (.inl hholds) hc
      · exact hv.own a h.source c hholds ((h.maps c).mp hc)

theorem Cloned.guarded_clone (hv : v.Consistent) (h : Cloned v a b v₁) : Guarded b v₁.journal.allocated.length v₁ := by
  have hset (c : Nat) (hc : b.Uses c) :
      v₁.journal.bitmap c = true ∧ covers v₁.journal.deferred c = false ∧ ¬v₁.elsewhere c := by
    rcases hc with hc | hc
    · exact h.taken c hc
    · exact h.kept c (hv.placed a h.source c (.inr ((h.maps c).mp hc)))
  -- what the clone holds was free, so that no file used it
  have hfree (f : StoredFile Digest) (hf : f ∈ v.files) (c : Nat) (hc : b.Holds c) : ¬f.Uses c := by
    intro huses
    cases (h.free c hc).symm.trans (hv.placed f hf c huses).1
  refine ⟨h.mem_files.mpr (.inr rfl), ?_, h.shared, fun c hc => settled_now.mpr (hset c hc).1, fun c hc => (hset c hc).2.1,
    fun c hc => (hset c hc).2.2, fun c hc hmaps => hfree a h.source c hc (.inr ((h.maps c).mp hmaps)), ?_⟩
  · intro f hf hid
    rcases h.mem_files.mp hf with hf | rfl
    · exact absurd hid (h.ids f hf)
    · rfl
  · intro f hf hid c
    rcases h.mem_files.mp hf with hf | rfl
    · refine ⟨hfree f hf c, fun hmaps hholds => ?_⟩
      have hmaps := (h.maps c).mp hmaps
      by_cases hfa : f.objectId = a.objectId
      · obtain rfl := hv.unique f hf a h.source hfa
        exact hv.own f hf c hholds hmaps
      · exact hv.apart f hf a h.source hfa c hholds (.inr hmaps)
    · exact absurd rfl hid

/-- Reflinked files are isolated. Once a file is cloned, no sequence of writes,
truncations, punched holes, unlinks, renames and publications that is about
other files changes the size of the source or of the clone or any byte that is
read from it, and its blocks are allocated in every generation that is
published. A publication may fail, but not before the clone was published. -/
theorem reflink_isolates [DecidableEq Digest] (codecs : Codecs Digest) (hv : v.Consistent) (hreflink : Reflinks v a b v₁)
    (ho : o = a ∨ o = b) (hpolicy : o.object.storagePolicy = 0) {base : Store Digest} {phase : Phase} {s : Session Digest}
    (hrun : RunsApart o.objectId ⟨base, v₁⟩ phase s) (hphase : phase ≠ .undone) :
    (∀ offset size, s.now.read codecs o.objectId offset size = v₁.read codecs o.objectId offset size) ∧
      s.now.size o.objectId = v₁.size o.objectId ∧ SameBlocks o.Uses v₁.storage s.now.storage ∧
      (∀ c, o.Maps c → s.now.journal.bitmap c = true) ∧
      ∃ new, s.now.generations = v₁.generations ++ new ∧ ∀ g ∈ new, ∀ c, o.Maps c → g c = true := by
  have hguarded : Guarded o v₁.journal.allocated.length v₁ := by
    rcases ho with rfl | rfl
    · exact hreflink.cloned.guarded_source hv
    · exact hreflink.cloned.guarded_clone hv
  obtain ⟨⟨hguarded', htotal, new, hnew, hset⟩, hsame, -⟩ := hguarded.run hrun hphase
  refine ⟨fun offset size => ?_, ?_, hsame, fun c hc => (hguarded'.settled c (.inr hc)).1, new, hnew,
    fun g hg c hc => hset g hg c (.inr hc)⟩
  · rw [Store.read, Store.read, hguarded.found, hguarded'.found, htotal]
    apply readFile_same hpolicy
    exact fun policy hpolicy offset size hsize hin => hsame policy hpolicy offset size hsize fun c hlo hhi => .inr (hin c hlo hhi)
  · rw [Store.size, Store.size, hguarded.found, hguarded'.found]

def oneBlock (id : ObjectId) (objectBlock : Nat) : StoredFile Unit where
  objectId := id
  objectBlock := objectBlock
  object := ⟨4096, 0, .extents [⟨0, 9, 1, extentNormal⟩], [⟨objectBlock + 1, 0⟩], true⟩
  bytes := []
  checksum := Function.update (fun _ => .error .notFound) 0 (.ok ())

def sourceFile : StoredFile Unit := oneBlock (Vector.replicate 16 1) 10

def cloneFile : StoredFile Unit := oneBlock (Vector.replicate 16 2) 20

def volumeOf (files : List (StoredFile Unit)) (journal : Journal) : Store Unit where
  totalBlocks := 32
  incompatFlags := incompatSharedExtents
  writable := true
  files := files
  elsewhere := fun _ => False
  journal := journal
  storage := sevens
  generations := []

def sourceJournal : Journal := ⟨fun b => decide (9 ≤ b ∧ b < 12), [], [], 29⟩

def cloneJournal : Journal := ⟨setRange sourceJournal.bitmap 20 2 true, [⟨20, 2⟩], [], 29 - 2⟩

def unlinkJournal : Journal := { cloneJournal with deferred := [⟨10, 1⟩, ⟨11, 1⟩] }

def beforeReflink : Store Unit := volumeOf [sourceFile] sourceJournal

def afterReflink : Store Unit := volumeOf [sourceFile, cloneFile] cloneJournal

def afterUnlink : Store Unit := volumeOf [cloneFile] unlinkJournal

def idle (released : List Segment) (journal : Journal) : Surroundings :=
  ⟨fun _ => False, released, fun _ => False, journal, sevens⟩

def afterPublish : Store Unit := afterUnlink.published (fun _ => false) (idle [] unlinkJournal)

def answering (block : Nat) : Nat → Answer := fun _ => ⟨.ok, block, 1, false⟩

theorem answering_unsettled {block first n b : Nat} {j : Journal} (hpos : 0 < block) (hclear : j.bitmap block = false)
    (hb : (answering block n).run.contains b = true) : ¬Settled first j b := by
  simp only [answering, Answer.run, contains_iff, Segment.stop] at hb
  obtain rfl : b = block := by omega
  exact not_settled_of_clear hclear

theorem oneBlock_holds {id : ObjectId} {objectBlock b : Nat} :
    (oneBlock id objectBlock).Holds b ↔ b = objectBlock ∨ b = objectBlock + 1 := by
  simp [StoredFile.Holds, oneBlock, Payload.metadata, Payload.pageList, Payload.index, chainBlocks]

theorem oneBlock_maps {id : ObjectId} {objectBlock b : Nat} : (oneBlock id objectBlock).Maps b ↔ b = 9 := by
  rw [StoredFile.Maps, referenced_iff]
  simp only [oneBlock, Payload.extentList, useCount_cons, useCount_nil]
  rw [uses_normal, hits_eq]
  split <;> omega

theorem beforeReflink_consistent : beforeReflink.Consistent := by
  refine ⟨?_, ?_, ?_, ?_⟩
  · intro f hf g hg _
    rw [List.mem_singleton.mp hf, List.mem_singleton.mp hg]
  · intro f hf b hb
    rw [List.mem_singleton.mp hf, StoredFile.Uses, sourceFile, oneBlock_holds, oneBlock_maps] at hb
    refine ⟨?_, rfl, id⟩
    show decide (9 ≤ b ∧ b < 12) = true
    rw [decide_eq_true_eq]
    omega
  · intro f hf b hholds hmaps
    rw [List.mem_singleton.mp hf, sourceFile] at hholds hmaps
    rw [oneBlock_holds] at hholds
    rw [oneBlock_maps] at hmaps
    omega
  · intro f hf g hg hne
    rw [List.mem_singleton.mp hf, List.mem_singleton.mp hg] at hne
    exact absurd rfl hne

theorem idle_fair {v : Store Unit} {busy own : Nat → Prop} {freed released : List Segment} {journal : Journal}
    (hstorage : v.storage = sevens) (hreleased : ∀ b, covers released b = true → own b)
    (hdeferred : ∀ b, covers journal.deferred b = true →
      covers v.journal.deferred b = true ∨ covers freed b = true ∨ covers released b = true) :
    (idle released journal).Fair v busy own freed [] := by
  refine ⟨fun _ hb => hb.elim, fun b hb => .inr (.inl (hreleased b hb)), fun _ hb => hb.elim, hdeferred, ?_⟩
  intro policy _ offset size _ _
  rw [hstorage]
  rfl

def cloneRun : Except Status Unit × FileState :=
  File.reflinkFileTx sourceFile.object
    (beforeReflink.start { cloneFile with object := createdObject sourceFile.object.portableFlags } (answering 21))

theorem reflinks_oneBlock : Reflinks beforeReflink sourceFile cloneFile afterReflink := by
  have hran : cloneRun.1 = .ok () := by decide +kernel
  have hobject : cloneFile.object = cloneRun.2.object := by decide +kernel
  have hallocated : cloneRun.2.allocated = [⟨21, 1⟩] := by decide +kernel
  have hwritten : cloneRun.2.written = [] := by decide +kernel
  -- the final state is kept as a variable, so that nothing below evaluates the run
  obtain ⟨t, hrun⟩ : ∃ t, cloneRun = (.ok (), t) := ⟨_, Prod.ext hran rfl⟩
  rw [hrun] at hobject hallocated hwritten
  have hcontent : reflinkFileTx sourceFile.dataFile cloneFile.objectId = .ok cloneFile.dataFile := by
    have hvalid : extentsValid [⟨0, 9, 1, extentNormal⟩] = true := by decide
    have hinline : (FileObject.mk 4096 0 (.extents [⟨0, 9, 1, extentNormal⟩]) [⟨11, 0⟩] true).isInline = false := by decide
    unfold reflinkFileTx sourceFile StoredFile.dataFile oneBlock
    dsimp only
    rw [if_neg (by decide), hinline, if_neg Bool.false_ne_true]
    dsimp only [Payload.extentList]
    rw [hvalid]
    rfl
  have hsteps : JournalSteps 32 0 sourceJournal cloneJournal := by
    refine .single (.allocate sourceJournal ⟨20, 2⟩ (by decide) fun b hb => ?_)
    rw [contains_iff, Segment.stop] at hb
    dsimp only at hb
    show decide (9 ≤ b ∧ b < 12) = false
    rw [decide_eq_false_iff_not]
    omega
  refine .mk (w := idle [] cloneJournal) rfl rfl ⟨⟨answering 21, ?_, hrun⟩, ?_, hsteps⟩ hobject hcontent rfl ?_
  · exact fun n b => answering_unsettled (by decide) rfl
  · rw [hwritten]
    exact idle_fair rfl (fun _ hb => nomatch hb) fun _ hb => nomatch hb
  · intro c hc
    have hc : c = 21 ∨ c = 20 := by
      change covers t.allocated c = true ∨ c = 20 at hc
      rw [hallocated, covers_cons, covers_nil, Bool.or_false, contains_iff, Segment.stop] at hc
      rcases hc with hc | hc
      · dsimp only at hc
        omega
      · exact .inr hc
    rcases hc with rfl | rfl <;> exact .inr ⟨rfl, rfl, id⟩

def unlinkRun : Except Status Unit × FileState := infsUnlink true 1 (afterReflink.start sourceFile (answering 30))

theorem unlinks_oneBlock : Step (some (.file sourceFile.objectId (.unlink true 1))) afterReflink afterUnlink := by
  have hran : unlinkRun.1 = .ok () := by decide +kernel
  have hfreed : unlinkRun.2.freed = [⟨11, 1⟩] := by decide +kernel
  have hwritten : unlinkRun.2.written = [] := by decide +kernel
  obtain ⟨t, hrun⟩ : ∃ t, unlinkRun = (.ok (), t) := ⟨_, Prod.ext hran rfl⟩
  rw [hrun] at hfreed hwritten
  have hset (block : Nat) (hblock : block = 10 ∨ block = 11) (b : Nat) (hb : (Segment.mk block 1).contains b = true) :
      cloneJournal.bitmap b = true := by
    rw [contains_iff, Segment.stop] at hb
    dsimp only at hb
    obtain rfl : b = block := by omega
    rcases hblock with rfl | rfl <;> rfl
  have hsteps : JournalSteps 32 1 cloneJournal unlinkJournal := by
    apply Relation.ReflTransGen.tail (b := { cloneJournal with deferred := [⟨10, 1⟩] })
    · exact .single (.defer cloneJournal ⟨10, 1⟩ (hset 10 (.inl rfl)))
    · exact .defer { cloneJournal with deferred := [⟨10, 1⟩] } ⟨11, 1⟩ (hset 11 (.inr rfl))
  have hgoes : ActStep 1 sourceFile.objectId (.operation (.unlink true 1)) afterReflink afterUnlink := by
    refine .goes (f := sourceFile) (w := idle [⟨10, 1⟩] unlinkJournal) rfl rfl
      ⟨⟨answering 30, ?_, hrun⟩, ?_, hsteps⟩
    · exact fun n b => answering_unsettled (by decide) rfl
    · rw [hwritten, hfreed]
      apply idle_fair rfl
      · intro b hb
        simp only [covers_cons, covers_nil, Bool.or_false, contains_iff, Segment.stop] at hb
        show b = 10
        omega
      · intro b hb
        simp only [unlinkJournal, covers_cons, covers_nil, Bool.or_false, Bool.or_eq_true] at hb ⊢
        exact hb.elim (fun hb => .inr (.inr hb)) fun hb => .inr (.inl hb)
  exact .commit (.cons hgoes (.nil _))

theorem runs_oneBlock : RunsApart cloneFile.objectId ⟨beforeReflink, afterReflink⟩ .pending ⟨beforeReflink, afterUnlink⟩ := by
  refine RunsApart.call (t := ⟨beforeReflink, afterReflink⟩) .refl unlinks_oneBlock fun act hact => ?_
  rw [List.mem_singleton.mp hact]
  decide

theorem publishes_oneBlock : Step none afterUnlink afterPublish :=
  .publish (idle_fair rfl (fun _ hb => nomatch hb) fun _ hb => .inl hb) fun _ hb => .inl hb

/-- The source is unlinked and the volume published. The clone still reads, and
its block is allocated while those of the source are not. -/
theorem reflink_isolates_unlinked :
    (∀ offset size, afterPublish.read plainCodecs cloneFile.objectId offset size =
      afterReflink.read plainCodecs cloneFile.objectId offset size) ∧
      afterPublish.journal.bitmap 9 = true ∧ afterPublish.journal.bitmap 10 = false ∧
      afterPublish.journal.bitmap 11 = false := by
  have h := reflink_isolates plainCodecs beforeReflink_consistent reflinks_oneBlock (.inr rfl) rfl
    (runs_oneBlock.publish true publishes_oneBlock) fun h => nomatch h
  exact ⟨h.1, by decide, by decide, by decide⟩

/-- The source is unlinked after the reflink and the publication of both fails.
The clone is gone. -/
theorem failed_publication_loses_clone : Reflinks beforeReflink sourceFile cloneFile afterReflink ∧
    ∃ s, RunsApart cloneFile.objectId ⟨beforeReflink, afterReflink⟩ .undone s ∧
      s.now.size cloneFile.objectId = none ∧ afterReflink.size cloneFile.objectId = some 4096 := by
  have hidle : (idle [] unlinkJournal).Fair afterUnlink (afterUnlink.journal.bitmap · = true) (fun _ => False) [] [] :=
    idle_fair rfl (fun _ hb => nomatch hb) fun _ hb => .inl hb
  exact ⟨reflinks_oneBlock, _, runs_oneBlock.abort true hidle, rfl, rfl⟩

end Isolation

end InfiltratorFS.Reflink
