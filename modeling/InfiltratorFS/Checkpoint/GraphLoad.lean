import Mathlib.Data.List.Sort
import InfiltratorFS.Format.Superblock

namespace InfiltratorFS.Recovery

section Constants

def objectDirectory : UInt16 := 1
def objectFile : UInt16 := 2
def objectIndex : UInt16 := 3
def objectChecksum : UInt16 := 4
def objectSymlink : UInt16 := 5
def objectSnapshotCatalog : UInt16 := 6
def objectPrincipal : UInt16 := 7
def objectSecurity : UInt16 := 8
def objectSecurityBinding : UInt16 := 9
def objectExtension : UInt16 := 10
def objectMetadataSet : UInt16 := 11
def objectNamedStream : UInt16 := 12

def versionPaged : UInt16 := 2
def versionTree : UInt16 := 3

def incompatPagedMetadata : UInt64 := 0x10
def incompatSymbolicLinks : UInt64 := 0x20
def incompatSnapshots : UInt64 := 0x80
def incompatIndexTree : UInt64 := 0x200
def incompatDirectoryTree : UInt64 := 0x400
def incompatPortableSecurity : UInt64 := 0x8000
def incompatTypedExtensions : UInt64 := 0x20000
def incompatNamedStreams : UInt64 := 0x40000

def knownRoCompatFlags : UInt64 := 0

def incompatEnabled (sb : Superblock) (flag : UInt64) : Bool := (sb.incompatFlags &&& flag) != 0

end Constants

section Image

/-- What the loader looks at in an object block that it has read. -/
structure LoadedObject where
  objectId : ObjectId
  parentId : ObjectId
  objectType : UInt16
  objectVersion : UInt16
  payloadSize : Nat
  /-- The first word of the payload of an index. -/
  entryCount : Nat

structure IndexEntry where
  objectId : ObjectId
  objectBlock : UInt64
  objectType : UInt16
  flags : UInt16
  reserved : UInt32
  deriving DecidableEq

/-- What the functions that the loader calls find on a device under one
checkpoint. None of them writes. -/
structure GraphImage where
  /-- `allocation_map_load`. -/
  allocationMap : Except Status (Nat → Bool)
  /-- `read_object`. -/
  readObject : Nat → Except Status LoadedObject
  /-- `dir_validate` of the object in a block. -/
  dirValidate : Nat → Except Status Unit
  /-- `index_snapshot`: the entries of the index on the device. -/
  indexSnapshot : Except Status (List IndexEntry)
  /-- The search for an identifier in the index on the device. -/
  indexSearch : ObjectId → Except Status (UInt64 × UInt16)
  validateIntegrityMetadata : Except Status Unit
  validateNamespaceGraph : Except Status Unit
  validateChecksumGraph : Except Status Unit

variable (g : GraphImage) (sb : Superblock)

def indexLoad : Except Status LoadedObject :=
  match g.readObject sb.objectIndexBlock.toNat with
  | .error status => .error status
  | .ok object => if object.objectType ≠ objectIndex ∨ object.payloadSize < 8 then .error .corrupt else .ok object

/-- `index_find` with an empty object cache. The root is answered from the
superblock. -/
def indexFind (id : ObjectId) : Except Status (UInt64 × UInt16) :=
  if id = sb.rootObjectId then .ok (sb.rootObjectBlock, objectDirectory) else g.indexSearch id

end Image

section Index

variable (g : GraphImage) (sb : Superblock) (bitmap : Nat → Bool)

def indexedObjectTypeValid (type : UInt16) (id : ObjectId) : Bool :=
  if type = objectDirectory ∨ type = objectFile ∨ type = objectChecksum then true
  else if type = objectSymlink then incompatEnabled sb incompatSymbolicLinks
  else if type = objectSnapshotCatalog then incompatEnabled sb incompatSnapshots && id == snapshotCatalogId
  else if type = objectPrincipal ∨ type = objectSecurity ∨ type = objectSecurityBinding then
    incompatEnabled sb incompatPortableSecurity
  else if type = objectExtension then incompatEnabled sb incompatTypedExtensions
  else if type = objectMetadataSet ∨ type = objectNamedStream then incompatEnabled sb incompatNamedStreams
  else false

/-- The loop of `validate_index_entries` over the sorted entries. It counts
the entries of the root. -/
def entriesLoop : Option IndexEntry → Nat → List IndexEntry → Except Status Nat
  | _, seen, [] => .ok seen
  | previous, seen, e :: rest =>
    if idIsZero e.objectId = true ∨ sb.total ≤ e.objectBlock.toNat ∨ bitmap e.objectBlock.toNat = false ∨ e.flags ≠ 0 ∨
        e.reserved ≠ 0 ∨ indexedObjectTypeValid sb e.objectType e.objectId = false then .error .corrupt
    else if previous.any (fun p => p.objectId == e.objectId) then .error .corrupt
    else
      match g.readObject e.objectBlock.toNat with
      | .error status => .error status
      | .ok object =>
        if object.objectId ≠ e.objectId ∨ object.objectType ≠ e.objectType then .error .corrupt
        else if e.objectId = sb.rootObjectId then
          if e.objectBlock ≠ sb.rootObjectBlock ∨ e.objectType ≠ objectDirectory then .error .corrupt
          else entriesLoop (some e) (seen + 1) rest
        else entriesLoop (some e) seen rest

def sortEntries (entries : List IndexEntry) : List IndexEntry :=
  entries.mergeSort fun a b => decide (a.objectId.toList ≤ b.objectId.toList)

def validateIndexEntries : Except Status Unit :=
  match indexLoad g sb with
  | .error status => .error status
  | .ok header =>
    if idIsZero header.parentId = false then .error .corrupt
    else
      match g.indexSnapshot with
      | .error status => .error status
      | .ok entries =>
        if entries.length ≠ header.entryCount then .error .corrupt
        else
          match entriesLoop g sb bitmap none 0 (sortEntries entries) with
          | .error status => .error status
          | .ok seen => if seen ≠ 1 then .error .corrupt else .ok ()

/-- The index on the device has the root, and maps it to the block of the
superblock as a directory. -/
def RootIndexed : Prop :=
  ∃ entries, g.indexSnapshot = .ok entries ∧ (∃ e ∈ entries, e.objectId = sb.rootObjectId) ∧
    ∀ e ∈ entries, e.objectId = sb.rootObjectId → e.objectBlock = sb.rootObjectBlock ∧ e.objectType = objectDirectory

variable {g sb bitmap}

theorem entriesLoop_ok {previous : Option IndexEntry} {seen n : Nat} {entries : List IndexEntry}
    (h : entriesLoop g sb bitmap previous seen entries = .ok n) :
    (∀ e ∈ entries, e.objectId = sb.rootObjectId → e.objectBlock = sb.rootObjectBlock ∧ e.objectType = objectDirectory) ∧
      n = seen + entries.countP fun e => decide (e.objectId = sb.rootObjectId) := by
  fun_induction entriesLoop g sb bitmap previous seen entries with
  | case1 =>
    cases h
    exact ⟨fun e he => (nomatch he), rfl⟩
  | case7 previous seen e rest _ _ _ _ _ hroot hmapped ih =>
    rw [not_or, not_not, not_not] at hmapped
    obtain ⟨hrest, hcount⟩ := ih h
    refine ⟨List.forall_mem_cons.mpr ⟨fun _ => hmapped, hrest⟩, ?_⟩
    rw [List.countP_cons_of_pos (by simpa using hroot), hcount]
    omega
  | case8 previous seen e rest _ _ _ _ _ hother ih =>
    obtain ⟨hrest, hcount⟩ := ih h
    refine ⟨List.forall_mem_cons.mpr ⟨fun hroot => absurd hroot hother, hrest⟩, ?_⟩
    rw [List.countP_cons_of_neg (by simpa using hother), hcount]
  | _ => cases h

theorem rootIndexed_of_valid (h : validateIndexEntries g sb bitmap = .ok ()) : RootIndexed g sb := by
  revert h
  fun_cases validateIndexEntries g sb bitmap with
  | case7 header _ _ entries hsnapshot _ seen hloop hone =>
    intro _
    rw [not_not] at hone
    obtain ⟨hmapped, hcount⟩ := entriesLoop_ok hloop
    have hperm : (sortEntries entries).Perm entries := List.mergeSort_perm _ _
    refine ⟨entries, hsnapshot, ?_, fun e he => hmapped e (hperm.mem_iff.mpr he)⟩
    have hpositive : 0 < (sortEntries entries).countP fun e => decide (e.objectId = sb.rootObjectId) := by omega
    obtain ⟨e, he, hroot⟩ := List.countP_pos_iff.mp hpositive
    exact ⟨e, hperm.mem_iff.mp he, by simpa using hroot⟩
  | _ =>
    intro h
    cases h

end Index

section Load

def checkpointGraphStatus (status : Status) : Status :=
  if status = .notFound ∨ status = .loopDetected then .corrupt else status

def graphResult {α : Type} (r : Except Status α) : Except Status α := r.mapError checkpointGraphStatus

variable (writable : Bool) (g : GraphImage) (sb : Superblock)

/-- The shapes of the root and of the index must be those that the features
of the volume name. -/
def shapesAgree (root index : LoadedObject) : Bool :=
  (incompatEnabled sb incompatDirectoryTree == (root.objectVersion == versionTree)) &&
    (incompatEnabled sb incompatDirectoryTree ||
      incompatEnabled sb incompatPagedMetadata == (root.objectVersion == versionPaged)) &&
    (incompatEnabled sb incompatIndexTree == (index.objectVersion == versionTree)) &&
    (incompatEnabled sb incompatIndexTree ||
      incompatEnabled sb incompatPagedMetadata == (index.objectVersion == versionPaged))

def loadRoot (expectedMinor : UInt16) : Except Status (Nat → Bool) := do
  if sb.formatMinor ≠ expectedMinor then throw .notSupported
  if writable = true ∧ (sb.roCompatFlags &&& ~~~knownRoCompatFlags) ≠ 0 then throw .notSupported
  let bitmap ← g.allocationMap
  let root ← graphResult (g.readObject sb.rootObjectBlock.toNat)
  graphResult (g.dirValidate sb.rootObjectBlock.toNat)
  if root.objectId ≠ sb.rootObjectId ∨ idIsZero root.parentId = false then throw .corrupt
  let index ← graphResult (indexLoad g sb)
  if shapesAgree sb root index = false then throw .corrupt
  let found ← graphResult (indexFind g sb sb.rootObjectId)
  if found ≠ (sb.rootObjectBlock, objectDirectory) then throw .corrupt
  pure bitmap

def verifyGraph (bitmap : Nat → Bool) : Except Status Unit := do
  graphResult (validateIndexEntries g sb bitmap)
  graphResult g.validateIntegrityMetadata
  graphResult g.validateNamespaceGraph
  graphResult g.validateChecksumGraph

/-- `load_checkpoint_graph`, which leaves the bitmap of the volume. -/
def loadCheckpointGraph (fullVerify : Bool) (expectedMinor : UInt16) : Except Status (Nat → Bool) :=
  match loadRoot writable g sb expectedMinor with
  | .error status => .error status
  | .ok bitmap =>
    if fullVerify = false then .ok bitmap
    else
      match verifyGraph g sb bitmap with
      | .error status => .error status
      | .ok () => .ok bitmap

variable {writable g sb}

theorem load_rootIndexed {bitmap : Nat → Bool} {expectedMinor : UInt16}
    (h : loadCheckpointGraph writable g sb true expectedMinor = .ok bitmap) : RootIndexed g sb := by
  rw [loadCheckpointGraph] at h
  split at h
  · cases h
  · rename_i found hroot
    rw [if_neg (by decide)] at h
    split at h
    · cases h
    · rename_i hverify
      cases hindex : validateIndexEntries g sb found with
      | ok u => exact rootIndexed_of_valid hindex
      | error e =>
        rw [verifyGraph, hindex] at hverify
        cases hverify

end Load

end InfiltratorFS.Recovery
