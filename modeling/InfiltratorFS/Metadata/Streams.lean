import InfiltratorFS.Directory.Names
import InfiltratorFS.Directory.Cache
import InfiltratorFS.Library.Prog
import Mathlib.Logic.Function.Basic

namespace InfiltratorFS.Metadata

open Prog Directory

section Objects

structure TypedExtension where
  typeId : ObjectId
  typeVersion : UInt32
  flags : UInt16
  data : List UInt8
  deriving DecidableEq

def knownExtensionFlags : UInt16 := 3

def extensionDataMax : Nat := 3936

def typedExtensionInputValid : Option TypedExtension → Bool
  | none => true
  | some e =>
    !idIsZero e.typeId && e.typeVersion != 0 && (e.flags &&& ~~~knownExtensionFlags) == 0 &&
      decide (e.data.length ≤ extensionDataMax)

structure StreamEntry where
  name : Name
  recordSize : Nat
  streamId : ObjectId
  deriving DecidableEq

structure MetadataSet where
  typedExtension : ObjectId
  entries : List StreamEntry
  deriving DecidableEq

structure Attributes where
  portableFlags : UInt64
  extendedAttributes : ObjectId
  deriving DecidableEq

/-- What an object ID leads to. The objects of the namespace own metadata. An
object that does not pass its own validation is one of the last kind. -/
inductive MetaObject
  | owner (type : ObjectType) (attributes : Attributes)
  | extension (value : TypedExtension)
  | metadataSet (set : MetadataSet)
  | namedStream (portableFlags : UInt64) (data : List UInt8)
  | other
  deriving DecidableEq

abbrev Graph := ObjectId → Option MetaObject

abbrev Path := List UInt8

structure Tree where
  names : Path → Option ObjectId
  objects : Graph

def Tree.put (t : Tree) (id : ObjectId) (object : MetaObject) : Tree :=
  { t with objects := Function.update t.objects id (some object) }

def Tree.drop (t : Tree) (id : ObjectId) : Tree := { t with objects := Function.update t.objects id none }

def Tree.bind (t : Tree) (path : Path) (id : ObjectId) : Tree := { t with names := Function.update t.names path (some id) }

end Objects

section Volume

/-- What the code around the metadata answers: a status, a random ID and a choice. -/
structure Answer where
  status : Status
  id : ObjectId
  flag : Bool

structure StreamVolume where
  typedExtensions : Bool
  namedStreams : Bool
  sharedExtents : Bool
  utf8 : Name → Bool
  live : Tree
  base : Tree
  operation : Tree
  txActive : Bool
  operationActive : Bool
  writable : Bool
  reopenRequiredStatus : Status
  deferredPublish : Bool
  env : Nat → Answer
  tick : Nat
  publication : Nat → Answer
  published : Nat

abbrev StreamM := Prog StreamVolume Status

def request : StreamM Answer := fun v =>
  let answer := v.env v.tick
  let v := { v with tick := v.tick + 1 }
  if answer.status = .ok then (.ok answer, v) else (.error answer.status, v)

/-- A read, a write, an allocation or any other call that may fail. -/
def call : StreamM Unit := do
  let _ ← request
  pure ()

def put (id : ObjectId) (object : MetaObject) : StreamM Unit := do
  call
  modify fun v => { v with live := v.live.put id object }

def indexRemove (id : ObjectId) : StreamM Unit := do
  call
  modify fun v => { v with live := v.live.drop id }

end Volume

section References

variable (v : StreamVolume)

def lookupPath (path : Path) : Except Status ObjectId :=
  match v.live.names path with
  | none => .error .notFound
  | some id => .ok id

def namedStreamNameValid (name : Name) : Bool := name != [] && decide (name.length ≤ nameMax) && v.utf8 name

def namedStreamRecordSize (length : Nat) : Nat := (24 + length + 7) / 8 * 8

def entriesBytes (entries : List StreamEntry) : Nat := (entries.map StreamEntry.recordSize).sum

def metadataSetDataMax : Nat := 3968

def streamEntryValid (e : StreamEntry) : Bool :=
  namedStreamNameValid v e.name && !idIsZero e.streamId && decide (24 + e.name.length ≤ e.recordSize) && e.recordSize % 8 == 0

def metadataSetPayloadShapeValid (entries : List StreamEntry) : Bool :=
  decide (entriesBytes entries ≤ metadataSetDataMax) && entries.all (streamEntryValid v) &&
    decide (entries.map StreamEntry.name).Nodup

def typedExtensionValidateReference (id : ObjectId) : Except Status TypedExtension :=
  if idIsZero id then .error .invalidArgument
  else if !v.typedExtensions then .error .corrupt
  else
    match v.live.objects id with
    | some (.extension value) => .ok value
    | _ => .error .corrupt

def metadataSetLoad (id : ObjectId) : Except Status MetadataSet :=
  if idIsZero id then .error .invalidArgument
  else if !v.namedStreams then .error .corrupt
  else
    match v.live.objects id with
    | some (.metadataSet set) => if metadataSetPayloadShapeValid v set.entries then .ok set else .error .corrupt
    | _ => .error .corrupt

def validateStreams : List ObjectId → List StreamEntry → Except Status Unit
  | _, [] => .ok ()
  | prior, e :: rest =>
    match v.live.objects e.streamId with
    | some (.namedStream _ _) => if e.streamId ∈ prior then .error .corrupt else validateStreams (e.streamId :: prior) rest
    | _ => .error .corrupt

def validateSetExtension (set : MetadataSet) : Except Status Unit :=
  if idIsZero set.typedExtension then .ok ()
  else do
    let _ ← typedExtensionValidateReference v set.typedExtension
    pure ()

def metadataSetValidateReference (id : ObjectId) : Except Status MetadataSet := do
  let set ← metadataSetLoad v id
  validateSetExtension v set
  validateStreams v [] set.entries
  pure set

def metadataReferenceTypedExtension (reference : ObjectId) : Except Status ObjectId :=
  if idIsZero reference then .error .notFound
  else
    match v.live.objects reference with
    | none => .error .notFound
    | some (.extension _) => do
      let _ ← typedExtensionValidateReference v reference
      pure reference
    | some (.metadataSet _) => do
      let set ← metadataSetValidateReference v reference
      if idIsZero set.typedExtension then .error .notFound else .ok set.typedExtension
    | some _ => .error .corrupt

/-- What the reference of an owner leads to: nothing, an extension alone, or a set. -/
def referenceMetadata (reference : ObjectId) : Except Status (Option MetadataSet) :=
  if idIsZero reference then .ok none
  else
    match v.live.objects reference with
    | none => .error .notFound
    | some (.extension _) => do
      let _ ← typedExtensionValidateReference v reference
      pure none
    | some (.metadataSet _) => do
      let set ← metadataSetValidateReference v reference
      pure (some set)
    | some _ => .error .corrupt

def ownerAttributes (path : Path) : Except Status (ObjectId × ObjectType × Attributes) := do
  let id ← lookupPath v path
  match v.live.objects id with
  | none => .error .notFound
  | some (.owner type attributes) => .ok (id, type, attributes)
  | some _ => .error .corrupt

def namedStreamOwnerMetadata (path : Path) : Except Status (ObjectId × ObjectType × Attributes × Option MetadataSet) := do
  let (id, type, attributes) ← ownerAttributes v path
  let set ← referenceMetadata v attributes.extendedAttributes
  pure (id, type, attributes, set)

end References

section Queries

variable (v : StreamVolume)

def streamInfos : List StreamEntry → Except Status (List (Name × Nat))
  | [] => .ok []
  | e :: rest =>
    match v.live.objects e.streamId with
    | some (.namedStream _ data) => do
      let infos ← streamInfos rest
      pure ((e.name, data.length) :: infos)
    | _ => .error .corrupt

def namedStreamList (path : Path) : Except Status (List (Name × Nat)) :=
  if !v.namedStreams then .error .notSupported
  else do
    let (_, _, _, set) ← namedStreamOwnerMetadata v path
    match set with
    | none => .ok []
    | some set => streamInfos v set.entries

def metadataSetFindEntry (set : MetadataSet) (name : Name) : Except Status StreamEntry :=
  match set.entries.find? fun e => e.name == name with
  | none => .error .notFound
  | some e => .ok e

def namedStreamRead (path : Path) (name : Name) (size offset : Nat) : Except Status (List UInt8) :=
  if !namedStreamNameValid v name then .error .invalidArgument
  else if !v.namedStreams then .error .notSupported
  else do
    let (_, _, _, set) ← namedStreamOwnerMetadata v path
    match set with
    | none => .error .notFound
    | some set =>
      let e ← metadataSetFindEntry set name
      match v.live.objects e.streamId with
      | some (.namedStream _ data) => .ok ((data.drop offset).take size)
      | _ => .error .corrupt

def getTypedExtension (path : Path) : Except Status TypedExtension := do
  let (_, _, attributes) ← ownerAttributes v path
  let id ← metadataReferenceTypedExtension v attributes.extendedAttributes
  match v.live.objects id with
  | some (.extension value) => .ok value
  | _ => .error .corrupt

/-- What `validate_namespace_graph` asks of the reference of an object. -/
def validateMetadataReference (path : Path) : Except Status Unit := do
  let (_, _, attributes) ← ownerAttributes v path
  if !idIsZero attributes.extendedAttributes then
    match v.live.objects attributes.extendedAttributes with
    | some (.extension _) =>
      let _ ← typedExtensionValidateReference v attributes.extendedAttributes
    | some (.metadataSet _) =>
      let _ ← metadataSetValidateReference v attributes.extendedAttributes
    | _ => .error .corrupt

end Queries

section Changes

/-- The all-zero ID of fifteen bytes and a code. -/
def principalIdIsReserved (id : ObjectId) : Bool :=
  (id.toList.take 15).all (· == 0) && id[15] != 0 && id[15] ≤ 31

def usableId (id : ObjectId) : Bool := !idIsZero id && !principalIdIsReserved id && id != snapshotCatalogId

def generateUniqueObjectId : Nat → StreamM ObjectId
  | 0 => fail .error
  | attempts + 1 => do
    let answer ← request
    if !usableId answer.id then generateUniqueObjectId attempts
    else
      call
      let v ← get
      if (v.live.objects answer.id).isSome then generateUniqueObjectId attempts else pure answer.id

def createObject (object : MetaObject) : StreamM ObjectId := do
  let id ← generateUniqueObjectId 32
  put id object
  pure id

def typedExtensionCreate (value : TypedExtension) : StreamM ObjectId := createObject (.extension value)

def metadataSetStore (existing : Option ObjectId) (set : MetadataSet) : StreamM ObjectId := do
  let v ← get
  if !metadataSetPayloadShapeValid v set.entries then fail .invalidArgument
  else
    match existing with
    | none => createObject (.metadataSet set)
    | some id => do
      put id (.metadataSet set)
      pure id

/-- The rest of `metadata_reference_replace_typed_extension` once the set is loaded. -/
def replaceInSet (reference : ObjectId) (set : MetadataSet) (extensionId : ObjectId) : StreamM ObjectId :=
  if set.entries = [] then do
    indexRemove reference
    pure extensionId
  else metadataSetStore (some reference) ⟨extensionId, set.entries⟩

def metadataReferenceReplaceTypedExtension (reference extensionId : ObjectId) : StreamM ObjectId := do
  call
  let v ← get
  if idIsZero reference then pure extensionId
  else
    match v.live.objects reference with
    | none => fail .notFound
    | some (.extension _) => pure extensionId
    | some (.metadataSet _) => do
      let set ← ofExcept (metadataSetLoad v reference)
      replaceInSet reference set extensionId
    | some _ => fail .corrupt

def namedStreamCreateObject (portableFlags : UInt64) (data : List UInt8) : StreamM ObjectId := do
  let id ← createObject (.namedStream (portableFlags &&& 0xffff000000000000) [])
  -- `write_file_lookup_tx` of the whole contents at offset 0.
  if data ≠ [] then put id (.namedStream (portableFlags &&& 0xffff000000000000) data)
  pure id

def namedStreamDestroyObject (id : ObjectId) : StreamM Unit := do
  call
  let v ← get
  match v.live.objects id with
  | some (.namedStream _ _) => indexRemove id
  | _ => fail .corrupt

structure Replacement where
  entries : List StreamEntry
  replaced : ObjectId
  found : Bool

def replaceEntry (name : Name) (replacement : Option ObjectId) (r : Replacement) (e : StreamEntry) : Except Status Replacement :=
  let kept : Except Status (ObjectId → List StreamEntry) :=
    if metadataSetDataMax < entriesBytes r.entries + e.recordSize then .error .noSpace
    else .ok fun id => r.entries ++ [⟨e.name, e.recordSize, id⟩]
  if e.name = name then
    match replacement with
    | none => .ok ⟨r.entries, e.streamId, true⟩
    | some id => do
      let entries ← kept
      pure ⟨entries id, e.streamId, true⟩
  else do
    let entries ← kept
    pure ⟨entries e.streamId, r.replaced, r.found⟩

def zeroId : ObjectId := Vector.replicate 16 0

def replaceEntries (entries : List StreamEntry) (name : Name) (replacement : Option ObjectId) : Except Status Replacement := do
  let r ← entries.foldlM (replaceEntry name replacement) ⟨[], zeroId, false⟩
  match replacement with
  | none => .ok r
  | some id =>
    if r.found then .ok r
    else if metadataSetDataMax - entriesBytes r.entries < namedStreamRecordSize name.length then .error .noSpace
    else .ok ⟨r.entries ++ [⟨name, namedStreamRecordSize name.length, id⟩], r.replaced, false⟩

def ownTypedExtension (reference : ObjectId) : Option MetadataSet → StreamM ObjectId
  | some set => pure set.typedExtension
  | none =>
    if idIsZero reference then pure zeroId
    else do
      call
      let v ← get
      match v.live.objects reference with
      | none => fail .notFound
      | some (.extension _) => pure reference
      | some _ => fail .corrupt

def storeEntries (reference typedExtension : ObjectId) (entries : List StreamEntry) : Option MetadataSet → StreamM ObjectId
  | some _ =>
    if entries = [] then do
      indexRemove reference
      pure typedExtension
    else metadataSetStore (some reference) ⟨typedExtension, entries⟩
  | none => if entries = [] then pure typedExtension else metadataSetStore none ⟨typedExtension, entries⟩

/-- The answer is the stream that lost its name, or zero. -/
def metadataSetReplaceStream (id : ObjectId) (type : ObjectType) (attributes : Attributes) (set : Option MetadataSet)
    (name : Name) (replacement : Option ObjectId) : StreamM ObjectId := do
  let typedExtension ← ownTypedExtension attributes.extendedAttributes set
  let result ← ofExcept (replaceEntries ((set.map MetadataSet.entries).getD []) name replacement)
  let reference ← storeEntries attributes.extendedAttributes typedExtension result.entries set
  put id (.owner type ⟨attributes.portableFlags, reference⟩)
  pure result.replaced

end Changes

section Transaction

def txBegin : StreamM Unit := do
  let v ← get
  if v.reopenRequiredStatus ≠ .ok then fail v.reopenRequiredStatus
  else if !v.writable then fail .readOnly
  else
    call
    modify fun v => if v.txActive then v else { v with base := v.live, txActive := true }

def txAbort : StreamM Unit := modify fun v =>
  if v.txActive then { v with live := v.base, txActive := false, operationActive := false } else v

def txOperationAbort : StreamM Unit := modify fun v =>
  if v.operationActive then { v with live := v.operation, operationActive := false } else v

def mutationScopeBegin : StreamM Bool :=
  scopeBegin StreamVolume.txActive StreamVolume.operationActive txBegin txAbort .invalidArgument fun v =>
    { v with operation := v.live, operationActive := true }

def mutationScopeFail : Bool → StreamM Unit := scopeFail txOperationAbort txAbort

def publicationStep : StreamM Answer := fun v =>
  (.ok (v.publication v.published), { v with published := v.published + 1 })

/-- `infs_volume_sync` of an open transaction: what comes before the
checkpoint, then the checkpoint, which may be committed although it fails. -/
def publish : StreamM Unit := do
  let before ← publicationStep
  if before.status ≠ .ok then
    txAbort
    fail before.status
  else
    let answer ← publicationStep
    if answer.status = .ok ∨ answer.flag then modify fun v => { v with txActive := false }
    if answer.status ≠ .ok then
      modify fun v => { v with reopenRequiredStatus := answer.status, writable := false }
      txAbort
      fail answer.status

def finishMutation : StreamM Unit := do
  let v ← get
  let answer ← request
  if !v.txActive then fail .invalidArgument
  else if !v.deferredPublish ∨ answer.flag then publish

/-- A mutation between the beginning of its scope and its end. The answer of
the body says whether there is anything to finish. -/
def mutation (body : StreamM Bool) : StreamM Unit := do
  let started ← mutationScopeBegin
  match ← attempt (do if ← body then finishMutation) with
  | .ok _ => modify fun v => { v with operationActive := false }
  | .error status =>
    mutationScopeFail started
    fail status

end Transaction

section Calls

def namedStreamSetTx (path : Path) (name : Name) (data : List UInt8) : StreamM Bool := do
  call
  let v ← get
  let (id, type, attributes, set) ← ofExcept (namedStreamOwnerMetadata v path)
  let stream ← namedStreamCreateObject attributes.portableFlags data
  let replaced ← metadataSetReplaceStream id type attributes set name (some stream)
  if !idIsZero replaced then namedStreamDestroyObject replaced
  pure true

def namedStreamDeleteTx (path : Path) (name : Name) : StreamM Bool := do
  call
  let v ← get
  let (id, type, attributes, set) ← ofExcept (namedStreamOwnerMetadata v path)
  if set.isNone then fail .notFound
  else
    let removed ← metadataSetReplaceStream id type attributes set name none
    if idIsZero removed then fail .notFound
    else
      namedStreamDestroyObject removed
      pure true

def replaceTypedExtension (id : ObjectId) (type : ObjectType) (attributes : Attributes) (extensionId : ObjectId) :
    StreamM Bool := do
  let reference ← metadataReferenceReplaceTypedExtension attributes.extendedAttributes extensionId
  put id (.owner type ⟨attributes.portableFlags, reference⟩)
  pure true

def setTypedExtensionTx (path : Path) (extension : Option TypedExtension) : StreamM Bool := do
  call
  let v ← get
  if !v.typedExtensions then fail .notSupported
  else
    let (id, type, attributes) ← ofExcept (ownerAttributes v path)
    match extension with
    | some value => do
      let extensionId ← typedExtensionCreate value
      replaceTypedExtension id type attributes extensionId
    | none =>
      match metadataReferenceTypedExtension v attributes.extendedAttributes with
      | .ok _ => replaceTypedExtension id type attributes zeroId
      | .error .notFound => pure false
      | .error status => fail status

inductive StreamCall
  | set (path : Path) (name : Name) (data : List UInt8)
  | delete (path : Path) (name : Name)
  | setTypedExtension (path : Path) (extension : Option TypedExtension)

def StreamCall.path : StreamCall → Path
  | .set path _ _ => path
  | .delete path _ => path
  | .setTypedExtension path _ => path

def absolute (path : Path) : Bool := path.head? == some 47

/-- The checks of a call on streams before its scope. -/
def streamCall (path : Path) (name : Name) (body : StreamM Bool) : StreamM Unit := do
  let v ← get
  if !absolute path || !namedStreamNameValid v name then fail .invalidArgument
  else if !v.writable then fail .readOnly
  else if !v.namedStreams then fail .notSupported
  else mutation body

def StreamCall.run : StreamCall → StreamM Unit
  | .set path name data => streamCall path name (namedStreamSetTx path name data)
  | .delete path name => streamCall path name (namedStreamDeleteTx path name)
  | .setTypedExtension path extension =>
    if !absolute path || !typedExtensionInputValid extension then fail .invalidArgument
    else mutation (setTypedExtensionTx path extension)

def runCalls (calls : List StreamCall) (v : StreamVolume) : StreamVolume := calls.foldl (fun v c => (c.run v).2) v

/-- `reflink_file_tx`, with the data of the file left out. -/
def reflinkFileTx (source destination : Path) : StreamM Bool := do
  call
  let v ← get
  if !v.sharedExtents then fail .notSupported
  else
    let (_, type, attributes) ← ofExcept (ownerAttributes v source)
    if type ≠ .file then fail .isDirectory
    else if (v.live.names destination).isSome then fail .alreadyExists
    else
      let id ← createObject (.owner .file ⟨attributes.portableFlags, zeroId⟩)
      modify fun v => { v with live := v.live.bind destination id }
      call
      put id (.owner .file attributes)
      pure true

def reflinkFile (source destination : Path) : StreamM Unit :=
  if !absolute source || !absolute destination then fail .invalidArgument
  else if decide (1 < destination.length) && destination.getLast? == some 47 then fail .notDirectory
  else mutation (reflinkFileTx source destination)

end Calls

end InfiltratorFS.Metadata
