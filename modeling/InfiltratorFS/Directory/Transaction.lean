import InfiltratorFS.Directory.Calls

namespace InfiltratorFS.Directory

open Prog

section Volume

/-- What an abort takes back: the features, the root and the graph behind it. -/
structure SavedSuperblock where
  casefold : Bool
  hardLinks : Bool
  symbolicLinks : Bool
  directoryTree : Bool
  pagedMetadata : Bool
  rootId : ObjectId
  objects : Graph

def Live.superblock (s : Live) : SavedSuperblock :=
  ⟨s.casefold, s.hardLinks, s.symbolicLinks, s.directoryTree, s.pagedMetadata, s.rootId, s.objects⟩

def Live.restore (s : Live) (sb : SavedSuperblock) : Live :=
  { s with
    casefold := sb.casefold, hardLinks := sb.hardLinks, symbolicLinks := sb.symbolicLinks
    directoryTree := sb.directoryTree, pagedMetadata := sb.pagedMetadata, rootId := sb.rootId, objects := sb.objects }

/-- An open volume: the live graph with its cache, and the superblocks to which
an aborted transaction and an aborted operation go back. The writes and flushes
of a publication answer on their own, so that their failures can be told from
those inside of an operation. -/
structure NamespaceVolume where
  live : Live
  base : SavedSuperblock
  operation : SavedSuperblock
  txActive : Bool
  operationActive : Bool
  writable : Bool
  reopenRequiredStatus : Status
  deferredPublish : Bool
  publication : Nat → Answer
  published : Nat

abbrev VolumeM := Prog NamespaceVolume Status

def lift {α : Type} (x : LiveM α) : VolumeM α := fun v => ((x v.live).1, { v with live := (x v.live).2 })

def publicationStep : VolumeM Answer := fun v =>
  (.ok (v.publication v.published), { v with published := v.published + 1 })

def directoryCacheReset (s : Live) : Live := { s with cache := s.cache.map fun _ => directoryCacheClear }

def requireReopen (status : Status) : VolumeM Unit :=
  modify fun v => { v with reopenRequiredStatus := status, writable := false }

end Volume

section Scope

def txBegin : VolumeM Unit := do
  let v ← get
  if v.reopenRequiredStatus ≠ .ok then fail v.reopenRequiredStatus
  else if !v.writable then fail .readOnly
  else
    lift call
    modify fun v => if v.txActive then v else { v with base := v.live.superblock, txActive := true }

/-- The superblock of the committed generation comes back. The object cache is
cleared with it, the directory cache is not. -/
def txAbort : VolumeM Unit := modify fun v =>
  if v.txActive then
    { v with live := v.live.restore v.base, txActive := false, operationActive := false }
  else v

def txOperationAbort : VolumeM Unit := modify fun v =>
  if v.operationActive then
    { v with live := directoryCacheReset (v.live.restore v.operation), operationActive := false }
  else v

def txOperationCommit : VolumeM Unit := modify fun v => { v with operationActive := false }

def mutationScopeBegin : VolumeM Bool :=
  scopeBegin NamespaceVolume.txActive NamespaceVolume.operationActive txBegin txAbort .invalidArgument fun v =>
    { v with operation := v.live.superblock, operationActive := true }

def mutationScopeFail : Bool → VolumeM Unit := scopeFail txOperationAbort txAbort

end Scope

section Publication

/-- A step before the checkpoint; its failure aborts the whole transaction. -/
def precheckpointStep : VolumeM Unit := do
  let answer ← publicationStep
  if answer.status ≠ .ok then
    txAbort
    fail answer.status

/-- A publication that succeeds has committed; one that fails may have. -/
def publishCheckpoint : VolumeM Unit := do
  let answer ← publicationStep
  if answer.status = .ok ∨ answer.flag then modify fun v => { v with txActive := false }
  if answer.status ≠ .ok then
    requireReopen answer.status
    txAbort
    fail answer.status

def volumeSync : VolumeM Unit := do
  let v ← get
  if v.reopenRequiredStatus ≠ .ok then fail v.reopenRequiredStatus
  else if !v.writable then pure ()
  else
    lift call
    if v.txActive then
      precheckpointStep
      precheckpointStep
      precheckpointStep
      precheckpointStep
      publishCheckpoint

def finishMutation : VolumeM Unit := do
  let v ← get
  if !v.txActive then fail .invalidArgument
  else
    let answer ← lift request
    if !v.deferredPublish ∨ answer.flag then volumeSync

def setDeferredPublish (enabled : Bool) : VolumeM Unit := do
  let v ← get
  if enabled ∧ !v.writable then fail .readOnly
  else
    if !enabled ∧ v.deferredPublish ∧ v.txActive then volumeSync
    modify fun v => { v with deferredPublish := enabled }

end Publication

section Calls

/-- The calls that change the graph. The last one stands for those that write
objects and no name: data, attributes, streams, security. -/
inductive MutationCall
  | create (path : List Name) (type : ObjectType)
  | reflink (source destination : List Name)
  | link (existing new : List Name) (replace : Bool)
  | remove (path : List Name) (wantDirectory : Bool)
  | rename (old new : List Name) (replace : Bool)
  | update (path : List Name) (forcePublish : Bool)

/-- `reflink_file_tx`, as far as names go. -/
def reflinkFileTx (source destination : List Name) : LiveM Unit := do
  let id ← lookupPath source
  let node ← indexFind id
  if node.object.type ≠ .file then fail .isDirectory
  else
    createObject destination .file
    let _ ← lookupPath destination
    call

def MutationCall.body : MutationCall → LiveM Bool
  | .create path type => do
    createObject path type
    pure true
  | .reflink source destination => do
    reflinkFileTx source destination
    pure true
  | .link existing new replace => linkFileTx existing new replace
  | .remove path wantDirectory => do
    removeObject path wantDirectory
    pure true
  | .rename old new replace => renameTx old new replace
  | .update path _ => do
    let _ ← lookupPath path
    let answer ← request
    pure answer.flag

/-- `infs_write_file` publishes at once, whatever the volume defers. -/
def MutationCall.publish : MutationCall → VolumeM Unit
  | .update _ true => volumeSync
  | _ => finishMutation

def MutationCall.stage (c : MutationCall) : VolumeM Unit := do
  let staged ← lift c.body
  if staged then c.publish

def MutationCall.run (c : MutationCall) : VolumeM Unit := do
  let started ← mutationScopeBegin
  match ← attempt c.stage with
  | .ok _ => txOperationCommit
  | .error status =>
    mutationScopeFail started
    fail status

/-- `infs_snapshot_create` and `infs_snapshot_delete` write the catalog. -/
def snapshotChange : VolumeM Unit := do
  let v ← get
  if !v.writable then fail .readOnly
  else
    volumeSync
    lift call
    txBegin
    match ← attempt (do lift call; finishMutation) with
    | .ok _ => pure ()
    | .error status =>
      txAbort
      fail status

/-- What a restore does to the live volume: it looks paths up and changes
them. Its reads of the snapshot can fail before each step and at the end. -/
inductive RestoreStep
  | lookup (path : List Name)
  | mutation (c : MutationCall)

def RestoreStep.run : RestoreStep → VolumeM Unit
  | .lookup path => do
    let _ ← attempt (lift (lookupPath path))
    pure ()
  | .mutation c => c.run

def restoreSteps : List RestoreStep → VolumeM Unit
  | [] => lift call
  | step :: rest => do
    lift call
    step.run
    restoreSteps rest

/-- The restore stages its steps without publishing them. One that fails
aborts the whole transaction. -/
def restoreTree (steps : List RestoreStep) (deferred : Bool) : VolumeM Unit := do
  modify fun v => { v with deferredPublish := true }
  let result ← attempt do
    match ← attempt (restoreSteps steps) with
    | .ok _ => volumeSync
    | .error status =>
      txAbort
      fail status
  modify fun v => { v with deferredPublish := deferred }
  ofExcept result

def snapshotRestorePath (destination : List Name) (replace : Bool) (steps : List RestoreStep) : VolumeM Unit := do
  let v ← get
  if !v.writable then fail .readOnly
  else if v.reopenRequiredStatus ≠ .ok then fail v.reopenRequiredStatus
  else
    volumeSync
    lift call
    match ← attempt (lift (lookupPath destination)) with
    | .ok _ => if replace then restoreTree steps v.deferredPublish else fail .alreadyExists
    | .error .notFound => restoreTree steps v.deferredPublish
    | .error status => fail status

/-- A retained graph that passed `validate_namespace_graph`, which rejects a
directory with two entries of one name. A rollback always runs it; the opening
of a volume runs it for image files and leaves it out for devices. -/
structure ValidGraph (casefold : Bool) where
  rootId : ObjectId
  graph : Graph
  sound : graph.view.Sound casefold

/-- The retained graph is the live one once its primary checkpoint is flushed. -/
def snapshotRollback {casefold : Bool} (retained : ValidGraph casefold) : VolumeM Unit := do
  let v ← get
  if !v.writable then fail .readOnly
  else if v.reopenRequiredStatus ≠ .ok then fail v.reopenRequiredStatus
  else
    volumeSync
    lift call
    match ← attempt (lift call) with
    | .error status =>
      requireReopen status
      fail status
    | .ok _ =>
      modify fun v =>
        { v with live := directoryCacheReset { v.live with rootId := retained.rootId, objects := retained.graph } }

def volumeResize : VolumeM Unit := do
  let v ← get
  if !v.writable then fail .invalidArgument
  else
    volumeSync
    let answer ← lift request
    -- The size is already the wanted one.
    if answer.flag then pure ()
    else
      match ← attempt (lift call) with
      | .error status =>
        requireReopen status
        fail status
      | .ok _ => modify fun v => { v with live := directoryCacheReset v.live }

inductive PublicCall (casefold : Bool)
  | lookup (path : List Name)
  | mutation (c : MutationCall)
  | sync
  | setDeferredPublish (enabled : Bool)
  | snapshotChange
  | snapshotRestorePath (destination : List Name) (replace : Bool) (steps : List RestoreStep)
  | snapshotRollback (retained : ValidGraph casefold)
  | resize

def PublicCall.run {casefold : Bool} : PublicCall casefold → VolumeM Unit
  | .lookup path => do
    let _ ← lift (lookupPath path)
    pure ()
  | .mutation c => c.run
  | .sync => volumeSync
  | .setDeferredPublish enabled => Directory.setDeferredPublish enabled
  | .snapshotChange => Directory.snapshotChange
  | .snapshotRestorePath destination replace steps => Directory.snapshotRestorePath destination replace steps
  | .snapshotRollback retained => Directory.snapshotRollback retained
  | .resize => volumeResize

def runCalls {casefold : Bool} (calls : List (PublicCall casefold)) (v : NamespaceVolume) : NamespaceVolume :=
  calls.foldl (fun v c => (c.run v).2) v

end Calls

end InfiltratorFS.Directory
