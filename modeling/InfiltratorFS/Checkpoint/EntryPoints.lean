import InfiltratorFS.Checkpoint.Protocol
import InfiltratorFS.Volume.Allocator

namespace InfiltratorFS

open Prog

section Publication

variable (utf8Validate : List UInt8 → Bool)

def volumeStorage : Storage (Volume Block) := ⟨storageWrite, storageFlush⟩

def publishCheckpoint (sb : Superblock) (encoded : Block) (first : Nat) (relocate : Bool) :
    VolumeM Block (Except Status Unit × Bool) := fun v =>
  let run := checkpointPublish (volumeCheckpointIo volumeStorage sb encoded) first relocate (v, false)
  (.ok (run.1, run.2.2), run.2.1)

/-- `checkpoint_matches`. The checksum is not part of the record. -/
def checkpointMatches (block : Nat) (best : Superblock) : VolumeM Block Bool := do
  match ← attempt (readBlock block) with
  | .error _ => pure false
  | .ok raw => pure (validateSuperblockBlockMinor utf8Validate raw locatorFormatMinor && readSuperblock raw == best)

def rewriteCopies (sb : Superblock) (raw : Block) : List (Fin 3) → VolumeM Block Unit
  | [] => pure ()
  | i :: rest => do
      writeBlock (sb.checkpointBlock.get i).toNat raw
      storageFlush
      rewriteCopies sb raw rest

/-- The first half of `heal_checkpoints`: the copies that are to be written
again, if there are any, and what is written to them. -/
def healPrepare : VolumeM Block (Option (Block × List (Fin 3))) := do
  let v ← get
  let matches0 ← checkpointMatches utf8Validate (v.sb.checkpointBlock.get 0).toNat v.sb
  let matches1 ← checkpointMatches utf8Validate (v.sb.checkpointBlock.get 1).toNat v.sb
  let matches2 ← checkpointMatches utf8Validate (v.sb.checkpointBlock.get 2).toNat v.sb
  let repair := (if matches0 then [] else [0]) ++ (if matches1 then [] else [1]) ++ (if matches2 then [] else [2])
  if repair.isEmpty then pure none
  else match encodeSuperblock utf8Validate v.sb with
    | .error status => fail status
    | .ok raw => pure (some (raw, repair))

end Publication

/-- The geometry, bitmap and allocation tree that a resize has made durable
before it publishes. -/
structure ResizePlan where
  totalBlocks : UInt64
  freeBlocks : UInt64
  checkpoint : Vector UInt64 3
  bitmap : Nat → Bool
  layout : AllocationLayout

/-- The fields of `struct infs_snapshot_record_disk` that a rollback restores,
with the allocation image of the snapshot. -/
structure SnapshotRecord where
  freeBlocks : UInt64
  allocationRootBlock : UInt64
  allocationLeafCount : UInt64
  objectIndexBlock : UInt64
  rootObjectBlock : UInt64
  rootObjectId : Vector UInt8 16
  bitmap : Nat → Bool
  layout : AllocationLayout

/-- The parts of the code that run before a publication and hand it their
result: the allocation map of a commit, the plan of a resize (none where the
size does not change), and the validated snapshot of a rollback. -/
structure Stages where
  utf8Validate : List UInt8 → Bool
  allocationMapPublish : UInt64 → VolumeM Block AllocationLayout
  resizePlan : Nat → VolumeM Block (Option ResizePlan)
  snapshotSelect : List UInt8 → VolumeM Block SnapshotRecord

section Sync

variable (code : Stages)

def abortPrecheckpointTransaction {α : Type} (status : Status) : VolumeM Block α := do
  txAbort
  modify fun v => { v with tx.pendingBytes := 0 }
  fail (if status = .ok then .ioError else status)

def precheckpoint {α : Type} (x : VolumeM Block α) : VolumeM Block α := do
  match ← attempt x with
  | .ok a => pure a
  | .error status => abortPrecheckpointTransaction status

def requireCheckpointRecovery (status : Status) : VolumeM Block Unit := do
  let status := if status = .ok then .ioError else status
  modify fun v =>
    { v with
      reopenRequiredStatus := status
      writable := false
      checkpointRepairNeeded := false
      tx.pendingBytes := 0 }
  txAbort
  fail status

/-- What a sync publishes: the open transaction, or without one the copies of
the last checkpoint that are to be repaired. -/
inductive SyncStage
  | commit (layout : AllocationLayout) (encoded : Block)
  | repair (encoded : Block) (copies : List (Fin 3))

def commitTransaction (layout : AllocationLayout) (v : Volume Block) : Volume Block :=
  { v with
    layout := layout
    tx.allocated := []
    tx.deferred := []
    tx.error := .ok
    tx.active := false
    tx.pendingBytes := 0 }

/-- The end of a sync without a transaction, once the copies are in order. -/
def repaired : VolumeM Block Unit := do
  modify fun v => { v with checkpointRepairNeeded := false }
  storageFlush

def syncPrepare : VolumeM Block (Option SyncStage) := do
  let v ← get
  if v.reopenRequiredStatus ≠ .ok then fail v.reopenRequiredStatus
  else if v.writable = false then pure none
  else if v.tx.active = false then do
    modify fun v => { v with tx.pendingBytes := 0 }
    if v.checkpointRepairNeeded then do
      match ← healPrepare code.utf8Validate with
      | some (encoded, copies) => pure (some (.repair encoded copies))
      | none => do
          repaired
          pure none
    else do
      storageFlush
      pure none
  else if v.tx.error ≠ .ok then fail v.tx.error
  else match addChecked v.tx.baseSb.generation.toNat 1 with
    | none => fail .overflow
    | some generation => do
        precheckpoint storageFlush
        let layout ← precheckpoint (code.allocationMapPublish (UInt64.ofNat generation))
        precheckpoint storageFlush
        let v ← get
        match encodeSuperblock code.utf8Validate v.sb with
        | .error status => abortPrecheckpointTransaction status
        | .ok encoded => pure (some (.commit layout encoded))

def syncPublish : SyncStage → VolumeM Block Unit
  | .commit layout encoded => do
      let v ← get
      let (status, committed) ← publishCheckpoint v.sb encoded (v.sb.generation.toNat % 3) false
      modify fun v => if committed then commitTransaction layout v else v
      match status with
      | .error status => requireCheckpointRecovery status
      | .ok () => modify fun v => { v with checkpointRepairNeeded := false }
  | .repair encoded copies => do
      let v ← get
      rewriteCopies v.sb encoded copies
      repaired

def volumeSync : VolumeM Block Unit := do
  match ← syncPrepare code with
  | none => pure ()
  | some stage => syncPublish stage

end Sync

section Replicas

/-- The state after the commit of a resize or a rollback: a new bitmap and
superblock, and the caches made anew. -/
def installGeneration (sb : Superblock) (bitmap : Nat → Bool) (layout : AllocationLayout) : VolumeM Block Unit := do
  modify fun v => { v with bitmap := bitmap, sb := sb, layout := layout, freeIndex := ⟨[], false⟩ }
  freeExtentIndexRebuild
  modify fun v => { v with dataAllocationCursor := 1, metadataAllocationCursor := sb.total }

/-- The two remote copies, written once the primary is durable. Failures only
ask for a later repair. -/
def publishReplicas (sb : Superblock) (encoded : Block) : VolumeM Block Unit := do
  let first ← attempt (storageWrite (sb.checkpointBlock.get 1).toNat encoded)
  let second ← attempt (storageWrite (sb.checkpointBlock.get 2).toNat encoded)
  let flushed ← attempt storageFlush
  modify fun v => { v with checkpointRepairNeeded := !(first.isOk && second.isOk && flushed.isOk) }

def requireReopen (status : Status) : VolumeM Block Unit := do
  modify fun v => { v with reopenRequiredStatus := status, writable := false }
  fail status

end Replicas

section Resize

variable (code : Stages)

def resizeMinBytes : Nat := 16 * 1024 * 1024

structure ResizeStage where
  plan : ResizePlan
  sb : Superblock
  encoded : Block
  format019 : Bool

def resizeCheck (newSizeBytes : Nat) : VolumeM Block Unit := do
  let v ← get
  if v.writable = false ∨ newSizeBytes % blockSize ≠ 0 ∨ newSizeBytes < resizeMinBytes then fail .invalidArgument
  else pure ()

def resizePrepare (newSizeBytes : Nat) : VolumeM Block (Option ResizeStage) := do
  resizeCheck newSizeBytes
  let v ← get
  let format019 := v.sb.formatMinor == locatorFormatMinor
  volumeSync code
  match ← code.resizePlan newSizeBytes with
  | none => pure none
  | some plan => do
      let v ← get
      match addChecked v.sb.generation.toNat 1 with
      | none => fail .overflow
      | some generation => do
          let sb := { v.sb with
            totalBlocks := plan.totalBlocks
            freeBlocks := plan.freeBlocks
            allocationRootBlock := UInt64.ofNat (plan.layout.branchBlocks.headD 0)
            allocationLeafCount := UInt64.ofNat plan.layout.leafBlocks.length
            generation := UInt64.ofNat generation
            checkpointBlock := plan.checkpoint }
          match encodeSuperblock code.utf8Validate sb with
          | .error status => fail status
          | .ok encoded => pure (some ⟨plan, sb, encoded, format019⟩)

def resizeCommit (stage : ResizeStage) : VolumeM Block (Except Status Unit) :=
  if stage.format019 then do
    let (status, _) ← publishCheckpoint stage.sb stage.encoded 1 true
    pure status
  else attempt do
    storageWrite 0 stage.encoded
    storageFlush

def resizePublish (stage : ResizeStage) : VolumeM Block Unit := do
  match ← resizeCommit stage with
  | .error status => requireReopen status
  | .ok () => do
      installGeneration stage.sb stage.plan.bitmap stage.plan.layout
      if stage.format019 then modify fun v => { v with checkpointRepairNeeded := false }
      else publishReplicas stage.sb stage.encoded

end Resize

section Rollback

variable (code : Stages)

def incompatSnapshots : UInt64 := 0x80

def snapshotNameMax : Nat := 63

/-- `snapshot_name_valid`, on the bytes before the terminator. -/
def snapshotNameValid (name : List UInt8) : Bool :=
  name ≠ [] && name.length ≤ snapshotNameMax && !name.contains 0x2F && name ≠ [0x2E] && name ≠ [0x2E, 0x2E] &&
    code.utf8Validate name

structure RollbackStage where
  record : SnapshotRecord
  sb : Superblock
  encoded : Block

def rollbackCheck (name : List UInt8) : VolumeM Block Unit := do
  let v ← get
  if snapshotNameValid code name = false then fail .invalidArgument
  else if v.sb.incompatFlags &&& incompatSnapshots = 0 then fail .notSupported
  else if v.writable = false then fail .readOnly
  else if v.reopenRequiredStatus ≠ .ok then fail v.reopenRequiredStatus
  else pure ()

def rollbackPrepare (name : List UInt8) : VolumeM Block (Option RollbackStage) := do
  rollbackCheck code name
  volumeSync code
  let record ← code.snapshotSelect name
  let v ← get
  match addChecked v.sb.generation.toNat 1 with
  | none => fail .overflow
  | some generation => do
      let sb := { v.sb with
        generation := UInt64.ofNat generation
        freeBlocks := record.freeBlocks
        allocationRootBlock := record.allocationRootBlock
        allocationLeafCount := record.allocationLeafCount
        objectIndexBlock := record.objectIndexBlock
        rootObjectBlock := record.rootObjectBlock
        rootObjectId := record.rootObjectId }
      match encodeSuperblock code.utf8Validate sb with
      | .error status => fail status
      | .ok encoded => pure (some ⟨record, sb, encoded⟩)

/-- A failed write of the primary only returns; a failed flush after it asks
for a reopen. -/
def rollbackPublish (stage : RollbackStage) : VolumeM Block Unit := do
  storageWrite (stage.sb.checkpointBlock.get 0).toNat stage.encoded
  match ← attempt storageFlush with
  | .error status => requireReopen status
  | .ok () => do
      installGeneration stage.sb stage.record.bitmap stage.record.layout
      publishReplicas stage.sb stage.encoded

end Rollback

section Calls

inductive EntryPoint
  | volumeSync
  | volumeResize (newSizeBytes : Nat)
  | snapshotRollback (name : List UInt8)

inductive PublicationStage
  | sync (stage : SyncStage)
  | resize (stage : ResizeStage)
  | rollback (stage : RollbackStage)

/-- What a call tests before it syncs the volume. -/
def EntryPoint.check (code : Stages) : EntryPoint → VolumeM Block Unit
  | .volumeSync => pure ()
  | .volumeResize newSizeBytes => resizeCheck newSizeBytes
  | .snapshotRollback name => rollbackCheck code name

def EntryPoint.prepare (code : Stages) : EntryPoint → VolumeM Block (Option PublicationStage)
  | .volumeSync => do
      let stage ← syncPrepare code
      pure (stage.map .sync)
  | .volumeResize newSizeBytes => do
      let stage ← resizePrepare code newSizeBytes
      pure (stage.map .resize)
  | .snapshotRollback name => do
      let stage ← rollbackPrepare code name
      pure (stage.map .rollback)

def PublicationStage.publish : PublicationStage → VolumeM Block Unit
  | .sync stage => syncPublish stage
  | .resize stage => resizePublish stage
  | .rollback stage => rollbackPublish stage

/-- A whole call: everything up to the publication, and then the publication,
if the call comes to one. -/
def EntryPoint.call (code : Stages) (entry : EntryPoint) : VolumeM Block Unit := do
  match ← entry.prepare code with
  | none => pure ()
  | some stage => stage.publish

end Calls

end InfiltratorFS
