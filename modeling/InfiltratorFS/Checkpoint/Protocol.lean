import InfiltratorFS.Format.Locator
import InfiltratorFS.Library.Prog

namespace InfiltratorFS

open Prog

/-- `struct infs_checkpoint_io` over the state of its context. -/
structure CheckpointIo (σ : Type) where
  locator : Fin 2 → Prog σ Status Unit
  checkpoint : Fin 3 → Prog σ Status Unit
  flush : Prog σ Status Unit
  committed : σ → σ

section Publish

variable {σ : Type}

def onContext {α : Type} (x : Prog σ Status α) : Prog (σ × Bool) Status α := fun s => ((x s.1).1, ((x s.1).2, s.2))

def rotated (first n : Nat) : Fin 3 := ⟨(first + n) % 3, Nat.mod_lt _ (by decide)⟩

def publishCopy (io : CheckpointIo σ) (first n : Nat) : Prog (σ × Bool) Status Unit := do
  onContext (io.checkpoint (rotated first n))
  onContext io.flush
  if n = 0 then modify fun s => (io.committed s.1, true) else pure ()

def publishLocator (io : CheckpointIo σ) (copy : Fin 2) : Prog (σ × Bool) Status Unit := do
  onContext (io.locator copy)
  onContext io.flush

def checkpointPublish (io : CheckpointIo σ) (first : Nat) (relocate : Bool) : Prog (σ × Bool) Status Unit := do
  modify fun s => (s.1, false)
  let first := if relocate then 1 else first
  if relocate then publishLocator io 0 else pure ()
  publishCopy io first 0
  publishCopy io first 1
  publishCopy io first 2
  if relocate then publishLocator io 1 else pure ()

end Publish

section Callbacks

variable {σ : Type}

/-- The two calls of `struct infs_storage` that publication makes. -/
structure Storage (σ : Type) where
  write : Nat → Block → Prog σ Status Unit
  flush : Prog σ Status Unit

def locatorAddress (copy : Fin 2) : Nat := if copy = 0 then locatorBlockA else locatorBlockB

def volumePublishLocator (storage : Storage σ) (checkpoint : Superblock) (copy : Fin 2) : Prog σ Status Unit :=
  match locatorEncode checkpoint.locator with
  | .error status => fail status
  | .ok raw => storage.write (locatorAddress copy) raw

/-- `volume_checkpoint_io`; its `committed` callback is a test failpoint. -/
def volumeCheckpointIo (storage : Storage σ) (checkpoint : Superblock) (encoded : Block) : CheckpointIo σ where
  locator := volumePublishLocator storage checkpoint
  checkpoint copy := storage.write (checkpoint.checkpointBlock.get copy).toNat encoded
  flush := storage.flush
  committed := id

end Callbacks

end InfiltratorFS
