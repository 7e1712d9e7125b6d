import Mathlib.Data.Vector.Defs
import Mathlib.Algebra.Ring.Nat

namespace InfiltratorFS

inductive Status
  | ok
  | error
  | invalidArgument
  | ioError
  | corrupt
  | readOnly
  | noSpace
  | notFound
  | alreadyExists
  | notDirectory
  | isDirectory
  | notEmpty
  | nameTooLong
  | fileTooLarge
  | overflow
  | loopDetected
  | notSupported
  | noMemory
  | interrupted
  | busy
  deriving DecidableEq, Repr, Inhabited

def blockSize : Nat := 4096

abbrev ObjectId := Vector UInt8 16

def snapshotCatalogId : ObjectId := #v[73, 78, 70, 83, 45, 83, 78, 65, 80, 45, 67, 65, 84, 45, 48, 49]

def idIsZero (id : ObjectId) : Bool := id.toList.all (· == 0)

/-- The fields of `struct infs_superblock_disk`, without the checksum, which
is computed when the block is encoded. -/
structure Superblock where
  magic : Vector UInt8 8
  formatMajor : UInt16
  formatMinor : UInt16
  headerSize : UInt16
  blockShift : UInt16
  checksumType : UInt32
  generation : UInt64
  totalBlocks : UInt64
  freeBlocks : UInt64
  allocationRootBlock : UInt64
  allocationLeafCount : UInt64
  objectIndexBlock : UInt64
  rootObjectBlock : UInt64
  checkpointBlock : Vector UInt64 3
  filesystemUuid : Vector UInt8 16
  rootObjectId : Vector UInt8 16
  compatFlags : UInt64
  roCompatFlags : UInt64
  incompatFlags : UInt64
  label : Vector UInt8 64
  deriving DecidableEq, Inhabited

def Superblock.total (sb : Superblock) : Nat := sb.totalBlocks.toNat

/-- `infiltratr_u64_add_checked`: the sum, or none on 64-bit overflow. -/
def addChecked (a b : Nat) : Option Nat := if a + b < 2 ^ 64 then some (a + b) else none

theorem addChecked_eq_some {a b c : Nat} (h : addChecked a b = some c) : a + b = c := by
  unfold addChecked at h
  split at h
  · exact Option.some.inj h
  · cases h

end InfiltratorFS
