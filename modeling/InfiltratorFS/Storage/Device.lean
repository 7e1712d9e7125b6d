import InfiltratorFS.Library.FlatStore
import InfiltratorFS.Storage.Policy

/-! A storage with the bytes last written to it, which may fail any request. -/

namespace InfiltratorFS.Storage

open FlatStore

variable {medium : Nat → UInt8} {results : Nat → Nat → Status} {offset size : Nat} {bytes data : Bytes}

/-- What a storage makes of a write: its status and, unless that is OK, the
bytes it leaves in the range. -/
structure WriteResult where
  status : Status
  torn : Nat → UInt8

def deviceRead (medium : Nat → UInt8) (results : Nat → Nat → Status) (offset size : Nat) : Except Status Bytes :=
  match results offset size with
  | .ok => .ok (slice medium offset size)
  | status => .error status

def deviceWrite (medium : Nat → UInt8) (result : WriteResult) (offset : Nat) (data : Bytes) : Nat → UInt8 :=
  if result.status = .ok then overlay medium offset data
  else overlay medium offset (slice result.torn offset data.length)

theorem deviceRead_ok (h : results offset size = .ok) : deviceRead medium results offset size = .ok (slice medium offset size) := by
  rw [deviceRead, h]

theorem deviceRead_eq_ok (h : deviceRead medium results offset size = .ok bytes) :
    results offset size = .ok ∧ bytes = slice medium offset size := by
  unfold deviceRead at h
  split at h
  · cases h
    exact ⟨‹_›, rfl⟩
  · cases h

theorem deviceWrite_ok {result : WriteResult} (h : result.status = .ok) :
    deviceWrite medium result offset data = overlay medium offset data := if_pos h

theorem slice_deviceWrite {result : WriteResult} {start count : Nat} (h : ¬Overlap offset data.length start count) :
    slice (deviceWrite medium result offset data) start count = slice medium start count := by
  unfold deviceWrite
  split
  · exact slice_overlay_apart h
  · exact slice_overlay_apart (by rwa [length_slice])

end InfiltratorFS.Storage
