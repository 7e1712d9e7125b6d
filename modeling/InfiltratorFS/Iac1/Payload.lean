import InfiltratorFS.File.Object
import InfiltratorFS.Iac1.RoundTrip
import InfiltratorFS.Storage.Device
import InfiltratorFS.Volume.Ownership
import InfiltratorFS.Volume.Savepoint

/-! The payload of an extent: `file_store_extent_payload` writes a cluster,
compressed or not, and the read paths get its bytes back. -/

namespace InfiltratorFS.Payload

open Prog File Iac1 FlatStore
open Storage (Bytes IoPolicy)

/-- A storage that returns what was written: a request may fail, but a write
that succeeds ends below 2^64, and reads inside it give its bytes. -/
structure Store where
  State : Type
  write : State → IoPolicy → Nat → Bytes → Status × State
  read : State → IoPolicy → Nat → Nat → Except Status Bytes
  fits : ∀ s policy offset data, (write s policy offset data).1 = .ok → offset + data.length ≤ 2 ^ 64
  returns : ∀ s policy offset data, (write s policy offset data).1 = .ok → ∀ skip count, skip + count ≤ data.length →
    read (write s policy offset data).2 policy (offset + skip) count = .ok ((data.drop skip).take count)

structure State (S : Store) (β : Type) where
  volume : Volume β
  storage : S.State

variable {S : Store} {β : Type}

abbrev PayloadM (S : Store) (β : Type) := Prog (State S β) Status

section Model

def onVolume {α : Type} (x : VolumeM β α) : PayloadM S β α := fun s =>
  ((x s.volume).1, { s with volume := (x s.volume).2 })

def storageWritePolicy (policy : IoPolicy) (offset : Nat) (data : Bytes) : PayloadM S β Unit := fun s =>
  (resultOf (S.write s.storage policy offset data).1, { s with storage := (S.write s.storage policy offset data).2 })

def storageData (policy : IoPolicy) (physical : Nat) (data : Bytes) : PayloadM S β Nat := do
  if 2 ^ 64 ≤ physical * blockSize then fail .overflow
  else do
    storageWritePolicy policy (physical * blockSize) data
    pure physical

/-- The stream that is worth storing. Both buffers are one request for memory
and the scratch tables hold what `malloc` left there. -/
def compressedCluster (scratch : Scratch) (plain : Bytes) (blocks : Nat) : VolumeM β (Option Bytes) := do
  let v ← get
  if v.sb.incompatFlags &&& incompatCompressedExtents ≠ 0 ∧ 2 ≤ blocks ∧ shouldAttempt plain = true then do
    let granted ← reserve
    if granted = false then fail .noMemory
    else
      pure ((compressSelected plain (bound plain.length) scratch (predictorMode plain).toByte ((blocks - 1) * blockSize)).filter
        fun stored => stored.length ≠ 0 && stored.length ≤ extentStoredBytesMax && ceilBlocks stored.length < blocks)
  else pure none

/-- The stream in a cleared buffer of whole blocks. -/
def padded (stored : Bytes) : Bytes := stored ++ List.replicate (ceilBlocks stored.length * blockSize - stored.length) 0

variable [Inhabited β]

def compressionAllocDataExact (wanted : Nat) : VolumeM β Nat := do
  if wanted = 0 then fail .invalidArgument
  else do
    let run ← allocDataRunUninitialized wanted
    if run.2 ≠ wanted then do
      freeRun run.1 run.2
      let v ← get
      fail (if v.tx.error ≠ .ok then v.tx.error else .noSpace)
    else pure run.1

def fileStoreExtentPayload (policy : IoPolicy) (scratch : Scratch) (plain : Bytes) (blocks : Nat) :
    PayloadM S β (Nat × UInt32) := do
  if blocks = 0 ∨ compressionClusterBlocks < blocks then fail .invalidArgument
  else do
    match ← onVolume (compressedCluster scratch plain blocks) with
    | some stored => do
      let granted ← onVolume reserve
      if granted = false then fail .noMemory
      else do
        let run ← onVolume (compressionAllocDataExact (ceilBlocks stored.length))
        let physical ← storageData policy run (padded stored)
        pure (physical, extentCompressedFlags compressionIac1 stored.length)
    | none => do
      let run ← onVolume (compressionAllocDataExact blocks)
      let physical ← storageData policy run plain
      pure (physical, extentNormal)

end Model

section Reads

variable (s : State S β) (policy : IoPolicy)

def readDataBlock (block : Nat) : Except Status Bytes :=
  if s.volume.total ≤ block then .error .invalidArgument
  else S.read s.storage policy (block * blockSize % 2 ^ 64) blockSize

def readDataBlocks (start : Nat) : Nat → Except Status Bytes
  | 0 => .ok []
  | n + 1 => do
      let block ← readDataBlock s policy start
      let rest ← readDataBlocks (start + 1) n
      .ok (block ++ rest)

/-- `memory` is the answer to the two requests for buffers. The products of
block counts that the source checks cannot overflow below 64 blocks. -/
def fileDecompressExtent (lz4 : Bytes → Nat → Option Bytes) (memory : Bool) (e : Extent) : Except Status Bytes :=
  let stored := extentStoredBytes e.flags
  let blocks := extentPhysicalBlocks e.blockCount e.flags
  if extentIsCompressed e.flags = false ∨ stored = 0 ∨ blocks = 0 ∨ compressionClusterBlocks < e.blockCount ∨
      2 ^ 64 ≤ e.physicalBlock * blockSize ∨ blocks * blockSize < stored then .error .corrupt
  else if memory = false then .error .noMemory
  else do
    let span ← S.read s.storage policy (e.physicalBlock * blockSize) (blocks * blockSize)
    let size := e.blockCount * blockSize
    let plain :=
      if extentCodec e.flags = compressionLz4 then lz4 (span.take stored) size
      else if extentCodec e.flags = compressionIac1 then decompress (span.take stored) size
      else none
    if plain.elim 0 List.length ≠ size then .error .corrupt else .ok (plain.getD [])

def readExtent (lz4 : Bytes → Nat → Option Bytes) (memory : Bool) (e : Extent) : Except Status Bytes :=
  if extentIsCompressed e.flags then fileDecompressExtent s policy lz4 memory e
  else readDataBlocks s policy e.physicalBlock e.blockCount

end Reads

section Allocation

variable [Inhabited β]

omit [Inhabited β] in
theorem txBegin_eq_ok {v v' : Volume β} (hv : v.IndexExact) (h : txBegin v = (.ok (), v')) :
    OpenTx v' ∧ v'.bitmap = v.bitmap ∧ v'.total = v.total := by
  rw [txBegin] at h
  split_ifs at h with hreopen hwritable hactive herror hgeneration <;> cases h
  · exact ⟨⟨⟨hactive, hv⟩, by simpa using hwritable, not_not.mp hreopen, herror⟩, rfl, rfl⟩
  · exact ⟨⟨⟨rfl, hv⟩, by simpa using hwritable, not_not.mp hreopen, rfl⟩, rfl, rfl⟩

theorem compressionAllocDataExact_ok {v v' : Volume β} {wanted physical : Nat} (hv : v.IndexExact) (hfirst : v.bitmap 0 = true)
    (h : compressionAllocDataExact wanted v = (.ok physical, v')) : physical ≠ 0 ∧ physical + wanted ≤ v'.total := by
  obtain ⟨hwanted, h⟩ := guard_eq_ok.mp h
  obtain ⟨run, u, halloc, h⟩ := bind_eq_ok.mp h
  have hall : run.2 = wanted ∧ run.1 = physical ∧ u = v' := by
    split_ifs at h with hrun
    · obtain ⟨_, _, _, h⟩ := bind_eq_ok.mp h
      cases h
    · cases h
      exact ⟨not_not.mp hrun, rfl, rfl⟩
  obtain ⟨hrun, rfl, rfl⟩ := hall
  obtain ⟨_, w, hbegin, hrest⟩ := bind_eq_ok.mp (show allocDataRunImpl wanted false v = _ from halloc)
  obtain ⟨hopen, hbitmap, htotal⟩ := txBegin_eq_ok hv hbegin
  have hagain : (Allocation.data wanted false).run w = (.ok run, u) := by
    rw [Allocation.run, allocDataRunImpl, bind_of_ok hopen.begin]
    exact hrest
  obtain ⟨hclear, htook, -⟩ := Allocation.took _ hopen hagain
  rw [ClearRun, hrun, hbitmap] at hclear
  refine ⟨fun hzero => ?_, by rw [htook.context.total_eq]; exact hclear.1⟩
  have := hclear.2 0 hzero.le (by omega)
  rw [hfirst] at this
  cases this

end Allocation

section Flags

variable {bytes blocks physical : Nat}

theorem extentStoredBytes_eq (hmax : bytes ≤ extentStoredBytesMax) :
    extentStoredBytes (extentCompressedFlags compressionIac1 bytes) = bytes := by
  rw [extentStoredBytes_compressedFlags, Nat.mod_eq_of_lt (Nat.lt_succ_of_le hmax)]

theorem extentPhysicalBlocks_eq (hmax : bytes ≤ extentStoredBytesMax) :
    extentPhysicalBlocks blocks (extentCompressedFlags compressionIac1 bytes) = ceilBlocks bytes := by
  rw [extentPhysicalBlocks, extentKind_compressedFlags, if_neg (by decide), if_pos (compressedFlags_compressed _),
    extentStoredBytes_eq hmax]

theorem normal_valid (hblocks : blocks ≠ 0) (hphysical : physical ≠ 0) : extentFlagsValid blocks physical extentNormal = true := by
  rw [extentFlagsValid, if_neg hblocks, if_neg (by decide), if_neg (by simp [extentKind, extentNormal, hphysical]),
    if_pos (by decide)]
  decide

theorem compressed_valid (hblocks : blocks ≤ compressionClusterBlocks) (hphysical : physical ≠ 0) (hbytes : bytes ≠ 0)
    (hmax : bytes ≤ extentStoredBytesMax) (hfewer : ceilBlocks bytes < blocks) :
    extentFlagsValid blocks physical (extentCompressedFlags compressionIac1 bytes) = true := by
  have hlt : bytes < blocks * blockSize := by
    have := ceilBlocks_le_iff.mp (le_refl (ceilBlocks bytes))
    have := Nat.mul_le_mul_right blockSize hfewer
    rw [blockSize] at *
    omega
  rw [extentFlagsValid, extentKind_compressedFlags, extentCodec_compressedFlags, extentStoredBytes_eq hmax, if_neg (by omega),
    if_neg (by decide), if_neg (by simp [hphysical]), if_neg (by decide)]
  simp [hbytes, hblocks, hmax, hlt]

end Flags

section Stored

variable {s s' : State S β} {policy : IoPolicy} {physical blocks : Nat} {data : Bytes}

/-- The bytes lie on the storage at a run of blocks inside the volume. -/
structure Holds (s : State S β) (policy : IoPolicy) (physical blocks : Nat) (data : Bytes) : Prop where
  ne_zero : physical ≠ 0
  inside : physical + blocks ≤ s.volume.total
  fits : physical * blockSize + data.length ≤ 2 ^ 64
  starts : physical * blockSize < 2 ^ 64
  reads : ∀ skip count, skip + count ≤ data.length →
    S.read s.storage policy (physical * blockSize + skip) count = .ok ((data.drop skip).take count)

theorem onVolume_eq_ok {α : Type} {x : VolumeM β α} {a : α} (h : onVolume x s = (.ok a, s')) :
    ∃ v, x s.volume = (.ok a, v) ∧ s' = { s with volume := v } := by
  cases h' : x s.volume with | mk r v =>
  rw [onVolume, h'] at h
  cases h
  exact ⟨v, rfl, rfl⟩

theorem compressedCluster_ok {scratch : Scratch} {plain : Bytes} {result : Option Bytes} {v v' : Volume β}
    (h : compressedCluster scratch plain blocks v = (.ok result, v')) :
    (v'.IndexExact ↔ v.IndexExact) ∧ v'.bitmap = v.bitmap ∧ ∀ stored, result = some stored →
      compressSelected plain (bound plain.length) scratch (predictorMode plain).toByte ((blocks - 1) * blockSize) = some stored ∧
      stored.length ≠ 0 ∧ stored.length ≤ extentStoredBytesMax ∧ ceilBlocks stored.length < blocks := by
  rw [compressedCluster, bind_of_ok (get_apply v)] at h
  split_ifs at h
  · obtain ⟨granted, u, hgranted, h⟩ := bind_eq_ok.mp h
    cases hgranted
    obtain ⟨-, h⟩ := guard_eq_ok.mp h
    cases h
    refine ⟨Iff.rfl, rfl, fun stored hstored => ?_⟩
    rw [Option.filter_eq_some_iff] at hstored
    simpa [and_assoc] using hstored
  · cases h
    exact ⟨Iff.rfl, rfl, fun _ h => by cases h⟩

theorem Holds.readDataBlocks (h : Holds s policy physical blocks data) (hdata : data.length = blocks * blockSize) :
    Payload.readDataBlocks s policy physical blocks = .ok data := by
  have hrest (n : Nat) (hn : n ≤ blocks) :
      Payload.readDataBlocks s policy (physical + (blocks - n)) n = .ok (data.drop ((blocks - n) * blockSize)) := by
    induction n with
    | zero => rw [Payload.readDataBlocks, Nat.sub_zero, ← hdata, List.drop_length]
    | succ n ih =>
      have hinside := h.inside
      have hfits := h.fits
      have hnext : physical + (blocks - (n + 1)) + 1 = physical + (blocks - n) := by omega
      have hoffset : (physical + (blocks - (n + 1))) * blockSize = physical * blockSize + (blocks - (n + 1)) * blockSize :=
        Nat.add_mul _ _ _
      have hspan : (blocks - (n + 1)) * blockSize + blockSize = (blocks - n) * blockSize := by
        rw [← Nat.succ_mul]
        congr 1
        omega
      have hle : (blocks - n) * blockSize ≤ blocks * blockSize := Nat.mul_le_mul_right _ (Nat.sub_le _ _)
      have hblock : blockSize = 4096 := rfl
      rw [Payload.readDataBlocks, readDataBlock, if_neg (by omega), hoffset, Nat.mod_eq_of_lt (by omega),
        h.reads _ _ (by omega), hnext, ih (by omega), ← hspan, ← List.drop_drop]
      exact congrArg _ (List.take_append_drop _ _)
  have := hrest blocks le_rfl
  rwa [Nat.sub_self, Nat.add_zero, Nat.zero_mul, List.drop_zero] at this

theorem length_padded (stored : Bytes) : (padded stored).length = ceilBlocks stored.length * blockSize := by
  have := ceilBlocks_le_iff.mp (le_refl (ceilBlocks stored.length))
  rw [padded, List.length_append, List.length_replicate]
  omega

theorem Holds.fileDecompressExtent {stored plain : Bytes} (h : Holds s policy physical (ceilBlocks stored.length) (padded stored))
    (hdecodes : ∀ dst, stored <+: dst → decompress (dst.take stored.length) plain.length = some plain)
    (hpos : stored.length ≠ 0) (hmax : stored.length ≤ extentStoredBytesMax) (hblocks : blocks ≤ compressionClusterBlocks)
    (hplain : plain.length = blocks * blockSize) (lz4 : Bytes → Nat → Option Bytes) (logical : Nat) :
    Payload.fileDecompressExtent s policy lz4 true
      ⟨logical, physical, blocks, extentCompressedFlags compressionIac1 stored.length⟩ = .ok plain := by
  have hle := ceilBlocks_le_iff.mp (le_refl (ceilBlocks stored.length))
  have hread := h.reads 0 _ (by rw [length_padded, Nat.zero_add])
  rw [List.drop_zero, ← length_padded, List.take_length, Nat.add_zero, length_padded] at hread
  have hgood : ¬(extentIsCompressed (extentCompressedFlags compressionIac1 stored.length) = false ∨ stored.length = 0 ∨
      ceilBlocks stored.length = 0 ∨ compressionClusterBlocks < blocks ∨ 2 ^ 64 ≤ physical * blockSize ∨
      ceilBlocks stored.length * blockSize < stored.length) := by
    have := h.starts
    have hzero : ceilBlocks stored.length ≠ 0 := fun hzero => by
      rw [hzero] at hle
      omega
    rw [compressedFlags_compressed]
    simp only [Bool.true_eq_false, false_or]
    omega
  have hlz4 : ¬compressionIac1 = compressionLz4 := by decide
  rw [Payload.fileDecompressExtent]
  simp only [extentStoredBytes_eq hmax, extentPhysicalBlocks_eq hmax, extentCodec_compressedFlags, if_neg hlz4, if_true]
  rw [if_neg hgood, if_neg (by decide), hread, ← hplain]
  show (if _ then _ else _) = _
  rw [hdecodes (padded stored) (List.prefix_append _ _)]
  exact if_neg (not_not.mpr rfl)

variable [Inhabited β]

theorem storageData_ok {wanted run : Nat} {u : State S β} (hv : s.volume.IndexExact) (hfirst : s.volume.bitmap 0 = true)
    (halloc : onVolume (compressionAllocDataExact wanted) s = (.ok run, u))
    (h : storageData policy run data u = (.ok physical, s')) : Holds s' policy physical wanted data := by
  obtain ⟨v, hrun, rfl⟩ := onVolume_eq_ok halloc
  obtain ⟨hne, hinside⟩ := compressionAllocDataExact_ok hv hfirst hrun
  obtain ⟨hstarts, h⟩ := guard_eq_ok.mp h
  obtain ⟨_, w, hwrite, h⟩ := bind_eq_ok.mp h
  cases h
  rw [storageWritePolicy, resultOf] at hwrite
  split_ifs at hwrite with hok <;> cases hwrite
  exact ⟨hne, hinside, S.fits _ _ _ _ hok, by omega, S.returns _ _ _ _ hok⟩

end Stored

section Main

variable [Inhabited β] {s s' : State S β} {plain : Bytes} {blocks physical : Nat} {flags : UInt32}

/-- What a stored cluster is read back as: the flag word is valid, a stream
saves a block and its length and codec stand in the flags, and the reads give
the bytes of the cluster. -/
theorem fileStoreExtentPayload_reads_back (policy : IoPolicy) (scratch : Scratch) (hplain : plain.length = blocks * blockSize)
    (hindex : s.volume.IndexExact) (hfirst : s.volume.bitmap 0 = true)
    (h : fileStoreExtentPayload policy scratch plain blocks s = (.ok (physical, flags), s')) :
    extentFlagsValid blocks physical flags = true ∧
      (extentIsCompressed flags = true → extentPhysicalBlocks blocks flags + 1 ≤ blocks ∧ extentCodec flags = compressionIac1 ∧
        ∃ stored, compressSelected plain (bound plain.length) scratch (predictorMode plain).toByte ((blocks - 1) * blockSize) =
          some stored ∧ extentStoredBytes flags = stored.length) ∧
      ∀ lz4 logical, readExtent s' policy lz4 true ⟨logical, physical, blocks, flags⟩ = .ok plain := by
  obtain ⟨hblocks, h⟩ := guard_eq_ok.mp h
  rw [not_or, Nat.not_lt] at hblocks
  obtain ⟨result, u, hcluster, h⟩ := bind_eq_ok.mp h
  obtain ⟨v, htried, rfl⟩ := onVolume_eq_ok hcluster
  obtain ⟨hv, hbitmap, hresult⟩ := compressedCluster_ok htried
  rw [← hv] at hindex
  rw [← hbitmap] at hfirst
  cases result with
  | some stored =>
    obtain ⟨hstream, hpos, hmax, hfewer⟩ := hresult stored rfl
    obtain ⟨granted, w, hgranted, h⟩ := bind_eq_ok.mp h
    cases hgranted
    obtain ⟨-, h⟩ := guard_eq_ok.mp h
    obtain ⟨run, x, hrun, h⟩ := bind_eq_ok.mp h
    obtain ⟨_, y, hwrite, h⟩ := bind_eq_ok.mp h
    cases h
    have hholds := storageData_ok hindex hfirst hrun hwrite
    refine ⟨compressed_valid hblocks.2 hholds.ne_zero hpos hmax hfewer, fun _ => ⟨?_, extentCodec_compressedFlags _, stored, hstream,
      extentStoredBytes_eq hmax⟩, fun lz4 logical => ?_⟩
    · rw [extentPhysicalBlocks_eq hmax]
      exact hfewer
    · rw [readExtent, if_pos (compressedFlags_compressed _)]
      have hdecodes := (compressSelected_roundTrips plain _ _ _ _ stored hstream (Nat.pos_of_ne_zero hpos)).2.2
      exact hholds.fileDecompressExtent hdecodes hpos hmax hblocks.2 hplain lz4 logical
  | none =>
    obtain ⟨run, x, hrun, h⟩ := bind_eq_ok.mp h
    obtain ⟨_, y, hwrite, h⟩ := bind_eq_ok.mp h
    cases h
    have hholds := storageData_ok hindex hfirst hrun hwrite
    refine ⟨normal_valid hblocks.1 hholds.ne_zero, fun hbad => absurd hbad (by decide), fun lz4 logical => ?_⟩
    rw [readExtent, if_neg (by simp [normal_not_compressed])]
    exact hholds.readDataBlocks hplain

def flatStore : Store where
  State := Nat → UInt8
  write m _ offset data := if offset + data.length ≤ 2 ^ 64 then (.ok, overlay m offset data) else (.ioError, m)
  read m _ offset size := .ok (slice m offset size)
  fits m policy offset data h := by
    split_ifs at h with hfits
    exact hfits
  returns m policy offset data h skip count hcount := by
    split_ifs at h with hfits
    rw [if_pos hfits, slice_overlay_within (Nat.le_add_right _ _) (by omega), Nat.add_sub_cancel_left]

def packedState : State flatStore Unit :=
  ⟨{ smallVolume with sb := { smallVolume.sb with incompatFlags := incompatCompressedExtents } }, fun _ => 0⟩

def equalBytes : Bytes := List.replicate 8192 7

theorem shouldAttempt_equalBytes : shouldAttempt equalBytes = true := by
  rw [equalBytes, shouldAttempt, List.length_replicate, byteAt_replicate]
  decide +kernel

theorem predictorMode_equalBytes : predictorMode equalBytes = .delta8 := by
  rw [equalBytes, predictorMode, List.length_replicate, byteAt_replicate]
  decide +kernel

theorem stream_equalBytes : stream equalBytes .delta8 = [1, 1, 0, 0, 0, 7, 127, 0, 255, 31] :=
  stream_replicate (by decide) (by decide) (by decide)

theorem compressedCluster_equalBytes (scratch : Scratch) :
    compressedCluster scratch equalBytes 2 packedState.volume =
      (.ok (some [1, 1, 0, 0, 0, 7, 127, 0, 255, 31]), packedState.volume.tickOn) := by
  have hne : equalBytes ≠ [] := List.ne_nil_of_length_pos (by rw [equalBytes, List.length_replicate]; decide)
  have hstored : compressSelected equalBytes (bound equalBytes.length) scratch (predictorMode equalBytes).toByte ((2 - 1) * blockSize) =
      some [1, 1, 0, 0, 0, 7, 127, 0, 255, 31] := by
    rw [predictorMode_equalBytes, compressSelected, compressModeLimit_eq _ _ hne, stream_equalBytes, equalBytes, List.length_replicate,
      if_pos (by decide)]
  have hworth : packedState.volume.sb.incompatFlags &&& incompatCompressedExtents ≠ 0 ∧ 2 ≤ 2 ∧ shouldAttempt equalBytes = true :=
    ⟨by decide, le_rfl, shouldAttempt_equalBytes⟩
  rw [compressedCluster, bind_of_ok (rfl : get packedState.volume = (.ok packedState.volume, packedState.volume)), if_pos hworth,
    bind_of_ok (rfl : reserve packedState.volume = (.ok true, packedState.volume.tickOn)), if_neg (by decide), hstored]
  rfl

/-- Two blocks of equal bytes are stored in one, as a stream of ten bytes. -/
theorem fileStoreExtentPayload_reads_back_packed :
    ∃ s', fileStoreExtentPayload ⟨default, 0, 0⟩ ⟨fun _ => 0, fun _ => 0⟩ equalBytes 2 packedState = (.ok (3, 168), s') ∧
      extentIsCompressed 168 = true ∧ extentPhysicalBlocks 2 168 = 1 ∧ extentStoredBytes 168 = 10 ∧
      readExtent s' ⟨default, 0, 0⟩ (fun _ _ => none) true ⟨0, 3, 2, 168⟩ = .ok equalBytes := by
  have hsize : equalBytes.length = 2 * blockSize := by rw [equalBytes, List.length_replicate]; rfl
  have hcluster : onVolume (compressedCluster ⟨fun _ => 0, fun _ => 0⟩ equalBytes 2) packedState =
      (.ok (some [1, 1, 0, 0, 0, 7, 127, 0, 255, 31]), (⟨packedState.volume.tickOn, fun _ => 0⟩ : State flatStore Unit)) := by
    rw [onVolume, compressedCluster_equalBytes]
    rfl
  rcases hrun : fileStoreExtentPayload ⟨default, 0, 0⟩ ⟨fun _ => 0, fun _ => 0⟩ equalBytes 2 packedState with ⟨r, s'⟩
  obtain rfl : r = .ok (3, 168) := by
    rw [fileStoreExtentPayload, if_neg (by decide), bind_of_ok hcluster] at hrun
    rw [← show _ = r from congrArg Prod.fst hrun]
    decide +kernel
  have hreads := (fileStoreExtentPayload_reads_back _ _ hsize (fun _ => freeRuns_isFreeIndex _ _) rfl hrun).2.2
  exact ⟨s', rfl, by decide, by decide, by decide, hreads _ _⟩

end Main

end InfiltratorFS.Payload
