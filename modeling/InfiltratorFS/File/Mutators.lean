import InfiltratorFS.File.Replace

namespace InfiltratorFS.File

open Prog

section Materialize

/-- `file_materialize_compressed_extent`: the extent is decompressed and
written out, block by block, to a run of its own. -/
def fileMaterializeCompressedExtent (e : Extent) : FileM Unit := do
  if e.isCompressed = false then pure ()
  else do
    call
    let replacement ← compressionAllocDataExact e.blockCount
    if 2 ^ 64 ≤ replacement * blockSize then fail .overflow
    else do
      writeBlocks ⟨replacement, e.blockCount⟩
      fileReplaceRange e.logicalBlock e.blockCount replacement extentNormal
      objectFinalize
      fileValidateVolume

def materializeAndValidate (e : Extent) : FileM Unit := do
  if e.isCompressed = false then pure ()
  else do
    fileMaterializeCompressedExtent e
    fileValidateVolume

def fileMaterializeCompressedAt (logical : Nat) : FileM Unit := do
  let e ← fileExtentLookup logical
  materializeAndValidate e

def materializeLoop (cursor stop : Nat) : FileM Unit :=
  if h : cursor < stop then do
    let e ← fileExtentLookup cursor
    if 2 ^ 64 ≤ e.stop then fail .corrupt
    else do
      materializeAndValidate e
      if hstop : e.stop ≤ cursor then fail .corrupt else materializeLoop (min e.stop stop) stop
  else pure ()
termination_by stop - cursor

def fileMaterializeCompressedRange (start count : Nat) : FileM Unit :=
  match addChecked start count with
  | none => fail .overflow
  | some stop => materializeLoop start stop

end Materialize

section Inline

def normalRuns (entries : List Extent) : List Segment :=
  (entries.filter fun e => extentKind e.flags == extentNormal).map (·.physical)

def fileExtentSnapshot : FileM (List Extent) := do
  let s ← get
  if s.object.payload.isPaged then pagedExtentSnapshot else pure s.object.payload.extentList

def destroyChecksums : FileM Unit := do
  let s ← get
  if s.object.checksums = [] then pure () else checksumDestroyChain

def fileReleaseExternalStorage : FileM Unit := do
  fileValidateVolume
  destroyChecksums
  let entries ← fileExtentSnapshot
  freeRuns (normalRuns entries)
  pagedExtentDestroyPages

def fileStoreInline (size : Nat) : FileM Unit := do
  if inlineDataMax < size then fail .invalidArgument
  else do
    fileValidateVolume
    let s ← get
    if size ≠ 0 ∧ s.object.storagePolicy ≠ 0 then fail .invalidArgument
    else do
      fileReleaseExternalStorage
      modify fun s =>
        { s with
          object := { s.object with
            payload := if size = 0 then .extents [] else .inline
            logicalSize := size
            checksums := []
            finalized := false } }

def filePromoteInline : FileM Unit := do
  fileValidateVolume
  let s ← get
  if s.object.isInline = false then pure ()
  else do
    let physical ← allocBlock
    writeBlocks ⟨physical, 1⟩
    modify fun s => (s.setPayload (.extents [⟨0, physical, 1, extentNormal⟩])).setChecksums []
    checksumSetRange 0 1
    objectFinalize
    fileValidateVolume

/-- `touch_mctime`, the check of `tx_error`, `infs_object_finalize`, a
validation and `write_object`, as the inline paths end. -/
def storeInlineObject : FileM Unit := do
  call
  objectFinalize
  fileValidateVolume
  call

def promoteIfInline : FileM Unit := do
  let s ← get
  if s.object.isInline = true then do
    filePromoteInline
    fileValidateVolume
  else pure ()

def FileState.inlineEnabled (s : FileState) : Bool := s.enabled incompatInlineData && s.object.storagePolicy == 0

end Inline

section Write

/-- The bytes that the compression of so many blocks leaves, or zero. -/
def compressedBytes (blocks : Nat) : FileM Nat := do
  let s ← get
  if s.enabled incompatCompressedExtents = true ∧ 2 ≤ blocks then do
    let answer ← request
    pure (if answer.count ≤ extentStoredBytesMax ∧ ceilBlocks answer.count < blocks then answer.count else 0)
  else pure 0

def storePayload (blocks : Nat) : FileM Nat := do
  let physical ← compressionAllocDataExact blocks
  if 2 ^ 64 ≤ physical * blockSize then fail .overflow
  else do
    writeBlocks ⟨physical, blocks⟩
    pure physical

def fileStoreExtentPayload (blocks : Nat) : FileM (Nat × UInt32) := do
  if blocks = 0 ∨ compressionClusterBlocks < blocks then fail .invalidArgument
  else do
    let bytes ← compressedBytes blocks
    if bytes ≠ 0 then do
      let physical ← storePayload (ceilBlocks bytes)
      pure (physical, extentCompressedFlags compressionIac1 bytes)
    else do
      let physical ← storePayload blocks
      pure (physical, extentNormal)

variable (logical : Nat)

def remapCompressed (mapped : Nat × UInt32) : FileM (Nat × UInt32) := do
  if extentIsCompressed mapped.2 = false then pure mapped
  else do
    fileMaterializeCompressedAt logical
    let mapped ← fileMapBlock logical
    note (.remap mapped.2)
    if extentIsCompressed mapped.2 = true then fail .corrupt else pure mapped

def holeBlocks : FileM Nat := do
  let entries ← lookupEntries logical
  match entries.find? (holds logical) with
  | none => pure 0
  | some e => if e.flags ≠ extentHole then fail .corrupt else pure (e.stop - logical)

/-- The digests of a batch, one checksum object at most at a time. -/
def digestLoop (logical count : Nat) : FileM Unit :=
  if h : count = 0 then pure ()
  else do
    checksumSetRange logical (min checksumsPerObject count)
    digestLoop (logical + min checksumsPerObject count) (count - min checksumsPerObject count)
termination_by count
decreasing_by
  have : 0 < checksumsPerObject := by decide
  omega

abbrev Pending := Nat × Nat

def flushPending (pending : Pending) : FileM Unit := checksumSetRange pending.1 pending.2

def pushDigest (pending : Pending) : FileM Pending := do
  let broken := pending.2 ≠ 0 ∧ logical ≠ pending.1 + pending.2
  if broken then flushPending pending else pure ()
  let pending := if pending.2 = 0 ∨ broken then (logical, 1) else (pending.1, pending.2 + 1)
  if pending.2 = checksumsPerObject then do
    flushPending pending
    pure (pending.1, 0)
  else pure pending

def replaceBlock : FileM Unit := do
  let replacement ← allocBlock
  writeBlocks ⟨replacement, 1⟩
  fileReplaceRange logical 1 replacement extentNormal

/-- One block of the write loop; a partial one is read first. -/
def writeBlockData (mapped : Nat × UInt32) (fullOverwrite : Bool) : FileM Unit := do
  let s ← get
  let hole := extentKind mapped.2 == extentHole
  if hole || fullOverwrite then pure () else call
  if hole || !txBlockPrivate s mapped.1 then replaceBlock logical else writeBlocks ⟨mapped.1, 1⟩

def writeLoop (offset size done : Nat) (pending : Pending) : FileM Unit :=
  if h : done < size then do
    let logical := (offset + done) / blockSize
    let within := (offset + done) % blockSize
    let chunk := min (blockSize - within) (size - done)
    let mapped ← fileMapBlock logical
    let mapped ← remapCompressed logical mapped
    if hbatch : within = 0 ∧ extentKind mapped.2 = extentHole ∧ blockSize ≤ size - done then do
      let hole ← holeBlocks logical
      if hhole : hole = 0 then fail .corrupt
      else do
        let wanted := min (min ((size - done) / blockSize) hole) compressionClusterBlocks
        flushPending pending
        let stored ← fileStoreExtentPayload wanted
        fileReplaceRange logical wanted stored.1 stored.2
        digestLoop logical wanted
        writeLoop offset size (done + wanted * blockSize) (pending.1, 0)
    else do
      writeBlockData logical mapped (within == 0 && chunk == blockSize)
      let pending ← pushDigest logical pending
      writeLoop offset size (done + chunk) pending
  else flushPending pending
termination_by size - done
decreasing_by
  · have hblock : 0 < blockSize := by decide
    have hcluster : 0 < compressionClusterBlocks := by decide
    have hwanted : 0 < min (min ((size - done) / blockSize) hole) compressionClusterBlocks := by
      have := Nat.div_pos hbatch.2.2 hblock
      omega
    exact Nat.sub_lt_sub_left h (Nat.lt_add_of_pos_right (Nat.mul_pos hwanted hblock))
  · have hwithin : (offset + done) % blockSize < blockSize := Nat.mod_lt _ (by decide)
    omega

def int64Max : Nat := 2 ^ 63 - 1

def writeExtents (size offset : Nat) : FileM Nat := do
  promoteIfInline
  fileEnsureLogicalBlocks (ceilBlocks (offset + size))
  modify fun s => s.setSize (max s.object.logicalSize (offset + size))
  objectFinalize
  fileValidateVolume
  writeLoop offset size 0 (0, 0)
  call
  call
  pure size

def writeFileLookupTx (size offset : Nat) : FileM Nat := do
  let s ← get
  if s.writable = false then fail .readOnly
  else if int64Max < size ∨ (addChecked offset size).isNone = true then fail .overflow
  else if size = 0 then pure 0
  else do
    call
    fileValidateVolume
    let s ← get
    if s.inlineEnabled = true ∧ s.object.logicalSize ≤ inlineDataMax ∧ offset + size ≤ inlineDataMax then do
      fileValidateVolume
      call
      fileStoreInline (max s.object.logicalSize (offset + size))
      storeInlineObject
      pure size
    else writeExtents size offset

/-- `write_file_common`; the first call opens the scope of the mutation, the
last one publishes or counts it. -/
def infsWriteFile (offset size : Nat) : FileM Unit := do
  let s ← get
  if s.writable = false then fail .readOnly
  else if int64Max < size ∨ (addChecked offset size).isNone = true then fail .overflow
  else if size = 0 then pure ()
  else do
    call
    call
    let _ ← writeFileLookupTx size offset
    call

end Write

section Truncate

def resizeExtents (target present : Nat) : FileM Unit := do
  let s ← get
  if present < target then fileEnsureLogicalBlocks target
  else if target < present ∧ s.object.payload.isPaged = true then do
    pagedExtentTruncate target
    fileValidateVolume
  else if target < present then classicTruncate target
  else pure ()

def zeroTail (logical : Nat) : FileM Unit := do
  let mapped ← fileMapBlock logical
  if extentKind mapped.2 = extentNormal then do
    call
    replaceBlock logical
    checksumSetRange logical 1
  else pure ()

def dropUnusedChecksums : FileM Unit := do
  let allocated ← fileAllocatedBlocksVolume
  if allocated = 0 then destroyChecksums else pure ()

def truncateExtents (size oldSize : Nat) : FileM Unit := do
  promoteIfInline
  let target := ceilBlocks size
  let present ← fileLogicalBlocksVolume
  if target < present ∧ 0 < target then fileMaterializeCompressedAt (target - 1) else pure ()
  resizeExtents target present
  modify fun s => s.setSize size
  objectFinalize
  fileValidateVolume
  if size < oldSize ∧ 0 < target ∧ size % blockSize ≠ 0 then zeroTail (target - 1) else pure ()
  dropUnusedChecksums
  call
  call
  call

def truncateFileTx (size : Nat) : FileM Unit := do
  let s ← get
  if s.writable = false then fail .readOnly
  else do
    call
    fileValidateVolume
    let s ← get
    if s.inlineEnabled = true ∧ size ≤ inlineDataMax then do
      if min s.object.logicalSize size = 0 then pure () else call
      fileStoreInline size
      storeInlineObject
      call
    else truncateExtents size s.object.logicalSize

def infsTruncateFile (size : Nat) : FileM Unit := do
  call
  truncateFileTx size

end Truncate

section Punch

def punchPartialBlock (logical : Nat) : FileM Unit := do
  let mapped ← fileMapBlock logical
  if mapped.2 = extentHole then pure ()
  else do
    call
    replaceBlock logical
    checksumSetRange logical 1

def punchFullBlocks (logical count : Nat) : FileM Unit :=
  if h : count = 0 then pure ()
  else do
    fileReplaceRange logical (min uint32Max count) 0 extentHole
    punchFullBlocks (logical + min uint32Max count) (count - min uint32Max count)
termination_by count
decreasing_by
  have : 0 < uint32Max := by decide
  omega

def uint64Max : Nat := 2 ^ 64 - 1

/-- The end of the last block of a file of this size, saturating. -/
def paddedSize (fileSize : Nat) : Nat :=
  if fileSize % blockSize = 0 then fileSize
  else min uint64Max (fileSize + (blockSize - fileSize % blockSize))

def punchExtents (offset length fileSize : Nat) : FileM Unit := do
  let first := offset / blockSize
  let materializeEnd := ceilBlocks (min (offset + length) fileSize)
  if first < materializeEnd then fileMaterializeCompressedRange first (materializeEnd - first) else pure ()
  let stop := min (offset + length) (paddedSize fileSize)
  let within := offset % blockSize
  let head := if within = 0 then 0 else min (blockSize - within) (stop - offset)
  if within ≠ 0 then punchPartialBlock (offset / blockSize) else pure ()
  let pos := offset + head
  let full := (stop - pos) / blockSize
  punchFullBlocks (pos / blockSize) full
  let pos := pos + full * blockSize
  if pos < stop then punchPartialBlock (pos / blockSize) else pure ()
  dropUnusedChecksums
  call
  call
  call

def punchHoleTx (offset length : Nat) : FileM Unit := do
  call
  fileValidateVolume
  let s ← get
  if s.object.isInline = true then do
    fileValidateVolume
    call
    fileStoreInline s.object.logicalSize
    storeInlineObject
    call
  else punchExtents offset length s.object.logicalSize

def infsPunchHole (offset length : Nat) : FileM Unit := do
  if length = 0 then pure ()
  else if (addChecked offset length).isNone = true then fail .overflow
  else do
    call
    let s ← get
    if s.object.logicalSize ≤ offset then pure ()
    else do
      call
      punchHoleTx offset length

end Punch

inductive FileCall
  | writeFile (offset size : Nat)
  | truncateFile (size : Nat)
  | punchHole (offset length : Nat)

def FileCall.run : FileCall → FileM Unit
  | .writeFile offset size => infsWriteFile offset size
  | .truncateFile size => infsTruncateFile size
  | .punchHole offset length => infsPunchHole offset length

end InfiltratorFS.File
