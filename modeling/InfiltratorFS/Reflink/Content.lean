import InfiltratorFS.Storage.Policy
import InfiltratorFS.File.Object
import InfiltratorFS.Iac1.Codec

namespace InfiltratorFS.Reflink

open Storage File Function

section Model

/-- The parts that come from other libraries: the hash of a data block and
the LZ4 decoder. -/
structure Codecs (Digest : Type) where
  sha256 : Bytes → Digest
  lz4 : Bytes → Nat → Option Bytes

inductive FileContent
  | inline (bytes : Bytes)
  | extents (entries : List Extent)

/-- A file as it is read back: its object, all of its extents, and what the
checksum chain answers for each logical block. -/
structure DataFile (Digest : Type) where
  objectId : ObjectId
  portableFlags : UInt64
  logicalSize : Nat
  content : FileContent
  checksum : Nat → Except Status Digest

variable {Digest : Type} [DecidableEq Digest] (codecs : Codecs Digest)

def attrProtectionCopies (flags : UInt64) : UInt8 := ((flags &&& 0x00ff000000000000) >>> 48).toUInt8

def attrEncryptionDomain (flags : UInt64) : UInt8 := ((flags &&& 0xff00000000000000) >>> 56).toUInt8

def knownAttrFlags : UInt64 := 0xffff00000000003f

def fileStoragePolicy (file : DataFile Digest) : IoPolicy :=
  ⟨file.objectId, attrProtectionCopies file.portableFlags, attrEncryptionDomain file.portableFlags⟩

def clonePolicy (source : DataFile Digest) (destinationId : ObjectId) : IoPolicy :=
  ⟨destinationId, attrProtectionCopies source.portableFlags, attrEncryptionDomain source.portableFlags⟩

def extentsValid (entries : List Extent) : Bool :=
  entries.all fun e => extentFlagsValid e.blockCount e.physicalBlock e.flags

def fileExtentLookup (entries : List Extent) (logical : Nat) : Except Status Extent :=
  match entries.find? fun e => decide (e.logicalBlock ≤ logical ∧ logical < e.stop) with
  | none => .error .corrupt
  | some e => .ok e

def decode (codec : UInt32) (stored : Bytes) (size : Nat) : Option Bytes :=
  if codec = compressionLz4 then codecs.lz4 stored size
  else if codec = compressionIac1 then Iac1.decompress stored size
  else none

/-- `file_decompress_extent` over whatever reads the data. -/
def decompressExtent (read : Nat → Nat → Except Status Bytes) (e : Extent) : Except Status Bytes :=
  let stored := extentStoredBytes e.flags
  let span := extentPhysicalBlocks e.blockCount e.flags * blockSize
  if stored = 0 ∨ span = 0 ∨ compressionClusterBlocks < e.blockCount ∨ span < stored then .error .corrupt
  else
    match read (e.physicalBlock * blockSize) span with
    | .error status => .error status
    | .ok bytes =>
      match decode codecs (extentCodec e.flags) (bytes.take stored) (e.blockCount * blockSize) with
      | none => .error .corrupt
      | some plain => if plain.length ≠ e.blockCount * blockSize then .error .corrupt else .ok plain

def dataBlockVerify (checksum : Nat → Except Status Digest) (logical : Nat) (data : Bytes) : Except Status Bytes :=
  match checksum logical with
  | .error status => .error status
  | .ok expected => if codecs.sha256 data ≠ expected then .error .corrupt else .ok data

def extentBlock (totalBlocks : Nat) (read : Nat → Nat → Except Status Bytes) (e : Extent) (logical : Nat) :
    Except Status Bytes :=
  if e.isCompressed then
    match decompressExtent codecs read e with
    | .error status => .error status
    | .ok plain => .ok ((plain.drop ((logical - e.logicalBlock) * blockSize)).take blockSize)
  else if totalBlocks ≤ e.physicalBlock + (logical - e.logicalBlock) then .error .invalidArgument
  else read ((e.physicalBlock + (logical - e.logicalBlock)) * blockSize) blockSize

def readLogicalBlock (totalBlocks : Nat) (read : Nat → Nat → Except Status Bytes) (entries : List Extent)
    (checksum : Nat → Except Status Digest) (logical : Nat) : Except Status Bytes :=
  match fileExtentLookup entries logical with
  | .error status => .error status
  | .ok e =>
    if extentKind e.flags = extentHole then .ok (List.replicate blockSize 0)
    else
      match extentBlock codecs totalBlocks read e logical with
      | .error status => .error status
      | .ok data => dataBlockVerify codecs checksum logical data

def readBlocks (readBlock : Nat → Except Status Bytes) (offset size : Nat) : Nat → Bytes → Except Status Bytes
  | 0, buffer => .ok buffer
  | fuel + 1, buffer =>
    if size ≤ buffer.length then .ok buffer
    else
      let position := offset + buffer.length
      let chunk := min (blockSize - position % blockSize) (size - buffer.length)
      match readBlock (position / blockSize) with
      | .error status => .error status
      | .ok data => readBlocks readBlock offset size fuel (buffer ++ (data.drop (position % blockSize)).take chunk)

def readFile (totalBlocks : Nat) (storage : Backend) (file : DataFile Digest) (offset size : Nat) : Except Status Bytes :=
  if file.logicalSize ≤ offset then .ok []
  else
    let remaining := min size (file.logicalSize - offset)
    match file.content with
    | .inline bytes => .ok ((bytes.drop offset).take remaining)
    | .extents entries =>
      if !extentsValid entries then .error .corrupt
      else
        readBlocks
          (readLogicalBlock codecs totalBlocks (storage.readPolicy (some (fileStoragePolicy file))) entries file.checksum)
          offset remaining remaining []

def copyRange (source : Nat → Except Status Digest) (logical : Nat) :
    Nat → (Nat → Except Status Digest) → Except Status (Nat → Except Status Digest)
  | 0, destination => .ok destination
  | count + 1, destination =>
    match source logical with
    | .error status => .error status
    | .ok digest => copyRange source (logical + 1) count (update destination logical (.ok digest))

def reflinkCopyChecksums (source : Nat → Except Status Digest) :
    List Extent → (Nat → Except Status Digest) → Except Status (Nat → Except Status Digest)
  | [], destination => .ok destination
  | e :: rest, destination =>
    if extentKind e.flags ≠ extentNormal then reflinkCopyChecksums source rest destination
    else
      match copyRange source e.logicalBlock e.blockCount destination with
      | .error status => .error status
      | .ok destination => reflinkCopyChecksums source rest destination

/-- What `reflink_file_tx` makes of the source under the ID that was generated
for the destination. A file without checksums answers NOT_FOUND for a block. -/
def reflinkFileTx (source : DataFile Digest) (destinationId : ObjectId) : Except Status (DataFile Digest) :=
  if source.portableFlags &&& ~~~knownAttrFlags ≠ 0 then .error .invalidArgument
  else
    match source.content with
    | .inline bytes =>
      if inlineDataMax < source.logicalSize then .error .fileTooLarge
      else if source.logicalSize ≠ 0 ∧ source.portableFlags &&& storagePolicyMask ≠ 0 then .error .invalidArgument
      else
        .ok { objectId := destinationId, portableFlags := source.portableFlags, logicalSize := source.logicalSize
              content := .inline (bytes.take source.logicalSize), checksum := fun _ => .error .notFound }
    | .extents entries =>
      if !extentsValid entries then .error .corrupt
      else
        match reflinkCopyChecksums source.checksum entries (fun _ => .error .notFound) with
        | .error status => .error status
        | .ok checksum =>
          .ok { objectId := destinationId, portableFlags := source.portableFlags, logicalSize := source.logicalSize
                content := .extents entries, checksum := checksum }

end Model

section Copy

variable {Digest : Type} {source destination result : Nat → Except Status Digest}

theorem copyRange_apply {logical count : Nat} (h : copyRange source logical count destination = .ok result) (i : Nat) :
    result i = if logical ≤ i ∧ i < logical + count then source i else destination i := by
  fun_induction copyRange source logical count destination with
  | case1 =>
    cases h
    rw [if_neg (by omega)]
  | case2 => cases h
  | case3 logical count destination digest hdigest ih =>
    rw [ih h]
    by_cases hi : i = logical
    · subst hi
      rw [if_neg (by omega), if_pos (by omega), update_self, hdigest]
    · rw [update_of_ne hi]
      by_cases hin : logical + 1 ≤ i ∧ i < logical + 1 + count
      · rw [if_pos hin, if_pos (by omega)]
      · rw [if_neg hin, if_neg (by omega)]

theorem reflinkCopyChecksums_apply {entries : List Extent} (h : reflinkCopyChecksums source entries destination = .ok result)
    (i : Nat) (hi : (∃ e ∈ entries, extentKind e.flags = extentNormal ∧ e.logicalBlock ≤ i ∧ i < e.stop) ∨
      destination i = source i) : result i = source i := by
  fun_induction reflinkCopyChecksums source entries destination with
  | case1 =>
    cases h
    exact hi.resolve_left (by simp)
  | case2 destination e rest hkind ih =>
    refine ih h (hi.imp_left ?_)
    rintro ⟨f, hf, hnormal, hin⟩
    rcases List.mem_cons.mp hf with rfl | hf
    · exact absurd hnormal hkind
    · exact ⟨f, hf, hnormal, hin⟩
  | case3 => cases h
  | case4 destination e rest _ next hnext ih =>
    have happly := copyRange_apply hnext i
    apply ih h
    rcases hi with ⟨f, hf, hnormal, hin⟩ | hi
    · rcases List.mem_cons.mp hf with rfl | hf
      · right
        rw [happly]
        exact if_pos hin
      · exact .inl ⟨f, hf, hnormal, hin⟩
    · right
      rw [happly, hi]
      split <;> rfl

end Copy

section Reading

variable {Digest : Type} (codecs : Codecs Digest) {totalBlocks logical : Nat}
  {read read' : Nat → Nat → Except Status Bytes} {entries : List Extent}
  {checksum checksum' : Nat → Except Status Digest} {e : Extent}

def Within (e : Extent) (offset size : Nat) : Prop :=
  0 < size ∧ ∀ b, offset / blockSize ≤ b → b * blockSize < offset + size → e.physical.contains b = true

theorem within_compressed (h : 0 < extentPhysicalBlocks e.blockCount e.flags) :
    Within e (e.physicalBlock * blockSize) (extentPhysicalBlocks e.blockCount e.flags * blockSize) := by
  refine ⟨Nat.mul_pos h (by decide), fun b hlo hhi => ?_⟩
  rw [Nat.mul_div_cancel _ (by decide)] at hlo
  rw [← Nat.add_mul] at hhi
  exact (Segment.contains_iff _ _).mpr ⟨hlo, Nat.lt_of_mul_lt_mul_right hhi⟩

theorem within_block (hkind : extentKind e.flags ≠ extentHole) (hplain : e.isCompressed = false)
    (hin : e.logicalBlock ≤ logical ∧ logical < e.stop) :
    Within e ((e.physicalBlock + (logical - e.logicalBlock)) * blockSize) blockSize := by
  have hcount : extentPhysicalBlocks e.blockCount e.flags = e.blockCount := by
    rw [extentPhysicalBlocks, if_neg hkind, if_neg (by rw [show extentIsCompressed e.flags = false from hplain]; decide)]
  refine ⟨by decide, fun b hlo hhi => ?_⟩
  rw [Nat.mul_div_cancel _ (by decide)] at hlo
  rw [← Nat.succ_mul] at hhi
  have hlt := Nat.lt_of_mul_lt_mul_right hhi
  rw [Extent.stop] at hin
  rw [Segment.contains_iff, Segment.stop, Extent.physical, hcount]
  dsimp only
  omega

theorem extentBlock_congr (hkind : extentKind e.flags ≠ extentHole)
    (hin : e.logicalBlock ≤ logical ∧ logical < e.stop)
    (h : ∀ offset size, Within e offset size → read offset size = read' offset size) :
    extentBlock codecs totalBlocks read e logical = extentBlock codecs totalBlocks read' e logical := by
  have hextent : decompressExtent codecs read e = decompressExtent codecs read' e := by
    unfold decompressExtent
    dsimp only
    split
    · rfl
    · rename_i hchecks
      have hpos : 0 < extentPhysicalBlocks e.blockCount e.flags :=
        Nat.pos_of_ne_zero fun hzero => hchecks (.inr (.inl (by rw [hzero, Nat.zero_mul])))
      rw [h _ _ (within_compressed hpos)]
  unfold extentBlock
  rw [hextent]
  split
  · rfl
  · rename_i hplain
    rw [h _ blockSize (within_block hkind (by simpa using hplain) hin)]

theorem extentBlock_failed (h : ∀ offset size, 0 < size → read offset size = .error .ioError) (e : Extent) (logical : Nat) :
    ∃ status, extentBlock codecs totalBlocks read e logical = .error status := by
  unfold extentBlock decompressExtent
  dsimp only
  rw [h _ blockSize (by decide)]
  split
  · split
    · exact ⟨_, rfl⟩
    · rename_i plain hplain
      split at hplain
      · cases hplain
      · rename_i hchecks
        rw [h _ _ (by omega)] at hplain
        cases hplain
  · split <;> exact ⟨_, rfl⟩

theorem mem_of_fileExtentLookup (h : fileExtentLookup entries logical = .ok e) :
    e ∈ entries ∧ e.logicalBlock ≤ logical ∧ logical < e.stop := by
  unfold fileExtentLookup at h
  split at h
  · cases h
  · rename_i f hf
    cases h
    have hcovers := List.find?_some hf
    exact ⟨List.mem_of_find?_eq_some hf, of_decide_eq_true hcovers⟩

variable [DecidableEq Digest]

theorem readLogicalBlock_congr (logical : Nat)
    (h : ∀ e, fileExtentLookup entries logical = .ok e → extentKind e.flags ≠ extentHole →
      (∀ offset size, Within e offset size → read offset size = read' offset size) ∧ checksum logical = checksum' logical) :
    readLogicalBlock codecs totalBlocks read entries checksum logical =
      readLogicalBlock codecs totalBlocks read' entries checksum' logical := by
  unfold readLogicalBlock
  rcases hlookup : fileExtentLookup entries logical with status | e
  · rfl
  · dsimp only
    by_cases hkind : extentKind e.flags = extentHole
    · rw [if_pos hkind, if_pos hkind]
    · obtain ⟨hread, hchecksum⟩ := h e hlookup hkind
      rw [if_neg hkind, if_neg hkind, extentBlock_congr codecs hkind (mem_of_fileExtentLookup hlookup).2 hread]
      unfold dataBlockVerify
      rw [hchecksum]

theorem readBlocks_congr {readBlock readBlock' : Nat → Except Status Bytes} {offset size limit : Nat}
    (h : ∀ logical, logical * blockSize < limit → readBlock logical = readBlock' logical) (hlimit : offset + size ≤ limit)
    (fuel : Nat) : ∀ buffer, readBlocks readBlock offset size fuel buffer = readBlocks readBlock' offset size fuel buffer := by
  induction fuel with
  | zero =>
    intro buffer
    rfl
  | succ fuel ih =>
    intro buffer
    unfold readBlocks
    split
    · rfl
    · rename_i hlt
      have hposition : (offset + buffer.length) / blockSize * blockSize < limit := by
        have := Nat.div_mul_le_self (offset + buffer.length) blockSize
        omega
      simp only [h _ hposition, ih]

theorem extentKind_normal (hvalid : extentsValid entries = true) (he : e ∈ entries)
    (hkind : extentKind e.flags ≠ extentHole) : extentKind e.flags = extentNormal := by
  have hflags := List.all_eq_true.mp hvalid e he
  by_contra hne
  unfold extentFlagsValid at hflags
  rw [if_neg hkind, if_pos (Or.inl hne)] at hflags
  split at hflags <;> cases hflags

end Reading

section Equality

variable {Digest : Type} {codecs : Codecs Digest} {totalBlocks count : Nat} {source clone : DataFile Digest}
  {destinationId : ObjectId}

/-- What a clone takes over from its source. -/
theorem reflinkFileTx_eq_ok (h : reflinkFileTx source destinationId = .ok clone) :
    clone.logicalSize = source.logicalSize ∧ fileStoragePolicy clone = clonePolicy source destinationId ∧
      ((∃ bytes, source.content = .inline bytes ∧ clone.content = .inline (bytes.take source.logicalSize)) ∨
        ∃ entries, source.content = .extents entries ∧ clone.content = .extents entries ∧ extentsValid entries = true ∧
          reflinkCopyChecksums source.checksum entries (fun _ => .error .notFound) = .ok clone.checksum) := by
  revert h
  fun_cases reflinkFileTx source destinationId with
  | case4 _ bytes hcontent =>
    intro h
    cases h
    exact ⟨rfl, rfl, .inl ⟨bytes, hcontent, rfl⟩⟩
  | case7 _ entries hcontent hvalid checksum hcopy =>
    intro h
    cases h
    exact ⟨rfl, rfl, .inr ⟨entries, hcontent, rfl, by simpa using hvalid, hcopy⟩⟩
  | _ =>
    intro h
    cases h

theorem reflinkFileTx_extents (h : reflinkFileTx source destinationId = .ok clone) {entries : List Extent}
    (hcontent : source.content = .extents entries) :
    clone.content = .extents entries ∧ extentsValid entries = true ∧
      ∀ logical e, fileExtentLookup entries logical = .ok e → extentKind e.flags ≠ extentHole →
        clone.checksum logical = source.checksum logical := by
  obtain ⟨-, -, ⟨bytes, hinline, -⟩ | ⟨entries', hsource, hclone, hvalid, hcopy⟩⟩ := reflinkFileTx_eq_ok h
  · rw [hcontent] at hinline
    cases hinline
  · rw [hcontent] at hsource
    cases hsource
    refine ⟨hclone, hvalid, fun logical e hlookup hkind => ?_⟩
    obtain ⟨he, hin⟩ := mem_of_fileExtentLookup hlookup
    exact reflinkCopyChecksums_apply hcopy logical (.inl ⟨e, he, extentKind_normal hvalid he hkind, hin⟩)

def SamePlacement (count : Nat) (source : DataFile Digest) (destinationId : ObjectId) : Prop :=
  attrProtectionCopies source.portableFlags = 0 ∨ (attrProtectionCopies source.portableFlags).toNat = count ∨
    mirrorPolicyStart count (some (fileStoragePolicy source)) =
      mirrorPolicyStart count (some (clonePolicy source destinationId))

theorem SamePlacement.members (h : SamePlacement count source destinationId) (i : Nat) :
    mirrorPolicyMember count (some (fileStoragePolicy source)) i =
      mirrorPolicyMember count (some (clonePolicy source destinationId)) i := by
  have hall : ∀ p : IoPolicy, p.protectionCopies = attrProtectionCopies source.portableFlags →
      (attrProtectionCopies source.portableFlags = 0 ∨ (attrProtectionCopies source.portableFlags).toNat = count) →
        mirrorPolicyMember count (some p) i = true := by
    intro p hp hcopies
    apply mirrorPolicyMember_all
    rw [mirrorPolicyCopies_some, hp]
    rcases hcopies with hzero | hcount
    · rw [hzero]
      rfl
    · rw [hcount]
      split <;> rfl
  rcases h with hzero | hcount | hstart
  · rw [hall _ rfl (.inl hzero), hall _ rfl (.inl hzero)]
  · rw [hall _ rfl (.inr hcount), hall _ rfl (.inr hcount)]
  · exact mirrorPolicyMember_congr (p := fileStoragePolicy source) (q := clonePolicy source destinationId) rfl hstart i

variable [DecidableEq Digest]

theorem readFile_clone (h : reflinkFileTx source destinationId = .ok clone) (storage : Backend)
    (hstored : ∀ entries, source.content = .extents entries → ∀ logical, logical * blockSize < source.logicalSize →
      ∀ e, fileExtentLookup entries logical = .ok e → extentKind e.flags ≠ extentHole →
        storage.readPolicy (some (fileStoragePolicy source)) = storage.readPolicy (some (fileStoragePolicy clone)))
    (offset size : Nat) :
    readFile codecs totalBlocks storage clone offset size = readFile codecs totalBlocks storage source offset size := by
  obtain ⟨hsize, hpolicy, hcases⟩ := reflinkFileTx_eq_ok h
  unfold readFile
  rw [hsize]
  by_cases hend : source.logicalSize ≤ offset
  · rw [if_pos hend, if_pos hend]
  · rw [if_neg hend, if_neg hend]
    dsimp only
    obtain ⟨bytes, hcontent, hclone⟩ | ⟨entries, hcontent, -⟩ := hcases
    · rw [hcontent, hclone]
      dsimp only
      rw [List.drop_take, List.take_take]
      congr 2
      omega
    · obtain ⟨hclone, hvalid, hchecksum⟩ := reflinkFileTx_extents h hcontent
      rw [hcontent, hclone]
      dsimp only
      rw [hvalid]
      have hlimit : offset + min size (source.logicalSize - offset) ≤ source.logicalSize := by omega
      refine readBlocks_congr (fun logical hlogical => ?_) hlimit _ _
      apply readLogicalBlock_congr
      intro e hlookup hkind
      rw [hstored entries hcontent logical hlogical e hlookup hkind]
      exact ⟨fun _ _ _ => rfl, hchecksum logical e hlookup hkind⟩

variable (wrap : Option Cipher)

def mirrored (m : Backend) : Backend := wrap.elim m fun cipher => .encrypted cipher m

def memberPolicy (p : IoPolicy) : IoPolicy :=
  ⟨p.objectId, 0, wrap.elim p.encryptionDomain fun _ => 0⟩

/-- Some block of the file is in a data extent. -/
def StoresData (source : DataFile Digest) : Prop :=
  ∃ entries logical e, source.content = .extents entries ∧ logical * blockSize < source.logicalSize ∧
    fileExtentLookup entries logical = .ok e ∧ extentKind e.flags ≠ extentHole

/-- Every healthy member that the policy of the file chooses holds what was
written, unless it cannot be read. -/
def HoldsWritten (written : Backend) (p : IoPolicy) (count : Nat) (healthy : Nat → Bool)
    (member : Nat → Backend) : Prop :=
  ∀ i < count, healthy i = true → mirrorPolicyMember count (some p) i = true → ∀ offset size bytes, 0 < size →
    (member i).readPolicy (some (memberPolicy wrap p)) offset size = .ok bytes →
      written.readPolicy (some (memberPolicy wrap p)) offset size = .ok bytes

section OneSurvivor

variable {wrap : Option Cipher} {written : Backend} {p q : IoPolicy} {survivor : Nat}

def survivors (survivor : Nat) (written : Backend) (i : Nat) : Backend := if i = survivor then written else deadMember

variable {offset size : Nat} (hsize : 0 < size)

include hsize

theorem readPolicy_survivors_dead {i : Nat} (hi : i ≠ survivor) (hp : p.protectionCopies = 0) :
    (survivors survivor written i).readPolicy (some p) offset size = .error .ioError := by
  rw [survivors, if_neg hi]
  exact readPolicy_deadMember p hp offset size hsize

omit hsize in
theorem enough_copies (hcopies : p.protectionCopies.toNat ≤ count) :
    ¬(some p).any (fun p : IoPolicy => decide (count < p.protectionCopies.toNat)) = true := by
  rw [Option.any_some, decide_eq_true_iff]
  omega

variable (hcopies : p.protectionCopies.toNat ≤ count)

include hcopies

theorem readPolicy_survivor (hlt : survivor < count) (hmember : mirrorPolicyMember count (some p) survivor = true) :
    (Backend.mirror count (fun _ => true) (survivors survivor written)).readPolicy (some p) offset size =
      written.readPolicy (some { p with protectionCopies := 0 }) offset size := by
  change (if _ then _ else _) = _
  rw [if_neg (enough_copies hcopies), mirrorScan_survivor (List.range count) List.nodup_range (List.mem_range.mpr hlt) _ hsize]
  · rw [survivors, if_pos rfl]
    rfl
  · intro i _ hi offset size hsize
    exact readPolicy_survivors_dead hsize hi rfl
  · rw [hmember]
    rfl

theorem mirrored_survivor (hlt : survivor < count) (hmember : mirrorPolicyMember count (some p) survivor = true) :
    (mirrored wrap (.mirror count (fun _ => true) (survivors survivor written))).readPolicy (some p) offset size =
      (mirrored wrap written).readPolicy (some { p with protectionCopies := 0 }) offset size := by
  cases wrap with
  | none => exact readPolicy_survivor hsize hcopies hlt hmember
  | some cipher =>
    have hbacking : ∀ offset size, 0 < size →
        (Backend.mirror count (fun _ => true) (survivors survivor written)).readPolicy
          (some { p with encryptionDomain := 0 }) offset size =
        written.readPolicy (some { p with protectionCopies := 0, encryptionDomain := 0 }) offset size :=
      fun offset size hsize => readPolicy_survivor (p := { p with encryptionDomain := 0 }) hsize hcopies hlt hmember
    exact congrFun (congrFun (encryptedRead_congr cipher hbacking p.encryptionDomain) offset) size

section

variable (hmember : mirrorPolicyMember count (some p) survivor = false)
include hmember

theorem readPolicy_left_out :
    (Backend.mirror count (fun _ => true) (survivors survivor written)).readPolicy (some p) offset size = .error .ioError := by
  change (if _ then _ else _) = _
  rw [if_neg (enough_copies hcopies)]
  apply mirrorScan_all_failed
  intro i _ huses
  have hi : i ≠ survivor := by
    rintro rfl
    rw [hmember] at huses
    cases huses
  exact readPolicy_survivors_dead hsize hi rfl

theorem mirrored_left_out :
    (mirrored wrap (.mirror count (fun _ => true) (survivors survivor written))).readPolicy (some p) offset size =
      .error .ioError := by
  cases wrap with
  | none => exact readPolicy_left_out hsize hcopies hmember
  | some cipher =>
    exact encryptedRead_failed cipher (fun offset size hsize =>
      readPolicy_left_out (p := { p with encryptionDomain := 0 }) hsize hcopies hmember) _ _ _ hsize

end

omit hsize hcopies

theorem holdsWritten_survivors (wrap : Option Cipher) (written : Backend) (p : IoPolicy) (count survivor : Nat) :
    HoldsWritten wrap written p count (fun _ => true) (survivors survivor written) := by
  intro i _ _ _ offset size bytes hsize hread
  by_cases hi : i = survivor
  · rwa [survivors, if_pos hi] at hread
  · rw [readPolicy_survivors_dead hsize hi rfl] at hread
    cases hread

end OneSurvivor

theorem readFile_byte {storage : Backend} {file : DataFile Digest} {entries : List Extent} {logical : Nat}
    (hcontent : file.content = .extents entries) (hvalid : extentsValid entries = true)
    (hin : logical * blockSize < file.logicalSize) :
    readFile codecs totalBlocks storage file (logical * blockSize) 1 =
      (readLogicalBlock codecs totalBlocks (storage.readPolicy (some (fileStoragePolicy file))) entries file.checksum
        logical).map fun data => data.take 1 := by
  have hone : min 1 (file.logicalSize - logical * blockSize) = 1 := by omega
  unfold readFile
  rw [if_neg (by omega), hcontent]
  dsimp only
  rw [hvalid, hone]
  unfold readBlocks
  rw [if_neg (by decide), if_neg (by decide)]
  simp only [List.length_nil, Nat.add_zero, Nat.sub_zero, Nat.mul_div_cancel _ (show 0 < blockSize by decide),
    Nat.mul_mod_left, List.drop_zero, List.nil_append, show min blockSize 1 = 1 by decide]
  rcases readLogicalBlock codecs totalBlocks (storage.readPolicy (some (fileStoragePolicy file))) entries file.checksum
    logical with status | data <;> rfl

/-- A clone reads like its source through every pattern of failed members
exactly when their copies are placed on the same members, or no data is
stored at all. -/
theorem reflink_reads_equal_iff (wrap : Option Cipher) (written : Backend) (destinationId : ObjectId)
    (hcopies : (attrProtectionCopies source.portableFlags).toNat ≤ count)
    (hclone : reflinkFileTx source destinationId = .ok clone)
    (hwritten : ∀ entries logical, source.content = .extents entries → logical * blockSize < source.logicalSize →
      ∃ data, readLogicalBlock codecs totalBlocks
        ((mirrored wrap written).readPolicy (some { fileStoragePolicy source with protectionCopies := 0 })) entries
        source.checksum logical = .ok data) :
    (∀ healthy member, HoldsWritten wrap written (fileStoragePolicy source) count healthy member →
      ∀ offset size bytes,
        readFile codecs totalBlocks (mirrored wrap (.mirror count healthy member)) source offset size = .ok bytes →
          readFile codecs totalBlocks (mirrored wrap (.mirror count healthy member)) clone offset size = .ok bytes) ↔
      SamePlacement count source destinationId ∨ ¬StoresData source := by
  obtain ⟨hsize, hpolicy, -⟩ := reflinkFileTx_eq_ok hclone
  constructor
  · intro hequal
    by_contra hneither
    obtain ⟨hplacement, hstores⟩ := not_or.mp hneither
    obtain ⟨entries, logical, e, hcontent, hin, hlookup, hkind⟩ := not_not.mp hstores
    obtain ⟨hzero, hrest⟩ := not_or.mp hplacement
    obtain ⟨hcount, hstart⟩ := not_or.mp hrest
    have hpos : 0 < (attrProtectionCopies source.portableFlags).toNat := by
      apply Nat.pos_of_ne_zero
      intro h
      exact hzero (UInt8.toNat_inj.mp h)
    -- The only member left is one that the clone never looks at.
    obtain ⟨survivor, hlt, hmember, hleft⟩ := exists_member_left_out (p := fileStoragePolicy source)
      (q := clonePolicy source destinationId) rfl hpos (Nat.lt_of_le_of_ne hcopies hcount) hstart
    obtain ⟨hclonecontent, hvalid, _⟩ := reflinkFileTx_extents hclone hcontent
    obtain ⟨data, hdata⟩ := hwritten entries logical hcontent hin
    have hsource := hequal _ _ (holdsWritten_survivors wrap written (fileStoragePolicy source) count survivor)
      (logical * blockSize) 1 (data.take 1)
    rw [readFile_byte hcontent hvalid hin, readFile_byte hclonecontent hvalid (hsize ▸ hin), hpolicy] at hsource
    have hread : readLogicalBlock codecs totalBlocks
        ((mirrored wrap (.mirror count (fun _ => true) (survivors survivor written))).readPolicy
          (some (fileStoragePolicy source))) entries source.checksum logical = .ok data := by
      rw [← hdata]
      apply readLogicalBlock_congr
      intro _ _ _
      exact ⟨fun offset size hsize => mirrored_survivor hsize.1 hcopies hlt hmember, rfl⟩
    rw [hread] at hsource
    have hdead : ∀ offset size, 0 < size →
        (mirrored wrap (.mirror count (fun _ => true) (survivors survivor written))).readPolicy
          (some (clonePolicy source destinationId)) offset size = .error .ioError :=
      fun _ _ hsize => mirrored_left_out hsize hcopies hleft
    obtain ⟨status, hfailed⟩ : ∃ status, extentBlock codecs totalBlocks _ e logical = .error status :=
      extentBlock_failed codecs hdead e logical
    unfold readLogicalBlock at hsource
    rw [hlookup] at hsource
    dsimp only at hsource
    rw [if_neg hkind, hfailed] at hsource
    cases hsource rfl
  · intro hcase healthy member _ offset size bytes hread
    rw [readFile_clone hclone]
    · exact hread
    · intro entries hcontent logical hin e hlookup hkind
      rcases hcase with hplacement | hnone
      · rw [hpolicy]
        have hmembers : SameMembers (fileStoragePolicy source) (clonePolicy source destinationId)
            (mirrored wrap (.mirror count healthy member)) := by
          cases wrap <;> exact fun i _ => hplacement.members i
        exact readPolicy_congr _ (fileStoragePolicy source) (clonePolicy source destinationId) rfl rfl hmembers
      · exact absurd ⟨entries, logical, e, hcontent, hin, hlookup, hkind⟩ hnone

end Equality

section OneCopy

def oneCopy (id : ObjectId) : DataFile Unit where
  objectId := id
  portableFlags := 0x0001000000000000
  logicalSize := 4096
  content := .extents [⟨0, 9, 1, extentNormal⟩]
  checksum := update (fun _ => .error .notFound) 0 (.ok ())

def plainCodecs : Codecs Unit := ⟨fun _ => (), fun _ _ => none⟩

def sevens : Backend := .device fun _ size => .ok (List.replicate size 7)

theorem reflink_oneCopy (source destination : ObjectId) :
    reflinkFileTx (oneCopy source) destination = .ok (oneCopy destination) := by
  have hflags : ¬(0x0001000000000000 &&& ~~~knownAttrFlags ≠ 0) := by decide
  have hvalid : extentsValid [⟨0, 9, 1, extentNormal⟩] = true := by decide
  unfold reflinkFileTx oneCopy
  dsimp only
  rw [if_neg hflags, hvalid]
  rfl

theorem written_oneCopy (id : ObjectId) (entries : List Extent) (logical : Nat)
    (hcontent : (oneCopy id).content = .extents entries) (hin : logical * blockSize < (oneCopy id).logicalSize) :
    ∃ data, readLogicalBlock plainCodecs 16
      ((mirrored none sevens).readPolicy (some { fileStoragePolicy (oneCopy id) with protectionCopies := 0 })) entries
      (oneCopy id).checksum logical = .ok data := by
  obtain rfl : logical = 0 := by
    have hlt : logical * 4096 < 4096 := hin
    omega
  cases hcontent
  have hread : (mirrored none sevens).readPolicy (some { fileStoragePolicy (oneCopy id) with protectionCopies := 0 }) =
      fun _ size => .ok (List.replicate size 7) := by
    have hdomain : attrEncryptionDomain 0x0001000000000000 = 0 := by decide
    funext offset size
    unfold mirrored sevens fileStoragePolicy oneCopy
    simp only [Option.elim_none, Backend.readPolicy, Option.any_some, hdomain]
    rfl
  have hlookup : fileExtentLookup [⟨0, 9, 1, extentNormal⟩] 0 = .ok ⟨0, 9, 1, extentNormal⟩ := rfl
  have hblock : extentBlock plainCodecs 16 (fun _ size => .ok (List.replicate size 7)) ⟨0, 9, 1, extentNormal⟩ 0 =
      .ok (List.replicate blockSize 7) := by
    unfold extentBlock
    rw [if_neg (by decide), if_neg (by decide)]
  refine ⟨List.replicate blockSize 7, ?_⟩
  rw [hread]
  unfold readLogicalBlock dataBlockVerify oneCopy
  rw [hlookup]
  dsimp only
  rw [if_neg (by decide), hblock]
  dsimp only
  rw [update_self]
  exact if_neg (not_not_intro rfl)

theorem samePlacement_oneCopy : SamePlacement 2 (oneCopy (Vector.replicate 16 1)) (Vector.replicate 16 3) :=
  Or.inr (.inr (by decide +kernel))

/-- Two IDs that start on one member of a mirror of two. -/
theorem reflink_reads_equal_same_start :
    SamePlacement 2 (oneCopy (Vector.replicate 16 1)) (Vector.replicate 16 3) ∧
    ∀ healthy member, HoldsWritten none sevens (fileStoragePolicy (oneCopy (Vector.replicate 16 1))) 2 healthy member →
      ∀ offset size bytes,
        readFile plainCodecs 16 (mirrored none (.mirror 2 healthy member)) (oneCopy (Vector.replicate 16 1)) offset size =
          .ok bytes →
        readFile plainCodecs 16 (mirrored none (.mirror 2 healthy member)) (oneCopy (Vector.replicate 16 3)) offset size =
          .ok bytes :=
  ⟨samePlacement_oneCopy,
    (reflink_reads_equal_iff none sevens (Vector.replicate 16 3) (by decide)
      (reflink_oneCopy (Vector.replicate 16 1) (Vector.replicate 16 3)) (written_oneCopy (Vector.replicate 16 1))).mpr
      (.inl samePlacement_oneCopy)⟩

/-- The clone starts on the other member: once that one has failed, the source
can be read and the clone cannot. -/
theorem clone_unreadable_on_other_member :
    let source := oneCopy (Vector.replicate 16 1)
    let clone := oneCopy (#v[2, 1, 1, 1, 1, 1, 1, 1, 1, 1, 1, 1, 1, 1, 1, 1])
    let storage := mirrored none (.mirror 2 (fun _ => true)
      (survivors (mirrorPolicyStart 2 (some (fileStoragePolicy source))) sevens))
    reflinkFileTx source clone.objectId = .ok clone ∧
      HoldsWritten none sevens (fileStoragePolicy source) 2 (fun _ => true)
        (survivors (mirrorPolicyStart 2 (some (fileStoragePolicy source))) sevens) ∧
      readFile plainCodecs 16 storage source 0 1 = .ok [7] ∧
      readFile plainCodecs 16 storage clone 0 1 = .error .ioError := by
  refine ⟨reflink_oneCopy _ _, holdsWritten_survivors _ _ _ _ _, ?_, ?_⟩
  · decide +kernel
  · decide +kernel

end OneCopy

end InfiltratorFS.Reflink
