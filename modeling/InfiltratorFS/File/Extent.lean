import InfiltratorFS.Format.Types
import InfiltratorFS.Library.Tiling

namespace InfiltratorFS.File

def uint32Max : Nat := 2 ^ 32 - 1

section Flags

def extentNormal : UInt32 := 0

def extentHole : UInt32 := 1

def compressionNone : UInt32 := 0

def compressionLz4 : UInt32 := 1

def compressionIac1 : UInt32 := 2

def compressionClusterBlocks : Nat := 64

def extentStoredBytesMax : Nat := 0x0007ffff

def extentKind (flags : UInt32) : UInt32 := flags &&& 0x00000003

def extentCodec (flags : UInt32) : UInt32 :=
  ((flags &&& 0x0000000c) >>> 2) ||| (((flags &&& 0xff800000) >>> 23) <<< 2)

def extentStoredBytes (flags : UInt32) : Nat := ((flags &&& 0x007ffff0) >>> 4).toNat

def extentIsCompressed (flags : UInt32) : Bool :=
  extentKind flags == extentNormal && extentCodec flags != compressionNone

def ceilBlocks (bytes : Nat) : Nat := bytes / blockSize + if bytes % blockSize = 0 then 0 else 1

def extentPhysicalBlocks (logicalBlocks : Nat) (flags : UInt32) : Nat :=
  if extentKind flags = extentHole then 0
  else if extentIsCompressed flags then ceilBlocks (extentStoredBytes flags)
  else logicalBlocks

def extentFlagsValid (logicalBlocks physical : Nat) (flags : UInt32) : Bool :=
  if logicalBlocks = 0 then false
  else if extentKind flags = extentHole then flags == extentHole && physical == 0
  else if extentKind flags ≠ extentNormal ∨ physical = 0 then false
  else if extentCodec flags = compressionNone then flags == extentNormal
  else (extentCodec flags == compressionLz4 || extentCodec flags == compressionIac1) &&
    extentStoredBytes flags ≠ 0 && logicalBlocks ≤ compressionClusterBlocks &&
    extentStoredBytes flags ≤ extentStoredBytesMax && extentStoredBytes flags < logicalBlocks * blockSize

def extentCompressedFlags (codec : UInt32) (storedBytes : Nat) : UInt32 :=
  let low : UInt32 := (codec &&& 0x3) <<< 2
  let high : UInt32 := ((codec >>> 2) <<< 23) &&& 0xff800000
  let stored : UInt32 := (UInt32.ofNat storedBytes <<< 4) &&& 0x007ffff0
  extentNormal ||| low ||| high ||| stored

theorem extentKind_of_compressed {flags : UInt32} (h : extentIsCompressed flags = true) :
    extentKind flags = extentNormal := by
  rw [extentIsCompressed, Bool.and_eq_true, beq_iff_eq] at h
  exact h.1

variable (bytes : Nat)

theorem compressedFlags_and (mask : UInt32) :
    extentCompressedFlags compressionIac1 bytes &&& mask =
      ((8 : UInt32) &&& mask) ||| ((UInt32.ofNat bytes <<< 4) &&& ((0x007ffff0 : UInt32) &&& mask)) := by
  have hdistrib (x y z : UInt32) : (x ||| y) &&& z = (x &&& z) ||| (y &&& z) := by
    apply UInt32.eq_of_toBitVec_eq
    ext i hi
    simp [Bool.and_or_distrib_right]
  have hlow : ((compressionIac1 &&& 0x3) <<< 2 : UInt32) = 8 := by decide
  have hhigh : (((compressionIac1 >>> 2) <<< 23) &&& 0xff800000 : UInt32) = 0 := by decide
  rw [extentCompressedFlags, hdistrib, hdistrib, hdistrib, hlow, hhigh, UInt32.and_assoc]
  simp [extentNormal]

theorem compressedFlags_and_apart {mask : UInt32} (h : (0x007ffff0 : UInt32) &&& mask = 0) :
    extentCompressedFlags compressionIac1 bytes &&& mask = 8 &&& mask := by
  rw [compressedFlags_and, h, UInt32.and_zero, UInt32.or_zero]

theorem extentKind_compressedFlags : extentKind (extentCompressedFlags compressionIac1 bytes) = extentNormal := by
  rw [extentKind, compressedFlags_and_apart bytes (by decide)]
  decide

theorem extentCodec_compressedFlags : extentCodec (extentCompressedFlags compressionIac1 bytes) = compressionIac1 := by
  rw [extentCodec, compressedFlags_and_apart bytes (by decide), compressedFlags_and_apart bytes (by decide)]
  decide

theorem compressedFlags_compressed :
    extentIsCompressed (extentCompressedFlags compressionIac1 bytes) = true := by
  rw [extentIsCompressed, extentKind_compressedFlags, extentCodec_compressedFlags]
  decide

/-- The field holds the stored bytes modulo 2^19. -/
theorem extentStoredBytes_compressedFlags :
    extentStoredBytes (extentCompressedFlags compressionIac1 bytes) = bytes % (extentStoredBytesMax + 1) := by
  have hmask : extentCompressedFlags compressionIac1 bytes &&& (0x007ffff0 : UInt32) = (UInt32.ofNat bytes <<< 4) &&& 0x007ffff0 := by
    rw [compressedFlags_and, show (8 &&& 0x007ffff0 : UInt32) = 0 by decide, UInt32.and_self, UInt32.zero_or]
  have hshift : (UInt32.ofNat bytes <<< 4).toNat = bytes * 2 ^ 4 % 2 ^ 32 := by
    simp [UInt32.toNat_shiftLeft, Nat.shiftLeft_eq]
  have hfour : UInt32.toNat 4 % 32 = 4 := rfl
  have hfield : UInt32.toNat 0x007ffff0 >>> 4 = 2 ^ 19 - 1 := rfl
  rw [extentStoredBytes, hmask, UInt32.toNat_shiftRight, UInt32.toNat_and, hshift, hfour, Nat.shiftRight_and_distrib, hfield,
    Nat.and_two_pow_sub_one_eq_mod, Nat.shiftRight_eq_div_pow, extentStoredBytesMax]
  omega

theorem normal_not_compressed : extentIsCompressed extentNormal = false := by decide

theorem hole_not_compressed : extentIsCompressed extentHole = false := by decide

theorem ceilBlocks_le_iff {bytes blocks : Nat} : ceilBlocks bytes ≤ blocks ↔ bytes ≤ blocks * blockSize := by
  rw [ceilBlocks]
  by_cases h : bytes % blockSize = 0
  · rw [if_pos h]
    rw [blockSize] at h ⊢
    omega
  · rw [if_neg h]
    rw [blockSize] at h ⊢
    omega

theorem ceilBlocks_mono {a b : Nat} (h : a ≤ b) : ceilBlocks a ≤ ceilBlocks b :=
  ceilBlocks_le_iff.mpr (h.trans (ceilBlocks_le_iff.mp le_rfl))

end Flags

structure Extent where
  logicalBlock : Nat
  physicalBlock : Nat
  blockCount : Nat
  flags : UInt32
  deriving DecidableEq, Repr, Inhabited

namespace Extent

variable (e : Extent)

def segment : Segment := ⟨e.logicalBlock, e.blockCount⟩

def stop : Nat := e.logicalBlock + e.blockCount

def isCompressed : Bool := extentIsCompressed e.flags

def physical : Segment := ⟨e.physicalBlock, extentPhysicalBlocks e.blockCount e.flags⟩

@[simp] theorem segment_start : e.segment.start = e.logicalBlock := rfl

@[simp] theorem segment_count : e.segment.count = e.blockCount := rfl

@[simp] theorem segment_stop : e.segment.stop = e.stop := rfl

end Extent

abbrev Tiled (blocks : Nat) (es : List Extent) : Prop := Tiles Extent.segment 0 blocks es

theorem tiles_cons {lo hi : Nat} {e : Extent} {es : List Extent} (h : Tiles Extent.segment lo hi (e :: es)) :
    e.logicalBlock = lo ∧ 0 < e.blockCount ∧ Tiles Extent.segment e.stop hi es ∧ e.logicalBlock + e.blockCount = e.stop :=
  ⟨h.1, h.2.1, h.2.2, rfl⟩

theorem eq_of_overlap {blocks : Nat} {x y : Extent} {es : List Extent} (h : Tiled blocks es) (hx : x ∈ es) (hy : y ∈ es)
    (hxy : x.logicalBlock < y.stop) (hyx : y.logicalBlock < x.stop) : x = y :=
  Tiles.eq_of_overlap h hx hy hxy hyx

section Emit

def continues (last e : Extent) : Bool :=
  !e.isCompressed && last.flags == e.flags && last.stop == e.logicalBlock &&
    ((e.flags == extentHole && e.physicalBlock == 0) ||
      (e.flags == extentNormal && last.physicalBlock + last.blockCount == e.physicalBlock)) &&
    last.blockCount + e.blockCount ≤ uint32Max

def extentPush (out : List Extent) (capacity : Nat) (e : Extent) : Except Status (List Extent) :=
  if capacity ≤ out.length then .error .fileTooLarge else .ok (out ++ [e])

def extentEmitCapacity (out : List Extent) (capacity : Nat) (e : Extent) : Except Status (List Extent) :=
  if e.blockCount = 0 then .ok out
  else match out.getLast? with
    | none => extentPush out capacity e
    | some last =>
      if continues last e then .ok (out.dropLast ++ [{ last with blockCount := last.blockCount + e.blockCount }])
      else extentPush out capacity e

variable {e : Extent} {out out' : List Extent} {capacity : Nat}

theorem extentEmitCapacity_ok (hpos : 0 < e.blockCount)
    (h : extentEmitCapacity out capacity e = .ok out') :
    out' = out ++ [e] ∨ ∃ front last, out = front ++ [last] ∧ continues last e = true ∧
      out' = front ++ [{ last with blockCount := last.blockCount + e.blockCount }] := by
  rw [extentEmitCapacity, if_neg hpos.ne'] at h
  have hpush : extentPush out capacity e = .ok out' → out' = out ++ [e] := by
    intro hp
    rw [extentPush] at hp
    split at hp
    · cases hp
    · cases hp
      rfl
  rcases List.eq_nil_or_concat out with rfl | ⟨front, last, rfl⟩
  · exact .inl (hpush h)
  · rw [List.concat_eq_append] at h hpush ⊢
    rw [List.getLast?_append_of_ne_nil _ (by simp)] at h
    by_cases hc : continues last e = true
    · simp only [List.getLast?_singleton, hc, if_true, List.dropLast_concat] at h
      cases h
      exact .inr ⟨front, last, rfl, hc, rfl⟩
    · simp only [List.getLast?_singleton, hc] at h
      exact .inl (hpush h)

theorem continues_iff {last : Extent} : continues last e = true ↔
    e.isCompressed = false ∧ last.flags = e.flags ∧ last.stop = e.logicalBlock ∧
      ((e.flags = extentHole ∧ e.physicalBlock = 0) ∨
        (e.flags = extentNormal ∧ last.physicalBlock + last.blockCount = e.physicalBlock)) ∧
      last.blockCount + e.blockCount ≤ uint32Max := by
  simp only [continues, Bool.and_eq_true, Bool.or_eq_true, Bool.not_eq_true', beq_iff_eq, decide_eq_true_eq]
  tauto

theorem tiles_emit {lo : Nat} (hpos : 0 < e.blockCount)
    (h : extentEmitCapacity out capacity e = .ok out') (hout : Tiles Extent.segment lo e.logicalBlock out) :
    Tiles Extent.segment lo e.stop out' := by
  rcases extentEmitCapacity_ok hpos h with rfl | ⟨front, last, rfl, hc, rfl⟩
  · exact Tiles.concat_iff.mpr ⟨hout, hpos, rfl⟩
  · obtain ⟨hfront, hlast, hstop⟩ := Tiles.concat_iff.mp hout
    refine Tiles.concat_iff.mpr ⟨hfront, Nat.add_pos_left hlast _, ?_⟩
    simp only [Extent.segment_stop, Extent.stop] at hstop ⊢
    omega

theorem compressed_of_emit {x : Extent}
    (h : extentEmitCapacity out capacity e = .ok out') (hx : x ∈ out') (hc : x.isCompressed = true) :
    x ∈ out ∨ (x = e ∧ 0 < e.blockCount) := by
  by_cases hpos : 0 < e.blockCount
  · rcases extentEmitCapacity_ok hpos h with rfl | ⟨front, last, rfl, hcont, rfl⟩
    · rcases List.mem_append.mp hx with hx | hx
      · exact .inl hx
      · exact .inr ⟨List.mem_singleton.mp hx, hpos⟩
    · rw [List.mem_append, List.mem_singleton] at hx
      rcases hx with hx | rfl
      · exact .inl (List.mem_append_left _ hx)
      · obtain ⟨hplain, hflags, _⟩ := continues_iff.mp hcont
        have : e.isCompressed = true := by
          rw [Extent.isCompressed, ← hflags]
          exact hc
        rw [hplain] at this
        cases this
  · rw [extentEmitCapacity, if_pos (by omega)] at h
    cases h
    exact .inl hx

theorem extentEmitCapacity_zero (hzero : e.blockCount = 0)
    (h : extentEmitCapacity out capacity e = .ok out') : out' = out := by
  rw [extentEmitCapacity, if_pos hzero] at h
  cases h
  rfl

theorem extentEmitCapacity_ne (out : List Extent) (capacity : Nat) (e : Extent) :
    extentEmitCapacity out capacity e ≠ .error .notSupported := by
  have hpush : extentPush out capacity e ≠ .error .notSupported := by
    rw [extentPush]
    split <;> simp
  rw [extentEmitCapacity]
  split
  · simp
  · cases out.getLast? with
    | none => exact hpush
    | some last =>
      simp only
      split
      · simp
      · exact hpush

end Emit

end InfiltratorFS.File
