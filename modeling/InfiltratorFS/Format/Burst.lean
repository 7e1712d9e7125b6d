import Mathlib.Data.List.Induction
import InfiltratorFS.Format.Checksum

namespace InfiltratorFS

variable {c d : UInt64} {x y : List UInt8}

/-- The low byte of an entry of the table tells which entry it is. -/
theorem crc64EcmaTable_low {i j : Fin 256}
    (h : (crc64EcmaTable.get i).toBitVec <<< 56 = (crc64EcmaTable.get j).toBitVec <<< 56) : i = j := by
  -- It is linear in the index, and these are the columns of the inverse.
  have hinverse : ∀ i, [161, 241, 217, 205, 102, 146, 73, 36].zipIdx.foldl
      (fun acc e => if ((crc64EcmaTable.get i).toBitVec <<< 56).getMsbD e.2 then acc ^^^ e.1 else acc) 0 = i.val := by
    decide +kernel
  exact Fin.ext (by rw [← hinverse i, h, hinverse])

def crcIndex (c : UInt64) (byte : UInt8) : UInt8 := (c >>> 56).toUInt8 ^^^ byte

theorem crc64EcmaStep_shift {a b : UInt8} {k : Nat} (hk : k ≤ 56)
    (h : (crc64EcmaStep c a).toBitVec <<< k = (crc64EcmaStep d b).toBitVec <<< k) :
    crcIndex c a = crcIndex d b ∧ c.toBitVec <<< (8 + k) = d.toBitVec <<< (8 + k) := by
  have hstep (c : UInt64) (a : UInt8) : (crc64EcmaStep c a).toBitVec =
      (crc64EcmaTable.get (crcIndex c a).toFin).toBitVec ^^^ (c.toBitVec <<< 8) := by
    simp [crc64EcmaStep, crcIndex]
  simp only [hstep, BitVec.shiftLeft_xor_distrib, ← BitVec.shiftLeft_add] at h
  have hindex : crcIndex c a = crcIndex d b := by
    have hlow := congrArg (fun u : BitVec 64 => u <<< (56 - k)) h
    simp only [BitVec.shiftLeft_xor_distrib, ← BitVec.shiftLeft_add] at hlow
    rw [show k + (56 - k) = 56 by omega, show 8 + k + (56 - k) = 64 by omega] at hlow
    exact UInt8.toFin_inj.mp (crc64EcmaTable_low (by simpa using hlow))
  rw [hindex] at h
  exact ⟨hindex, by simpa using h⟩

theorem eq_of_foldl_shift_eq {k : Nat} (hlen : x.length = y.length) (hk : k + 8 * x.length ≤ 64)
    (h : (x.foldl crc64EcmaStep c).toBitVec <<< k = (y.foldl crc64EcmaStep c).toBitVec <<< k) : x = y := by
  induction x using List.reverseRecOn generalizing y k with
  | nil => exact (List.length_eq_zero_iff.mp hlen.symm).symm
  | append_singleton x a ih =>
    rcases List.eq_nil_or_concat y with rfl | ⟨y, b, rfl⟩
    · simp at hlen
    · simp only [List.concat_eq_append, List.length_append, List.length_singleton, List.foldl_append] at hlen hk h ⊢
      obtain ⟨hindex, hrest⟩ := crc64EcmaStep_shift (by omega : k ≤ 56) h
      obtain rfl := ih (by omega) (by omega) hrest
      rw [crcIndex, crcIndex, UInt8.xor_right_inj] at hindex
      rw [hindex]

theorem register_eq_of_foldl_eq (h : x.foldl crc64EcmaStep c = x.foldl crc64EcmaStep d) : c = d := by
  induction x generalizing c d with
  | nil => exact h
  | cons a x ih =>
    obtain ⟨hindex, hrest⟩ := crc64EcmaStep_shift (c := c) (d := d) (a := a) (b := a) (Nat.zero_le 56) (by rw [ih h])
    rw [crcIndex, crcIndex, UInt8.xor_left_inj, ← UInt8.toNat_inj] at hindex
    have hc := c.toNat_lt
    have hd := d.toNat_lt
    simp [← BitVec.toNat_inj, Nat.shiftRight_eq_div_pow, Nat.shiftLeft_eq] at hindex hrest
    exact UInt64.toNat_inj.mp (by omega)

/-- The checksum detects every burst: strings that differ, but only within
eight consecutive bytes, have different ones. -/
theorem crc64Ecma_detects_burst (before u v after : List UInt8) (hlen : u.length = v.length) (hshort : u.length ≤ 8)
    (hne : u ≠ v) : crc64Ecma (before ++ u ++ after) ≠ crc64Ecma (before ++ v ++ after) := by
  intro hcrc
  simp only [crc64Ecma, List.foldl_append] at hcrc
  exact hne (eq_of_foldl_shift_eq (k := 0) hlen (by omega) (by rw [register_eq_of_foldl_eq hcrc]))

theorem crc64Ecma_detects_swap : crc64Ecma ([1] ++ [2, 3] ++ [4]) ≠ crc64Ecma ([1] ++ [3, 2] ++ [4]) :=
  crc64Ecma_detects_burst [1] [2, 3] [3, 2] [4] rfl (by decide) (by decide)

end InfiltratorFS
