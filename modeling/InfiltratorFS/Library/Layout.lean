import Mathlib.Logic.Equiv.Defs
import Mathlib.Algebra.Order.Group.Nat
import Mathlib.Tactic.Ring

namespace Layout

-- the indices of a vector of two or of three entries
instance neZeroTwo : NeZero 2 := ⟨Nat.succ_ne_zero 1⟩

instance neZeroThree : NeZero 3 := ⟨Nat.succ_ne_zero 2⟩

section LittleEndian

def leBytes : Nat → Nat → List UInt8
  | 0, _ => []
  | width + 1, n => UInt8.ofNat n :: leBytes width (n / 256)

def leValue : List UInt8 → Nat
  | [] => 0
  | b :: bs => b.toNat + 256 * leValue bs

@[simp] theorem length_leBytes (width n : Nat) : (leBytes width n).length = width := by
  induction width generalizing n with
  | zero => rfl
  | succ width ih => rw [leBytes, List.length_cons, ih]

theorem leValue_leBytes (width n : Nat) : leValue (leBytes width n) = n % 256 ^ width := by
  induction width generalizing n with
  | zero => rw [leBytes, leValue, pow_zero, Nat.mod_one]
  | succ width ih =>
    rw [leBytes, leValue, ih, Nat.pow_succ', Nat.mod_mul]
    rfl

theorem leValue_lt (bytes : List UInt8) : leValue bytes < 256 ^ bytes.length := by
  induction bytes with
  | nil => exact Nat.one_pos
  | cons b bs ih =>
    have hb := b.toNat_lt
    rw [leValue, List.length_cons, Nat.pow_succ']
    omega

theorem leBytes_leValue (bytes : List UInt8) : leBytes bytes.length (leValue bytes) = bytes := by
  induction bytes with
  | nil => rfl
  | cons b bs ih =>
    have hb := b.toNat_lt
    have hhead : UInt8.ofNat (b.toNat + 256 * leValue bs) = b := by
      apply UInt8.toNat_inj.mp
      rw [UInt8.toNat_ofNat', Nat.add_mul_mod_self_left]
      omega
    have htail : (b.toNat + 256 * leValue bs) / 256 = leValue bs := by omega
    rw [leValue, List.length_cons, leBytes, hhead, htail, ih]

end LittleEndian

end Layout

/-- A fixed-width byte layout of a type: every value has exactly one
representation, and every string of bytes of that width is one. -/
structure Layout (α : Type) where
  width : Nat
  put : α → List UInt8
  get : List UInt8 → α
  length_put : ∀ a, (put a).length = width
  get_put : ∀ a rest, get (put a ++ rest) = a
  put_get : ∀ bytes, width ≤ bytes.length → put (get bytes) = bytes.take width

namespace Layout

variable {α β : Type}

attribute [simp] length_put get_put

def number (width : Nat) (toNat : α → Nat) (ofNat : Nat → α) (hlt : ∀ a, toNat a < 256 ^ width)
    (hofNat : ∀ a, ofNat (toNat a) = a) (htoNat : ∀ n, n < 256 ^ width → toNat (ofNat n) = n) : Layout α where
  width := width
  put a := leBytes width (toNat a)
  get bytes := ofNat (leValue (bytes.take width))
  length_put a := length_leBytes width (toNat a)
  get_put a rest := by
    rw [List.take_left' (length_leBytes width (toNat a)), leValue_leBytes, Nat.mod_eq_of_lt (hlt a), hofNat]
  put_get bytes hlen := by
    have hwidth : (bytes.take width).length = width := by rw [List.length_take, Nat.min_eq_left hlen]
    have hvalue := leValue_lt (bytes.take width)
    rw [hwidth] at hvalue
    have hback := leBytes_leValue (bytes.take width)
    rw [hwidth] at hback
    rw [htoNat _ hvalue, hback]

def uint16 : Layout UInt16 :=
  number 2 UInt16.toNat UInt16.ofNat UInt16.toNat_lt (fun _ => UInt16.ofNat_toNat)
    (fun _ h => UInt16.toNat_ofNat_of_lt h)

def uint32 : Layout UInt32 :=
  number 4 UInt32.toNat UInt32.ofNat UInt32.toNat_lt (fun _ => UInt32.ofNat_toNat)
    (fun _ h => UInt32.toNat_ofNat_of_lt h)

def uint64 : Layout UInt64 :=
  number 8 UInt64.toNat UInt64.ofNat UInt64.toNat_lt (fun _ => UInt64.ofNat_toNat)
    (fun _ h => UInt64.toNat_ofNat_of_lt h)

def bytes (n : Nat) : Layout (Vector UInt8 n) where
  width := n
  put v := v.toList
  get bs := Vector.ofFn fun i => bs.getD i 0
  length_put v := Vector.length_toList
  get_put v rest := by
    ext i hi
    simp [List.getElem?_append]
  put_get bs hlen := by
    apply List.ext_getElem
    · rw [Vector.length_toList, List.length_take, Nat.min_eq_left hlen]
    · intro i hi hi'
      have hlt : i < bs.length := by
        rw [List.length_take] at hi'
        omega
      simp [List.getElem?_eq_getElem hlt]

def seq (f : Layout α) (g : Layout β) : Layout (α × β) where
  width := f.width + g.width
  put p := f.put p.1 ++ g.put p.2
  get bs := (f.get bs, g.get (bs.drop f.width))
  length_put p := by rw [List.length_append, f.length_put, g.length_put]
  get_put p rest := by
    rw [List.append_assoc, f.get_put, List.drop_left' (f.length_put p.1), g.get_put]
  put_get bs hlen := by
    have hrest : g.width ≤ (bs.drop f.width).length := by
      rw [List.length_drop]
      omega
    rw [f.put_get bs (by omega), g.put_get _ hrest, List.take_add]

def iso (f : Layout α) (e : β ≃ α) : Layout β where
  width := f.width
  put b := f.put (e b)
  get bs := e.symm (f.get bs)
  length_put b := f.length_put (e b)
  get_put b rest := by rw [f.get_put, Equiv.symm_apply_apply]
  put_get bs hlen := by rw [Equiv.apply_symm_apply, f.put_get bs hlen]

def three (f : Layout α) : Layout (Vector α 3) :=
  (f.seq (f.seq f)).iso
    { toFun := fun v => (v[0], v[1], v[2])
      invFun := fun p => #v[p.1, p.2.1, p.2.2]
      left_inv := by
        intro v
        ext i hi
        match i, hi with
        | 0, _ => rfl
        | 1, _ => rfl
        | 2, _ => rfl
      right_inv := fun _ => rfl }

section Arrays

variable (f : Layout α)

def putList (xs : List α) : List UInt8 := xs.flatMap f.put

def getList (n : Nat) (bs : List UInt8) : List α := (List.range n).map fun i => f.get (bs.drop (f.width * i))

variable (xs : List α)

@[simp] theorem length_putList : (f.putList xs).length = f.width * xs.length := by
  induction xs with
  | nil => rfl
  | cons x xs ih => rw [putList, List.flatMap_cons, ← putList, List.length_append, f.length_put, ih, List.length_cons,
    Nat.mul_succ, Nat.add_comm]

theorem get_putList (rest : List UInt8) {i : Nat} (h : i < xs.length) :
    f.get ((f.putList xs ++ rest).drop (f.width * i)) = xs[i] := by
  induction xs generalizing i with
  | nil => cases h
  | cons x xs ih =>
    rw [putList, List.flatMap_cons, ← putList, List.append_assoc]
    cases i with
    | zero => exact f.get_put x _
    | succ i =>
      rw [Nat.mul_succ, Nat.add_comm, ← List.drop_drop, List.drop_left' (f.length_put x)]
      exact ih (Nat.lt_of_succ_lt_succ h)

theorem getList_putList (rest : List UInt8) : f.getList xs.length (f.putList xs ++ rest) = xs := by
  apply List.ext_getElem
  · rw [getList, List.length_map, List.length_range]
  · intro i hi hi'
    rw [← f.get_putList xs rest hi']
    simp only [getList, List.getElem_map, List.getElem_range]

end Arrays

end Layout
