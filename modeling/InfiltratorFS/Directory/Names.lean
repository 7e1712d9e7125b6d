import InfiltratorFS.Format.Types
import Mathlib.Data.List.Basic

namespace InfiltratorFS

section Fnv

/-- One step of the FNV-1a hash that the runtime caches and the mirror use. -/
def fnvStep (hash : UInt64) (byte : UInt8) : UInt64 := (hash ^^^ byte.toUInt64) * 1099511628211

def fnvBasis : UInt64 := 1469598103934665603

def objectCacheHash (id : ObjectId) : UInt64 := id.toList.foldl fnvStep fnvBasis

end Fnv

namespace Directory

abbrev Name := List UInt8

def nameMax : Nat := 1023

def casefoldByte (value : UInt8) : UInt8 := if 65 ≤ value ∧ value ≤ 90 then value + 32 else value

def namespaceNameEqual (casefold : Bool) (left right : Name) : Bool :=
  if left.length ≠ right.length then false
  else if !casefold then left == right
  else (left.zip right).all fun pair => casefoldByte pair.1 == casefoldByte pair.2

def namespaceNameHash (casefold : Bool) (name : Name) : UInt64 :=
  name.foldl (fun hash byte => fnvStep hash (if casefold then casefoldByte byte else byte)) fnvBasis

def foldName (casefold : Bool) (name : Name) : Name := if casefold then name.map casefoldByte else name

variable (casefold : Bool)

@[simp] theorem length_foldName (name : Name) : (foldName casefold name).length = name.length := by
  unfold foldName
  split
  · exact List.length_map ..
  · rfl

theorem all_zip_iff_map_eq (f : UInt8 → UInt8) (left right : Name) (h : left.length = right.length) :
    ((left.zip right).all fun pair => f pair.1 == f pair.2) = true ↔ left.map f = right.map f := by
  induction left generalizing right with
  | nil =>
    cases right with
    | nil => simp
    | cons b right => simp at h
  | cons a left ih =>
    cases right with
    | nil => simp at h
    | cons b right =>
      have hlength : left.length = right.length := Nat.succ.inj h
      simp only [List.zip_cons_cons, List.all_cons, List.map_cons, List.cons.injEq, Bool.and_eq_true, beq_iff_eq]
      rw [ih right hlength]

theorem namespaceNameEqual_iff (left right : Name) :
    namespaceNameEqual casefold left right = true ↔ foldName casefold left = foldName casefold right := by
  unfold namespaceNameEqual
  by_cases hlength : left.length = right.length
  · rw [if_neg (not_not_intro hlength)]
    cases casefold with
    | false => simp [foldName]
    | true => simpa [foldName] using all_zip_iff_map_eq casefoldByte left right hlength
  · rw [if_pos hlength]
    constructor
    · intro h
      cases h
    · intro h
      have := congrArg List.length h
      rw [length_foldName, length_foldName] at this
      exact absurd this hlength

theorem namespaceNameHash_eq (name : Name) :
    namespaceNameHash casefold name = (foldName casefold name).foldl fnvStep fnvBasis := by
  unfold namespaceNameHash foldName
  cases casefold with
  | false => rfl
  | true => exact (List.foldl_map ..).symm

end Directory

end InfiltratorFS
