import InfiltratorFS.Iac1.Codec
import InfiltratorFS.Library.Triple
import Mathlib.Algebra.Ring.Nat

namespace InfiltratorFS.Iac1.Decoder

open Prog ByteCodec Function

section Machine

def sizeModulus : Nat := 2 ^ 64

/-- A difference of two sizes, which wraps around below zero. -/
def sizeSub (a b : Nat) : Nat := (a + sizeModulus - b) % sizeModulus

structure Source where
  bytes : List UInt8
  fits : bytes.length < sizeModulus

/-- A use of one of the two buffers; a byte of the output that is read was
written before or not. -/
inductive Access
  | readSrc (index : Nat)
  | writeDst (index : Nat)
  | readDst (index : Nat) (written : Bool)

/-- The cursors, the bytes written by this call, and every access so far. -/
structure State where
  input : Nat
  output : Nat
  dst : Nat → Option UInt8
  accesses : List Access

inductive Stop
  | refused
  | outOfFuel
  deriving DecidableEq

abbrev DecodeM := Prog State Stop

def access (a : Access) : DecodeM Unit := modify fun s => { s with accesses := s.accesses ++ [a] }

variable (src : Source)

def readSrc (index : Nat) : DecodeM UInt8 := do
  access (.readSrc index)
  pure (src.bytes.getD index 0)

def readDst (index : Nat) : DecodeM UInt8 := do
  let s ← get
  access (.readDst index (s.dst index).isSome)
  pure ((s.dst index).getD 0)

def writeDst (index : Nat) (value : UInt8) : DecodeM Unit := do
  access (.writeDst index)
  modify fun s => { s with dst := update s.dst index (some value) }

def fetch : DecodeM UInt8 := do
  let s ← get
  let value ← readSrc src s.input
  modify fun s => { s with input := s.input + 1 }
  pure value

def fetch16 : DecodeM Nat := do
  let s ← get
  let lo ← readSrc src s.input
  let hi ← readSrc src (s.input + 1)
  modify fun s => { s with input := s.input + 2 }
  pure (lo.toNat ||| (hi.toNat <<< 8))

def put (value : UInt8) : DecodeM Unit := do
  let s ← get
  writeDst s.output value
  modify fun s => { s with output := s.output + 1 }

def fillLoop (value : UInt8) : Nat → DecodeM Unit
  | 0 => pure ()
  | n + 1 => do
      put value
      fillLoop value n

def literalLoop : Nat → DecodeM Unit
  | 0 => pure ()
  | n + 1 => do
      let value ← fetch src
      put value
      literalLoop n

def copyLoop (distance : Nat) : Nat → DecodeM Unit
  | 0 => pure ()
  | n + 1 => do
      let s ← get
      let value ← readDst (s.output - distance)
      put value
      copyLoop distance n

def decodeToken (outputSize : Nat) : DecodeM Unit := do
  let control ← fetch src
  let s ← get
  if control = fillToken then
    if sizeSub src.bytes.length s.input < 3 then fail .refused
    else do
      let value ← fetch src
      let length ← fetch16 src
      if length < fillMin ∨ sizeSub outputSize s.output < length then fail .refused else fillLoop value length
  else if control &&& 0x80 = 0 then
    if sizeSub src.bytes.length s.input < control.toNat + 1 ∨ sizeSub outputSize s.output < control.toNat + 1 then
      fail .refused
    else literalLoop src (control.toNat + 1)
  else if sizeSub src.bytes.length s.input < 2 ∨ sizeSub outputSize s.output < (control &&& 0x7f).toNat + 4 then
    fail .refused
  else do
    let distance ← fetch16 src
    if distance = 0 ∨ s.output < distance then fail .refused else copyLoop distance ((control &&& 0x7f).toNat + 4)

def decodeTokens (outputSize : Nat) : Nat → DecodeM Unit
  | 0 => do
      let s ← get
      if s.input < src.bytes.length ∧ s.output < outputSize then fail .outOfFuel else pure ()
  | fuel + 1 => do
      let s ← get
      if s.input < src.bytes.length ∧ s.output < outputSize then do
        decodeToken src outputSize
        decodeTokens outputSize fuel
      else pure ()

def undoLoop (combine : UInt8 → UInt8 → UInt8) (lag : Nat) : Nat → Nat → DecodeM Unit
  | 0, _ => pure ()
  | n + 1, i => do
      let value ← readDst i
      let before ← readDst (i - lag)
      writeDst i (combine value before)
      undoLoop combine lag n (i + 1)

def undoMode (outputSize : Nat) : Mode → DecodeM Unit
  | .identity => pure ()
  | .delta8 => undoLoop (· + ·) 1 (outputSize - 1) 1
  | .xor4 => undoLoop (· ^^^ ·) 4 (outputSize - 4) 4

/-- The header; the conditions are evaluated from left to right. -/
def readHeader : DecodeM Mode := do
  if src.bytes.length < headerSize then fail .refused
  else do
    let b0 ← readSrc src 0
    if b0 ≠ version then fail .refused
    else do
      let b2 ← readSrc src 2
      if b2 ≠ 0 then fail .refused
      else do
        let b3 ← readSrc src 3
        if b3 ≠ 0 then fail .refused
        else do
          let b1 ← readSrc src 1
          match Mode.ofByte b1 with
          | none => fail .refused
          | some mode => pure mode

/-- `infs_iac1_decompress`; the number it returns, where it does not return 0
early. -/
def decompress (outputSize : Nat) : DecodeM Nat := do
  let mode ← readHeader src
  decodeTokens src outputSize (src.bytes.length - headerSize)
  let s ← get
  if s.input ≠ src.bytes.length ∨ s.output ≠ outputSize then fail .refused
  else do
    undoMode outputSize mode
    pure s.output

def start : State := ⟨headerSize, 0, fun _ => none, []⟩

def returned : Except Stop Nat → Nat
  | .ok n => n
  | .error _ => 0

end Machine

section Holds

/-- The access stays inside its buffer and reads no byte of the output that
this call has not written. -/
def Access.Valid (inputSize outputSize : Nat) : Access → Prop
  | .readSrc index => index < inputSize
  | .writeDst index => index < outputSize
  | .readDst index written => index < outputSize ∧ written = true

/-- The cursors stand before the rest of the input and after the output, and
no access so far was out of bounds. -/
structure Holds (src : Source) (outputSize : Nat) (rest out : List UInt8) (s : State) : Prop where
  input_le : s.input ≤ src.bytes.length
  input : src.bytes.drop s.input = rest
  output : s.output = out.length
  output_le : out.length ≤ outputSize
  dst : s.dst = fun i => out[i]?
  safe : ∀ a ∈ s.accesses, a.Valid src.bytes.length outputSize

def Refused (src : Source) (outputSize : Nat) (e : Stop) (s : State) : Prop :=
  e = .refused ∧ ∀ a ∈ s.accesses, a.Valid src.bytes.length outputSize

variable {src : Source} {outputSize : Nat} {rest out : List UInt8} {α : Type}

theorem Holds.access {s : State} (h : Holds src outputSize rest out s) {a : Access}
    (ha : a.Valid src.bytes.length outputSize) :
    Holds src outputSize rest out { s with accesses := s.accesses ++ [a] } := by
  refine ⟨h.input_le, h.input, h.output, h.output_le, h.dst, fun x hx => ?_⟩
  rcases List.mem_append.mp hx with hx | hx
  · exact h.safe x hx
  · rw [List.mem_singleton.mp hx]
    exact ha

theorem total_readSrc {index : Nat} (h : index < src.bytes.length) :
    Total (Holds src outputSize rest out) (readSrc src index)
      fun v s => v = src.bytes.getD index 0 ∧ Holds src outputSize rest out s :=
  fun _ hs => ⟨_, _, rfl, rfl, hs.access h⟩

theorem total_readDst {index : Nat} (h : index < out.length) :
    Total (Holds src outputSize rest out) (readDst index)
      fun v s => v = out.getD index 0 ∧ Holds src outputSize rest out s := by
  intro s hs
  have hvalue : s.dst index = some out[index] := by
    rw [hs.dst]
    exact List.getElem?_eq_getElem h
  refine ⟨_, _, rfl, ?_, hs.access ⟨h.trans_le hs.output_le, ?_⟩⟩
  · rw [hvalue, List.getD_eq_getElem _ _ h]
    rfl
  · rw [hvalue]
    rfl

theorem Holds.next {s : State} {b : UInt8} (h : Holds src outputSize (b :: rest) out s) :
    s.input < src.bytes.length ∧ src.bytes.getD s.input 0 = b ∧
      Holds src outputSize rest out { s with input := s.input + 1 } := by
  have hlt : s.input < src.bytes.length := by
    by_contra hge
    have hnil := h.input
    rw [List.drop_eq_nil_of_le (not_lt.mp hge)] at hnil
    cases hnil
  have hsplit := h.input
  rw [List.drop_eq_getElem_cons hlt] at hsplit
  obtain ⟨hhead, htail⟩ := List.cons.inj hsplit
  refine ⟨hlt, ?_, ⟨hlt, htail, h.output, h.output_le, h.dst, h.safe⟩⟩
  rw [List.getD_eq_getElem _ _ hlt, hhead]

theorem total_fetch {b : UInt8} :
    Total (Holds src outputSize (b :: rest) out) (fetch src) fun v s => v = b ∧ Holds src outputSize rest out s := by
  intro s hs
  obtain ⟨hlt, hvalue, hnext⟩ := hs.next
  exact ⟨_, _, rfl, hvalue, hnext.access hlt⟩

theorem total_fetch16 {lo hi : UInt8} :
    Total (Holds src outputSize (lo :: hi :: rest) out) (fetch16 src)
      fun n s => n = lo.toNat ||| (hi.toNat <<< 8) ∧ Holds src outputSize rest out s := by
  intro s hs
  obtain ⟨hlt, hlo, hnext⟩ := hs.next
  obtain ⟨hlt', hhi, hlast⟩ := hnext.next
  refine ⟨_, _, rfl, ?_, (hlast.access (a := .readSrc s.input) hlt).access (a := .readSrc (s.input + 1)) hlt'⟩
  rw [hlo]
  exact congrArg (fun v : UInt8 => lo.toNat ||| (v.toNat <<< 8)) hhi

theorem total_put (v : UInt8) (hroom : out.length < outputSize) :
    Total (Holds src outputSize rest out) (put v) fun _ => Holds src outputSize rest (out ++ [v]) := by
  intro s hs
  have hvalid : (Access.writeDst s.output).Valid src.bytes.length outputSize := by
    rw [hs.output]
    exact hroom
  refine ⟨_, _, rfl, hs.input_le, hs.input, ?_, ?_, ?_, (hs.access hvalid).safe⟩
  · simp [hs.output]
  · rw [List.length_append]
    exact hroom
  · funext i
    show update s.dst s.output (some v) i = _
    rw [hs.dst, hs.output]
    by_cases hi : i = out.length
    · rw [hi, update_self, List.getElem?_concat_length]
    · rw [update_of_ne hi]
      by_cases hlt : i < out.length
      · rw [List.getElem?_append_left hlt]
      · rw [List.getElem?_eq_none (by omega), List.getElem?_eq_none (by rw [List.length_append, List.length_singleton]; omega)]

theorem total_fillLoop (v : UInt8) (n : Nat) (hroom : out.length + n ≤ outputSize) :
    Total (Holds src outputSize rest out) (fillLoop v n)
      fun _ => Holds src outputSize rest (out ++ List.replicate n v) := by
  induction n generalizing out with
  | zero => exact .pure fun s hs => by rwa [List.replicate_zero, List.append_nil]
  | succ n ih =>
    refine .bind (total_put v (by omega)) fun _ => ?_
    refine (ih (by rw [List.length_append, List.length_singleton]; omega)).post fun _ s hs => ?_
    rwa [List.append_assoc, List.singleton_append, ← List.replicate_succ] at hs

theorem total_literalLoop (n : Nat) (hroom : out.length + n ≤ outputSize) (hrest : n ≤ rest.length) :
    Total (Holds src outputSize rest out) (literalLoop src n)
      fun _ => Holds src outputSize (rest.drop n) (out ++ rest.take n) := by
  induction n generalizing rest out with
  | zero => exact .pure fun s hs => by rwa [List.take_zero, List.append_nil, List.drop_zero]
  | succ n ih =>
    cases rest with
    | nil => cases hrest
    | cons b rest =>
      refine .bind_and total_fetch fun v hv => ?_
      subst hv
      refine .bind (total_put v (by omega)) fun _ => ?_
      refine (ih (by rw [List.length_append, List.length_singleton]; omega) (Nat.le_of_succ_le_succ hrest)).post
        fun _ s hs => ?_
      rwa [List.append_assoc, List.singleton_append] at hs

theorem total_copyLoop {distance : Nat} (n : Nat) (hroom : out.length + n ≤ outputSize) (hpos : 0 < distance)
    (hdistance : distance ≤ out.length) :
    Total (Holds src outputSize rest out) (copyLoop distance n)
      fun _ => Holds src outputSize rest (copyBack 0 distance n out) := by
  induction n generalizing out with
  | zero => exact .pure fun s hs => hs
  | succ n ih =>
    intro s hs
    have hread : s.output - distance < out.length := by
      rw [hs.output]
      omega
    have hstep : Total (Holds src outputSize rest out) (do
        let value ← readDst (s.output - distance)
        put value
        copyLoop distance n) fun _ => Holds src outputSize rest (copyBack 0 distance (n + 1) out) := by
      refine .bind_and (total_readDst hread) fun v hv => ?_
      refine .bind (total_put v (by omega)) fun _ => ?_
      rw [hv, hs.output]
      exact ih (by rw [List.length_append, List.length_singleton]; omega)
        (by rw [List.length_append, List.length_singleton]; omega)
    exact hstep s hs

theorem sizeSub_eq {a b : Nat} (ha : a < sizeModulus) (hb : b ≤ a) : sizeSub a b = a - b := by
  rw [sizeModulus] at ha
  rw [sizeSub, sizeModulus]
  omega

end Holds

section Tokens

variable {src : Source} {outputSize : Nat} {rest out : List UInt8}

theorem Holds.remaining {s : State} (h : Holds src outputSize rest out s) :
    sizeSub src.bytes.length s.input = rest.length := by
  rw [sizeSub_eq src.fits h.input_le, ← h.input, List.length_drop]

theorem Holds.room {s : State} (h : Holds src outputSize rest out s) (hsize : outputSize < sizeModulus) :
    sizeSub outputSize s.output = outputSize - out.length := by
  rw [h.output, sizeSub_eq hsize h.output_le]

theorem Holds.guard_iff {s : State} (h : Holds src outputSize rest out s) :
    (s.input < src.bytes.length ∧ s.output < outputSize) ↔ rest ≠ [] ∧ out.length < outputSize := by
  rw [h.output, ← h.input, Ne, List.drop_eq_nil_iff, not_le]

/-- How the loop ends: with what the list decoder has, or refused where that
refuses. -/
def Ended (src : Source) (outputSize : Nat) (expected : Option (List UInt8 × List UInt8)) (s : State) : Prop :=
  ∃ rest out, expected = some (rest, out) ∧ Holds src outputSize rest out s

def Failed (src : Source) (outputSize : Nat) {α : Type} (expected : Option α) (e : Stop) (s : State) : Prop :=
  expected = none ∧ Refused src outputSize e s

def fillStep (outputSize : Nat) (rest out : List UInt8) : Option (List UInt8 × List UInt8) :=
  match rest with
  | value :: lo :: hi :: rest =>
    let length := lo.toNat ||| (hi.toNat <<< 8)
    if length < fillMin ∨ outputSize - out.length < length then none
    else some (rest, out ++ List.replicate length value)
  | _ => none

def literalStep (outputSize length : Nat) (rest out : List UInt8) : Option (List UInt8 × List UInt8) :=
  if rest.length < length ∨ outputSize - out.length < length then none
  else some (rest.drop length, out ++ rest.take length)

def matchStep (outputSize length : Nat) (rest out : List UInt8) : Option (List UInt8 × List UInt8) :=
  match rest with
  | lo :: hi :: rest =>
    let distance := lo.toNat ||| (hi.toNat <<< 8)
    if outputSize - out.length < length ∨ distance = 0 ∨ out.length < distance then none
    else some (rest, copyBack 0 distance length out)
  | _ => none

def decodeStep (outputSize : Nat) (control : UInt8) (rest out : List UInt8) : Option (List UInt8 × List UInt8) :=
  if control = fillToken then fillStep outputSize rest out
  else if control &&& 0x80 = 0 then literalStep outputSize (control.toNat + 1) rest out
  else matchStep outputSize ((control &&& 0x7f).toNat + 4) rest out

theorem decodeLoop_cons (fuel : Nat) (control : UInt8) (hroom : out.length < outputSize) :
    decodeLoop outputSize (fuel + 1) (control :: rest) out =
      (decodeStep outputSize control rest out).bind fun next => decodeLoop outputSize fuel next.1 next.2 := by
  match rest with
  | [] | [_] | [_, _] | _ :: _ :: _ :: _ =>
    simp only [decodeLoop, decodeStep, fillStep, literalStep, matchStep, if_neg (not_le.mpr hroom)]
    split_ifs <;> rfl

abbrev Follows (src : Source) (outputSize : Nat) (rest out : List UInt8) (x : DecodeM Unit)
    (expected : Option (List UInt8 × List UInt8)) : Prop :=
  Triple (Holds src outputSize rest out) x (fun _ => Ended src outputSize expected) (Failed src outputSize expected)

theorem follows_refuse : Follows src outputSize rest out (fail .refused) none :=
  Triple.fail fun _ hs => ⟨rfl, rfl, hs.safe⟩

theorem follows_of_total {rest' out' : List UInt8} {x : DecodeM Unit}
    (h : Total (Holds src outputSize rest out) x fun _ => Holds src outputSize rest' out') :
    Follows src outputSize rest out x (some (rest', out')) :=
  h.triple.post fun _ _ hs => ⟨_, _, rfl, hs⟩

section

variable (hsize : outputSize < sizeModulus)

include hsize

theorem fill_spec {s : State} (hs : Holds src outputSize rest out s) :
    Follows src outputSize rest out (do
      if sizeSub src.bytes.length s.input < 3 then fail .refused
      else do
        let value ← fetch src
        let length ← fetch16 src
        if length < fillMin ∨ sizeSub outputSize s.output < length then fail .refused else fillLoop value length)
      (fillStep outputSize rest out) := by
  rw [hs.remaining, hs.room hsize]
  have hle := hs.output_le
  match rest with
  | [] | [_] | [_, _] => exact follows_refuse
  | value :: lo :: hi :: rest =>
    rw [if_neg (by simp)]
    refine .bind_and total_fetch.triple fun v hv => ?_
    refine .bind_and total_fetch16.triple fun length hlength => ?_
    subst hv hlength
    rw [fillStep]
    refine .ite (fun hbad => ?_) fun hgood => ?_
    · rw [if_pos hbad]
      exact follows_refuse
    · rw [if_neg hgood]
      exact follows_of_total (total_fillLoop v _ (by omega))

theorem literal_spec (length : Nat) {s : State} (hs : Holds src outputSize rest out s) :
    Follows src outputSize rest out (do
      if sizeSub src.bytes.length s.input < length ∨ sizeSub outputSize s.output < length then fail .refused
      else literalLoop src length)
      (literalStep outputSize length rest out) := by
  rw [hs.remaining, hs.room hsize, literalStep]
  have hle := hs.output_le
  refine .ite (fun hbad => ?_) fun hgood => ?_
  · rw [if_pos hbad]
    exact follows_refuse
  · rw [if_neg hgood]
    exact follows_of_total (total_literalLoop _ (by omega) (by omega))

theorem match_spec (length : Nat) {s : State} (hs : Holds src outputSize rest out s) :
    Follows src outputSize rest out (do
      if sizeSub src.bytes.length s.input < 2 ∨ sizeSub outputSize s.output < length then fail .refused
      else do
        let distance ← fetch16 src
        if distance = 0 ∨ s.output < distance then fail .refused else copyLoop distance length)
      (matchStep outputSize length rest out) := by
  rw [hs.remaining, hs.room hsize, hs.output]
  have hle := hs.output_le
  match rest with
  | [] | [_] => exact follows_refuse
  | lo :: hi :: rest =>
    rw [matchStep]
    refine .ite (fun hbad => ?_) fun hgood => ?_
    · rw [if_pos (.inl (hbad.resolve_left (by simp)))]
      exact follows_refuse
    · refine .bind_and total_fetch16.triple fun distance hdistance => ?_
      subst hdistance
      refine .ite (fun hbad => ?_) fun hnear => ?_
      · rw [if_pos (.inr hbad)]
        exact follows_refuse
      · rw [if_neg (by omega)]
        exact follows_of_total (total_copyLoop _ (by omega) (by omega) (by omega))

theorem decodeToken_spec {control : UInt8} :
    Follows src outputSize (control :: rest) out (decodeToken src outputSize)
      (decodeStep outputSize control rest out) := by
  refine .bind_and total_fetch.triple fun c hc => ?_
  subst hc
  rw [decodeStep]
  refine .look fun s hs => .ite (fun hfill => ?_) fun hfill => .ite (fun hliteral => ?_) fun hliteral => ?_
  · rw [if_pos hfill]
    exact fill_spec hsize hs
  · rw [if_neg hfill, if_pos hliteral]
    exact literal_spec hsize _ hs
  · rw [if_neg hfill, if_neg hliteral]
    exact match_spec hsize _ hs

end

theorem decodeStep_length {control : UInt8} {next : List UInt8 × List UInt8}
    (h : decodeStep outputSize control rest out = some next) : next.1.length ≤ rest.length := by
  rw [decodeStep] at h
  split_ifs at h
  · match rest with
    | [] | [_] | [_, _] => cases h
    | value :: lo :: hi :: rest =>
      rw [fillStep] at h
      split_ifs at h
      cases h
      exact Nat.le_add_right _ 3
  · rw [literalStep] at h
    split_ifs at h
    cases h
    rw [List.length_drop]
    exact Nat.sub_le _ _
  · match rest with
    | [] | [_] => cases h
    | lo :: hi :: rest =>
      rw [matchStep] at h
      split_ifs at h
      cases h
      exact Nat.le_add_right _ 2

theorem decodeTokens_spec (hsize : outputSize < sizeModulus) (fuel : Nat) (hfuel : rest.length ≤ fuel) :
    Follows src outputSize rest out (decodeTokens src outputSize fuel) (decodeLoop outputSize fuel rest out) := by
  induction fuel generalizing rest out with
  | zero =>
    have hrest : rest = [] := List.length_eq_zero_iff.mp (Nat.le_zero.mp hfuel)
    refine .look fun s hs => ?_
    rw [if_neg (by rw [hs.guard_iff]; exact fun h => h.1 hrest)]
    exact .pure fun t ht => ⟨_, _, rfl, ht⟩
  | succ fuel ih =>
    refine .look fun s hs => .ite (fun hguard => ?_) fun hguard => ?_
    · obtain ⟨hne, hroom⟩ := hs.guard_iff.mp hguard
      match rest with
      | [] => exact absurd rfl hne
      | control :: rest =>
        rw [decodeLoop_cons fuel control hroom]
        refine .bind ((decodeToken_spec hsize).error fun e t ht => ?_) fun _ => ?_
        · exact ⟨by rw [ht.1]; rfl, ht.2⟩
        · refine .of_exists fun next => .of_exists fun out' => .of_and fun hstep => ?_
          rw [hstep]
          have hlength := decodeStep_length hstep
          exact ih (hlength.trans (Nat.le_of_succ_le_succ hfuel))
    · rw [hs.guard_iff, not_and_or, not_not, not_lt] at hguard
      refine .pure fun t ht => ⟨rest, out, ?_, ht⟩
      match rest with
      | [] => rfl
      | control :: rest => exact if_pos (hguard.resolve_left (List.cons_ne_nil _ _))

end Tokens

section Predictor

variable {src : Source} {outputSize : Nat} {rest out : List UInt8}

theorem total_writeDst {i : Nat} (v : UInt8) (hi : i < out.length) :
    Total (Holds src outputSize rest out) (writeDst i v) fun _ => Holds src outputSize rest (out.set i v) := by
  intro s hs
  have hvalid : (Access.writeDst i).Valid src.bytes.length outputSize := hi.trans_le hs.output_le
  refine ⟨_, _, rfl, hs.input_le, hs.input, ?_, ?_, ?_, (hs.access hvalid).safe⟩
  · rw [List.length_set]
    exact hs.output
  · rw [List.length_set]
    exact hs.output_le
  · funext k
    show update s.dst i (some v) k = _
    rw [hs.dst]
    by_cases hk : k = i
    · rw [hk, update_self, List.getElem?_set_self hi]
    · rw [update_of_ne hk, List.getElem?_set_ne (Ne.symm hk)]

variable (combine : UInt8 → UInt8 → UInt8)

theorem total_undoLoop (lag n i : Nat) (hn : i + n ≤ out.length) :
    Total (Holds src outputSize rest out) (undoLoop combine lag n i)
      fun _ => Holds src outputSize rest (lagSum combine 0 lag n i out) := by
  induction n generalizing i out with
  | zero => exact .pure fun s hs => hs
  | succ n ih =>
    refine .bind_and (total_readDst (show i < out.length by omega)) fun value hvalue => ?_
    refine .bind_and (total_readDst (show i - lag < out.length by omega)) fun before hbefore => ?_
    refine .bind (total_writeDst _ (show i < out.length by omega)) fun _ => ?_
    rw [hvalue, hbefore]
    exact ih (i + 1) (by rw [List.length_set]; omega)

theorem length_lagSum (lag n i : Nat) (xs : List UInt8) :
    (lagSum combine 0 lag n i xs).length = xs.length := by
  induction n generalizing i xs with
  | zero => rfl
  | succ n ih => rw [lagSum, ih, List.length_set]

theorem length_undoPredictor (xs : List UInt8) (mode : Mode) : (undoPredictor xs mode).length = xs.length := by
  cases mode with
  | identity => rfl
  | delta8 => exact length_lagSum _ _ _ _ _
  | xor4 => exact length_lagSum _ _ _ _ _

theorem total_undoMode (mode : Mode) (hout : out.length = outputSize) :
    Total (Holds src outputSize rest out) (undoMode outputSize mode)
      fun _ => Holds src outputSize rest (undoPredictor out mode) := by
  subst hout
  cases mode with
  | identity => exact .pure fun s hs => hs
  | delta8 =>
    by_cases hempty : out.length = 0
    · rw [undoMode, undoPredictor, hempty]
      exact .pure fun s hs => hs
    · exact total_undoLoop _ _ _ _ (by omega)
  | xor4 =>
    by_cases hshort : out.length ≤ 4
    · rw [undoMode, undoPredictor, Nat.sub_eq_zero_of_le hshort]
      exact .pure fun s hs => hs
    · exact total_undoLoop _ _ _ _ (by omega)

end Predictor

section Decompress

variable {outputSize : Nat}

theorem readHeader_spec (src : Source) :
    Triple (· = start) (readHeader src)
      (fun mode s => ∃ b1 rest, (src.bytes = version :: b1 :: 0 :: 0 :: rest ∧ Mode.ofByte b1 = some mode) ∧
        Holds src outputSize rest [] s)
      (Failed src outputSize (Iac1.decompress src.bytes outputSize)) := by
  obtain ⟨bytes, hfits⟩ := src
  have hshort (h : bytes.length < headerSize) (hnone : Iac1.decompress bytes outputSize = none)
      {Q : Mode → State → Prop} :
      Triple (· = start) (readHeader ⟨bytes, hfits⟩) Q (Failed ⟨bytes, hfits⟩ outputSize (Iac1.decompress bytes outputSize)) := by
    rw [readHeader, if_pos h]
    refine .fail fun s hs => ⟨hnone, rfl, fun a ha => ?_⟩
    rw [hs] at ha
    cases ha
  match bytes with
  | [] => exact hshort (Nat.succ_pos _) rfl
  | [_] => exact hshort (by simp [headerSize]) rfl
  | [_, _] => exact hshort (by simp [headerSize]) rfl
  | [_, _, _] => exact hshort (by simp [headerSize]) rfl
  | b0 :: b1 :: b2 :: b3 :: rest =>
    have hlength : 4 ≤ (b0 :: b1 :: b2 :: b3 :: rest).length := by simp
    have hstart (s : State) (hs : s = start) : Holds ⟨b0 :: b1 :: b2 :: b3 :: rest, hfits⟩ outputSize rest [] s := by
      subst hs
      exact ⟨hlength, rfl, rfl, Nat.zero_le _, rfl, fun _ h => (nomatch h)⟩
    have hrefuse {α : Type} {Q : α → State → Prop} (hnone : Iac1.decompress (b0 :: b1 :: b2 :: b3 :: rest) outputSize = none) :
        Triple (Holds ⟨b0 :: b1 :: b2 :: b3 :: rest, hfits⟩ outputSize rest []) (fail .refused) Q
          (Failed ⟨b0 :: b1 :: b2 :: b3 :: rest, hfits⟩ outputSize
            (Iac1.decompress (b0 :: b1 :: b2 :: b3 :: rest) outputSize)) :=
      Triple.fail fun _ hs => ⟨hnone, rfl, hs.safe⟩
    refine .pre (P := Holds ⟨b0 :: b1 :: b2 :: b3 :: rest, hfits⟩ outputSize rest []) ?_ hstart
    refine .ite (fun h => absurd h (not_lt.mpr hlength)) fun _ => ?_
    refine .bind_and (total_readSrc (by simp)).triple fun v hv => ?_
    rw [hv]
    refine .ite (fun h0 => hrefuse (if_pos (.inl h0))) fun h0 => ?_
    refine .bind_and (total_readSrc (by simp)).triple fun v hv => ?_
    rw [hv]
    refine .ite (fun h2 => hrefuse (if_pos (.inr (.inl h2)))) fun h2 => ?_
    refine .bind_and (total_readSrc (by simp)).triple fun v hv => ?_
    rw [hv]
    refine .ite (fun h3 => hrefuse (if_pos (.inr (.inr h3)))) fun h3 => ?_
    refine .bind_and (total_readSrc (by simp)).triple fun v hv => ?_
    rw [hv]
    obtain rfl : b0 = version := not_not.mp h0
    obtain rfl : b2 = 0 := not_not.mp h2
    obtain rfl : b3 = 0 := not_not.mp h3
    cases hmode : Mode.ofByte b1 with
    | none =>
      refine .pre ?_ fun _ hs => hs
      simp only [List.getD_cons_succ, List.getD_cons_zero, hmode]
      refine hrefuse ?_
      simp [Iac1.decompress, hmode]
    | some mode =>
      simp only [List.getD_cons_succ, List.getD_cons_zero, hmode]
      exact .pure fun s hs => ⟨b1, rest, ⟨rfl, hmode⟩, hs⟩

theorem decompress_spec (src : Source) (hsize : outputSize < sizeModulus) :
    Triple (· = start) (decompress src outputSize)
      (fun n s => n = outputSize ∧ ∃ out, (Iac1.decompress src.bytes outputSize = some out ∧ out.length = outputSize) ∧
        Holds src outputSize [] out s)
      (Failed src outputSize (Iac1.decompress src.bytes outputSize)) := by
  refine .bind (readHeader_spec src) fun mode => .of_exists fun b1 => .of_exists fun rest =>
    Triple.of_and fun hheader => ?_
  obtain ⟨hbytes, hmode⟩ := hheader
  have hfuel : src.bytes.length - headerSize = rest.length := by
    rw [hbytes]
    rfl
  have hvalue : Iac1.decompress src.bytes outputSize =
      (decodeLoop outputSize rest.length rest []).bind fun next =>
        if next.1 ≠ [] ∨ next.2.length ≠ outputSize then none else some (undoPredictor next.2 mode) := by
    rw [hbytes]
    simp only [Iac1.decompress, hmode]
    cases decodeLoop outputSize rest.length rest [] with
    | none => simp
    | some next => simp
  rw [hfuel, hvalue]
  refine .bind ((decodeTokens_spec hsize rest.length le_rfl).error fun e t ht => ?_)
    fun _ => .of_exists fun unread => .of_exists fun out => .of_and fun hloop => ?_
  · exact ⟨by rw [ht.1]; rfl, ht.2⟩
  · rw [hloop, Option.bind_some]
    refine .look fun s hs => ?_
    have hdone : (s.input ≠ src.bytes.length ∨ s.output ≠ outputSize) ↔ (unread ≠ [] ∨ out.length ≠ outputSize) := by
      have hinput : s.input ≠ src.bytes.length ↔ unread ≠ [] := by
        rw [← hs.input, Ne, Ne, List.drop_eq_nil_iff]
        have := hs.input_le
        omega
      rw [hs.output, hinput]
    refine .ite (fun hbad => ?_) fun hgood => ?_
    · rw [if_pos (hdone.mp hbad)]
      exact .fail fun _ ht => ⟨rfl, rfl, ht.safe⟩
    · rw [hdone, not_or, not_not, not_not] at hgood
      obtain ⟨hunread, hout⟩ := hgood
      subst hunread
      rw [if_neg (by simp [hout])]
      refine .bind (total_undoMode mode hout).triple fun _ => .pure fun t ht => ⟨?_, _, ⟨rfl, ?_⟩, ht⟩
      · rw [hs.output, hout]
      · rw [length_undoPredictor, hout]

/-- The decoder on any input: it ends, no access leaves its buffer or reads a
byte of the output before it is written, and a result other than 0 is the
output size, with all of the input read and all of the output written. -/
theorem decompress_robust (src : Source) (outputSize : Fin sizeModulus) :
    (decompress src outputSize start).1 ≠ .error .outOfFuel ∧
      (∀ a ∈ (decompress src outputSize start).2.accesses, a.Valid src.bytes.length outputSize) ∧
      (returned (decompress src outputSize start).1 = 0 ∨
        (returned (decompress src outputSize start).1 = outputSize ∧
          (decompress src outputSize start).2.input = src.bytes.length ∧
          (decompress src outputSize start).2.output = outputSize ∧
          ∀ i < outputSize.val, ((decompress src outputSize start).2.dst i).isSome = true)) := by
  obtain ⟨hok, herror⟩ := decompress_spec src outputSize.isLt start rfl
  rcases hrun : decompress src outputSize start with ⟨e | n, s⟩
  · obtain ⟨_, hrefused, hsafe⟩ := herror e s hrun
    refine ⟨?_, hsafe, Or.inl rfl⟩
    rw [hrefused]
    simp
  · obtain ⟨hn, out, ⟨_, hlength⟩, hs⟩ := hok n s hrun
    refine ⟨by simp, hs.safe, Or.inr ⟨hn, ?_, hs.output.trans hlength, fun i hi => ?_⟩⟩
    · exact Nat.le_antisymm hs.input_le (List.drop_eq_nil_iff.mp hs.input)
    · rw [hs.dst]
      show (out[i]?).isSome = true
      rw [List.getElem?_eq_getElem (hlength ▸ hi)]
      rfl

end Decompress

end InfiltratorFS.Iac1.Decoder
