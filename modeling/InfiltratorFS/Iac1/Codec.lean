import InfiltratorFS.Library.ByteCodec
import Mathlib.Logic.Function.Basic

namespace InfiltratorFS.Iac1

open ByteCodec Scan

def version : UInt8 := 1
def headerSize : Nat := 4
def hashBits : UInt32 := 14
def matchMin : Nat := 4
def matchMax : Nat := 131
def literalMax : Nat := 127
def fillToken : UInt8 := 0x7f
def fillMin : Nat := 4
def fillMax : Nat := 65535
def windowMax : Nat := 65535

def bound (inputSize : Nat) : Nat := headerSize + inputSize + (inputSize + literalMax - 1) / literalMax

inductive Mode
  | identity
  | delta8
  | xor4
  deriving DecidableEq, Repr

def Mode.toByte : Mode → UInt8
  | .identity => 0
  | .delta8 => 1
  | .xor4 => 2

/-- Both directions of the codec refuse a mode byte above XOR4. -/
def Mode.ofByte (b : UInt8) : Option Mode :=
  if b = 0 then some .identity else if b = 1 then some .delta8 else if b = 2 then some .xor4 else none

@[simp] theorem Mode.ofByte_toByte (m : Mode) : Mode.ofByte m.toByte = some m := by
  cases m <;> rfl

/-- The two hash tables; entry 0 means empty, entry p + 1 means position p. -/
structure Scratch where
  latest : UInt32 → UInt32
  previous : UInt32 → UInt32

variable (src : List UInt8)

def byteAt (pos : Nat) : UInt8 := src.getD pos 0

def deltaByte (pos : Nat) : UInt8 :=
  if 1 ≤ pos then byteAt src pos - byteAt src (pos - 1) else byteAt src pos

def xor4Byte (pos : Nat) : UInt8 :=
  if 4 ≤ pos then byteAt src pos ^^^ byteAt src (pos - 4) else byteAt src pos

def transformByte (pos : Nat) : Mode → UInt8
  | .identity => byteAt src pos
  | .delta8 => deltaByte src pos
  | .xor4 => xor4Byte src pos

def hash4 (pos : Nat) (mode : Mode) : UInt32 :=
  let b0 := (transformByte src pos mode).toUInt32
  let b1 := (transformByte src (pos + 1) mode).toUInt32
  let b2 := (transformByte src (pos + 2) mode).toUInt32
  let b3 := (transformByte src (pos + 3) mode).toUInt32
  let value := b0 ||| (b1 <<< 8) ||| (b2 <<< 16) ||| (b3 <<< 24)
  let value := value ^^^ (value >>> 15)
  let value := value * 0x2c1b3c6d
  let value := value ^^^ (value >>> 12)
  value >>> (32 - hashBits)

def clearScratch (_ : Scratch) : Scratch := ⟨fun _ => 0, fun _ => 0⟩

/-- The stored position is truncated to 32 bits, as in the source. -/
def insertPosition (pos : Nat) (mode : Mode) (scratch : Scratch) : Scratch :=
  if src.length < pos + matchMin then scratch
  else
    let hash := hash4 src pos mode
    { latest := Function.update scratch.latest hash (UInt32.ofNat pos + 1)
      previous := Function.update scratch.previous hash (scratch.latest hash) }

def insertPositions (pos first count : Nat) (mode : Mode) (scratch : Scratch) : Scratch :=
  (List.range' first (count - first)).foldl (fun s k => insertPosition src (pos + k) mode s) scratch

def candidateMatch (pos candidate : Nat) (mode : Mode) : Nat :=
  if pos ≤ candidate ∨ windowMax < pos - candidate then 0
  else
    let limit := min (src.length - pos) matchMax
    let length := countWhile
      (fun k => transformByte src (pos + k) mode == transformByte src (candidate + k) mode) limit 0
    if matchMin ≤ length then length else 0

/-- One pass of the candidate loop of `find_match` over a hash entry; the
state is the best length so far and its candidate. -/
def tryCandidate (pos : Nat) (mode : Mode) (best : Nat × Nat) (encoded : UInt32) : Nat × Nat :=
  if encoded = 0 then best
  else
    let candidate := encoded.toNat - 1
    let length := candidateMatch src pos candidate mode
    if best.1 < length then (length, candidate) else best

/-- The best match length, 0 if none, and its distance as a 16-bit value. -/
def findMatch (pos : Nat) (mode : Mode) (scratch : Scratch) : Nat × UInt16 :=
  if src.length < pos + matchMin then (0, 0)
  else
    let hash := hash4 src pos mode
    let best := [scratch.latest hash, scratch.previous hash].foldl (tryCandidate src pos mode) (0, 0)
    if best.1 = 0 then (0, 0) else (best.1, UInt16.ofNat (pos - best.2))

def fillRun (pos : Nat) (mode : Mode) : Nat :=
  let limit := min (src.length - pos) fillMax
  let value := transformByte src pos mode
  let length := countWhile (fun k => transformByte src (pos + k) mode == value) (limit - 1) 1
  if fillMin ≤ length then length else 0

/-- The inner loop that extends a literal run until a fill or a match starts,
the run has `literalMax` bytes, or the input ends. -/
def literalScan (mode : Mode) (literalStart : Nat) : Nat → Nat → Scratch → Nat × Scratch
  | 0, pos, scratch => (pos, scratch)
  | fuel + 1, pos, scratch =>
    if pos < src.length ∧ pos - literalStart < literalMax then
      if fillRun src pos mode ≠ 0 ∨ (findMatch src pos mode scratch).1 ≠ 0 then (pos, scratch)
      else literalScan mode literalStart fuel (pos + 1) (insertPosition src pos mode scratch)
    else (pos, scratch)

def literalBytes (mode : Mode) (start length : Nat) : List UInt8 :=
  (List.range' start length).map (fun i => transformByte src i mode)

/-- One iteration of the encoder loop: the bytes of the token, the position
after it and the updated hash tables. None is the defensive `return 0` of
the literal branch. -/
def nextToken (mode : Mode) (pos : Nat) (scratch : Scratch) :
    Option (List UInt8 × Nat × Scratch) :=
  let fill := fillRun src pos mode
  if fill ≠ 0 then
    some ([fillToken, transformByte src pos mode, UInt8.ofNat (fill &&& 0xff), UInt8.ofNat (fill >>> 8)],
      pos + fill, insertPositions src pos 0 fill mode scratch)
  else
    let found := findMatch src pos mode scratch
    let scratch := insertPosition src pos mode scratch
    if found.1 ≠ 0 then
      some ([0x80 ||| UInt8.ofNat (found.1 - 4), (found.2 &&& 0xff).toUInt8, (found.2 >>> 8).toUInt8],
        pos + found.1, insertPositions src pos 1 found.1 mode scratch)
    else
      let (next, scratch) := literalScan src mode pos literalMax (pos + 1) scratch
      let literalLength := next - pos
      if literalLength = 0 ∨ src.length < pos ∨ src.length - pos < literalLength then none
      else some (UInt8.ofNat (literalLength - 1) :: literalBytes src mode pos literalLength, next, scratch)

/-- The encoder loop with its capacity check before each token. Every token
advances the position, so `src.length` iterations reach the end. -/
def encodeLoop (mode : Mode) (capacity : Nat) :
    Nat → Nat → List UInt8 → Scratch → Option (List UInt8)
  | 0, _, dst, _ => some dst
  | fuel + 1, pos, dst, scratch =>
    if pos < src.length then
      match nextToken src mode pos scratch with
      | none => none
      | some (token, next, scratch) =>
        if capacity < dst.length + token.length then none
        else encodeLoop mode capacity fuel next (dst ++ token) scratch
    else some dst

def header (mode : Mode) : List UInt8 := [version, mode.toByte, 0, 0]

/-- The bytes written to dst, or none where the source returns 0. -/
def compressModeLimit (capacity : Nat) (scratch : Scratch) (mode : UInt8)
    (outputLimit : Nat) : Option (List UInt8) :=
  let capacity := if outputLimit ≠ 0 ∧ outputLimit < capacity then outputLimit else capacity
  if src.length = 0 then none
  else match Mode.ofByte mode with
    | none => none
    | some mode =>
      if capacity < headerSize then none
      else encodeLoop src mode capacity src.length 0 (header mode) (clearScratch scratch)

def compressMode (capacity : Nat) (scratch : Scratch) (mode : UInt8) : Option (List UInt8) :=
  compressModeLimit src capacity scratch mode capacity

/-- The sampler; `seen` and `unique` count the distinct bytes sampled. -/
def shouldAttempt : Bool :=
  if src.length < 32 then false
  else
    let samples := if src.length < 512 then src.length else 512
    let stride := if src.length / samples = 0 then 1 else src.length / samples
    let positions := (List.range samples).map (· * stride)
    let unique := (positions.map (byteAt src)).eraseDups.length
    let deltaHits := positions.countP fun pos =>
      2 ≤ pos && byteAt src pos - byteAt src (pos - 1) == byteAt src (pos - 1) - byteAt src (pos - 2)
    let xorHits := positions.countP fun pos => 4 ≤ pos && byteAt src pos == byteAt src (pos - 4)
    unique ≤ 200 || samples / 24 < deltaHits || samples / 24 < xorHits

def predictorMode : Mode :=
  if src.length < 8 then .identity
  else
    let available := src.length - 2
    let samples := if available < 1024 then available else 1024
    let stride := if available / samples = 0 then 1 else available / samples
    let index := fun n => if src.length ≤ 2 + n * stride then src.length - 1 else 2 + n * stride
    let deltaHits := (List.range samples).countP fun n =>
      byteAt src (index n) - byteAt src (index n - 1) == byteAt src (index n - 1) - byteAt src (index n - 2)
    let xorHits := (List.range samples).countP fun n =>
      4 ≤ index n && byteAt src (index n) == byteAt src (index n - 4)
    if deltaHits < xorHits ∧ samples / 16 < xorHits then .xor4
    else if samples / 16 < deltaHits then .delta8
    else .identity

def compressSelected (capacity : Nat) (scratch : Scratch) (mode : UInt8)
    (usefulLimit : Nat) : Option (List UInt8) :=
  match compressModeLimit src capacity scratch mode usefulLimit with
  | some stored => some stored
  | none =>
    if mode ≠ Mode.identity.toByte then
      compressModeLimit src capacity scratch Mode.identity.toByte usefulLimit
    else none

/-- The candidate buffer is optional; `some c` is a buffer of c bytes. -/
def compress (capacity : Nat) (candidate : Option Nat) (scratch : Scratch) :
    Option (List UInt8) :=
  let best := compressMode src capacity scratch Mode.identity.toByte
  let mode := predictorMode src
  match candidate with
  | none => best
  | some candidateCapacity =>
    if mode ≠ .identity ∧ capacity ≤ candidateCapacity then
      match compressMode src candidateCapacity scratch mode.toByte, best with
      | none, best => best
      | some alternate, none => some alternate
      | some alternate, some best => if alternate.length < best.length then some alternate else some best
    else best

/-- The decoder loop; it returns the unread input and the output. -/
def decodeLoop (outputSize : Nat) : Nat → List UInt8 → List UInt8 → Option (List UInt8 × List UInt8)
  | 0, rest, out => some (rest, out)
  | _ + 1, [], out => some ([], out)
  | fuel + 1, control :: rest, out =>
    if outputSize ≤ out.length then some (control :: rest, out)
    else if control = fillToken then
      match rest with
      | value :: lo :: hi :: rest =>
        let length := lo.toNat ||| (hi.toNat <<< 8)
        if length < fillMin ∨ outputSize - out.length < length then none
        else decodeLoop outputSize fuel rest (out ++ List.replicate length value)
      | _ => none
    else if control &&& 0x80 = 0 then
      let length := control.toNat + 1
      if rest.length < length ∨ outputSize - out.length < length then none
      else decodeLoop outputSize fuel (rest.drop length) (out ++ rest.take length)
    else
      let length := (control &&& 0x7f).toNat + 4
      match rest with
      | lo :: hi :: rest =>
        let distance := lo.toNat ||| (hi.toNat <<< 8)
        if outputSize - out.length < length ∨ distance = 0 ∨ out.length < distance then none
        else decodeLoop outputSize fuel rest (copyBack 0 distance length out)
      | _ => none

def undoPredictor (out : List UInt8) : Mode → List UInt8
  | .identity => out
  | .delta8 => lagSum (· + ·) 0 1 (out.length - 1) 1 out
  | .xor4 => lagSum (· ^^^ ·) 0 4 (out.length - 4) 4 out

/-- The output bytes, or none where the source returns 0 for a refused stream. -/
def decompress (outputSize : Nat) : Option (List UInt8) :=
  match src with
  | b0 :: b1 :: b2 :: b3 :: rest =>
    if b0 ≠ version ∨ b2 ≠ 0 ∨ b3 ≠ 0 then none
    else match Mode.ofByte b1 with
      | none => none
      | some mode =>
        match decodeLoop outputSize rest.length rest [] with
        | none => none
        | some (rest, out) =>
          if rest ≠ [] ∨ out.length ≠ outputSize then none else some (undoPredictor out mode)
  | _ => none

end InfiltratorFS.Iac1
