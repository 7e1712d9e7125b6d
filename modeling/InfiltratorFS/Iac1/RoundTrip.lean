import InfiltratorFS.Iac1.Codec
import Mathlib.Tactic.Tauto

namespace InfiltratorFS.Iac1

open ByteCodec Scan

variable (src : List UInt8)

def predicted (mode : Mode) : List UInt8 :=
  (List.range src.length).map (fun i => transformByte src i mode)

@[simp] theorem length_predicted (mode : Mode) :
    (predicted src mode).length = src.length := by
  simp [predicted]

theorem getD_predicted (mode : Mode) (i : Nat) (hi : i < src.length) :
    (predicted src mode).getD i 0 = transformByte src i mode := by
  rw [List.getD_eq_getElem _ _ (by simpa using hi)]
  simp [predicted]

theorem undoPredictor_predicted (mode : Mode) :
    undoPredictor (predicted src mode) mode = src := by
  cases mode with
  | identity =>
    apply List.ext_getElem (by simp [undoPredictor])
    intro i h₁ h₂
    simp [undoPredictor, predicted, transformByte, byteAt, h₂]
  | delta8 =>
    have h := lagSum_lagDiffs (fun a b : UInt8 => a - b) (· + ·) (by simp) 0 1 (by omega) src
    rw [undoPredictor, length_predicted]
    exact h
  | xor4 =>
    have h := lagSum_lagDiffs (fun a b : UInt8 => a ^^^ b) (· ^^^ ·)
      (fun a b => by rw [UInt8.xor_assoc, UInt8.xor_self, UInt8.xor_zero]) 0 4 (by omega) src
    rw [undoPredictor, length_predicted]
    exact h

section Search

variable (src : List UInt8) (mode : Mode) {pos : Nat}

theorem fillRun_spec (h : fillRun src pos mode ≠ 0) :
    fillMin ≤ fillRun src pos mode ∧ fillRun src pos mode ≤ fillMax ∧
      pos + fillRun src pos mode ≤ src.length ∧
      ∀ k, k < fillRun src pos mode → transformByte src (pos + k) mode = transformByte src pos mode := by
  simp only [fillRun] at h ⊢
  split at h
  · rename_i hmin
    rw [if_pos hmin]
    have hle := countWhile_le (fun k => transformByte src (pos + k) mode == transformByte src pos mode)
      (min (src.length - pos) fillMax - 1) 1
    simp only [fillMin, fillMax] at hmin hle ⊢
    refine ⟨hmin, by omega, by omega, fun k hk => ?_⟩
    rcases Nat.eq_zero_or_pos k with rfl | hpos
    · rfl
    · simpa using countWhile_holds _ _ _ k hpos hk
  · exact absurd rfl h

/-- What the encoder has checked about a match before it emits one. -/
structure IsMatch (pos length candidate : Nat) : Prop where
  candidate_lt : candidate < pos
  in_window : pos - candidate ≤ windowMax
  min_le : matchMin ≤ length
  le_max : length ≤ matchMax
  in_input : pos + length ≤ src.length
  agrees : ∀ k, k < length → transformByte src (pos + k) mode = transformByte src (candidate + k) mode

theorem candidateMatch_isMatch {candidate : Nat} (h : candidateMatch src pos candidate mode ≠ 0) :
    IsMatch src mode pos (candidateMatch src pos candidate mode) candidate := by
  simp only [candidateMatch] at h ⊢
  split at h
  · exact absurd rfl h
  · rename_i hwindow
    rw [if_neg hwindow]
    split at h
    · rename_i hmin
      rw [if_pos hmin]
      have hle := countWhile_le
        (fun k => transformByte src (pos + k) mode == transformByte src (candidate + k) mode)
        (min (src.length - pos) matchMax) 0
      have hlimit : min (src.length - pos) matchMax ≤ matchMax := Nat.min_le_right _ _
      have hmin' : 4 ≤ _ := hmin
      refine ⟨by omega, by omega, hmin, by omega, by omega, fun k hk => ?_⟩
      · simpa using countWhile_holds _ _ _ k (Nat.zero_le k) hk
    · exact absurd rfl h

theorem tryCandidate_isMatch {best : Nat × Nat} (encoded : UInt32)
    (hbest : best.1 ≠ 0 → IsMatch src mode pos best.1 best.2) :
    (tryCandidate src pos mode best encoded).1 ≠ 0 →
      IsMatch src mode pos (tryCandidate src pos mode best encoded).1
        (tryCandidate src pos mode best encoded).2 := by
  intro h
  simp only [tryCandidate] at h ⊢
  split
  · rename_i he
    rw [if_pos he] at h
    exact hbest h
  · rename_i he
    rw [if_neg he] at h
    split
    · rename_i hlt
      exact candidateMatch_isMatch src mode (by omega)
    · rename_i hlt
      rw [if_neg hlt] at h
      exact hbest h

theorem foldl_tryCandidate_isMatch (pos : Nat) (entries : List UInt32) (best : Nat × Nat)
    (hbest : best.1 ≠ 0 → IsMatch src mode pos best.1 best.2) :
    (entries.foldl (tryCandidate src pos mode) best).1 ≠ 0 →
      IsMatch src mode pos (entries.foldl (tryCandidate src pos mode) best).1
        (entries.foldl (tryCandidate src pos mode) best).2 := by
  induction entries generalizing best with
  | nil => exact hbest
  | cons entry entries ih => exact ih _ (tryCandidate_isMatch src mode entry hbest)

theorem findMatch_spec {scratch : Scratch} (h : (findMatch src pos mode scratch).1 ≠ 0) :
    ∃ candidate, IsMatch src mode pos (findMatch src pos mode scratch).1 candidate ∧
      (findMatch src pos mode scratch).2 = UInt16.ofNat (pos - candidate) := by
  have hfold := foldl_tryCandidate_isMatch src mode pos
    [scratch.latest (hash4 src pos mode), scratch.previous (hash4 src pos mode)] (0, 0)
    (fun h0 : (0 : Nat) ≠ 0 => absurd rfl h0)
  simp only [findMatch] at h ⊢
  generalize List.foldl (tryCandidate src pos mode) (0, 0)
    [scratch.latest (hash4 src pos mode), scratch.previous (hash4 src pos mode)] = best at h hfold ⊢
  split at h
  · exact absurd rfl h
  · rename_i hroom
    rw [if_neg hroom]
    by_cases hbest : best.1 = 0
    · rw [if_pos hbest] at h
      exact absurd rfl h
    · rw [if_neg hbest]
      exact ⟨best.2, hfold hbest, rfl⟩

theorem literalScan_spec (literalStart fuel pos : Nat) (scratch : Scratch) (hpos : pos ≤ src.length)
    (hlen : pos - literalStart ≤ literalMax) :
    pos ≤ (literalScan src mode literalStart fuel pos scratch).1 ∧
      (literalScan src mode literalStart fuel pos scratch).1 ≤ src.length ∧
      (literalScan src mode literalStart fuel pos scratch).1 - literalStart ≤ literalMax := by
  induction fuel generalizing pos scratch with
  | zero => exact ⟨le_rfl, hpos, hlen⟩
  | succ fuel ih =>
    simp only [literalScan]
    split
    · rename_i hroom
      split
      · exact ⟨le_rfl, hpos, hlen⟩
      · obtain ⟨h₁, h₂, h₃⟩ := ih (pos + 1) (insertPosition src pos mode scratch) (by omega) (by omega)
        exact ⟨by omega, h₂, h₃⟩
    · exact ⟨le_rfl, hpos, hlen⟩

end Search

section Tokens

theorem join_bytes (lo hi : Nat) (h : lo < 256) : lo ||| (hi <<< 8) = hi * 256 + lo := by
  rw [Nat.or_comm, ← Nat.shiftLeft_add_eq_or_of_lt (by omega), Nat.shiftLeft_eq]

theorem join_split (n : Nat) (h : n < 65536) :
    (UInt8.ofNat (n &&& 0xff)).toNat ||| ((UInt8.ofNat (n >>> 8)).toNat <<< 8) = n := by
  have hlo : n &&& 0xff = n % 256 := Nat.and_two_pow_sub_one_eq_mod n 8
  rw [join_bytes _ _ (UInt8.toNat_lt _), hlo, Nat.shiftRight_eq_div_pow, UInt8.toNat_ofNat', UInt8.toNat_ofNat']
  omega

theorem join_split_distance (n : Nat) (h : n < 65536) :
    (UInt16.ofNat n &&& 0xff).toUInt8.toNat ||| ((UInt16.ofNat n >>> 8).toUInt8.toNat <<< 8) = n := by
  have hlo : n % 65536 &&& 0xff = n % 65536 % 256 := Nat.and_two_pow_sub_one_eq_mod _ 8
  rw [join_bytes _ _ (UInt8.toNat_lt _)]
  simp only [UInt16.toNat_toUInt8, UInt16.toNat_and, UInt16.toNat_shiftRight, UInt16.toNat_ofNat',
    UInt16.toNat_ofNat, Nat.reducePow, Nat.reduceMod, Nat.shiftRight_eq_div_pow]
  omega

theorem match_control : ∀ n, n < 128 → (0x80 ||| UInt8.ofNat n) ≠ fillToken ∧
    (0x80 ||| UInt8.ofNat n) &&& 0x80 ≠ 0 ∧ ((0x80 ||| UInt8.ofNat n) &&& 0x7f).toNat = n := by
  decide

theorem literal_control : ∀ n, n < 127 → UInt8.ofNat n ≠ fillToken ∧
    UInt8.ofNat n &&& 0x80 = 0 ∧ (UInt8.ofNat n).toNat = n := by
  decide

section Step

variable (src : List UInt8) (mode : Mode) {pos : Nat} (scratch : Scratch)

theorem literalBytes_eq (start length : Nat) (h : start + length ≤ src.length) :
    (predicted src mode).take start ++ literalBytes src mode start length =
      (predicted src mode).take (start + length) := by
  apply List.ext_getElem
  · simp [literalBytes]; omega
  · intro i h₁ h₂
    simp only [List.getElem_append, List.length_take, length_predicted]
    split
    · simp [predicted]
    · simp only [literalBytes, predicted, List.getElem_map, List.getElem_range', List.getElem_take,
        List.getElem_range]
      congr 1
      omega

/-- A token decodes from one prefix of the predicted input to a longer one. -/
def Decodes (token : List UInt8) (pos next : Nat) : Prop :=
  0 < token.length ∧ pos < next ∧ next ≤ src.length ∧ ∀ fuel rest,
    decodeLoop src.length (fuel + 1) (token ++ rest) ((predicted src mode).take pos) =
      decodeLoop src.length fuel rest ((predicted src mode).take next)

theorem length_take_predicted (pos : Nat) (hpos : pos ≤ src.length) : ((predicted src mode).take pos).length = pos := by
  rw [List.length_take, length_predicted]; omega

theorem fill_decodes (hfill : fillRun src pos mode ≠ 0) :
    Decodes src mode [fillToken, transformByte src pos mode, UInt8.ofNat (fillRun src pos mode &&& 0xff),
      UInt8.ofNat (fillRun src pos mode >>> 8)] pos (pos + fillRun src pos mode) := by
  obtain ⟨hmin, hmax, hin, hsame⟩ := fillRun_spec src mode hfill
  generalize fillRun src pos mode = n at hfill hmin hmax hin hsame ⊢
  simp only [fillMin, fillMax] at hmin hmax
  refine ⟨by simp, by omega, hin, fun fuel rest => ?_⟩
  have hjoin := join_split n (by omega)
  have hlen := length_take_predicted src mode pos (by omega)
  simp only [List.cons_append, List.nil_append, decodeLoop, hlen, if_neg (show ¬src.length ≤ pos by omega),
    if_true, hjoin, fillMin, if_neg (show ¬(n < 4 ∨ src.length - pos < n) by omega)]
  rw [take_append_replicate 0 _ _ _ _ (by simpa using hin)]
  intro k hk
  rw [getD_predicted src mode _ (by omega), hsame k hk]

theorem match_decodes (hmatch : (findMatch src pos mode scratch).1 ≠ 0) :
    Decodes src mode [0x80 ||| UInt8.ofNat ((findMatch src pos mode scratch).1 - 4),
      ((findMatch src pos mode scratch).2 &&& 0xff).toUInt8,
      ((findMatch src pos mode scratch).2 >>> 8).toUInt8] pos (pos + (findMatch src pos mode scratch).1) := by
  obtain ⟨candidate, h, hdistance⟩ := findMatch_spec src mode hmatch
  obtain ⟨hlt, hwindow, hmin, hmax, hin, hagree⟩ := h
  rw [hdistance]
  generalize (findMatch src pos mode scratch).1 = n at *
  simp only [windowMax, matchMin, matchMax] at hwindow hmin hmax
  refine ⟨by simp, by omega, hin, fun fuel rest => ?_⟩
  obtain ⟨hfill, hbit, hlow⟩ := match_control (n - 4) (by omega)
  have hjoin := join_split_distance (pos - candidate) (by omega)
  have hlen := length_take_predicted src mode pos (by omega)
  simp only [List.cons_append, List.nil_append, decodeLoop, hlen, if_neg (show ¬src.length ≤ pos by omega),
    if_neg hfill, if_neg hbit, hlow, Nat.sub_add_cancel hmin, hjoin,
    if_neg (show ¬(src.length - pos < n ∨ pos - candidate = 0 ∨ pos < pos - candidate) by omega)]
  rw [copyBack_take 0 _ _ _ _ (by omega) (by omega) (by simpa using hin)]
  intro k hk
  rw [getD_predicted src mode _ (by omega), getD_predicted src mode _ (by omega), hagree k hk]
  congr 1
  omega

theorem literal_decodes (pos length : Nat) (hpos : 0 < length) (hmax : length ≤ literalMax)
    (hin : pos + length ≤ src.length) :
    Decodes src mode (UInt8.ofNat (length - 1) :: literalBytes src mode pos length) pos (pos + length) := by
  simp only [literalMax] at hmax
  refine ⟨by simp, by omega, hin, fun fuel rest => ?_⟩
  obtain ⟨hfill, hbit, hval⟩ := literal_control (length - 1) (by omega)
  have hlen := length_take_predicted src mode pos (by omega)
  have hbytes : (literalBytes src mode pos length).length = length := by simp [literalBytes]
  have hroom : ¬((literalBytes src mode pos length ++ rest).length < length ∨ src.length - pos < length) := by
    rw [List.length_append, hbytes]; omega
  simp only [List.cons_append, decodeLoop, hlen, if_neg (show ¬src.length ≤ pos by omega), if_neg hfill,
    hbit, if_true, hval, Nat.sub_add_cancel hpos, if_neg hroom]
  rw [List.drop_left' hbytes, List.take_left' hbytes, literalBytes_eq src mode pos length hin]

/-- Whatever the hash tables hold, the encoder finds a token for the rest of
the input and the decoder reads it back. -/
theorem nextToken_decodes (hpos : pos < src.length) :
    ∃ token next scratch', nextToken src mode pos scratch = some (token, next, scratch') ∧
      Decodes src mode token pos next := by
  unfold nextToken
  by_cases hfill : fillRun src pos mode = 0
  · by_cases hmatch : (findMatch src pos mode scratch).1 = 0
    · obtain ⟨h₁, h₂, h₃⟩ := literalScan_spec src mode pos literalMax (pos + 1)
        (insertPosition src pos mode scratch) hpos (by simp only [literalMax]; omega)
      simp only [hfill, hmatch, ne_eq, not_true_eq_false, if_false]
      generalize literalScan src mode pos literalMax (pos + 1) (insertPosition src pos mode scratch) = scan at *
      obtain ⟨next, scratch'⟩ := scan
      simp only at h₁ h₂ h₃ ⊢
      rw [if_neg (by omega)]
      refine ⟨_, _, _, rfl, ?_⟩
      have h := literal_decodes src mode pos (next - pos) (by omega) h₃ (by omega)
      rwa [show pos + (next - pos) = next by omega] at h
    · simp only [hfill, ne_eq, not_true_eq_false, if_false, hmatch, not_false_eq_true, if_true]
      exact ⟨_, _, _, rfl, match_decodes src mode scratch hmatch⟩
  · simp only [ne_eq, hfill, not_false_eq_true, if_true]
    exact ⟨_, _, _, rfl, fill_decodes src mode hfill⟩

end Step

end Tokens

section Stream

variable (src : List UInt8) (mode : Mode)

def streamBody : Nat → Nat → Scratch → List UInt8
  | 0, _, _ => []
  | fuel + 1, pos, scratch =>
    if pos < src.length then
      match nextToken src mode pos scratch with
      | none => []
      | some (token, next, scratch) => token ++ streamBody fuel next scratch
    else []

def stream : List UInt8 := header mode ++ streamBody src mode src.length 0 ⟨fun _ => 0, fun _ => 0⟩

theorem encodeLoop_eq (capacity fuel pos : Nat) (dst : List UInt8) (scratch : Scratch)
    (hdst : dst.length ≤ capacity) :
    encodeLoop src mode capacity fuel pos dst scratch =
      if dst.length + (streamBody src mode fuel pos scratch).length ≤ capacity then
        some (dst ++ streamBody src mode fuel pos scratch) else none := by
  induction fuel generalizing pos dst scratch with
  | zero => simp [encodeLoop, streamBody, hdst]
  | succ fuel ih =>
    rw [encodeLoop, streamBody]
    by_cases hpos : pos < src.length
    · obtain ⟨token, next, scratch', hnext, -⟩ := nextToken_decodes src mode scratch hpos
      simp only [if_pos hpos, hnext, List.length_append]
      by_cases hroom : capacity < dst.length + token.length
      · rw [if_pos hroom, if_neg (by omega)]
      · rw [if_neg hroom, ih next (dst ++ token) scratch' (by rw [List.length_append]; omega),
          List.length_append, List.append_assoc, Nat.add_assoc]
    · simp [if_neg hpos, hdst]

theorem decodeLoop_nil (outputSize fuel : Nat) (out : List UInt8) :
    decodeLoop outputSize fuel [] out = some ([], out) := by
  cases fuel <;> rfl

/-- The run lemma: the decoder turns the rest of the stream into the rest of
the predicted input. The fuel of the encoder always suffices because each
token advances the position. -/
theorem streamBody_decodes (fuel pos : Nat) (scratch : Scratch) (hpos : pos ≤ src.length)
    (hfuel : src.length ≤ pos + fuel) (steps : Nat)
    (hsteps : (streamBody src mode fuel pos scratch).length ≤ steps) :
    decodeLoop src.length steps (streamBody src mode fuel pos scratch) ((predicted src mode).take pos) =
      some ([], predicted src mode) := by
  induction fuel generalizing pos scratch steps with
  | zero =>
    rw [streamBody, decodeLoop_nil, List.take_of_length_le (by rw [length_predicted]; omega)]
  | succ fuel ih =>
    rw [streamBody] at hsteps ⊢
    by_cases hlt : pos < src.length
    · obtain ⟨token, next, scratch', hnext, hlen, hadv, hin, hdecode⟩ := nextToken_decodes src mode scratch hlt
      simp only [if_pos hlt, hnext, List.length_append] at hsteps ⊢
      obtain ⟨steps, rfl⟩ : ∃ n, steps = n + 1 := ⟨steps - 1, by omega⟩
      rw [hdecode]
      exact ih next scratch' hin (by omega) steps (by omega)
    · rw [if_neg hlt, decodeLoop_nil, List.take_of_length_le (by rw [length_predicted]; omega)]

theorem decompress_stream : decompress (stream src mode) src.length = some src := by
  have h := streamBody_decodes src mode src.length 0 ⟨fun _ => 0, fun _ => 0⟩ (Nat.zero_le _) (by omega) _ le_rfl
  rw [List.take_zero] at h
  simp only [stream, header, List.cons_append, List.nil_append, decompress, Mode.ofByte_toByte, h]
  simp [undoPredictor_predicted]

theorem headerSize_le_stream : headerSize ≤ (stream src mode).length := by
  simp [stream, header, headerSize]

theorem compressModeLimit_eq (hsrc : src ≠ []) (capacity : Nat) (scratch : Scratch) (outputLimit : Nat) :
    compressModeLimit src capacity scratch mode.toByte outputLimit =
      if (stream src mode).length ≤ (if outputLimit ≠ 0 ∧ outputLimit < capacity then outputLimit else capacity) then
        some (stream src mode) else none := by
  have hlen : src.length ≠ 0 := fun h => hsrc (List.length_eq_zero_iff.mp h)
  have hheader := headerSize_le_stream src mode
  simp only [compressModeLimit, if_neg hlen, Mode.ofByte_toByte]
  generalize (if outputLimit ≠ 0 ∧ outputLimit < capacity then outputLimit else capacity) = room
  by_cases hroom : room < headerSize
  · rw [if_pos hroom, if_neg (by omega)]
  · rw [if_neg hroom, encodeLoop_eq src mode room _ _ _ _ (by simp only [headerSize] at hroom; simp [header]; omega)]
    rw [stream, List.length_append]
    rfl

theorem compressMode_eq (hsrc : src ≠ []) (capacity : Nat) (scratch : Scratch) :
    compressMode src capacity scratch mode.toByte =
      if (stream src mode).length ≤ capacity then some (stream src mode) else none := by
  rw [compressMode, compressModeLimit_eq src mode hsrc, if_neg (show ¬(capacity ≠ 0 ∧ capacity < capacity) by omega)]

end Stream

section Bound

variable (src : List UInt8) (mode : Mode)

/-- A fill or a match starts here. -/
def Repeats (pos : Nat) (scratch : Scratch) : Prop := fillRun src pos mode ≠ 0 ∨ (findMatch src pos mode scratch).1 ≠ 0

theorem literalScan_stops (literalStart fuel pos : Nat) (scratch : Scratch) (hstart : literalStart ≤ pos)
    (hfuel : literalMax ≤ pos - literalStart + fuel) :
    src.length ≤ (literalScan src mode literalStart fuel pos scratch).1 ∨
      literalMax ≤ (literalScan src mode literalStart fuel pos scratch).1 - literalStart ∨
      Repeats src mode (literalScan src mode literalStart fuel pos scratch).1
        (literalScan src mode literalStart fuel pos scratch).2 := by
  induction fuel generalizing pos scratch with
  | zero => exact .inr (.inl hfuel)
  | succ fuel ih =>
    simp only [literalScan]
    split_ifs with hroom hrepeats
    · exact .inr (.inr hrepeats)
    · exact ih (pos + 1) _ (by omega) (by omega)
    · rw [not_and_or, Nat.not_lt, Nat.not_lt] at hroom
      exact hroom.imp_right .inl

/-- A repeat costs no more than it covers. A literal costs one byte more, but
it ends at a repeat unless it is of full length or the last. -/
theorem nextToken_cost {pos next : Nat} {token : List UInt8} {scratch scratch' : Scratch}
    (h : nextToken src mode pos scratch = some (token, next, scratch')) :
    Repeats src mode pos scratch ∧ token.length ≤ 4 ∧ pos + 4 ≤ next ∨
    ¬Repeats src mode pos scratch ∧ token.length = next - pos + 1 ∧
      (src.length ≤ next ∨ literalMax ≤ next - pos ∨ Repeats src mode next scratch') := by
  simp only [nextToken] at h
  split_ifs at h with hfill hmatch hempty
  · cases h
    exact .inl ⟨.inl hfill, le_rfl, Nat.add_le_add_left (fillRun_spec src mode hfill).1 pos⟩
  · obtain ⟨candidate, hcandidate, -⟩ := findMatch_spec src mode hmatch
    cases h
    exact .inl ⟨.inr hmatch, Nat.le_succ 3, Nat.add_le_add_left hcandidate.min_le pos⟩
  · have hstops := literalScan_stops src mode pos literalMax (pos + 1) (insertPosition src pos mode scratch) (Nat.le_succ pos)
      (Nat.le_add_left _ _)
    cases h
    refine .inr ⟨not_or.mpr ⟨hfill, hmatch⟩, ?_, hstops⟩
    rw [List.length_cons, literalBytes, List.length_map, List.length_range']

/-- The worst case alternates literals of one byte with fills of four. -/
theorem length_streamBody (fuel pos : Nat) (scratch : Scratch) :
    (streamBody src mode fuel pos scratch).length ≤ src.length - pos + (src.length - pos + 4) / 5 ∧
      (Repeats src mode pos scratch → (streamBody src mode fuel pos scratch).length ≤ src.length - pos + (src.length - pos) / 5) := by
  induction fuel generalizing pos scratch with
  | zero => exact ⟨Nat.zero_le _, fun _ => Nat.zero_le _⟩
  | succ fuel ih =>
    rw [streamBody]
    split_ifs with hpos
    · obtain ⟨token, next, scratch', hnext, -, hlt, hin, -⟩ := nextToken_decodes src mode scratch hpos
      obtain ⟨hall, hrepeats⟩ := ih next scratch'
      simp only [hnext, List.length_append]
      rcases nextToken_cost src mode hnext with ⟨-, hcost, hlong⟩ | ⟨hnone, hcost, hstops⟩
      · exact ⟨by omega, fun _ => by omega⟩
      · refine ⟨?_, fun h => absurd h hnone⟩
        rcases hstops with hend | hfull | hnext
        · omega
        · rw [literalMax] at hfull
          omega
        · have := hrepeats hnext
          omega
    · exact ⟨Nat.zero_le _, fun _ => Nat.zero_le _⟩

theorem length_stream_le : (stream src mode).length ≤ headerSize + src.length + (src.length + 4) / 5 := by
  have hbody := (length_streamBody src mode src.length 0 ⟨fun _ => 0, fun _ => 0⟩).1
  rw [stream, List.length_append]
  exact (Nat.add_le_add_left hbody _).trans_eq (Nat.add_assoc ..).symm

theorem Repeats.room {pos : Nat} {scratch : Scratch} (h : Repeats src mode pos scratch) : pos + 4 ≤ src.length := by
  rcases h with hfill | hmatch
  · have hspec := fillRun_spec src mode hfill
    exact (Nat.add_le_add_left hspec.1 pos).trans hspec.2.2.1
  · obtain ⟨candidate, hcandidate, -⟩ := findMatch_spec src mode hmatch
    exact (Nat.add_le_add_left hcandidate.min_le pos).trans hcandidate.in_input

section Short

variable {src mode} {pos n : Nat} {scratch : Scratch}

theorem fillRun_eq (hmin : fillMin ≤ n) (hmax : n ≤ fillMax) (hin : pos + n ≤ src.length)
    (hequal : ∀ k < n, transformByte src (pos + k) mode = transformByte src pos mode)
    (hends : pos + n = src.length ∨ transformByte src (pos + n) mode ≠ transformByte src pos mode) :
    fillRun src pos mode = n := by
  simp only [fillRun]
  set p := fun k => transformByte src (pos + k) mode == transformByte src pos mode with hp
  have hpos : 1 ≤ n := (by decide : 1 ≤ fillMin).trans hmin
  have hle := countWhile_le p (min (src.length - pos) fillMax - 1) 1
  have hcount : countWhile p (min (src.length - pos) fillMax - 1) 1 = n := by
    rcases Nat.lt_trichotomy (countWhile p (min (src.length - pos) fillMax - 1) 1) n with hshort | hcount | hlong
    · have hstops := countWhile_stops p (min (src.length - pos) fillMax - 1) 1 (by omega)
      rw [hp, beq_eq_false_iff_ne] at hstops
      exact absurd (hequal _ hshort) hstops
    · exact hcount
    · exact absurd (eq_of_beq (countWhile_holds p _ 1 n hpos hlong)) (hends.resolve_left (by omega))
  rw [hcount, if_pos hmin]

/-- A byte before a fill is a literal of its own. -/
theorem nextToken_single (hstill : ¬Repeats src mode pos scratch) (hnext : fillRun src (pos + 1) mode ≠ 0) :
    ∃ scratch', nextToken src mode pos scratch = some ([0, transformByte src pos mode], pos + 1, scratch') := by
  obtain ⟨hfill, hmatch⟩ := not_or.mp hstill
  obtain ⟨hmin, -, hin, -⟩ := fillRun_spec src mode hnext
  rw [fillMin] at hmin
  have hroom : pos + 1 < src.length ∧ pos + 1 - pos < literalMax := by
    rw [literalMax]
    omega
  have hscan (scratch : Scratch) : literalScan src mode pos literalMax (pos + 1) scratch = (pos + 1, scratch) := by
    rw [literalMax, literalScan, if_pos hroom, if_pos (.inl hnext)]
  simp only [nextToken, if_neg hfill, if_neg hmatch, hscan, Nat.add_sub_cancel_left]
  rw [if_neg (by omega)]
  exact ⟨_, rfl⟩

theorem nextToken_fill (scratch : Scratch) (hfill : fillRun src pos mode = n) (hn : n ≠ 0) :
    ∃ scratch', nextToken src mode pos scratch = some ([fillToken, transformByte src pos mode, UInt8.ofNat (n &&& 0xff),
      UInt8.ofNat (n >>> 8)], pos + n, scratch') := by
  simp only [nextToken, hfill, if_pos hn]
  exact ⟨_, rfl⟩

theorem byteAt_replicate (n : Nat) (c : UInt8) : byteAt (List.replicate n c) = fun i => if i < n then c else 0 := by
  funext i
  by_cases hi : i < n <;> simp [byteAt, hi]

/-- The differences of equal bytes are one byte and a fill. -/
theorem stream_replicate {c : UInt8} (hc : c ≠ 0) (hmin : 5 ≤ n) (hmax : n ≤ 65536) : stream (List.replicate n c) .delta8 =
    header .delta8 ++ [0, c, fillToken, 0, UInt8.ofNat ((n - 1) &&& 0xff), UInt8.ofNat ((n - 1) >>> 8)] := by
  have hlength : (List.replicate n c).length = n := List.length_replicate
  have hbyte (i : Nat) (hi : i < n) : transformByte (List.replicate n c) i .delta8 = if i = 0 then c else 0 := by
    rw [transformByte, deltaByte, byteAt_replicate]
    rcases Nat.eq_zero_or_pos i with rfl | hpos
    · simp [hi]
    · simp [hi, hpos.ne', (by omega : i - 1 < n)]
  have hrest : fillRun (List.replicate n c) 1 .delta8 = n - 1 := by
    refine fillRun_eq (by rw [fillMin]; omega) (by rw [fillMax]; omega) (by omega) (fun k hk => ?_) (by omega)
    rw [hbyte _ (by omega), hbyte _ (by omega), if_neg (by omega), if_neg (by decide)]
  have hstill : ¬Repeats (List.replicate n c) .delta8 0 ⟨fun _ => 0, fun _ => 0⟩ := by
    rintro (hfill | hmatch)
    · obtain ⟨hfour, -, -, hequal⟩ := fillRun_spec _ _ hfill
      have h := hequal 1 (lt_of_lt_of_le (by decide) hfour)
      rw [hbyte _ (by omega), hbyte _ (by omega)] at h
      exact hc h.symm
    · simp [findMatch, tryCandidate] at hmatch
  obtain ⟨scratch, hsingle⟩ := nextToken_single hstill (by rw [hrest]; omega)
  obtain ⟨scratch', hfill⟩ := nextToken_fill scratch hrest (by omega)
  rw [hbyte _ (by omega), if_pos rfl] at hsingle
  rw [hbyte _ (by omega), if_neg (by decide)] at hfill
  have hbody (fuel : Nat) (hfuel : 3 ≤ fuel) : streamBody (List.replicate n c) .delta8 fuel 0 ⟨fun _ => 0, fun _ => 0⟩ =
      [0, c, fillToken, 0, UInt8.ofNat ((n - 1) &&& 0xff), UInt8.ofNat ((n - 1) >>> 8)] := by
    obtain ⟨fuel, rfl⟩ : ∃ m, fuel = m + 3 := ⟨fuel - 3, by omega⟩
    rw [streamBody, if_pos (by omega), hsingle]
    dsimp only
    rw [streamBody, if_pos (by omega), hfill]
    dsimp only
    rw [streamBody, if_neg (by omega)]
    rfl
  rw [stream, hlength, hbody n (by omega)]

end Short

section Worst

/-- Groups of one byte and four equal ones. Within the window of a match no two
groups are the same. -/
def worstByte (i : Nat) : Nat := if i % 5 = 0 then 128 + i / 5 % 128 else i / 640 % 128

def worstInput (n : Nat) : List UInt8 := (List.range n).map fun i => UInt8.ofNat (worstByte i)

variable {n i j k : Nat}

theorem length_worstInput (n : Nat) : (worstInput n).length = n := by rw [worstInput, List.length_map, List.length_range]

theorem byteAt_worstInput (hi : i < n) (hj : j < n) :
    transformByte (worstInput n) i .identity = transformByte (worstInput n) j .identity ↔ worstByte i = worstByte j := by
  have hlt (i : Nat) : worstByte i < 256 := by
    rw [worstByte]
    split <;> omega
  have hbyte {i : Nat} (hi : i < n) : transformByte (worstInput n) i .identity = UInt8.ofNat (worstByte i) := by
    simp [transformByte, byteAt, worstInput, hi]
  rw [hbyte hi, hbyte hj, ← UInt8.toNat_inj, UInt8.toNat_ofNat_of_lt' (hlt i), UInt8.toNat_ofNat_of_lt' (hlt j)]

theorem not_repeats_worstInput (hi : i % 5 = 0) (scratch : Scratch) : ¬Repeats (worstInput n) .identity i scratch := by
  rintro (hfill | hmatch)
  · obtain ⟨hmin, -, hin, hequal⟩ := fillRun_spec _ _ hfill
    rw [length_worstInput] at hin
    rw [fillMin] at hmin
    have h := (byteAt_worstInput (by omega) (by omega)).mp (hequal 1 (by omega))
    rw [worstByte, worstByte, if_neg (by omega), if_pos hi] at h
    omega
  · obtain ⟨candidate, hcandidate, -⟩ := findMatch_spec _ _ hmatch
    obtain ⟨hlt, hwindow, hmin, -, hin, hagrees⟩ := hcandidate
    rw [length_worstInput] at hin
    rw [matchMin] at hmin
    rw [windowMax] at hwindow
    have h0 := (byteAt_worstInput (by omega) (by omega)).mp (hagrees 0 (by omega))
    have h1 := (byteAt_worstInput (by omega) (by omega)).mp (hagrees 1 (by omega))
    rw [worstByte, worstByte] at h0 h1
    split_ifs at h0 h1 <;> omega

theorem fillRun_worstInput (hi : i % 5 = 1) (hin : i + 4 ≤ n) : fillRun (worstInput n) i .identity = 4 := by
  have hequal (k : Nat) (hk : k < 4) :
      transformByte (worstInput n) (i + k) .identity = transformByte (worstInput n) i .identity := by
    rw [byteAt_worstInput (by omega) (by omega), worstByte, worstByte, if_neg (by omega), if_neg (by omega)]
    omega
  refine fillRun_eq le_rfl (by decide) (by rwa [length_worstInput]) hequal ?_
  rw [length_worstInput]
  by_cases hend : i + 4 = n
  · exact .inl hend
  · refine .inr fun hnext => ?_
    rw [byteAt_worstInput (by omega) (by omega), worstByte, worstByte, if_pos (by omega), if_neg (by omega)] at hnext
    omega

variable (scratch : Scratch)

theorem length_worst_body {r : Nat} (hr : r < 5) (m fuel : Nat) (hn : 5 * k + 5 * m + r = n) (hfuel : n ≤ 5 * k + fuel) :
    6 * m + r + (r + 4) / 5 ≤ (streamBody (worstInput n) .identity fuel (5 * k) scratch).length := by
  induction m generalizing k fuel scratch with
  | zero =>
    rcases Nat.eq_zero_or_pos r with rfl | hpos
    · exact Nat.zero_le _
    · obtain ⟨fuel, rfl⟩ : ∃ f, fuel = f + 1 := ⟨fuel - 1, by omega⟩
      have hlt : 5 * k < (worstInput n).length := by
        rw [length_worstInput]
        omega
      obtain ⟨token, next, scratch', hnext, -, hafter, -⟩ := nextToken_decodes (worstInput n) .identity scratch hlt
      rw [streamBody, if_pos hlt, hnext]
      rcases nextToken_cost _ _ hnext with ⟨hrepeats, -⟩ | ⟨-, hcost, hstops⟩
      · exact absurd hrepeats (not_repeats_worstInput (by omega) scratch)
      · have hend : n ≤ next := by
          rcases hstops with hend | hfull | hrepeats
          · rwa [length_worstInput] at hend
          · rw [literalMax] at hfull
            omega
          · have hroom := hrepeats.room
            rw [length_worstInput] at hroom
            omega
        simp only [List.length_append]
        omega
  | succ m ih =>
    obtain ⟨fuel, rfl⟩ : ∃ f, fuel = f + 2 := ⟨fuel - 2, by omega⟩
    have hfour := fillRun_worstInput (n := n) (by omega : (5 * k + 1) % 5 = 1) (by omega)
    obtain ⟨scratch₁, hliteral⟩ := nextToken_single (not_repeats_worstInput (by omega) scratch) (hfour.trans_ne (by decide))
    obtain ⟨scratch₂, hfill : nextToken _ _ _ _ = some (_, 5 * k + 5, _)⟩ := nextToken_fill scratch₁ hfour (by decide)
    have hrest := ih (k := k + 1) scratch₂ fuel (by omega) (by omega)
    rw [Nat.mul_succ] at hrest
    have hlt (i : Nat) (hi : i < n) : i < (worstInput n).length := by rwa [length_worstInput]
    rw [streamBody, if_pos (hlt _ (by omega)), hliteral]
    dsimp only
    rw [streamBody, if_pos (hlt _ (by omega)), hfill]
    simp only [List.length_append, List.length_cons, List.length_nil]
    omega

theorem length_worst_stream (n : Nat) : (stream (worstInput n) .identity).length = headerSize + n + (n + 4) / 5 := by
  have hle := length_stream_le (worstInput n) .identity
  have hge := length_worst_body (n := n) (k := 0) ⟨fun _ => 0, fun _ => 0⟩ (Nat.mod_lt n (by decide : 0 < 5)) (n / 5) n (by omega)
    (by omega)
  rw [Nat.mul_zero] at hge
  rw [length_worstInput] at hle
  refine Nat.le_antisymm hle ?_
  rw [stream, List.length_append, length_worstInput]
  change _ ≤ headerSize + _
  omega

end Worst

/-- A buffer of `infs_iac1_bound` bytes suffices for all inputs of a length
exactly if they have at most five bytes. A fifth of the input on top of the
header and the input always suffices, and no less does. -/
theorem compressMode_fits_iff {n : Nat} (hn : 0 < n) :
    ((∀ src : List UInt8, src.length = n → ∀ mode scratch capacity, bound n ≤ capacity →
      ∃ stored, compressMode src capacity scratch (Mode.toByte mode) = some stored ∧ 0 < stored.length ∧
        stored.length ≤ bound n) ↔ n ≤ 5) ∧
    ∀ room, (∀ src : List UInt8, src.length = n → ∀ mode scratch,
      (compressMode src room scratch (Mode.toByte mode)).isSome = true) ↔ headerSize + n + (n + 4) / 5 ≤ room := by
  have hne {src : List UInt8} (hsrc : src.length = n) : src ≠ [] := List.length_pos_iff.mp (hsrc ▸ hn)
  have hworst := compressMode_eq (worstInput n) .identity (hne (length_worstInput n))
  refine ⟨⟨fun h => ?_, fun hsmall src hsrc mode scratch capacity hcapacity => ?_⟩, fun room => ⟨fun h => ?_, ?_⟩⟩
  · obtain ⟨stored, hstored, -, hle⟩ := h _ (length_worstInput n) .identity ⟨fun _ => 0, fun _ => 0⟩ _ le_rfl
    rw [hworst] at hstored
    split_ifs at hstored with hfits
    rw [length_worst_stream, bound, literalMax] at hfits
    omega
  · have hle := length_stream_le src mode
    have hfits : (stream src mode).length ≤ bound n := by
      rw [bound, literalMax]
      omega
    rw [compressMode_eq src mode (hne hsrc)]
    exact ⟨_, if_pos (hfits.trans hcapacity), lt_of_lt_of_le (by decide) (headerSize_le_stream src mode), hfits⟩
  · have hfits := h _ (length_worstInput n) .identity ⟨fun _ => 0, fun _ => 0⟩
    rw [hworst] at hfits
    split_ifs at hfits with hroom
    · rwa [length_worst_stream] at hroom
    · cases hfits
  · intro hroom src hsrc mode scratch
    rw [compressMode_eq src mode (hne hsrc), if_pos ((length_stream_le src mode).trans (hsrc ▸ hroom))]
    rfl

theorem compressMode_fits_five_bytes :
    ∃ stored, compressMode [7, 1, 1, 1, 1] (bound 5) ⟨fun _ => 0, fun _ => 0⟩ Mode.xor4.toByte = some stored ∧
      0 < stored.length ∧ stored.length ≤ bound 5 :=
  (compressMode_fits_iff (by decide : 0 < 5)).1.mpr le_rfl [7, 1, 1, 1, 1] rfl .xor4 _ _ le_rfl

/-- A fill between two literals: 12 bytes, where the bound is 11. -/
theorem bound_exceeded : bound 6 = 11 ∧ compressMode [0, 1, 1, 1, 1, 2] 11 ⟨fun _ => 0, fun _ => 0⟩ Mode.identity.toByte = none ∧
    (stream [0, 1, 1, 1, 1, 2] .identity).length = 12 := by
  decide

end Bound

section Main

variable (src : List UInt8)

/-- What a caller relies on: a stored stream is within its capacity and limit
(0 stands for no limit), and its bytes alone, wherever they lie in a buffer,
decode to the input. -/
def RoundTrips (capacity limit : Nat) (result : Option (List UInt8)) : Prop :=
  ∀ stored, result = some stored → 0 < stored.length →
    stored.length ≤ capacity ∧ (limit ≠ 0 → stored.length ≤ limit) ∧
      ∀ dst, stored <+: dst → decompress (dst.take stored.length) src.length = some src

theorem roundTrips_stream (mode : Mode) (capacity limit : Nat) (hcap : (stream src mode).length ≤ capacity)
    (hlimit : limit ≠ 0 → (stream src mode).length ≤ limit) :
    RoundTrips src capacity limit (some (stream src mode)) := by
  rintro _ ⟨⟩ -
  refine ⟨hcap, hlimit, fun dst hdst => ?_⟩
  rw [← List.prefix_iff_eq_take.mp hdst]
  exact decompress_stream src mode

theorem roundTrips_none (capacity limit : Nat) : RoundTrips src capacity limit none := by
  rintro _ ⟨⟩

variable (capacity : Nat)

theorem compressModeLimit_roundTrips (scratch : Scratch) (mode : UInt8) (limit : Nat) :
    RoundTrips src capacity limit (compressModeLimit src capacity scratch mode limit) := by
  by_cases hsrc : src = []
  · subst hsrc
    exact roundTrips_none _ _ _
  · cases hmode : Mode.ofByte mode with
    | none =>
      simp only [compressModeLimit, hmode, ite_self]
      exact roundTrips_none _ _ _
    | some m =>
      have hbyte : mode = m.toByte := by
        unfold Mode.ofByte at hmode
        split_ifs at hmode with h₀ h₁ h₂ <;> cases hmode <;> assumption
      rw [hbyte, compressModeLimit_eq src m hsrc]
      split_ifs with hlim hfits hfits
      · exact roundTrips_stream src m _ _ (by omega) (fun _ => hfits)
      · exact roundTrips_none _ _ _
      · exact roundTrips_stream src m _ _ hfits (fun h => by omega)
      · exact roundTrips_none _ _ _

theorem compressSelected_roundTrips (scratch : Scratch) (mode : UInt8) (limit : Nat) :
    RoundTrips src capacity limit (compressSelected src capacity scratch mode limit) := by
  have hmode := compressModeLimit_roundTrips src capacity scratch mode limit
  unfold compressSelected
  cases hstored : compressModeLimit src capacity scratch mode limit with
  | some stored => rwa [hstored] at hmode
  | none =>
    by_cases hid : mode ≠ Mode.identity.toByte
    · simp only [if_pos hid]
      exact compressModeLimit_roundTrips src capacity scratch _ limit
    · simp only [if_neg hid]
      exact roundTrips_none _ _ _

/-- The predictor's stream may be tried in a candidate buffer larger than the
destination. It must then not be the only stream that was found. -/
def CandidateFits (capacity : Nat) (candidate : Option Nat) : Prop :=
  ∀ candidateCapacity, candidate = some candidateCapacity → predictorMode src ≠ .identity →
    capacity < (stream src .identity).length →
    (stream src (predictorMode src)).length ≤ capacity ∨
      candidateCapacity < (stream src (predictorMode src)).length

theorem compress_eq_none_of_nil (candidate : Option Nat) (scratch : Scratch) :
    compress [] capacity candidate scratch = none := by
  cases candidate <;> rfl

theorem compress_of_candidate (hsrc : src ≠ []) (capacity c : Nat) (scratch : Scratch)
    (hmode : predictorMode src ≠ .identity) (hc : capacity ≤ c) :
    compress src capacity (some c) scratch =
      if (stream src (predictorMode src)).length ≤ c ∧
          (capacity < (stream src .identity).length ∨
            (stream src (predictorMode src)).length < (stream src .identity).length) then
        some (stream src (predictorMode src))
      else if (stream src .identity).length ≤ capacity then some (stream src .identity) else none := by
  simp only [compress, compressMode_eq src _ hsrc, if_pos (And.intro hmode hc)]
  by_cases halt : (stream src (predictorMode src)).length ≤ c
  · by_cases hid : (stream src .identity).length ≤ capacity
    · simp only [if_pos hid, halt, true_and, or_iff_right (Nat.not_lt.mpr hid), if_true]
    · simp only [if_neg hid, halt, true_and, Nat.lt_of_not_le hid, true_or, if_true]
  · simp only [halt, false_and, if_false]

/-- The encoders with one output buffer always round-trip. The two-buffer
encoder does exactly when the candidate stream it copies back also fits. -/
theorem encoders_roundTrip_iff (capacity : Nat) (candidate : Option Nat) (scratch : Scratch) :
    ((∀ capacity scratch mode limit,
        RoundTrips src capacity limit (compressModeLimit src capacity scratch mode limit)) ∧
      (∀ capacity scratch mode limit,
        RoundTrips src capacity limit (compressSelected src capacity scratch mode limit)) ∧
      RoundTrips src capacity 0 (compress src capacity candidate scratch)) ↔
    CandidateFits src capacity candidate := by
  constructor
  · rintro ⟨-, -, h⟩ c rfl hmode hid
    by_contra hcon
    rw [not_or, Nat.not_le, Nat.not_lt] at hcon
    have hsrc : src ≠ [] := by
      rintro rfl
      exact hmode rfl
    rw [compress_of_candidate src hsrc capacity c scratch hmode (by omega),
      if_pos ⟨hcon.2, Or.inl hid⟩] at h
    have hheader := headerSize_le_stream src (predictorMode src)
    simp only [headerSize] at hheader
    have := (h _ rfl (by omega)).1
    omega
  · intro h
    refine ⟨compressModeLimit_roundTrips src, compressSelected_roundTrips src, ?_⟩
    by_cases hsrc : src = []
    · subst hsrc
      rw [compress_eq_none_of_nil]
      exact roundTrips_none _ _ _
    · by_cases htried : ∃ c, candidate = some c ∧ predictorMode src ≠ .identity ∧ capacity ≤ c
      · obtain ⟨c, rfl, hmode, hc⟩ := htried
        rw [compress_of_candidate src hsrc capacity c scratch hmode hc]
        split_ifs with hcopy hid
        · refine roundTrips_stream src _ _ _ ?_ (fun h0 => absurd rfl h0)
          rcases Nat.lt_or_ge capacity (stream src .identity).length with hid | hid
          · exact (h c rfl hmode hid).resolve_right (Nat.not_lt.mpr hcopy.1)
          · omega
        · exact roundTrips_stream src _ _ _ hid (fun h0 => absurd rfl h0)
        · exact roundTrips_none _ _ _
      · have hbest : compress src capacity candidate scratch =
            compressMode src capacity scratch Mode.identity.toByte := by
          cases candidate with
          | none => rfl
          | some c =>
            simp only [compress]
            rw [if_neg (fun hboth => htried ⟨c, rfl, hboth⟩)]
        rw [hbest, compressMode_eq src _ hsrc]
        split_ifs with hid
        · exact roundTrips_stream src _ _ _ hid (fun h0 => absurd rfl h0)
        · exact roundTrips_none _ _ _

/-- Eight zero bytes, a destination of seven bytes and a candidate buffer of
eight: the DELTA8 stream of eight bytes is copied over the destination. -/
theorem compress_exceeds_capacity :
    compress (List.replicate 8 0) 7 (some 8) ⟨fun _ => 0, fun _ => 0⟩ =
        some [version, 1, 0, 0, fillToken, 0, 8, 0] ∧
      ¬RoundTrips (List.replicate 8 0) 7 0
        (compress (List.replicate 8 0) 7 (some 8) ⟨fun _ => 0, fun _ => 0⟩) := by
  have h : compress (List.replicate 8 0) 7 (some 8) ⟨fun _ => 0, fun _ => 0⟩ =
      some [version, 1, 0, 0, fillToken, 0, 8, 0] := by decide
  refine ⟨h, fun hround => ?_⟩
  have := (hround _ h (by decide)).1
  simp at this

end Main

end InfiltratorFS.Iac1
