import InfiltratorFS.Directory.Names

namespace InfiltratorFS.Directory

section Validator

/-- The bytes that `infs_namespace_removable_name_valid_v1` refuses: controls
and `< > : " / \ | ? *`. -/
def forbiddenByte (c : UInt8) : Bool :=
  c < 0x20 || c == 0x7f || [60, 62, 58, 34, 47, 92, 124, 63, 42].contains c

def upperByte (c : UInt8) : UInt8 := if 97 ≤ c ∧ c ≤ 122 then c - 32 else c

def ascii (text : String) : Name := text.toList.map fun c => UInt8.ofNat c.toNat

def reserved : List Name :=
  ["CON", "PRN", "AUX", "NUL",
    "COM1", "COM2", "COM3", "COM4", "COM5", "COM6", "COM7", "COM8", "COM9",
    "LPT1", "LPT2", "LPT3", "LPT4", "LPT5", "LPT6", "LPT7", "LPT8", "LPT9"].map ascii

/-- The loop over the name. The state is the part of `base` that is filled and
`base_length`, which is 5 once the base name does not fit. -/
def scanName : Name → Name × Nat → Option (Name × Nat)
  | [], state => some state
  | c :: rest, (base, baseLength) =>
    if forbiddenByte c then none
    -- the loop ends here, and no byte after the dot is looked at
    else if c = 46 then some (base, baseLength)
    else if baseLength < 4 then scanName rest (base ++ [upperByte c], baseLength + 1)
    else scanName rest (base, 5)

def removableNameValid (name : Name) : Bool :=
  if name = [] ∨ 255 < name.length ∨ name.getLast? = some 46 ∨ name.getLast? = some 32 then false
  else match scanName name ([], 0) with
    | none => false
    | some (base, baseLength) =>
      if baseLength < 5 then !reserved.any fun r => r.length == baseLength && base.take baseLength == r
      else true

end Validator

section Grammar

def baseName (name : Name) : Name := name.takeWhile (· ≠ 46)

def extension (name : Name) : Name := name.dropWhile (· ≠ 46)

def deviceName (base : Name) : Prop := ∃ r ∈ reserved, foldName true base = foldName true r

/-- What the profile asks of a name apart from the bytes of its extension. -/
structure PlainName (name : Name) : Prop where
  nonempty : 1 ≤ name.length
  short : name.length ≤ 255
  ending : name.getLast? ≠ some 46 ∧ name.getLast? ≠ some 32
  base_allowed : ∀ c ∈ baseName name, forbiddenByte c = false
  base_free : ¬deviceName (baseName name)

/-- The removable-volume filename profile, as the format document states it. -/
structure RemovableName (name : Name) : Prop where
  nonempty : 1 ≤ name.length
  short : name.length ≤ 255
  allowed : ∀ c ∈ name, forbiddenByte c = false
  ending : name.getLast? ≠ some 46 ∧ name.getLast? ≠ some 32
  base_free : ¬deviceName (baseName name)

theorem removableName_iff (name : Name) :
    RemovableName name ↔ PlainName name ∧ ∀ c ∈ extension name, forbiddenByte c = false := by
  have hsplit : baseName name ++ extension name = name := List.takeWhile_append_dropWhile
  have hmem (c : UInt8) : c ∈ name ↔ c ∈ baseName name ∨ c ∈ extension name := by
    rw [← List.mem_append, hsplit]
  constructor
  · intro h
    refine ⟨⟨h.nonempty, h.short, h.ending, fun c hc => ?_, h.base_free⟩, fun c hc => ?_⟩
    · exact h.allowed c ((hmem c).mpr (.inl hc))
    · exact h.allowed c ((hmem c).mpr (.inr hc))
  · rintro ⟨h, hextension⟩
    refine ⟨h.nonempty, h.short, fun c hc => ?_, h.ending, h.base_free⟩
    rcases (hmem c).mp hc with hc | hc
    · exact h.base_allowed c hc
    · exact hextension c hc

end Grammar

section Scan

theorem scanName_long (name base : Name) :
    scanName name (base, 5) = if (baseName name).all (!forbiddenByte ·) then some (base, 5) else none := by
  induction name with
  | nil => rfl
  | cons c rest ih =>
    rw [scanName]
    by_cases hdot : c = 46
    · subst hdot
      rfl
    · have hbase : baseName (c :: rest) = c :: baseName rest := by simp [baseName, hdot]
      rw [hbase, List.all_cons, if_neg hdot, if_neg (show ¬5 < 4 by decide), ih]
      cases forbiddenByte c with
      | true => rfl
      | false => rfl

/-- The loop stops at the first dot: it refuses a forbidden byte of the base
name, and otherwise has the base name in upper case, as far as it fits. -/
theorem scanName_eq (name base : Name) (h : base.length ≤ 4) :
    scanName name (base, base.length) =
      if (baseName name).all (!forbiddenByte ·) then
        some ((base ++ (baseName name).map upperByte).take 4,
          if base.length + (baseName name).length ≤ 4 then base.length + (baseName name).length else 5)
      else none := by
  induction name generalizing base with
  | nil =>
    have hall : base.take 4 = base := List.take_of_length_le h
    simp [scanName, baseName, hall, h]
  | cons c rest ih =>
    rw [scanName]
    by_cases hdot : c = 46
    · subst hdot
      have hall : base.take 4 = base := List.take_of_length_le h
      simp [baseName, hall, h]
      decide
    · have hbase : baseName (c :: rest) = c :: baseName rest := by simp [baseName, hdot]
      rw [hbase, List.all_cons, if_neg hdot]
      cases hc : forbiddenByte c with
      | true => rfl
      | false =>
        rw [if_neg (by decide)]
        by_cases hfull : base.length < 4
        · have hlength : (base ++ [upperByte c]).length = base.length + 1 := by simp
          rw [if_pos hfull, ← hlength, ih _ (by omega), hlength]
          simp [Nat.add_assoc, Nat.add_comm 1]
        · have hfour : base.length = 4 := by omega
          have htake (more : Name) : (base ++ more).take 4 = base := by rw [← hfour, List.take_left]
          have hover : ¬base.length + (c :: baseName rest).length ≤ 4 := by rw [List.length_cons]; omega
          rw [if_neg hfull, scanName_long, htake, if_neg hover]
          rfl

end Scan

section Fold

theorem casefold_upper (c : UInt8) : casefoldByte (upperByte c) = casefoldByte c := by
  have hbytes : ∀ n : Fin 256, casefoldByte (upperByte (UInt8.ofNat n)) = casefoldByte (UInt8.ofNat n) := by decide +kernel
  simpa using hbytes ⟨c.toNat, c.toNat_lt⟩

theorem upper_casefold (c : UInt8) : upperByte (casefoldByte c) = upperByte c := by
  have hbytes : ∀ n : Fin 256, upperByte (casefoldByte (UInt8.ofNat n)) = upperByte (UInt8.ofNat n) := by decide +kernel
  simpa using hbytes ⟨c.toNat, c.toNat_lt⟩

theorem reserved_upper : ∀ r ∈ reserved, r.map upperByte = r := by decide +kernel

theorem reserved_short : ∀ r ∈ reserved, r.length ≤ 4 := by decide +kernel

theorem deviceName_iff (base : Name) : deviceName base ↔ base.map upperByte ∈ reserved := by
  have hfold : casefoldByte ∘ upperByte = casefoldByte := funext casefold_upper
  have hupper : upperByte ∘ casefoldByte = upperByte := funext upper_casefold
  constructor
  · rintro ⟨r, hr, heq⟩
    have hmap : (base.map casefoldByte).map upperByte = (r.map casefoldByte).map upperByte := congrArg (List.map upperByte) heq
    rw [List.map_map, List.map_map, hupper, reserved_upper r hr] at hmap
    rw [hmap]
    exact hr
  · intro hr
    refine ⟨_, hr, ?_⟩
    show base.map casefoldByte = (base.map upperByte).map casefoldByte
    rw [List.map_map, hfold]

end Fold

theorem any_reserved_iff (base : Name) (n : Nat) (hn : base.length ≤ 4 → n = base.length) (hlong : 4 < base.length → n = 5) :
    (n < 5 ∧ (reserved.any fun r => r.length == n && (base.take 4).take n == r) = true) ↔ base ∈ reserved := by
  constructor
  · rintro ⟨hlt, hany⟩
    obtain ⟨r, hr, hthis⟩ := List.any_eq_true.mp hany
    have hfits : base.length ≤ 4 := by
      by_contra hnot
      have := hlong (by omega)
      omega
    rw [Bool.and_eq_true, beq_iff_eq, beq_iff_eq, List.take_of_length_le hfits, hn hfits, List.take_length] at hthis
    rw [hthis.2]
    exact hr
  · intro hmem
    have hfits := reserved_short base hmem
    refine ⟨by rw [hn hfits]; omega, List.any_eq_true.mpr ⟨base, hmem, ?_⟩⟩
    rw [Bool.and_eq_true, beq_iff_eq, beq_iff_eq, List.take_of_length_le hfits, hn hfits, List.take_length]
    exact ⟨rfl, rfl⟩

/-- The validator accepts the names that satisfy the profile up to the first
dot and in their last byte. -/
theorem removableNameValid_iff (name : Name) : removableNameValid name = true ↔ PlainName name := by
  rw [removableNameValid]
  split
  · rename_i hshape
    constructor
    · intro h
      cases h
    · intro h
      have hnonempty := h.nonempty
      have hshort := h.short
      rcases hshape with rfl | hlong | hdot | hspace
      · simp at hnonempty
      · omega
      · exact absurd hdot h.ending.1
      · exact absurd hspace h.ending.2
  · rename_i hshape
    simp only [not_or] at hshape
    obtain ⟨hne, hshort, hdot, hspace⟩ := hshape
    have hscan := scanName_eq name [] (by decide)
    rw [List.length_nil] at hscan
    rw [hscan]
    by_cases hallowed : (baseName name).all (!forbiddenByte ·) = true
    · rw [if_pos hallowed]
      simp only [Nat.zero_add, List.nil_append]
      have hlength : ((baseName name).map upperByte).length = (baseName name).length := List.length_map ..
      have hany := any_reserved_iff ((baseName name).map upperByte)
        (if (baseName name).length ≤ 4 then (baseName name).length else 5)
        (fun h => by rw [hlength] at h ⊢; rw [if_pos h]) (fun h => by rw [hlength] at h; rw [if_neg (by omega)])
      rw [← deviceName_iff] at hany
      have hbase : ∀ c ∈ baseName name, forbiddenByte c = false := by simpa using hallowed
      have hplain : PlainName name ↔ ¬deviceName (baseName name) :=
        ⟨fun h => h.base_free, fun h => ⟨List.length_pos_iff.mpr hne, by omega, ⟨hdot, hspace⟩, hbase, h⟩⟩
      rw [hplain, ← hany]
      generalize (if (baseName name).length ≤ 4 then (baseName name).length else 5) = n
      by_cases hlt : n < 5
      · rw [if_pos hlt, Bool.not_eq_true']
        simp only [hlt, true_and, Bool.not_eq_true]
      · rw [if_neg hlt]
        simp only [hlt, false_and, not_false_eq_true]
    · rw [if_neg hallowed]
      constructor
      · intro h
        cases h
      · intro h
        exact absurd (by simpa using h.base_allowed) hallowed

/-- The validator agrees with the profile on a name exactly when no byte after
the first dot is forbidden, or the name is refused for something else. -/
theorem removableNameValid_exact_iff (name : Name) :
    (removableNameValid name = true ↔ RemovableName name) ↔
      (∀ c ∈ extension name, forbiddenByte c = false) ∨ ¬PlainName name := by
  rw [removableNameValid_iff, removableName_iff]
  tauto

/-- `a.b?c` is accepted. -/
theorem forbidden_extension_accepted :
    removableNameValid (ascii "a.b?c") = true ∧ ¬RemovableName (ascii "a.b?c") := by
  refine ⟨by decide +kernel, fun h => ?_⟩
  have hquestion := h.allowed 63 (by decide +kernel)
  exact absurd hquestion (by decide)

end InfiltratorFS.Directory
