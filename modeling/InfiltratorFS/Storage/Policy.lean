import InfiltratorFS.Directory.Names

namespace InfiltratorFS.Storage

abbrev Bytes := List UInt8

structure IoPolicy where
  objectId : ObjectId
  protectionCopies : UInt8
  encryptionDomain : UInt8
  deriving DecidableEq

section Mirror

def mirrorPolicyCopies (count : Nat) (policy : Option IoPolicy) : Nat :=
  let copies := policy.elim 0 fun p => p.protectionCopies.toNat
  if copies = 0 then count else copies

/-- The member at which the copies of an object start, by the hash of its ID. -/
def mirrorPolicyStart (count : Nat) (policy : Option IoPolicy) : Nat :=
  policy.elim 0 fun p => if count = 0 then 0 else (objectCacheHash p.objectId).toNat % count

def mirrorPolicyMember (count : Nat) (policy : Option IoPolicy) (member : Nat) : Bool :=
  let copies := mirrorPolicyCopies count policy
  let start := mirrorPolicyStart count policy
  copies == count || decide ((if start ≤ member then member - start else count - start + member) < copies)

def verifyCapacity (size : Nat) : Nat := min size 65536

/-- Compare the copy at hand with a further member, chunk by chunk. A device
error ends the comparison without a word. -/
def crossCheck (read : Nat → Nat → Except Status Bytes) (copy : Bytes) (offset size : Nat) :
    Nat → Nat → Except Status Unit
  | 0, _ => .ok ()
  | fuel + 1, checked =>
    if size ≤ checked then .ok ()
    else
      let chunk := min (size - checked) (verifyCapacity size)
      match read (offset + checked) chunk with
      | .error .ioError => .ok ()
      | .error status => .error status
      | .ok bytes =>
        if (copy.drop checked).take chunk ≠ bytes then .error .corrupt
        else crossCheck read copy offset size fuel (checked + chunk)

/-- The loop of a mirrored read: the first member that answers supplies the
bytes, the others confirm them, and only device errors fail over. -/
def mirrorScan (read : Nat → Nat → Nat → Except Status Bytes) (uses : Nat → Bool) (offset size : Nat) :
    List Nat → Option Bytes → Except Status Bytes
  | [], none => .error .ioError
  | [], some copy => .ok copy
  | i :: rest, copy =>
    if !uses i then mirrorScan read uses offset size rest copy
    else
      match copy with
      | none =>
        match read i offset size with
        | .ok bytes => mirrorScan read uses offset size rest (some bytes)
        | .error .ioError => mirrorScan read uses offset size rest none
        | .error status => .error status
      | some bytes =>
        match crossCheck (read i) bytes offset size size 0 with
        | .ok _ => mirrorScan read uses offset size rest (some bytes)
        | .error status => .error status

end Mirror

section Encryption

/-- The geometry of an encrypted volume and its authenticated decryption of
one record, which gets the domain and the number of the block. -/
structure Cipher where
  logicalBlocks : Nat
  logicalSize : Nat
  decrypt : UInt8 → Nat → Bytes → Except Status Bytes

def recordBytes : Nat := 4096 + 12 + 16

def encryptedReadBlock (cipher : Cipher) (backing : Nat → Nat → Except Status Bytes) (domain : UInt8) (logical : Nat) :
    Except Status Bytes :=
  if cipher.logicalBlocks ≤ logical ∨ (2 ^ 64 - 1 - 4096) / recordBytes < logical then .error .ioError
  else
    match backing (4096 + logical * recordBytes) recordBytes with
    | .error status => .error status
    | .ok record => cipher.decrypt domain logical record

def encryptedReadLoop (readBlock : Nat → Except Status Bytes) (offset size : Nat) : Nat → Bytes → Except Status Bytes
  | 0, buffer => .ok buffer
  | fuel + 1, buffer =>
    if size ≤ buffer.length then .ok buffer
    else
      let position := offset + buffer.length
      let chunk := min (4096 - position % 4096) (size - buffer.length)
      match readBlock (position / 4096) with
      | .error status => .error status
      | .ok block => encryptedReadLoop readBlock offset size fuel (buffer ++ (block.drop (position % 4096)).take chunk)

def encryptedRead (cipher : Cipher) (backing : Nat → Nat → Except Status Bytes) (domain : UInt8) (offset size : Nat) :
    Except Status Bytes :=
  if cipher.logicalSize < offset ∨ cipher.logicalSize - offset < size then .error .ioError
  else encryptedReadLoop (encryptedReadBlock cipher backing domain) offset size size []

end Encryption

section Stack

inductive Backend
  | device (read : Nat → Nat → Except Status Bytes)
  | encrypted (cipher : Cipher) (backing : Backend)
  | mirror (count : Nat) (healthy : Nat → Bool) (member : Nat → Backend)

/-- `infs_storage_read_policy`. The encryption passes the policy on without
its domain, the mirror without its copies. -/
def Backend.readPolicy : Backend → Option IoPolicy → Nat → Nat → Except Status Bytes
  | .device read, policy, offset, size =>
    if policy.any fun p => p.protectionCopies != 0 || p.encryptionDomain != 0 then .error .notSupported
    else read offset size
  | .encrypted cipher backing, policy, offset, size =>
    encryptedRead cipher (backing.readPolicy (policy.map fun p => { p with encryptionDomain := 0 }))
      (policy.elim 0 (·.encryptionDomain)) offset size
  | .mirror count healthy member, policy, offset, size =>
    if policy.any fun p => decide (count < p.protectionCopies.toNat) then .error .notSupported
    else
      mirrorScan (fun i => (member i).readPolicy (policy.map fun p => { p with protectionCopies := 0 }))
        (fun i => mirrorPolicyMember count policy i && healthy i) offset size (List.range count) none

end Stack

section Placement

variable {p q : IoPolicy} {count : Nat}

theorem mirrorPolicyCopies_some (count : Nat) (p : IoPolicy) :
    mirrorPolicyCopies count (some p) = if p.protectionCopies.toNat = 0 then count else p.protectionCopies.toNat := rfl

theorem mirrorPolicyMember_all (h : mirrorPolicyCopies count (some p) = count) (i : Nat) :
    mirrorPolicyMember count (some p) i = true := by
  unfold mirrorPolicyMember
  dsimp only
  rw [h, beq_self_eq_true, Bool.true_or]

theorem mirrorPolicyStart_lt (hcount : 0 < count) (policy : Option IoPolicy) : mirrorPolicyStart count policy < count := by
  cases policy with
  | none => exact hcount
  | some p =>
    have hne : count ≠ 0 := Nat.pos_iff_ne_zero.mp hcount
    change (if count = 0 then 0 else _) < count
    rw [if_neg hne]
    exact Nat.mod_lt _ hcount

theorem mirrorPolicyMember_iff (h : mirrorPolicyCopies count (some p) ≠ count) (i : Nat) :
    mirrorPolicyMember count (some p) i = true ↔
      (if mirrorPolicyStart count (some p) ≤ i then i - mirrorPolicyStart count (some p)
        else count - mirrorPolicyStart count (some p) + i) < mirrorPolicyCopies count (some p) := by
  unfold mirrorPolicyMember
  dsimp only
  rw [beq_eq_false_iff_ne.mpr h, Bool.false_or, decide_eq_true_iff]

theorem mirrorPolicyMember_congr (hcopies : p.protectionCopies = q.protectionCopies)
    (hstart : mirrorPolicyStart count (some p) = mirrorPolicyStart count (some q)) (i : Nat) :
    mirrorPolicyMember count (some p) i = mirrorPolicyMember count (some q) i := by
  unfold mirrorPolicyMember
  rw [mirrorPolicyCopies_some, mirrorPolicyCopies_some, hcopies, hstart]

/-- Fewer copies than members that start elsewhere leave out a member that
holds the data. -/
theorem exists_member_left_out (hcopies : p.protectionCopies = q.protectionCopies) (hpos : 0 < p.protectionCopies.toNat)
    (hlt : p.protectionCopies.toNat < count)
    (hstart : mirrorPolicyStart count (some p) ≠ mirrorPolicyStart count (some q)) :
    ∃ i < count, mirrorPolicyMember count (some p) i = true ∧ mirrorPolicyMember count (some q) i = false := by
  have hcount : 0 < count := Nat.lt_trans hpos hlt
  have hp : mirrorPolicyCopies count (some p) = p.protectionCopies.toNat := by
    rw [mirrorPolicyCopies_some, if_neg (Nat.pos_iff_ne_zero.mp hpos)]
  have hq : mirrorPolicyCopies count (some q) = p.protectionCopies.toNat := by
    rw [mirrorPolicyCopies_some, ← hcopies, if_neg (Nat.pos_iff_ne_zero.mp hpos)]
  have hps := mirrorPolicyStart_lt hcount (some p)
  have hqs := mirrorPolicyStart_lt hcount (some q)
  have hin : ∀ i, mirrorPolicyMember count (some p) i = true ↔ _ := mirrorPolicyMember_iff (by rw [hp]; exact Nat.ne_of_lt hlt)
  have hout : ∀ i, mirrorPolicyMember count (some q) i = true ↔ _ := mirrorPolicyMember_iff (by rw [hq]; exact Nat.ne_of_lt hlt)
  -- Either the first copy is outside of the other placement, or the member
  -- right after that placement holds a copy.
  by_cases hfirst : mirrorPolicyMember count (some q) (mirrorPolicyStart count (some p)) = true
  · have hnext : ∃ next, next = mirrorPolicyStart count (some q) + p.protectionCopies.toNat ∧ next < count ∨
        next + count = mirrorPolicyStart count (some q) + p.protectionCopies.toNat := by
      by_cases hwrap : mirrorPolicyStart count (some q) + p.protectionCopies.toNat < count
      · exact ⟨_, .inl ⟨rfl, hwrap⟩⟩
      · exact ⟨_, .inr (Nat.sub_add_cancel (Nat.le_of_not_lt hwrap))⟩
    obtain ⟨next, hnext⟩ := hnext
    refine ⟨next, by omega, ?_, ?_⟩
    · rw [hin, hp]
      rw [hout, hq] at hfirst
      split at hfirst <;> split <;> omega
    · rw [Bool.eq_false_iff, Ne, hout, hq]
      split <;> omega
  · refine ⟨mirrorPolicyStart count (some p), hps, ?_, Bool.eq_false_iff.mpr hfirst⟩
    rw [hin, hp, if_pos (Nat.le_refl _), Nat.sub_self]
    exact hpos

end Placement

section Congruence

variable {p q : IoPolicy}

theorem mirrorScan_congr {read read' : Nat → Nat → Nat → Except Status Bytes} {uses uses' : Nat → Bool} {offset size : Nat}
    (members : List Nat) (hread : ∀ i ∈ members, uses i = true → read i = read' i) (huses : ∀ i ∈ members, uses i = uses' i)
    (copy : Option Bytes) :
    mirrorScan read uses offset size members copy = mirrorScan read' uses' offset size members copy := by
  induction members generalizing copy with
  | nil => cases copy <;> rfl
  | cons i rest ih =>
    have hrest : ∀ copy, mirrorScan read uses offset size rest copy = mirrorScan read' uses' offset size rest copy :=
      ih (fun j hj => hread j (List.mem_cons_of_mem i hj)) fun j hj => huses j (List.mem_cons_of_mem i hj)
    have hi := hread i List.mem_cons_self
    unfold mirrorScan
    rw [← huses i List.mem_cons_self]
    cases hused : uses i with
    | false => exact hrest copy
    | true => simp only [hi hused, hrest]

/-- Two policies choose the same members of the outermost mirror. -/
def SameMembers (p q : IoPolicy) : Backend → Prop
  | .device _ => True
  | .encrypted _ backing => SameMembers p q backing
  | .mirror count _ _ => ∀ i < count, mirrorPolicyMember count (some p) i = mirrorPolicyMember count (some q) i

theorem sameMembers_of_all (hp : p.protectionCopies = 0) (hq : q.protectionCopies = 0) (s : Backend) : SameMembers p q s := by
  have hall {r : IoPolicy} (hr : r.protectionCopies = 0) (count i : Nat) : mirrorPolicyMember count (some r) i = true := by
    apply mirrorPolicyMember_all
    rw [mirrorPolicyCopies_some, hr]
    rfl
  induction s with
  | device read => trivial
  | encrypted cipher backing ih => exact ih
  | mirror count healthy member _ => exact fun i _ => (hall hp count i).trans (hall hq count i).symm

theorem readPolicy_congr (s : Backend) :
    ∀ p q : IoPolicy, p.protectionCopies = q.protectionCopies → p.encryptionDomain = q.encryptionDomain →
      SameMembers p q s → s.readPolicy (some p) = s.readPolicy (some q) := by
  induction s with
  | device read =>
    intro p q hcopies hdomain _
    funext offset size
    simp only [Backend.readPolicy, Option.any_some, hcopies, hdomain]
  | encrypted cipher backing ih =>
    intro p q hcopies hdomain hsame
    funext offset size
    have hmembers : ∀ s, SameMembers p q s → SameMembers { p with encryptionDomain := 0 } { q with encryptionDomain := 0 } s := by
      intro s hs
      induction s with
      | device read => trivial
      | encrypted cipher backing ih => exact ih hs
      | mirror count healthy member _ => exact hs
    have hbacking := ih { p with encryptionDomain := 0 } { q with encryptionDomain := 0 } hcopies rfl (hmembers _ hsame)
    simp only [Backend.readPolicy, Option.map_some, Option.elim_some, hbacking, hdomain]
  | mirror count healthy member ih =>
    intro p q hcopies hdomain hsame
    funext offset size
    simp only [Backend.readPolicy, Option.map_some, Option.any_some, hcopies]
    split
    · rfl
    · refine mirrorScan_congr _ (fun i _ _ => ?_) (fun i hi => ?_) _
      · exact ih i _ _ rfl hdomain (sameMembers_of_all rfl rfl _)
      · rw [hsame i (List.mem_range.mp hi)]

end Congruence

section Survivor

variable {read : Nat → Nat → Nat → Except Status Bytes} {uses : Nat → Bool} {offset size : Nat} (members : List Nat)

theorem mirrorScan_cons_failed {i : Nat} (rest : List Nat) (hi : uses i = true → read i offset size = .error .ioError) :
    mirrorScan read uses offset size (i :: rest) none = mirrorScan read uses offset size rest none := by
  rw [mirrorScan]
  cases hu : uses i with
  | false => rfl
  | true =>
    simp only [hi hu]
    rfl

theorem mirrorScan_all_failed
    (hfail : ∀ i ∈ members, uses i = true → read i offset size = .error .ioError) :
    mirrorScan read uses offset size members none = .error .ioError := by
  induction members with
  | nil => rfl
  | cons i rest ih =>
    obtain ⟨hi, hrest⟩ := List.forall_mem_cons.mp hfail
    rw [mirrorScan_cons_failed rest hi, ih hrest]

theorem crossCheck_failed (read : Nat → Nat → Except Status Bytes)
    (hread : ∀ offset size, 0 < size → read offset size = .error .ioError)
    (copy : Bytes) (offset size fuel checked : Nat) : crossCheck read copy offset size fuel checked = .ok () := by
  cases fuel with
  | zero => rfl
  | succ fuel =>
    unfold crossCheck
    split
    · rfl
    · rename_i hlt
      have hchunk : 0 < min (size - checked) (verifyCapacity size) := by
        unfold verifyCapacity
        omega
      simp only [hread _ _ hchunk]

theorem mirrorScan_failed_rest (copy : Bytes)
    (hfail : ∀ i ∈ members, ∀ offset size, 0 < size → read i offset size = .error .ioError) :
    mirrorScan read uses offset size members (some copy) = .ok copy := by
  induction members with
  | nil => rfl
  | cons i rest ih =>
    have hrest := ih fun j hj => hfail j (List.mem_cons_of_mem i hj)
    unfold mirrorScan
    by_cases hi : uses i = true
    · simp only [hi, crossCheck_failed (read i) (hfail i List.mem_cons_self), hrest]
      rfl
    · simp only [Bool.not_eq_true _ |>.mp hi, hrest]
      rfl

theorem mirrorScan_survivor (hnodup : members.Nodup) {survivor : Nat} (hmem : survivor ∈ members)
    (huses : uses survivor = true) (hsize : 0 < size)
    (hfail : ∀ i ∈ members, i ≠ survivor → ∀ offset size, 0 < size → read i offset size = .error .ioError) :
    mirrorScan read uses offset size members none = read survivor offset size := by
  induction members with
  | nil => cases hmem
  | cons i rest ih =>
    obtain ⟨hi, hrest⟩ := List.nodup_cons.mp hnodup
    by_cases heq : i = survivor
    · subst heq
      have hothers : ∀ j ∈ rest, ∀ offset size, 0 < size → read j offset size = .error .ioError :=
        fun j hj => hfail j (List.mem_cons_of_mem i hj) (fun h => hi (h ▸ hj))
      simp only [mirrorScan, huses]
      rcases hread : read i offset size with status | bytes
      · cases status with
        | ioError =>
          exact mirrorScan_all_failed rest fun j hj _ => hothers j hj offset size hsize
        | _ => rfl
      · exact mirrorScan_failed_rest rest bytes hothers
    · have htail := (List.mem_cons.mp hmem).resolve_left (Ne.symm heq)
      rw [mirrorScan_cons_failed rest fun _ => hfail i List.mem_cons_self heq offset size hsize]
      exact ih hrest htail fun j hj => hfail j (List.mem_cons_of_mem i hj)

theorem encryptedRead_congr (cipher : Cipher) {backing backing' : Nat → Nat → Except Status Bytes}
    (h : ∀ offset size, 0 < size → backing offset size = backing' offset size) (domain : UInt8) :
    encryptedRead cipher backing domain = encryptedRead cipher backing' domain := by
  have hblock : encryptedReadBlock cipher backing domain = encryptedReadBlock cipher backing' domain := by
    funext logical
    unfold encryptedReadBlock
    rw [h _ recordBytes (by decide)]
  funext offset size
  unfold encryptedRead
  rw [hblock]

theorem encryptedRead_failed (cipher : Cipher) {backing : Nat → Nat → Except Status Bytes}
    (h : ∀ offset size, 0 < size → backing offset size = .error .ioError) (domain : UInt8) (offset size : Nat)
    (hsize : 0 < size) : encryptedRead cipher backing domain offset size = .error .ioError := by
  have hblock : ∀ logical, encryptedReadBlock cipher backing domain logical = .error .ioError := by
    intro logical
    unfold encryptedReadBlock
    rw [h _ recordBytes (by decide)]
    split <;> rfl
  unfold encryptedRead
  split
  · rfl
  · obtain ⟨fuel, rfl⟩ := Nat.exists_eq_succ_of_ne_zero (Nat.pos_iff_ne_zero.mp hsize)
    unfold encryptedReadLoop
    rw [if_neg (by simp)]
    simp only [hblock]

def deadMember : Backend :=
  .encrypted ⟨0, 0, fun _ _ _ => .error .ioError⟩ (.device fun _ _ => .error .ioError)

theorem readPolicy_deadMember (p : IoPolicy) (hp : p.protectionCopies = 0) (offset size : Nat) (hsize : 0 < size) :
    deadMember.readPolicy (some p) offset size = .error .ioError := by
  apply encryptedRead_failed _ _ _ _ _ hsize
  intro offset size _
  simp only [Backend.readPolicy, Option.map_some, Option.any_some, hp]
  rfl

end Survivor

end InfiltratorFS.Storage
