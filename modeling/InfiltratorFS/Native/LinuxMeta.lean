import InfiltratorFS.Library.Layout
import InfiltratorFS.Library.Triple

namespace InfiltratorFS.LinuxMeta

open Prog Layout

section Codec

inductive Errno
  | invalid
  | range
  | noMemory
  | noSpace
  | readOnly
  | notSupported
  | again
  | io
  | exists
  | noData
  | tooBig
  | fsCorrupted
  deriving DecidableEq, Repr

abbrev Bytes := List UInt8

def linuxMetaMagic : Vector UInt8 8 := #v[0x49, 0x4E, 0x50, 0x53, 0x58, 0x4D, 0x30, 0x31]

def linuxMetaVersion : UInt32 := 1

def linuxMetaMax : Nat := 1024 * 1024

def xattrNameMax : Nat := 255

def xattrSizeMax : Nat := 65536

def inlineDataMax : Nat := 3808

structure MetaHeader where
  magic : Vector UInt8 8
  version : UInt32
  specialMode : UInt32
  specialRdev : UInt64
  xattrBytes : UInt32
  reserved : UInt32

def headerLayout : Layout MetaHeader :=
  ((bytes 8).seq <| uint32.seq <| uint32.seq <| uint64.seq <| uint32.seq uint32).iso
    { toFun := fun h => (h.magic, h.version, h.specialMode, h.specialRdev, h.xattrBytes, h.reserved)
      invFun := fun ⟨magic, version, mode, rdev, size, reserved⟩ => ⟨magic, version, mode, rdev, size, reserved⟩
      left_inv := fun _ => rfl
      right_inv := fun _ => rfl }

def headerBytes : Nat := 32

/-- `struct infilfs_linux_xattr_record`: the length of the name, a reserved
field and the length of the value. -/
def recordLayout : Layout (UInt16 × UInt16 × UInt32) := uint16.seq (uint16.seq uint32)

def recordBytes : Nat := 8

def metaInit : Bytes := headerLayout.put ⟨linuxMetaMagic, linuxMetaVersion, 0, 0, 0, 0⟩

/-- The loop of `infilfs_linux_meta_validate_blob` over what is left of the
blob. Every record takes up bytes, so as many rounds as bytes are enough. -/
def recordsValid : Nat → Bytes → Bool
  | _, [] => true
  | 0, _ => false
  | fuel + 1, rest =>
    let record := recordLayout.get rest
    let nameLength := record.1.toNat
    let valueLength := record.2.2.toNat
    if rest.length < recordBytes then false
    else if record.2.1 ≠ 0 ∨ nameLength = 0 ∨ rest.length - recordBytes < nameLength then false
    else if rest.length - recordBytes - nameLength < valueLength then false
    else if xattrNameMax < nameLength ∨ xattrSizeMax < valueLength ∨
        0 ∈ (rest.drop recordBytes).take nameLength then false
    else recordsValid fuel (rest.drop (recordBytes + nameLength + valueLength))

def validateBlob (blob : Bytes) : Except Errno Unit :=
  let header := headerLayout.get blob
  if blob.length < headerBytes ∨ linuxMetaMax < blob.length then .error .fsCorrupted
  else if header.magic ≠ linuxMetaMagic ∨ header.version ≠ linuxMetaVersion ∨ header.reserved ≠ 0 ∨
      header.xattrBytes.toNat ≠ blob.length - headerBytes then .error .fsCorrupted
  else if recordsValid blob.length (blob.drop headerBytes) then .ok () else .error .fsCorrupted

/-- The loop of `infilfs_linux_meta_find_xattr`: where the record of the name
starts, and its size. -/
def findXattr (name : Bytes) : Nat → Nat → Bytes → Option (Nat × Nat)
  | 0, _, _ => none
  | fuel + 1, offset, rest =>
    if rest = [] then none
    else
      let record := recordLayout.get rest
      let size := recordBytes + record.1.toNat + record.2.2.toNat
      if record.1.toNat = name.length ∧ (rest.drop recordBytes).take name.length = name then some (offset, size)
      else findXattr name fuel (offset + size) (rest.drop size)

/-- `infilfs_linux_meta_load` where nothing fails. -/
def load : Option Bytes → Except Errno Bytes
  | none => .ok metaInit
  | some blob =>
    if blob.length < headerBytes ∨ linuxMetaMax < blob.length then .error .fsCorrupted
    else do
      validateBlob blob
      .ok blob

end Codec

section Update

structure XattrCall where
  handler : Bytes
  name : Bytes
  value : Option Bytes
  create : Bool
  replace : Bool

def linuxXattrName (handler name : Bytes) : Except Errno Bytes :=
  if name.length = 0 then .error .invalid
  else if xattrNameMax < handler.length ∨ xattrNameMax < name.length ∨ xattrNameMax - handler.length < name.length then
    .error .range
  else .ok (handler ++ name)

variable (blob : Bytes)

def setXattrBytes : Bytes :=
  headerLayout.put { headerLayout.get blob with xattrBytes := UInt32.ofNat (blob.length - headerBytes) } ++
    blob.drop headerBytes

/-- The blob that `infilfs_linux_xattr_set` hands to the store. -/
def updated (call : XattrCall) (full old : Bytes) : Except Errno Bytes :=
  let found := findXattr full old.length headerBytes (old.drop headerBytes)
  let kept := found.elim old fun r => old.take r.1 ++ old.drop (r.1 + r.2)
  match call.value with
  | none => if found = none then .error .noData else .ok (setXattrBytes kept)
  | some value =>
    let recordSize := recordBytes + full.length + value.length
    if call.create = true ∧ found ≠ none then .error .exists
    else if call.replace = true ∧ found = none then .error .noData
    else if linuxMetaMax < recordSize ∨ linuxMetaMax - recordSize < kept.length then .error .tooBig
    else .ok (setXattrBytes (kept ++ recordLayout.put (UInt16.ofNat full.length, 0, UInt32.ofNat value.length) ++
      full ++ value))

/-- The error of a call outside, and for a write the bytes of one chunk. -/
structure Answer where
  error : Option Errno
  bytes : Nat

/-- The sidecar file of an inode, and what it was after each committed
operation so far. -/
structure MetaState where
  answers : Nat → Answer
  tick : Nat
  sidecar : Option Bytes
  committed : List (Option Bytes)

abbrev MetaM := Prog MetaState Errno

def request : MetaM Nat := fun s =>
  match (s.answers s.tick).error with
  | some e => (.error e, { s with tick := s.tick + 1 })
  | none => (.ok (s.answers s.tick).bytes, { s with tick := s.tick + 1 })

def commit (sidecar : Option Bytes) : MetaM Unit :=
  modify fun s => { s with sidecar := sidecar, committed := s.committed ++ [sidecar] }

/-- An operation on the sidecar. Its publication may still fail once it is
committed. -/
def operation (sidecar : Option Bytes) : MetaM Unit := do
  let _ ← request
  commit sidecar
  let _ ← request

/-- The chunks of `infilfs_native_extent_write_iter`, each of them committed on
its own. The answer is the number of bytes written. -/
def extentWrite : Nat → Nat → MetaM Nat
  | 0, done => pure done
  | fuel + 1, done =>
    if blob.length ≤ done then pure done
    else do
      match ← attempt request with
      | .error e => if done = 0 then fail e else pure done
      | .ok n => do
        let next := min (done + max n 1) blob.length
        commit (some (blob.take next))
        match ← attempt request with
        | .error _ => pure next
        | .ok _ => extentWrite fuel next

def writeBlob : MetaM Nat :=
  if blob.length ≤ inlineDataMax then do
    operation (some blob)
    pure blob.length
  else extentWrite blob blob.length 0

def isEmpty : Bool := (headerLayout.get blob).specialMode == 0 && (headerLayout.get blob).xattrBytes == 0

def operationUnless (skip : Option Bytes → Bool) (sidecar : Option Bytes) : MetaM Unit := do
  let s ← get
  if skip s.sidecar then pure () else operation sidecar

def removeObject : MetaM Unit := do
  let _ ← request
  operationUnless Option.isNone none

/-- `infilfs_linux_meta_get_file`, which creates an empty sidecar. -/
def getFile : MetaM Unit := do
  let _ ← request
  operationUnless Option.isSome (some [])
  let _ ← request

def truncateFile : MetaM Unit := operationUnless (· == some []) (some [])

def linuxMetaStore : MetaM Unit := do
  ofExcept (validateBlob blob)
  if isEmpty blob then removeObject
  else do
    getFile
    truncateFile
    let written ← writeBlob blob
    if written ≠ blob.length then fail .io
    else do
      let _ ← request

def linuxMetaLoad : MetaM Bytes := do
  let _ ← request
  let s ← get
  match s.sidecar with
  | none => do
    let _ ← request
    pure metaInit
  | some blob =>
    if blob.length < headerBytes ∨ linuxMetaMax < blob.length then fail .fsCorrupted
    else do
      let _ ← request
      ofExcept (validateBlob blob)
      pure blob

/-- The memory for the updated blob. An attribute is removed in place. -/
def updatedMemory (call : XattrCall) : MetaM Nat := if call.value = none then pure 0 else request

def linuxXattrSet (call : XattrCall) : MetaM Unit := do
  let full ← ofExcept (linuxXattrName call.handler call.name)
  let _ ← request
  if (call.value.elim 0 List.length) > xattrSizeMax then fail .tooBig
  else do
    let old ← linuxMetaLoad
    let blob ← ofExcept (updated call full old)
    let _ ← updatedMemory call
    linuxMetaStore blob

end Update

section Interruption

/-- What a blob says of its inode: the type and device of a special node, and
the records of its attributes. -/
def contents (blob : Bytes) : Option (UInt32 × UInt64) × Bytes :=
  let header := headerLayout.get blob
  (if header.specialMode = 0 then none else some (header.specialMode, header.specialRdev), blob.drop headerBytes)

def LoadsAs (old new : Bytes) (sidecar : Option Bytes) : Prop :=
  ∃ blob, load sidecar = .ok blob ∧ (contents blob = contents old ∨ contents blob = contents new)

def Cut (new : Bytes) (sidecar : Option Bytes) : Prop := ∃ n < new.length, sidecar = some (new.take n)

def Left (new : Bytes) (sidecar : Option Bytes) : Prop :=
  Cut new sidecar ∨ sidecar = some new ∨ isEmpty new = true ∧ sidecar = none

theorem left_take (new : Bytes) (n : Nat) : Left new (some (new.take n)) := by
  by_cases h : n < new.length
  · exact .inl ⟨n, h, rfl⟩
  · exact .inr (.inl (by rw [List.take_of_length_le (Nat.le_of_not_lt h)]))

variable {blob new : Bytes}

theorem validateBlob_ok (h : validateBlob blob = .ok ()) :
    headerBytes ≤ blob.length ∧ blob.length ≤ linuxMetaMax ∧
      (headerLayout.get blob).xattrBytes.toNat = blob.length - headerBytes := by
  simp only [validateBlob] at h
  split at h
  · cases h
  · split at h
    · cases h
    · rename_i hsize hheader
      simp only [not_or, not_not, Nat.not_lt] at hsize hheader
      exact ⟨hsize.1, hsize.2, hheader.2.2.2⟩

/-- The header does not depend on what follows it. -/
theorem get_take_header {n : Nat} (hn : headerBytes ≤ n) (hblob : headerBytes ≤ blob.length) :
    headerLayout.get (blob.take n) = headerLayout.get blob := by
  have htake : blob.take n = headerLayout.put (headerLayout.get blob) ++ (blob.take n).drop headerBytes := by
    conv_lhs => rw [← List.take_append_drop headerBytes (blob.take n), List.take_take, Nat.min_eq_left hn]
    rw [headerLayout.put_get blob hblob]
    rfl
  rw [htake, headerLayout.get_put]

theorem contents_metaInit : contents metaInit = (none, []) := by decide +kernel

variable (hvalid : validateBlob new = .ok ())
include hvalid

theorem load_cut {sidecar : Option Bytes} (h : Cut new sidecar) :
    load sidecar = .error .fsCorrupted := by
  obtain ⟨n, hn, rfl⟩ := h
  obtain ⟨hsize, -, hbytes⟩ := validateBlob_ok hvalid
  have hlength : (new.take n).length = n := by rw [List.length_take, Nat.min_eq_left hn.le]
  simp only [load, hlength]
  by_cases hheader : n < headerBytes
  · rw [if_pos (.inl hheader)]
  · split
    · rfl
    · -- The header was written whole, and counts the bytes of all the records.
      have hget := get_take_header (Nat.le_of_not_lt hheader) hsize
      have hwrong : (headerLayout.get (new.take n)).xattrBytes.toNat ≠ n - headerBytes := by
        rw [hget, hbytes]
        omega
      have hcorrupted : validateBlob (new.take n) = .error .fsCorrupted := by
        simp only [validateBlob, hlength]
        split
        · rfl
        · rw [if_pos (.inr (.inr (.inr hwrong)))]
      rw [hcorrupted]
      rfl

theorem load_new : load (some new) = .ok new := by
  obtain ⟨hsize, hmax, -⟩ := validateBlob_ok hvalid
  rw [load, if_neg (not_or.mpr ⟨Nat.not_lt.mpr hsize, Nat.not_lt.mpr hmax⟩), hvalid]
  rfl

theorem contents_of_isEmpty (h : isEmpty new = true) :
    contents new = (none, []) := by
  obtain ⟨-, -, hbytes⟩ := validateBlob_ok hvalid
  rw [isEmpty, Bool.and_eq_true, beq_iff_eq, beq_iff_eq] at h
  have hdrop : new.drop headerBytes = [] := by
    rw [h.2] at hbytes
    exact List.drop_eq_nil_of_le (Nat.sub_eq_zero_iff_le.mp hbytes.symm)
  simp only [contents, h.1, hdrop, if_true]

theorem loadsAs_iff_not_cut {old : Bytes} {sidecar : Option Bytes}
    (h : Left new sidecar) : LoadsAs old new sidecar ↔ ¬Cut new sidecar := by
  constructor
  · rintro ⟨blob, hload, -⟩ hcut
    rw [load_cut hvalid hcut] at hload
    cases hload
  · intro hcut
    rcases h with h | rfl | ⟨hempty, rfl⟩
    · exact absurd h hcut
    · exact ⟨new, load_new hvalid, .inr rfl⟩
    · exact ⟨metaInit, rfl, .inr (by rw [contents_metaInit, contents_of_isEmpty hvalid hempty])⟩

end Interruption

/-- The call passes its checks, and leaves attributes or a node type to be
stored. -/
def XattrCall.Stores (call : XattrCall) (old : Bytes) : Prop :=
  ∃ full new, linuxXattrName call.handler call.name = .ok full ∧ call.value.elim 0 List.length ≤ xattrSizeMax ∧
    updated call full old = .ok new ∧ validateBlob new = .ok () ∧ isEmpty new = false

theorem XattrCall.Stores.of_updated {call : XattrCall} {old full new : Bytes} (h : call.Stores old)
    (hfull : linuxXattrName call.handler call.name = .ok full) (hnew : updated call full old = .ok new) :
    validateBlob new = .ok () ∧ isEmpty new = false := by
  obtain ⟨full', new', hfull', -, hnew', hstored⟩ := h
  cases hfull.symm.trans hfull'
  cases hnew.symm.trans hnew'
  exact hstored

/-- The number of calls outside up to the first commit of a call that stores:
there are more if it has a value, and if there is a sidecar to be truncated. -/
def requestsBefore (call : XattrCall) (sidecar : Option Bytes) : Nat :=
  5 + (if call.value = none then 0 else 1) + if sidecar = none then 0 else 1

/-- The call stores, and does not fail before its first commit. -/
def Opens (answers : Nat → Answer) (sidecar : Option Bytes) (call : XattrCall) (old : Bytes) : Prop :=
  call.Stores old ∧ ∀ i < requestsBefore call sidecar, (answers i).error = none

section Runs

variable {first sidecar : Option Bytes} {new : Bytes} {kept : List (Option Bytes)} {L : Option Bytes → Prop}

/-- The states of the sidecar so far, with those that are known. -/
def Past (first : Option Bytes) (kept : List (Option Bytes)) (L : Option Bytes → Prop) (s : MetaState) : Prop :=
  s.sidecar ∈ first :: s.committed ∧ kept ⊆ s.committed ∧ ∀ sidecar ∈ s.committed, L sidecar

abbrev Steady (P : MetaState → Prop) {α : Type} (x : MetaM α) : Prop := Triple P x (fun _ => P) (fun _ => P)

theorem past_request : Steady (Past first kept L) request := by
  intro s hs
  rw [request]
  split
  all_goals
    refine ⟨fun _ _ hx => ?_, fun _ _ hx => ?_⟩ <;> cases hx
    exact hs

theorem past_commit (h : L sidecar) {E : Errno → MetaState → Prop} :
    Triple (Past first kept L) (commit sidecar) (fun _ => Past first (sidecar :: kept) L) E := by
  refine Triple.modify fun s hs => ⟨by simp, ?_, fun a ha => ?_⟩
  · exact List.cons_subset.mpr ⟨by simp, List.Subset.trans hs.2.1 (List.subset_append_left _ _)⟩
  · rcases List.mem_append.mp ha with ha | ha
    · exact hs.2.2 a ha
    · rwa [List.mem_singleton.mp ha]

theorem Past.weaken {s : MetaState} (h : Past first (sidecar :: kept) L s) : Past first kept L s :=
  ⟨h.1, (List.cons_subset.mp h.2.1).2, h.2.2⟩

theorem past_operation (h : L sidecar) : Steady (Past first kept L) (operation sidecar) :=
  past_request.bind fun _ => ((past_commit h).post fun _ _ => Past.weaken).bind fun _ => past_request.bind fun _ => .done

theorem past_operationUnless (h : L sidecar) (skip : Option Bytes → Bool) :
    Steady (Past first kept L) (operationUnless skip sidecar) :=
  Triple.look fun _ _ => .branch (.pure fun _ ht => ht) (past_operation h)

def Taken (new : Bytes) (sidecar : Option Bytes) : Prop := ∃ n, sidecar = some (new.take n)

theorem past_extentWrite (fuel done : Nat) : Steady (Past first kept (Taken new)) (extentWrite new fuel done) := by
  induction fuel generalizing done with
  | zero => exact .done
  | succ fuel ih =>
    refine .ite (fun _ => .done) fun _ => past_request.attempt_bind (fun n => ?_) fun e => ?_
    · refine ((past_commit ⟨_, rfl⟩).post fun _ _ => Past.weaken).bind fun _ => ?_
      exact past_request.attempt_bind (fun _ => ih _) fun _ => .done
    · exact .branch (.fail fun _ hs => hs) .done

theorem past_writeBlob : Steady (Past first kept (Taken new)) (writeBlob new) :=
  Triple.ite (fun _ => (past_operation ⟨new.length, by rw [List.take_length]⟩).bind fun _ => .done)
    fun _ => past_extentWrite _ _

/-- What a store does once the sidecar is there and empty. -/
theorem past_written : Steady (Past first kept (Taken new)) (do
    let written ← writeBlob new
    if written ≠ new.length then fail .io
    else do
      let _ ← request) :=
  past_writeBlob.bind fun _ => .guard (fun _ => past_request.bind fun _ => .done) fun _ hs => hs

variable {answers : Nat → Answer} {call : XattrCall} {old : Bytes} {k : Nat}

/-- Nothing is committed yet, and no call outside has failed. -/
structure Early (answers : Nat → Answer) (first : Option Bytes) (k : Nat) (s : MetaState) : Prop where
  sidecar : s.sidecar = first
  committed : s.committed = []
  env : s.answers = answers
  tick : s.tick = k
  spared : ∀ i < k, (answers i).error = none

theorem Early.past {s : MetaState} (h : Early answers first k s) : Past first [] L s :=
  ⟨h.sidecar ▸ List.mem_cons_self, List.nil_subset _, by simp [h.committed]⟩

/-- The sidecar was made empty on the way to the new blob. -/
def Opened (answers : Nat → Answer) (first : Option Bytes) (call : XattrCall) (old new : Bytes) (s : MetaState) : Prop :=
  Opens answers first call old ∧ Past first [some []] (Taken new) s

/-- Where a call may leave the sidecar, at its end and after each of its
committed steps. -/
def Reached (answers : Nat → Answer) (first : Option Bytes) (call : XattrCall) (old : Bytes) (s : MetaState) : Prop :=
  s.sidecar = first ∧ s.committed = [] ∧ ¬Opens answers first call old ∨
    ∃ full new, linuxXattrName call.handler call.name = .ok full ∧ updated call full old = .ok new ∧
      validateBlob new = .ok () ∧ (isEmpty new = true ∧ Past first [] (· = none) s ∨ Opened answers first call old new s)

theorem Early.reached {s : MetaState} (h : Early answers first k s) (hstores : ¬call.Stores old) :
    Reached answers first call old s :=
  .inl ⟨h.sidecar, h.committed, fun hopens => hstores hopens.1⟩

theorem early_request (hk : k < requestsBefore call first) :
    Triple (Early answers first k) request (fun _ => Early answers first (k + 1))
      (fun _ => Reached answers first call old) := by
  intro s hs
  rw [request, hs.env, hs.tick]
  split
  · rename_i e herror
    refine ⟨fun _ _ hx => (nomatch hx), fun _ _ hx => ?_⟩
    cases hx
    exact .inl ⟨hs.sidecar, hs.committed, fun hopens => nomatch herror.symm.trans (hopens.2 k hk)⟩
  · rename_i hspared
    refine ⟨fun _ _ hx => ?_, fun _ _ hx => nomatch hx⟩
    cases hx
    refine ⟨hs.sidecar, hs.committed, rfl, rfl, fun i hi => ?_⟩
    obtain rfl | hi := Nat.eq_or_lt_of_le (Nat.le_of_lt_succ hi)
    · exact hspared
    · exact hs.spared i hi

theorem early_linuxMetaLoad (hload : load first = .ok old) :
    Triple (Early answers first 1) linuxMetaLoad (fun blob s => blob = old ∧ Early answers first 3 s)
      (fun _ => Reached answers first call old) := by
  have hlate : 5 ≤ requestsBefore call first := by rw [requestsBefore, Nat.add_assoc]; exact Nat.le_add_right _ _
  refine (early_request (by omega)).bind fun _ => .look fun s hs => ?_
  rw [hs.sidecar]
  cases first with
  | none => exact (early_request (by omega)).bind fun _ => .pure fun _ ht => ⟨Except.ok.inj hload, ht⟩
  | some blob =>
    rw [load] at hload
    split at hload
    · cases hload
    · rename_i hsize
      obtain ⟨_, hvalid, hblob⟩ := except_bind_eq_ok.mp hload
      dsimp only
      rw [if_neg hsize, hvalid]
      exact (early_request (by omega)).bind fun _ => .pure fun _ ht => ⟨Except.ok.inj hblob, ht⟩

/-- A store commits the empty sidecar before it writes the blob. -/
theorem early_linuxMetaStore {full : Bytes} (hfirst : first ≠ some [])
    (hk : k + 2 + (if first = none then 0 else 1) = requestsBefore call first)
    (hfull : linuxXattrName call.handler call.name = .ok full) (hvalue : call.value.elim 0 List.length ≤ xattrSizeMax)
    (hnew : updated call full old = .ok new) :
    Triple (Early answers first k) (linuxMetaStore new) (fun _ => Reached answers first call old)
      (fun _ => Reached answers first call old) := by
  refine .ofExcept_bind (fun _ hvalid => ?_) fun e s herror hs => hs.reached ?_
  · have hdone (s : MetaState) (h : isEmpty new = true ∧ Past first [] (· = none) s ∨ Opened answers first call old new s) :
        Reached answers first call old s := .inr ⟨full, new, hfull, hnew, hvalid, h⟩
    refine .ite (fun hempty => ?_) fun hempty => ?_
    · refine (past_request.bind fun _ => past_operationUnless (L := (· = none)) rfl _).mono (fun _ hs => hs.past) ?_ ?_
      · exact fun _ _ hs => hdone _ (.inl ⟨hempty, hs⟩)
      · exact fun _ _ hs => hdone _ (.inl ⟨hempty, hs⟩)
    · have hstores : call.Stores old := ⟨full, new, hfull, hvalue, hnew, hvalid, Bool.not_eq_true _ ▸ hempty⟩
      have hsteady {α : Type} {x : MetaM α} (hx : Steady (Past first [some []] (Taken new)) x) :
          Triple (Opened answers first call old new) x (fun _ => Opened answers first call old new)
            (fun _ => Reached answers first call old) :=
        .of_and fun hopens => hx.mono (fun _ => id) (fun _ _ hs => ⟨hopens, hs⟩) fun _ _ hs => hdone _ (.inr ⟨hopens, hs⟩)
      have hclear {k : Nat} (hk : k + 1 = requestsBefore call first) :
          Triple (Early answers first k) (operation (some [])) (fun _ => Opened answers first call old new)
            (fun _ => Reached answers first call old) := by
        refine (early_request (by omega)).bind fun _ => .bind ?_ fun _ => hsteady (past_request.bind fun _ => .done)
        refine .at_state fun s hs => ?_
        refine (past_commit (L := Taken new) ⟨0, rfl⟩).mono (fun _ ht => ht ▸ hs.past) (fun _ _ ht => ?_) fun _ _ => id
        exact ⟨⟨hstores, hk ▸ hs.spared⟩, ht⟩
      have hwrite := (hsteady past_written).post fun _ s hs => hdone s (.inr hs)
      cases first with
      | none =>
        rw [if_pos rfl] at hk
        have hfile : Triple (Early answers none k) getFile (fun _ => Opened answers none call old new)
            (fun _ => Reached answers none call old) := by
          refine (early_request (by omega)).bind fun _ => (Triple.look fun s hs => ?_).bind fun _ =>
            hsteady (past_request.bind fun _ => .done)
          rw [hs.sidecar]
          exact hclear hk
        exact hfile.bind fun _ => (hsteady (past_operationUnless ⟨0, rfl⟩ _)).bind fun _ => hwrite
      | some blob =>
        rw [if_neg nofun] at hk
        have hfile : Triple (Early answers (some blob) k) getFile (fun _ => Early answers (some blob) (k + 2))
            (fun _ => Reached answers (some blob) call old) :=
          (early_request (by omega)).bind fun _ => (Triple.look fun s hs => by
            rw [hs.sidecar]
            exact .done).bind fun _ => (early_request (by omega)).bind fun _ => .done
        refine hfile.bind fun _ => (Triple.look fun s hs => ?_).bind fun _ => hwrite
        rw [hs.sidecar, if_neg (by simpa using hfirst)]
        exact hclear hk
  · intro hstores
    cases herror.symm.trans (hstores.of_updated hfull hnew).1

def start (answers : Nat → Answer) (sidecar : Option Bytes) : MetaState := ⟨answers, 0, sidecar, []⟩

theorem reached_linuxXattrSet (h : load first = .ok old) :
    Triple (Early answers first 0) (linuxXattrSet call) (fun _ => Reached answers first call old)
      (fun _ => Reached answers first call old) := by
  have hlate : 5 ≤ requestsBefore call first := by rw [requestsBefore, Nat.add_assoc]; exact Nat.le_add_right _ _
  refine .ofExcept_bind (fun full hfull => (early_request (by omega)).bind fun _ => ?_) fun e s herror hs => ?_
  · refine .ite (fun hvalue => .fail fun s hs => hs.reached ?_) fun hvalue => ?_
    · exact fun ⟨_, _, _, hsmall, _⟩ => absurd hsmall (Nat.not_le.mpr hvalue)
    · refine (early_linuxMetaLoad h).bind_and fun blob hblob => ?_
      rw [hblob]
      refine .ofExcept_bind (fun new hnew => ?_) fun e s herror hs => hs.reached ?_
      · have hmemory : Triple (Early answers first 3) (updatedMemory call)
            (fun _ => Early answers first (3 + if call.value = none then 0 else 1)) (fun _ => Reached answers first call old) := by
          rw [updatedMemory]
          split
          · exact .done
          · exact early_request (by omega)
        refine hmemory.bind fun _ => early_linuxMetaStore ?_ ?_ hfull (Nat.not_lt.mp hvalue) hnew
        · rintro rfl
          cases h
        · rw [requestsBefore]
          omega
      · rintro ⟨full', new', hfull', -, hnew', -⟩
        cases hfull.symm.trans hfull'
        cases herror.symm.trans hnew'
  · refine hs.reached fun ⟨_, _, hfull, _⟩ => ?_
    cases herror.symm.trans hfull

/-- An update of the attributes is atomic exactly if it stores none, or fails
before its first commit. After each committed step the old or the new contents
load if no part of the new blob was cut off, and the sidecar is corrupted if one
was. -/
theorem linuxXattrSet_atomic_iff (answers : Nat → Answer) (sidecar : Option Bytes) (call : XattrCall)
    (old : Bytes) (h : load sidecar = .ok old) :
    let final := (linuxXattrSet call (start answers sidecar)).2
    ((∀ state ∈ final.committed, ∃ full new, linuxXattrName call.handler call.name = .ok full ∧
        updated call full old = .ok new ∧ LoadsAs old new state) ↔ ¬Opens answers sidecar call old) ∧
      (Opens answers sidecar call old → some [] ∈ final.committed) ∧ final.sidecar ∈ sidecar :: final.committed ∧
      ∀ state ∈ final.committed, ∃ full new, linuxXattrName call.handler call.name = .ok full ∧
        updated call full old = .ok new ∧ (LoadsAs old new state ↔ ¬Cut new state) ∧
        (load state = .error .fsCorrupted ↔ Cut new state) := by
  intro final
  have hreached : Reached answers sidecar call old final :=
    (reached_linuxXattrSet h).final ⟨rfl, rfl, rfl, rfl, nofun⟩
  rcases hreached with ⟨hsidecar, hcommitted, hopens⟩ | ⟨full, new, hfull, hnew, hvalid, hpast⟩
  · rw [hsidecar, hcommitted]
    exact ⟨⟨fun _ => hopens, fun _ => nofun⟩, fun h => absurd h hopens, List.mem_cons_self, nofun⟩
  · have hstate (state : Option Bytes) (hleft : Left new state) :
        (LoadsAs old new state ↔ ¬Cut new state) ∧ (load state = .error .fsCorrupted ↔ Cut new state) := by
      have hiff : LoadsAs old new state ↔ ¬Cut new state := loadsAs_iff_not_cut hvalid hleft
      refine ⟨hiff, fun hload => by_contra fun hcut => ?_, load_cut hvalid⟩
      obtain ⟨blob, hblob, -⟩ := hiff.mpr hcut
      cases hload.symm.trans hblob
    rcases hpast with ⟨hempty, hside, -, hnone⟩ | ⟨hopens, hside, hkept, htaken⟩
    · have hleft (state : Option Bytes) (hmem : state ∈ final.committed) : Left new state :=
        .inr (.inr ⟨hempty, hnone state hmem⟩)
      have hclosed : ¬Opens answers sidecar call old := by
        intro hopens
        cases hempty.symm.trans (hopens.1.of_updated hfull hnew).2
      refine ⟨⟨fun _ => hclosed, fun _ state hmem => ⟨full, new, hfull, hnew, ?_⟩⟩, fun h => absurd h hclosed, hside,
        fun state hmem => ⟨full, new, hfull, hnew, hstate state (hleft state hmem)⟩⟩
      refine (hstate state (hleft state hmem)).1.mpr fun ⟨n, _, hcut⟩ => ?_
      cases (hnone state hmem).symm.trans hcut
    · have hmem : some [] ∈ final.committed := hkept List.mem_cons_self
      refine ⟨⟨fun h => ?_, fun h => absurd hopens h⟩, fun _ => hmem, hside, fun state hin => ?_⟩
      · obtain ⟨_, _, _, _, _, hload, _⟩ := h _ hmem
        cases hload
      · obtain ⟨n, rfl⟩ := htaken state hin
        exact ⟨full, new, hfull, hnew, hstate _ (left_take new n)⟩

end Runs

section FailedWrite

def oneAttribute : Bytes :=
  headerLayout.put ⟨linuxMetaMagic, linuxMetaVersion, 0, 0, 15, 0⟩ ++ recordLayout.put (6, 0, 1) ++
    [0x75, 0x73, 0x65, 0x72, 0x2E, 0x61] ++ [0x78]

def replaceCall : XattrCall := ⟨[0x75, 0x73, 0x65, 0x72, 0x2E], [0x61], some [0x79], false, false⟩

def memoryFor (calls : Nat) (call : Nat) : Answer := ⟨if call < calls then none else some .noMemory, 0⟩

def removeCall : XattrCall := { replaceCall with value := none }

theorem linuxXattrSet_atomic_one_attribute :
    load (some oneAttribute) = .ok oneAttribute ∧
      (linuxXattrSet removeCall (start (memoryFor 20) (some oneAttribute))).2.committed = [none] ∧
      LoadsAs oneAttribute metaInit none ∧ ¬Cut metaInit none := by
  have hload : load (some oneAttribute) = .ok oneAttribute := by decide +kernel
  have hcommitted : (linuxXattrSet removeCall (start (memoryFor 20) (some oneAttribute))).2.committed = [none] := by decide +kernel
  have hname : linuxXattrName removeCall.handler removeCall.name = .ok (removeCall.handler ++ removeCall.name) := by decide
  have hupdated : updated removeCall (removeCall.handler ++ removeCall.name) oneAttribute = .ok metaInit := by decide +kernel
  obtain ⟨hiff, -, -, hstate⟩ := linuxXattrSet_atomic_iff (memoryFor 20) (some oneAttribute) removeCall oneAttribute hload
  rw [hcommitted] at hiff hstate
  have hremoves : ¬Opens (memoryFor 20) (some oneAttribute) removeCall oneAttribute := by
    rintro ⟨⟨full, new, hfull, -, hnew, -, hempty⟩, -⟩
    cases hname.symm.trans hfull
    cases hupdated.symm.trans hnew
    revert hempty
    decide +kernel
  obtain ⟨full, new, hfull, hnew, hloads⟩ := hiff.mpr hremoves none List.mem_cons_self
  obtain ⟨full', new', hfull', hnew', hcut, -⟩ := hstate none List.mem_cons_self
  cases hname.symm.trans hfull
  cases hname.symm.trans hfull'
  cases hupdated.symm.trans hnew
  cases hupdated.symm.trans hnew'
  exact ⟨hload, hcommitted, hloads, hcut.mp hloads⟩

theorem linuxXattrSet_truncated :
    load (some oneAttribute) = .ok oneAttribute ∧
      (linuxXattrSet replaceCall (start (memoryFor 8) (some oneAttribute))).1 = .error .noMemory ∧
      (linuxXattrSet replaceCall (start (memoryFor 8) (some oneAttribute))).2.sidecar = some [] ∧
      load (some []) = .error .fsCorrupted := by
  decide +kernel

end FailedWrite

end InfiltratorFS.LinuxMeta
