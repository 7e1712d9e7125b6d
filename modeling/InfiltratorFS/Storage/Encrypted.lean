import InfiltratorFS.Library.Prog
import InfiltratorFS.Library.Layout
import InfiltratorFS.Storage.Device

namespace InfiltratorFS.Storage

open FlatStore Prog

section Context

/-- The primitives of the cryptographic library: AES-256-GCM, which takes the
key, the nonce and the associated data and has a tag beside the ciphertext, and
HMAC-SHA256. -/
structure Aead where
  encrypt : Bytes → Bytes → Bytes → Bytes → Bytes × Bytes
  decrypt : Bytes → Bytes → Bytes → Bytes → Bytes → Option Bytes
  hmac : Bytes → Bytes → Bytes

/-- `struct encrypted_context`. Formatting as well as opening makes sure that
the records fit into 64-bit offsets. -/
structure EncryptedContext where
  aead : Aead
  logicalBlocks : Nat
  salt : Vector UInt8 16
  volumeKey : Vector UInt8 32
  fits : logicalBlocks ≤ (2 ^ 64 - 1 - 4096) / recordBytes

abbrev Nonce := Vector UInt8 12

def domainLabel : Bytes := "InfiltratorFS encryption domain v1".toUTF8.toList

namespace EncryptedContext

variable (ctx : EncryptedContext)

def domainKey (domain : UInt8) : Bytes :=
  if domain = 0 then ctx.volumeKey.toList else ctx.aead.hmac ctx.volumeKey.toList (domainLabel ++ [domain])

def blockAad (logical : Nat) (domain : UInt8) : Bytes :=
  ctx.salt.toList ++ Layout.leBytes 8 logical ++ if domain = 0 then [] else [domain]

/-- The record of a block: the nonce, the tag and the ciphertext. -/
def sealRecord (logical : Nat) (domain : UInt8) (nonce : Nonce) (plain : Bytes) : Bytes :=
  let locked := ctx.aead.encrypt (ctx.domainKey domain) nonce.toList (ctx.blockAad logical domain) plain
  nonce.toList ++ locked.2 ++ locked.1

def openRecord (domain : UInt8) (logical : Nat) (record : Bytes) : Except Status Bytes :=
  match ctx.aead.decrypt (ctx.domainKey domain) (record.take 12) (ctx.blockAad logical domain) (record.drop 28)
    ((record.drop 12).take 16) with
  | some plain => .ok plain
  | none => .error .corrupt

def cipher : Cipher := ⟨ctx.logicalBlocks, ctx.logicalBlocks * 4096, ctx.openRecord⟩

/-- Decryption inverts encryption under the same key, nonce and data, and
rejects what was encrypted under others. The second is asked for the keys and
the data that this volume can use: a tag has too few values to tell apart all
there are. -/
structure Correct : Prop where
  lengthCipher : ∀ key nonce aad plain, (ctx.aead.encrypt key nonce aad plain).1.length = plain.length
  lengthTag : ∀ key nonce aad plain, (ctx.aead.encrypt key nonce aad plain).2.length = 16
  inverts : ∀ key nonce aad plain, ctx.aead.decrypt key nonce aad (ctx.aead.encrypt key nonce aad plain).1
    (ctx.aead.encrypt key nonce aad plain).2 = some plain
  rejects : ∀ nonce plain logical domain logical' domain', logical < 2 ^ 64 → logical' < 2 ^ 64 →
    (ctx.domainKey domain', ctx.blockAad logical' domain') ≠ (ctx.domainKey domain, ctx.blockAad logical domain) →
    ctx.aead.decrypt (ctx.domainKey domain') nonce (ctx.blockAad logical' domain')
      (ctx.aead.encrypt (ctx.domainKey domain) nonce (ctx.blockAad logical domain) plain).1
      (ctx.aead.encrypt (ctx.domainKey domain) nonce (ctx.blockAad logical domain) plain).2 = none

end EncryptedContext

end Context

section Code

/-- What the backing storage and the libraries answer during one call: to a
read of the record at an offset, to the preparation of a record, which draws
its nonce, and to the write of the record of a block. -/
structure Surroundings where
  fetch : Nat → Nat → Status
  nonce : Nat → Except Status Nonce
  store : Nat → WriteResult

abbrev EncryptedM := Prog (Nat → UInt8) Status

variable (ctx : EncryptedContext)

def policyDomain (policy : Option IoPolicy) : UInt8 := policy.elim 0 (·.encryptionDomain)

def encryptedFetchBlock (env : Surroundings) (domain : UInt8) (logical : Nat) : EncryptedM Bytes := do
  let medium ← get
  ofExcept (encryptedReadBlock ctx.cipher (deviceRead medium env.fetch) domain logical)

def encryptedWriteBlock (env : Surroundings) (domain : UInt8) (logical : Nat) (plain : Bytes) : EncryptedM Unit :=
  if ctx.logicalBlocks ≤ logical ∨ (2 ^ 64 - 1 - 4096) / recordBytes < logical then fail .ioError
  else do
    let nonce ← ofExcept (env.nonce logical)
    modify fun medium =>
      deviceWrite medium (env.store logical) (4096 + logical * recordBytes) (ctx.sealRecord logical domain nonce plain)
    if (env.store logical).status = .ok then pure () else fail (env.store logical).status

/-- The block around a piece: only a whole block need not be read. -/
def encryptedAround (env : Surroundings) (domain : UInt8) (position : Nat) (piece : Bytes) : EncryptedM Bytes :=
  if position % 4096 ≠ 0 ∨ piece.length ≠ 4096 then encryptedFetchBlock ctx env domain (position / 4096)
  else pure (List.replicate 4096 0)

def encryptedWriteChunk (env : Surroundings) (domain : UInt8) (position : Nat) (piece : Bytes) : EncryptedM Unit := do
  let block ← encryptedAround ctx env domain position piece
  encryptedWriteBlock ctx env domain (position / 4096)
    (block.take (position % 4096) ++ piece ++ block.drop (position % 4096 + piece.length))

def encryptedWriteLoop (env : Surroundings) (domain : UInt8) (offset : Nat) (data : Bytes) : Nat → Nat → EncryptedM Unit
  | 0, _ => pure ()
  | fuel + 1, done =>
    if data.length ≤ done then pure ()
    else do
      let position := offset + done
      let chunk := min (4096 - position % 4096) (data.length - done)
      encryptedWriteChunk ctx env domain position ((data.drop done).take chunk)
      encryptedWriteLoop env domain offset data fuel (done + chunk)

def encryptedWritePolicy (env : Surroundings) (policy : Option IoPolicy) (offset : Nat) (data : Bytes) : EncryptedM Unit :=
  if ctx.logicalBlocks * 4096 < offset ∨ ctx.logicalBlocks * 4096 - offset < data.length then fail .ioError
  else encryptedWriteLoop ctx env (policyDomain policy) offset data data.length 0

def encryptedReadPolicy (env : Surroundings) (policy : Option IoPolicy) (offset size : Nat) : EncryptedM Bytes := do
  let medium ← get
  ofExcept (encryptedRead ctx.cipher (deviceRead medium env.fetch) (policyDomain policy) offset size)

/-- The blocks that `infs_storage_encrypted_format` writes after the header. -/
def encryptedFormatLoop (env : Surroundings) : List Nat → EncryptedM Unit
  | [] => pure ()
  | block :: rest => do
    encryptedWriteBlock ctx env 0 block (List.replicate 4096 0)
    encryptedFormatLoop env rest

def encryptedFormat (env : Surroundings) (header : Bytes) : EncryptedM Unit := do
  modify fun medium => overlay medium 0 header
  encryptedFormatLoop ctx env (List.range ctx.logicalBlocks)

end Code

section Flat

/-- What an encrypted volume is for: the bytes, and for each block the domain
of the last write of the whole block. -/
structure FlatVolume where
  bytes : Nat → UInt8
  domain : Nat → UInt8

def FlatVolume.formatted : FlatVolume := ⟨fun _ => 0, fun _ => 0⟩

def FlatVolume.write (v : FlatVolume) (domain : UInt8) (offset : Nat) (data : Bytes) : FlatVolume where
  bytes := overlay v.bytes offset data
  domain b := if offset ≤ b * 4096 ∧ (b + 1) * 4096 ≤ offset + data.length then domain else v.domain b

theorem FlatVolume.write_append (v : FlatVolume) (domain : UInt8) (offset : Nat) (front back : Bytes)
    (h : (offset + front.length) % 4096 = 0 ∨ back = []) :
    (v.write domain offset front).write domain (offset + front.length) back = v.write domain offset (front ++ back) := by
  unfold FlatVolume.write
  congr 1
  · exact (overlay_append ..).symm
  · funext b
    simp only [List.length_append]
    rcases h with h | rfl
    · split
      · rw [if_pos (by omega)]
      · split
        · rw [if_pos (by omega)]
        · rw [if_neg (by omega)]
    · simp only [List.length_nil, Nat.add_zero]
      split
      · rw [if_pos (by omega)]
      · rfl

/-- The record of a block on the medium was encrypted for the block, with its
bytes and under its domain. -/
def HoldsBlock (ctx : EncryptedContext) (v : FlatVolume) (medium : Nat → UInt8) (b : Nat) : Prop :=
  ∃ nonce : Nonce, slice medium (4096 + b * recordBytes) recordBytes =
    ctx.sealRecord b (v.domain b) nonce (slice v.bytes (b * 4096) 4096)

def Holds (ctx : EncryptedContext) (v : FlatVolume) (medium : Nat → UInt8) : Prop :=
  ∀ b < ctx.logicalBlocks, HoldsBlock ctx v medium b

end Flat

section Records

variable {ctx : EncryptedContext} {b b' : Nat} {d d' : UInt8} {nonce : Nonce} {plain : Bytes}

theorem logical_lt (hb : b < ctx.logicalBlocks) : b < 2 ^ 64 := by
  have hfits := ctx.fits
  have hquotient : (2 ^ 64 - 1 - 4096) / recordBytes ≤ 2 ^ 64 - 1 - 4096 := Nat.div_le_self ..
  omega

theorem leBytes_inj (hb : b < 2 ^ 64) (hb' : b' < 2 ^ 64) (h : Layout.leBytes 8 b = Layout.leBytes 8 b') : b = b' := by
  have hvalue := congrArg Layout.leValue h
  rwa [Layout.leValue_leBytes, Layout.leValue_leBytes, show 256 ^ 8 = 2 ^ 64 by norm_num, Nat.mod_eq_of_lt hb,
    Nat.mod_eq_of_lt hb'] at hvalue

theorem blockAad_injective (hb : b < 2 ^ 64) (hb' : b' < 2 ^ 64) (h : ctx.blockAad b d = ctx.blockAad b' d') :
    b = b' ∧ d = d' := by
  unfold EncryptedContext.blockAad at h
  rw [List.append_assoc, List.append_assoc, List.append_cancel_left_eq] at h
  obtain ⟨hlogical, hdomain⟩ := List.append_inj h (by rw [Layout.length_leBytes, Layout.length_leBytes])
  refine ⟨leBytes_inj hb hb' hlogical, ?_⟩
  split_ifs at hdomain with hd hd' hd'
  · rw [hd, hd']
  · exact (List.cons.inj hdomain).1

theorem length_sealRecord (hc : ctx.Correct) (hplain : plain.length = 4096) :
    (ctx.sealRecord b d nonce plain).length = recordBytes := by
  rw [EncryptedContext.sealRecord, List.length_append, List.length_append, hc.lengthTag, hc.lengthCipher, hplain,
    Vector.length_toList]
  rfl

theorem sealRecord_nonce : (ctx.sealRecord b d nonce plain).take 12 = nonce.toList := by
  rw [EncryptedContext.sealRecord, List.append_assoc, List.take_left' (Vector.length_toList ..)]

variable (hc : ctx.Correct)

include hc

theorem sealRecord_tag : ((ctx.sealRecord b d nonce plain).drop 12).take 16 =
    (ctx.aead.encrypt (ctx.domainKey d) nonce.toList (ctx.blockAad b d) plain).2 := by
  rw [EncryptedContext.sealRecord, List.append_assoc, List.drop_left' (Vector.length_toList ..),
    List.take_left' (hc.lengthTag ..)]

theorem sealRecord_cipher : (ctx.sealRecord b d nonce plain).drop 28 =
    (ctx.aead.encrypt (ctx.domainKey d) nonce.toList (ctx.blockAad b d) plain).1 := by
  rw [EncryptedContext.sealRecord, List.drop_left']
  rw [List.length_append, Vector.length_toList, hc.lengthTag]

theorem openRecord_sealRecord : ctx.openRecord d b (ctx.sealRecord b d nonce plain) = .ok plain := by
  rw [EncryptedContext.openRecord, sealRecord_nonce, sealRecord_tag hc, sealRecord_cipher hc, hc.inverts]

theorem openRecord_other (hb : b < 2 ^ 64) (hb' : b' < 2 ^ 64) (h : b = b' → d ≠ d') :
    ctx.openRecord d' b' (ctx.sealRecord b d nonce plain) = .error .corrupt := by
  rw [EncryptedContext.openRecord, sealRecord_nonce, sealRecord_tag hc, sealRecord_cipher hc,
    hc.rejects _ _ _ _ _ _ hb hb']
  intro heq
  obtain ⟨hlogical, hdomain⟩ := blockAad_injective hb' hb (Prod.mk.inj heq).2
  exact h hlogical.symm hdomain.symm

end Records

section Blocks

variable {ctx : EncryptedContext} {v : FlatVolume} {medium medium' : Nat → UInt8} {env : Surroundings} {b : Nat} {d : UInt8}
  {plain : Bytes}

theorem encryptedReadBlock_iff :
    encryptedReadBlock ctx.cipher (deviceRead medium env.fetch) d b = .ok plain ↔ b < ctx.logicalBlocks ∧
      env.fetch (4096 + b * recordBytes) recordBytes = .ok ∧
      ctx.openRecord d b (slice medium (4096 + b * recordBytes) recordBytes) = .ok plain := by
  have hfits := ctx.fits
  have hrange : ¬(ctx.cipher.logicalBlocks ≤ b ∨ (2 ^ 64 - 1 - 4096) / recordBytes < b) ↔ b < ctx.logicalBlocks := by
    simp only [EncryptedContext.cipher]
    omega
  unfold encryptedReadBlock
  rw [except_guard_eq_ok, hrange]
  refine and_congr_right fun _ => ?_
  cases hread : deviceRead medium env.fetch (4096 + b * recordBytes) recordBytes with
  | error status =>
    refine iff_of_false (by simp) fun h => ?_
    rw [deviceRead_ok h.1] at hread
    cases hread
  | ok record =>
    obtain ⟨hfetch, hrecord⟩ := deviceRead_eq_ok hread
    rw [and_iff_right hfetch, ← hrecord]
    rfl

theorem holds_openRecord (hc : ctx.Correct) (hb : b < ctx.logicalBlocks) (hv : HoldsBlock ctx v medium b) :
    ctx.openRecord d b (slice medium (4096 + b * recordBytes) recordBytes) = .ok plain ↔
      v.domain b = d ∧ plain = slice v.bytes (b * 4096) 4096 := by
  obtain ⟨nonce, hnonce⟩ := hv
  rw [hnonce]
  by_cases hd : v.domain b = d
  · rw [hd, openRecord_sealRecord hc, Except.ok.injEq, and_iff_right rfl, eq_comm]
  · rw [openRecord_other hc (logical_lt hb) (logical_lt hb) fun _ => hd]
    simp [hd]

theorem holds_readBlock (hc : ctx.Correct) (hv : b < ctx.logicalBlocks → HoldsBlock ctx v medium b) :
    encryptedReadBlock ctx.cipher (deviceRead medium env.fetch) d b = .ok plain ↔ b < ctx.logicalBlocks ∧
      env.fetch (4096 + b * recordBytes) recordBytes = .ok ∧ v.domain b = d ∧ plain = slice v.bytes (b * 4096) 4096 := by
  rw [encryptedReadBlock_iff]
  exact and_congr_right fun hb => and_congr_right fun _ => holds_openRecord hc hb (hv hb)

theorem encryptedWriteBlock_iff : encryptedWriteBlock ctx env d b plain medium = (.ok (), medium') ↔ b < ctx.logicalBlocks ∧
    ∃ nonce, env.nonce b = .ok nonce ∧ (env.store b).status = .ok ∧
      medium' = overlay medium (4096 + b * recordBytes) (ctx.sealRecord b d nonce plain) := by
  have hfits := ctx.fits
  have hrange : ¬(ctx.logicalBlocks ≤ b ∨ (2 ^ 64 - 1 - 4096) / recordBytes < b) ↔ b < ctx.logicalBlocks := by omega
  unfold encryptedWriteBlock
  rw [guard_eq_ok, hrange]
  refine and_congr_right fun _ => ?_
  rw [bind_eq_ok]
  simp only [ofExcept_apply, Prod.mk.injEq]
  constructor
  · rintro ⟨nonce, _, ⟨hnonce, rfl⟩, h⟩
    rw [bind_of_ok (modify_apply ..)] at h
    split at h
    · rename_i hok
      obtain ⟨-, rfl⟩ := Prod.mk.inj h
      exact ⟨nonce, hnonce, hok, deviceWrite_ok hok⟩
    · cases h
  · rintro ⟨nonce, hnonce, hok, rfl⟩
    refine ⟨nonce, medium, ⟨hnonce, rfl⟩, ?_⟩
    rw [bind_of_ok (modify_apply ..), if_pos hok, deviceWrite_ok hok]
    rfl

theorem HoldsBlock.apart {record : Bytes} {c : Nat} (h : HoldsBlock ctx v medium c) (hlength : record.length = recordBytes)
    (hne : c ≠ b) : HoldsBlock ctx v (overlay medium (4096 + b * recordBytes) record) c := by
  obtain ⟨old, hold⟩ := h
  refine ⟨old, ?_⟩
  rw [slice_overlay_apart, hold]
  rw [hlength]
  rintro ⟨p, hp⟩
  simp only [recordBytes] at hp
  omega

theorem HoldsBlock.store (hc : ctx.Correct) {v' : FlatVolume} {nonce : Nonce} {c : Nat}
    (hv : c ≠ b → HoldsBlock ctx v medium c ∧ v'.domain c = v.domain c ∧
      slice v'.bytes (c * 4096) 4096 = slice v.bytes (c * 4096) 4096) :
    HoldsBlock ctx v' (overlay medium (4096 + b * recordBytes)
      (ctx.sealRecord b (v'.domain b) nonce (slice v'.bytes (b * 4096) 4096))) c := by
  have hlength : (ctx.sealRecord b (v'.domain b) nonce (slice v'.bytes (b * 4096) 4096)).length = recordBytes :=
    length_sealRecord hc (length_slice ..)
  by_cases heq : c = b
  · subst heq
    refine ⟨nonce, ?_⟩
    have hself := slice_overlay_self medium (4096 + c * recordBytes)
      (ctx.sealRecord c (v'.domain c) nonce (slice v'.bytes (c * 4096) 4096))
    rwa [hlength] at hself
  · obtain ⟨hold, hdomain, hbytes⟩ := hv heq
    rw [HoldsBlock, hdomain, hbytes]
    exact hold.apart hlength heq

end Blocks

section Writes

variable {ctx : EncryptedContext} {v : FlatVolume} {medium medium' : Nat → UInt8} {env : Surroundings} {d : UInt8}
  {position : Nat} {piece : Bytes}

/-- Nothing that the code asks for fails. -/
structure Surroundings.Faultless (env : Surroundings) : Prop where
  fetch : ∀ offset size, env.fetch offset size = .ok
  nonce : ∀ b, ∃ nonce, env.nonce b = .ok nonce
  store : ∀ b, (env.store b).status = .ok

theorem encryptedFetchBlock_ok {b : Nat} {block : Bytes}
    (h : encryptedFetchBlock ctx env d b medium = (.ok block, medium')) :
    medium' = medium ∧ encryptedReadBlock ctx.cipher (deviceRead medium env.fetch) d b = .ok block := by
  unfold encryptedFetchBlock at h
  rw [bind_of_ok (get_apply medium), ofExcept_apply] at h
  obtain ⟨hblock, rfl⟩ := Prod.mk.inj h
  exact ⟨rfl, hblock⟩

theorem slice_write (v : FlatVolume) (hpiece : position % 4096 + piece.length ≤ 4096) :
    slice (v.write d position piece).bytes (position / 4096 * 4096) 4096 =
      (slice v.bytes (position / 4096 * 4096) 4096).take (position % 4096) ++ piece ++
        (slice v.bytes (position / 4096 * 4096) 4096).drop (position % 4096 + piece.length) := by
  have hposition : position / 4096 * 4096 + position % 4096 = position := Nat.div_add_mod' position 4096
  show slice (overlay v.bytes position piece) _ _ = _
  rw [← slice_overlay_splice hpiece, hposition]

theorem write_other (v : FlatVolume) (hpiece : position % 4096 + piece.length ≤ 4096) {c : Nat}
    (hc : c ≠ position / 4096) : (v.write d position piece).domain c = v.domain c ∧
      slice (v.write d position piece).bytes (c * 4096) 4096 = slice v.bytes (c * 4096) 4096 := by
  constructor
  · exact if_neg (by omega)
  · apply slice_overlay_apart
    rintro ⟨p, hp⟩
    omega

theorem write_nil (v : FlatVolume) (d : UInt8) (offset : Nat) : v.write d offset [] = v := by
  unfold FlatVolume.write
  congr 1
  · funext p
    exact overlay_outside (by simp only [List.length_nil]; omega)
  · funext b
    exact if_neg (by simp only [List.length_nil]; omega)

def Partly (offset size b : Nat) : Prop :=
  Overlap (b * 4096) 4096 offset size ∧ ¬(offset ≤ b * 4096 ∧ (b + 1) * 4096 ≤ offset + size)

theorem partly_rest {offset size chunk b : Nat} (h : Partly offset size b) (hchunk : chunk = min (4096 - offset % 4096) size)
    (hb : b ≠ offset / 4096) : Partly (offset + chunk) (size - chunk) b := by
  obtain ⟨⟨p, hp⟩, hpart⟩ := h
  exact ⟨⟨p, by omega⟩, by omega⟩

/-- What writes the data from a position on. A block of which a part is
written has been read under the domain, and nothing else can stop it. -/
structure WritesRest (ctx : EncryptedContext) (env : Surroundings) (d : UInt8) (offset : Nat) (data : Bytes) (done : Nat)
    (v : FlatVolume) (medium : Nat → UInt8) (x : EncryptedM Unit) : Prop where
  holds : ∀ medium', x medium = (.ok (), medium') → Holds ctx (v.write d (offset + done) (data.drop done)) medium' ∧
    ∀ b, Partly (offset + done) (data.length - done) b → v.domain b = d
  served : env.Faultless → offset + data.length ≤ ctx.logicalBlocks * 4096 →
    (∀ b, Partly (offset + done) (data.length - done) b → v.domain b = d) → ∃ medium', x medium = (.ok (), medium')

variable (hc : ctx.Correct)
include hc

theorem encryptedAround_ok {block : Bytes} (hv : Holds ctx v medium)
    (hpiece : position % 4096 + piece.length ≤ 4096)
    (h : encryptedAround ctx env d position piece medium = (.ok block, medium')) :
    medium' = medium ∧ (v.write d position piece).domain (position / 4096) = d ∧
      (piece.length ≠ 4096 → v.domain (position / 4096) = d) ∧
      block.take (position % 4096) ++ piece ++ block.drop (position % 4096 + piece.length) =
        slice (v.write d position piece).bytes (position / 4096 * 4096) 4096 := by
  unfold encryptedAround at h
  rw [slice_write v hpiece]
  split at h
  · obtain ⟨hmedium, hread⟩ := encryptedFetchBlock_ok h
    obtain ⟨-, -, hd, hblock⟩ := (holds_readBlock hc (hv _)).mp hread
    refine ⟨hmedium, ?_, fun _ => hd, by rw [hblock]⟩
    simp only [FlatVolume.write, hd, ite_self]
  · rename_i hwhole
    rw [not_or, not_not, not_not] at hwhole
    obtain ⟨hblock, hmedium⟩ := Prod.mk.inj h
    refine ⟨hmedium.symm, if_pos (by omega), fun hne => absurd hwhole.2 hne, ?_⟩
    rw [hwhole.1, hwhole.2, List.take_zero, List.take_zero, ← Except.ok.inj hblock]
    rw [List.drop_eq_nil_of_le (by rw [List.length_replicate]), List.drop_eq_nil_of_le (by rw [length_slice])]

theorem holds_writeChunk (hv : Holds ctx v medium) (hpiece : position % 4096 + piece.length ≤ 4096)
    (h : encryptedWriteChunk ctx env d position piece medium = (.ok (), medium')) :
    Holds ctx (v.write d position piece) medium' ∧ (piece.length ≠ 4096 → v.domain (position / 4096) = d) := by
  obtain ⟨block, t, hblock, hwrite⟩ := bind_eq_ok.mp h
  obtain ⟨rfl, hdomain, hpartly, hbytes⟩ := encryptedAround_ok hc hv hpiece hblock
  rw [hbytes] at hwrite
  obtain ⟨-, nonce, -, -, rfl⟩ := encryptedWriteBlock_iff.mp hwrite
  refine ⟨?_, hpartly⟩
  have hstore : Holds ctx (v.write d position piece) (overlay t (4096 + position / 4096 * recordBytes) (ctx.sealRecord
      (position / 4096) ((v.write d position piece).domain (position / 4096)) nonce
      (slice (v.write d position piece).bytes (position / 4096 * 4096) 4096))) :=
    fun c hlt => .store hc fun hne => ⟨hv c hlt, write_other v hpiece hne⟩
  rwa [hdomain] at hstore

theorem encryptedWriteChunk_total (hv : Holds ctx v medium) (henv : env.Faultless)
    (hblock : position / 4096 < ctx.logicalBlocks) (hdomain : piece.length ≠ 4096 → v.domain (position / 4096) = d)
    (hpiece : position % 4096 + piece.length ≤ 4096) :
    ∃ medium', encryptedWriteChunk ctx env d position piece medium = (.ok (), medium') := by
  obtain ⟨nonce, hnonce⟩ := henv.nonce (position / 4096)
  have haround : ∃ block, encryptedAround ctx env d position piece medium = (.ok block, medium) := by
    unfold encryptedAround
    split
    · rename_i hpart
      refine ⟨slice v.bytes (position / 4096 * 4096) 4096, ?_⟩
      unfold encryptedFetchBlock
      rw [bind_of_ok (get_apply medium), ofExcept_apply,
        (holds_readBlock hc (hv _)).mpr ⟨hblock, henv.fetch _ _, hdomain (by omega), rfl⟩]
    · exact ⟨_, rfl⟩
  obtain ⟨block, hblock'⟩ := haround
  unfold encryptedWriteChunk
  rw [bind_of_ok hblock', encryptedWriteBlock_iff.mpr ⟨hblock, nonce, hnonce, henv.store _, rfl⟩]
  exact ⟨_, rfl⟩

theorem holds_writeLoop (offset : Nat) (data : Bytes) (fuel : Nat) :
    ∀ (done : Nat) (v : FlatVolume) (medium : Nat → UInt8), Holds ctx v medium → data.length ≤ done + fuel →
      WritesRest ctx env d offset data done v medium (encryptedWriteLoop ctx env d offset data fuel done) := by
  have hend (done : Nat) (v : FlatVolume) (medium : Nat → UInt8) (hv : Holds ctx v medium) (hdone : data.length ≤ done) :
      WritesRest ctx env d offset data done v medium (pure ()) := by
    refine ⟨?_, fun _ _ _ => ⟨medium, rfl⟩⟩
    rintro _ ⟨⟩
    rw [List.drop_eq_nil_of_le hdone, write_nil]
    refine ⟨hv, ?_⟩
    rintro b ⟨⟨p, hp⟩, -⟩
    omega
  induction fuel with
  | zero => exact hend
  | succ fuel ih =>
    intro done v medium hv hfuel
    unfold encryptedWriteLoop
    split
    · rename_i hdone
      exact hend done v medium hv hdone
    · rename_i hmore
      dsimp only
      generalize hchunk : min (4096 - (offset + done) % 4096) (data.length - done) = chunk
      have hlength : ((data.drop done).take chunk).length = chunk := by
        rw [List.length_take, List.length_drop]
        omega
      have hnext (t : Nat → UInt8) (hstep : encryptedWriteChunk ctx env d (offset + done) ((data.drop done).take chunk) medium =
          (.ok (), t)) := holds_writeChunk hc hv (by omega) hstep
      constructor
      · intro medium' h
        obtain ⟨_, t, hstep, hrest⟩ := bind_eq_ok.mp h
        obtain ⟨hheld, hfirst⟩ := hnext t hstep
        obtain ⟨hwhole, hpartly⟩ := (ih (done + chunk) _ t hheld (by omega)).holds medium' hrest
        constructor
        · -- a chunk ends with its block or with the data
          have happend := v.write_append d (offset + done) ((data.drop done).take chunk) ((data.drop done).drop chunk) (by
            rw [hlength]
            by_cases hlast : data.length ≤ done + chunk
            · exact .inr (by rw [List.drop_drop]; exact List.drop_eq_nil_of_le hlast)
            · exact .inl (by omega))
          rw [List.take_append_drop, hlength, List.drop_drop, Nat.add_assoc] at happend
          rwa [happend] at hwhole
        · intro b hb
          by_cases heq : b = (offset + done) / 4096
          · subst heq
            apply hfirst
            rw [hlength]
            intro hfull
            exact hb.2 (by omega)
          · have hlater := hpartly b (by
              have := partly_rest hb hchunk.symm heq
              rwa [Nat.add_assoc, Nat.sub_sub] at this)
            rwa [(write_other v (by omega) heq).1] at hlater
      · intro henv hsize hpartly
        have hfirst : ((data.drop done).take chunk).length ≠ 4096 → v.domain ((offset + done) / 4096) = d := fun hne =>
          hpartly _ ⟨⟨offset + done, by omega⟩, by omega⟩
        obtain ⟨t, ht⟩ := encryptedWriteChunk_total hc hv henv (by omega) hfirst (by omega)
        rw [bind_of_ok ht]
        refine (ih (done + chunk) _ t (hnext t ht).1 (by omega)).served henv hsize ?_
        rintro b ⟨⟨p, hp⟩, hpart⟩
        rw [(write_other v (by omega) (by omega)).1]
        exact hpartly b ⟨⟨p, by omega⟩, by omega⟩

theorem holds_writePolicy (hv : Holds ctx v medium) {policy : Option IoPolicy} {offset : Nat} {data : Bytes}
    (h : encryptedWritePolicy ctx env policy offset data medium = (.ok (), medium')) :
    Holds ctx (v.write (policyDomain policy) offset data) medium' ∧
      ∀ b, Partly offset data.length b → v.domain b = policyDomain policy := by
  unfold encryptedWritePolicy at h
  split at h
  · cases h
  · have hloop := (holds_writeLoop hc offset data data.length 0 v medium hv (by omega)).holds _ h
    simpa using hloop

end Writes

section Reads

variable {ctx : EncryptedContext} {v : FlatVolume} {medium : Nat → UInt8} {env : Surroundings} {offset size : Nat}
  {bytes : Bytes} {policy : Option IoPolicy}

theorem encryptedReadLoop_iff {readBlock : Nat → Except Status Bytes}
    (hblock : ∀ b plain, readBlock b = .ok plain → plain = slice v.bytes (b * 4096) 4096) (fuel : Nat) :
    ∀ buffer : Bytes, buffer = slice v.bytes offset buffer.length → buffer.length ≤ size → size ≤ buffer.length + fuel →
      (encryptedReadLoop readBlock offset size fuel buffer = .ok bytes ↔ bytes = slice v.bytes offset size ∧
        ∀ b, Overlap (b * 4096) 4096 (offset + buffer.length) (size - buffer.length) → ∃ plain, readBlock b = .ok plain) := by
  have hend (buffer : Bytes) (hbuffer : buffer = slice v.bytes offset buffer.length) (hle : buffer.length ≤ size)
      (hsize : size ≤ buffer.length) : .ok buffer = (.ok bytes : Except Status Bytes) ↔ bytes = slice v.bytes offset size ∧
        ∀ b, Overlap (b * 4096) 4096 (offset + buffer.length) (size - buffer.length) → ∃ plain, readBlock b = .ok plain := by
    rw [Nat.le_antisymm hle hsize] at hbuffer ⊢
    rw [Except.ok.injEq, eq_comm, hbuffer, and_iff_left]
    rintro b ⟨p, hp⟩
    omega
  induction fuel with
  | zero => exact hend
  | succ fuel ih =>
    intro buffer hbuffer hle hfuel
    unfold encryptedReadLoop
    split
    · rename_i hdone
      exact hend buffer hbuffer hle hdone
    · dsimp only
      generalize hchunk : min (4096 - (offset + buffer.length) % 4096) (size - buffer.length) = chunk
      cases hread : readBlock ((offset + buffer.length) / 4096) with
      | error status =>
        refine iff_of_false (by simp) fun h => ?_
        obtain ⟨plain, hplain⟩ := h.2 ((offset + buffer.length) / 4096) ⟨offset + buffer.length, by omega⟩
        rw [hread] at hplain
        cases hplain
      | ok block =>
        dsimp only
        have hpiece : buffer ++ slice v.bytes (offset + buffer.length) chunk = slice v.bytes offset (buffer.length + chunk) := by
          rw [slice_add, ← hbuffer]
        rw [hblock _ _ hread, drop_take_slice (by omega), Nat.div_add_mod', hpiece]
        rw [ih _ (by rw [length_slice]) (by rw [length_slice]; omega) (by rw [length_slice]; omega), length_slice]
        refine and_congr_right fun _ => forall_congr' fun b => ⟨fun h hb => ?_, fun h hb => ?_⟩
        · by_cases heq : b = (offset + buffer.length) / 4096
          · exact ⟨block, heq ▸ hread⟩
          · obtain ⟨p, hp⟩ := hb
            exact h ⟨p, by omega⟩
        · obtain ⟨p, hp⟩ := hb
          exact h ⟨p, by omega⟩

theorem encryptedReadPolicy_iff
    (hblock : ∀ b plain, encryptedReadBlock ctx.cipher (deviceRead medium env.fetch) (policyDomain policy) b = .ok plain →
      plain = slice v.bytes (b * 4096) 4096) :
    (encryptedReadPolicy ctx env policy offset size medium).1 = .ok bytes ↔
      (offset ≤ ctx.logicalBlocks * 4096 ∧ size ≤ ctx.logicalBlocks * 4096 - offset) ∧ bytes = slice v.bytes offset size ∧
      ∀ b, Overlap (b * 4096) 4096 offset size →
        ∃ plain, encryptedReadBlock ctx.cipher (deviceRead medium env.fetch) (policyDomain policy) b = .ok plain := by
  unfold encryptedReadPolicy
  rw [bind_of_ok (get_apply medium), ofExcept_apply, encryptedRead, except_guard_eq_ok,
    encryptedReadLoop_iff hblock size [] rfl (Nat.zero_le _) (by simp), not_or, Nat.not_lt, Nat.not_lt]
  rfl

theorem holds_readPolicy (hc : ctx.Correct) (hv : Holds ctx v medium)
    (h : (encryptedReadPolicy ctx env policy offset size medium).1 = .ok bytes) :
    bytes = slice v.bytes offset size ∧ ∀ b, Overlap (b * 4096) 4096 offset size → v.domain b = policyDomain policy := by
  obtain ⟨-, hbytes, hread⟩ := (encryptedReadPolicy_iff fun b plain hread => ((holds_readBlock hc (hv b)).mp hread).2.2.2).mp h
  refine ⟨hbytes, fun b hb => ?_⟩
  obtain ⟨plain, hplain⟩ := hread b hb
  exact ((holds_readBlock hc (hv b)).mp hplain).2.2.1

end Reads

section Service

variable {ctx : EncryptedContext} {v : FlatVolume} {medium : Nat → UInt8} {env : Surroundings} {policy : Option IoPolicy}
  {offset : Nat}

variable (hc : ctx.Correct)

include hc

theorem encryptedReadPolicy_total (hv : Holds ctx v medium) (henv : env.Faultless) {size : Nat}
    (hsize : offset + size ≤ ctx.logicalBlocks * 4096)
    (hdomain : ∀ b, Overlap (b * 4096) 4096 offset size → v.domain b = policyDomain policy) :
    (encryptedReadPolicy ctx env policy offset size medium).1 = .ok (slice v.bytes offset size) := by
  rw [encryptedReadPolicy_iff fun b plain hread => ((holds_readBlock hc (hv b)).mp hread).2.2.2]
  refine ⟨by omega, rfl, ?_⟩
  rintro b ⟨p, hp⟩
  exact ⟨_, (holds_readBlock hc (hv b)).mpr ⟨by omega, henv.fetch _ _, hdomain b ⟨p, hp⟩, rfl⟩⟩

theorem encryptedWritePolicy_total (hv : Holds ctx v medium) (henv : env.Faultless) {data : Bytes}
    (hsize : offset + data.length ≤ ctx.logicalBlocks * 4096)
    (hdomain : ∀ b, Partly offset data.length b → v.domain b = policyDomain policy) :
    ∃ medium', encryptedWritePolicy ctx env policy offset data medium = (.ok (), medium') := by
  unfold encryptedWritePolicy
  rw [if_neg (by omega)]
  exact (holds_writeLoop hc offset data _ 0 v medium hv (by omega)).served henv hsize (by simpa using hdomain)

end Service

section Format

variable {ctx : EncryptedContext} {env : Surroundings} {medium' : Nat → UInt8}

theorem slice_formatted (b : Nat) : List.replicate 4096 0 = slice FlatVolume.formatted.bytes (b * 4096) 4096 := by
  rw [slice, FlatVolume.formatted, List.map_const', List.length_range]

theorem holds_formatLoop (hc : ctx.Correct) (blocks : List Nat) :
    ∀ medium, encryptedFormatLoop ctx env blocks medium = (.ok (), medium') →
      ∀ c, HoldsBlock ctx .formatted medium c ∨ c ∈ blocks → HoldsBlock ctx .formatted medium' c := by
  induction blocks with
  | nil =>
    intro medium h c hheld
    obtain ⟨-, rfl⟩ := Prod.mk.inj h
    exact hheld.resolve_right List.not_mem_nil
  | cons b rest ih =>
    intro medium h c hheld
    obtain ⟨_, t, hwrite, hrest⟩ := bind_eq_ok.mp h
    rw [slice_formatted b] at hwrite
    obtain ⟨-, nonce, -, -, rfl⟩ := encryptedWriteBlock_iff.mp hwrite
    apply ih _ hrest
    by_cases hin : c ∈ rest
    · exact .inr hin
    · refine .inl (.store hc fun hne => ⟨?_, rfl, rfl⟩)
      rcases hheld with hheld | hheld
      · exact hheld
      · exact absurd hheld (by simp [hne, hin])

theorem holds_format (hc : ctx.Correct) {header : Bytes} {medium : Nat → UInt8}
    (h : encryptedFormat ctx env header medium = (.ok (), medium')) : Holds ctx .formatted medium' := by
  obtain ⟨_, t, -, hloop⟩ := bind_eq_ok.mp h
  exact fun b hb => holds_formatLoop hc _ t hloop b (.inr (List.mem_range.mpr hb))

theorem encryptedFormatLoop_total (henv : env.Faultless) (blocks : List Nat) (hblocks : ∀ b ∈ blocks, b < ctx.logicalBlocks) :
    ∀ medium, ∃ medium', encryptedFormatLoop ctx env blocks medium = (.ok (), medium') := by
  induction blocks with
  | nil => exact fun medium => ⟨medium, rfl⟩
  | cons b rest ih =>
    intro medium
    obtain ⟨nonce, hnonce⟩ := henv.nonce b
    unfold encryptedFormatLoop
    rw [bind_of_ok (encryptedWriteBlock_iff.mpr ⟨hblocks b List.mem_cons_self, nonce, hnonce, henv.store b, rfl⟩)]
    exact ih (fun c hc => hblocks c (List.mem_cons_of_mem b hc)) _

end Format

section Runs

inductive EncryptedOp
  | read (policy : Option IoPolicy) (offset size : Nat) (env : Surroundings)
  | write (policy : Option IoPolicy) (offset : Nat) (data : Bytes) (env : Surroundings)

def EncryptedOp.apply (ctx : EncryptedContext) : EncryptedOp → EncryptedM Unit
  | .read policy offset size env => do
    let _ ← encryptedReadPolicy ctx env policy offset size
    pure ()
  | .write policy offset data env => encryptedWritePolicy ctx env policy offset data

def encryptedRun (ctx : EncryptedContext) : List EncryptedOp → EncryptedM Unit
  | [] => pure ()
  | op :: ops => do
    op.apply ctx
    encryptedRun ctx ops

def FlatVolume.run (v : FlatVolume) : List EncryptedOp → FlatVolume
  | [] => v
  | .read .. :: ops => v.run ops
  | .write policy offset data _ :: ops => (v.write (policyDomain policy) offset data).run ops

variable {ctx : EncryptedContext} {v : FlatVolume} {medium medium' : Nat → UInt8}

theorem encryptedReadPolicy_medium {env : Surroundings} {policy : Option IoPolicy} {offset size : Nat} :
    (encryptedReadPolicy ctx env policy offset size medium).2 = medium := by
  unfold encryptedReadPolicy
  rw [bind_of_ok (get_apply medium), ofExcept_apply]

theorem holds_run (hc : ctx.Correct) (ops : List EncryptedOp) :
    ∀ v medium, Holds ctx v medium → encryptedRun ctx ops medium = (.ok (), medium') → Holds ctx (v.run ops) medium' := by
  induction ops with
  | nil =>
    intro v medium hv h
    obtain ⟨-, rfl⟩ := Prod.mk.inj h
    exact hv
  | cons op ops ih =>
    intro v medium hv h
    obtain ⟨_, t, hop, hrest⟩ := bind_eq_ok.mp h
    cases op with
    | read policy offset size env =>
      obtain ⟨bytes, u, hread, hend⟩ := bind_eq_ok.mp hop
      obtain ⟨-, rfl⟩ := Prod.mk.inj hend
      have hmedium : medium = u := encryptedReadPolicy_medium.symm.trans (congrArg Prod.snd hread)
      subst hmedium
      exact ih v _ hv hrest
    | write policy offset data env => exact ih _ t (holds_writePolicy hc hv hop).1 hrest

/-- A medium presents a flat volume. Reads that succeed return its bytes, and
they do succeed where nothing fails; a write changes the bytes of its range;
an access under another domain than that of the block fails, as does every
read of a block whose record was replaced by that of another. -/
structure Presents (ctx : EncryptedContext) (v : FlatVolume) (medium : Nat → UInt8) : Prop where
  read : ∀ env policy offset size bytes, (encryptedReadPolicy ctx env policy offset size medium).1 = .ok bytes →
    bytes = slice v.bytes offset size
  served : ∀ env policy offset size, Surroundings.Faultless env → offset + size ≤ ctx.logicalBlocks * 4096 →
    (∀ b, Overlap (b * 4096) 4096 offset size → v.domain b = policyDomain policy) →
    (encryptedReadPolicy ctx env policy offset size medium).1 = .ok (slice v.bytes offset size)
  write : ∀ env policy offset data medium', encryptedWritePolicy ctx env policy offset data medium = (.ok (), medium') →
    ∀ env' policy' start count bytes, (encryptedReadPolicy ctx env' policy' start count medium').1 = .ok bytes →
      bytes = slice (overlay v.bytes offset data) start count
  foreignRead : ∀ env policy offset size b, Overlap (b * 4096) 4096 offset size → v.domain b ≠ policyDomain policy →
    ∀ bytes, (encryptedReadPolicy ctx env policy offset size medium).1 ≠ .ok bytes
  foreignWrite : ∀ env policy offset data b, Partly offset (List.length data) b → v.domain b ≠ policyDomain policy →
    (encryptedWritePolicy ctx env policy offset data medium).1 ≠ .ok ()
  replaced : ∀ b b' domain nonce plain, b < ctx.logicalBlocks → b' < ctx.logicalBlocks → b' ≠ b →
    List.length plain = 4096 → ∀ env policy offset size, Overlap (b * 4096) 4096 offset size →
    ∀ bytes, (encryptedReadPolicy ctx env policy offset size
      (overlay medium (4096 + b * recordBytes) (ctx.sealRecord b' domain nonce plain))).1 ≠ .ok bytes

theorem readBlock_replaced (hc : ctx.Correct) {b b' : Nat} {domain d : UInt8} {nonce : Nonce} {plain bytes : Bytes}
    {env : Surroundings} (hb : b < ctx.logicalBlocks) (hb' : b' < ctx.logicalBlocks) (hne : b' ≠ b)
    (hplain : plain.length = 4096) :
    encryptedReadBlock ctx.cipher (deviceRead (overlay medium (4096 + b * recordBytes) (ctx.sealRecord b' domain nonce plain))
      env.fetch) d b ≠ .ok bytes := by
  have hself := slice_overlay_self medium (4096 + b * recordBytes) (ctx.sealRecord b' domain nonce plain)
  rw [length_sealRecord hc hplain] at hself
  rw [Ne, encryptedReadBlock_iff, hself, openRecord_other hc (logical_lt hb') (logical_lt hb) fun heq => absurd heq hne]
  simp

theorem Holds.presents (hc : ctx.Correct) (hv : Holds ctx v medium) : Presents ctx v medium where
  read _ _ _ _ _ h := (holds_readPolicy hc hv h).1
  served _ _ _ _ henv hsize hdomain := encryptedReadPolicy_total hc hv henv hsize hdomain
  write _ _ _ _ _ hwrite _ _ _ _ _ h := (holds_readPolicy hc (holds_writePolicy hc hv hwrite).1 h).1
  foreignRead _ _ _ _ b hb hd _ h := hd ((holds_readPolicy hc hv h).2 b hb)
  foreignWrite _ _ _ _ b hb hd h := hd ((holds_writePolicy hc hv (Prod.ext h rfl)).2 b hb)
  replaced b b' domain nonce plain hb hb' hne hplain env policy offset size hoverlap bytes h := by
    have hblock (c : Nat) (bytes : Bytes)
        (hread : encryptedReadBlock ctx.cipher (deviceRead (overlay medium (4096 + b * recordBytes)
          (ctx.sealRecord b' domain nonce plain)) env.fetch) (policyDomain policy) c = .ok bytes) :
        c ≠ b ∧ bytes = slice v.bytes (c * 4096) 4096 := by
      have hother : c ≠ b := by
        rintro rfl
        exact readBlock_replaced hc hb hb' hne hplain hread
      exact ⟨hother, ((holds_readBlock hc fun hlt => (hv c hlt).apart (length_sealRecord hc hplain) hother).mp hread).2.2.2⟩
    obtain ⟨plain, hread⟩ := ((encryptedReadPolicy_iff fun c bytes hread => (hblock c bytes hread).2).mp h).2.2 b hoverlap
    exact (hblock b plain hread).1 rfl

/-- An encrypted volume is a flat array of bytes: after every run of
successful reads and writes of a formatted one, the medium presents what the
writes have made of the zeros. -/
theorem encrypted_flat (hc : ctx.Correct) {blank formatted : Nat → UInt8} {header : Bytes} {env : Surroundings}
    {ops : List EncryptedOp} (hformat : encryptedFormat ctx env header blank = (.ok (), formatted))
    (hrun : encryptedRun ctx ops formatted = (.ok (), medium)) : Presents ctx (FlatVolume.formatted.run ops) medium :=
  (holds_run hc ops _ formatted (holds_format hc hformat) hrun).presents hc

end Runs

section Example

/-- A cipher in the clear whose tag is what follows the salt in the associated
data. -/
def clearAead : Aead where
  encrypt _ _ aad plain := (plain, ((aad.drop 16) ++ List.replicate 16 0).take 16)
  decrypt _ _ aad text tag := if tag = ((aad.drop 16) ++ List.replicate 16 0).take 16 then some text else none
  hmac key _ := key

def clearVolume : EncryptedContext where
  aead := clearAead
  logicalBlocks := 2
  salt := Vector.replicate 16 0
  volumeKey := Vector.replicate 32 0
  fits := by decide

theorem clearVolume_tag (b : Nat) (d : UInt8) :
    (((clearVolume.blockAad b d).drop 16) ++ List.replicate 16 0).take 16 = Layout.leBytes 8 b ++ d :: List.replicate 7 0 := by
  have hdrop : (clearVolume.blockAad b d).drop 16 = Layout.leBytes 8 b ++ if d = 0 then [] else [d] := by
    rw [EncryptedContext.blockAad, List.append_assoc, List.drop_left' (Vector.length_toList ..)]
  rw [hdrop, List.append_assoc, List.take_append, Layout.length_leBytes, List.take_of_length_le (by simp)]
  by_cases hd : d = 0
  · rw [if_pos hd, hd]
    rfl
  · rw [if_neg hd]
    rfl

theorem clearVolume_correct : clearVolume.Correct where
  lengthCipher _ _ _ _ := rfl
  lengthTag key nonce aad plain := by
    show ((aad.drop 16 ++ List.replicate 16 0).take 16).length = 16
    rw [List.length_take, List.length_append, List.length_replicate]
    omega
  inverts _ _ _ _ := if_pos rfl
  rejects nonce plain b d b' d' hb hb' hne := by
    apply if_neg
    show ¬(((clearVolume.blockAad b d).drop 16) ++ List.replicate 16 0).take 16 =
      (((clearVolume.blockAad b' d').drop 16) ++ List.replicate 16 0).take 16
    rw [clearVolume_tag, clearVolume_tag]
    intro heq
    obtain ⟨hlogical, hdomain⟩ := List.append_inj heq (by rw [Layout.length_leBytes, Layout.length_leBytes])
    rw [leBytes_inj hb hb' hlogical, (List.cons.inj hdomain).1] at hne
    exact hne rfl

def calm : Surroundings := ⟨fun _ _ => .ok, fun _ => .ok (Vector.replicate 12 0), fun _ => ⟨.ok, fun _ => 0⟩⟩

theorem calm_faultless : calm.Faultless := ⟨fun _ _ => rfl, fun _ => ⟨_, rfl⟩, fun _ => rfl⟩

theorem clearVolume_format : ∃ formatted, encryptedFormat clearVolume calm [] (fun _ => 0) = (.ok (), formatted) := by
  unfold encryptedFormat
  rw [bind_of_ok (modify_apply ..)]
  exact encryptedFormatLoop_total calm_faultless _ (fun b hb => List.mem_range.mp hb) _

theorem clearVolume_write {formatted : Nat → UInt8} (h : Holds clearVolume .formatted formatted) {offset : Nat} {data : Bytes}
    (hsize : offset + data.length ≤ 8192) :
    ∃ medium, encryptedRun clearVolume [.write none offset data calm] formatted = (.ok (), medium) := by
  obtain ⟨medium, hwrite⟩ : ∃ medium, encryptedWritePolicy clearVolume calm none offset data formatted = (.ok (), medium) :=
    encryptedWritePolicy_total clearVolume_correct h calm_faultless hsize fun _ _ => rfl
  have hop : (EncryptedOp.write none offset data calm).apply clearVolume formatted = (.ok (), medium) := hwrite
  exact ⟨medium, bind_of_ok hop⟩

/-- A write over the border of the two blocks of a formatted volume. -/
theorem encrypted_flat_border :
    ∃ formatted medium, encryptedFormat clearVolume calm [] (fun _ => 0) = (.ok (), formatted) ∧
      encryptedRun clearVolume [.write none 4094 [1, 2, 3, 4] calm] formatted = (.ok (), medium) ∧
      Presents clearVolume (FlatVolume.formatted.run [.write none 4094 [1, 2, 3, 4] calm]) medium := by
  obtain ⟨formatted, hformat⟩ := clearVolume_format
  obtain ⟨medium, hrun⟩ := clearVolume_write (holds_format clearVolume_correct hformat)
    (show 4094 + [1, 2, 3, 4].length ≤ 8192 by decide)
  exact ⟨formatted, medium, hformat, hrun, encrypted_flat clearVolume_correct hformat hrun⟩

end Example

end InfiltratorFS.Storage
