import InfiltratorFS.File.Object
import InfiltratorFS.Library.FlatStore
import InfiltratorFS.Library.Triple

/-! The chain of checksum objects of a file, and the walk along it. -/

namespace InfiltratorFS.Checksums

open File (checksumsPerObject)
open Prog

section Objects

abbrev Digest := Vector UInt8 32

def blankDigest : Digest := Vector.replicate 32 0

def noObject : ObjectId := Vector.replicate 16 0

/-- `struct infs_checksum_payload_disk` with the slots behind it. -/
structure Payload where
  owner : ObjectId
  start : Nat
  count : Nat
  values : Nat → Digest
  next : ObjectId

/-- An object of the index. Only the content of checksum objects is read. -/
inductive Indexed
  | checksum (p : Payload)
  | other

structure Cursor where
  owner : ObjectId
  object : ObjectId
  start : Nat

/-- What the calls work on: the objects by their ID, the head in the payload
of the file, and the cursor of the volume. The last two fields are the answers
of the calls outside of this file: their failures, and for each new object its
ID or the failure to make it. -/
structure Store where
  index : ObjectId → Option Indexed
  head : ObjectId
  cursor : Option Cursor
  faults : List (Option Status)
  created : List (Except Status ObjectId)

abbrev StoreM := Prog Store Status

def Store.setIndex (s : Store) (id : ObjectId) (p : Payload) : Store :=
  { s with index := Function.update s.index id (some (.checksum p)) }

def Store.setHead (s : Store) (id : ObjectId) : Store := { s with head := id }

def Store.setCursor (s : Store) (cursor : Option Cursor) : Store := { s with cursor := cursor }

end Objects

section Code

def call : StoreM Unit := fun s =>
  match s.faults with
  | [] => (.ok (), s)
  | none :: rest => (.ok (), { s with faults := rest })
  | some status :: rest => (.error status, { s with faults := rest })

def indexFind (id : ObjectId) : StoreM Indexed := do
  call
  let s ← get
  match s.index id with
  | some found => pure found
  | none => fail .notFound

variable (owner : ObjectId)

def checksumLoad : Indexed → StoreM Payload
  | .other => fail .corrupt
  | .checksum p => do
    call
    if checksumsPerObject < p.count ∨ idIsZero p.owner ∨ p.owner ≠ owner then fail .corrupt else pure p

def writeObject (id : ObjectId) (p : Payload) : StoreM Unit := do
  call
  modify fun s => s.setIndex id p

/-- `checksum_create_object`. An ID that is zero or taken stands for the last
of the tries to find one. -/
def checksumCreateObject (start : Nat) (next : ObjectId) : StoreM ObjectId := fun s =>
  match s.created with
  | [] => (.error .error, s)
  | .error status :: rest => (.error status, { s with created := rest })
  | .ok id :: rest =>
    if idIsZero id ∨ (s.index id).isSome then (.error .error, { s with created := rest })
    else (.ok id, ({ s with created := rest } : Store).setIndex id ⟨owner, start, 0, fun _ => blankDigest, next⟩)

def linkInserted (owner inserted : ObjectId) : Option (ObjectId × Nat) → StoreM Unit
  | none => modify fun s => s.setHead inserted
  | some previous => do
    let found ← indexFind previous.1
    let p ← checksumLoad owner found
    writeObject previous.1 { p with next := inserted }

def insertBefore (target : Nat) (current : ObjectId) (previous : Option (ObjectId × Nat)) :
    StoreM ObjectId := do
  let inserted ← checksumCreateObject owner target current
  linkInserted owner inserted previous
  pure inserted

def appendAfter (target : Nat) (current : ObjectId) (p : Payload) : StoreM ObjectId := do
  let inserted ← checksumCreateObject owner target noObject
  writeObject current { p with next := inserted }
  pure inserted

def locateVisit (target : Nat) (create : Bool)
    (again : ObjectId → Option (ObjectId × Nat) → StoreM (ObjectId × Payload)) (current : ObjectId)
    (previous : Option (ObjectId × Nat)) (found : Indexed) : StoreM (ObjectId × Payload) := do
  let p ← checksumLoad owner found
  if p.start % checksumsPerObject ≠ 0 ∨ previous.any (fun q => decide (p.start ≤ q.2)) then fail .corrupt
  else if p.start = target then do
    modify fun s => s.setCursor (some ⟨owner, current, p.start⟩)
    pure (current, p)
  else if target < p.start then
    if !create then fail .corrupt
    else do
      let inserted ← insertBefore owner target current previous
      again inserted previous
  else if idIsZero p.next then
    if !create then fail .corrupt
    else do
      let inserted ← appendAfter owner target current p
      again inserted (some (current, p.start))
  else again p.next (some (current, p.start))

/-- The loop of `checksum_locate`. An object that the cursor names and that is
not there sends the walk back to the head. -/
def locateLoop (target : Nat) (create : Bool) :
    Nat → ObjectId → Option (ObjectId × Nat) → Bool → StoreM (ObjectId × Payload)
  | 0, _, _, _ => fail .loopDetected
  | guard + 1, current, previous, startedFromCursor => do
    match ← attempt (indexFind current) with
    | .ok found =>
      locateVisit owner target create (fun id previous => locateLoop target create guard id previous false) current
        previous found
    | .error status =>
      if startedFromCursor then do
        modify fun s => s.setCursor none
        let s ← get
        locateLoop target create guard s.head previous false
      else fail status

def walkLimit : Nat := 1048576

def groupStart (logical : Nat) : Nat := logical / checksumsPerObject * checksumsPerObject

def Cursor.serves (c : Cursor) (owner : ObjectId) (target : Nat) : Bool := decide (c.owner = owner) && decide (c.start ≤ target)

def checksumLocate (logical : Nat) (create : Bool) : StoreM (ObjectId × Payload) := do
  let s ← get
  if idIsZero s.head then
    if !create then fail .corrupt
    else do
      let id ← checksumCreateObject owner (groupStart logical) noObject
      modify fun s => s.setHead id
      locateLoop owner (groupStart logical) create walkLimit id none false
  else
    match s.cursor.filter (·.serves owner (groupStart logical)) with
    | some c => locateLoop owner (groupStart logical) create walkLimit c.object none true
    | none => locateLoop owner (groupStart logical) create walkLimit s.head none false

def Payload.setValues (p : Payload) (offset : Nat) (digests : List Digest) : Payload :=
  { p with values := FlatStore.overlay p.values offset digests, count := max p.count (offset + digests.length) }

def setRangeLoop : Nat → Nat → List Digest → StoreM Unit
  | 0, _, _ => pure ()
  | fuel + 1, logical, digests =>
    if digests.isEmpty then pure ()
    else do
      let offset := logical % checksumsPerObject
      let chunk := min (checksumsPerObject - offset) digests.length
      let located ← checksumLocate owner logical true
      writeObject located.1 (located.2.setValues offset (digests.take chunk))
      setRangeLoop fuel (logical + chunk) (digests.drop chunk)

def checksumSetRange (logical : Nat) (digests : List Digest) : StoreM Unit :=
  setRangeLoop owner digests.length logical digests

def checksumGet (logical : Nat) : StoreM Digest := do
  let located ← checksumLocate owner logical false
  if located.2.count ≤ logical % checksumsPerObject then fail .corrupt
  else pure (located.2.values (logical % checksumsPerObject))

end Code

end InfiltratorFS.Checksums
