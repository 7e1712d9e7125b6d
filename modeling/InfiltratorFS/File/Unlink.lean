import InfiltratorFS.File.Settling

namespace InfiltratorFS.File

open Prog

section Calls

variable {c : Ledger} (hardLinks : Bool)

theorem settles_run (op : FileCall) : Settles c op.run := composes_settles.run op

/-- What `remove_object` releases of a file: nothing as long as it has another
name. -/
def releaseUnlinked (links : Nat) : FileM Unit :=
  if links = 0 then fail .corrupt
  else if 1 < links then
    if hardLinks = false then fail .corrupt else pure ()
  else do
    checksumDestroyChain
    let entries ← fileExtentSnapshot
    freeRuns (normalRuns entries)
    pagedExtentDestroyPages

/-- `remove_object` for a file. The calls stand for the lookup of the name, for
its removal with the time and the store of the parent, for the store of the
file or the release of its object, and for `finish_mutation`. -/
def removeObject (links : Nat) : FileM Unit := do
  call
  fileValidateVolume
  releaseUnlinked hardLinks links
  call
  call
  call
  call

def infsUnlink (links : Nat) : FileM Unit := do
  call
  removeObject hardLinks links

theorem triple_releaseUnlinked (links : Nat) :
    Triple (Owns c 0) (releaseUnlinked hardLinks links)
      (fun _ s => ∃ o, Purse c o (if 1 < links then c.held o else 0) s) Always := by
  apply triple_check
  intro _
  apply Triple.ite
  · intro hmany
    apply triple_check
    intro _
    apply Triple.pure
    rintro s ⟨o, hs⟩
    rw [Nat.zero_add] at hs
    exact ⟨o, by rwa [if_pos hmany]⟩
  · intro hlast
    simp only [if_neg hlast]
    exact triple_releaseAll fun _ _ => triple_checksumDestroyChain.post fun _ _ hs => ⟨false, hs⟩

theorem triple_unlinked {x : FileM Unit} (hx : Keeps c x) (hardLinks : Bool) (links : Nat) :
    Triple (Owns c 0) (do
      call
      fileValidateVolume
      releaseUnlinked hardLinks links
      x) (fun _ s => ∃ o, Purse c o (if 1 < links then c.held o else 0) s) Always := by
  apply (settles_call _).seq
  apply (settles_validate _).seq
  apply (triple_releaseUnlinked hardLinks links).seq
  apply Triple.of_exists
  intro o
  exact (hx o _).post fun _ s hs => ⟨o, hs⟩

theorem triple_infsUnlink (links : Nat) :
    Triple (Owns c 0) (infsUnlink hardLinks links)
      (fun _ s => ∃ o, Purse c o (if 1 < links then c.held o else 0) s) Always :=
  (settles_call _).bind fun _ => triple_unlinked
    (keeps_bind keeps_call fun _ => keeps_bind keeps_call fun _ => keeps_bind keeps_call fun _ => keeps_call) hardLinks links

inductive FileOperation
  | change (op : FileCall)
  | unlink (hardLinks : Bool) (links : Nat)

def FileOperation.run : FileOperation → FileM Unit
  | .change op => op.run
  | .unlink hardLinks links => infsUnlink hardLinks links

end Calls

end InfiltratorFS.File
