import Mathlib.Logic.Relation
import Mathlib.Tactic.Tauto

/-- Programs over a state that end with a value or a status. The state is
kept in both cases, so a failed program can leave partial effects behind. -/
def Prog (σ ε α : Type) : Type := σ → Except ε α × σ

namespace Prog

variable {σ ε α β : Type} {x : Prog σ ε α} {f : α → Prog σ ε β} {s s' : σ} {e : ε}

protected def pure (a : α) : Prog σ ε α := fun s => (.ok a, s)

protected def bind (x : Prog σ ε α) (f : α → Prog σ ε β) : Prog σ ε β := fun s =>
  match x s with
  | (.ok a, s) => f a s
  | (.error e, s) => (.error e, s)

instance : Monad (Prog σ ε) where
  pure := Prog.pure
  bind := Prog.bind

def fail (e : ε) : Prog σ ε α := fun s => (.error e, s)

def get : Prog σ ε σ := fun s => (.ok s, s)

def modify (f : σ → σ) : Prog σ ε Unit := fun s => (.ok (), f s)

/-- Run a program and hand its result to the caller instead of stopping. -/
def attempt (x : Prog σ ε α) : Prog σ ε (Except ε α) := fun s => (.ok (x s).1, (x s).2)

def ofExcept : Except ε α → Prog σ ε α
  | .ok a => pure a
  | .error e => fail e

/-- The beginning of a scope in a transaction, which is begun if need be, and
whether it was. A state with an open scope refuses another one. -/
def scopeBegin (active inScope : σ → Bool) (start abort : Prog σ ε Unit) (refused : ε) (save : σ → σ) : Prog σ ε Bool := do
  let s ← get
  start
  if inScope s then
    if !active s then abort
    fail refused
  else
    modify save
    pure (!active s)

def scopeFail (undo abort : Prog σ ε Unit) (started : Bool) : Prog σ ε Unit := do
  undo
  if started then abort

@[simp] theorem pure_apply (a : α) (s : σ) : (pure a : Prog σ ε α) s = (.ok a, s) := rfl

@[simp] theorem fail_apply (e : ε) (s : σ) : (fail e : Prog σ ε α) s = (.error e, s) := rfl

@[simp] theorem get_apply (s : σ) : (get : Prog σ ε σ) s = (.ok s, s) := rfl

@[simp] theorem modify_apply (f : σ → σ) (s : σ) : (modify f : Prog σ ε Unit) s = (.ok (), f s) := rfl

@[simp] theorem attempt_apply (x : Prog σ ε α) (s : σ) : attempt x s = (.ok (x s).1, (x s).2) := rfl

@[simp] theorem ofExcept_apply (r : Except ε α) (s : σ) : (ofExcept r : Prog σ ε α) s = (r, s) := by
  cases r <;> rfl

theorem ofExcept_ok (a : α) : (ofExcept (.ok a) : Prog σ ε α) = pure a := rfl

theorem bind_apply (x : Prog σ ε α) (f : α → Prog σ ε β) (s : σ) :
    (x >>= f) s = match x s with
      | (.ok a, s) => f a s
      | (.error e, s) => (.error e, s) := rfl

instance : LawfulMonad (Prog σ ε) :=
  LawfulMonad.mk' _
    (fun x => by
      funext s
      show (x >>= fun a => pure a) s = x s
      rw [bind_apply]
      rcases x s with ⟨_ | a, t⟩ <;> rfl)
    (fun a f => rfl)
    (fun x f g => by
      funext s
      simp only [bind_apply]
      rcases x s with ⟨_ | a, t⟩ <;> rfl)

theorem bind_of_ok {a : α} (h : x s = (.ok a, s')) :
    (x >>= f) s = f a s' := by
  rw [bind_apply, h]

theorem bind_of_error (h : x s = (.error e, s')) :
    (x >>= f) s = (.error e, s') := by
  rw [bind_apply, h]

theorem fst_bind_error (h : (x s).1 = .error e) :
    ((x >>= f) s).1 = .error e := by
  rcases hx : x s with ⟨_ | a, t⟩
  · rw [hx] at h
    cases h
    rw [bind_of_error hx]
  · rw [hx] at h
    cases h

theorem fst_bind_ok {b : β} (h : ((x >>= f) s).1 = .ok b) :
    ∃ a, (x s).1 = .ok a ∧ (f a (x s).2).1 = .ok b := by
  rw [bind_apply] at h
  rcases hx : x s with ⟨_ | a, t⟩
  · rw [hx] at h
    cases h
  · rw [hx] at h
    exact ⟨a, rfl, h⟩

theorem bind_eq_ok {b : β} :
    (x >>= f) s = (.ok b, s') ↔ ∃ a t, x s = (.ok a, t) ∧ f a t = (.ok b, s') := by
  constructor
  · intro h
    rcases hx : x s with ⟨_ | a, t⟩
    · rw [bind_of_error hx] at h
      cases h
    · rw [bind_of_ok hx] at h
      exact ⟨a, t, rfl, h⟩
  · rintro ⟨a, t, hx, hf⟩
    rw [bind_of_ok hx, hf]

theorem except_bind_eq_ok {x : Except ε α} {f : α → Except ε β} {b : β} :
    (x >>= f) = .ok b ↔ ∃ a, x = .ok a ∧ f a = .ok b := by
  cases x with
  | error e =>
    constructor
    · intro h
      cases h
    · rintro ⟨_, h, _⟩
      cases h
  | ok a =>
    constructor
    · intro h
      exact ⟨a, rfl, h⟩
    · rintro ⟨_, h, hf⟩
      cases h
      exact hf

theorem except_guard_eq_ok {c : Prop} [Decidable c] {x : Except ε α} {a : α} :
    (if c then .error e else x) = .ok a ↔ ¬c ∧ x = .ok a := by
  split <;> simp [*]

theorem guard_eq_ok {c : Prop} [Decidable c] {a : α} :
    (if c then fail e else x) s = (.ok a, s') ↔ ¬c ∧ x s = (.ok a, s') := by
  split <;> simp [*]

theorem of_ite {C : Prog σ ε α → Prop} {c : Prop} [Decidable c] {x y : Prog σ ε α} (hx : C x) (hy : C y) :
    C (if c then x else y) := by
  split
  · exact hx
  · exact hy

/-- Every run, failed or not, keeps the invariant and moves along the
relation. This is the only fact about a program its callers need. -/
def Moves (I : σ → Prop) (R : σ → σ → Prop) (x : Prog σ ε α) : Prop :=
  ∀ s, I s → I (x s).2 ∧ R s (x s).2

section Rules

variable {I : σ → Prop} {R : σ → σ → Prop}

theorem moves_pure (hrefl : ∀ s, R s s) (a : α) : Moves I R (pure a : Prog σ ε α) :=
  fun s h => ⟨h, hrefl s⟩

theorem moves_fail (hrefl : ∀ s, R s s) (e : ε) : Moves I R (fail e : Prog σ ε α) :=
  fun s h => ⟨h, hrefl s⟩

theorem moves_get (hrefl : ∀ s, R s s) : Moves I R (get : Prog σ ε σ) :=
  fun s h => ⟨h, hrefl s⟩

theorem moves_bind (htrans : ∀ a b c, R a b → R b c → R a c) {x : Prog σ ε α} {f : α → Prog σ ε β}
    (hx : Moves I R x) (hf : ∀ a, Moves I R (f a)) : Moves I R (x >>= f) := by
  intro s h
  have hs := hx s h
  rw [bind_apply]
  rcases hr : x s with ⟨_ | a, t⟩
  · rwa [hr] at hs
  · rw [hr] at hs
    have ht := hf a t hs.1
    exact ⟨ht.1, htrans _ _ _ hs.2 ht.2⟩

theorem moves_attempt {x : Prog σ ε α} (hx : Moves I R x) : Moves I R (attempt x) := hx

end Rules

end Prog
