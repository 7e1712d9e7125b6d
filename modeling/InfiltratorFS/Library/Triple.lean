import InfiltratorFS.Library.Prog

namespace Prog

variable {σ ε α β : Type} {x : Prog σ ε α} {R : Except ε α × σ → Prop} (P : σ → Prop)

/-- From a state with P the program ends in Q with its value, or fails in E. -/
def Triple (x : Prog σ ε α) (Q : α → σ → Prop) (E : ε → σ → Prop) : Prop :=
  ∀ s, P s → (∀ a t, x s = (.ok a, t) → Q a t) ∧ (∀ e t, x s = (.error e, t) → E e t)

/-- Every run keeps P, whether it fails or not. -/
abbrev Maintains (x : Prog σ ε α) : Prop := Triple P x (fun _ => P) (fun _ => P)

/-- A run that succeeds leads from P to Q. -/
abbrev Leads (x : Prog σ ε α) (Q : σ → Prop) : Prop := Triple P x (fun _ => Q) (fun _ _ => True)

namespace Triple

variable {P P' : σ → Prop} {Q Q' : α → σ → Prop} {E E' : ε → σ → Prop} {x : Prog σ ε α} {f : α → Prog σ ε β}
  {R : β → σ → Prop} {c : Prop}

theorem mono (h : Triple P x Q E) (hP : ∀ s, P' s → P s) (hQ : ∀ a s, Q a s → Q' a s) (hE : ∀ e s, E e s → E' e s) :
    Triple P' x Q' E' := by
  intro s hs
  obtain ⟨hok, herror⟩ := h s (hP s hs)
  exact ⟨fun a t hx => hQ a t (hok a t hx), fun e t hx => hE e t (herror e t hx)⟩

theorem pre (h : Triple P x Q E) (hP : ∀ s, P' s → P s) : Triple P' x Q E :=
  h.mono hP (fun _ _ => id) (fun _ _ => id)

theorem post (h : Triple P x Q E) (hQ : ∀ a s, Q a s → Q' a s) : Triple P x Q' E :=
  h.mono (fun _ => id) hQ (fun _ _ => id)

theorem error (h : Triple P x Q E) (hE : ∀ e s, E e s → E' e s) : Triple P x Q E' :=
  h.mono (fun _ => id) (fun _ _ => id) hE

theorem any (h : Triple P x Q E) : Triple P x Q fun _ _ => True := h.error fun _ _ _ => trivial

theorem pure {a : α} (h : ∀ s, P s → Q a s) : Triple P (Pure.pure a) Q E := by
  intro s hs
  refine ⟨fun b t hx => ?_, fun e t hx => nomatch hx⟩
  cases hx
  exact h s hs

theorem done {a : α} : Triple P (Pure.pure a) (fun _ => P) E :=
  pure fun _ hs => hs

theorem fail {e : ε} (h : ∀ s, P s → E e s) : Triple P (fail e : Prog σ ε α) Q E := by
  intro s hs
  refine ⟨fun b t hx => (nomatch hx), fun e t hx => ?_⟩
  cases hx
  exact h s hs

theorem modify {f : σ → σ} {R : Unit → σ → Prop} (h : ∀ s, P s → R () (f s)) : Triple P (modify f) R E := by
  intro s hs
  refine ⟨fun b t hx => ?_, fun e t hx => nomatch hx⟩
  cases hx
  exact h s hs

theorem ofExcept {r : Except ε α} (hok : ∀ a s, r = .ok a → P s → Q a s) (herror : ∀ e s, r = .error e → P s → E e s) :
    Triple P (ofExcept r) Q E := by
  intro s hs
  rw [ofExcept_apply]
  refine ⟨fun a t hx => ?_, fun e t hx => ?_⟩
  · obtain ⟨hr, rfl⟩ := Prod.mk.inj hx
    exact hok a s hr hs
  · obtain ⟨hr, rfl⟩ := Prod.mk.inj hx
    exact herror e s hr hs

theorem bind (hx : Triple P x Q E) (hf : ∀ a, Triple (Q a) (f a) R E) :
    Triple P (x >>= f) R E := by
  intro s hs
  obtain ⟨hok, herror⟩ := hx s hs
  rcases hrun : x s with ⟨e | a, t⟩
  · rw [bind_of_error hrun]
    refine ⟨fun b u h => (nomatch h), fun e' u h => ?_⟩
    cases h
    exact herror e t hrun
  · rw [bind_of_ok hrun]
    exact hf a t (hok a t hrun)

theorem seq {P' : σ → Prop} {y : Prog σ ε β} (hx : Triple P x (fun _ => P') E) (hy : Triple P' y R E) :
    Triple P (x >>= fun _ => y) R E := bind hx fun _ => hy

theorem get_bind {f : σ → Prog σ ε β} (h : ∀ s, P s → Triple (· = s) (f s) R E) :
    Triple P (get >>= f) R E := by
  intro s hs
  rw [bind_of_ok (get_apply s)]
  exact h s hs s rfl

theorem look {f : σ → Prog σ ε β} (h : ∀ s, P s → Triple P (f s) R E) : Triple P (get >>= f) R E :=
  get_bind fun s hs => (h s hs).pre fun _ ht => ht ▸ hs

theorem attempt_bind {E'' : ε → σ → Prop} {f : Except ε α → Prog σ ε β} (hx : Triple P x Q E'')
    (hok : ∀ a, Triple (Q a) (f (.ok a)) R E) (herror : ∀ e, Triple (E'' e) (f (.error e)) R E) :
    Triple P (attempt x >>= f) R E := by
  intro s hs
  obtain ⟨hxok, hxerror⟩ := hx s hs
  rw [bind_of_ok (attempt_apply x s)]
  rcases hrun : x s with ⟨e | a, t⟩
  · exact herror e t (hxerror e t hrun)
  · exact hok a t (hxok a t hrun)

theorem ite [Decidable c] {y : Prog σ ε α} (hx : c → Triple P x Q E) (hy : ¬c → Triple P y Q E) :
    Triple P (if c then x else y) Q E := by
  split
  · exact hx ‹_›
  · exact hy ‹_›

/-- The rule for a branch whose condition plays no part. -/
theorem branch [Decidable c] {y : Prog σ ε α} (hx : Triple P x Q E) (hy : Triple P y Q E) :
    Triple P (if c then x else y) Q E := ite (fun _ => hx) fun _ => hy

theorem guard [Decidable c] {e : ε} (hx : ¬c → Triple P x Q E) (he : ∀ s, P s → E e s) :
    Triple P (if c then Prog.fail e else x) Q E :=
  ite (fun _ => fail he) hx

theorem require [Decidable c] {e : ε} (hx : ¬c → Triple P x Q fun _ _ => True) :
    Triple P (if c then Prog.fail e else x) Q fun _ _ => True :=
  guard hx fun _ _ => trivial

theorem check [Decidable c] {e : ε} (hx : Triple P x Q fun _ => P) : Triple P (if c then Prog.fail e else x) Q fun _ => P :=
  branch (fail fun _ hs => hs) hx

theorem of_exists {γ : Type} {R : γ → σ → Prop} (h : ∀ c, Triple (R c) x Q E) : Triple (fun s => ∃ c, R c s) x Q E := by
  rintro s ⟨c, hs⟩
  exact h c s hs

theorem of_and (h : c → Triple P x Q E) : Triple (fun s => c ∧ P s) x Q E := by
  rintro s ⟨hc, hs⟩
  exact h hc s hs

/-- The fact C about the value is at hand in the rest of the program. -/
theorem bind_and {C : α → Prop} (hx : Triple P x (fun a s => C a ∧ Q a s) E)
    (hf : ∀ a, C a → Triple (Q a) (f a) R E) : Triple P (x >>= f) R E :=
  bind hx fun a => of_and (hf a)

theorem ofExcept_bind {r : Except ε α} (hok : ∀ a, r = .ok a → Triple P (f a) R E)
    (herror : ∀ e s, r = .error e → P s → E e s) : Triple P (Prog.ofExcept r >>= f) R E :=
  bind_and (ofExcept (fun _ _ hr hs => And.intro hr hs) herror) hok

theorem final {Q : σ → Prop} (h : Triple P x (fun _ => Q) fun _ => Q) {s : σ} (hs : P s) : Q (x s).2 := by
  obtain ⟨hok, herror⟩ := h s hs
  rcases hrun : x s with ⟨e | a, t⟩
  · exact herror e t hrun
  · exact hok a t hrun

theorem at_state (h : ∀ s, P s → Triple (· = s) x Q E) : Triple P x Q E :=
  fun s hs => h s hs s rfl

end Triple

/-- From a state with P the program succeeds, and ends in Q with its value. -/
def Total (x : Prog σ ε α) (Q : α → σ → Prop) : Prop :=
  ∀ s, P s → ∃ a t, x s = (.ok a, t) ∧ Q a t

/-- From a state with P the run has R, whether it succeeds or not. -/
def Ends (x : Prog σ ε α) (R : Except ε α × σ → Prop) : Prop := ∀ s, P s → R (x s)

namespace Total

variable {P P' : σ → Prop} {Q Q' : α → σ → Prop} {x : Prog σ ε α} {f : α → Prog σ ε β} {R : β → σ → Prop}

theorem pre (h : Total P x Q) (hP : ∀ s, P' s → P s) : Total P' x Q :=
  fun s hs => h s (hP s hs)

theorem post (h : Total P x Q) (hQ : ∀ a s, Q a s → Q' a s) : Total P x Q' := by
  intro s hs
  obtain ⟨a, t, hrun, ht⟩ := h s hs
  exact ⟨a, t, hrun, hQ a t ht⟩

theorem pure {a : α} (h : ∀ s, P s → Q a s) : Total P (Pure.pure a : Prog σ ε α) Q :=
  fun s hs => ⟨a, s, rfl, h s hs⟩

theorem modify {f : σ → σ} {R : Unit → σ → Prop} (h : ∀ s, P s → R () (f s)) :
    Total P (modify f : Prog σ ε Unit) R :=
  fun s hs => ⟨(), f s, rfl, h s hs⟩

theorem bind (hx : Total P x Q) (hf : ∀ a, Total (Q a) (f a) R) :
    Total P (x >>= f) R := by
  intro s hs
  obtain ⟨a, t, hrun, ht⟩ := hx s hs
  rw [bind_of_ok hrun]
  exact hf a t ht

theorem get_bind {f : σ → Prog σ ε β} (h : ∀ s, P s → Total (· = s) (f s) R) : Total P (get >>= f) R := by
  intro s hs
  rw [bind_of_ok (get_apply s)]
  exact h s hs s rfl

theorem ends_bind {R : Except ε β × σ → Prop} (hx : Total P x Q) (hf : ∀ a, Ends (Q a) (f a) R) :
    Ends P (x >>= f) R := by
  intro s hs
  obtain ⟨a, t, hrun, ht⟩ := hx s hs
  rw [bind_of_ok hrun]
  exact hf a t ht

theorem triple (h : Total P x Q) {E : ε → σ → Prop} : Triple P x Q E := by
  intro s hs
  obtain ⟨a, t, hrun, ht⟩ := h s hs
  rw [hrun]
  refine ⟨fun b u hx => ?_, fun e u hx => nomatch hx⟩
  cases hx
  exact ht

theorem of_exists {γ : Type} {R : γ → σ → Prop} (h : ∀ c, Total (R c) x Q) : Total (fun s => ∃ c, R c s) x Q := by
  rintro s ⟨c, hs⟩
  exact h c s hs

theorem of_and {c : Prop} (h : c → Total P x Q) : Total (fun s => c ∧ P s) x Q := by
  rintro s ⟨hc, hs⟩
  exact h hc s hs

theorem bind_and {C : α → Prop} (hx : Total P x fun a s => C a ∧ Q a s)
    (hf : ∀ a, C a → Total (Q a) (f a) R) : Total P (x >>= f) R :=
  bind hx fun a => of_and (hf a)

end Total

theorem Ends.error_bind {P : σ → Prop} {f : α → Prog σ ε β} {e : ε} (h : Ends P x fun r => r.1 = .error e) :
    Ends P (x >>= f) fun r => r.1 = .error e := by
  intro s hs
  have hx := h s hs
  rcases hrun : x s with ⟨e' | a, t⟩
  · rw [hrun] at hx
    rw [bind_of_error hrun]
    cases hx
    rfl
  · rw [hrun] at hx
    cases hx

theorem Ends.of_exists {γ : Type} {P : γ → σ → Prop}
    (h : ∀ c, Ends (P c) x R) : Ends (fun s => ∃ c, P c s) x R := by
  rintro s ⟨c, hs⟩
  exact h c s hs

theorem Ends.of_and {c : Prop} {P : σ → Prop} (h : c → Ends P x R) :
    Ends (fun s => c ∧ P s) x R := by
  rintro s ⟨hc, hs⟩
  exact h hc s hs

end Prog
