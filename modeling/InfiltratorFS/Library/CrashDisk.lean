import Mathlib.Logic.Function.Basic
import Mathlib.Data.List.Infix

namespace CrashDisk

open Function

variable {α β : Type} [DecidableEq α]

/-- The requests to a disk with a volatile write cache. A commit mark is not a
request: it records that the writer has been told of a commit. -/
inductive Op (α β : Type)
  | write (address : α) (content : β)
  | flush
  | commit

/-- What is on the medium, and what is still in the cache, oldest first. -/
structure Disk (α β : Type) where
  durable : α → β
  pending : List (α × β)

def Disk.apply (d : Disk α β) : Op α β → Disk α β
  | .write a c => { d with pending := d.pending ++ [(a, c)] }
  | .flush => ⟨d.pending.foldl (fun m w => update m w.1 w.2) d.durable, []⟩
  | .commit => d

def Disk.run (d : Disk α β) (ops : List (Op α β)) : Disk α β := ops.foldl Disk.apply d

/-- The contents a crash can leave: each write in the cache is lost, complete
or torn. -/
inductive Survives (torn : α → β → Prop) : (α → β) → List (α × β) → (α → β) → Prop
  | nil (m : α → β) : Survives torn m [] m
  | lost {m m' : α → β} {a : α} {c : β} {ws : List (α × β)} (h : Survives torn m ws m') :
      Survives torn m ((a, c) :: ws) m'
  | kept {m m' : α → β} {a : α} {c : β} {ws : List (α × β)} (h : Survives torn (update m a c) ws m') :
      Survives torn m ((a, c) :: ws) m'
  | torn {m m' : α → β} {a : α} {c : β} {ws : List (α × β)} (t : β) (ht : torn a t)
      (h : Survives torn (update m a t) ws m') : Survives torn m ((a, c) :: ws) m'

def Disk.Crashes (torn : α → β → Prop) (d : Disk α β) (m : α → β) : Prop := Survives torn d.durable d.pending m

section Frame

def Untouched (a : α) (ops : List (Op α β)) : Prop := ∀ c, Op.write a c ∉ ops

variable {a : α}

omit [DecidableEq α] in
theorem Untouched.of_prefix {ops pre : List (Op α β)} (h : Untouched a ops) (hpre : pre <+: ops) :
    Untouched a pre := fun c hc => h c (hpre.subset hc)

theorem Survives.frame {torn : α → β → Prop} {m m' : α → β} {ws : List (α × β)} (h : Survives torn m ws m')
    (ha : ∀ w ∈ ws, w.1 ≠ a) : m' a = m a := by
  induction h with
  | nil => rfl
  | lost _ ih => exact ih fun w hw => ha w (List.mem_cons_of_mem _ hw)
  | kept _ ih =>
    rw [ih fun w hw => ha w (List.mem_cons_of_mem _ hw)]
    exact update_of_ne (ha _ List.mem_cons_self).symm _ _
  | torn t _ _ ih =>
    rw [ih fun w hw => ha w (List.mem_cons_of_mem _ hw)]
    exact update_of_ne (ha _ List.mem_cons_self).symm _ _

structure Disk.Holds (d : Disk α β) (a : α) (c : β) : Prop where
  durable : d.durable a = c
  pending : ∀ w ∈ d.pending, w.1 ≠ a

theorem foldl_update_frame (ws : List (α × β)) (m : α → β) (ha : ∀ w ∈ ws, w.1 ≠ a) :
    ws.foldl (fun m w => update m w.1 w.2) m a = m a := by
  induction ws generalizing m with
  | nil => rfl
  | cons w ws ih =>
    rw [List.foldl_cons, ih _ fun w hw => ha w (List.mem_cons_of_mem _ hw)]
    exact update_of_ne (ha w List.mem_cons_self).symm _ _

theorem Disk.Holds.run {d : Disk α β} {c : β} (h : d.Holds a c) (ops : List (Op α β)) (hops : Untouched a ops) :
    (d.run ops).Holds a c := by
  induction ops generalizing d with
  | nil => exact h
  | cons op ops ih =>
    refine ih ?_ fun c hc => hops c (List.mem_cons_of_mem _ hc)
    cases op with
    | write b c' =>
      refine ⟨h.durable, fun w hw => ?_⟩
      rcases List.mem_append.mp hw with hw | hw
      · exact h.pending w hw
      · obtain rfl := List.mem_singleton.mp hw
        rintro rfl
        exact hops c' List.mem_cons_self
    | flush => exact ⟨(foldl_update_frame d.pending d.durable h.pending).trans h.durable, fun w hw => by cases hw⟩
    | commit => exact h

theorem Disk.Holds.crash {torn : α → β → Prop} {d : Disk α β} {c : β} (h : d.Holds a c) {m : α → β}
    (hcrash : d.Crashes torn m) : m a = c := (Survives.frame hcrash h.pending).trans h.durable

theorem Disk.holds_write_flush (d : Disk α β) (a : α) (c : β) : (d.run [.write a c, .flush]).Holds a c := by
  refine ⟨?_, fun w hw => by cases hw⟩
  simp [Disk.run, Disk.apply, List.foldl_append]

/-- What a read returns: the last write of the address, cached or not. -/
def Disk.read (d : Disk α β) (a : α) : β := d.pending.foldl (fun m w => update m w.1 w.2) d.durable a

theorem Disk.Holds.read {d : Disk α β} {c : β} (h : d.Holds a c) : d.read a = c :=
  (foldl_update_frame d.pending d.durable h.pending).trans h.durable

theorem Disk.run_append (d : Disk α β) (xs ys : List (Op α β)) : d.run (xs ++ ys) = (d.run xs).run ys :=
  List.foldl_append

end Frame

section Invariant

/-- A property of contents that complete and torn writes keep. -/
structure Keeps (torn : α → β → Prop) (P : (α → β) → Prop) (a : α) (c : β) : Prop where
  complete : ∀ m, P m → P (update m a c)
  torn : ∀ m t, P m → torn a t → P (update m a t)

variable {torn : α → β → Prop} {P : (α → β) → Prop}

theorem Survives.invariant {m m' : α → β} {ws : List (α × β)}
    (h : Survives torn m ws m') (hws : ∀ w ∈ ws, Keeps torn P w.1 w.2) (hm : P m) : P m' := by
  induction h with
  | nil => exact hm
  | lost _ ih => exact ih (fun w hw => hws w (List.mem_cons_of_mem _ hw)) hm
  | kept _ ih =>
    exact ih (fun w hw => hws w (List.mem_cons_of_mem _ hw)) ((hws _ List.mem_cons_self).complete _ hm)
  | torn t ht _ ih =>
    exact ih (fun w hw => hws w (List.mem_cons_of_mem _ hw)) ((hws _ List.mem_cons_self).torn _ t hm ht)

theorem foldl_update_invariant (ws : List (α × β)) (m : α → β)
    (hws : ∀ w ∈ ws, Keeps torn P w.1 w.2) (hm : P m) : P (ws.foldl (fun m w => update m w.1 w.2) m) := by
  induction ws generalizing m with
  | nil => exact hm
  | cons w ws ih =>
    exact ih _ (fun w hw => hws w (List.mem_cons_of_mem _ hw)) ((hws w List.mem_cons_self).complete m hm)

theorem Disk.run_crash_invariant (ops : List (Op α β)) (d : Disk α β)
    (hops : ∀ a c, Op.write a c ∈ ops → Keeps torn P a c) (hpending : ∀ w ∈ d.pending, Keeps torn P w.1 w.2)
    (hd : P d.durable) {m : α → β} (hcrash : (d.run ops).Crashes torn m) : P m := by
  induction ops generalizing d with
  | nil => exact Survives.invariant hcrash hpending hd
  | cons op ops ih =>
    have hrest : ∀ a c, Op.write a c ∈ ops → Keeps torn P a c := fun a c h => hops a c (List.mem_cons_of_mem _ h)
    cases op with
    | write a c =>
      refine ih (d.apply (.write a c)) hrest (fun w hw => ?_) hd hcrash
      rcases List.mem_append.mp hw with hw | hw
      · exact hpending w hw
      · obtain rfl := List.mem_singleton.mp hw
        exact hops a c List.mem_cons_self
    | flush =>
      refine ih (d.apply .flush) hrest (fun w hw => by cases hw) ?_ hcrash
      exact foldl_update_invariant d.pending d.durable hpending hd
    | commit => exact ih d hrest hpending hd hcrash

end Invariant

section Prefix

omit [DecidableEq α] in
/-- A crash of a run with one commit mark comes before the mark, or after it
in the rest of the run. -/
theorem prefix_commit_cases {before after pre : List (Op α β)} (h : pre <+: before ++ .commit :: after) :
    pre <+: before ∨ ∃ rest, rest <+: after ∧ pre = before ++ .commit :: rest := by
  rcases List.prefix_or_prefix_of_prefix h (List.prefix_append before (.commit :: after)) with hpre | ⟨rest, rfl⟩
  · exact .inl hpre
  · rw [List.prefix_append_right_inj] at h
    cases rest with
    | nil => exact .inl (by rw [List.append_nil])
    | cons op rest =>
      obtain ⟨rfl, hrest⟩ := List.cons_prefix_cons.mp h
      exact .inr ⟨rest, hrest, rfl⟩

end Prefix

end CrashDisk
