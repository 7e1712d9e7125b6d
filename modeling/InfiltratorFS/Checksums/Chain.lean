import InfiltratorFS.Checksums.Locate

/-! The chain as a list, and what a walk along it finds, inserts or fails
with. -/

namespace InfiltratorFS.Checksums

open File (checksumsPerObject)
open Prog Function

section Chain

structure Node where
  id : ObjectId
  start : Nat
  count : Nat
  values : Nat → Digest

def Node.payload (n : Node) (owner next : ObjectId) : Payload := ⟨owner, n.start, n.count, n.values, next⟩

def Node.fresh (id : ObjectId) (start : Nat) : Node := ⟨id, start, 0, fun _ => blankDigest⟩

def firstId : List Node → ObjectId → ObjectId
  | [], last => last
  | n :: _, _ => n.id

def Linked (owner : ObjectId) (index : ObjectId → Option Indexed) : List Node → ObjectId → Prop
  | [], _ => True
  | n :: rest, last => idIsZero n.id = false ∧ index n.id = some (.checksum (n.payload owner (firstId rest last))) ∧
      Linked owner index rest last

structure Ordered (nodes : List Node) : Prop where
  ascending : nodes.Pairwise (·.start < ·.start)
  aligned : ∀ n ∈ nodes, n.start % checksumsPerObject = 0
  counts : ∀ n ∈ nodes, n.count ≤ checksumsPerObject

variable {owner last id : ObjectId} {index index' : ObjectId → Option Indexed} {nodes front back : List Node}
  {n m : Node} {target : Nat}

@[simp] theorem firstId_append_cons (front : List Node) (n : Node) (back : List Node) (last : ObjectId) :
    firstId (front ++ n :: back) last = firstId front n.id := by
  cases front <;> rfl

theorem linked_append : Linked owner index (front ++ back) last ↔
    Linked owner index front (firstId back last) ∧ Linked owner index back last := by
  induction front with
  | nil => exact (true_and _).symm.to_iff
  | cons n front ih =>
    have hfirst : firstId (front ++ back) last = firstId front (firstId back last) := by
      cases front <;> rfl
    simp only [List.cons_append, Linked, ih, hfirst, and_assoc]

section

variable (h : Linked owner index nodes last)
include h

theorem Linked.congr (hindex : ∀ n ∈ nodes, index' n.id = index n.id) :
    Linked owner index' nodes last := by
  induction nodes with
  | nil => trivial
  | cons n nodes ih =>
    obtain ⟨hid, hn, hrest⟩ := h
    exact ⟨hid, (hindex n List.mem_cons_self).trans hn, ih hrest fun m hm => hindex m (List.mem_cons_of_mem n hm)⟩

theorem Linked.mem (hn : n ∈ nodes) :
    idIsZero n.id = false ∧ ∃ next, index n.id = some (.checksum (n.payload owner next)) := by
  induction nodes with
  | nil => cases hn
  | cons m nodes ih =>
    obtain ⟨hid, hm, hrest⟩ := h
    rcases List.mem_cons.mp hn with rfl | hn
    · exact ⟨hid, _, hm⟩
    · exact ih hrest hn

theorem Linked.start_eq (hn : n ∈ nodes) (hm : m ∈ nodes) (heq : n.id = m.id) :
    n.start = m.start := by
  obtain ⟨-, next, hnext⟩ := h.mem hn
  obtain ⟨-, next', hnext'⟩ := h.mem hm
  rw [heq, hnext'] at hnext
  simp only [Node.payload, Option.some.injEq, Indexed.checksum.injEq, Payload.mk.injEq] at hnext
  exact hnext.2.1.symm

end

theorem Ordered.front_lt (h : Ordered (front ++ n :: back)) (hm : m ∈ front) : m.start < n.start :=
  (List.pairwise_append.mp h.ascending).2.2 m hm n List.mem_cons_self

theorem Ordered.back_lt (h : Ordered (front ++ n :: back)) (hm : m ∈ back) : n.start < m.start :=
  (List.pairwise_cons.mp (List.pairwise_append.mp h.ascending).2.1).1 m hm

theorem Linked.insert_head (h : Linked owner index nodes last) (hid : idIsZero id = false)
    (hfresh : index id = none) :
    Linked owner (update index id (some (.checksum ((Node.fresh id target).payload owner (firstId nodes last)))))
      (Node.fresh id target :: nodes) last := by
  refine ⟨hid, update_self .., h.congr fun n hn => update_of_ne ?_ _ _⟩
  intro heq
  obtain ⟨-, next, hnext⟩ := h.mem hn
  rw [heq, hfresh] at hnext
  cases hnext

theorem Ordered.insert (ho : Ordered (front ++ back)) (hfront : ∀ m ∈ front, m.start < target)
    (hback : ∀ m ∈ back, target < m.start) (htarget : target % checksumsPerObject = 0) :
    Ordered (front ++ Node.fresh id target :: back) := by
  obtain ⟨hasc, halign, hcounts⟩ := ho
  obtain ⟨hfronts, hbacks, hcross⟩ := List.pairwise_append.mp hasc
  rw [List.forall_mem_append] at halign hcounts
  refine ⟨List.pairwise_append.mpr ⟨hfronts, List.pairwise_cons.mpr ⟨hback, hbacks⟩, ?_⟩, ?_, ?_⟩
  · exact fun k hk => List.forall_mem_cons.mpr ⟨hfront k hk, hcross k hk⟩
  · rw [List.forall_mem_append, List.forall_mem_cons]
    exact ⟨halign.1, htarget, halign.2⟩
  · rw [List.forall_mem_append, List.forall_mem_cons]
    exact ⟨hcounts.1, Nat.zero_le _, hcounts.2⟩

theorem Ordered.replace (ho : Ordered (front ++ n :: back)) (hstart : m.start = n.start) (hcount : m.count ≤ checksumsPerObject) :
    Ordered (front ++ m :: back) := by
  obtain ⟨hasc, halign, hcounts⟩ := ho
  rw [List.forall_mem_append, List.forall_mem_cons] at halign hcounts
  refine ⟨?_, ?_, ?_⟩
  · simp only [List.pairwise_append, List.pairwise_cons, List.mem_cons, forall_eq_or_imp, hstart] at hasc ⊢
    exact hasc
  · rw [List.forall_mem_append, List.forall_mem_cons, hstart]
    exact halign
  · rw [List.forall_mem_append, List.forall_mem_cons]
    exact ⟨hcounts.1, hcount, hcounts.2.2⟩

variable (h : Linked owner index (front ++ n :: back) last) (ho : Ordered (front ++ n :: back))
include h ho

theorem Linked.id_ne (hm : m ∈ front ∨ m ∈ back) : m.id ≠ n.id := by
  intro heq
  have hstart : m.start = n.start := h.start_eq (by simp; tauto) (by simp) heq
  rcases hm with hm | hm
  · exact absurd hstart (Nat.ne_of_lt (ho.front_lt hm))
  · exact absurd hstart (Nat.ne_of_gt (ho.back_lt hm))

theorem Linked.replace (hid : m.id = n.id) :
    Linked owner (update index n.id (some (.checksum (m.payload owner (firstId back last))))) (front ++ m :: back)
      last := by
  have hother : ∀ k, k ∈ front ∨ k ∈ back →
      update index n.id (some (.checksum (m.payload owner (firstId back last)))) k.id = index k.id :=
    fun k hk => update_of_ne (h.id_ne ho hk) _ _
  obtain ⟨hfront, hzero, -, hback⟩ := linked_append.mp h
  refine linked_append.mpr ⟨?_, hid ▸ hzero, ?_, hback.congr fun k hk => hother k (.inr hk)⟩
  · show Linked owner _ front m.id
    rw [hid]
    exact hfront.congr fun k hk => hother k (.inl hk)
  · rw [hid, update_self]

theorem Linked.insert_after (hid : idIsZero id = false) (hfresh : index id = none) :
    Linked owner (update
        (update index id (some (.checksum ((Node.fresh id target).payload owner (firstId back last)))))
        n.id (some (.checksum (n.payload owner id))))
      (front ++ n :: Node.fresh id target :: back) last := by
  have hne : ∀ k ∈ front ++ n :: back, k.id ≠ id := by
    intro k hk heq
    obtain ⟨-, next, hnext⟩ := h.mem hk
    rw [heq, hfresh] at hnext
    cases hnext
  have hother : ∀ k, k ∈ front ∨ k ∈ back → update
        (update index id (some (.checksum ((Node.fresh id target).payload owner (firstId back last)))))
        n.id (some (.checksum (n.payload owner id))) k.id = index k.id := by
    intro k hk
    rw [update_of_ne (h.id_ne ho hk), update_of_ne (hne k (by simp; tauto))]
  obtain ⟨hfront, hzero, -, hback⟩ := linked_append.mp h
  refine linked_append.mpr ⟨hfront.congr fun k hk => hother k (.inl hk), hzero, update_self .., hid, ?_,
    hback.congr fun k hk => hother k (.inr hk)⟩
  exact (update_of_ne (hne n (by simp)).symm _ _).trans (update_self ..)

end Chain

section Calls

variable {s : Store} {index : ObjectId → Option Indexed} {head owner : ObjectId} {cursor : Option Cursor}

/-- A state with the given content, with answers left of those that another
state had. -/
structure On (s : Store) (index : ObjectId → Option Indexed) (head : ObjectId) (cursor : Option Cursor) (t : Store) : Prop where
  index : t.index = index
  head : t.head = head
  cursor : t.cursor = cursor
  faults : t.faults ⊆ s.faults
  created : t.created ⊆ s.created

theorem On.refl (s : Store) : On s s.index s.head s.cursor s := ⟨rfl, rfl, rfl, List.Subset.refl _, List.Subset.refl _⟩

def Blames (create : Bool) (s : Store) (e : Status) : Prop :=
  some e ∈ s.faults ∨ create = true ∧ (Except.error e ∈ s.created ∨ e = .error)

variable {create : Bool} {E : Status → Prop}

theorem triple_call_on :
    Triple (On s index head cursor) call (fun _ => On s index head cursor)
      (fun e t => some e ∈ s.faults ∧ On s index head cursor t) := by
  rintro t ⟨hindex, hhead, hcursor, hfaults, hcreated⟩
  unfold call
  split
  · rename_i hnil
    refine ⟨fun a u h => ?_, fun e u h => nomatch h⟩
    obtain ⟨-, rfl⟩ := Prod.mk.inj h
    exact ⟨hindex, hhead, hcursor, hfaults, hcreated⟩
  · rename_i rest hrest
    rw [hrest, List.cons_subset] at hfaults
    refine ⟨fun a u h => ?_, fun e u h => nomatch h⟩
    obtain ⟨-, rfl⟩ := Prod.mk.inj h
    exact ⟨hindex, hhead, hcursor, hfaults.2, hcreated⟩
  · rename_i status rest hrest
    rw [hrest, List.cons_subset] at hfaults
    refine ⟨fun a u h => (nomatch h), fun e u h => ?_⟩
    obtain ⟨he, rfl⟩ := Prod.mk.inj h
    exact ⟨Except.error.inj he ▸ hfaults.1, hindex, hhead, hcursor, hfaults.2, hcreated⟩

theorem triple_call (hE : ∀ e, some e ∈ s.faults → E e) :
    Triple (On s index head cursor) call (fun _ => On s index head cursor) (fun e _ => E e) :=
  triple_call_on.error fun e _ he => hE e he.1

theorem triple_indexFind_on {id : ObjectId} {found : Indexed} (hfound : index id = some found) :
    Triple (On s index head cursor) (indexFind id) (fun x t => x = found ∧ On s index head cursor t)
      (fun e t => some e ∈ s.faults ∧ On s index head cursor t) := by
  apply triple_call_on.seq
  apply Triple.get_bind
  intro t ht
  rw [ht.index, hfound]
  apply Triple.pure
  rintro _ rfl
  exact ⟨rfl, ht⟩

theorem triple_indexFind {id : ObjectId} {found : Indexed} (hfound : index id = some found)
    (hE : ∀ e, some e ∈ s.faults → E e) :
    Triple (On s index head cursor) (indexFind id) (fun x t => x = found ∧ On s index head cursor t) (fun e _ => E e) :=
  (triple_indexFind_on hfound).error fun e _ he => hE e he.1

theorem triple_checksumLoad {p : Payload} (hcount : p.count ≤ checksumsPerObject) (hzero : idIsZero owner = false)
    (howner : p.owner = owner) (hE : ∀ e, some e ∈ s.faults → E e) :
    Triple (On s index head cursor) (checksumLoad owner (.checksum p)) (fun x t => x = p ∧ On s index head cursor t)
      (fun e _ => E e) := by
  apply (triple_call hE).seq
  have hvalid : ¬(checksumsPerObject < p.count ∨ idIsZero p.owner = true ∨ p.owner ≠ owner) := by
    rintro (h | h | h)
    · exact absurd hcount (Nat.not_le.mpr h)
    · rw [howner, hzero] at h
      cases h
    · exact h howner
  rw [if_neg hvalid]
  exact .pure fun t ht => ⟨rfl, ht⟩

theorem triple_writeObject (id : ObjectId) (p : Payload) (hE : ∀ e, some e ∈ s.faults → E e) :
    Triple (On s index head cursor) (writeObject id p)
      (fun _ => On s (update index id (some (.checksum p))) head cursor) (fun e _ => E e) := by
  apply (triple_call hE).seq
  apply Triple.modify
  intro t ht
  exact ⟨by rw [Store.setIndex, ht.index], ht.head, ht.cursor, ht.faults, ht.created⟩

theorem triple_setHead (id : ObjectId) :
    Triple (On s index head cursor) (modify fun s => s.setHead id : StoreM Unit) (fun _ => On s index id cursor) (fun e _ => E e) :=
  Triple.modify fun _ ht => ⟨ht.index, rfl, ht.cursor, ht.faults, ht.created⟩

theorem triple_setCursor (c : Option Cursor) :
    Triple (On s index head cursor) (modify fun s => s.setCursor c : StoreM Unit) (fun _ => On s index head c) (fun e _ => E e) :=
  Triple.modify fun _ ht => ⟨ht.index, ht.head, rfl, ht.faults, ht.created⟩

theorem triple_createObject (target : Nat) (next : ObjectId) (hE : ∀ e, Blames true s e → E e) :
    Triple (On s index head cursor) (checksumCreateObject owner target next)
      (fun id t => (idIsZero id = false ∧ index id = none) ∧
        On s (update index id (some (.checksum ((Node.fresh id target).payload owner next)))) head cursor t)
      (fun e _ => E e) := by
  rintro t ⟨hindex, hhead, hcursor, hfaults, hcreated⟩
  unfold checksumCreateObject
  split
  · refine ⟨fun a u h => (nomatch h), fun e u h => ?_⟩
    obtain ⟨he, -⟩ := Prod.mk.inj h
    exact hE e (.inr ⟨rfl, .inr (Except.error.inj he).symm⟩)
  · rename_i status rest hrest
    rw [hrest, List.cons_subset] at hcreated
    refine ⟨fun a u h => (nomatch h), fun e u h => ?_⟩
    obtain ⟨he, -⟩ := Prod.mk.inj h
    exact hE e (.inr ⟨rfl, .inl (Except.error.inj he ▸ hcreated.1)⟩)
  · rename_i id rest hrest
    rw [hrest, List.cons_subset] at hcreated
    split
    · refine ⟨fun a u h => (nomatch h), fun e u h => ?_⟩
      obtain ⟨he, -⟩ := Prod.mk.inj h
      exact hE e (.inr ⟨rfl, .inr (Except.error.inj he).symm⟩)
    · rename_i hfree
      rw [not_or, Bool.not_eq_true, Option.not_isSome_iff_eq_none, hindex] at hfree
      refine ⟨fun a u h => ?_, fun e u h => nomatch h⟩
      obtain ⟨ha, hu⟩ := Prod.mk.inj h
      obtain rfl := Except.ok.inj ha
      subst hu
      exact ⟨hfree, by rw [← hindex]; rfl, hhead, hcursor, hfaults, hcreated.2⟩

end Calls

section Walk

variable {s : Store} {owner : ObjectId} {target : Nat} {create : Bool} {nodes front back : List Node} {n : Node}
  {index : ObjectId → Option Indexed} {cursor : Option Cursor} {previous : Option (ObjectId × Nat)}

/-- The walk has ended at the node of the target, which it may have inserted,
and the cursor is there. -/
def Found (s : Store) (owner : ObjectId) (target : Nat) (create : Bool) (nodes : List Node) (r : ObjectId × Payload) (t : Store) :
    Prop :=
  ∃ front n back index, On s index (firstId (front ++ n :: back) noObject) (some ⟨owner, n.id, target⟩) t ∧
    Linked owner index (front ++ n :: back) noObject ∧ Ordered (front ++ n :: back) ∧ n.start = target ∧
    r = (n.id, n.payload owner (firstId back noObject)) ∧
    (nodes = front ++ n :: back ∨ create = true ∧ n = Node.fresh n.id target ∧ nodes = front ++ back)

/-- The visits of the loop before the one of the target. A missing target is
passed once before it is inserted. -/
def stepsTo (target : Nat) (create : Bool) (nodes : List Node) : Nat :=
  nodes.countP (fun n => decide (n.start < target)) + if create = true ∧ ∀ n ∈ nodes, n.start ≠ target then 1 else 0

def Misses (s : Store) (target : Nat) (create : Bool) (nodes ahead : List Node) (guard : Nat) (e : Status) : Prop :=
  Blames create s e ∨ (create = false ∧ (∀ n ∈ nodes, n.start ≠ target) ∧ e = .corrupt) ∨
    (e = .loopDetected ∧ guard ≤ stepsTo target create ahead)

variable {guard : Nat}

theorem Misses.mono {ahead ahead' : List Node} {guard' : Nat} {e : Status} (h : Misses s target create nodes ahead guard e)
    (hsteps : guard ≤ stepsTo target create ahead → guard' ≤ stepsTo target create ahead') :
    Misses s target create nodes ahead' guard' e :=
  h.imp_right fun h => h.imp_right fun h => ⟨h.1, hsteps h.2⟩

theorem stepsTo_cons (h : n.start < target) : stepsTo target create (n :: nodes) = stepsTo target create nodes + 1 := by
  have hmissing : (∀ m ∈ n :: nodes, m.start ≠ target) ↔ ∀ m ∈ nodes, m.start ≠ target := by
    rw [List.forall_mem_cons, and_iff_right (Nat.ne_of_lt h)]
  simp only [stepsTo, List.countP_cons, h, decide_true, if_true, hmissing]
  omega

theorem stepsTo_at (h : n.start = target) (hback : ∀ m ∈ back, target < m.start) : stepsTo target create (n :: back) = 0 := by
  have hcount : (n :: back).countP (fun n => decide (n.start < target)) = 0 := by
    rw [List.countP_eq_zero]
    intro m hm
    rw [decide_eq_true_iff]
    rcases List.mem_cons.mp hm with rfl | hm
    · omega
    · have := hback m hm
      omega
  rw [stepsTo, hcount, if_neg]
  rintro ⟨-, hmissing⟩
  exact hmissing n List.mem_cons_self h

theorem stepsTo_missing (nodes : List Node) (hmissing : ∀ m ∈ nodes, m.start ≠ target) : 1 ≤ stepsTo target true nodes := by
  rw [stepsTo, if_pos ⟨rfl, hmissing⟩]
  omega

/-- The node before the current one as the walk knows it. A walk from the
cursor knows none, but then it does not start beyond the target. -/
def Follows (target : Nat) (front : List Node) (n : Node) : Option (ObjectId × Nat) → Prop
  | none => front = [] ∨ n.start ≤ target
  | some q => ∃ before m, front = before ++ [m] ∧ q = (m.id, m.start)

theorem Ordered.place_eq {front' back' : List Node} {m : Node} (ho : Ordered (front ++ n :: back))
    (heq : front ++ n :: back = front' ++ m :: back') (hstart : n.start = m.start) : front = front' ∧ n = m ∧ back = back' := by
  have ho' : Ordered (front' ++ m :: back') := heq ▸ ho
  rcases List.append_eq_append_iff.mp heq with ⟨mid, hfront', hback⟩ | ⟨mid, hfront, hback⟩
  · cases mid with
    | nil =>
      rw [List.append_nil] at hfront'
      obtain ⟨hn, hb⟩ := List.cons.inj hback
      exact ⟨hfront'.symm, hn, hb⟩
    | cons k mid =>
      obtain ⟨rfl, -⟩ := List.cons.inj hback
      have := ho'.front_lt (m := n) (by rw [hfront']; simp)
      omega
  · cases mid with
    | nil =>
      rw [List.append_nil] at hfront
      obtain ⟨hn, hb⟩ := List.cons.inj hback
      exact ⟨hfront, hn.symm, hb.symm⟩
    | cons k mid =>
      obtain ⟨rfl, -⟩ := List.cons.inj hback
      have := ho.front_lt (m := m) (by rw [hfront]; simp)
      omega

theorem Found.inserted {id : ObjectId} {r : ObjectId × Payload} {t : Store} (ho : Ordered (front ++ Node.fresh id target :: back))
    (h : Found s owner target true (front ++ Node.fresh id target :: back) r t) : Found s owner target true (front ++ back) r t := by
  obtain ⟨front', m, back', index, hon, hlinked, hordered, hstart, hr, horigin⟩ := h
  have hplace : front ++ Node.fresh id target :: back = front' ++ m :: back' := by
    rcases horigin with horigin | ⟨-, -, horigin⟩
    · exact horigin
    · -- the target cannot be in the list twice
      exfalso
      have hin : Node.fresh id target ∈ front' ++ back' := horigin ▸ List.mem_append_right _ List.mem_cons_self
      rcases List.mem_append.mp hin with hin | hin
      · exact absurd hstart (Nat.ne_of_gt (hordered.front_lt hin))
      · exact absurd hstart (Nat.ne_of_lt (hordered.back_lt hin))
  obtain ⟨rfl, rfl, rfl⟩ := ho.place_eq hplace hstart.symm
  exact ⟨front, Node.fresh id target, back, index, hon, hlinked, hordered, rfl, hr, .inr ⟨rfl, rfl, rfl⟩⟩

def Walks (s : Store) (owner : ObjectId) (target : Nat) (create : Bool) (guard : Nat)
    (walk : ObjectId → Option (ObjectId × Nat) → StoreM (ObjectId × Payload)) : Prop :=
  ∀ index cursor front n back previous, Linked owner index (front ++ n :: back) noObject → Ordered (front ++ n :: back) →
    (∀ m ∈ front, m.start < target) → Follows target front n previous →
    Triple (On s index (firstId (front ++ n :: back) noObject) cursor) (walk n.id previous)
      (Found s owner target create (front ++ n :: back))
      (fun e _ => Misses s target create (front ++ n :: back) (n :: back) guard e)

/-- The walk goes on at the node that was inserted for the target. -/
theorem Walks.inserted {walk : ObjectId → Option (ObjectId × Nat) → StoreM (ObjectId × Payload)}
    (hwalk : Walks s owner target true guard walk) (cursor : Option Cursor) (front back ahead : List Node) (id : ObjectId)
    (ho : Ordered (front ++ back)) (hfront : ∀ m ∈ front, m.start < target) (hback : ∀ m ∈ back, target < m.start)
    (htarget : target % checksumsPerObject = 0)
    (hprev : Follows target front (Node.fresh id target) previous) (hahead : ∀ m ∈ ahead, m.start ≠ target) :
    Triple (fun t => ∃ index, On s index (firstId (front ++ Node.fresh id target :: back) noObject) cursor t ∧
        Linked owner index (front ++ Node.fresh id target :: back) noObject) (walk id previous)
      (Found s owner target true (front ++ back)) (fun e _ => Misses s target true (front ++ back) ahead (guard + 1) e) := by
  apply Triple.of_exists
  intro index
  apply Triple.at_state
  rintro t ⟨ht, hlinked⟩
  have ho' : Ordered (front ++ Node.fresh id target :: back) := ho.insert hfront hback htarget
  refine (hwalk index cursor front _ back previous hlinked ho' hfront hprev).mono ?_ (fun r u hfound => hfound.inserted ho') ?_
  · rintro _ rfl
    exact ht
  · rintro e - (he | ⟨hcreate, -⟩ | ⟨he, hguard⟩)
    · exact .inl he
    · cases hcreate
    · rw [stepsTo_at (show (Node.fresh id target).start = target from rfl) hback] at hguard
      have := stepsTo_missing ahead hahead
      exact .inr (.inr ⟨he, by omega⟩)

theorem triple_appendAfter {E : Status → Prop} (hlinked : Linked owner index (front ++ [n]) noObject)
    (ho : Ordered (front ++ [n])) (hE : ∀ e, Blames true s e → E e) :
    Triple (On s index (firstId (front ++ [n]) noObject) cursor) (appendAfter owner target n.id (n.payload owner noObject))
      (fun id t => ∃ index', On s index' (firstId (front ++ [n] ++ [Node.fresh id target]) noObject) cursor t ∧
        Linked owner index' (front ++ [n] ++ [Node.fresh id target]) noObject)
      (fun e _ => E e) := by
  apply (triple_createObject target noObject hE).bind_and
  rintro id ⟨hid, hfresh⟩
  apply (triple_writeObject n.id _ fun e he => hE e (.inl he)).seq
  apply Triple.pure
  intro t ht
  have hnew : Linked owner _ (front ++ n :: [Node.fresh id target]) noObject := hlinked.insert_after ho hid hfresh
  have hhead : firstId (front ++ [n]) noObject = firstId (front ++ n :: [Node.fresh id target]) noObject := by simp
  rw [hhead] at ht
  rw [List.append_assoc, List.singleton_append]
  exact ⟨_, ht, hnew⟩

theorem idIsZero_noObject : idIsZero noObject = true := by decide

theorem Follows.ordered (hprev : Follows target front n previous) (ho : Ordered (front ++ n :: back)) :
    ¬(n.start % checksumsPerObject ≠ 0 ∨ previous.any (fun q => decide (n.start ≤ q.2)) = true) := by
  rintro (h | h)
  · exact h (ho.aligned n (by simp))
  · cases previous with
    | none => cases h
    | some q =>
      obtain ⟨before, m, rfl, rfl⟩ := hprev
      have hlt := ho.front_lt (m := m) (by simp)
      simp only [Option.any_some, decide_eq_true_eq] at h
      omega

theorem Linked.current (h : Linked owner index (front ++ n :: back) noObject) :
    index n.id = some (.checksum (n.payload owner (firstId back noObject))) :=
  (linked_append.mp h).2.2.1

variable (howner : idIsZero owner = false)
include howner

theorem triple_insertBefore {E : Status → Prop} (hlinked : Linked owner index (front ++ n :: back) noObject)
    (ho : Ordered (front ++ n :: back)) (hgt : target < n.start) (hprev : Follows target front n previous)
    (hE : ∀ e, Blames true s e → E e) :
    Triple (On s index (firstId (front ++ n :: back) noObject) cursor) (insertBefore owner target n.id previous)
      (fun id t => ∃ index', On s index' (firstId (front ++ Node.fresh id target :: n :: back) noObject) cursor t ∧
        Linked owner index' (front ++ Node.fresh id target :: n :: back) noObject)
      (fun e _ => E e) := by
  have hfault : ∀ e, some e ∈ s.faults → E e := fun e he => hE e (.inl he)
  apply (triple_createObject target n.id hE).bind_and
  rintro id ⟨hid, hfresh⟩
  cases previous with
  | none =>
    have hempty : front = [] := hprev.resolve_right (Nat.not_le.mpr hgt)
    subst hempty
    apply (triple_setHead id).seq
    exact .pure fun t ht => ⟨_, ht, hlinked.insert_head hid hfresh⟩
  | some q =>
    obtain ⟨before, m, rfl, rfl⟩ := hprev
    rw [List.append_assoc, List.singleton_append] at hlinked ho
    have hm : update index id (some (.checksum ((Node.fresh id target).payload owner n.id))) m.id =
        some (.checksum (m.payload owner n.id)) := by
      obtain ⟨-, -, hm, -⟩ := linked_append.mp hlinked
      rw [update_of_ne _ _ _, hm]
      · rfl
      · intro heq
        rw [heq, hfresh] at hm
        cases hm
    have hlink : Triple (On s (update index id (some (.checksum ((Node.fresh id target).payload owner n.id))))
        (firstId (before ++ [m] ++ n :: back) noObject) cursor) (linkInserted owner id (some (m.id, m.start)))
        (fun _ => On s (update (update index id (some (.checksum ((Node.fresh id target).payload owner n.id))))
          m.id (some (.checksum (m.payload owner id)))) (firstId (before ++ [m] ++ n :: back) noObject) cursor)
        (fun e _ => E e) := by
      apply (triple_indexFind hm hfault).bind_and
      rintro found rfl
      apply (triple_checksumLoad (ho.counts m (by simp)) howner rfl hfault).bind_and
      rintro p rfl
      exact triple_writeObject m.id _ hfault
    apply hlink.seq
    apply Triple.pure
    intro t ht
    have hnew : Linked owner _ (before ++ m :: Node.fresh id target :: n :: back) noObject :=
      hlinked.insert_after ho hid hfresh
    have hhead : firstId (before ++ [m] ++ n :: back) noObject =
        firstId (before ++ m :: Node.fresh id target :: n :: back) noObject := by simp
    rw [hhead] at ht
    rw [List.append_assoc, List.singleton_append]
    exact ⟨_, ht, hnew⟩

theorem triple_locateVisit {again : ObjectId → Option (ObjectId × Nat) → StoreM (ObjectId × Payload)}
    (hagain : Walks s owner target create guard again) (htarget : target % checksumsPerObject = 0)
    (hlinked : Linked owner index (front ++ n :: back) noObject) (ho : Ordered (front ++ n :: back))
    (hfront : ∀ m ∈ front, m.start < target) (hprev : Follows target front n previous) :
    Triple (On s index (firstId (front ++ n :: back) noObject) cursor)
      (locateVisit owner target create again n.id previous (.checksum (n.payload owner (firstId back noObject))))
      (Found s owner target create (front ++ n :: back))
      (fun e _ => Misses s target create (front ++ n :: back) (n :: back) (guard + 1) e) := by
  apply (triple_checksumLoad (ho.counts n (by simp)) howner rfl fun e he => .inl (.inl he)).bind_and
  rintro p rfl
  apply Triple.ite
  · exact fun h => absurd h (hprev.ordered ho)
  intro _
  apply Triple.ite
  · intro (hstart : n.start = target)
    apply (triple_setCursor _).seq
    apply Triple.pure
    intro t ht
    refine ⟨front, n, back, index, ?_, hlinked, ho, hstart, rfl, .inl rfl⟩
    rwa [← hstart]
  intro (hne : n.start ≠ target)
  apply Triple.ite
  · intro (hgt : target < n.start)
    have hback : ∀ m ∈ n :: back, target < m.start := by
      intro m hm
      rcases List.mem_cons.mp hm with rfl | hm
      · exact hgt
      · exact hgt.trans (ho.back_lt hm)
    have hmissing : ∀ m ∈ front ++ n :: back, m.start ≠ target := by
      intro m hm
      rcases List.mem_append.mp hm with hm | hm
      · exact Nat.ne_of_lt (hfront m hm)
      · exact Nat.ne_of_gt (hback m hm)
    cases create with
    | false => exact .fail fun _ _ => .inr (.inl ⟨rfl, hmissing, rfl⟩)
    | true =>
      apply (triple_insertBefore howner hlinked ho hgt hprev fun e he => .inl he).bind
      intro id
      have hprev' : Follows target front (Node.fresh id target) previous := by
        cases previous with
        | none => exact .inr le_rfl
        | some q => exact hprev
      exact hagain.inserted cursor front (n :: back) _ id ho hfront hback htarget hprev' fun m hm => Nat.ne_of_gt (hback m hm)
  intro hle
  have hlt : n.start < target := by
    have : ¬target < n.start := hle
    omega
  have hprev' (k : Node) : Follows target (front ++ [n]) k (some (n.id, n.start)) := ⟨front, n, rfl, rfl⟩
  have hfront' : ∀ m ∈ front ++ [n], m.start < target := by
    intro m hm
    rcases List.mem_append.mp hm with hm | hm
    · exact hfront m hm
    · rw [List.mem_singleton.mp hm]
      exact hlt
  cases back with
  | nil =>
    apply Triple.ite
    case nil.hy => exact fun h => absurd idIsZero_noObject h
    intro _
    have hmissing : ∀ m ∈ front ++ [n], m.start ≠ target := fun m hm => Nat.ne_of_lt (hfront' m hm)
    cases create with
    | false => exact .fail fun _ _ => .inr (.inl ⟨rfl, hmissing, rfl⟩)
    | true =>
      apply (triple_appendAfter hlinked ho fun e he => .inl he).bind
      intro id
      have hnext := hagain.inserted cursor (front ++ [n]) [] [n] id (by rwa [List.append_nil]) hfront'
        (List.forall_mem_nil _) htarget (hprev' _) fun m hm => hmissing m (List.mem_append_right _ hm)
      rwa [List.append_nil] at hnext
  | cons m back =>
    have hzero : idIsZero m.id = false := (hlinked.mem (by simp)).1
    apply Triple.ite
    · intro (h : idIsZero m.id = true)
      rw [hzero] at h
      cases h
    intro _
    have hsplit : front ++ n :: m :: back = front ++ [n] ++ m :: back := by simp
    rw [hsplit] at hlinked ho ⊢
    refine (hagain index cursor (front ++ [n]) m back _ hlinked ho hfront' (hprev' m)).error ?_
    exact fun e _ he => he.mono fun hguard => by rw [stepsTo_cons hlt]; omega

theorem walks_locateLoop (htarget : target % checksumsPerObject = 0) (guard : Nat) :
    Walks s owner target create guard fun id previous => locateLoop owner target create guard id previous false := by
  induction guard with
  | zero =>
    intro index cursor front n back previous _ _ _ _
    exact .fail fun _ _ => .inr (.inr ⟨rfl, Nat.zero_le _⟩)
  | succ guard ih =>
    intro index cursor front n back previous hlinked ho hfront hprev
    apply (triple_indexFind_on hlinked.current).attempt_bind
    · intro found
      apply Triple.of_and
      rintro rfl
      exact triple_locateVisit howner ih htarget hlinked ho hfront hprev
    · intro e
      exact .fail fun _ he => .inl (.inl he.1)

theorem triple_locateLoop_cursor (htarget : target % checksumsPerObject = 0)
    (hlinked : Linked owner index (front ++ n :: back) noObject) (ho : Ordered (front ++ n :: back)) (hle : n.start ≤ target) :
    Triple (On s index (firstId (front ++ n :: back) noObject) cursor) (locateLoop owner target create guard n.id none true)
      (Found s owner target create (front ++ n :: back))
      (fun e _ => Misses s target create (front ++ n :: back) (front ++ n :: back) (guard - 1) e) := by
  have hahead : stepsTo target create (n :: back) ≤ stepsTo target create (front ++ n :: back) := by
    have hsame : (∀ m ∈ n :: back, m.start ≠ target) ↔ ∀ m ∈ front ++ n :: back, m.start ≠ target := by
      rw [List.forall_mem_append]
      exact ⟨fun h => ⟨fun m hm => Nat.ne_of_lt ((ho.front_lt hm).trans_le hle), h⟩, fun h => h.2⟩
    simp only [stepsTo, hsame, List.countP_append]
    omega
  cases guard with
  | zero => exact .fail fun _ _ => .inr (.inr ⟨rfl, Nat.zero_le _⟩)
  | succ guard =>
    have hfront : ∀ m ∈ front, m.start < target := fun m hm => (ho.front_lt hm).trans_le hle
    apply (triple_indexFind_on hlinked.current).attempt_bind
    · intro found
      apply Triple.of_and
      rintro rfl
      have hprev : Follows target front n none := .inr hle
      apply (triple_locateVisit howner (walks_locateLoop howner htarget guard) htarget hlinked ho hfront hprev).mono (fun _ => id)
        (fun _ _ => id)
      exact fun e _ he => he.mono fun _ => by omega
    · intro e
      apply Triple.of_and
      intro _
      apply Triple.ite
      · intro _
        apply (triple_setCursor none).seq
        apply Triple.get_bind
        intro t ht
        rw [ht.head]
        -- the chain is not empty, so the head is the ID of a node
        obtain ⟨first, rest, hfirst⟩ : ∃ first rest, front ++ n :: back = first :: rest := by
          cases front with
          | nil => exact ⟨n, back, rfl⟩
          | cons m front => exact ⟨m, front ++ n :: back, rfl⟩
        rw [hfirst] at hlinked ho ht ⊢
        refine (walks_locateLoop howner htarget guard index none [] first rest none hlinked ho
          (List.forall_mem_nil _) (.inl rfl)).mono ?_ (fun _ _ => id) (fun _ _ => id)
        rintro _ rfl
        exact ht
      · exact fun h => absurd rfl h

end Walk

end InfiltratorFS.Checksums
