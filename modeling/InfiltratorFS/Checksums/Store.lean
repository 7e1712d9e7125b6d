import InfiltratorFS.Checksums.Chain

/-! The checksum store of a file as a map from blocks to digests. -/

namespace InfiltratorFS.Checksums

open File (checksumsPerObject)
open Prog FlatStore

section Locate

variable {owner : ObjectId} {create : Bool} {nodes : List Node} {index : ObjectId → Option Indexed}

def Fits (owner : ObjectId) (nodes : List Node) (cursor : Option Cursor) : Prop :=
  ∀ c, cursor = some c → c.owner = owner → ∃ n ∈ nodes, n.id = c.object ∧ n.start = c.start

theorem groupStart_aligned (logical : Nat) : groupStart logical % checksumsPerObject = 0 := Nat.mul_mod_left ..

theorem idIsZero_firstId (h : Linked owner index nodes noObject) : idIsZero (firstId nodes noObject) = nodes.isEmpty := by
  cases nodes with
  | nil => exact idIsZero_noObject
  | cons n nodes => exact h.1

theorem countP_le {target : Nat} (ho : Ordered nodes) (htarget : target % checksumsPerObject = 0) :
    nodes.countP (fun n => decide (n.start < target)) ≤ target / checksumsPerObject := by
  have hfrom : ∀ group, (∀ n ∈ nodes, group * checksumsPerObject ≤ n.start) →
      nodes.countP (fun n => decide (n.start < target)) ≤ target / checksumsPerObject - group := by
    induction nodes with
    | nil => exact fun _ _ => Nat.zero_le _
    | cons n nodes ih =>
      intro group hgroup
      obtain ⟨hlt, hasc⟩ := List.pairwise_cons.mp ho.ascending
      have hn := hgroup n List.mem_cons_self
      have halign := ho.aligned n List.mem_cons_self
      have hrest := ih ⟨hasc, fun m hm => ho.aligned m (List.mem_cons_of_mem n hm),
        fun m hm => ho.counts m (List.mem_cons_of_mem n hm)⟩ (n.start / checksumsPerObject + 1) (by
          intro m hm
          have h := hlt m hm
          have halign' := ho.aligned m (List.mem_cons_of_mem n hm)
          simp only [checksumsPerObject] at halign halign' ⊢
          omega)
      rw [List.countP_cons]
      simp only [checksumsPerObject, decide_eq_true_eq] at hn halign htarget hrest ⊢
      split
      · omega
      · omega
  simpa using hfrom 0 fun n _ => by simp

/-- A walk runs out of visits only on its way to a block far up in the file. -/
theorem loop_far {logical : Nat} (ho : Ordered nodes) (h : walkLimit - 1 ≤ stepsTo (groupStart logical) create nodes) :
    walkLimit ≤ logical / checksumsPerObject + 2 := by
  have hcount := countP_le ho (groupStart_aligned logical)
  have hgroup : groupStart logical / checksumsPerObject = logical / checksumsPerObject := Nat.mul_div_cancel _ (by decide)
  rw [hgroup] at hcount
  have hsteps : stepsTo (groupStart logical) create nodes ≤
      nodes.countP (fun n => decide (n.start < groupStart logical)) + 1 := by
    unfold stepsTo
    split <;> omega
  omega

end Locate

section Map

variable {nodes front back : List Node} {n : Node} {cover : Nat → Option Digest} {logical : Nat} {digests : List Digest}

/-- The nodes hold the digests of the map. A slot without one is blank, and
the last slot in use has one. -/
structure Represents (nodes : List Node) (cover : Nat → Option Digest) : Prop where
  covered : ∀ b d, cover b = some d → ∃ n ∈ nodes, n.start = groupStart b ∧ b % checksumsPerObject < n.count ∧
    n.values (b % checksumsPerObject) = d
  blank : ∀ n ∈ nodes, ∀ k < checksumsPerObject, cover (n.start + k) = none → n.values k = blankDigest
  last : ∀ n ∈ nodes, 0 < n.count → (cover (n.start + (n.count - 1))).isSome = true

def setCover (cover : Nat → Option Digest) (logical : Nat) (digests : List Digest) : Nat → Option Digest :=
  overlay cover logical (digests.map some)

theorem setCover_inside {b : Nat} (hlo : logical ≤ b) (hhi : b < logical + digests.length) :
    setCover cover logical digests b = digests[b - logical]? := by
  have hlt : b - logical < digests.length := by omega
  have h : (digests.map some)[b - logical]? = some (setCover cover logical digests b) :=
    overlay_inside hlo (by rwa [List.length_map])
  rw [List.getElem?_map, List.getElem?_eq_getElem hlt, Option.map_some, Option.some.injEq] at h
  rw [← h, List.getElem?_eq_getElem hlt]

theorem setCover_outside {b : Nat} (h : b < logical ∨ logical + digests.length ≤ b) :
    setCover cover logical digests b = cover b :=
  overlay_outside (by rwa [List.length_map])

theorem setCover_isSome {b : Nat} (h : (cover b).isSome = true) : (setCover cover logical digests b).isSome = true := by
  by_cases hin : logical ≤ b ∧ b < logical + digests.length
  · rw [setCover_inside hin.1 hin.2, List.getElem?_eq_getElem (by omega)]
    rfl
  · rwa [setCover_outside (by omega)]

theorem groupStart_add {start k : Nat} (hstart : start % checksumsPerObject = 0) (hk : k < checksumsPerObject) :
    groupStart (start + k) = start ∧ (start + k) % checksumsPerObject = k := by
  simp only [groupStart, checksumsPerObject] at *
  omega

theorem groupStart_add_mod (b : Nat) : groupStart b + b % checksumsPerObject = b := Nat.div_add_mod' ..

theorem Represents.insert {id : ObjectId} {target : Nat} (h : Represents (front ++ back) cover) :
    Represents (front ++ Node.fresh id target :: back) cover := by
  refine ⟨fun b d hb => ?_, fun n hn k hk hnone => ?_, fun n hn hpos => ?_⟩
  · obtain ⟨n, hn, hrest⟩ := h.covered b d hb
    exact ⟨n, by simp only [List.mem_append, List.mem_cons] at hn ⊢; tauto, hrest⟩
  · by_cases hfresh : n = Node.fresh id target
    · rw [hfresh]
      rfl
    · exact h.blank n (by simp only [List.mem_append, List.mem_cons] at hn ⊢; tauto) k hk hnone
  · by_cases hfresh : n = Node.fresh id target
    · rw [hfresh] at hpos
      cases hpos
    · exact h.last n (by simp only [List.mem_append, List.mem_cons] at hn ⊢; tauto) hpos

def Node.setValues (n : Node) (offset : Nat) (digests : List Digest) : Node :=
  { n with values := overlay n.values offset digests, count := max n.count (offset + digests.length) }

theorem Represents.write (h : Represents (front ++ n :: back) cover) (ho : Ordered (front ++ n :: back))
    (hstart : n.start = groupStart logical) (hpos : 0 < digests.length)
    (hfit : logical % checksumsPerObject + digests.length ≤ checksumsPerObject) :
    Represents (front ++ n.setValues (logical % checksumsPerObject) digests :: back) (setCover cover logical digests) := by
  have hlogical := groupStart_add_mod logical
  rw [← hstart] at hlogical
  -- the range is apart from the groups of the other nodes
  have hother {m : Node} (hm : m ∈ front ∨ m ∈ back) {k : Nat} (hk : k < checksumsPerObject) :
      setCover cover logical digests (m.start + k) = cover (m.start + k) := by
    apply setCover_outside
    have hne : m.start ≠ n.start := by
      rcases hm with hm | hm
      · exact Nat.ne_of_lt (ho.front_lt hm)
      · exact Nat.ne_of_gt (ho.back_lt hm)
    have halign := ho.aligned m (by simp only [List.mem_append, List.mem_cons]; tauto)
    have halign' := ho.aligned n (by simp)
    simp only [checksumsPerObject] at *
    omega
  have hself {k : Nat} : setCover cover logical digests (n.start + k) =
      if logical % checksumsPerObject ≤ k ∧ k < logical % checksumsPerObject + digests.length then
        digests[k - logical % checksumsPerObject]?
      else cover (n.start + k) := by
    split
    · rw [setCover_inside (by omega) (by omega)]
      congr 1
      omega
    · exact setCover_outside (by omega)
  have hmem {m : Node} (hm : m ∈ front ++ n.setValues (logical % checksumsPerObject) digests :: back) :
      m = n.setValues (logical % checksumsPerObject) digests ∨ (m ∈ front ∨ m ∈ back) := by
    simp only [List.mem_append, List.mem_cons] at hm
    tauto
  have hold {m : Node} (hm : m ∈ front ∨ m ∈ back) : m ∈ front ++ n :: back := by
    simp only [List.mem_append, List.mem_cons]
    tauto
  refine ⟨fun b d hb => ?_, fun m hm k hk hnone => ?_, fun m hm hcount => ?_⟩
  · by_cases hin : logical ≤ b ∧ b < logical + digests.length
    · have hgroup : groupStart b = n.start ∧ b % checksumsPerObject = logical % checksumsPerObject + (b - logical) := by
        simp only [groupStart, checksumsPerObject] at *
        omega
      rw [setCover_inside hin.1 hin.2] at hb
      refine ⟨n.setValues (logical % checksumsPerObject) digests, by simp, hgroup.1.symm, ?_, ?_⟩
      · rw [hgroup.2]
        exact Nat.lt_of_lt_of_le (by omega) (Nat.le_max_right ..)
      · rw [hgroup.2]
        have hvalue : digests[logical % checksumsPerObject + (b - logical) - logical % checksumsPerObject]? =
            some (overlay n.values (logical % checksumsPerObject) digests (logical % checksumsPerObject + (b - logical))) :=
          overlay_inside (Nat.le_add_right ..) (by omega)
        rw [Nat.add_sub_cancel_left, hb, Option.some.injEq] at hvalue
        exact hvalue.symm
    · rw [setCover_outside (by omega)] at hb
      obtain ⟨m, hm, hmstart, hmcount, hmvalue⟩ := h.covered b d hb
      simp only [List.mem_append, List.mem_cons] at hm
      rcases hm with hm | rfl | hm
      · exact ⟨m, by simp [hm], hmstart, hmcount, hmvalue⟩
      · refine ⟨m.setValues (logical % checksumsPerObject) digests, by simp, hmstart,
          Nat.lt_of_lt_of_le hmcount (Nat.le_max_left ..), ?_⟩
        rw [← hmvalue]
        apply overlay_outside
        have := groupStart_add_mod b
        omega
      · exact ⟨m, by simp [hm], hmstart, hmcount, hmvalue⟩
  · rcases hmem hm with rfl | hm
    · have hk' : setCover cover logical digests (n.start + k) = none := hnone
      rw [hself] at hk'
      split at hk'
      · rename_i hrange
        rw [List.getElem?_eq_none_iff] at hk'
        omega
      · rename_i hrange
        refine (overlay_outside (by omega)).trans ?_
        exact h.blank n (by simp) k hk hk'
    · rw [hother hm hk] at hnone
      exact h.blank m (hold hm) k hk hnone
  · rcases hmem hm with rfl | hm
    · show (setCover cover logical digests (n.start + (max n.count (logical % checksumsPerObject + digests.length) - 1))).isSome = true
      by_cases hbig : n.count ≤ logical % checksumsPerObject + digests.length
      · rw [max_eq_right hbig, hself, if_pos (by omega), List.getElem?_eq_getElem (by omega)]
        rfl
      · rw [max_eq_left (by omega)]
        exact setCover_isSome (h.last n (by simp) (by omega))
    · have hle := ho.counts m (hold hm)
      rw [hother hm (by omega)]
      exact h.last m (hold hm) hcount

theorem setCover_append (cover : Nat → Option Digest) (logical : Nat) (first rest : List Digest) :
    setCover (setCover cover logical first) (logical + first.length) rest = setCover cover logical (first ++ rest) := by
  rw [setCover, setCover, setCover, List.map_append, overlay_append, List.length_map]

end Map

section Operations

variable {s : Store} {owner : ObjectId} {cover : Nat → Option Digest}

/-- A state of the store with the chain of the file, which holds the map. -/
structure Sound (owner : ObjectId) (t : Store) (cover : Nat → Option Digest) (nodes : List Node) : Prop where
  nonzero : idIsZero owner = false
  head : t.head = firstId nodes noObject
  linked : Linked owner t.index nodes noObject
  ordered : Ordered nodes
  represents : Represents nodes cover
  cursor : nodes = [] ∨ Fits owner nodes t.cursor

def Keeps (s : Store) (owner : ObjectId) (cover : Nat → Option Digest) (t : Store) : Prop :=
  (∃ nodes, Sound owner t cover nodes) ∧ t.faults ⊆ s.faults ∧ t.created ⊆ s.created

theorem triple_checksumLocate {t : Store} {create : Bool} {nodes : List Node} (hsound : Sound owner t cover nodes)
    (hfaults : t.faults ⊆ s.faults) (hcreated : t.created ⊆ s.created) (logical : Nat) :
    Triple (· = t) (checksumLocate owner logical create) (Found s owner (groupStart logical) create nodes)
      (fun e _ => Misses s (groupStart logical) create nodes nodes (walkLimit - 1) e) := by
  obtain ⟨howner, hhead, hlinked, ho, -, hfits⟩ := hsound
  have htarget := groupStart_aligned logical
  have hstate : ∀ u, u = t → On s t.index (firstId nodes noObject) t.cursor u := by
    rintro _ rfl
    exact ⟨rfl, hhead, rfl, hfaults, hcreated⟩
  apply Triple.get_bind
  intro u hu
  subst u
  apply Triple.ite
  · intro hzero
    rw [hhead, idIsZero_firstId hlinked, List.isEmpty_iff] at hzero
    subst hzero
    cases create with
    | false => exact .fail fun _ _ => .inr (.inl ⟨rfl, List.forall_mem_nil _, rfl⟩)
    | true =>
      apply ((triple_createObject (groupStart logical) noObject fun e he => .inl he).pre hstate).bind_and
      rintro id ⟨hid, hfresh⟩
      apply (triple_setHead id).seq
      have hempty (P : Node → Prop) : ∀ m ∈ ([] : List Node), P m := List.forall_mem_nil _
      have hprev : Follows (groupStart logical) [] (Node.fresh id (groupStart logical)) none := .inl rfl
      refine ((walks_locateLoop howner htarget walkLimit).inserted t.cursor [] [] [] id ho (hempty _) (hempty _) htarget hprev
        (hempty _)).mono ?_ (fun _ _ h => h) (fun e _ he => he.mono fun h => by omega)
      exact fun u hu => ⟨_, hu, hlinked.insert_head hid hfresh⟩
  · intro hzero
    rw [hhead, idIsZero_firstId hlinked, List.isEmpty_iff] at hzero
    split
    · rename_i c hc
      obtain ⟨hsome, hserves⟩ := Option.filter_eq_some_iff.mp hc
      rw [Cursor.serves, Bool.and_eq_true, decide_eq_true_iff, decide_eq_true_iff] at hserves
      obtain ⟨n, hn, hid, hstart⟩ := hfits.resolve_left hzero c hsome hserves.1
      obtain ⟨front, back, rfl⟩ := List.append_of_mem hn
      rw [← hid]
      exact (triple_locateLoop_cursor howner htarget hlinked ho (hstart ▸ hserves.2)).mono hstate (fun _ _ h => h)
        (fun e _ he => he)
    · obtain ⟨first, rest, rfl⟩ := List.exists_cons_of_ne_nil hzero
      rw [hhead]
      exact (walks_locateLoop howner htarget walkLimit _ _ [] first rest none hlinked ho
        (List.forall_mem_nil _) (.inl rfl)).mono hstate (fun _ _ h => h)
        (fun e _ he => he.mono (Nat.le_trans (Nat.sub_le ..)))

theorem triple_writeLocated {nodes : List Node} {logical : Nat} {digests : List Digest} {E : Status → Prop}
    (howner : idIsZero owner = false) (hrep : Represents nodes cover) (hpos : 0 < digests.length)
    (hfit : logical % checksumsPerObject + digests.length ≤ checksumsPerObject) (hE : ∀ e, some e ∈ s.faults → E e)
    (located : ObjectId × Payload) :
    Triple (Found s owner (groupStart logical) true nodes located)
      (writeObject located.1 (located.2.setValues (logical % checksumsPerObject) digests))
      (fun _ => Keeps s owner (setCover cover logical digests)) (fun e _ => E e) := by
  rintro t ⟨front, n, back, index, hon, hlinked, ho, hstart, rfl, horigin⟩
  have hrep' : Represents (front ++ n :: back) cover := by
    rcases horigin with rfl | ⟨-, hfresh, rfl⟩
    · exact hrep
    · rw [hfresh]
      exact hrep.insert
  have hwrite : Triple (On s index (firstId (front ++ n :: back) noObject) (some ⟨owner, n.id, groupStart logical⟩))
      (writeObject n.id ((n.payload owner (firstId back noObject)).setValues (logical % checksumsPerObject) digests)) _
      (fun e _ => E e) := triple_writeObject _ _ hE
  refine (hwrite.post fun _ u hu => ?_) t hon
  have hcount : (n.setValues (logical % checksumsPerObject) digests).count ≤ checksumsPerObject :=
    Nat.max_le.mpr ⟨ho.counts n (by simp), hfit⟩
  refine ⟨⟨front ++ n.setValues (logical % checksumsPerObject) digests :: back, howner, ?_, ?_, ho.replace rfl hcount,
    hrep'.write ho hstart hpos hfit, .inr ?_⟩, hu.faults, hu.created⟩
  · rw [hu.head]
    simp [Node.setValues]
  · rw [hu.index]
    exact hlinked.replace (m := n.setValues (logical % checksumsPerObject) digests) ho rfl
  · intro c hc _
    rw [hu.cursor] at hc
    cases hc
    exact ⟨n.setValues (logical % checksumsPerObject) digests, by simp, rfl, hstart⟩

/-- Setting a range fails only when a call does, or on the way to a block far
up in the file. -/
def SetFails (s : Store) (logical count : Nat) (e : Status) : Prop :=
  Blames true s e ∨ (e = .loopDetected ∧ ∃ b, logical ≤ b ∧ b < logical + count ∧ walkLimit ≤ b / checksumsPerObject + 2)

theorem triple_setRangeLoop (fuel : Nat) : ∀ (cover : Nat → Option Digest) (logical : Nat) (digests : List Digest),
    digests.length ≤ fuel →
    Triple (Keeps s owner cover) (setRangeLoop owner fuel logical digests)
      (fun _ => Keeps s owner (setCover cover logical digests)) (fun e _ => SetFails s logical digests.length e) := by
  have hend (cover : Nat → Option Digest) (logical : Nat) : setCover cover logical [] = cover := by
    funext b
    exact setCover_outside (by simp only [List.length_nil]; omega)
  induction fuel with
  | zero =>
    intro cover logical digests hlength
    obtain rfl := List.eq_nil_of_length_eq_zero (Nat.le_zero.mp hlength)
    rw [hend]
    exact .pure fun _ ht => ht
  | succ fuel ih =>
    intro cover logical digests hlength
    apply Triple.ite
    · intro hempty
      obtain rfl := List.isEmpty_iff.mp hempty
      rw [hend]
      exact .pure fun _ ht => ht
    · intro hne
      have hpos : 0 < digests.length := List.length_pos_iff.mpr fun h => hne (List.isEmpty_iff.mpr h)
      have hmod : logical % checksumsPerObject < checksumsPerObject := Nat.mod_lt _ (by decide)
      dsimp only
      generalize hchunk : min (checksumsPerObject - logical % checksumsPerObject) digests.length = chunk
      have htake : (digests.take chunk).length = chunk := by
        rw [List.length_take]
        omega
      apply Triple.at_state
      rintro t ⟨⟨nodes, hsound⟩, hfaults, hcreated⟩
      have hlocate : Triple (· = t) (checksumLocate owner logical true) (Found s owner (groupStart logical) true nodes)
          (fun e _ => SetFails s logical digests.length e) := by
        apply (triple_checksumLocate hsound hfaults hcreated logical).error
        rintro e - (he | ⟨hcreate, -⟩ | ⟨he, hle⟩)
        · exact .inl he
        · cases hcreate
        · exact .inr ⟨he, logical, le_rfl, by omega, loop_far hsound.ordered hle⟩
      apply hlocate.bind
      intro located
      apply (triple_writeLocated hsound.nonzero hsound.represents (by omega) (by omega) (fun e he => .inl (.inl he)) located).seq
      have hrest := ih (setCover cover logical (digests.take chunk)) (logical + chunk) (digests.drop chunk) (by
        rw [List.length_drop]
        omega)
      have happend := setCover_append cover logical (digests.take chunk) (digests.drop chunk)
      rw [htake, List.take_append_drop] at happend
      rw [happend] at hrest
      apply hrest.error
      rintro e - (he | ⟨he, b, hlo, hhi, hfar⟩)
      · exact .inl he
      · rw [List.length_drop] at hhi
        exact .inr ⟨he, b, by omega, by omega, hfar⟩

/-- What a block without a digest reads as. Up to the last digest of its
group it is blank. -/
def Reads (cover : Nat → Option Digest) (b : Nat) (d : Digest) : Prop :=
  d = (cover b).getD blankDigest ∧ ∃ b', b ≤ b' ∧ groupStart b' = groupStart b ∧ (cover b').isSome = true

/-- Getting a digest fails when a call does, beyond the last digest of a
group, or on the way to a block far up in the file. -/
def GetFails (s : Store) (cover : Nat → Option Digest) (b : Nat) (e : Status) : Prop :=
  some e ∈ s.faults ∨ (e = .corrupt ∧ ∀ b', b ≤ b' → groupStart b' = groupStart b → cover b' = none) ∨
    (e = .loopDetected ∧ walkLimit ≤ b / checksumsPerObject + 2)

theorem triple_checksumGet (b : Nat) :
    Triple (Keeps s owner cover) (checksumGet owner b) (fun d t => Reads cover b d ∧ Keeps s owner cover t)
      (fun e _ => GetFails s cover b e) := by
  apply Triple.at_state
  rintro t ⟨⟨nodes, hsound⟩, hfaults, hcreated⟩
  have hlocate : Triple (· = t) (checksumLocate owner b false) (Found s owner (groupStart b) false nodes)
      (fun e _ => GetFails s cover b e) := by
    apply (triple_checksumLocate hsound hfaults hcreated b).error
    rintro e - ((he | ⟨hcreate, -⟩) | ⟨-, hmissing, he⟩ | ⟨he, hle⟩)
    · exact .inl he
    · cases hcreate
    · refine .inr (.inl ⟨he, fun b' _ hgroup => ?_⟩)
      rw [Option.eq_none_iff_forall_ne_some]
      intro d hd
      obtain ⟨m, hm, hstart, -⟩ := hsound.represents.covered b' d hd
      exact hmissing m hm (hstart.trans hgroup)
    · exact .inr (.inr ⟨he, loop_far hsound.ordered hle⟩)
  apply hlocate.bind
  intro located
  apply Triple.at_state
  rintro u ⟨front, n, back, index, hu, hlinked, ho, hstart, rfl, horigin⟩
  have hnodes : nodes = front ++ n :: back := horigin.resolve_right fun h => by cases h.1
  have hrep := hnodes ▸ hsound.represents
  -- the digest of a block of the group is in this node
  have hself {b' : Nat} {d : Digest} (hgroup : groupStart b' = groupStart b) (hd : cover b' = some d) :
      b' % checksumsPerObject < n.count ∧ n.values (b' % checksumsPerObject) = d := by
    obtain ⟨m, hm, hmstart, hrest⟩ := hrep.covered b' d hd
    obtain ⟨front', back', hplace⟩ := List.append_of_mem hm
    obtain ⟨-, rfl, -⟩ := ho.place_eq hplace (hstart.trans (hgroup.symm.trans hmstart.symm))
    exact hrest
  have hkeeps : Keeps s owner cover u := by
    refine ⟨⟨front ++ n :: back, hsound.nonzero, hu.head, hu.index ▸ hlinked, ho, hrep, .inr ?_⟩, hu.faults, hu.created⟩
    intro c hc _
    rw [hu.cursor] at hc
    cases hc
    exact ⟨n, by simp, rfl, hstart⟩
  have hb := groupStart_add_mod b
  apply Triple.ite
  · intro (hcount : n.count ≤ b % checksumsPerObject)
    refine .fail fun _ _ => .inr (.inl ⟨rfl, fun b' hle hgroup => ?_⟩)
    rw [Option.eq_none_iff_forall_ne_some]
    intro d hd
    have hlt := (hself hgroup hd).1
    have hb' := groupStart_add_mod b'
    omega
  · intro hcount
    have hlt : b % checksumsPerObject < n.count := Nat.not_le.mp hcount
    apply Triple.pure
    rintro _ rfl
    refine ⟨⟨?_, n.start + (n.count - 1), by omega, ?_, hrep.last n (by simp) (by omega)⟩, hkeeps⟩
    · show n.values (b % checksumsPerObject) = _
      cases hd : cover b with
      | none =>
        have hmod : b % checksumsPerObject < checksumsPerObject := Nat.mod_lt _ (by decide)
        exact hrep.blank n (by simp) _ hmod (by rw [hstart, hb, hd])
      | some d => exact (hself rfl hd).2
    · have hle := ho.counts n (by simp)
      rw [(groupStart_add (ho.aligned n (by simp)) (by omega)).1, hstart]

end Operations

section Runs

variable {owner : ObjectId} {s t : Store} {cover : Nat → Option Digest} {nodes : List Node}

/-- What happens between the calls: other objects of the index come and go,
and the cursor is cleared, moves to another file or to an object of the
chain. -/
structure Elsewhere (owner : ObjectId) (s t : Store) : Prop where
  head : t.head = s.head
  index : ∀ id p, s.index id = some (.checksum p) → p.owner = owner → t.index id = s.index id
  cursor : t.cursor = s.cursor ∨
    ∃ nodes, s.head = firstId nodes noObject ∧ Linked owner s.index nodes noObject ∧ Fits owner nodes t.cursor

/-- The states of the store of a file that started without checksums, with the
digests that were last set. -/
inductive Reaches (owner : ObjectId) : Store → (Nat → Option Digest) → Prop
  | empty {s : Store} (howner : idIsZero owner = false) (h : s.head = noObject) : Reaches owner s fun _ => none
  | set {s t : Store} {cover : Nat → Option Digest} {logical : Nat} {digests : List Digest} (hs : Reaches owner s cover)
      (h : checksumSetRange owner logical digests s = (.ok (), t)) : Reaches owner t (setCover cover logical digests)
  | get {s t : Store} {cover : Nat → Option Digest} {logical : Nat} {d : Digest} (hs : Reaches owner s cover)
      (h : checksumGet owner logical s = (.ok d, t)) : Reaches owner t cover
  | elsewhere {s t : Store} {cover : Nat → Option Digest} (hs : Reaches owner s cover) (h : Elsewhere owner s t) :
      Reaches owner t cover

theorem Linked.unique {index : ObjectId → Option Indexed} {nodes' : List Node} (h : Linked owner index nodes noObject)
    (h' : Linked owner index nodes' noObject) (hfirst : firstId nodes noObject = firstId nodes' noObject) : nodes = nodes' := by
  induction nodes generalizing nodes' with
  | nil =>
    have hempty := idIsZero_firstId h'
    rw [← hfirst] at hempty
    exact (List.isEmpty_iff.mp (hempty.symm.trans idIsZero_noObject)).symm
  | cons n nodes ih =>
    cases nodes' with
    | nil =>
      have hzero : n.id = noObject := hfirst
      have hnonzero := h.1
      rw [hzero, idIsZero_noObject] at hnonzero
      cases hnonzero
    | cons n' nodes' =>
      have hid : n.id = n'.id := hfirst
      have hsame := h.2.1
      rw [hid, h'.2.1] at hsame
      simp only [Node.payload, Option.some.injEq, Indexed.checksum.injEq, Payload.mk.injEq] at hsame
      obtain ⟨-, hstart, hcount, hvalues, hnext⟩ := hsame
      have hn : n = n' := by
        cases n
        cases n'
        simp_all
      rw [hn, ih h.2.2 h'.2.2 hnext.symm]

theorem Reaches.sound (h : Reaches owner s cover) : ∃ nodes, Sound owner s cover nodes := by
  induction h with
  | empty howner h =>
    refine ⟨[], howner, h, trivial, ⟨List.Pairwise.nil, ?_, ?_⟩, ⟨?_, ?_, ?_⟩, .inl rfl⟩
    · exact List.forall_mem_nil _
    · exact List.forall_mem_nil _
    · exact fun b d hd => nomatch hd
    · exact List.forall_mem_nil _
    · exact List.forall_mem_nil _
  | @set s t cover logical digests hs h ih =>
    exact ((triple_setRangeLoop _ cover logical digests le_rfl s ⟨ih, List.Subset.refl _, List.Subset.refl _⟩).1 _ _ h).1
  | @get s t cover logical d hs h ih =>
    exact ((triple_checksumGet logical s ⟨ih, List.Subset.refl _, List.Subset.refl _⟩).1 _ _ h).2.1
  | @elsewhere s t cover hs h ih =>
    obtain ⟨nodes, hsound⟩ := ih
    refine ⟨nodes, hsound.nonzero, h.head.trans hsound.head, hsound.linked.congr fun n hn => ?_, hsound.ordered, hsound.represents, ?_⟩
    · obtain ⟨-, next, hnext⟩ := hsound.linked.mem hn
      exact h.index n.id _ hnext rfl
    · rcases h.cursor with hcursor | ⟨nodes', hhead, hlinked, hfits⟩
      · rw [hcursor]
        exact hsound.cursor
      · rw [hsound.linked.unique hlinked (hsound.head.symm.trans hhead)]
        exact .inr hfits

end Runs

section Refinement

variable {owner : ObjectId} {s : Store} {cover : Nat → Option Digest}

/-- The checksum store of a file is a map. Its chain ascends in steps of whole
groups; a get returns the digest last set, or a blank one below the last digest
of the group; a set changes the digests of its range only; and a call that no
other one fails ends in a loop only far up in the file. -/
theorem checksumStore_map (h : Reaches owner s cover) :
    (∃ nodes, s.head = firstId nodes noObject ∧ Linked owner s.index nodes noObject ∧ nodes.Pairwise (·.start < ·.start) ∧
      ∀ n ∈ nodes, n.start % checksumsPerObject = 0) ∧
    (∀ b d t, checksumGet owner b s = (.ok d, t) → Reads cover b d) ∧
    (∀ b e t, checksumGet owner b s = (.error e, t) → GetFails s cover b e) ∧
    (∀ logical digests t, checksumSetRange owner logical digests s = (.ok (), t) →
      ∀ b d u, checksumGet owner b t = (.ok d, u) → Reads (setCover cover logical digests) b d) ∧
    (∀ logical digests e t, checksumSetRange owner logical digests s = (.error e, t) →
      SetFails s logical (List.length digests) e) := by
  have hkeeps {t : Store} {cover : Nat → Option Digest} (ht : Reaches owner t cover) : Keeps t owner cover t :=
    ⟨ht.sound, List.Subset.refl _, List.Subset.refl _⟩
  obtain ⟨nodes, hsound⟩ := h.sound
  refine ⟨⟨nodes, hsound.head, hsound.linked, hsound.ordered.ascending, hsound.ordered.aligned⟩, ?_, ?_, ?_, ?_⟩
  · exact fun b d t hget => ((triple_checksumGet b s (hkeeps h)).1 d t hget).1
  · exact fun b e t hget => (triple_checksumGet b s (hkeeps h)).2 e t hget
  · exact fun logical digests t hset b d u hget => ((triple_checksumGet b t (hkeeps (h.set hset))).1 d u hget).1
  · exact fun logical digests e t hset => (triple_setRangeLoop _ cover logical digests le_rfl s (hkeeps h)).2 e t hset

def bareStore : Store := ⟨fun _ => none, noObject, none, [], [1, 3, 4].map fun id => .ok (Vector.replicate 16 id)⟩

def someFile : ObjectId := Vector.replicate 16 2

def filled (digest : UInt8) : List Digest := [Vector.replicate 32 digest]

/-- Two groups get a digest, and then one between them. -/
def threeGroups : Store :=
  (checksumSetRange someFile 130 (filled 9) (checksumSetRange someFile 300 (filled 8)
    (checksumSetRange someFile 5 (filled 7) bareStore).2).2).2

theorem threeGroups_reaches : Reaches someFile threeGroups
    (setCover (setCover (setCover (fun _ => none) 5 (filled 7)) 300 (filled 8)) 130 (filled 9)) := by
  have hempty : Reaches someFile bareStore fun _ => none := .empty (by decide) rfl
  have hfirst := hempty.set (Prod.ext (by decide +kernel) rfl : checksumSetRange someFile 5 (filled 7) _ = (.ok (), _))
  have hlast := hfirst.set (Prod.ext (by decide +kernel) rfl : checksumSetRange someFile 300 (filled 8) _ = (.ok (), _))
  exact hlast.set (Prod.ext (by decide +kernel) rfl)

/-- Block 5 is the only one of its group with a digest, but block 0 has a
blank one. -/
theorem gap_reads_blank : ∃ t cover, Reaches someFile threeGroups cover ∧ cover 0 = none ∧
    checksumGet someFile 0 threeGroups = (.ok blankDigest, t) :=
  ⟨_, _, threeGroups_reaches, rfl, Prod.ext (by decide +kernel) rfl⟩

theorem checksumStore_map_three : ∃ t cover, Reaches someFile threeGroups cover ∧
    checksumGet someFile 130 threeGroups = (.ok (Vector.replicate 32 9), t) ∧ Reads cover 130 (Vector.replicate 32 9) := by
  have hget : checksumGet someFile 130 threeGroups = (.ok (Vector.replicate 32 9), (checksumGet someFile 130 threeGroups).2) :=
    Prod.ext (by decide +kernel) rfl
  exact ⟨_, _, threeGroups_reaches, hget, (checksumStore_map threeGroups_reaches).2.1 130 _ _ hget⟩

end Refinement

end InfiltratorFS.Checksums
