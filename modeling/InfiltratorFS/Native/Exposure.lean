import InfiltratorFS.Native.Reservation

namespace InfiltratorFS.Native

open Segment Function

section Steps

/-- What decides whether a reserved block belongs to the newest durable
generation. -/
structure Holdings where
  bitmap : Nat → Bool
  durable : Nat → Bool
  reservations : Nat → Bool
  phase : Phase
  allocated : List Segment
  writers : Nat → Writer
  overwritten : List Nat

def Mount.holdings (m : Mount) : Holdings :=
  ⟨m.bitmap, m.durable, m.reservations, m.phase, m.pending.allocated, m.writers, m.overwritten⟩

/-- A thread asks for at least one block and stages one that it has reserved. -/
def Writer.WellFormed : Writer → Prop
  | .charging count _ _ => 0 < count
  | .searching count _ _ _ => 0 < count
  | .staging r next => next < r.run.count
  | _ => True

/-- Everything a step of a thread can do to the holdings. A search takes
blocks that nothing has, after the deferred frees of a commit only if `late`,
and only these frees clear blocks that the transaction did not allocate. -/
inductive HoldingStep (late : Prop) : Holdings → Holdings → Prop
  | same (s : Holdings) : HoldingStep late s s
  | move (s : Holdings) (w : Nat) (writer : Writer) (hheld : writer.held = (s.writers w).held)
      (hformed : (s.writers w).WellFormed → writer.WellFormed) :
      HoldingStep late s { s with writers := update s.writers w writer }
  | reserve (s : Holdings) (w : Nat) (r : Reservation) (hphase : late ∨ s.phase.isRetired = false)
      (hformed : (s.writers w).WellFormed → 0 < r.run.count)
      (hfree : ∀ b, r.run.contains b = true → s.bitmap b = false ∧ s.reservations b = false) :
      HoldingStep late s
        { s with
          reservations := setRange s.reservations r.run.start r.run.count true
          writers := update s.writers w (.staging r 0) }
  | stage (s : Holdings) (w : Nat) (r : Reservation) (next : Nat) (hw : s.writers w = .staging r next) :
      HoldingStep late s
        { s with
          overwritten := if s.durable (r.run.start + next) then s.overwritten ++ [r.run.start + next] else s.overwritten
          writers := update s.writers w (if next + 1 < r.run.count then .staging r (next + 1) else .prepared r) }
  | release (s : Holdings) (w : Nat) (r : Reservation) (hheld : (s.writers w).held = some r) :
      HoldingStep late s
        { s with
          reservations := setRange s.reservations r.run.start r.run.count false
          writers := update s.writers w .idle }
  | claim (s : Holdings) (run : Segment) (hphase : s.phase = .idle ∨ s.phase = .allocating)
      (hfree : ∀ b, run.contains b = true → s.bitmap b = false ∧ s.reservations b = false) :
      HoldingStep late s { s with bitmap := setRange s.bitmap run.start run.count true, allocated := s.allocated ++ [run] }
  | consume (s : Holdings) (w : Nat) (r : Reservation) (hphase : s.phase = .idle) (hheld : (s.writers w).held = some r) :
      HoldingStep late s
        { s with
          bitmap := setRange s.bitmap r.run.start r.run.count true
          reservations := setRange s.reservations r.run.start r.run.count false
          allocated := s.allocated ++ [r.run]
          writers := update s.writers w .idle }
  | rollback (s : Holdings) (n : Nat) (hphase : s.phase = .idle) :
      HoldingStep late s { s with bitmap := clearRanges s.bitmap (s.allocated.drop n), allocated := s.allocated.take n }
  | begin (s : Holdings) (hphase : s.phase = .idle) : HoldingStep late s { s with allocated := [] }
  | commit (s : Holdings) (hphase : s.phase = .idle) : HoldingStep late s { s with phase := .allocating }
  | retire (s : Holdings) (bitmap : Nat → Bool) (hless : ∀ b, bitmap b = true → s.bitmap b = true) (stage : Stage) :
      HoldingStep late s { s with bitmap := bitmap, phase := .retired stage }
  | publish (s : Holdings) (phase : Phase) (hphase : phase.isRetired = true ∨ phase = .published) :
      HoldingStep late s { s with durable := s.bitmap, phase := phase }
  | finish (s : Holdings) (hphase : s.phase = .published) : HoldingStep late s { s with phase := .idle, allocated := [] }

theorem retireBlocks_less (keeps : Nat → Bool) (blocks : List Nat) (bitmap : Nat → Bool) (free b : Nat)
    (h : (retireBlocks keeps blocks (bitmap, free)).1 b = true) : bitmap b = true := by
  induction blocks generalizing bitmap free with
  | nil => exact h
  | cons c blocks ih =>
    rw [retireBlocks] at h
    split at h
    · exact ih bitmap free h
    · have hb := ih _ _ h
      rw [update_apply] at hb
      split at hb
      · cases hb
      · exact hb

variable {late : Prop} (m : Mount)

theorem prepare_step (w bytes physicalBlocks preferred : Nat) (hidle : m.writers w = .idle) :
    HoldingStep late m.holdings (m.prepare w bytes physicalBlocks preferred).holdings := by
  fun_cases Mount.prepare m w bytes physicalBlocks preferred with
  | case3 _ hcount => exact .move m.holdings w _ (congrArg Writer.held hidle).symm fun _ => (by omega : 0 < physicalBlocks)
  | _ => exact .same _

theorem charge_step (w count preferred freeBlocks : Nat) (hw : m.writers w = .charging count preferred freeBlocks) :
    HoldingStep late m.holdings (m.charge w count preferred freeBlocks).holdings := by
  have hheld := (congrArg Writer.held hw).symm
  have hformed (h : (m.writers w).WellFormed) : 0 < count := by rwa [hw] at h
  fun_cases Mount.charge m w count preferred freeBlocks with
  | case1 => exact .move m.holdings w _ hheld fun _ => trivial
  | case2 | case3 => exact .move m.holdings w _ hheld hformed

theorem search_step (w count preferred firstShard pass : Nat)
    (hw : m.writers w = .searching count preferred firstShard pass) (hphase : late ∨ m.phase.isRetired = false) :
    HoldingStep late m.holdings (m.search w count preferred firstShard pass).holdings := by
  have hheld := (congrArg Writer.held hw).symm
  have hformed (h : (m.writers w).WellFormed) : 0 < count := by rwa [hw] at h
  fun_cases Mount.search m w count preferred firstShard pass with
  | case1 | case3 => exact .move m.holdings w _ hheld fun _ => trivial
  | case2 | case4 => exact .move m.holdings w _ hheld hformed
  | case5 _ shard arena _ _ start hfound =>
    refine .reserve m.holdings w ⟨⟨start, count⟩, _⟩ hphase hformed fun b hb => ?_
    rw [contains_iff] at hb
    have hbusy := (findRun_some hfound).1 b hb.1 hb.2
    rw [Mount.busy, Bool.or_eq_false_iff] at hbusy
    exact hbusy

theorem stage_step (w : Nat) (r : Reservation) (next : Nat) (ok : Bool) (hw : m.writers w = .staging r next) :
    HoldingStep late m.holdings (m.stage w r next ok).holdings := by
  simp only [Mount.stage]
  split
  · exact .release m.holdings w r (congrArg Writer.held hw)
  · exact .stage m.holdings w r next hw

/-- A claim that succeeds found every block clear and, as it was asked to,
reserved or not. -/
theorem claim_cases {m claimed : Mount} {run : Segment} {consumeReservation : Bool}
    (h : m.claim run consumeReservation = some claimed) :
    (∀ b, run.contains b = true → m.bitmap b = false ∧ m.reservations b = consumeReservation) ∧
      claimed.holdings =
        { m.holdings with
          bitmap := setRange m.bitmap run.start run.count true
          reservations := if consumeReservation then setRange m.reservations run.start run.count false else m.reservations
          allocated := m.pending.allocated ++ [run] } := by
  rw [Mount.claim] at h
  split at h
  · cases h
  · split at h
    · cases h
    · rename_i hnone
      obtain rfl := Option.some.inj h
      refine ⟨fun b hb => ?_, rfl⟩
      rw [contains_iff, Segment.stop] at hb
      rw [Bool.not_eq_true, List.any_eq_false] at hnone
      have hi := hnone (b - run.start) (List.mem_range.mpr (by omega))
      rw [show run.start + (b - run.start) = b by omega, Bool.not_eq_true, Bool.or_eq_false_iff, bne_eq_false_iff_eq] at hi
      exact hi

theorem proceed_step (stage : Stage) (hphase : m.phase = .retired stage) :
    HoldingStep late m.holdings (m.proceed stage).holdings := by
  cases stage with
  | pages => exact .retire m.holdings m.bitmap (fun _ h => h) .dependencies
  | dependencies => exact .retire m.holdings m.bitmap (fun _ h => h) .flush
  | flush => exact .retire m.holdings m.bitmap (fun _ h => h) .checkpoint
  | checkpoint => exact .publish m.holdings .published (.inr rfl)

theorem step_holdings (a : Action) (hsearch : ∀ w, a = .search w → late ∨ m.phase.isRetired = false) :
    HoldingStep late m.holdings (m.step a).holdings := by
  fun_cases Mount.step m a with
  | case1 w bytes physicalBlocks preferred hidle => exact prepare_step m w bytes physicalBlocks preferred hidle
  | case3 w count preferred freeBlocks hw => exact charge_step m w count preferred freeBlocks hw
  | case5 w count preferred firstShard pass hw => exact search_step m w count preferred firstShard pass hw (hsearch w rfl)
  | case7 w ok r next hw => exact stage_step m w r next ok hw
  | case9 w r hw => exact .release m.holdings w r (congrArg Writer.held hw)
  | case11 hphase =>
    rw [Mount.begin]
    split
    · exact .same _
    · exact .begin m.holdings hphase
  | case15 run hphase =>
    cases hclaim : m.claim run false with
    | none => exact .same _
    | some claimed =>
      obtain ⟨hfree, hholdings⟩ := claim_cases hclaim
      rw [Option.getD_some, hholdings]
      exact .claim m.holdings run hphase.1 hfree
  | case17 w r hw hphase claimed hclaim =>
    have hholdings := (claim_cases hclaim).2
    have hset : (claimed.setWriter w .idle).holdings =
        { claimed.holdings with writers := update claimed.holdings.writers w .idle } := rfl
    rw [hset, hholdings]
    exact .consume m.holdings w r hphase.1 (congrArg Writer.held hw)
  | case21 run hphase =>
    rw [Mount.deferFree]
    split
    · exact .same _
    · exact .same m.holdings
  | case23 undone hphase => exact .rollback m.holdings m.pending.operationAllocatedCount hphase.1
  | case25 hphase => exact .commit m.holdings hphase.1
  | case27 hphase =>
    exact .retire m.holdings _ (fun b h => retireBlocks_less m.keeps _ m.bitmap m.pending.freeBlocks b h) .pages
  | case29 stage hphase => exact proceed_step m stage hphase
  | case32 hphase => exact HoldingStep.publish m.holdings m.phase (.inl (by rw [hphase]; rfl))
  | case34 replicaError hphase => exact .finish m.holdings hphase
  -- an operation snapshot and a failed commit, and every step that is not enabled
  | case13 | case36 | case37 => exact .same m.holdings
  | _ => exact .same _

end Steps

section Safety

variable {writers : Nat → Writer}

/-- The run of a thread is reserved, clear in the bitmap and in no other run. -/
structure Holdings.Exclusive (s : Holdings) : Prop where
  held : ∀ w r, (s.writers w).held = some r → ∀ b, r.run.contains b = true → s.reservations b = true ∧ s.bitmap b = false
  apart : ∀ w v r q, w ≠ v → (s.writers w).held = some r → (s.writers v).held = some q →
    ∀ b, r.run.contains b = true → q.run.contains b = false

/-- No reserved block is allocated in the newest durable generation either,
whose blocks are set in the bitmap except between the deferred frees and the
checkpoint. -/
structure Holdings.Sound (s : Holdings) : Prop extends s.Exclusive where
  kept : s.phase.isRetired = false → ∀ b, s.durable b = true → s.bitmap b = true
  fresh : s.phase = .idle ∨ s.phase = .allocating → ∀ b, covers s.allocated b = true → s.durable b = false
  spared : ∀ w r, (s.writers w).held = some r → ∀ b, r.run.contains b = true → s.durable b = false
  formed : ∀ w, (s.writers w).WellFormed

theorem Phase.not_retired_of {phase : Phase} (h : phase = .idle ∨ phase = .allocating) : phase.isRetired = false := by
  rcases h with rfl | rfl
  · rfl
  · rfl

variable {w b : Nat}

theorem held_update {v : Nat} {new : Writer} {r : Reservation}
    (h : (update writers w new v).held = some r) : v = w ∧ new.held = some r ∨ v ≠ w ∧ (writers v).held = some r := by
  rw [update_apply] at h
  split at h
  · exact .inl ⟨‹_›, h⟩
  · exact .inr ⟨‹_›, h⟩

theorem held_of_update {v : Nat} {new : Writer} {r : Reservation} (hheld : new.held = (writers w).held)
    (h : (update writers w new v).held = some r) : (writers v).held = some r := by
  rcases held_update h with ⟨rfl, hnew⟩ | ⟨-, hold⟩
  · rw [← hheld, hnew]
  · exact hold

theorem formed_update (h : ∀ w, (writers w).WellFormed) {new : Writer}
    (hnew : new.WellFormed) (v : Nat) : (update writers w new v).WellFormed := by
  rw [update_apply]
  split
  · exact hnew
  · exact h v

theorem setRange_of_not_contains {bitmap : Nat → Bool} {r : Segment} {value : Bool} (h : r.contains b = false) :
    setRange bitmap r.start r.count value b = bitmap b := by
  rw [setRange_apply, if_neg (by rw [h]; decide)]

theorem setRange_of_set {bitmap : Nat → Bool} {r : Segment} (h : bitmap b = true) :
    setRange bitmap r.start r.count true b = true := by
  rw [setRange_apply, h]
  split <;> rfl

variable {late : Prop} {s t : Holdings}

theorem fresh_append {durable : Nat → Bool} {allocated : List Segment} {run : Segment}
    (hold : ∀ b, covers allocated b = true → durable b = false) (hrun : ∀ b, run.contains b = true → durable b = false)
    (b : Nat) (hb : covers (allocated ++ [run]) b = true) : durable b = false := by
  rw [covers_append, Bool.or_eq_true] at hb
  rcases hb with hb | hb
  · exact hold b hb
  · apply hrun b
    simpa using hb

section

variable (h : s.Exclusive)
include h

theorem Holdings.Exclusive.move (w : Nat) (writer : Writer) (overwritten : List Nat) (hheld : writer.held = (s.writers w).held) :
    Holdings.Exclusive { s with overwritten := overwritten, writers := update s.writers w writer } := by
  have hsame {v : Nat} {r : Reservation} (hr : (update s.writers w writer v).held = some r) :=
    held_of_update hheld hr
  exact ⟨fun v r hr => h.held v r (hsame hr), fun v u r q hne hr hq => h.apart v u r q hne (hsame hr) (hsame hq)⟩

theorem Holdings.Exclusive.reserve (w : Nat) (r : Reservation)
    (hfree : ∀ b, r.run.contains b = true → s.bitmap b = false ∧ s.reservations b = false) :
    Holdings.Exclusive { s with
      reservations := setRange s.reservations r.run.start r.run.count true
      writers := update s.writers w (.staging r 0) } where
  held := by
    intro v q hq b hb
    rcases held_update hq with ⟨-, hnew⟩ | ⟨-, hold⟩
    · obtain rfl := Option.some.inj hnew
      exact ⟨by simp only [setRange_apply, if_pos hb], (hfree b hb).1⟩
    · obtain ⟨hreserved, hclear⟩ := h.held v q hold b hb
      refine ⟨?_, hclear⟩
      simp only [setRange_apply, hreserved]
      split <;> rfl
  apart := by
    intro v u q p hne hq hp b hb
    -- A block of the new run was not reserved before, so no other thread has it.
    have hnot {x : Nat} {y : Reservation} (hy : (s.writers x).held = some y) (hyb : y.run.contains b = true) :
        r.run.contains b = false := by
      rw [← Bool.not_eq_true]
      intro hr
      have := (h.held x y hy b hyb).1
      rw [(hfree b hr).2] at this
      cases this
    rcases held_update hq with ⟨hv, hnew⟩ | ⟨-, hold⟩
    · obtain rfl := Option.some.inj hnew
      rcases held_update hp with ⟨hu, -⟩ | ⟨-, hold'⟩
      · exact absurd (hv.trans hu.symm) hne
      · rw [← Bool.not_eq_true]
        intro hpb
        have := hnot hold' hpb
        rw [hb] at this
        cases this
    · rcases held_update hp with ⟨-, hnew⟩ | ⟨-, hold'⟩
      · obtain rfl := Option.some.inj hnew
        exact hnot hold hb
      · exact h.apart v u q p hne hold hold' b hb

theorem Holdings.Exclusive.drop {r : Reservation} (hheld : (s.writers w).held = some r) (bitmap : Nat → Bool)
    (allocated : List Segment) (hsame : ∀ b, r.run.contains b = false → bitmap b = s.bitmap b) :
    Holdings.Exclusive { s with
      bitmap := bitmap
      reservations := setRange s.reservations r.run.start r.run.count false
      allocated := allocated
      writers := update s.writers w .idle } where
  held := by
    intro v q hq b hb
    rcases held_update hq with ⟨-, hnew⟩ | ⟨hne, hold⟩
    · cases hnew
    · have hout := h.apart v w q r hne hold hheld b hb
      obtain ⟨hreserved, hclear⟩ := h.held v q hold b hb
      exact ⟨by rw [← hreserved]; exact setRange_of_not_contains hout, (hsame b hout).trans hclear⟩
  apart := by
    intro v u q p hne hq hp
    rcases held_update hq with ⟨-, hnew⟩ | ⟨-, hold⟩
    · cases hnew
    · rcases held_update hp with ⟨-, hnew⟩ | ⟨-, hold'⟩
      · cases hnew
      · exact h.apart v u q p hne hold hold'

/-- The bitmap may change outside the reserved blocks and lose blocks. -/
theorem Holdings.Exclusive.bitmap (hwriters : t.writers = s.writers) (hreservations : t.reservations = s.reservations)
    (hless : ∀ b, s.reservations b = true → s.bitmap b = false → t.bitmap b = false) : t.Exclusive where
  held := by
    intro w r hr b hb
    rw [hwriters] at hr
    obtain ⟨hreserved, hclear⟩ := h.held w r hr b hb
    exact ⟨hreservations ▸ hreserved, hless b hreserved hclear⟩
  apart := hwriters ▸ h.apart

end

/-- Every step keeps the reservations exclusive. -/
theorem HoldingStep.exclusive (hstep : HoldingStep late s t) (h : s.Exclusive) : t.Exclusive := by
  cases hstep with
  | move w writer hheld => exact h.move w writer s.overwritten hheld
  | reserve w r _ _ hfree => exact h.reserve w r hfree
  | stage w r next hw =>
    apply h.move w
    rw [hw]
    split <;> rfl
  | release w r hheld => exact h.drop hheld s.bitmap s.allocated fun _ _ => rfl
  | claim run hphase hfree =>
    refine h.bitmap rfl rfl fun b hreserved hclear => ?_
    have hout : run.contains b = false := by
      rw [← Bool.not_eq_true]
      intro hrun
      have := (hfree b hrun).2
      rw [hreserved] at this
      cases this
    exact (setRange_of_not_contains hout).trans hclear
  | consume w r hphase hheld => exact h.drop hheld _ _ fun b hb => setRange_of_not_contains hb
  | rollback n =>
    refine h.bitmap rfl rfl fun b _ hclear => ?_
    simp only [clearRanges_apply, hclear]
    rfl
  | retire bitmap hless =>
    refine h.bitmap rfl rfl fun b _ hclear => ?_
    rw [← Bool.not_eq_true]
    intro hset
    rw [hless b hset] at hclear
    cases hclear
  | same | begin | commit | publish | finish => exact h.bitmap rfl rfl fun _ _ hclear => hclear

theorem Holdings.Sound.not_durable (h : s.Sound) (hphase : s.phase.isRetired = false) (hclear : s.bitmap b = false) :
    s.durable b = false := by
  rw [← Bool.not_eq_true]
  intro hdurable
  have := h.kept hphase b hdurable
  rw [hclear] at this
  cases this

theorem Holdings.Sound.rollback (h : s.Sound) (n : Nat) (hphase : s.phase = .idle) :
    Holdings.Sound { s with bitmap := clearRanges s.bitmap (s.allocated.drop n), allocated := s.allocated.take n } where
  toExclusive := (.rollback s n hphase : HoldingStep True s _).exclusive h.toExclusive
  kept := by
    intro hp b hb
    have hout : covers (s.allocated.drop n) b = false := by
      rw [← Bool.not_eq_true]
      intro hin
      have hall : covers s.allocated b = true := by
        rw [← List.take_append_drop n s.allocated, covers_append, hin, Bool.or_true]
      rw [h.fresh (.inl hphase) b hall] at hb
      cases hb
    simp only [clearRanges_apply, hout, h.kept hp b hb]
    rfl
  fresh := by
    intro _ b hb
    apply h.fresh (.inl hphase) b
    rw [← List.take_append_drop n s.allocated, covers_append, hb, Bool.true_or]
  spared := h.spared
  formed := h.formed

/-- Every step but a search after the deferred frees keeps the reserved blocks
out of the newest durable generation. -/
theorem HoldingStep.sound (hstep : HoldingStep False s t) (h : s.Sound) : t.Sound := by
  have hexclusive := hstep.exclusive h.toExclusive
  have hidle {v w : Nat} {r : Reservation} (hr : (update s.writers w .idle v).held = some r) :
      (s.writers v).held = some r := by
    rcases held_update hr with ⟨-, hnew⟩ | ⟨-, hold⟩
    · cases hnew
    · exact hold
  cases hstep with
  | same => exact h
  | move w writer hheld hformed =>
    exact
      { hexclusive, h with
        spared := fun v r hr => h.spared v r (held_of_update hheld hr)
        formed := formed_update h.formed (hformed (h.formed w)) }
  | reserve w r hphase hformed hfree =>
    refine { hexclusive, h with spared := fun v q hq b hb => ?_, formed := formed_update h.formed (hformed (h.formed w)) }
    rcases held_update hq with ⟨-, hnew⟩ | ⟨-, hold⟩
    · obtain rfl := Option.some.inj hnew
      exact h.not_durable (hphase.resolve_left id) (hfree b hb).1
    · exact h.spared v q hold b hb
  | stage w r next hw =>
    refine { hexclusive, h with spared := fun v q hq => h.spared v q (held_of_update ?_ hq), formed := formed_update h.formed ?_ }
    · rw [hw]
      split <;> rfl
    · split
      · exact ‹_›
      · trivial
  | release w r hheld =>
    exact { hexclusive, h with spared := fun v q hq => h.spared v q (hidle hq), formed := formed_update h.formed trivial }
  | claim run hphase hfree =>
    refine { hexclusive, h with kept := fun hp b hb => setRange_of_set (h.kept hp b hb), fresh := fun _ => ?_ }
    apply fresh_append (h.fresh hphase)
    exact fun b hb => h.not_durable (Phase.not_retired_of hphase) (hfree b hb).1
  | consume w r hphase hheld =>
    exact
      { hexclusive with
        kept := fun hp b hb => setRange_of_set (h.kept hp b hb)
        fresh := fun hp => fresh_append (h.fresh hp) (h.spared w r hheld)
        spared := fun v q hq => h.spared v q (hidle hq)
        formed := formed_update h.formed trivial }
  | rollback n hphase => exact h.rollback n hphase
  | begin hphase => exact { h with fresh := fun _ b hb => nomatch hb }
  | commit hphase =>
    exact { h with kept := fun _ => h.kept (by rw [hphase]; rfl), fresh := fun _ => h.fresh (.inl hphase) }
  | retire bitmap hless stage =>
    refine { hexclusive, h with kept := fun hp => (nomatch hp), fresh := fun hp => ?_ }
    rcases hp with hp | hp <;> cases hp
  | publish phase hphase =>
    refine
      { hexclusive, h with
        kept := fun _ b hb => hb, fresh := fun hp => ?_, spared := fun w r hr b hb => (h.held w r hr b hb).2 }
    rcases hphase with hr | rfl
    · rw [Phase.not_retired_of hp] at hr
      cases hr
    · rcases hp with hp | hp <;> cases hp
  | finish hphase =>
    exact { h with kept := fun _ => h.kept (by rw [hphase]; rfl), fresh := fun _ b hb => nomatch hb }

theorem HoldingStep.overwritten (hstep : HoldingStep late s t) (h : s.Sound) : t.overwritten = s.overwritten := by
  cases hstep with
  | stage w r next hw =>
    have hnext := h.formed w
    rw [hw] at hnext
    have hblock : r.run.contains (r.run.start + next) = true := by
      rw [contains_iff, Segment.stop]
      exact ⟨Nat.le_add_right _ _, Nat.add_lt_add_left hnext _⟩
    have hdurable := h.spared w r (congrArg Writer.held hw) _ hblock
    simp only [hdurable]
    rfl
  | _ => rfl

theorem run_sound (schedule : List Action) {m : Mount} (h : m.holdings.Sound) (hout : searchesOutside m schedule = true) :
    (m.run schedule).holdings.Sound ∧ (m.run schedule).overwritten = m.overwritten := by
  induction schedule generalizing m with
  | nil => exact ⟨h, rfl⟩
  | cons a schedule ih =>
    rw [searchesOutside, Bool.and_eq_true] at hout
    have hsearch (w : Nat) (ha : a = .search w) : False ∨ m.phase.isRetired = false := by
      rw [ha] at hout
      simpa [Action.isSearch] using hout.1
    have hstep := step_holdings m a hsearch
    obtain ⟨hsound, hsame⟩ := ih (hstep.sound h) hout.2
    exact ⟨hsound, hsame.trans (hstep.overwritten h)⟩

theorem run_exclusive (schedule : List Action) {m : Mount} (h : m.holdings.Exclusive) : (m.run schedule).holdings.Exclusive := by
  induction schedule generalizing m with
  | nil => exact h
  | cons a schedule ih => exact ih ((step_holdings m a fun _ _ => .inl trivial).exclusive h)

/-- A mount before its first transaction: the bitmap in memory is the one of
the newest generation, and no thread has begun. -/
structure Mount.Mounted (m : Mount) : Prop where
  bitmap : m.durable = m.bitmap
  phase : m.phase = .idle
  allocated : m.pending.allocated = []
  writers : ∀ w, m.writers w = .idle

theorem Mount.Mounted.sound {m : Mount} (h : m.Mounted) : m.holdings.Sound := by
  have hidle (w : Nat) : m.holdings.writers w = .idle := h.writers w
  have hheld {w : Nat} {r : Reservation} (hr : (m.holdings.writers w).held = some r) : False := by
    rw [hidle w] at hr
    cases hr
  exact
    { held := fun w r hr => (hheld hr).elim
      apart := fun w v r q _ hr => (hheld hr).elim
      spared := fun w r hr => (hheld hr).elim
      kept := fun _ b hb => (congrFun h.bitmap.symm b).trans hb
      fresh := fun _ b hb => by
        rw [show m.holdings.allocated = [] from h.allocated] at hb
        cases hb
      formed := fun w => by
        rw [hidle w]
        trivial }

/-- In every interleaving in which no arena is searched between the deferred
frees of a commit and its checkpoint, each block that a thread has reserved is
free in the newest durable generation, and no block of it is staged over. -/
theorem reservations_spare_durable {m : Mount} (hm : m.Mounted) (schedule : List Action)
    (hout : searchesOutside m schedule = true) :
    (∀ w r, ((m.run schedule).writers w).held = some r → ∀ b, r.run.contains b = true → (m.run schedule).durable b = false) ∧
      (m.run schedule).overwritten = m.overwritten := by
  obtain ⟨hsound, hsame⟩ := run_sound schedule hm.sound hout
  exact ⟨hsound.spared, hsame⟩

def halfMount : Mount where
  total := 4096
  deviceBlocks := 4096
  bitmap b := decide (b < 2048)
  reservations _ := false
  hints shard := (shardBounds 4096 shard).1
  steer := 0
  reservedBlocks := 0
  resizeActive := false
  rotational := false
  leafCount := 1
  branchCount := 3
  snapshotBitmap := none
  checkpoints := [0, 1023, 2046]
  diskFreeBlocks := 2048
  writePoisoned := false
  pending := ⟨false, false, [], [], 0, 0, 0, 0, none⟩
  phase := .idle
  writers _ := .idle
  durable b := decide (b < 2048)
  overwritten := []

theorem halfMount_mounted : halfMount.Mounted := ⟨rfl, rfl, rfl, fun _ => rfl⟩

/-- A transaction that frees two data blocks, and its commit up to the
deferred frees: a new allocation tree for the old one in blocks 100 to 103. -/
def retiring : List Action :=
  [.begin, .snapshot, .deferFree ⟨70, 2⟩, .commit, .claim ⟨4095, 1⟩, .claim ⟨4094, 1⟩, .claim ⟨4093, 1⟩,
    .claim ⟨4092, 1⟩, .deferFree ⟨100, 4⟩, .applyDeferred]

/-- An append of two blocks whose run is found before the commit and filled
while the commit is under way. -/
def earlySearch : List Action :=
  [.prepare 0 8192 2 3000, .charge 0, .search 0] ++ retiring ++
    [.stage 0 true, .proceed, .proceed, .stage 0 true, .proceed, .proceed, .finish false]

theorem reservations_spare_early_search :
    halfMount.Mounted ∧ searchesOutside halfMount earlySearch = true ∧
      ((halfMount.run earlySearch).writers 0).held = some ⟨⟨2944, 2⟩, 46⟩ ∧
      (halfMount.run earlySearch).durable 2944 = false ∧ (halfMount.run earlySearch).durable 4095 = true ∧
      (halfMount.run earlySearch).overwritten = [] := by
  have hout : searchesOutside halfMount earlySearch = true := by decide +kernel
  have hheld : ((halfMount.run earlySearch).writers 0).held = some ⟨⟨2944, 2⟩, 46⟩ := by decide +kernel
  have hspare := reservations_spare_durable halfMount_mounted earlySearch hout
  exact ⟨halfMount_mounted, hout, hheld, hspare.1 0 _ hheld 2944 (by decide), by decide +kernel, hspare.2⟩

/-- Reservations are exclusive: in every interleaving, each block of the run of
a thread is marked as reserved, clear in the bitmap and in no other run. -/
theorem reservations_exclusive {m : Mount} (hm : m.Mounted) (schedule : List Action) (w : Nat) (r : Reservation)
    (hr : ((m.run schedule).writers w).held = some r) (b : Nat) (hb : r.run.contains b = true) :
    (m.run schedule).reservations b = true ∧ (m.run schedule).bitmap b = false ∧
      ∀ v q, ((m.run schedule).writers v).held = some q → q.run.contains b = true → v = w := by
  have hexclusive := run_exclusive schedule hm.sound.toExclusive
  obtain ⟨hreserved, hclear⟩ := hexclusive.held w r hr b hb
  refine ⟨hreserved, hclear, fun v q hq hqb => ?_⟩
  by_contra hne
  simp [hexclusive.apart v w q r hne hq hr b hqb] at hb

/-- Two appends search one arena, the second one between the deferred frees of
a commit and its checkpoint, while the first one stages its data. -/
def crossing : List Action :=
  [.prepare 0 8192 2 3000, .prepare 1 8192 2 3000, .charge 0, .charge 1, .search 0] ++ retiring ++
    [.stage 0 true, .search 1, .stage 1 true, .stage 0 true, .proceed]

theorem reservations_exclusive_crossing :
    let m := halfMount.run crossing
    (m.writers 0).held = some ⟨⟨2944, 2⟩, 46⟩ ∧ (m.writers 1).held = some ⟨⟨2946, 2⟩, 46⟩ ∧
      (m.reservations 2945 = true ∧ m.bitmap 2945 = false ∧
        ∀ v q, (m.writers v).held = some q → q.run.contains 2945 = true → v = 0) ∧
      (m.reservations 2946 = true ∧ m.bitmap 2946 = false ∧
        ∀ v q, (m.writers v).held = some q → q.run.contains 2946 = true → v = 1) := by
  have h0 : ((halfMount.run crossing).writers 0).held = some ⟨⟨2944, 2⟩, 46⟩ := by decide +kernel
  have h1 : ((halfMount.run crossing).writers 1).held = some ⟨⟨2946, 2⟩, 46⟩ := by decide +kernel
  exact ⟨h0, h1, reservations_exclusive halfMount_mounted crossing 0 _ h0 2945 (by decide),
    reservations_exclusive halfMount_mounted crossing 1 _ h1 2946 (by decide)⟩

/-- The same append searches after the deferred frees. It finds the blocks
that the newest durable generation still has, stages its data into them, and
the commit then fails. -/
theorem late_search_overwrites_durable :
    halfMount.Mounted ∧
      (let m := halfMount.run (retiring ++ [.prepare 0 8192 2 70, .charge 0, .search 0, .stage 0 true, .stage 0 true, .fail])
      (m.writers 0).held = some ⟨⟨70, 2⟩, 1⟩ ∧ m.durable 70 = true ∧ m.durable 71 = true ∧ m.overwritten = [70, 71] ∧
        m.pending.commitFailed = true) :=
  ⟨halfMount_mounted, by decide +kernel⟩

end Safety

end InfiltratorFS.Native
