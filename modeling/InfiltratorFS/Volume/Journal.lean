import InfiltratorFS.Volume.Allocator
import InfiltratorFS.Library.UndoLog

namespace InfiltratorFS

open Segment Scan Prog

variable {β : Type} {total first b : Nat} (v : Volume β)

/-- The part of a volume that allocation and release change. -/
structure Journal where
  bitmap : Nat → Bool
  allocated : List Range
  deferred : List Range
  free : UInt64

def Volume.journal : Journal := ⟨v.bitmap, v.tx.allocated, v.tx.deferred, v.sb.freeBlocks⟩

def Volume.firstPrivate : Nat := if v.operation.active then v.operation.allocatedCount else 0

/-- Everything the allocator can do to the journal in one step. Only clear
blocks are allocated, only private blocks are cleared, and only set blocks
are deferred. -/
inductive JournalStep (total first : Nat) : Journal → Journal → Prop
  | allocate (j : Journal) (r : Range) (hin : r.stop ≤ total)
      (hclear : ∀ b, r.contains b = true → j.bitmap b = false) :
      JournalStep total first j
        { j with
          bitmap := setRange j.bitmap r.start r.count true
          allocated := j.allocated ++ [r]
          free := j.free - UInt64.ofNat r.count }
  | release (j : Journal) (b : Nat) (hin : b < total) (hset : j.bitmap b = true)
      (hprivate : covers (j.allocated.drop first) b = true) :
      JournalStep total first j { j with bitmap := setRange j.bitmap b 1 false, free := j.free + 1 }
  | defer (j : Journal) (r : Range) (hset : ∀ b, r.contains b = true → j.bitmap b = true) :
      JournalStep total first j { j with deferred := j.deferred ++ [r] }
  | merge (j : Journal) (front : List Range) (last : Range) (n : Nat) (hlast : j.deferred = front ++ [last])
      (hset : ∀ b, last.stop ≤ b → b < last.stop + n → j.bitmap b = true) :
      JournalStep total first j { j with deferred := front ++ [⟨last.start, last.count + n⟩] }

abbrev JournalSteps (total first : Nat) := Relation.ReflTransGen (JournalStep total first)

def Settled (first : Nat) (j : Journal) (b : Nat) : Prop :=
  j.bitmap b = true ∧ covers (j.allocated.drop first) b = false

theorem JournalStep.settled {j j' : Journal} (h : JournalStep total first j j')
    (hb : Settled first j b) : Settled first j' b := by
  obtain ⟨hset, hprivate⟩ := hb
  cases h with
  | allocate r hin hclear =>
    have hout : r.contains b = false := by
      rw [← Bool.not_eq_true]
      intro hr
      rw [hclear b hr] at hset
      cases hset
    refine ⟨?_, ?_⟩
    · simp only [setRange_apply]
      split
      · rfl
      · exact hset
    · rw [← Bool.not_eq_true, covers_iff]
      rintro ⟨x, hx, hxb⟩
      have hmem : x ∈ j.allocated.drop first ∨ x = r := by
        rw [List.drop_append] at hx
        rcases List.mem_append.mp hx with hx | hx
        · exact .inl hx
        · exact .inr (List.mem_singleton.mp (List.mem_of_mem_drop hx))
      rcases hmem with hx | rfl
      · have := (covers_iff _ b).mpr ⟨x, hx, hxb⟩
        rw [hprivate] at this
        cases this
      · rw [(contains_iff x b).mpr hxb] at hout
        cases hout
  | release c hin hset' hc =>
    refine ⟨?_, hprivate⟩
    simp only [setRange_apply]
    split
    · rename_i hbc
      rw [contains_iff] at hbc
      simp only [Segment.stop] at hbc
      obtain rfl : b = c := by omega
      rw [hc] at hprivate
      cases hprivate
    · exact hset
  | defer => exact ⟨hset, hprivate⟩
  | merge => exact ⟨hset, hprivate⟩

theorem JournalSteps.settled {j j' : Journal} (h : JournalSteps total first j j')
    (hb : Settled first j b) : Settled first j' b := by
  induction h with
  | refl => exact hb
  | tail _ hstep ih => exact hstep.settled ih

/-- What no allocator call touches. -/
structure SameContext (v v' : Volume β) : Prop where
  superblock : ∃ free, v'.sb = { v.sb with freeBlocks := free }
  active : v'.tx.active = v.tx.active
  baseSb : v'.tx.baseSb = v.tx.baseSb
  operation : v'.operation = v.operation
  writable : v'.writable = v.writable
  reopen : v'.reopenRequiredStatus = v.reopenRequiredStatus
  layout : v'.layout = v.layout

theorem SameContext.update {medium bitmap index free allocated deferred status data metadata} :
    SameContext v { v with
      medium := medium, bitmap := bitmap, freeIndex := index, sb.freeBlocks := free, tx.allocated := allocated,
      tx.deferred := deferred, tx.error := status, dataAllocationCursor := data, metadataAllocationCursor := metadata } :=
  ⟨⟨_, rfl⟩, rfl, rfl, rfl, rfl, rfl, rfl⟩

theorem SameContext.refl : SameContext v v := .update v

variable {u v w v' : Volume β}

theorem SameContext.trans (h : SameContext u v) (h' : SameContext v w) : SameContext u w where
  superblock := by
    obtain ⟨free, hfree⟩ := h.superblock
    obtain ⟨free', hfree'⟩ := h'.superblock
    exact ⟨free', by rw [hfree', hfree]⟩
  active := h'.active.trans h.active
  baseSb := h'.baseSb.trans h.baseSb
  operation := h'.operation.trans h.operation
  writable := h'.writable.trans h.writable
  reopen := h'.reopen.trans h.reopen
  layout := h'.layout.trans h.layout

theorem SameContext.firstPrivate (h : SameContext v v') : v'.firstPrivate = v.firstPrivate := by
  rw [Volume.firstPrivate, Volume.firstPrivate, h.operation]

theorem SameContext.total_eq (h : SameContext v v') : v'.total = v.total := by
  obtain ⟨free, hfree⟩ := h.superblock
  rw [Volume.total, hfree]
  rfl

/-- One or more allocator actions: the journal moves by journal steps, and no
block is written that was settled before. -/
structure Acts (v v' : Volume β) : Prop where
  context : SameContext v v'
  steps : JournalSteps v.total v.firstPrivate v.journal v'.journal
  writes : ∃ events, v'.medium.trace = v.medium.trace ++ events ∧
    ∀ b, Event.write b ∈ events → ¬Settled v.firstPrivate v.journal b

theorem Acts.refl (v : Volume β) : Acts v v := ⟨.refl v, .refl, [], by simp, by simp⟩

theorem Acts.trans (h : Acts u v) (h' : Acts v w) : Acts u w := by
  obtain ⟨hc, hs, es, hes, hw⟩ := h
  obtain ⟨hc', hs', es', hes', hw'⟩ := h'
  rw [hc.firstPrivate, hc.total_eq] at hs'
  refine ⟨hc.trans hc', hs.trans hs', es ++ es', by rw [hes', hes, List.append_assoc], ?_⟩
  intro b hb hsettled
  rcases List.mem_append.mp hb with hb | hb
  · exact hw b hb hsettled
  · refine hw' b hb ?_
    rw [hc.firstPrivate]
    exact hs.settled hsettled

end InfiltratorFS
