import InfiltratorFS.Native.Exposure
import Mathlib.Algebra.Ring.Nat

namespace InfiltratorFS.Native

open Segment Scan Function

section Partition

variable {total shard b : Nat}

def inArena (total shard b : Nat) : Prop := (shardBounds total shard).1 ≤ b ∧ b < (shardBounds total shard).2

/-- The locks that `infilfs_parallel_tx_claim` holds: from the shard of its
first block to that of its last. -/
def claimLocks (total : Nat) (run : Segment) (shard : Nat) : Prop :=
  shardFor total run.start ≤ shard ∧ shard ≤ shardFor total (run.start + run.count - 1)

theorem shardFor_eq (hhi : b < total) : shardFor total b = (b - 1) * reservationShards / (total - 1) := by
  rw [shardFor]
  split_ifs with hsmall
  · rw [show b - 1 = 0 by omega, Nat.zero_mul, Nat.zero_div]
  · have hlt : (b - 1) * reservationShards / (total - 1) < reservationShards := by
      rw [Nat.div_lt_iff_lt_mul (by omega), Nat.mul_comm]
      exact Nat.mul_lt_mul_of_pos_left (by omega) (by decide)
    rw [min_eq_left (by omega : b - 1 ≤ total - 1 - 1), min_eq_left (Nat.le_sub_one_of_lt hlt)]

theorem inArena_iff :
    inArena total shard b ↔ (total - 1) * shard < b * reservationShards ∧ b * reservationShards ≤ (total - 1) * (shard + 1) := by
  have hstart : 1 + (total - 1) * shard / reservationShards ≤ b ↔ (total - 1) * shard < b * reservationShards := by
    rw [← Nat.div_lt_iff_lt_mul (by decide : 0 < reservationShards)]
    omega
  have hstop : b < 1 + (total - 1) * (shard + 1) / reservationShards ↔ b * reservationShards ≤ (total - 1) * (shard + 1) := by
    rw [← Nat.le_div_iff_mul_le (by decide : 0 < reservationShards)]
    omega
  rw [inArena, shardBounds, hstart, hstop]

/-- The arena of a block, as `infilfs_parallel_shard_bounds` has it. -/
theorem inArena_iff_eq (hlo : 1 ≤ b) (hhi : b < total) :
    inArena total shard b ↔ shard = (b * reservationShards - 1) / (total - 1) := by
  have hpos : 1 ≤ b * reservationShards := Nat.mul_pos hlo (by decide)
  have htotal : 0 < total - 1 := by omega
  rw [inArena_iff, eq_comm, Nat.div_eq_iff htotal, Nat.mul_comm shard, Nat.mul_add_one]
  omega

theorem arena_lt (hlo : 1 ≤ b) (hhi : b < total) : (b * reservationShards - 1) / (total - 1) < reservationShards := by
  have hle : b * reservationShards ≤ reservationShards * (total - 1) := by
    rw [Nat.mul_comm]
    exact Nat.mul_le_mul_left _ (by omega)
  have hpos : 1 ≤ b * reservationShards := Nat.mul_pos hlo (by decide)
  rw [Nat.div_lt_iff_lt_mul (by omega)]
  omega

theorem inArena_bounds (hshard : shard < reservationShards) (h : inArena total shard b) : 1 ≤ b ∧ b < total := by
  obtain ⟨hstart, hstop⟩ := inArena_iff.mp h
  have hle := hstop.trans (Nat.mul_le_mul_left (total - 1) hshard)
  have hb : b ≤ total - 1 := Nat.le_of_mul_le_mul_right hle (by decide)
  rcases Nat.eq_zero_or_pos b with rfl | hpos
  · omega
  · omega

theorem shardFor_inArena (hdvd : reservationShards ∣ total - 1) (hlo : 1 ≤ b) (hhi : b < total) :
    inArena total (shardFor total b) b := by
  obtain ⟨k, hk⟩ := hdvd
  have hlast : (b * reservationShards - 1) / reservationShards = b - 1 := by
    rw [reservationShards]
    omega
  rw [inArena_iff_eq hlo hhi, shardFor_eq hhi, hk, ← Nat.div_div_eq_div_mul, ← Nat.div_div_eq_div_mul, hlast,
    Nat.mul_div_cancel _ (by decide)]

/-- The block after the last whole share of the first arena. -/
theorem not_inArena (hmin : 4096 ≤ total) (hdvd : ¬reservationShards ∣ total - 1) :
    (total - 1) / reservationShards + 1 < total ∧
      ¬inArena total (shardFor total ((total - 1) / reservationShards + 1)) ((total - 1) / reservationShards + 1) := by
  rw [reservationShards] at *
  have hhi : (total - 1) / 64 + 1 < total := by omega
  have hzero : shardFor total ((total - 1) / 64 + 1) = 0 := by
    rw [shardFor_eq hhi, Nat.div_eq_zero_iff, reservationShards]
    omega
  refine ⟨hhi, ?_⟩
  rw [hzero, inArena_iff, reservationShards]
  omega

/-- The 64 arenas partition the blocks from 1 on, and no product wraps. A block
lies in the arena whose lock is taken for it, for every block and for every
claim, exactly if the blocks divide evenly. -/
theorem arenas_agree_iff {total : Nat} (hmin : 4096 ≤ total) (hmax : total ≤ 2 ^ 57) :
    (∀ b, 1 ≤ b ∧ b < total ↔ ∃! shard, shard < reservationShards ∧ inArena total shard b) ∧
    (∀ b < total, b * reservationShards < 2 ^ 64) ∧
    (∀ shard < reservationShards, (total - 1) * (shard + 1) < 2 ^ 64) ∧
    ((∀ b, 1 ≤ b → b < total → inArena total (shardFor total b) b) ↔ reservationShards ∣ total - 1) ∧
    ((∀ run shard b, 1 ≤ run.start → run.stop ≤ total → run.contains b = true → inArena total shard b →
      claimLocks total run shard) ↔ reservationShards ∣ total - 1) := by
  have hwrap {n : Nat} (hn : n ≤ total * reservationShards) : n < 2 ^ 64 := by
    have := Nat.mul_le_mul_right reservationShards hmax
    rw [reservationShards] at *
    omega
  have hdvd (h : ∀ b, 1 ≤ b → b < total → inArena total (shardFor total b) b) : reservationShards ∣ total - 1 := by
    by_contra hdvd
    obtain ⟨hhi, hnot⟩ := not_inArena hmin hdvd
    exact hnot (h _ (Nat.le_add_left 1 _) hhi)
  refine ⟨fun b => ⟨fun hb => ?_, fun h => ?_⟩, fun b hb => hwrap (Nat.mul_le_mul_right _ hb.le),
    fun shard hshard => hwrap (Nat.mul_le_mul (by omega) hshard), ⟨hdvd, fun h b => shardFor_inArena h⟩,
    fun h => hdvd fun b hlo hhi => ?_, fun h run shard b hstart hstop hb harena => ?_⟩
  · refine ⟨_, ⟨arena_lt hb.1 hb.2, (inArena_iff_eq hb.1 hb.2).mpr rfl⟩, fun shard h => ?_⟩
    exact (inArena_iff_eq hb.1 hb.2).mp h.2
  · obtain ⟨shard, ⟨hshard, hb⟩, -⟩ := h
    exact inArena_bounds hshard hb
  · -- a claim of this one block takes one lock
    have hb := (inArena_iff_eq hlo hhi).mpr rfl
    obtain ⟨hle, hge⟩ := h ⟨b, 1⟩ _ b hlo hhi ((contains_iff _ b).mpr ⟨le_rfl, Nat.lt_succ_self b⟩) hb
    rwa [Nat.le_antisymm hle hge]
  · rw [contains_iff] at hb
    have hbounds : b < total := hb.2.trans_le hstop
    obtain rfl : shard = shardFor total b := by
      rw [(inArena_iff_eq (hstart.trans hb.1) hbounds).mp harena]
      exact ((inArena_iff_eq (hstart.trans hb.1) hbounds).mp (shardFor_inArena h (hstart.trans hb.1) hbounds)).symm
    have hmono {x y : Nat} (hxy : x ≤ y) (hy : y < total) : shardFor total x ≤ shardFor total y := by
      rw [shardFor_eq (hxy.trans_lt hy), shardFor_eq hy]
      exact Nat.div_le_div_right (Nat.mul_le_mul_right _ (Nat.sub_le_sub_right hxy 1))
    rw [Segment.stop] at hstop hb
    exact ⟨hmono hb.1 hbounds, hmono (by omega) (by omega)⟩

theorem arenas_agree_even : reservationShards ∣ 4097 - 1 ∧ inArena 4097 (shardFor 4097 64) 64 := by
  have hdvd : reservationShards ∣ 4097 - 1 := by decide
  exact ⟨hdvd, (arenas_agree_iff (by decide) (by decide)).2.2.2.1.mpr hdvd 64 (by decide) (by decide)⟩

/-- On the smallest volume block 64 is in the second arena, and a claim of it
takes the lock of the first. -/
theorem claim_locks_other_arena :
    inArena 4096 1 64 ∧ shardFor 4096 64 = 0 ∧ ¬inArena 4096 0 64 ∧ ¬claimLocks 4096 ⟨64, 1⟩ 1 := by
  unfold inArena claimLocks
  decide

end Partition

section Completeness

variable {m : Mount} {w count preferred start shard first pass : Nat}

/-- Where the two sweeps of an arena meet. -/
def Mount.splitAt (m : Mount) (count preferred shard : Nat) : Nat :=
  arenaHint m.rotational (shardBounds m.total shard) (m.hints shard) count preferred

def Mount.arenaFinds (m : Mount) (count preferred shard : Nat) : Option Nat :=
  let arena := shardBounds m.total shard
  if arena.2 ≤ arena.1 ∨ arena.2 - arena.1 < count then none
  else findRun m.busy arena (m.splitAt count preferred shard) count

/-- A thread that has read the free blocks goes on alone to the end of
`infilfs_parallel_reserve_data`. -/
def Mount.reserveAlone (m : Mount) (w : Nat) : Mount :=
  m.run (.charge w :: List.replicate (reservationShards + 1) (.search w))

/-- A free run that both sweeps of its arena look at in part only. -/
def Mount.Crosses (m : Mount) (count preferred shard start : Nat) : Prop :=
  start < m.splitAt count preferred shard ∧ m.splitAt count preferred shard < start + count

def Mount.Holds (m : Mount) (count shard start : Nat) : Prop :=
  (shardBounds m.total shard).1 ≤ start ∧ start + count ≤ (shardBounds m.total shard).2 ∧ Free m.busy start count

theorem splitAt_bounds (m : Mount) (count preferred shard : Nat)
    (h : (shardBounds m.total shard).1 < (shardBounds m.total shard).2) :
    (shardBounds m.total shard).1 ≤ m.splitAt count preferred shard ∧
      m.splitAt count preferred shard ≤ (shardBounds m.total shard).2 := by
  simp only [Mount.splitAt, arenaHint]
  generalize (if m.rotational = true ∧ (shardBounds m.total shard).1 ≤ preferred ∧ preferred < (shardBounds m.total shard).2 then
    min preferred ((shardBounds m.total shard).2 - count) else m.hints shard) = hint
  split <;> omega

theorem arenaFinds_some (h : m.arenaFinds count preferred shard = some start) :
    m.Holds count shard start ∧ ¬m.Crosses count preferred shard start := by
  simp only [Mount.arenaFinds] at h
  split at h
  · cases h
  · have hsplit := splitAt_bounds m count preferred shard (by omega)
    obtain ⟨hfree, hsides⟩ := findRun_some h
    exact ⟨⟨by omega, by omega, hfree⟩, fun hcross => by rw [Mount.Crosses] at hcross; omega⟩

theorem arenaFinds_none (hcount : 0 < count) (h : m.arenaFinds count preferred shard = none)
    (hholds : m.Holds count shard start) : m.Crosses count preferred shard start := by
  obtain ⟨hstart, hstop, hfree⟩ := hholds
  simp only [Mount.arenaFinds, findRun] at h
  split at h
  · omega
  · have hfirst : Scans m.busy count _ _ _ := sweep_scans (m.splitAt count preferred shard) (shardBounds m.total shard).2
    have hsecond : Scans m.busy count _ _ _ := sweep_scans (shardBounds m.total shard).1 (m.splitAt count preferred shard)
    split at h
    · cases h
    · rename_i hnone
      rw [hnone] at hfirst
      rw [h] at hsecond
      by_contra hcross
      rw [Mount.Crosses] at hcross
      by_cases hbelow : start < m.splitAt count preferred shard
      · exact hsecond start hstart (by omega) hfree
      · exact hfirst start (by omega) hstop hfree

theorem search_eq (hresize : m.resizeActive = false) (hpass : pass < reservationShards) :
    m.search w count preferred first pass =
      match m.arenaFinds count preferred ((first + pass) % reservationShards) with
      | none => m.setWriter w (.searching count preferred first (pass + 1))
      | some start => m.reserve w ⟨⟨start, count⟩, (first + pass) % reservationShards⟩
          (shardBounds m.total ((first + pass) % reservationShards)) := by
  simp only [Mount.search, Mount.arenaFinds, if_neg (Nat.not_le_of_lt hpass)]
  split
  · rfl
  · rw [if_neg (by rw [hresize]; simp)]
    rfl

theorem step_search (hw : m.writers w = .searching count preferred first pass) :
    m.step (.search w) = m.search w count preferred first pass := by
  simp only [Mount.step, hw]

theorem run_staged {r : Reservation} {next : Nat} (hw : m.writers w = .staging r next) (n : Nat) :
    m.run (List.replicate n (.search w)) = m := by
  induction n with
  | zero => rfl
  | succ n ih =>
    have hstep : m.step (.search w) = m := by simp only [Mount.step, hw]
    rw [List.replicate_succ, Mount.run, List.foldl_cons, hstep]
    exact ih

theorem run_searches (n pass : Nat) (hn : pass + n = reservationShards) (hresize : m.resizeActive = false)
    (hw : m.writers w = .searching count preferred first pass) :
    ((m.run (List.replicate (n + 1) (.search w))).writers w = .idle ∧
      ∀ k, pass ≤ k → k < reservationShards → m.arenaFinds count preferred ((first + k) % reservationShards) = none) ∨
    ∃ shard start, shard < reservationShards ∧ m.arenaFinds count preferred shard = some start ∧
      (m.run (List.replicate (n + 1) (.search w))).writers w = .staging ⟨⟨start, count⟩, shard⟩ 0 := by
  induction n generalizing m pass with
  | zero =>
    refine .inl ⟨?_, fun k hlo hhi => by omega⟩
    show (m.step (.search w)).writers w = .idle
    rw [step_search hw, Mount.search, if_pos (by omega)]
    exact update_self ..
  | succ n ih =>
    have hstep := step_search hw
    rw [search_eq hresize (by omega)] at hstep
    show ((m.step (.search w)).run _).writers w = _ ∧ _ ∨ ∃ shard start, _ ∧ _ ∧ ((m.step (.search w)).run _).writers w = _
    cases hfinds : m.arenaFinds count preferred ((first + pass) % reservationShards) with
    | none =>
      rw [hfinds] at hstep
      have hnext : (m.step (.search w)).writers w = .searching count preferred first (pass + 1) := by
        rw [hstep]
        exact update_self ..
      have hrest := ih (m := m.step (.search w)) (pass + 1) (by omega) (by rw [hstep]; exact hresize) hnext
      have hsame (shard : Nat) : (m.step (.search w)).arenaFinds count preferred shard = m.arenaFinds count preferred shard := by
        rw [hstep]
        rfl
      simp only [hsame] at hrest
      refine hrest.imp_left fun hnone => ⟨hnone.1, fun k hlo hhi => ?_⟩
      rcases Nat.eq_or_lt_of_le hlo with rfl | hlt
      · exact hfinds
      · exact hnone.2 k hlt hhi
    | some start =>
      rw [hfinds] at hstep
      have hstaged : (m.step (.search w)).writers w = .staging ⟨⟨start, count⟩, (first + pass) % reservationShards⟩ 0 := by
        rw [hstep]
        exact update_self ..
      refine .inr ⟨_, start, Nat.mod_lt _ (by decide), hfinds, ?_⟩
      rw [run_staged hstaged]
      exact hstaged

theorem charge_searching (m : Mount) (w count preferred : Nat) {freeBlocks : Nat}
    (hbudget : m.reservedBlocks + count ≤ freeBlocks - m.metadataReserveBlocks)
    (hcount : 0 < count) : ∃ first, ∃ charged : Mount, m.charge w count preferred freeBlocks = charged ∧
      charged.writers w = .searching count preferred first 0 ∧ charged.resizeActive = m.resizeActive ∧
      charged.arenaFinds count preferred = m.arenaFinds count preferred := by
  rw [Mount.charge, if_neg (by omega)]
  split
  · exact ⟨_, _, rfl, update_self .., rfl, rfl⟩
  · exact ⟨_, _, rfl, update_self .., rfl, rfl⟩

def Mount.HasRun (m : Mount) (count : Nat) : Prop := ∃ shard < reservationShards, ∃ start, m.Holds count shard start

/-- A search alone ends with a free run inside of one arena, or it gives up.
It gives up only if there is no free run, exactly if that is so or some free
run of an arena does not cross the place where the two sweeps of that arena
meet. -/
theorem reserveAlone_complete_iff {freeBlocks : Nat} (hw : m.writers w = .charging count preferred freeBlocks)
    (hcount : 0 < count) (hresize : m.resizeActive = false)
    (hbudget : m.reservedBlocks + count ≤ freeBlocks - m.metadataReserveBlocks) :
    ((m.reserveAlone w).writers w = .idle ∨ ∃ shard start, shard < reservationShards ∧ m.Holds count shard start ∧
      (m.reserveAlone w).writers w = .staging ⟨⟨start, count⟩, shard⟩ 0) ∧
    (((m.reserveAlone w).writers w = .idle → ¬m.HasRun count) ↔
      ¬m.HasRun count ∨
        ∃ shard < reservationShards, ∃ start, m.Holds count shard start ∧ ¬m.Crosses count preferred shard start) := by
  obtain ⟨first, charged, hcharge, hsearching, hsame, hfinds⟩ :=
    charge_searching m w count preferred hbudget hcount
  have hstart : m.reserveAlone w = charged.run (List.replicate (reservationShards + 1) (.search w)) := by
    simp only [Mount.reserveAlone, Mount.run, List.foldl_cons, Mount.step, hw, hcharge]
  rw [hstart]
  rcases run_searches reservationShards 0 (Nat.zero_add _) (hsame.trans hresize) hsearching with
    ⟨hidle, hnone⟩ | ⟨shard, start, hshard, hfound, hstaging⟩
  · have hcrosses (shard : Nat) (hshard : shard < reservationShards) {start : Nat} (hholds : m.Holds count shard start) :
        m.Crosses count preferred shard start := by
      have hreach := hnone ((shard + (reservationShards - first % reservationShards)) % reservationShards) (Nat.zero_le _)
        (Nat.mod_lt _ (by decide))
      rw [hfinds, show (first + (shard + (reservationShards - first % reservationShards)) % reservationShards) %
        reservationShards = shard by rw [reservationShards] at *; omega] at hreach
      exact arenaFinds_none hcount hreach hholds
    refine ⟨.inl hidle, fun h => .inl (h hidle), ?_⟩
    rintro (hrun | ⟨shard, hshard, start, hholds, hcross⟩) _
    · exact hrun
    · exact absurd (hcrosses shard hshard hholds) hcross
  · rw [hfinds] at hfound
    obtain ⟨hholds, hcross⟩ := arenaFinds_some hfound
    refine ⟨.inr ⟨shard, start, hshard, hholds, hstaging⟩, fun _ => .inr ⟨shard, hshard, start, hholds, hcross⟩, ?_⟩
    intro _ hidle
    cases hstaging.symm.trans hidle

theorem reserveAlone_half : ((halfMount.setWriter 0 (.charging 2 3000 2048)).reserveAlone 0).writers 0 ≠ .idle := by
  have hiff := (reserveAlone_complete_iff (m := halfMount.setWriter 0 (.charging 2 3000 2048)) (w := 0) rfl (by decide) rfl
    (by decide)).2
  have hfree : Free halfMount.busy 3000 2 := fun b hlo hhi => by
    obtain rfl | rfl : b = 3000 ∨ b = 3001 := by omega
    · decide
    · decide
  have hholds : (halfMount.setWriter 0 (.charging 2 3000 2048)).Holds 2 46 3000 := ⟨by decide, by decide, hfree⟩
  exact fun hidle => hiff.mpr (.inr ⟨46, by decide, 3000, hholds, by unfold Mount.Crosses; decide⟩) hidle ⟨46, by decide, 3000, hholds⟩

/-- Every second block is in use, but for blocks 1 and 2, which are both free
and belong to the first arena. An earlier reservation of block 1 has left the
hint of that arena at block 2. -/
def crossedMount : Mount :=
  { halfMount with
    bitmap b := decide (b = 3 ∨ b % 2 = 0 ∧ b ≠ 2)
    hints _ := 2
    diskFreeBlocks := 2048
    writers _ := .charging 2 0 2048 }

theorem crossing_run_missed : (crossedMount.reserveAlone 0).writers 0 = .idle ∧ crossedMount.HasRun 2 := by
  have hfree : Free crossedMount.busy 1 2 := fun b hlo hhi => by
    obtain rfl | rfl : b = 1 ∨ b = 2 := by omega
    · rfl
    · rfl
  exact ⟨by decide +kernel, 0, by decide, 1, by decide, by decide, hfree⟩

end Completeness

end InfiltratorFS.Native
