import InfiltratorFS.Volume.Ownership

namespace InfiltratorFS

open Segment Scan Prog

variable {β : Type}

section Search

theorem scanReverse_one {bitmap : Nat → Bool} {start stop x : Nat} (hlo : start ≤ x) (hhi : x < stop) (hclear : bitmap x = false)
    (best : Nat × Nat) (hbest : best.2 = 0) :
    (scanReverse bitmap 1 start stop best).1 = true ∧ (scanReverse bitmap 1 start stop best).2.2 = 1 := by
  obtain ⟨fuel, hfuel⟩ : ∃ fuel, stop - start = fuel + 1 := ⟨stop - start - 1, by omega⟩
  have hset := fun i => countDownWhile_holds bitmap (stop - start) stop i (by omega)
  have hlow := le_countDownWhile bitmap (stop - start) stop
  have hhigh := countDownWhile_le bitmap (stop - start) stop
  have hstops := countDownWhile_stops bitmap (stop - start) stop
  rw [scanReverse]
  rw [hfuel, allocScanSegmentReverse]
  generalize countDownWhile bitmap (stop - start) stop = runEnd at *
  have hrun : start < runEnd := by
    by_contra hcon
    have := hset x (by omega) hhi
    rw [hclear] at this
    cases this
  have hlast : bitmap (runEnd - 1) = false := hstops (by omega)
  -- the block below the set ones is clear, and one block is all that is wanted
  have hone : countDownWhile (fun x => !bitmap x && decide (runEnd - (x + 1) < 1)) (runEnd - start) runEnd = runEnd - 1 := by
    obtain ⟨k, hk⟩ : ∃ k, runEnd - start = k + 1 := ⟨runEnd - start - 1, by omega⟩
    rw [hk, countDownWhile, if_pos (by simp [hlast]; omega)]
    cases k with
    | zero => rfl
    | succ k =>
      rw [countDownWhile, if_neg]
      simp only [Bool.and_eq_true, decide_eq_true_eq, not_and]
      omega
  simp only
  rw [if_neg (by omega), hone]
  have hlength : runEnd - (runEnd - 1) = 1 := by omega
  rw [hlength, if_pos rfl, if_pos (by omega)]
  exact ⟨rfl, rfl⟩

theorem scanReverse_none {bitmap : Nat → Bool} {start stop : Nat} (hset : ∀ x, start ≤ x → x < stop → bitmap x = true)
    (best : Nat × Nat) : scanReverse bitmap 1 start stop best = (false, best) := by
  rw [scanReverse]
  cases hfuel : stop - start with
  | zero => rfl
  | succ fuel =>
    have hlow := le_countDownWhile bitmap (stop - start) stop
    have hstops := countDownWhile_stops bitmap (stop - start) stop
    have hhigh := countDownWhile_le bitmap (stop - start) stop
    rw [allocScanSegmentReverse]
    generalize countDownWhile bitmap (stop - start) stop = runEnd at *
    have hrun : runEnd ≤ start := by
      by_contra hcon
      have := hstops (by omega)
      rw [hset (runEnd - 1) (by omega) (by omega)] at this
      cases this
    simp only
    rw [if_pos hrun]

theorem choosePasses_whole {e : Range} (es : List Range) (hcount : 0 < e.count) (candidates : List (Range → Option (Nat × Nat)))
    (best : Nat × Nat) : (choosePasses 1 (e :: es) (candidates ++ [reverseWhole 1]) best).1 = true := by
  induction candidates generalizing best with
  | nil =>
    have htake : min e.count 1 = 1 := by omega
    rw [List.nil_append, choosePasses, choosePass, reverseWhole]
    simp only [htake, if_true]
  | cons candidate candidates ih =>
    rw [List.cons_append, choosePasses]
    split
    · rfl
    · exact ih _

theorem chooseReverse_one {es : List Range} (hne : es ≠ []) (hcount : ∀ x ∈ es, 0 < x.count) (cursor : Nat) :
    ∃ start, freeExtentIndexChooseReverse es 1 cursor false = some (start, 1) := by
  rcases hlist : es.reverse with _ | ⟨last, rest⟩
  · exact absurd (List.reverse_eq_nil_iff.mp hlist) hne
  · have hlast : 0 < last.count := hcount last (List.mem_reverse.mp (by rw [hlist]; exact List.mem_cons_self))
    have hfound := choosePasses_whole rest hlast [reverseBefore 1 cursor, reverseAfter 1 cursor] (0, 0)
    have hlength := choosePasses_found 1 (last :: rest) _ (0, 0) hfound
    rw [freeExtentIndexChooseReverse, if_neg (by simp [hne]), hlist]
    simp only [List.cons_append, List.nil_append] at hfound hlength ⊢
    rw [if_pos hfound]
    exact ⟨_, congrArg some (Prod.ext rfl hlength)⟩

theorem chooseMetadataRun_one (v : Volume β) (hv : v.IndexExact) (cursor : Nat) {x : Nat} (hx : 1 ≤ x ∧ x < v.total)
    (hclear : v.bitmap x = false) : (chooseMetadataRun v 1 cursor).2 = 1 := by
  rw [chooseMetadataRun]
  split
  · rename_i hvalid
    obtain ⟨hseparated, hexact⟩ := hv hvalid
    have hcovers := (hexact x).mpr ⟨hx.2, hclear⟩
    have hne : v.freeIndex.extents ≠ [] := by
      intro hnil
      rw [hnil] at hcovers
      cases hcovers
    obtain ⟨start, hchoose⟩ := chooseReverse_one hne hseparated.2 cursor
    rw [hchoose]
    rfl
  · by_cases hbelow : ∃ y, 1 ≤ y ∧ y < cursor ∧ v.bitmap y = false
    · obtain ⟨y, hlo, hhi, hy⟩ := hbelow
      obtain ⟨hfound, hlength⟩ := scanReverse_one hlo hhi hy (0, 0) rfl
      simp only [hfound, Bool.true_eq_false, false_and, if_false]
      exact hlength
    · have hset (y : Nat) (hlo : 1 ≤ y) (hhi : y < cursor) : v.bitmap y = true := by
        by_contra hnot
        exact hbelow ⟨y, hlo, hhi, by simpa using hnot⟩
      have hcursor : cursor ≤ x := by
        by_contra hcon
        rw [hset x hx.1 (by omega)] at hclear
        cases hclear
      obtain ⟨hfound, hlength⟩ := scanReverse_one hcursor hx.2 hclear (0, 0) rfl
      have hinside : cursor < v.total := by omega
      rw [scanReverse_none hset]
      simp only [hinside, and_self, if_true, hfound, Bool.true_eq_false, false_and, if_false]
      exact hlength

end Search

section Serve

variable [Inhabited β]

theorem allocateSelectedRun_one {v : Volume β} (hv : OpenTx v) (hgranted : Granted v) (start : Nat) (hstart : start < v.total) :
    ∃ v', allocateSelectedRun start 1 v = (.ok (), v') := by
  have htotal : v.total < 2 ^ 64 := v.sb.totalBlocks.toNat_lt
  have hsum : (addChecked start 1).isNone = false := by
    rw [addChecked, if_pos (by omega)]
    rfl
  have hnow : v.answer.status = .ok := hgranted _ (Nat.le_refl _)
  have hrecord : txRecordAllocated start 1 v = (.ok (), { v.tickOn with tx.allocated := v.tx.allocated ++ [⟨start, 1⟩] }) := by
    rw [txRecordAllocated, bind_of_ok (get_apply v), if_neg (by simp [hv.active, hsum]), bind_apply]
    simp only [reserve, hnow, decide_true, if_true]
    rfl
  obtain ⟨index, hremove, -⟩ := removeOrInvalidate_apply start 1 { v.tickOn with tx.allocated := v.tx.allocated ++ [⟨start, 1⟩] }
  have hmark : allocateSelectedRunUninitialized start 1 v =
      (.ok (), markAllocated start 1 (Volume.withIndex { v.tickOn with tx.allocated := v.tx.allocated ++ [⟨start, 1⟩] } index)) := by
    rw [allocateSelectedRunUninitialized, bind_of_ok hrecord, bind_of_ok hremove, modify_apply]
  have htook := allocateUninitialized_took hmark
  generalize markAllocated start 1 (Volume.withIndex { v.tickOn with tx.allocated := v.tx.allocated ++ [⟨start, 1⟩] } index) = u at *
  have hthen : u.answer.status = .ok := hgranted.mono htook.env htook.tick _ (Nat.le_refl _)
  have hinside : ¬u.total ≤ start := by
    rw [htook.context.total_eq]
    omega
  have hzero : zeroBlocks start 1 u = (.ok (), { u with medium := u.medium.write start default }) := by
    rw [zeroBlocks, bind_apply, writeBlock, if_neg hinside, storageWrite, resultOf, if_pos hthen]
    rfl
  rw [allocateSelectedRun, bind_of_ok hmark, bind_apply, attempt_apply, hzero]
  exact ⟨_, rfl⟩

theorem allocRun_one {v : Volume β} (hv : OpenTx v) (hgranted : Granted v) (hfree : v.sb.freeBlocks ≠ 0) {x : Nat}
    (hx : 1 ≤ x ∧ x < v.total) (hclear : v.bitmap x = false) : ∃ start v', allocRun 1 v = (.ok (start, 1), v') := by
  have hlength := chooseMetadataRun_one v hv.index (metadataCursor v) hx hclear
  have hrun := chooseMetadataRun_clear v hv.index 1 (metadataCursor v) (metadataCursor_le v) (by rw [hlength]; decide)
  obtain ⟨start, hpair⟩ : ∃ start, chooseMetadataRun v 1 (metadataCursor v) = (start, 1) := ⟨_, Prod.ext rfl hlength⟩
  rw [hpair] at hrun
  have hinside : start + 1 ≤ v.total := hrun.1
  obtain ⟨v', hselect⟩ := allocateSelectedRun_one hv hgranted start hinside
  refine ⟨start, setMetadataCursor start v', ?_⟩
  rw [allocRun, bind_of_ok hv.begin, bind_of_ok (get_apply v),
    if_neg (by simp [hfree])]
  simp only [hpair]
  rw [if_neg (by decide), bind_of_ok hselect, bind_of_ok (modify_apply _ _)]
  rfl

end Serve

end InfiltratorFS
