import InfiltratorFS.Storage.Device
import Mathlib.Data.Finset.Card
import Mathlib.Order.Interval.Finset.Nat

namespace InfiltratorFS.Storage

open FlatStore Function

section Members

/-- `struct mirror_context`, with what the members hold. -/
structure Mirror where
  count : Nat
  healthy : Nat → Bool
  disks : Nat → Nat → UInt8

/-- A read of one member. Failing to allocate the buffer for the comparison
looks like a member that answers with that error. -/
def memberRead (disks : Nat → Nat → UInt8) (results : Nat → Nat → Nat → Status) (i : Nat) : Nat → Nat → Except Status Bytes :=
  deviceRead (disks i) (results i)

end Members

section Code

/-- An explicit number of copies has to be there. -/
def excessCopies (count : Nat) (policy : Option IoPolicy) : Bool :=
  policy.any fun p => decide (count < p.protectionCopies.toNat)

def mirrorReadPolicy (m : Mirror) (policy : Option IoPolicy) (offset size : Nat) (results : Nat → Nat → Nat → Status) :
    Except Status Bytes :=
  if excessCopies m.count policy then .error .notSupported
  else
    mirrorScan (memberRead m.disks results) (fun i => mirrorPolicyMember m.count policy i && m.healthy i) offset size
      (List.range m.count) none

/-- The variables of a replicated write or flush. Each call of a member is
recorded with the status it returned. -/
structure Sweep where
  healthy : Nat → Bool
  disks : Nat → Nat → UInt8
  result : Status
  attempted : Bool
  degraded : Bool
  calls : List (Nat × Status)

def Sweep.start (m : Mirror) : Sweep := ⟨m.healthy, m.disks, .ok, false, false, []⟩

def Sweep.visit (status : Nat → Status) (disk : Nat → (Nat → UInt8) → Nat → UInt8) (s : Sweep) (i : Nat) : Sweep :=
  if !s.healthy i then { s with degraded := true }
  else
    let called := { s with
      attempted := true
      disks := update s.disks i (disk i (s.disks i))
      calls := s.calls ++ [(i, status i)] }
    if status i = .ok then called
    else
      -- only a device error makes a member a broken replica
      { called with
        healthy := if status i = .ioError then update s.healthy i false else s.healthy
        degraded := true
        result := if s.result = .ok then status i else s.result }

def Sweep.sweep (uses : Nat → Bool) (status : Nat → Status) (disk : Nat → (Nat → UInt8) → Nat → UInt8) :
    List Nat → Sweep → Sweep
  | [], s => s
  | i :: rest, s => Sweep.sweep uses status disk rest (if uses i then s.visit status disk i else s)

def Sweep.status (s : Sweep) : Status :=
  if !s.attempted then .ioError
  else if s.result ≠ .ok then s.result
  else if s.degraded then .ioError
  else .ok

structure Outcome where
  reply : Except Status Bytes
  calls : List (Nat × Status)
  mirror : Mirror

def Outcome.ofSweep (m : Mirror) (s : Sweep) : Outcome where
  reply := if s.status = .ok then .ok [] else .error s.status
  calls := s.calls
  mirror := { m with healthy := s.healthy, disks := s.disks }

def mirrorWritePolicy (m : Mirror) (policy : Option IoPolicy) (offset : Nat) (data : Bytes) (results : Nat → WriteResult) :
    Outcome :=
  if excessCopies m.count policy then ⟨.error .notSupported, [], m⟩
  else
    .ofSweep m (Sweep.sweep (mirrorPolicyMember m.count policy) (fun i => (results i).status)
      (fun i disk => deviceWrite disk (results i) offset data) (List.range m.count) (Sweep.start m))

def mirrorFlush (m : Mirror) (results : Nat → Status) : Outcome :=
  .ofSweep m (Sweep.sweep (fun _ => true) results (fun _ disk => disk) (List.range m.count) (Sweep.start m))

end Code

section Runs

inductive MirrorOp
  | read (policy : Option IoPolicy) (offset size : Nat) (results : Nat → Nat → Nat → Status)
  | write (policy : Option IoPolicy) (offset : Nat) (data : Bytes) (results : Nat → WriteResult)
  | flush (results : Nat → Status)

def Mirror.step (m : Mirror) : MirrorOp → Outcome
  | .read policy offset size results => ⟨mirrorReadPolicy m policy offset size results, [], m⟩
  | .write policy offset data results => mirrorWritePolicy m policy offset data results
  | .flush results => mirrorFlush m results

def Mirror.run (m : Mirror) : List MirrorOp → Mirror
  | [] => m
  | op :: ops => (m.step op).mirror.run ops

def Mirror.calls (m : Mirror) : List MirrorOp → List (Nat × Status)
  | [] => []
  | op :: ops => (m.step op).calls ++ (m.step op).mirror.calls ops

/-- A write, whether it succeeds or not, has a byte of the range. -/
def MirrorOp.Writes (start count : Nat) : MirrorOp → Prop
  | .write _ offset data _ => Overlap offset data.length start count
  | _ => False

end Runs

section Sweeps

variable {uses : Nat → Bool} {status : Nat → Status} {disk : Nat → (Nat → UInt8) → Nat → UInt8} {s : Sweep}
  {P : (Nat → UInt8) → Prop}

/-- A visit adds at most one call, and takes the member out of the healthy set
when that call had a device error. -/
theorem visit_healthy (s : Sweep) (i : Nat) :
    ∃ new, (s.visit status disk i).calls = s.calls ++ new ∧
      ∀ j, (s.visit status disk i).healthy j = true ↔ s.healthy j = true ∧ (j, Status.ioError) ∉ new := by
  unfold Sweep.visit
  cases hi : s.healthy i with
  | false => exact ⟨[], by simp⟩
  | true =>
    refine ⟨[(i, status i)], ?_⟩
    by_cases hok : status i = .ok
    · simp [hok]
    · by_cases hio : status i = .ioError
      · simp only [hio, Bool.not_true, Bool.false_eq_true, if_false, reduceCtorEq, if_true, List.mem_singleton, Prod.mk.injEq,
          and_true, true_and, update_apply]
        intro j
        by_cases hj : j = i
        · simp [hj]
        · simp [hj]
      · simp [hok, hio, Ne.symm hio]

theorem sweep_healthy (members : List Nat) (s : Sweep) :
    ∃ new, (Sweep.sweep uses status disk members s).calls = s.calls ++ new ∧
      ∀ j, (Sweep.sweep uses status disk members s).healthy j = true ↔
        s.healthy j = true ∧ (j, Status.ioError) ∉ new := by
  induction members generalizing s with
  | nil => exact ⟨[], by simp [Sweep.sweep]⟩
  | cons i rest ih =>
    unfold Sweep.sweep
    cases uses i with
    | false => exact ih s
    | true =>
      obtain ⟨new, hcalls, hhealthy⟩ := @visit_healthy status disk s i
      obtain ⟨more, hmore, hrest⟩ := ih (s.visit status disk i)
      refine ⟨new ++ more, ?_, fun j => ?_⟩
      · rw [if_pos rfl, hmore, hcalls, List.append_assoc]
      · rw [if_pos rfl, hrest, hhealthy, List.mem_append, not_or, and_assoc]

theorem sweep_disks {j : Nat} (hdisk : ∀ d, P d → P (disk j d)) (members : List Nat) :
    ∀ s : Sweep, P (s.disks j) → P ((Sweep.sweep uses status disk members s).disks j) := by
  have hvisit : ∀ (s : Sweep) (i : Nat), P (s.disks j) → P ((s.visit status disk i).disks j) := by
    intro s i h
    have hupdate : P (update s.disks i (disk i (s.disks i)) j) := by
      by_cases hj : j = i
      · subst hj
        rw [update_self]
        exact hdisk _ h
      · rwa [update_of_ne hj]
    unfold Sweep.visit
    split
    · exact h
    · dsimp only
      split
      · exact hupdate
      · exact hupdate
  induction members with
  | nil => exact fun _ h => h
  | cons i rest ih =>
    intro s h
    apply ih
    split
    · exact hvisit s i h
    · exact h

theorem visit_whole {i : Nat} (h : (s.visit status disk i).degraded = false) :
    s.degraded = false ∧ status i = .ok ∧ (s.visit status disk i).disks i = disk i (s.disks i) := by
  unfold Sweep.visit at h ⊢
  split at h
  · cases h
  · rename_i hhealthy
    rw [if_neg hhealthy]
    dsimp only at h ⊢
    split at h
    · rename_i hok
      rw [if_pos hok]
      exact ⟨h, hok, update_self ..⟩
    · cases h

theorem sweep_whole_start (members : List Nat) :
    ∀ s : Sweep, (Sweep.sweep uses status disk members s).degraded = false → s.degraded = false := by
  induction members with
  | nil => exact fun _ h => h
  | cons i rest ih =>
    intro s h
    have hnext := ih _ h
    split at hnext
    · exact (visit_whole hnext).1
    · exact hnext

theorem sweep_whole (hdisk : ∀ i d, status i = .ok → P (disk i d)) (members : List Nat) :
    ∀ s : Sweep, (Sweep.sweep uses status disk members s).degraded = false →
      ∀ i ∈ members, uses i = true → P ((Sweep.sweep uses status disk members s).disks i) := by
  induction members with
  | nil => exact fun _ _ => List.forall_mem_nil _
  | cons j rest ih =>
    intro s h i hi huses
    rcases List.mem_cons.mp hi with rfl | hi
    · have hnext := sweep_whole_start rest _ h
      unfold Sweep.sweep
      rw [if_pos huses] at hnext ⊢
      obtain ⟨-, hok, hdone⟩ := visit_whole hnext
      apply sweep_disks (fun d _ => hdisk i d hok)
      rw [hdone]
      exact hdisk i _ hok
    · exact ih _ h i hi huses

theorem sweep_status_ok (h : s.status = .ok) : s.degraded = false := by
  unfold Sweep.status at h
  split at h
  · cases h
  · split at h
    · contradiction
    · split at h
      · cases h
      · rename_i hdegraded
        rwa [Bool.not_eq_true] at hdegraded

end Sweeps

section Window

def mirrorWindow (count : Nat) (policy : Option IoPolicy) : Finset Nat :=
  (Finset.range count).filter fun i => mirrorPolicyMember count policy i = true

variable {policy : Option IoPolicy}

theorem mem_mirrorWindow {count : Nat} {i : Nat} :
    i ∈ mirrorWindow count policy ↔ i < count ∧ mirrorPolicyMember count policy i = true := by
  rw [mirrorWindow, Finset.mem_filter, Finset.mem_range]

theorem card_mirrorWindow_all {count : Nat} (h : mirrorPolicyCopies count policy = count) :
    (mirrorWindow count policy).card = count := by
  have hall : ∀ i ∈ Finset.range count, mirrorPolicyMember count policy i = true := by
    intro i _
    unfold mirrorPolicyMember
    dsimp only
    rw [h, beq_self_eq_true, Bool.true_or]
  rw [mirrorWindow, Finset.filter_true_of_mem hall, Finset.card_range]

theorem card_mirrorWindow {count : Nat} (h : mirrorPolicyCopies count policy ≤ count) :
    (mirrorWindow count policy).card = mirrorPolicyCopies count policy := by
  by_cases hall : mirrorPolicyCopies count policy = count
  · rw [card_mirrorWindow_all hall, hall]
  · obtain _ | p := policy
    · exact absurd rfl hall
    · have hstart := mirrorPolicyStart_lt (show 0 < count by omega) (some p)
      generalize hc : mirrorPolicyCopies count (some p) = copies at *
      generalize hs : mirrorPolicyStart count (some p) = start at *
      have hmem (i : Nat) : i ∈ mirrorWindow count (some p) ↔
          i < count ∧ (if start ≤ i then i - start else count - start + i) < copies := by
        rw [mem_mirrorWindow, mirrorPolicyMember_iff (hc ▸ hall), hc, hs]
      by_cases hwrap : start + copies ≤ count
      · have hwindow : mirrorWindow count (some p) = Finset.Ico start (start + copies) := by
          ext i
          rw [hmem, Finset.mem_Ico]
          split <;> omega
        rw [hwindow, Nat.card_Ico, Nat.add_sub_cancel_left]
      · -- the window wraps around the last member
        have hwindow : mirrorWindow count (some p) = Finset.range count \ Finset.Ico (start + copies - count) start := by
          ext i
          rw [hmem, Finset.mem_sdiff, Finset.mem_range, Finset.mem_Ico]
          split <;> omega
        have hsubset : Finset.Ico (start + copies - count) start ⊆ Finset.range count := by
          intro i hi
          rw [Finset.mem_Ico] at hi
          rw [Finset.mem_range]
          omega
        rw [hwindow, Finset.card_sdiff_of_subset hsubset, Finset.card_range, Nat.card_Ico]
        omega

end Window

section Reads

variable {read : Nat → Nat → Nat → Except Status Bytes} {uses : Nat → Bool} {offset size : Nat} {bytes : Bytes}

theorem mirrorScan_confirmed {copy : Bytes} (members : List Nat)
    (h : mirrorScan read uses offset size members (some copy) = .ok bytes) :
    bytes = copy ∧ ∀ i ∈ members, uses i = true → crossCheck (read i) copy offset size size 0 = .ok () := by
  generalize hsome : some copy = held at h
  fun_induction mirrorScan read uses offset size members held with
  | case2 held =>
    cases hsome
    cases h
    exact ⟨rfl, List.forall_mem_nil _⟩
  | case3 i rest held hskip ih =>
    obtain ⟨hbytes, hrest⟩ := ih hsome h
    refine ⟨hbytes, List.forall_mem_cons.mpr ⟨fun huses => ?_, hrest⟩⟩
    rw [huses] at hskip
    cases hskip
  | case7 i rest huses held _ hcheck ih =>
    cases hsome
    obtain ⟨hbytes, hrest⟩ := ih rfl h
    exact ⟨hbytes, List.forall_mem_cons.mpr ⟨fun _ => hcheck, hrest⟩⟩
  | case8 => cases h
  | _ => cases hsome

/-- A mirrored read that succeeds has its bytes from one member. The members
before it had device errors, those after it did not contradict. -/
theorem mirrorScan_ok (members : List Nat) (h : mirrorScan read uses offset size members none = .ok bytes) :
    ∃ front i back, members = front ++ i :: back ∧
      (∀ j ∈ front, uses j = true → read j offset size = .error .ioError) ∧
      uses i = true ∧ read i offset size = .ok bytes ∧
      ∀ j ∈ back, uses j = true → crossCheck (read j) bytes offset size size 0 = .ok () := by
  generalize hnone : none = copy at h
  fun_induction mirrorScan read uses offset size members copy with
  | case3 i rest copy hskip ih =>
    obtain ⟨front, j, back, rfl, hfront, hj⟩ := ih hnone h
    refine ⟨i :: front, j, back, rfl, List.forall_mem_cons.mpr ⟨fun huses => ?_, hfront⟩, hj⟩
    rw [huses] at hskip
    cases hskip
  | case4 i rest huses copy hcopy =>
    obtain ⟨rfl, hrest⟩ := mirrorScan_confirmed rest h
    exact ⟨[], i, rest, rfl, List.forall_mem_nil _, by simpa using huses, hcopy, hrest⟩
  | case5 i rest huses hfail ih =>
    obtain ⟨front, j, back, rfl, hfront, hj⟩ := ih rfl h
    exact ⟨i :: front, j, back, rfl, List.forall_mem_cons.mpr ⟨fun _ => hfail, hfront⟩, hj⟩
  | case2 | case7 => cases hnone
  | _ => cases h

theorem crossCheck_complete {read : Nat → Nat → Except Status Bytes} {disk : Nat → UInt8} {copy : Bytes} {piece : Nat}
    (hpiece : verifyCapacity size = piece) (hcopy : copy.length = size)
    (hread : ∀ k, k * piece < size → read (offset + k * piece) (min piece (size - k * piece)) =
      .ok (slice disk (offset + k * piece) (min piece (size - k * piece))))
    (fuel : Nat) : ∀ k, size ≤ k * piece + fuel → crossCheck read copy offset size fuel (k * piece) = .ok () →
      slice disk (offset + k * piece) (size - k * piece) = copy.drop (k * piece) := by
  have hend (k : Nat) (hk : size ≤ k * piece) :
      slice disk (offset + k * piece) (size - k * piece) = copy.drop (k * piece) := by
    rw [List.drop_eq_nil_of_le (by omega), Nat.sub_eq_zero_of_le hk]
    rfl
  induction fuel with
  | zero =>
    intro k hk _
    exact hend k hk
  | succ fuel ih =>
    intro k hk h
    unfold crossCheck at h
    split at h
    · exact hend k ‹_›
    · rename_i hmore
      have hpos : 0 < piece := by
        rw [← hpiece, verifyCapacity]
        omega
      dsimp only at h
      rw [hpiece, Nat.min_comm, hread k (by omega)] at h
      dsimp only at h
      split at h
      · cases h
      · rename_i hequal
        rw [not_not] at hequal
        by_cases hlast : size - k * piece ≤ piece
        · rw [Nat.min_eq_right hlast, List.take_of_length_le (by rw [List.length_drop]; omega)] at hequal
          exact hequal.symm
        · rw [Nat.min_eq_left (by omega)] at hequal h
          have hnext : k * piece + piece = (k + 1) * piece := (Nat.succ_mul k piece).symm
          rw [hnext] at h
          have hrest := ih (k + 1) (by omega) h
          rw [show size - k * piece = piece + (size - (k + 1) * piece) by omega, slice_add, ← hequal,
            Nat.add_assoc, hnext, hrest, ← hnext, ← List.drop_drop, List.take_append_drop]

end Reads

section Consistency

variable {m : Mirror} {policy : Option IoPolicy} {offset size : Nat} {results : Nat → Nat → Nat → Status} {bytes : Bytes}

/-- Each read that the mirror makes of a member for the given one returns OK:
that of the whole range, or those of the pieces once there is a copy. -/
def Completes (m : Mirror) (policy : Option IoPolicy) (offset size : Nat) (results : Nat → Nat → Nat → Status) (i : Nat) : Prop :=
  if ∃ j < i, j ∈ mirrorWindow m.count policy ∧ m.healthy j = true ∧ results j offset size = .ok then
    ∀ k, k * verifyCapacity size < size →
      results i (offset + k * verifyCapacity size) (min (verifyCapacity size) (size - k * verifyCapacity size)) = .ok
  else results i offset size = .ok

/-- What a successful read returns is what a healthy member of the window
holds, and every other one that completes the read holds it too. -/
theorem mirrorReadPolicy_ok (h : mirrorReadPolicy m policy offset size results = .ok bytes) :
    (∃ i ∈ mirrorWindow m.count policy, m.healthy i = true ∧ bytes = slice (m.disks i) offset size) ∧
    ∀ i ∈ mirrorWindow m.count policy, m.healthy i = true → Completes m policy offset size results i →
      slice (m.disks i) offset size = bytes := by
  unfold mirrorReadPolicy at h
  split at h
  · cases h
  · obtain ⟨front, i, back, hsplit, hfront, huses, hread, hback⟩ := mirrorScan_ok _ h
    obtain ⟨hok, hbytes⟩ := deviceRead_eq_ok hread
    rw [Bool.and_eq_true] at huses
    have hmember (j : Nat) : j ∈ front ++ i :: back ↔ j < m.count := by rw [← hsplit, List.mem_range]
    have hwindow : i ∈ mirrorWindow m.count policy := mem_mirrorWindow.mpr ⟨(hmember i).mp (by simp), huses.1⟩
    -- the members stand in the order of their numbers
    have hsorted : (front ++ i :: back).Pairwise (· < ·) := hsplit ▸ List.pairwise_lt_range
    rw [List.pairwise_append, List.pairwise_cons] at hsorted
    obtain ⟨-, ⟨hlater, -⟩, hearlier⟩ := hsorted
    refine ⟨⟨i, hwindow, huses.2, hbytes⟩, fun j hj hhealthy hcompletes => ?_⟩
    obtain ⟨hlt, hin⟩ := mem_mirrorWindow.mp hj
    have husesj : (mirrorPolicyMember m.count policy j && m.healthy j) = true := by rw [hin, hhealthy]; rfl
    have hfailed {k : Nat} (hk : k ∈ front) (hkin : mirrorPolicyMember m.count policy k = true) (hkh : m.healthy k = true) :
        results k offset size ≠ .ok := by
      intro hokk
      have hfail := hfront k hk (by rw [hkin, hkh]; rfl)
      rw [memberRead, deviceRead_ok hokk] at hfail
      cases hfail
    rcases List.mem_append.mp ((hmember j).mpr hlt) with hj' | hj'
    · -- before the copy there is none to compare with, and the read failed
      rw [Completes, if_neg] at hcompletes
      · exact absurd hcompletes (hfailed hj' hin hhealthy)
      · rintro ⟨k, hkj, hkw, hkh, hokk⟩
        have hk : k ∈ front ++ i :: back := (hmember k).mpr (mem_mirrorWindow.mp hkw).1
        have hji := hearlier j hj' i List.mem_cons_self
        rcases List.mem_append.mp hk with hk | hk
        · exact hfailed hk (mem_mirrorWindow.mp hkw).2 hkh hokk
        · rcases List.mem_cons.mp hk with rfl | hk
          · omega
          · have := hlater k hk
            omega
    · rcases List.mem_cons.mp hj' with rfl | hj'
      · exact hbytes.symm
      · rw [Completes, if_pos ⟨i, hlater j hj', hwindow, huses.2, hok⟩] at hcompletes
        have hcheck := hback j hj' husesj
        have hlength : bytes.length = size := by rw [hbytes, length_slice]
        have hwhole := crossCheck_complete rfl hlength (fun k hk => deviceRead_ok (hcompletes k hk)) size 0
          (Nat.le_add_left ..) (by rwa [Nat.zero_mul])
        simpa using hwhole

theorem mirrorReadPolicy_congr {disks : Nat → Nat → UInt8} (h : ∀ i, m.healthy i = true → disks i = m.disks i) :
    mirrorReadPolicy { m with disks := disks } policy offset size results = mirrorReadPolicy m policy offset size results := by
  unfold mirrorReadPolicy
  split
  · rfl
  · apply mirrorScan_congr
    · intro i _ huses
      funext offset size
      have hdisk := h i (Bool.and_eq_true _ _ ▸ huses).2
      simp only [memberRead, hdisk]
    · exact fun _ _ => rfl

theorem step_count (m : Mirror) (op : MirrorOp) : (m.step op).mirror.count = m.count := by
  cases op with
  | read => rfl
  | write =>
    show (mirrorWritePolicy ..).mirror.count = m.count
    unfold mirrorWritePolicy
    split <;> rfl
  | flush => rfl

theorem step_healthy (m : Mirror) (op : MirrorOp) (i : Nat) :
    (m.step op).mirror.healthy i = true ↔ m.healthy i = true ∧ (i, Status.ioError) ∉ (m.step op).calls := by
  have hidle : m.healthy i = true ↔ m.healthy i = true ∧ (i, Status.ioError) ∉ ([] : List (Nat × Status)) := by simp
  have hsweep {uses : Nat → Bool} {status : Nat → Status} {disk : Nat → (Nat → UInt8) → Nat → UInt8} :
      (Sweep.sweep uses status disk (List.range m.count) (Sweep.start m)).healthy i = true ↔
        m.healthy i = true ∧
          (i, Status.ioError) ∉ (Sweep.sweep uses status disk (List.range m.count) (Sweep.start m)).calls := by
    obtain ⟨new, hcalls, hhealthy⟩ := @sweep_healthy uses status disk (List.range m.count) (Sweep.start m)
    rw [hhealthy, hcalls]
    rfl
  cases op with
  | read => exact hidle
  | write =>
    show (mirrorWritePolicy ..).mirror.healthy i = true ↔ _ ∧ _ ∉ (mirrorWritePolicy ..).calls
    unfold mirrorWritePolicy
    split
    · exact hidle
    · exact hsweep
  | flush => exact hsweep

theorem run_count (ops : List MirrorOp) : ∀ m : Mirror, (m.run ops).count = m.count := by
  induction ops with
  | nil => exact fun _ => rfl
  | cons op ops ih => exact fun m => (ih _).trans (step_count m op)

theorem run_healthy (ops : List MirrorOp) (i : Nat) :
    ∀ m : Mirror, (m.run ops).healthy i = true ↔ m.healthy i = true ∧ (i, Status.ioError) ∉ m.calls ops := by
  induction ops with
  | nil =>
    intro m
    simp [Mirror.run, Mirror.calls]
  | cons op ops ih =>
    intro m
    rw [Mirror.run, Mirror.calls, ih, step_healthy, List.mem_append, not_or, and_assoc]

theorem mirrorWritePolicy_ok {data : Bytes} {writes : Nat → WriteResult}
    (h : (mirrorWritePolicy m policy offset data writes).reply = .ok []) {i : Nat} (hi : i ∈ mirrorWindow m.count policy) :
    ∃ d, (mirrorWritePolicy m policy offset data writes).mirror.disks i = overlay d offset data := by
  obtain ⟨hlt, hin⟩ := mem_mirrorWindow.mp hi
  unfold mirrorWritePolicy at h ⊢
  split at h
  · cases h
  · rename_i hcopies
    rw [if_neg hcopies]
    have hstatus : (Sweep.sweep (mirrorPolicyMember m.count policy) (fun i => (writes i).status)
        (fun i disk => deviceWrite disk (writes i) offset data) (List.range m.count) (Sweep.start m)).status = .ok := by
      unfold Outcome.ofSweep at h
      by_contra hne
      rw [if_neg hne] at h
      cases h
    have hdisk (j : Nat) (d : Nat → UInt8) (hok : (writes j).status = .ok) :
        ∃ d', deviceWrite d (writes j) offset data = overlay d' offset data := ⟨d, deviceWrite_ok hok⟩
    exact sweep_whole (P := fun disk => ∃ d, disk = overlay d offset data) hdisk _ _ (sweep_status_ok hstatus) i
      (List.mem_range.mpr hlt) hin

/-- Only a write changes what the members hold, and only in its range. -/
theorem step_slice {op : MirrorOp} {start count : Nat} (h : ¬op.Writes start count) (m : Mirror) (i : Nat) :
    slice ((m.step op).mirror.disks i) start count = slice (m.disks i) start count := by
  cases op with
  | read => rfl
  | write policy offset data writes =>
    show slice ((mirrorWritePolicy ..).mirror.disks i) start count = _
    unfold mirrorWritePolicy
    split
    · rfl
    · exact sweep_disks (P := fun d => slice d start count = slice (m.disks i) start count)
        (fun d hd => (slice_deviceWrite h).trans hd) _ _ rfl
  | flush => exact sweep_disks (P := fun d => slice d start count = slice (m.disks i) start count) (fun _ hd => hd) _ _ rfl

theorem run_slice {start count : Nat} (i : Nat) (ops : List MirrorOp) (h : ∀ op ∈ ops, ¬op.Writes start count) :
    ∀ m : Mirror, slice ((m.run ops).disks i) start count = slice (m.disks i) start count := by
  induction ops with
  | nil => exact fun _ => rfl
  | cons op ops ih =>
    intro m
    rw [Mirror.run, ih fun op hop => h op (List.mem_cons_of_mem _ hop), step_slice (h op List.mem_cons_self)]

/-- A mirror keeps its replicas consistent in every run. The healthy members
only become fewer, each by a device error of a write or flush. The window has
the copies that the policy asks for. A write that succeeds is on every member
of the window, and a later read through that window returns it. What is read
was held by a healthy member, whatever the others hold, and two of them that
contradict each other fail the read. -/
theorem mirror_consistent (m : Mirror) :
    (∀ (ops : List MirrorOp) (i : Nat), (m.run ops).healthy i = true ↔
      m.healthy i = true ∧ (i, Status.ioError) ∉ m.calls ops) ∧
    ((mirrorWindow m.count none).card = m.count ∧ ∀ p : IoPolicy, p.protectionCopies.toNat ≤ m.count →
      (mirrorWindow m.count (some p)).card = if p.protectionCopies = 0 then m.count else p.protectionCopies.toNat) ∧
    (∀ policy offset data writes, (mirrorWritePolicy m policy offset data writes).reply = .ok [] →
      ∀ i ∈ mirrorWindow m.count policy,
        slice ((mirrorWritePolicy m policy offset data writes).mirror.disks i) offset data.length = data) ∧
    (∀ policy offset data writes ops policy' start count reads bytes,
      (mirrorWritePolicy m policy offset data writes).reply = .ok [] →
      offset ≤ start → start + count ≤ offset + data.length → (∀ op ∈ ops, ¬MirrorOp.Writes start count op) →
      mirrorWindow m.count policy' = mirrorWindow m.count policy →
      mirrorReadPolicy ((mirrorWritePolicy m policy offset data writes).mirror.run ops) policy' start count reads = .ok bytes →
      bytes = (data.drop (start - offset)).take count) ∧
    (∀ policy offset size reads bytes, mirrorReadPolicy m policy offset size reads = .ok bytes →
      ∃ i ∈ mirrorWindow m.count policy, m.healthy i = true ∧ bytes = slice (m.disks i) offset size) ∧
    (∀ policy offset size reads disks, (∀ i, m.healthy i = true → disks i = m.disks i) →
      mirrorReadPolicy { m with disks := disks } policy offset size reads = mirrorReadPolicy m policy offset size reads) ∧
    (∀ policy offset size reads, ∀ i ∈ mirrorWindow m.count policy, ∀ j ∈ mirrorWindow m.count policy,
      m.healthy i = true → m.healthy j = true →
      Completes m policy offset size reads i → Completes m policy offset size reads j →
      slice (m.disks i) offset size ≠ slice (m.disks j) offset size →
      ∀ bytes, mirrorReadPolicy m policy offset size reads ≠ .ok bytes) := by
  refine ⟨fun ops i => run_healthy ops i m, ⟨card_mirrorWindow_all rfl, fun p hp => ?_⟩, ?_, ?_,
    fun _ _ _ _ _ h => (mirrorReadPolicy_ok h).1, fun _ _ _ _ _ h => mirrorReadPolicy_congr h, ?_⟩
  · have hcopies : mirrorPolicyCopies m.count (some p) =
        if p.protectionCopies = 0 then m.count else p.protectionCopies.toNat := by
      rw [mirrorPolicyCopies_some]
      simp only [← UInt8.toNat_inj, UInt8.toNat_zero]
    rw [card_mirrorWindow, hcopies]
    rw [hcopies]
    split
    · exact le_rfl
    · exact hp
  · intro policy offset data writes h i hi
    obtain ⟨d, hd⟩ := mirrorWritePolicy_ok h hi
    rw [hd, slice_overlay_self]
  · intro policy offset data writes ops policy' start count reads bytes hwrite hlo hhi hops hwindow hread
    have hcount : ((mirrorWritePolicy m policy offset data writes).mirror.run ops).count = m.count :=
      (run_count ops _).trans (step_count m (.write policy offset data writes))
    obtain ⟨i, hi, -, hbytes⟩ := (mirrorReadPolicy_ok hread).1
    rw [hcount, hwindow] at hi
    obtain ⟨d, hd⟩ := mirrorWritePolicy_ok hwrite hi
    rw [hbytes, run_slice i ops hops, hd, slice_overlay_within hlo hhi]
  · intro policy offset size reads i hi j hj hhi hhj hci hcj hne bytes h
    have hall := (mirrorReadPolicy_ok h).2
    exact hne ((hall i hi hhi hci).trans (hall j hj hhj hcj).symm)

/-- Two members, of which the first has a device error when the write is
flushed. The second still returns what was written. -/
theorem mirror_consistent_pair :
    ∃ flushed : Mirror, flushed =
      (mirrorWritePolicy ⟨2, fun _ => true, fun _ _ => 0⟩ none 5 [7, 8] fun _ => ⟨.ok, fun _ => 0⟩).mirror.run
        [.flush fun i => if i = 0 then .ioError else .ok] ∧
      flushed.healthy 0 = false ∧ flushed.healthy 1 = true ∧
      ∃ bytes, mirrorReadPolicy flushed none 6 1 (fun _ _ _ => .ok) = .ok bytes ∧ bytes = [8] := by
  refine ⟨_, rfl, rfl, rfl, _, rfl, ?_⟩
  exact (mirror_consistent ⟨2, fun _ => true, fun _ _ => 0⟩).2.2.2.1 none 5 [7, 8] (fun _ => ⟨.ok, fun _ => 0⟩)
    [.flush fun i => if i = 0 then .ioError else .ok] none 6 1 (fun _ _ _ => .ok) _ rfl (by decide) (by decide)
    (by simp [MirrorOp.Writes]) rfl rfl

end Consistency

end InfiltratorFS.Storage
