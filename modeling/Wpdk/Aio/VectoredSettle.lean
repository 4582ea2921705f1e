import Wpdk.Aio.VectoredInvariant

/-!
# Vectored requests are settled exactly once

From one step to whole schedules.  `VecInv` holds along every schedule (`vecInv_exec`), and
every move uses up one of a bounded number of steps (`length_add_remaining_le`), so a schedule
comes to a state in which nobody can move.  There the ledger of the invariant says that the
request was settled, and how.

* `SettledOnce`: the statement, for a step function over a list of segments.
* `aio_vector_settled_once`: `wpdk_aio_readv` and `wpdk_aio_writev` meet it.
-/

namespace Wpdk
namespace Aio

open Run

variable {segs : List Segment} {m : ℕ} {s : VecRequest}

/-! ## Whole schedules -/

theorem vecInv_vectorStep (s : VecRequest) (move : Move) (s' : VecRequest)
    (h : ∃ m, VecInv segs m s) (hstep : vectorStep segs s move = some s') :
    ∃ m, VecInv segs m s' := by
  obtain ⟨m, hm⟩ := h
  cases move with
  | submit => exact vecInv_submitStep hm hstep
  | complete j => exact ⟨m, vecInv_completeStep hm hstep⟩

theorem vecInv_exec (h2 : 2 ≤ segs.length) {schedule : List Move}
    (h : exec (vectorStep segs) (aioAllocateVector segs.length) schedule = some s) :
    ∃ m, VecInv segs m s :=
  exec_invariant vecInv_vectorStep ⟨0, vecInv_start h2⟩ h

/-- The steps that the submit loop can still take, with three for each segment that it can
still issue. -/
def SubmitPc.remaining (n : ℕ) : SubmitPc → ℤ
  | .issue i => 3 * (n - i : ℕ) + 3
  | .transferred i _ => 3 * (n - i : ℕ) + 2
  | .short _ => 1
  | .abort _ _ => 3
  | .reread _ _ => 2
  | .giveUp _ _ => 1
  | .returned _ => 0
  | .aborted _ => 0

/-- The steps that a completion can still take. -/
def Phase.remaining : Phase → ℤ
  | .pending => 2
  | .stored => 1
  | .unissued => 0
  | .inline => 0
  | .counted => 0

/-- A bound on the number of moves that are left. -/
def VecRequest.remaining (n : ℕ) (s : VecRequest) : ℤ :=
  s.pc.remaining n + phaseSum Phase.remaining n s.task

theorem VecRequest.remaining_nonneg (n : ℕ) (s : VecRequest) : 0 ≤ s.remaining n := by
  have hpc : 0 ≤ s.pc.remaining n := by
    cases s.pc <;> simp only [SubmitPc.remaining] <;> omega
  have htasks : 0 ≤ phaseSum Phase.remaining n s.task :=
    phaseSum_nonneg (fun p => by cases p <;> decide) n s.task
  exact Int.add_nonneg hpc htasks

/-- Writing to a segment adds at most the steps of its new phase. -/
theorem remaining_update_le {n i : ℕ} (hi : i < n) (task : ℕ → SegTask) (t : SegTask) :
    phaseSum Phase.remaining n (Function.update task i t) ≤
      phaseSum Phase.remaining n task + t.phase.remaining := by
  have hnonneg : 0 ≤ (task i).phase.remaining := by
    cases (task i).phase <;> decide
  rw [phaseSum_update _ hi]
  omega

/-- Writing to a segment without moving it on adds nothing. -/
theorem remaining_update_eq (n i : ℕ) (task : ℕ → SegTask) (t : SegTask)
    (ht : t.phase = (task i).phase) : phaseSum Phase.remaining n (Function.update task i t) =
      phaseSum Phase.remaining n task :=
  total_update_same (fun t : SegTask => t.phase.remaining) task (congrArg Phase.remaining ht)

theorem remaining_submitStep {s' : VecRequest} (hstep : submitStep segs s = some s') :
    s'.remaining segs.length < s.remaining segs.length := by
  unfold VecRequest.remaining
  cases submitted_of_submitStep hstep with
  | finish hpc hseg =>
    rw [hpc]
    simp only [aioIovDone_task, SubmitPc.remaining]
    omega
  | inline hpc hseg hissued | later hpc hseg hissued | failed hpc hseg hissued =>
    have hi := (List.getElem?_eq_some_iff.mp hseg).1
    rw [hpc]
    refine lt_of_le_of_lt (Int.add_le_add_left (remaining_update_le hi s.task _) _) ?_
    simp only [SubmitPc.remaining, Phase.remaining]
    omega
  | transferred hpc hseg =>
    have hi := (List.getElem?_eq_some_iff.mp hseg).1
    rw [hpc, aioIovDone_task]
    refine lt_of_le_of_lt (Int.add_le_add_left (remaining_update_le hi s.task _) _) ?_
    change (if _ then _ else _ : SubmitPc).remaining _ + (_ + 0) < _
    split_ifs <;> simp only [SubmitPc.remaining] <;> omega
  | short hpc =>
    rw [hpc]
    simp only [aioIovDone_task, SubmitPc.remaining]
    omega
  | @abort i error hpc =>
    have hsame := remaining_update_eq segs.length i s.task
      { s.task i with result := -convertToPosix error } rfl
    rw [hpc]
    simp only [aioIovDone_task, VecRequest.setTask, SubmitPc.remaining, hsame]
    omega
  | free hpc hone =>
    rw [hpc]
    simp only [SubmitPc.remaining]
    omega
  | keep hpc hmore =>
    rw [hpc]
    simp only [SubmitPc.remaining]
    omega
  | giveUp hpc =>
    rw [hpc]
    simp only [aioIovDone_task, SubmitPc.remaining]
    omega

theorem remaining_completeStep {j : ℕ} (h : VecInv segs m s) {s' : VecRequest}
    (hstep : completeStep segs j s = some s') :
    s'.remaining segs.length < s.remaining segs.length := by
  obtain ⟨hj, t, -, -, hcases⟩ := completeStep_cases h hstep
  have hsum := phaseSum_update Phase.remaining hj s.task t
  unfold VecRequest.remaining
  rcases hcases with ⟨hp, ht, rfl⟩ | ⟨hp, ht, rfl⟩
  · rw [hp, ht] at hsum
    simp only [VecRequest.setTask, Phase.remaining] at hsum ⊢
    omega
  · rw [hp, ht] at hsum
    simp only [aioIovDone_task, aioIovDone_pc, VecRequest.setTask, Phase.remaining] at hsum ⊢
    omega

/-- A schedule is no longer than the number of moves there were. -/
theorem length_add_remaining_le (h : ∃ m, VecInv segs m s) {schedule : List Move}
    {t : VecRequest} (hexec : exec (vectorStep segs) s schedule = some t) :
    schedule.length + t.remaining segs.length ≤ s.remaining segs.length := by
  induction schedule generalizing s with
  | nil =>
    rw [exec_nil] at hexec
    rw [← Option.some.inj hexec, List.length_nil]
    omega
  | cons move schedule ih =>
    obtain ⟨s', hs', ht⟩ := exec_cons_eq_some.mp hexec
    have hlt : s'.remaining segs.length < s.remaining segs.length := by
      obtain ⟨m, hm⟩ := h
      cases move with
      | submit => exact remaining_submitStep hs'
      | complete j => exact remaining_completeStep hm hs'
    have hle := ih (vecInv_vectorStep s move s' h hs') ht
    rw [List.length_cons]
    omega

/-! ## The result -/

/-- The request is open: no event was posted and it was not freed. -/
def VecRequest.Open (s : VecRequest) : Prop := s.posted = [] ∧ s.freed = 0

/-- `wpdk_aio_task_done` posted one event with this result and freed the request, once. -/
def VecRequest.PostedOnce (s : VecRequest) (result : ℤ) : Prop :=
  s.posted = [result] ∧ s.freed = 1

/-- `wpdk_aio_iov_abort` freed the request, once, and returned a negative `errno` value, and no
event was posted. -/
def VecRequest.AbortedOnce (s : VecRequest) : Prop :=
  s.posted = [] ∧ s.freed = 1 ∧ ∃ rc, s.pc = .aborted rc ∧ rc < 0

/-- Every segment that was issued has completed. -/
def VecRequest.AllCompleted (n : ℕ) (s : VecRequest) : Prop :=
  ∀ j < n, (s.task j).phase = .unissued ∨ (s.task j).phase = .counted

/-- **Settled exactly once with the right result.**  `step` runs a request over the segments
`segs`: in every state of every schedule it is open, or was settled in one of the two ways
after all its issued segments completed; a schedule that cannot be continued has settled it;
and no schedule goes on for ever. -/
structure SettledOnce (segs : List Segment) (step : VecRequest → Move → Option VecRequest) :
    Prop where
  safe : ∀ schedule s, exec step (aioAllocateVector segs.length) schedule = some s →
    s.Open ∨ (s.AllCompleted segs.length ∧ (s.PostedOnce (scanResult segs 0) ∨ s.AbortedOnce))
  complete : ∀ schedule s, exec step (aioAllocateVector segs.length) schedule = some s →
    (∀ move, step s move = none) → ¬ s.Open
  bounded : ∀ schedule s, exec step (aioAllocateVector segs.length) schedule = some s →
    schedule.length ≤ 3 * segs.length + 3

/-- The two ways of being settled, and being open, read off the ledger. -/
theorem VecInv.settled (h : VecInv segs m s) :
    s.Open ∨ (s.AllCompleted segs.length ∧
      (s.PostedOnce (scanResult segs 0) ∨ s.AbortedOnce)) := by
  have hl := h.ledger
  have hfacts := h.facts
  unfold Ledger at hl
  cases hpc : s.pc with
  | returned rc =>
    rw [hpc] at hl
    by_cases hzero : outstanding segs.length s.task = 0
    · simp only [if_pos hzero] at hl
      exact Or.inr ⟨outstanding_eq_zero_iff.mp hzero, Or.inl hl⟩
    · simp only [if_neg hzero] at hl
      exact Or.inl hl
  | aborted rc =>
    rw [hpc] at hl hfacts
    obtain ⟨hzero, hposted, hfreed⟩ := hl
    exact Or.inr ⟨outstanding_eq_zero_iff.mp hzero, Or.inr ⟨hposted, hfreed, rc, hpc, hfacts.1⟩⟩
  | _ => rw [hpc] at hl; exact Or.inl hl

/-- A request on which nobody can move is not open. -/
theorem VecInv.not_open_of_stuck (h : VecInv segs m s)
    (hstuck : ∀ move, vectorStep segs s move = none) : ¬ s.Open := by
  rintro ⟨hposted, hfreed⟩
  have hsubmit := hstuck .submit
  have hl := h.ledger
  unfold Ledger at hl
  simp only [vectorStep, submitStep] at hsubmit
  -- nothing is under way: a pending or stored segment could move, and an inline one is only
  -- found while the submit loop can
  have hzero : (∀ j nbytes, s.pc ≠ .transferred j nbytes) →
      outstanding segs.length s.task = 0 := by
    intro hpc
    rw [outstanding_eq_zero_iff]
    intro j hj
    have hcomplete := hstuck (.complete j)
    have hrec := h.tasks.recorded j hj
    unfold Recorded at hrec
    simp only [vectorStep, completeStep, List.getElem?_eq_getElem hj] at hcomplete
    cases hphase : (s.task j).phase with
    | unissued => exact Or.inl rfl
    | counted => exact Or.inr rfl
    | inline => exact absurd hphase (h.not_inline hpc j)
    | pending =>
      rw [hphase] at hcomplete hrec
      obtain ⟨-, -, res, hissued⟩ := hrec
      rw [hissued] at hcomplete
      cases hcomplete
    | stored =>
      rw [hphase] at hcomplete
      cases hcomplete
  cases hpc : s.pc with
  | returned rc =>
    rw [hpc] at hl
    simp only [if_pos (hzero (by simp [hpc]))] at hl
    rw [hl.2] at hfreed
    cases hfreed
  | aborted rc =>
    rw [hpc] at hl
    rw [hl.2.2] at hfreed
    cases hfreed
  | issue i =>
    simp only [hpc] at hsubmit
    cases hseg : segs[i]? with
    | none => simp [hseg] at hsubmit
    | some seg => cases hissued : seg.issued <;> simp [hseg, hissued] at hsubmit
  | transferred i nbytes =>
    have hfacts := h.facts
    rw [hpc] at hfacts
    obtain ⟨-, hi, -⟩ := hfacts
    simp only [hpc, List.getElem?_eq_getElem hi] at hsubmit
    cases hsubmit
  | short i => simp only [hpc] at hsubmit; cases hsubmit
  | abort i error => simp only [hpc] at hsubmit; cases hsubmit
  | reread i error => simp only [hpc] at hsubmit; split_ifs at hsubmit
  | giveUp i error => simp only [hpc] at hsubmit; cases hsubmit

theorem settledOnce_vectorStep (h2 : 2 ≤ segs.length) :
    SettledOnce segs (vectorStep segs) where
  safe := by
    intro schedule s hexec
    obtain ⟨m, hm⟩ := vecInv_exec h2 hexec
    exact hm.settled
  complete := by
    intro schedule s hexec hstuck
    obtain ⟨m, hm⟩ := vecInv_exec h2 hexec
    exact hm.not_open_of_stuck hstuck
  bounded := by
    intro schedule s hexec
    have hle := length_add_remaining_le ⟨0, vecInv_start h2⟩ hexec
    have hnn := s.remaining_nonneg segs.length
    have hstart : (aioAllocateVector segs.length).remaining segs.length =
        3 * segs.length + 3 := by
      have hsum : phaseSum Phase.remaining segs.length (aioAllocateVector segs.length).task = 0 :=
        Finset.sum_eq_zero fun _ _ => rfl
      unfold VecRequest.remaining
      rw [hsum]
      show 3 * ((segs.length - 0 : ℕ) : ℤ) + 3 + 0 = 3 * segs.length + 3
      omega
    omega

/-- **Vectored requests are settled exactly once with the right result**, for `wpdk_aio_readv`
and for `wpdk_aio_writev`, over every list of at least two segments, whatever the operating
system does with each of them and in whatever order the completions arrive. -/
theorem aio_vector_settled_once (os : TransferOracle) (iov : List ℕ) (h2 : 2 ≤ iov.length) :
    SettledOnce (segmentsOf os .readFile iov) (aioReadv os iov) ∧
      SettledOnce (segmentsOf os .writeFile iov) (aioWritev os iov) :=
  ⟨settledOnce_vectorStep (by rw [length_segmentsOf]; exact h2),
    settledOnce_vectorStep (by rw [length_segmentsOf]; exact h2)⟩

/-- The theorem on two segments of eight bytes, the first of which stays pending and turns out
short while the second completes inline. -/
theorem aio_vector_settled_once_two :
    let os : TransferOracle := fun _ i len =>
      if i = 0 then ⟨.later 0, Int.natCast_nonneg len⟩ else ⟨.inline len, le_rfl⟩
    SettledOnce (segmentsOf os .readFile [8, 8]) (aioReadv os [8, 8]) ∧
      SettledOnce (segmentsOf os .writeFile [8, 8]) (aioWritev os [8, 8]) :=
  aio_vector_settled_once _ _ (by decide)

end Aio
end Wpdk
