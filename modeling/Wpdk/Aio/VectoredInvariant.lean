import Wpdk.Aio.VectoredScan

/-!
# Vectored requests: the invariant of the counter

The invariant that ties the counter to the two kinds of holders.  At every moment

    active = shares of the submit loop + one share for each completion under way,

where the shares of the submit loop are read off its position (`SubmitPc.shares`).  The
submit loop holds at least one share until it returns, so a completion cannot bring the
counter to zero before that; after it has returned, the counter is zero exactly when no
completion is under way.  That is the whole argument, and the amounts in which the source
gives shares back (`1`, `iovcnt - i` and `iovcnt - i + 1`) are what makes the equation hold.

* `VecInv`: the invariant, with the number `m` of segments issued so far.
* `vecInv_settle`: the one lemma about the last share.
* `vecInv_submitStep`, `vecInv_completeStep`: one step keeps it.
-/

namespace Wpdk
namespace Aio

/-! ## The invariant -/

/-- The shares of `active` that the submit loop holds. -/
def SubmitPc.shares (n : ℕ) : SubmitPc → ℤ
  | .issue i => n - i + 1
  | .transferred i _ => n - i
  | .short i => n - i
  | .abort i _ => n - i + 1
  | .reread _ _ => 1
  | .giveUp _ _ => 1
  | .returned _ => 0
  | .aborted _ => 1

/-- What is known of the segments at each position of the submit loop. -/
def PcFacts (segs : List Segment) (task : ℕ → SegTask) (m : ℕ) : SubmitPc → Prop
  | .issue i => m = i
  | .transferred i nbytes => m = i + 1 ∧ ∃ hi : i < segs.length,
      segs[i].issued = .inline nbytes ∧ (task i).phase = .inline
  | .short i => m = i + 1 ∧ ∃ (hi : i < segs.length) (nbytes : ℕ),
      segs[i].issued = .inline nbytes ∧ nbytes ≠ segs[i].iovLen
  | .abort i error => m = i ∧ ∃ hi : i < segs.length, segs[i].issued = .failed error
  | .reread i error => m = i ∧ ∃ hi : i < segs.length,
      segs[i].issued = .failed error ∧ (task i).result = -convertToPosix error
  | .giveUp i error => m = i ∧ ∃ hi : i < segs.length,
      segs[i].issued = .failed error ∧ (task i).result = -convertToPosix error
  | .returned _ => StopsAt segs task m
  | .aborted rc => rc < 0 ∧ ∃ (hm : m < segs.length) (error : WinError),
      segs[m].issued = .failed error

/-- The tasks of a request of which `m` segments were issued. -/
structure TaskInv (segs : List Segment) (m : ℕ) (task : ℕ → SegTask) : Prop where
  le : m ≤ segs.length
  issued : ∀ j < m, (task j).phase ≠ .unissued
  unissued : ∀ j, m ≤ j → (task j).phase = .unissued
  recorded : ∀ (j : ℕ) (hj : j < segs.length), Recorded segs[j] (task j)

/-- What has come of the request, by the position of the submit loop. -/
def Ledger (segs : List Segment) (s : VecRequest) : Prop :=
  match s.pc with
  | .returned _ =>
    if outstanding segs.length s.task = 0 then s.posted = [scanResult segs 0] ∧ s.freed = 1
    else s.posted = [] ∧ s.freed = 0
  | .aborted _ => outstanding segs.length s.task = 0 ∧ s.posted = [] ∧ s.freed = 1
  | _ => s.posted = [] ∧ s.freed = 0

/-- The invariant of a request of which `m` segments were issued. -/
structure VecInv (segs : List Segment) (m : ℕ) (s : VecRequest) : Prop where
  tasks : TaskInv segs m s.task
  inline_pc : ∀ j, (s.task j).phase = .inline → ∃ nbytes, s.pc = .transferred j nbytes
  facts : PcFacts segs s.task m s.pc
  active_eq : s.active = s.pc.shares segs.length + outstanding segs.length s.task
  ledger : Ledger segs s

variable {segs : List Segment} {m : ℕ} {s : VecRequest}

/-- Rewriting the task of one segment, which is issued by that if it counts among the first
`m'`. -/
theorem TaskInv.set {task : ℕ → SegTask} (h : TaskInv segs m task) {m' i : ℕ} {t : SegTask}
    (hle : m' ≤ segs.length) (hrest : ∀ j, j ≠ i → (j < m' ↔ j < m))
    (hphase : t.phase ≠ .unissued ↔ i < m')
    (hrec : ∀ hi : i < segs.length, Recorded segs[i] t) :
    TaskInv segs m' (Function.update task i t) where
  le := hle
  issued := by
    intro j hj
    by_cases hji : j = i
    · subst hji
      rw [Function.update_self]
      exact hphase.mpr hj
    · rw [Function.update_of_ne hji]
      exact h.issued j ((hrest j hji).mp hj)
  unissued := by
    intro j hj
    by_cases hji : j = i
    · subst hji
      rw [Function.update_self]
      by_contra hne
      exact absurd (hphase.mp hne) (Nat.not_lt.mpr hj)
    · rw [Function.update_of_ne hji]
      exact h.unissued j (Nat.not_lt.mp fun hlt => absurd ((hrest j hji).mpr hlt) (by omega))
  recorded := by
    intro j hj
    by_cases hji : j = i
    · subst hji
      rw [Function.update_self]
      exact hrec hj
    · rw [Function.update_of_ne hji]
      exact h.recorded j hj

/-- Rewriting the task of a segment that was issued before. -/
theorem TaskInv.update {task : ℕ → SegTask} (h : TaskInv segs m task) {i : ℕ} (him : i < m)
    (hi : i < segs.length) {t : SegTask} (hphase : t.phase ≠ .unissued)
    (hrec : Recorded segs[i] t) : TaskInv segs m (Function.update task i t) :=
  h.set h.le (fun _ _ => Iff.rfl) (iff_of_true hphase him) fun _ => hrec

/-- Issuing the next segment. -/
theorem TaskInv.issue {task : ℕ → SegTask} (h : TaskInv segs m task) (hm : m < segs.length)
    {t : SegTask} (hphase : t.phase ≠ .unissued) (hrec : Recorded segs[m] t) :
    TaskInv segs (m + 1) (Function.update task m t) :=
  h.set hm (by omega) (iff_of_true hphase (Nat.lt_succ_self m)) fun _ => hrec

/-- Writing the result of a segment that was not issued. -/
theorem TaskInv.reject {task : ℕ → SegTask} (h : TaskInv segs m task) {t : SegTask}
    (hphase : t.phase = .unissued) (htype : t.type = .iov) :
    TaskInv segs m (Function.update task m t) := by
  refine h.set h.le (fun _ _ => Iff.rfl) (iff_of_false (by simp [hphase]) (Nat.lt_irrefl m))
    fun _ => ?_
  unfold Recorded
  rw [hphase]
  exact htype

/-- No segment comes to phase `p` when the one that is written does not. -/
theorem phase_update_ne {task : ℕ → SegTask} {i : ℕ} {t : SegTask} {p : Phase}
    (ht : t.phase ≠ p) (hrest : ∀ j, j ≠ i → (task j).phase ≠ p) (j : ℕ) :
    (Function.update task i t j).phase ≠ p := by
  by_cases hji : j = i
  · rw [hji, Function.update_self]
    exact ht
  · rw [Function.update_of_ne hji]
    exact hrest j hji

/-- The task of a segment that was not issued still points to `iov`. -/
theorem TaskInv.type_of_ge {task : ℕ → SegTask} (h : TaskInv segs m task) {i : ℕ}
    (him : m ≤ i) (hi : i < segs.length) : (task i).type = .iov := by
  have hrec := h.recorded i hi
  unfold Recorded at hrec
  rw [h.unissued i him] at hrec
  exact hrec

/-- With no share held by a completion, every issued segment is counted. -/
theorem TaskInv.counted {task : ℕ → SegTask} (h : TaskInv segs m task)
    (hzero : outstanding segs.length task = 0) {j : ℕ} (hj : j < m) :
    (task j).phase = .counted := by
  have hle := h.le
  rcases outstanding_eq_zero_iff.mp hzero j (by omega) with hun | hc
  · exact absurd hun (h.issued j hj)
  · exact hc

/-- The submit loop holds a share until it returns. -/
theorem VecInv.one_le_shares (h : VecInv segs m s) (hpc : ∀ rc, s.pc ≠ .returned rc) :
    1 ≤ s.pc.shares segs.length := by
  have hfacts := h.facts
  have hle := h.tasks.le
  cases hs : s.pc with
  | issue i =>
    rw [hs] at hfacts
    have hmi : m = i := hfacts
    show (1 : ℤ) ≤ segs.length - i + 1
    omega
  | transferred i nbytes =>
    rw [hs] at hfacts
    obtain ⟨-, hi, -⟩ := hfacts
    show (1 : ℤ) ≤ segs.length - i
    omega
  | short i =>
    rw [hs] at hfacts
    obtain ⟨-, hi, -⟩ := hfacts
    show (1 : ℤ) ≤ segs.length - i
    omega
  | abort i error =>
    rw [hs] at hfacts
    obtain ⟨-, hi, -⟩ := hfacts
    show (1 : ℤ) ≤ segs.length - i + 1
    omega
  | reread i error => exact le_rfl
  | giveUp i error => exact le_rfl
  | returned rc => exact absurd hs (hpc rc)
  | aborted rc => exact le_rfl

/-! ## Giving shares back -/

@[simp] theorem aioIovDone_task (n : ℕ) (count : ℤ) (s : VecRequest) :
    (aioIovDone n count s).task = s.task := by
  unfold aioIovDone
  split_ifs <;> rfl

@[simp] theorem aioIovDone_pc (n : ℕ) (count : ℤ) (s : VecRequest) :
    (aioIovDone n count s).pc = s.pc := by
  unfold aioIovDone
  split_ifs <;> rfl

theorem aioIovDone_of_ne {n : ℕ} {count : ℤ} {s : VecRequest} (h : s.active - count ≠ 0) :
    aioIovDone n count s = { s with active := s.active - count } := if_neg h

theorem aioIovDone_of_eq {n : ℕ} {count : ℤ} {s : VecRequest} (h : s.active - count = 0) :
    aioIovDone n count s = { s with
      active := 0
      posted := s.posted ++ [iovScan s.task 0 n 0]
      freed := s.freed + 1 } := if_pos h

/-- **The last share but those of completions.**  When the submit loop gives back all it
holds, or a completion does after the loop has returned, the request is settled exactly if
no completion is under way. -/
theorem vecInv_settle {count : ℤ} (htasks : TaskInv segs m s.task)
    (hinline : ∀ j, (s.task j).phase ≠ .inline) (hstop : StopsAt segs s.task m)
    (hactive : s.active = count + outstanding segs.length s.task) (hposted : s.posted = [])
    (hfreed : s.freed = 0) (rc : ℤ) :
    VecInv segs m { aioIovDone segs.length count s with pc := .returned rc } := by
  by_cases hzero : outstanding segs.length s.task = 0
  · have hscan := iovScan_eq_scanResult htasks.le (fun j hj => htasks.counted hzero hj)
      htasks.recorded hstop
    rw [aioIovDone_of_eq (by omega)]
    refine ⟨htasks, fun j hj => absurd hj (hinline j), hstop, ?_, ?_⟩
    · show (0 : ℤ) = 0 + outstanding segs.length s.task
      omega
    · show if outstanding segs.length s.task = 0 then _ else _
      rw [if_pos hzero, hposted, hfreed, hscan]
      exact ⟨rfl, rfl⟩
  · rw [aioIovDone_of_ne (by omega)]
    refine ⟨htasks, fun j hj => absurd hj (hinline j), hstop, ?_, ?_⟩
    · show s.active - count = 0 + outstanding segs.length s.task
      omega
    · show if outstanding segs.length s.task = 0 then _ else _
      rw [if_neg hzero]
      exact ⟨hposted, hfreed⟩

/-- No transfer is being recorded by the submit loop unless it is at that step. -/
theorem VecInv.not_inline (h : VecInv segs m s) (hpc : ∀ j nbytes, s.pc ≠ .transferred j nbytes)
    (j : ℕ) : (s.task j).phase ≠ .inline := by
  intro hj
  obtain ⟨nbytes, hs⟩ := h.inline_pc j hj
  exact hpc j nbytes hs

theorem vecInv_start (h2 : 2 ≤ segs.length) :
    VecInv segs 0 (aioAllocateVector segs.length) where
  tasks :=
    { le := Nat.zero_le _
      issued := fun j hj => absurd hj (Nat.not_lt_zero j)
      unissued := fun _ _ => rfl
      recorded := fun _ _ => rfl }
  inline_pc := fun j hj => absurd hj (by simp [aioAllocateVector])
  facts := rfl
  active_eq := by
    have hout : outstanding segs.length (aioAllocateVector segs.length).task = 0 :=
      outstanding_eq_zero_iff.mpr fun _ _ => Or.inl rfl
    rw [hout]
    show (if segs.length > 1 then (segs.length : ℤ) + 1 else 0) = segs.length - 0 + 1 + 0
    rw [if_pos (show segs.length > 1 from h2)]
    omega
  ledger := ⟨rfl, rfl⟩

/-! ## One step -/

/-- The ledger before the submit loop returns. -/
theorem VecInv.open_ledger (h : VecInv segs m s) (hret : ∀ rc, s.pc ≠ .returned rc)
    (habort : ∀ rc, s.pc ≠ .aborted rc) : s.posted = [] ∧ s.freed = 0 := by
  have hl := h.ledger
  unfold Ledger at hl
  cases hs : s.pc with
  | returned rc => exact absurd hs (hret rc)
  | aborted rc => exact absurd hs (habort rc)
  | _ => rw [hs] at hl; exact hl

/-- What is known at a position of the submit loop from which it goes on. -/
theorem VecInv.at_pc (h : VecInv segs m s) {pc : SubmitPc} (hpc : s.pc = pc)
    (hret : ∀ rc, pc ≠ .returned rc) (habort : ∀ rc, pc ≠ .aborted rc) :
    PcFacts segs s.task m pc ∧
      s.active = pc.shares segs.length + outstanding segs.length s.task ∧
      s.posted = [] ∧ s.freed = 0 := by
  subst hpc
  exact ⟨h.facts, h.active_eq, h.open_ledger hret habort⟩

theorem vecInv_issue {i : ℕ} (h : VecInv segs m s) (hpc : s.pc = .issue i) {s' : VecRequest}
    (hstep : submitStep segs s = some s') : ∃ m', VecInv segs m' s' := by
  obtain ⟨hfacts, hactive, hposted, hfreed⟩ := h.at_pc hpc (by simp) (by simp)
  have hinline := h.not_inline (by simp [hpc])
  obtain rfl : m = i := hfacts
  change s.active = segs.length - m + 1 + outstanding segs.length s.task at hactive
  have hle := h.tasks.le
  unfold submitStep at hstep
  rw [hpc] at hstep
  by_cases hm : m < segs.length
  · have htype := h.tasks.type_of_ge le_rfl hm
    have hun := h.tasks.unissued m le_rfl
    simp only [List.getElem?_eq_getElem hm] at hstep
    -- any transfer that the system accepts takes over one share from the loop
    have hout : ∀ (r : ℤ) (p : Phase), outstanding segs.length
        (Function.update s.task m ⟨(s.task m).type, r, p⟩) =
          outstanding segs.length s.task + p.weight := by
      intro r p
      rw [outstanding_update hm, hun]
      show _ - 0 + p.weight = _
      omega
    cases hissued : segs[m].issued with
    | inline nbytes =>
      rw [hissued] at hstep
      obtain rfl := Option.some.inj hstep
      refine ⟨m + 1, ⟨?_, ?_, ?_, ?_, ⟨hposted, hfreed⟩⟩⟩
      · exact h.tasks.issue hm (by simp) ⟨htype, rfl⟩
      · intro j hj
        by_cases hjm : j = m
        · exact ⟨nbytes, by rw [hjm]⟩
        · refine absurd ?_ (hinline j)
          rw [← hj]
          show _ = (Function.update s.task m _ j).phase
          rw [Function.update_of_ne hjm]
      · refine ⟨rfl, hm, hissued, ?_⟩
        show (Function.update s.task m _ m).phase = .inline
        rw [Function.update_self]
      · show s.active = segs.length - m + outstanding segs.length (Function.update s.task m _)
        rw [hout]
        show _ = _ + (_ + 1)
        omega
    | later res =>
      rw [hissued] at hstep
      obtain rfl := Option.some.inj hstep
      refine ⟨m + 1, ⟨?_, ?_, rfl, ?_, ⟨hposted, hfreed⟩⟩⟩
      · exact h.tasks.issue hm (by simp) ⟨htype, rfl, res, hissued⟩
      · exact fun j hj => absurd hj (phase_update_ne (by simp) (fun j _ => hinline j) j)
      · show s.active = segs.length - ((m + 1 : ℕ) : ℤ) + 1 +
          outstanding segs.length (Function.update s.task m _)
        rw [hout]
        show _ = _ + (_ + 1)
        omega
    | failed error =>
      rw [hissued] at hstep
      obtain rfl := Option.some.inj hstep
      refine ⟨m, ⟨h.tasks.reject rfl htype, ?_, ⟨rfl, hm, hissued⟩, ?_, ⟨hposted, hfreed⟩⟩⟩
      · exact fun j hj => absurd hj (phase_update_ne (by simp) (fun j _ => hinline j) j)
      · show s.active = segs.length - m + 1 +
          outstanding segs.length (Function.update s.task m _)
        rw [hout]
        show _ = _ + (_ + 0)
        omega
  · have hmn : m = segs.length := by omega
    simp only [List.getElem?_eq_none (Nat.le_of_not_lt hm)] at hstep
    obtain rfl := Option.some.inj hstep
    exact ⟨m, vecInv_settle h.tasks hinline (Or.inl hmn) (by omega) hposted hfreed 0⟩

theorem vecInv_transferred {i nbytes : ℕ} (h : VecInv segs m s)
    (hpc : s.pc = .transferred i nbytes) {s' : VecRequest}
    (hstep : submitStep segs s = some s') : VecInv segs m s' := by
  obtain ⟨hfacts, hactive, hposted, hfreed⟩ := h.at_pc hpc (by simp) (by simp)
  obtain ⟨rfl, hi, hissued, hphase⟩ := hfacts
  change s.active = segs.length - i + outstanding segs.length s.task at hactive
  have hrec := h.tasks.recorded i hi
  unfold Recorded at hrec
  rw [hphase] at hrec
  obtain ⟨htype, hresult⟩ := hrec
  unfold submitStep at hstep
  rw [hpc] at hstep
  simp only [List.getElem?_eq_getElem hi, Option.map_some] at hstep
  obtain rfl := Option.some.inj hstep
  have hstored : Recorded segs[i] ((s.task i).store nbytes .counted) :=
    recorded_store (Or.inr rfl) htype hresult (by rw [hissued]; rfl)
  have htasks := h.tasks.update (Nat.lt_succ_self i) hi
    (t := (s.task i).store nbytes .counted) (by simp [SegTask.store]) hstored
  have hout := outstanding_update hi s.task ((s.task i).store nbytes .counted)
  rw [hphase] at hout
  change _ = outstanding segs.length s.task - 1 + 0 at hout
  have hnn := outstanding_nonneg segs.length
    (Function.update s.task i ((s.task i).store nbytes .counted))
  have hne : (s.setTask i ((s.task i).store nbytes .counted)).active - 1 ≠ 0 := by
    show s.active - 1 ≠ 0
    omega
  rw [aioIovDone_of_ne hne]
  have hinline : ∀ j, (Function.update s.task i ((s.task i).store nbytes .counted) j).phase ≠
      .inline := by
    refine phase_update_ne (by simp [SegTask.store]) fun j hji hj => ?_
    obtain ⟨b, hb⟩ := h.inline_pc j hj
    rw [hpc] at hb
    cases hb
    exact hji rfl
  by_cases hshort : nbytes ≠ segs[i].iovLen
  · simp only [if_pos hshort]
    refine ⟨htasks, fun j hj => absurd hj (hinline j), ⟨rfl, hi, nbytes, hissued, hshort⟩, ?_,
      ⟨hposted, hfreed⟩⟩
    show s.active - 1 = segs.length - i + outstanding segs.length (Function.update s.task i _)
    rw [hout]
    omega
  · simp only [if_neg hshort]
    refine ⟨htasks, fun j hj => absurd hj (hinline j), rfl, ?_, ⟨hposted, hfreed⟩⟩
    show s.active - 1 = segs.length - ((i + 1 : ℕ) : ℤ) + 1 +
      outstanding segs.length (Function.update s.task i _)
    rw [hout]
    omega

theorem vecInv_abort {i : ℕ} {error : WinError} (h : VecInv segs m s)
    (hpc : s.pc = .abort i error) {s' : VecRequest} (hstep : submitStep segs s = some s') :
    VecInv segs m s' := by
  obtain ⟨hfacts, hactive, hposted, hfreed⟩ := h.at_pc hpc (by simp) (by simp)
  have hinline := h.not_inline (by simp [hpc])
  obtain ⟨rfl, hi, hissued⟩ := hfacts
  change s.active = segs.length - m + 1 + outstanding segs.length s.task at hactive
  have hnn := outstanding_nonneg segs.length s.task
  have hun := h.tasks.unissued m le_rfl
  unfold submitStep at hstep
  rw [hpc] at hstep
  obtain rfl := Option.some.inj hstep
  have hne : (s.setTask m { s.task m with result := -convertToPosix error }).active -
      (segs.length - m) ≠ 0 := by
    show s.active - (segs.length - m) ≠ 0
    omega
  rw [aioIovDone_of_ne hne]
  have hout := outstanding_update hi s.task { s.task m with result := -convertToPosix error }
  change _ = outstanding segs.length s.task - (s.task m).phase.weight + (s.task m).phase.weight
    at hout
  refine ⟨h.tasks.reject hun (h.tasks.type_of_ge le_rfl hi), ?_, ?_, ?_, ⟨hposted, hfreed⟩⟩
  · refine fun j hj => absurd hj (phase_update_ne ?_ (fun j _ => hinline j) j)
    exact hinline m
  · refine ⟨rfl, hi, hissued, ?_⟩
    show (Function.update s.task m _ m).result = -convertToPosix error
    rw [Function.update_self]
  · show s.active - (segs.length - m) = 1 +
      outstanding segs.length (Function.update s.task m _)
    rw [hout]
    omega

theorem vecInv_reread {i : ℕ} {error : WinError} (h : VecInv segs m s)
    (hpc : s.pc = .reread i error) {s' : VecRequest} (hstep : submitStep segs s = some s') :
    VecInv segs m s' := by
  obtain ⟨hfacts, hactive, hposted, hfreed⟩ := h.at_pc hpc (by simp) (by simp)
  have hinline := h.not_inline (by simp [hpc])
  obtain ⟨rfl, hi, hissued, hresult⟩ := hfacts
  change s.active = 1 + outstanding segs.length s.task at hactive
  have hpossible := segs[m].issued_possible
  rw [hissued] at hpossible
  have hpos := convertToPosix_pos hpossible.1
  unfold submitStep at hstep
  rw [hpc] at hstep
  by_cases hone : s.active = 1
  · -- nobody else is left: the request is freed here and nothing is posted
    simp only [if_pos hone] at hstep
    obtain rfl := Option.some.inj hstep
    refine ⟨h.tasks, fun j hj => absurd hj (hinline j), ⟨?_, hi, error, hissued⟩, hactive, ?_⟩
    · show -(convertToPosix error : ℤ) < 0
      omega
    · refine ⟨?_, hposted, ?_⟩
      · show outstanding segs.length s.task = 0
        omega
      · show s.freed + 1 = 1
        omega
  · simp only [if_neg hone] at hstep
    obtain rfl := Option.some.inj hstep
    exact ⟨h.tasks, fun j hj => absurd hj (hinline j), ⟨rfl, hi, hissued, hresult⟩, hactive,
      ⟨hposted, hfreed⟩⟩

/-- **One step of the submit loop keeps the invariant.** -/
theorem vecInv_submitStep (h : VecInv segs m s) {s' : VecRequest}
    (hstep : submitStep segs s = some s') : ∃ m', VecInv segs m' s' := by
  cases hpc : s.pc with
  | issue i => exact vecInv_issue h hpc hstep
  | transferred i nbytes => exact ⟨m, vecInv_transferred h hpc hstep⟩
  | abort i error => exact ⟨m, vecInv_abort h hpc hstep⟩
  | reread i error => exact ⟨m, vecInv_reread h hpc hstep⟩
  | short i =>
    obtain ⟨hfacts, hactive, hposted, hfreed⟩ := h.at_pc hpc (by simp) (by simp)
    have hinline := h.not_inline (by simp [hpc])
    obtain ⟨rfl, hi, nbytes, hissued, hshort⟩ := hfacts
    unfold submitStep at hstep
    rw [hpc] at hstep
    obtain rfl := Option.some.inj hstep
    exact ⟨i + 1, vecInv_settle h.tasks hinline
      (Or.inr (Or.inl ⟨i, hi, nbytes, rfl, hissued, hshort⟩)) hactive hposted hfreed 0⟩
  | giveUp i error =>
    obtain ⟨hfacts, hactive, hposted, hfreed⟩ := h.at_pc hpc (by simp) (by simp)
    have hinline := h.not_inline (by simp [hpc])
    obtain ⟨rfl, hi, hissued, hresult⟩ := hfacts
    unfold submitStep at hstep
    rw [hpc] at hstep
    obtain rfl := Option.some.inj hstep
    exact ⟨m, vecInv_settle h.tasks hinline (Or.inr (Or.inr ⟨hi, error, hissued, hresult⟩))
      hactive hposted hfreed _⟩
  | returned rc =>
    unfold submitStep at hstep
    rw [hpc] at hstep
    cases hstep
  | aborted rc =>
    unfold submitStep at hstep
    rw [hpc] at hstep
    cases hstep

/-- What is known at a position of the submit loop does not depend on the task of a segment
that another thread completes. -/
theorem PcFacts.update {task : ℕ → SegTask} {pc : SubmitPc} (h : PcFacts segs task m pc) {j : ℕ}
    (hjm : j < m) (hj : (task j).phase ≠ .inline) (t : SegTask) :
    PcFacts segs (Function.update task j t) m pc := by
  cases pc with
  | issue i => exact h
  | transferred i nbytes =>
    obtain ⟨hm, hi, hissued, hphase⟩ := h
    have hij : i ≠ j := by
      rintro rfl
      exact hj hphase
    exact ⟨hm, hi, hissued, by rw [Function.update_of_ne hij]; exact hphase⟩
  | short i => exact h
  | abort i error => exact h
  | reread i error =>
    obtain ⟨rfl, hi, hissued, hresult⟩ := h
    exact ⟨rfl, hi, hissued, by rw [Function.update_of_ne (by omega)]; exact hresult⟩
  | giveUp i error =>
    obtain ⟨rfl, hi, hissued, hresult⟩ := h
    exact ⟨rfl, hi, hissued, by rw [Function.update_of_ne (by omega)]; exact hresult⟩
  | returned rc =>
    rcases h with hlen | hshort | ⟨hm, error, hissued, hresult⟩
    · exact Or.inl hlen
    · exact Or.inr (Or.inl hshort)
    · exact Or.inr (Or.inr ⟨hm, error, hissued,
        by rw [Function.update_of_ne (by omega)]; exact hresult⟩)
  | aborted rc => exact h

/-- While a completion is under way the request is not settled. -/
theorem VecInv.open_of_outstanding (h : VecInv segs m s)
    (hout : outstanding segs.length s.task ≠ 0) :
    s.posted = [] ∧ s.freed = 0 ∧ ∀ rc, s.pc ≠ .aborted rc := by
  have hl := h.ledger
  unfold Ledger at hl
  cases hs : s.pc with
  | returned rc =>
    rw [hs] at hl
    simp only [if_neg hout] at hl
    exact ⟨hl.1, hl.2, fun _ => by simp⟩
  | aborted rc =>
    rw [hs] at hl
    exact absurd hl.1 hout
  | _ => rw [hs] at hl; exact ⟨hl.1, hl.2, fun _ => by simp⟩

theorem VecInv.ledger_of_open (hret : ∀ rc, s.pc ≠ .returned rc)
    (habort : ∀ rc, s.pc ≠ .aborted rc) (hposted : s.posted = []) (hfreed : s.freed = 0) :
    Ledger segs s := by
  unfold Ledger
  cases hs : s.pc with
  | returned rc => exact absurd hs (hret rc)
  | aborted rc => exact absurd hs (habort rc)
  | _ => exact ⟨hposted, hfreed⟩

/-- The two steps of a completion, on the tasks: neither leaves the segment unissued, and
both leave the record of what happened to it right. -/
theorem completeStep_cases {j : ℕ} (h : VecInv segs m s) {s' : VecRequest}
    (hstep : completeStep segs j s = some s') :
    ∃ (hj : j < segs.length) (t : SegTask), j < m ∧ Recorded segs[j] t ∧
      (((s.task j).phase = .pending ∧ t.phase = .stored ∧ s' = s.setTask j t) ∨
        ((s.task j).phase = .stored ∧ t.phase = .counted ∧
          s' = aioIovDone segs.length 1 (s.setTask j t))) := by
  unfold completeStep at hstep
  by_cases hj : j < segs.length
  · have hrec := h.tasks.recorded j hj
    unfold Recorded at hrec
    simp only [List.getElem?_eq_getElem hj] at hstep
    have hjm : (s.task j).phase ≠ .unissued → j < m := by
      intro hne
      by_contra hge
      exact hne (h.tasks.unissued j (Nat.le_of_not_lt hge))
    cases hphase : (s.task j).phase with
    | unissued => rw [hphase] at hstep; cases hstep
    | inline => rw [hphase] at hstep; cases hstep
    | counted => rw [hphase] at hstep; cases hstep
    | pending =>
      rw [hphase] at hstep hrec
      obtain ⟨htype, hresult, res, hissued⟩ := hrec
      rw [hissued] at hstep
      refine ⟨hj, (s.task j).store res .stored, hjm (by simp [hphase]), ?_,
        Or.inl ⟨rfl, rfl, (Option.some.inj hstep).symm⟩⟩
      exact recorded_store (Or.inl rfl) htype hresult (by rw [hissued]; rfl)
    | stored =>
      rw [hphase] at hstep hrec
      refine ⟨hj, { s.task j with phase := .counted }, hjm (by simp [hphase]), hrec,
        Or.inr ⟨rfl, rfl, ?_⟩⟩
      exact (Option.some.inj hstep).symm
  · simp only [List.getElem?_eq_none (Nat.le_of_not_lt hj)] at hstep
    cases hstep

/-- **One step of a completion keeps the invariant.** -/
theorem vecInv_completeStep {j : ℕ} (h : VecInv segs m s) {s' : VecRequest}
    (hstep : completeStep segs j s = some s') : VecInv segs m s' := by
  obtain ⟨hj, t, hjm, hrec, hcases⟩ := completeStep_cases h hstep
  have hweight : (s.task j).phase.weight = 1 := by
    rcases hcases with ⟨hp, -⟩ | ⟨hp, -⟩ <;> rw [hp] <;> rfl
  have hinl : (s.task j).phase ≠ .inline := by
    rcases hcases with ⟨hp, -⟩ | ⟨hp, -⟩ <;> rw [hp] <;> simp
  have hactive := h.active_eq
  have hnn := outstanding_nonneg segs.length (Function.update s.task j t)
  have hout := outstanding_update hj s.task t
  rw [hweight] at hout
  -- the completion itself is under way, so nothing has been settled before this step
  have hne : outstanding segs.length s.task ≠ 0 := by
    intro hzero
    rcases outstanding_eq_zero_iff.mp hzero j hj with hp | hp <;> rw [hp] at hweight <;>
      cases hweight
  obtain ⟨hposted, hfreed, habort⟩ := h.open_of_outstanding hne
  have hphase : t.phase ≠ .unissued ∧ t.phase ≠ .inline := by
    rcases hcases with ⟨-, ht, -⟩ | ⟨-, ht, -⟩ <;> rw [ht] <;> simp
  have htasks := h.tasks.update hjm hj hphase.1 hrec
  have hfacts := h.facts.update hjm hinl t
  have hinline : ∀ k, (Function.update s.task j t k).phase = .inline →
      ∃ nbytes, s.pc = .transferred k nbytes := by
    intro k hk
    by_cases hkj : k = j
    · rw [hkj, Function.update_self] at hk
      exact absurd hk hphase.2
    · rw [Function.update_of_ne hkj] at hk
      exact h.inline_pc k hk
  rcases hcases with ⟨-, ht, rfl⟩ | ⟨-, ht, rfl⟩
  · rw [ht] at hout
    change _ = outstanding segs.length s.task - 1 + 1 at hout
    have hsame : outstanding segs.length (Function.update s.task j t) =
        outstanding segs.length s.task := by omega
    refine ⟨htasks, hinline, hfacts, ?_, ?_⟩
    · show s.active = _ + outstanding segs.length (Function.update s.task j t)
      rw [hsame]
      exact hactive
    · have hl := h.ledger
      unfold Ledger at hl ⊢
      change match s.pc with
        | .returned _ => if outstanding segs.length (Function.update s.task j t) = 0
            then _ else _
        | .aborted _ => outstanding segs.length (Function.update s.task j t) = 0 ∧ _
        | _ => _
      rw [hsame]
      exact hl
  · rw [ht] at hout
    change _ = outstanding segs.length s.task - 1 + 0 at hout
    by_cases hret : ∃ rc, s.pc = .returned rc
    · obtain ⟨rc, hrc⟩ := hret
      rw [hrc] at hactive hfacts hinline
      have hkeep : aioIovDone segs.length 1 (s.setTask j t) =
          { aioIovDone segs.length 1 (s.setTask j t) with pc := .returned rc } := by
        have hpc := aioIovDone_pc segs.length 1 (s.setTask j t)
        rw [show (s.setTask j t).pc = .returned rc from hrc] at hpc
        rw [← hpc]
      rw [hkeep]
      refine vecInv_settle (s := s.setTask j t) htasks ?_ hfacts ?_ hposted hfreed rc
      · intro k hk
        obtain ⟨nbytes, hb⟩ := hinline k hk
        cases hb
      · show s.active = 1 + outstanding segs.length (Function.update s.task j t)
        change s.active = 0 + outstanding segs.length s.task at hactive
        omega
    · have hret' : ∀ rc, s.pc ≠ .returned rc := fun rc hrc => hret ⟨rc, hrc⟩
      have hshare := h.one_le_shares hret'
      have hne' : (s.setTask j t).active - 1 ≠ 0 := by
        show s.active - 1 ≠ 0
        omega
      rw [aioIovDone_of_ne hne']
      refine ⟨htasks, hinline, hfacts, ?_, ?_⟩
      · show s.active - 1 = _ + outstanding segs.length (Function.update s.task j t)
        rw [hout, hactive]
        show _ = s.pc.shares segs.length + _
        omega
      · exact VecInv.ledger_of_open hret' habort hposted hfreed

end Aio
end Wpdk
