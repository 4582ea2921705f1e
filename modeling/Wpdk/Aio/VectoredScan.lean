import Mathlib.Algebra.Order.BigOperators.Group.Finset
import Wpdk.Base.Ledger
import Wpdk.Aio.Vectored

/-!
# Vectored requests: the shares and the scan

The two facts about a request that do not depend on where the submit loop stands.

The first is bookkeeping: the shares of `active` that are held by completions still under
way, as a sum over the segments (`outstanding`), and how it moves when the task of one
segment does.

The second is the scan.  `iovScan` walks the tasks and looks at what was stored in them;
`scanResult` walks the segments and looks at what happened to them.  `ScansFrom segs task i`
says that the two agree from segment `i` on.  Three lemmas establish it at one segment: a
segment that was counted passes it on, and a short or failed one stops both walks.  So it is
enough to know where the submit loop stopped (`StopsAt`).
-/

namespace Wpdk
namespace Aio

/-! ## Shares held by completions -/

/-- A segment that is issued and not yet counted holds one share of `active`. -/
def Phase.weight : Phase → ℤ
  | .inline => 1
  | .pending => 1
  | .stored => 1
  | .unissued => 0
  | .counted => 0

theorem Phase.weight_nonneg (p : Phase) : 0 ≤ p.weight := by
  cases p <;> decide

/-- The sum of a quantity that depends on the phase, over the first `n` segments. -/
def phaseSum (w : Phase → ℤ) (n : ℕ) (task : ℕ → SegTask) : ℤ :=
  ∑ j ∈ Finset.range n, w (task j).phase

theorem phaseSum_nonneg {w : Phase → ℤ} (hw : ∀ p, 0 ≤ w p) (n : ℕ) (task : ℕ → SegTask) :
    0 ≤ phaseSum w n task :=
  Finset.sum_nonneg fun j _ => hw (task j).phase

/-- Changing one task changes the sum by the change of its phase. -/
theorem phaseSum_update (w : Phase → ℤ) {n i : ℕ} (hi : i < n) (task : ℕ → SegTask)
    (t : SegTask) : phaseSum w n (Function.update task i t) =
      phaseSum w n task - w (task i).phase + w t.phase := by
  have hupdate : phaseSum w n (Function.update task i t) + w (task i).phase =
      phaseSum w n task + w t.phase := total_update (fun t : SegTask => w t.phase) task hi t
  omega

/-- The shares of the first `n` segments. -/
def outstanding (n : ℕ) (task : ℕ → SegTask) : ℤ := phaseSum Phase.weight n task

theorem outstanding_nonneg (n : ℕ) (task : ℕ → SegTask) : 0 ≤ outstanding n task :=
  phaseSum_nonneg Phase.weight_nonneg n task

theorem outstanding_update {n i : ℕ} (hi : i < n) (task : ℕ → SegTask) (t : SegTask) :
    outstanding n (Function.update task i t) =
      outstanding n task - (task i).phase.weight + t.phase.weight :=
  phaseSum_update Phase.weight hi task t

/-- No share is held exactly when every segment is unissued or counted. -/
theorem outstanding_eq_zero_iff {n : ℕ} {task : ℕ → SegTask} :
    outstanding n task = 0 ↔
      ∀ j < n, (task j).phase = .unissued ∨ (task j).phase = .counted := by
  have hweight : ∀ p : Phase, p.weight = 0 ↔ p = .unissued ∨ p = .counted := by
    intro p
    cases p <;> decide
  unfold outstanding phaseSum
  rw [Finset.sum_eq_zero_iff_of_nonneg fun j _ => (task j).phase.weight_nonneg]
  simp only [Finset.mem_range, hweight]

/-! ## What a task records -/

/-- The result that a transfer reports, when it reports one. -/
def Outcome.value? : Outcome → Option ℤ
  | .inline nbytes => some nbytes
  | .later res => some res
  | .failed _ => none

/-- A task agrees with what has happened to its segment so far. -/
def Recorded (seg : Segment) (t : SegTask) : Prop :=
  match t.phase with
  | .unissued => t.type = .iov
  | .inline => t.type = .iov ∧ t.result = seg.iovLen
  | .pending => t.type = .iov ∧ t.result = seg.iovLen ∧ ∃ res, seg.issued = .later res
  | .stored => seg.issued.value? = some t.result ∧ (t.type = .result ↔ t.result ≠ seg.iovLen)
  | .counted => seg.issued.value? = some t.result ∧ (t.type = .result ↔ t.result ≠ seg.iovLen)

/-- Storing the reported result in a task that holds the requested length. -/
theorem recorded_store {seg : Segment} {t : SegTask} {res : ℤ} {p : Phase}
    (hp : p = .stored ∨ p = .counted) (htype : t.type = .iov) (hlen : t.result = seg.iovLen)
    (hres : seg.issued.value? = some res) : Recorded seg (t.store res p) := by
  have hfacts : seg.issued.value? = some (t.store res p).result ∧
      ((t.store res p).type = .result ↔ (t.store res p).result ≠ seg.iovLen) := by
    refine ⟨hres, ?_⟩
    show (if res ≠ t.result then TaskType.result else t.type) = .result ↔ res ≠ seg.iovLen
    rw [hlen, htype]
    split_ifs with h
    · simp [h]
    · simp [h]
  rcases hp with rfl | rfl
  · exact hfacts
  · exact hfacts

/-! ## The scan -/

/-- The loop of `wpdk_aio_iov_done` agrees with the specified scan from segment `i` on. -/
def ScansFrom (segs : List Segment) (task : ℕ → SegTask) (i : ℕ) : Prop :=
  ∀ sum, 0 ≤ sum → iovScan task i (segs.length - i) sum = scanResult (segs.drop i) sum

theorem scansFrom_length (segs : List Segment) (task : ℕ → SegTask) :
    ScansFrom segs task segs.length := by
  intro sum _
  rw [Nat.sub_self, List.drop_length]
  rfl

/-- One turn of the loop, at a segment of the list. -/
theorem iovScan_at {segs : List Segment} {task : ℕ → SegTask} {i : ℕ} (hi : i < segs.length)
    {sum : ℤ} (hsum : 0 ≤ sum) :
    iovScan task i (segs.length - i) sum =
      let next := if (task i).result < 0 then (task i).result else sum + (task i).result
      if (task i).type = .result then next
      else iovScan task (i + 1) (segs.length - (i + 1)) next := by
  have hk : segs.length - i = (segs.length - (i + 1)) + 1 := by omega
  rw [hk, iovScan, if_neg (by omega)]

/-- The loop stops at a negative result. -/
theorem iovScan_neg (task : ℕ → SegTask) (i k : ℕ) {result : ℤ} (h : result < 0) :
    iovScan task i k result = result := by
  cases k with
  | zero => rfl
  | succ k => rw [iovScan, if_pos h]

/-- A counted segment: both walks stop at it, or both go on with the same sum. -/
theorem scansFrom_of_counted {segs : List Segment} {task : ℕ → SegTask} {i : ℕ}
    (hi : i < segs.length) (hcounted : (task i).phase = .counted)
    (hrec : Recorded segs[i] (task i))
    (hnext : (∀ nbytes, segs[i].issued = .inline nbytes → nbytes = segs[i].iovLen) →
      ScansFrom segs task (i + 1)) : ScansFrom segs task i := by
  intro sum hsum
  unfold Recorded at hrec
  rw [hcounted] at hrec
  obtain ⟨hvalue, htype⟩ := hrec
  have hpossible := segs[i].issued_possible
  rw [iovScan_at hi hsum, List.drop_eq_getElem_cons hi, scanResult]
  cases hissued : segs[i].issued with
  | failed error =>
    rw [hissued] at hvalue
    cases hvalue
  | inline nbytes =>
    rw [hissued] at hvalue hpossible
    have hres : (task i).result = nbytes := (Option.some.inj hvalue).symm
    have hle : nbytes ≤ segs[i].iovLen := hpossible
    have hnn : ¬ (nbytes : ℤ) < 0 := by omega
    by_cases hfull : nbytes = segs[i].iovLen
    · have htype' : ¬ (task i).type = .result := by
        rw [htype, hres, hfull]
        simp
      have hscan := hnext (fun m hm => by rw [hissued] at hm; cases hm; exact hfull)
      simp only [hres, if_neg hnn, if_neg htype']
      rw [if_neg (by omega)]
      exact hscan _ (by omega)
    · have htype' : (task i).type = .result := by
        rw [htype, hres]
        omega
      simp only [hres, if_neg hnn, if_pos htype']
      rw [if_pos (by omega)]
  | later res =>
    rw [hissued] at hvalue hpossible
    have hres : (task i).result = res := (Option.some.inj hvalue).symm
    have hle : res ≤ segs[i].iovLen := hpossible
    have hscan := hnext (fun m hm => by rw [hissued] at hm; cases hm)
    by_cases hneg : res < 0
    · have htype' : (task i).type = .result := by
        rw [htype, hres]
        omega
      simp only [hres, if_pos hneg, if_pos htype']
    · by_cases hfull : res = segs[i].iovLen
      · have htype' : ¬ (task i).type = .result := by
          rw [htype, hres, hfull]
          simp
        simp only [hres, if_neg hneg, if_neg htype']
        rw [if_neg (by omega)]
        exact hscan _ (by omega)
      · have htype' : (task i).type = .result := by
          rw [htype, hres]
          exact hfull
        simp only [hres, if_neg hneg, if_pos htype']
        rw [if_pos (by omega)]

/-- A segment that failed when it was issued stops both walks with its error. -/
theorem scansFrom_of_failed {segs : List Segment} {task : ℕ → SegTask} {i : ℕ}
    {error : WinError} (hi : i < segs.length) (hissued : segs[i].issued = .failed error)
    (hresult : (task i).result = -convertToPosix error) : ScansFrom segs task i := by
  intro sum hsum
  have hpossible := segs[i].issued_possible
  rw [hissued] at hpossible
  have hpos := convertToPosix_pos hpossible.1
  have hneg : (task i).result < 0 := by omega
  rw [iovScan_at hi hsum, List.drop_eq_getElem_cons hi, scanResult, hissued]
  simp only [if_pos hneg, iovScan_neg task _ _ hneg, ite_self]
  exact hresult

/-- Why no segment from `m` on was issued: the list ended, the segment before was short, or
segment `m` failed when it was issued. -/
def StopsAt (segs : List Segment) (task : ℕ → SegTask) (m : ℕ) : Prop :=
  m = segs.length ∨
  (∃ (i : ℕ) (hi : i < segs.length) (nbytes : ℕ), m = i + 1 ∧
    segs[i].issued = .inline nbytes ∧ nbytes ≠ segs[i].iovLen) ∨
  (∃ (hm : m < segs.length) (error : WinError),
    segs[m].issued = .failed error ∧ (task m).result = -convertToPosix error)

/-- **The posted result.**  When every issued segment is counted, the loop over the tasks
computes the specified scan of the segments. -/
theorem iovScan_eq_scanResult {segs : List Segment} {task : ℕ → SegTask} {m : ℕ}
    (hm : m ≤ segs.length) (hcounted : ∀ j < m, (task j).phase = .counted)
    (hrec : ∀ (j : ℕ) (hj : j < segs.length), Recorded segs[j] (task j))
    (hstop : StopsAt segs task m) : iovScan task 0 segs.length 0 = scanResult segs 0 := by
  -- the walks agree at some issued segment `k`, and every one before `k` passes it on
  have hk : ∃ k ≤ m, ScansFrom segs task k := by
    rcases hstop with rfl | ⟨i, hi, nbytes, rfl, hissued, hshort⟩ | ⟨hlt, error, hissued, hres⟩
    · exact ⟨_, le_rfl, scansFrom_length segs task⟩
    · refine ⟨i, Nat.le_succ i, ?_⟩
      refine scansFrom_of_counted hi (hcounted i (Nat.lt_succ_self i)) (hrec i hi) ?_
      intro hfull
      exact absurd (hfull nbytes hissued) hshort
    · exact ⟨m, le_rfl, scansFrom_of_failed hlt hissued hres⟩
  obtain ⟨k, hkm, hscan⟩ := hk
  have hzero : ScansFrom segs task 0 := by
    induction k with
    | zero => exact hscan
    | succ k ih =>
      refine ih (by omega) ?_
      exact scansFrom_of_counted (by omega) (hcounted k hkm) (hrec k (by omega))
        fun _ => hscan
  exact hzero 0 le_rfl

end Aio
end Wpdk
