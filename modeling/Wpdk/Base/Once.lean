import Mathlib.Logic.Function.Basic
import Wpdk.Base.Run

/-!
# Initialising once

Threads share a value that is built by whichever of them needs it first.  A thread tests a flag; if
it is not set, the thread takes a lock and tests the flag again; if it is still not set, the thread
does the jobs that build the value, one at a time, and sets the flag; and it gives the lock back.
Only the second test is made under the lock.

* `Plan`: the value before the first job, and the jobs.
* `Phase`, `advance`: where a thread is, and its next step.  A thread that is not initialising has
  no phase.
* `Inv`: the lock is held by the one thread whose phase says so, and that phase tells how much of
  the value has been built.
* `Inv.advance`, `Inv.release`: kept by a step, and by a thread that comes or goes without the lock.
* `Inv.value_of_ready`, `Inv.ready_of_advance`: a thread that is through finds the flag set, and the
  value complete.
* `Inv.exists_advance`, `weight_advance_lt`: some thread can always take a step, and a step brings
  its thread nearer to the end.
* `length_le_of_exec`: what that says about the length of a run.
-/

namespace Wpdk
namespace Once

variable {τ ι : Type*}

/-- What is to be built: the value at first, and the jobs that are done on it. -/
structure Plan (τ ι : Type*) where
  blank : τ
  jobs : List ι
  act : τ → ι → τ

/-- The value after the first `k` jobs. -/
def Plan.after (P : Plan τ ι) (k : ℕ) : τ := (P.jobs.take k).foldl P.act P.blank

/-- The value after all of them. -/
def Plan.built (P : Plan τ ι) : τ := P.jobs.foldl P.act P.blank

/-- About to test the flag, to take the lock, to test the flag again, to do job `k`, or to give the
lock back. -/
inductive Phase where
  | test
  | acquire
  | retest
  | build (k : ℕ)
  | release
deriving DecidableEq

/-- The thread has the lock. -/
def Phase.holds : Phase → Bool
  | .test | .acquire => false
  | .retest | .build _ | .release => true

/-- What the threads share. -/
structure Shared (τ : Type*) where
  value : τ
  ready : Bool
  lock : Option ℕ

/-- The next step of thread `c`, with its next phase if it is not through.  A thread waits for the
lock as long as there is no step. -/
def advance (P : Plan τ ι) (c : ℕ) (x : Shared τ) : Phase → Option (Shared τ × Option Phase)
  | .test => some (x, if x.ready then none else some .acquire)
  | .acquire => if x.lock = none then some ({ x with lock := some c }, some .retest) else none
  | .retest => some (x, some (if x.ready then .release else .build 0))
  | .build k =>
    match P.jobs[k]? with
    | some job => some ({ x with value := P.act x.value job }, some (.build (k + 1)))
    | none => some ({ x with ready := true }, some .release)
  | .release => some ({ x with lock := none }, none)

variable {P : Plan τ ι} {x x' : Shared τ} {phase : ℕ → Option Phase} {c : ℕ} {p : Phase}
  {p' : Option Phase}

theorem Plan.after_succ {k : ℕ} {job : ι} (hjob : P.jobs[k]? = some job) :
    P.after (k + 1) = P.act (P.after k) job := by
  rw [after, List.take_add_one, hjob, List.foldl_append]
  rfl

theorem Plan.after_of_getElem?_none {k : ℕ} (hjob : P.jobs[k]? = none) : P.after k = P.built := by
  rw [after, List.take_of_length_le (List.getElem?_eq_none_iff.mp hjob), built]

/-- What a step can be. -/
theorem advance_cases (h : advance P c x p = some (x', p')) :
    (p = .test ∧ x' = x ∧ p' = if x.ready then none else some .acquire) ∨
    (p = .acquire ∧ x.lock = none ∧ x' = { x with lock := some c } ∧ p' = some .retest) ∨
    (p = .retest ∧ x' = x ∧ p' = some (if x.ready then .release else .build 0)) ∨
    (∃ k job, p = .build k ∧ P.jobs[k]? = some job ∧
      x' = { x with value := P.act x.value job } ∧ p' = some (.build (k + 1))) ∨
    (∃ k, p = .build k ∧ P.jobs[k]? = none ∧ x' = { x with ready := true } ∧
      p' = some .release) ∨
    (p = .release ∧ x' = { x with lock := none } ∧ p' = none) := by
  cases p with
  | test =>
    cases h
    exact Or.inl ⟨rfl, rfl, rfl⟩
  | acquire =>
    by_cases hlock : x.lock = none
    · rw [advance, if_pos hlock] at h
      cases h
      exact Or.inr (Or.inl ⟨rfl, hlock, rfl, rfl⟩)
    · rw [advance, if_neg hlock] at h
      cases h
  | retest =>
    cases h
    exact Or.inr (Or.inr (Or.inl ⟨rfl, rfl, rfl⟩))
  | build k =>
    cases hjob : P.jobs[k]? with
    | some job =>
      simp only [advance, hjob] at h
      cases h
      exact Or.inr (Or.inr (Or.inr (Or.inl ⟨k, job, rfl, hjob, rfl, rfl⟩)))
    | none =>
      simp only [advance, hjob] at h
      cases h
      exact Or.inr (Or.inr (Or.inr (Or.inr (Or.inl ⟨k, rfl, hjob, rfl, rfl⟩))))
  | release =>
    cases h
    exact Or.inr (Or.inr (Or.inr (Or.inr (Or.inr ⟨rfl, rfl, rfl⟩))))

/-- The flag stays set. -/
theorem ready_advance (hready : x.ready = true) (hstep : advance P c x p = some (x', p')) :
    x'.ready = true := by
  obtain ⟨-, rfl, -⟩ | ⟨-, -, rfl, -⟩ | ⟨-, rfl, -⟩ | ⟨k, job, rfl, -, rfl, -⟩ |
    ⟨k, -, -, rfl, -⟩ | ⟨-, rfl, -⟩ := advance_cases hstep
  · exact hready
  · exact hready
  · exact hready
  · exact hready
  · rfl
  · exact hready

/-- Only the lock is waited for. -/
theorem isSome_advance (h : p ≠ .acquire ∨ x.lock = none) : (advance P c x p).isSome = true := by
  cases p with
  | test | retest | release => exact rfl
  | acquire =>
    have hlock : x.lock = none := h.resolve_left fun hne => hne rfl
    rw [advance, if_pos hlock]
    rfl
  | build k =>
    cases hjob : P.jobs[k]? with
    | some job => simp only [advance, hjob, Option.isSome_some]
    | none => simp only [advance, hjob, Option.isSome_some]

/-! ## The invariant -/

/-- What the phase of the thread that has the lock says about the value. -/
def Coherent (P : Plan τ ι) (x : Shared τ) : Option Phase → Prop
  | some (.build k) => x.ready = false ∧ x.value = P.after k
  | some .release => x.ready = true ∧ x.value = P.built
  | _ => x.value = if x.ready then P.built else P.blank

/-- **The lock, the value and the flag fit the phases of the threads.** -/
structure Inv (P : Plan τ ι) (x : Shared τ) (phase : ℕ → Option Phase) : Prop where
  lock_iff : ∀ c, x.lock = some c ↔ (phase c).any Phase.holds = true
  coherent : Coherent P x (x.lock.bind phase)

theorem inv_start (P : Plan τ ι) : Inv P ⟨P.blank, false, none⟩ fun _ => none where
  lock_iff _ := iff_of_false (fun h => nomatch h) fun h => nomatch h
  coherent := rfl

namespace Inv

/-- **The value is complete when the flag is set.** -/
theorem value_of_ready (h : Inv P x phase) (hready : x.ready = true) : x.value = P.built := by
  have hco := h.coherent
  generalize x.lock.bind phase = q at hco
  match q with
  | some (.build k) => exact absurd (hready.symm.trans hco.1) (by decide)
  | some .release => exact hco.2
  | none | some .test | some .acquire | some .retest =>
    exact Eq.trans hco (if_pos hready)

/-- A thread without the lock may go to any phase that does not have it. -/
theorem release (h : Inv P x phase) (hc : (phase c).any Phase.holds = false)
    (hp : p'.any Phase.holds = false) : Inv P x (Function.update phase c p') := by
  have hfree : x.lock ≠ some c := fun hlock => by
    rw [(h.lock_iff c).mp hlock] at hc
    cases hc
  constructor
  · intro d
    by_cases hd : d = c
    · rw [hd, Function.update_self, hp]
      exact iff_of_false hfree (by decide)
    · rw [Function.update_of_ne hd]
      exact h.lock_iff d
  · cases hlock : x.lock with
    | none =>
      have hco := h.coherent
      rwa [hlock] at hco
    | some d =>
      have hco := h.coherent
      rw [hlock] at hco hfree
      rwa [Option.bind_some, Function.update_of_ne fun hd => hfree (congrArg some hd)]

/-- The thread that has the lock keeps it. -/
theorem keep (h : Inv P x phase) (hc : (phase c).any Phase.holds = true) (hlock : x'.lock = x.lock)
    (hp : p.holds = true) (hco : Coherent P x' (some p)) :
    Inv P x' (Function.update phase c (some p)) := by
  have hheld := (h.lock_iff c).mpr hc
  constructor
  · intro d
    rw [hlock]
    by_cases hd : d = c
    · rw [hd, Function.update_self]
      exact iff_of_true hheld hp
    · rw [Function.update_of_ne hd]
      exact h.lock_iff d
  · rwa [hlock, hheld, Option.bind_some, Function.update_self]

/-- The phase of the thread that has the lock. -/
theorem coherent_of_holds (h : Inv P x phase) (hc : phase c = some p) (hp : p.holds = true) :
    Coherent P x (some p) := by
  have hco := h.coherent
  rwa [(h.lock_iff c).mpr (by rw [hc]; exact hp), Option.bind_some, hc] at hco

/-- **A step of a thread.** -/
theorem advance (h : Inv P x phase) (hc : phase c = some p)
    (hstep : advance P c x p = some (x', p')) : Inv P x' (Function.update phase c p') := by
  obtain ⟨rfl, rfl, rfl⟩ | ⟨rfl, hlock, rfl, rfl⟩ | ⟨rfl, rfl, rfl⟩ |
    ⟨k, job, rfl, hjob, rfl, rfl⟩ | ⟨k, rfl, hjob, rfl, rfl⟩ | ⟨rfl, rfl, rfl⟩ :=
    advance_cases hstep
  · refine h.release (by rw [hc]; rfl) ?_
    cases x'.ready <;> rfl
  · have hco := h.coherent
    rw [hlock] at hco
    constructor
    · intro d
      by_cases hd : d = c
      · rw [hd, Function.update_self]
        exact iff_of_true rfl rfl
      · have hnone := h.lock_iff d
        rw [hlock] at hnone
        rw [Function.update_of_ne hd]
        exact iff_of_false (fun heq => hd (Option.some.inj heq).symm)
          fun hholds => nomatch hnone.mpr hholds
    · rw [Option.bind_some, Function.update_self]
      exact hco
  · have hco := h.coherent_of_holds hc rfl
    cases hready : x'.ready with
    | false =>
      exact h.keep (by rw [hc]; rfl) rfl rfl ⟨hready, hco.trans (if_neg (by rw [hready]; decide))⟩
    | true => exact h.keep (by rw [hc]; rfl) rfl rfl ⟨hready, hco.trans (if_pos hready)⟩
  · obtain ⟨hready, hvalue⟩ := h.coherent_of_holds hc rfl
    refine h.keep (by rw [hc]; rfl) rfl rfl ⟨hready, ?_⟩
    rw [hvalue, Plan.after_succ hjob]
  · obtain ⟨hready, hvalue⟩ := h.coherent_of_holds hc rfl
    refine h.keep (by rw [hc]; rfl) rfl rfl ⟨rfl, ?_⟩
    rw [hvalue, Plan.after_of_getElem?_none hjob]
  · obtain ⟨hready, hvalue⟩ := h.coherent_of_holds hc rfl
    have hlock := (h.lock_iff c).mpr (by rw [hc]; rfl)
    constructor
    · intro d
      refine iff_of_false (fun heq => nomatch heq) ?_
      by_cases hd : d = c
      · rw [hd, Function.update_self]
        decide
      · rw [Function.update_of_ne hd, ← h.lock_iff d, hlock]
        exact fun heq => hd (Option.some.inj heq).symm
    · exact hvalue.trans (if_pos hready).symm

/-- **A thread that is through finds the flag set.** -/
theorem ready_of_advance (h : Inv P x phase) (hc : phase c = some p)
    (hstep : Once.advance P c x p = some (x', none)) : x'.ready = true := by
  obtain ⟨rfl, rfl, hp⟩ | ⟨-, -, -, hp⟩ | ⟨-, -, hp⟩ | ⟨k, job, -, -, -, hp⟩ |
    ⟨k, -, -, -, hp⟩ | ⟨rfl, rfl, -⟩ := advance_cases hstep
  · by_contra hready
    rw [if_neg hready] at hp
    cases hp
  · cases hp
  · cases hp
  · cases hp
  · cases hp
  · exact (h.coherent_of_holds hc rfl).1

/-- **Some thread can take a step**: this one, or the one that has the lock. -/
theorem exists_advance (h : Inv P x phase) (hc : phase c = some p) :
    ∃ d q, phase d = some q ∧ (Once.advance P d x q).isSome = true := by
  cases hlock : x.lock with
  | none => exact ⟨c, p, hc, isSome_advance (Or.inr hlock)⟩
  | some d =>
    have hholds := (h.lock_iff d).mp hlock
    cases hd : phase d with
    | none =>
      rw [hd] at hholds
      cases hholds
    | some q =>
      refine ⟨d, q, hd, isSome_advance (Or.inl fun hq => ?_)⟩
      rw [hd, hq] at hholds
      cases hholds

end Inv

/-! ## How far it is to the end -/

/-- A bound for the steps that a thread has to take. -/
def Plan.weight (P : Plan τ ι) : Option Phase → ℕ
  | none => 0
  | some .test => P.jobs.length + 5
  | some .acquire => P.jobs.length + 4
  | some .retest => P.jobs.length + 3
  | some (.build k) => P.jobs.length - k + 2
  | some .release => 1

theorem weight_advance_lt (hstep : advance P c x p = some (x', p')) :
    P.weight p' < P.weight (some p) := by
  obtain ⟨rfl, -, rfl⟩ | ⟨rfl, -, -, rfl⟩ | ⟨rfl, -, rfl⟩ | ⟨k, job, rfl, hjob, -, rfl⟩ |
    ⟨k, rfl, -, -, rfl⟩ | ⟨rfl, -, rfl⟩ := advance_cases hstep
  · cases x.ready
    · exact Nat.lt_succ_self _
    · exact Nat.succ_pos _
  · exact Nat.lt_succ_self _
  · cases x.ready
    · exact Nat.lt_succ_self _
    · exact Nat.succ_lt_succ (Nat.succ_pos _)
  · have hk : k < P.jobs.length := (List.getElem?_eq_some_iff.mp hjob).1
    simp only [Plan.weight]
    omega
  · exact Nat.succ_lt_succ (Nat.succ_pos _)
  · exact Nat.succ_pos _

/-- **A run has no more steps than were paid for**: each takes one unit from what is left to do,
and adds nothing to it without a payment. -/
theorem length_le_of_exec {σ α : Type*} {step : σ → α → Option σ} {I : σ → Prop}
    {left paid : σ → ℕ}
    (hstep : ∀ s a s', I s → step s a = some s' →
      I s' ∧ left s' + paid s + 1 ≤ left s + paid s') {s s' : σ} {as : List α} (hs : I s)
    (h : Run.exec step s as = some s') : as.length + left s' + paid s ≤ left s + paid s' := by
  induction as generalizing s with
  | nil =>
    cases h
    exact Nat.le_of_eq (by rw [List.length_nil, Nat.zero_add])
  | cons a as ih =>
    obtain ⟨s₁, hs₁, h'⟩ := Run.exec_cons_eq_some.mp h
    obtain ⟨hI, hle⟩ := hstep s a s₁ hs hs₁
    have hrest := ih hI h'
    rw [List.length_cons]
    omega

end Once
end Wpdk
