import Mathlib.Algebra.BigOperators.Group.Finset.Basic
import Wpdk.Base.Run

/-!
# Ledgers

Parties are numbered in the order in which they appear, and each has something: shares of a counter,
the handles it will have to close.  What all of them have together is a sum over the numbers that
have been given out, in the numbers or in the multisets of some type.  A step of one party changes
one term, and a new party adds one.

* `total g f n`: what the parties `0, ..., n - 1` have, where party `j` is in state `f j`.
* `total_update`, `total_push`: the two ways in which it changes.
* `balance_update`, `balance_push`: how an account `a = r + total g f n` is kept, given what a step
  does to `a`, to `r` and to the one party.
* `total_eq_zero`: parties that have nothing.
* `contribution`: what the steps of one party of a system add to a quantity along a run;
  `contribution_eq` finds it in the state of the party.
-/

namespace Wpdk

variable {σ M : Type*} [AddCommMonoid M]

/-- What the first `n` parties have together. -/
def total (g : σ → M) (f : ℕ → σ) (n : ℕ) : M := ∑ j ∈ Finset.range n, g (f j)

@[simp] theorem total_zero (g : σ → M) (f : ℕ → σ) : total g f 0 = 0 := rfl

variable (g : σ → M) (f : ℕ → σ) {n : ℕ}

/-- One party goes from one state to another. -/
theorem total_update {i : ℕ} (hi : i < n) (b : σ) :
    total g (Function.update f i b) n + g (f i) = total g f n + g b := by
  have hmem : i ∈ Finset.range n := Finset.mem_range.mpr hi
  have hrest : ∑ j ∈ (Finset.range n).erase i, g (Function.update f i b j) =
      ∑ j ∈ (Finset.range n).erase i, g (f j) := by
    refine Finset.sum_congr rfl fun j hj => ?_
    rw [Function.update_of_ne (Finset.ne_of_mem_erase hj)]
  unfold total
  rw [← Finset.sum_erase_add _ _ hmem, ← Finset.sum_erase_add _ (fun j => g (f j)) hmem, hrest,
    Function.update_self, add_assoc, add_assoc, add_comm (g b)]

/-- A step that leaves a party with as much as it had. -/
theorem total_update_same {i : ℕ} {b : σ} (hb : g b = g (f i)) :
    total g (Function.update f i b) n = total g f n := by
  refine Finset.sum_congr rfl fun j _ => ?_
  by_cases hj : j = i
  · rw [hj, Function.update_self, hb]
  · rw [Function.update_of_ne hj]

/-- One more party. -/
theorem total_push (n : ℕ) (b : σ) :
    total g (Function.update f n b) (n + 1) = total g f n + g b := by
  unfold total
  rw [Finset.sum_range_succ, Function.update_self]
  congr 1
  refine Finset.sum_congr rfl fun j hj => ?_
  rw [Function.update_of_ne (Nat.ne_of_lt (Finset.mem_range.mp hj))]

variable {g f}

/-- What one party has, and what is left when it has gone to a state in which it has nothing. -/
theorem total_split {i : ℕ} (hi : i < n) {z : σ} (hz : g z = 0) :
    total g f n = g (f i) + total g (Function.update f i z) n := by
  have hupdate := total_update g f hi z
  rw [hz, add_zero] at hupdate
  rw [← hupdate, add_comm]

theorem total_update_split {i : ℕ} (hi : i < n) {z : σ} (hz : g z = 0) {b : σ} :
    total g (Function.update f i b) n = g b + total g (Function.update f i z) n := by
  rw [total_split (f := Function.update f i b) hi hz, Function.update_self, Function.update_idem]

theorem total_eq_zero (h : ∀ j, j < n → g (f j) = 0) : total g f n = 0 :=
  Finset.sum_eq_zero fun j hj => h j (Finset.mem_range.mp hj)

/-! ## Accounts -/

section Balance

variable {M : Type*} [AddCancelCommMonoid M] {g : σ → M} {f : ℕ → σ} {a a' r r' : M}

/-- **A step of one party keeps an account** if what comes in on one side is what comes in on the
other. -/
theorem balance_update {i : ℕ} (hi : i < n) {b : σ} (h : a = r + total g f n)
    (hstep : a' + g (f i) + r = a + g b + r') : a' = r' + total g (Function.update f i b) n := by
  have hupdate := total_update g f hi b
  refine add_right_cancel (b := g (f i) + r) ?_
  calc a' + (g (f i) + r) = a' + g (f i) + r := (add_assoc _ _ _).symm
    _ = r + total g f n + g b + r' := by rw [hstep, h]
    _ = r + (total g f n + g b) + r' := by rw [add_assoc r]
    _ = r + (total g (Function.update f i b) n + g (f i)) + r' := by rw [hupdate]
    _ = r' + total g (Function.update f i b) n + (g (f i) + r) := by ac_rfl

/-- So does a new party. -/
theorem balance_push {b : σ} (h : a = r + total g f n) (hstep : a' + r = a + g b + r') :
    a' = r' + total g (Function.update f n b) (n + 1) := by
  refine add_right_cancel (b := r) ?_
  calc a' + r = r + total g f n + g b + r' := by rw [hstep, h]
    _ = r' + (total g f n + g b) + r := by ac_rfl
    _ = r' + total g (Function.update f n b) (n + 1) + r := by rw [total_push]

end Balance

/-! ## Contributions -/

namespace Run

section Contribution

variable {σ α κ M : Type*} [AddCommGroup M] [DecidableEq κ] (step : σ → α → Option σ)
  (who : σ → α → Option κ) (v : σ → M)

/-- What the steps taken on behalf of `k` add to `v` along a run. -/
def contribution (k : κ) : σ → List α → M
  | _, [] => 0
  | s, a :: as =>
    match step s a with
    | none => 0
    | some s' => (if who s a = some k then v s' - v s else 0) + contribution k s' as

variable {step who v}

/-- **Along a run, `k` has added what it has more than at the start**, if that is so for every
step. -/
theorem contribution_eq {I : σ → Prop} {C : σ → α → Prop} {e : σ → M} {k : κ}
    (hI : ∀ s a s', I s → C s a → step s a = some s' → I s')
    (hstep : ∀ s a s', I s → C s a → step s a = some s' →
      e s' - e s = if who s a = some k then v s' - v s else 0)
    {s t : σ} {as : List α} (hs : I s) (hC : EachStep step C s as)
    (h : exec step s as = some t) : contribution step who v k s as = e t - e s := by
  induction as generalizing s with
  | nil =>
    rw [exec_nil] at h
    rw [Option.some.inj h, sub_self, contribution]
  | cons a as ih =>
    obtain ⟨s', hss', h'⟩ := exec_cons_eq_some.mp h
    have htail := ih (hI s a s' hs hC.1 hss') (hC.2 s' hss') h'
    rw [contribution, hss']
    simp only
    rw [htail, ← hstep s a s' hs hC.1 hss', add_comm, sub_add_sub_cancel]

end Contribution

end Run

end Wpdk
