import Mathlib.Data.Nat.Notation

/-!
# Search loops

`for (i = 0; i < n; i++) if (p(i)) break;` leaves the index of the first hit in `i`, or the bound
if there is none.  Code that searches a table this way goes on with `i` and tells the two cases
apart by comparing it with the bound, so the loop is a function to an index and not to an option.

* `first p n`: the value of `i` after the loop.
* `first_spec`, `first_lt`: a value below the bound is a hit, and there is one as soon as
  something below the bound is a hit.
-/

namespace Wpdk

/-- The loop from index `i` on, with `n` rounds to go. -/
def firstFrom (p : ℕ → Bool) : ℕ → ℕ → ℕ
  | 0, i => i
  | n + 1, i => if p i then i else firstFrom p n (i + 1)

/-- The index at which the search for `p` below `n` ends. -/
def first (p : ℕ → Bool) (n : ℕ) : ℕ := firstFrom p n 0

variable {p : ℕ → Bool}

theorem firstFrom_spec {n i : ℕ} (h : firstFrom p n i < i + n) : p (firstFrom p n i) = true := by
  induction n generalizing i with
  | zero => exact absurd h (Nat.lt_irrefl i)
  | succ n ih =>
    unfold firstFrom at h ⊢
    split
    · assumption
    · rename_i hi
      rw [if_neg hi] at h
      exact ih (by omega)

theorem firstFrom_le_of_hit {n i j : ℕ} (hij : i ≤ j) (hjn : j < i + n) (hj : p j = true) :
    firstFrom p n i ≤ j := by
  induction n generalizing i with
  | zero => exact absurd hjn (Nat.not_lt.mpr hij)
  | succ n ih =>
    unfold firstFrom
    split
    · exact hij
    · rename_i hi
      have hne : i ≠ j := by
        rintro rfl
        exact hi hj
      exact ih (by omega) (by omega)

/-- A search that ends before the bound has found something. -/
theorem first_spec {n : ℕ} (h : first p n < n) : p (first p n) = true := by
  refine firstFrom_spec ?_
  rw [Nat.zero_add]
  exact h

/-- The search ends before the bound if there is something to find. -/
theorem first_lt {n j : ℕ} (hjn : j < n) (hj : p j = true) : first p n < n := by
  have hle : first p n ≤ j := firstFrom_le_of_hit (Nat.zero_le j) (by omega) hj
  omega

end Wpdk
