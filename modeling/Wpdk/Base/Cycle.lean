import Mathlib.Data.Fintype.EquivFin
import Mathlib.Data.Fintype.Prod
import Mathlib.Data.List.Basic
import Mathlib.Data.Nat.ModEq

/-!
# Moving the entries of an array along cycles

An array is rearranged in place by following the cycles of a map `next` of its positions: the entry
at `x` is to go to `next x`.  One cell `c` of a cycle serves as the spare place.  The loop goes
round the cycle and swaps the cell it has come to with `c`, so that `c` always holds the entry that
is to be put down next, and the last swap is one of `c` with itself.

Rotating a segment is such a rearrangement, with `next` the addition of a constant modulo the
length, and its cycles are as many as the greatest common divisor says.

* `swapAt`, `moveCycle`, `moveCycles`: the loops.
* `Moved`: every entry of a cycle has been moved by one place; `moved_moveCycle`: it has.
* `movedAll_moveCycles`: what cycles that do not meet come to together.
* `orbit_injective`, `orbit_surjective`: the cycles of a rotation do not meet, and they reach
  every position.
-/

namespace Wpdk
namespace Cycle

variable {α : Type*}

/-- Exchanging two entries. -/
def swapAt (v : List α) (i j : ℕ) : List α :=
  match v[i]?, v[j]? with
  | some x, some y => (v.set i y).set j x
  | _, _ => v

/-- Going round a cycle from `pos`, for a number of steps. -/
def moveCycle (next : ℕ → ℕ) (c : ℕ) : ℕ → ℕ → List α → List α
  | 0, _, v => v
  | j + 1, pos, v => moveCycle next c j (next pos) (swapAt v (next pos) c)

/-- One cycle after the other, the first `n` of those that start at `start 0`, `start 1` and so on.
-/
def moveCycles (next : ℕ → ℕ) (start : ℕ → ℕ) (len n : ℕ) (v : List α) : List α :=
  (List.range n).foldl (fun v i => moveCycle next (start i) len (start i) v) v

/-! ## Swaps -/

theorem length_swapAt (v : List α) (i j : ℕ) : (swapAt v i j).length = v.length := by
  unfold swapAt
  split
  · rw [List.length_set, List.length_set]
  · rfl

theorem getElem?_swapAt {v : List α} {i j : ℕ} (hi : i < v.length) (hj : j < v.length) (k : ℕ) :
    (swapAt v i j)[k]? = if k = i then v[j]? else if k = j then v[i]? else v[k]? := by
  have hswap : swapAt v i j = (v.set i v[j]).set j v[i] := by
    unfold swapAt
    rw [List.getElem?_eq_getElem hi, List.getElem?_eq_getElem hj]
  rw [hswap, List.getElem?_set, List.getElem?_set, List.length_set]
  by_cases hkj : k = j
  · subst hkj
    rw [if_pos rfl, if_pos hj, if_pos rfl, ← List.getElem?_eq_getElem hi]
    by_cases hki : k = i
    · rw [if_pos hki, hki]
    · rw [if_neg hki]
  · rw [if_neg (Ne.symm hkj), if_neg hkj]
    by_cases hki : k = i
    · rw [if_pos hki.symm, if_pos hki, if_pos hi, List.getElem?_eq_getElem hj]
    · rw [if_neg (Ne.symm hki), if_neg hki]

/-! ## One cycle -/

section Orbit

-- the positions of a cycle in their order, and how many there are
variable {next : ℕ → ℕ} {p : ℕ → ℕ} {len : ℕ}

/-- On the way round, `k` steps behind the start: the entries passed have been put down, and the
spare cell holds the one at `p k`. -/
structure Passed (p : ℕ → ℕ) (k : ℕ) (v w : List α) : Prop where
  length : w.length = v.length
  spare : w[p 0]? = v[p k]?
  moved : ∀ i, i < k → w[p (i + 1)]? = v[p i]?
  rest : ∀ x, (∀ i, i ≤ k → x ≠ p i) → w[x]? = v[x]?

/-- All the way round. -/
structure Moved (p : ℕ → ℕ) (len : ℕ) (v w : List α) : Prop where
  length : w.length = v.length
  moved : ∀ i, i < len → w[p (i + 1)]? = v[p i]?
  rest : ∀ x, (∀ i, i < len → x ≠ p i) → w[x]? = v[x]?

theorem passed_zero (p : ℕ → ℕ) (v : List α) : Passed p 0 v v :=
  ⟨rfl, rfl, fun _ hi => absurd hi (Nat.not_lt_zero _), fun _ _ => rfl⟩

/-- The positions of a cycle of `len` steps: they are different, and the last step leads back. -/
structure IsCycle (next : ℕ → ℕ) (p : ℕ → ℕ) (len : ℕ) : Prop where
  next_eq : ∀ k, next (p k) = p (k + 1)
  inj : ∀ i j, i < len → j < len → p i = p j → i = j
  closed : p len = p 0

/-- A step on the way round. -/
theorem Passed.swapAt {k : ℕ} {v w : List α} (hp : IsCycle next p len) (h : Passed p k v w)
    (hk : k + 1 < len) (hbound : ∀ i, i < len → p i < v.length) :
    Passed p (k + 1) v (swapAt w (p (k + 1)) (p 0)) := by
  have hne : ∀ i, i ≤ k → p i ≠ p (k + 1) := by
    intro i hi heq
    have := hp.inj i (k + 1) (by omega) hk heq
    omega
  have hget := getElem?_swapAt (v := w) (h.length ▸ hbound (k + 1) hk)
    (h.length ▸ hbound 0 (by omega))
  refine ⟨(length_swapAt _ _ _).trans h.length, ?_, fun i hi => ?_, fun x hx => ?_⟩
  · rw [hget, if_neg (hne 0 (Nat.zero_le k)), if_pos rfl]
    exact h.rest _ fun i hi => (hne i hi).symm
  · by_cases hik : i = k
    · rw [hget, hik, if_pos rfl, h.spare]
    · have hzero : p (i + 1) ≠ p 0 := by
        intro heq
        have := hp.inj (i + 1) 0 (by omega) (by omega) heq
        omega
      rw [hget, if_neg (hne (i + 1) (by omega)), if_neg hzero]
      exact h.moved i (by omega)
  · rw [hget, if_neg (hx (k + 1) (Nat.le_refl _)), if_neg (hx 0 (Nat.zero_le _))]
    exact h.rest x fun i hi => hx i (Nat.le_succ_of_le hi)

/-- The last step leads back to the spare cell, which holds what belongs there. -/
theorem Passed.close {k : ℕ} {v w : List α} (hp : IsCycle next p (k + 1)) (h : Passed p k v w)
    (hbound : p 0 < v.length) : Moved p (k + 1) v (Cycle.swapAt w (p (k + 1)) (p 0)) := by
  have hget : ∀ x : ℕ, (Cycle.swapAt w (p 0) (p 0))[x]? = w[x]? := by
    intro x
    rw [getElem?_swapAt (h.length ▸ hbound) (h.length ▸ hbound)]
    by_cases hx : x = p 0
    · rw [if_pos hx, hx]
    · rw [if_neg hx, if_neg hx]
  rw [hp.closed]
  refine ⟨(length_swapAt _ _ _).trans h.length, fun i hi => ?_, fun x hx => ?_⟩
  · rw [hget]
    by_cases hik : i = k
    · rw [hik, hp.closed, h.spare]
    · exact h.moved i (by omega)
  · rw [hget]
    exact h.rest x fun i hi => hx i (Nat.lt_succ_of_le hi)

/-- **Going all the way round** moves every entry of the cycle by one place. -/
theorem moved_moveCycle {v : List α} (hp : IsCycle next p len) (hlen : 0 < len)
    (hbound : ∀ i, i < len → p i < v.length) :
    Moved p len v (moveCycle next (p 0) len (p 0) v) := by
  -- from `k` steps behind the start, with `j + 1` to go
  have hround : ∀ j k w, k + j + 1 = len → Passed p k v w →
      Moved p len v (moveCycle next (p 0) (j + 1) (p k) w) := by
    intro j
    induction j with
    | zero =>
      intro k w hk h
      subst hk
      rw [moveCycle, moveCycle, hp.next_eq]
      exact h.close hp (hbound 0 hlen)
    | succ j ih =>
      intro k w hk h
      rw [moveCycle, hp.next_eq]
      exact ih (k + 1) _ (by omega) (h.swapAt hp (by omega) hbound)
  obtain ⟨j, rfl⟩ : ∃ j, len = j + 1 := ⟨len - 1, by omega⟩
  exact hround j 0 v (by omega) (passed_zero p v)

end Orbit

/-! ## All cycles -/

section Orbits

variable {next : ℕ → ℕ} {p : ℕ → ℕ → ℕ} {len n : ℕ}

/-- The first `n` cycles have been moved. -/
structure MovedAll (p : ℕ → ℕ → ℕ) (len n : ℕ) (v w : List α) : Prop where
  length : w.length = v.length
  moved : ∀ i, i < n → ∀ k, k < len → w[p i (k + 1)]? = v[p i k]?
  rest : ∀ x, (∀ i, i < n → ∀ k, k < len → x ≠ p i k) → w[x]? = v[x]?

/-- **Cycles that do not meet** can be moved one after the other. -/
theorem movedAll_moveCycles {v : List α} (hp : ∀ i, i < n → IsCycle next (p i) len)
    (hlen : 0 < len) (hbound : ∀ i, i < n → ∀ k, k < len → p i k < v.length)
    (hmeet : ∀ i j, i < n → j < n → ∀ k l, p i k = p j l → i = j) :
    MovedAll p len n v (moveCycles next (fun i => p i 0) len n v) := by
  induction n with
  | zero =>
    exact ⟨rfl, fun i hi => absurd hi (Nat.not_lt_zero i), fun _ _ => rfl⟩
  | succ n ih =>
    obtain ⟨hlength, hmoved, hrest⟩ := ih (fun i hi => hp i (by omega))
      (fun i hi => hbound i (by omega)) fun i j hi hj => hmeet i j (by omega) (by omega)
    rw [moveCycles, List.range_succ, List.foldl_append]
    change MovedAll p len (n + 1) v
      (moveCycle next (p n 0) len (p n 0) (moveCycles next (fun i => p i 0) len n v))
    have hlast := moved_moveCycle (hp n (Nat.lt_succ_self n)) hlen
      (v := moveCycles next (fun i => p i 0) len n v) fun k hk =>
        hlength ▸ hbound n (Nat.lt_succ_self n) k hk
    refine ⟨hlast.length.trans hlength, fun i hi k hk => ?_, fun x hx => ?_⟩
    · by_cases hin : i = n
      · subst hin
        rw [hlast.moved k hk, hrest]
        intro j hj l _ heq
        have := hmeet i j hi (by omega) k l heq
        omega
      · rw [hlast.rest, hmoved i (by omega) k hk]
        intro l _ heq
        exact hin (hmeet i n hi (Nat.lt_succ_self n) (k + 1) l heq)
    · rw [hlast.rest x fun k hk => hx n (Nat.lt_succ_self n) k hk]
      exact hrest x fun i hi => hx i (by omega)

theorem moveCycles_congr {start : ℕ → ℕ} (start' : ℕ → ℕ) (h : ∀ i, i < n → start i = start' i)
    (v : List α) : moveCycles next start len n v = moveCycles next start' len n v := by
  refine List.foldl_ext _ _ _ fun w i hi => ?_
  rw [h i (List.mem_range.mp hi)]

end Orbits

/-! ## Rotations -/

section Rotation

variable {a b : ℕ}

/-- The positions on the cycle of `a + i` of the rotation by `b` modulo `a + b`. -/
def orbit (a b i k : ℕ) : ℕ := (a + i + k * b) % (a + b)

theorem orbit_succ (i k : ℕ) :
    orbit a b i (k + 1) = (orbit a b i k + b) % (a + b) := by
  unfold orbit
  rw [Nat.mod_add_mod, Nat.succ_mul, Nat.add_assoc (a + i)]

theorem orbit_lt (h : 0 < a + b) (i k : ℕ) : orbit a b i k < a + b := Nat.mod_lt _ h

theorem gcd_mul_cycle_length : Nat.gcd a b * ((a + b) / Nat.gcd a b) = a + b :=
  Nat.mul_div_cancel' (Nat.dvd_add (Nat.gcd_dvd_left a b) (Nat.gcd_dvd_right a b))

/-- The remainder by the divisor says which cycle a position is on. -/
theorem orbit_mod_gcd (i k : ℕ) : orbit a b i k % Nat.gcd a b = i % Nat.gcd a b := by
  have ha : Nat.gcd a b ∣ a := Nat.gcd_dvd_left a b
  have hb : Nat.gcd a b ∣ b := Nat.gcd_dvd_right a b
  unfold orbit
  rw [Nat.mod_mod_of_dvd _ (Nat.dvd_add ha hb), Nat.add_mod,
    Nat.mod_eq_zero_of_dvd (Dvd.dvd.mul_left hb k), Nat.add_zero, Nat.mod_mod, Nat.add_mod,
    Nat.mod_eq_zero_of_dvd ha, Nat.zero_add, Nat.mod_mod]

theorem orbit_cycle_eq {i j k l : ℕ} (hi : i < Nat.gcd a b) (hj : j < Nat.gcd a b)
    (h : orbit a b i k = orbit a b j l) : i = j := by
  have hmod : orbit a b i k % Nat.gcd a b = orbit a b j l % Nat.gcd a b := by rw [h]
  rwa [orbit_mod_gcd, orbit_mod_gcd, Nat.mod_eq_of_lt hi, Nat.mod_eq_of_lt hj] at hmod

/-- **The positions of a cycle are different.** -/
theorem orbit_injective {i k l : ℕ} (h : 0 < a + b) (hk : k < (a + b) / Nat.gcd a b)
    (hl : l < (a + b) / Nat.gcd a b) (heq : orbit a b i k = orbit a b i l) : k = l := by
  have hmod : k * b ≡ l * b [MOD a + b] := Nat.ModEq.add_left_cancel' (a + i) heq
  have hgcd : Nat.gcd (a + b) b = Nat.gcd a b := by
    rw [Nat.gcd_add_self_left]
  have hcancel := hmod.cancel_right_div_gcd h
  rw [hgcd] at hcancel
  exact hcancel.eq_of_lt_of_lt hk hl

theorem orbit_closed (i : ℕ) : orbit a b i ((a + b) / Nat.gcd a b) = orbit a b i 0 := by
  have hdvd : a + b ∣ (a + b) / Nat.gcd a b * b := by
    refine ⟨b / Nat.gcd a b, ?_⟩
    rw [← Nat.mul_div_assoc _ (Nat.gcd_dvd_right a b), Nat.mul_comm,
      ← Nat.mul_div_assoc _ (Nat.dvd_add (Nat.gcd_dvd_left a b) (Nat.gcd_dvd_right a b)),
      Nat.mul_comm]
  unfold orbit
  rw [Nat.zero_mul, Nat.add_mod, Nat.mod_eq_zero_of_dvd hdvd, Nat.add_zero, Nat.add_zero,
    Nat.mod_mod]

/-- **The cycles reach every position**: they are different positions, and as many as there are. -/
theorem orbit_surjective (h : 0 < a + b) {x : ℕ} (hx : x < a + b) :
    ∃ i, i < Nat.gcd a b ∧ ∃ k, k < (a + b) / Nat.gcd a b ∧ orbit a b i k = x := by
  let f : Fin (Nat.gcd a b) × Fin ((a + b) / Nat.gcd a b) → Fin (a + b) :=
    fun q => ⟨orbit a b q.1 q.2, orbit_lt h _ _⟩
  have hinj : Function.Injective f := by
    rintro ⟨i, k⟩ ⟨j, l⟩ heq
    have hpos : orbit a b i k = orbit a b j l := congrArg Fin.val heq
    have hij := Fin.ext (orbit_cycle_eq i.isLt j.isLt hpos)
    subst hij
    have hkl := Fin.ext (orbit_injective h k.isLt l.isLt hpos)
    rw [hkl]
  have hcard : Fintype.card (Fin (Nat.gcd a b) × Fin ((a + b) / Nat.gcd a b)) =
      Fintype.card (Fin (a + b)) := by
    rw [Fintype.card_prod, Fintype.card_fin, Fintype.card_fin, Fintype.card_fin,
      gcd_mul_cycle_length]
  obtain ⟨⟨i, k⟩, hq⟩ := ((Fintype.bijective_iff_injective_and_card f).mpr ⟨hinj, hcard⟩).2 ⟨x, hx⟩
  exact ⟨i, i.isLt, k, k.isLt, congrArg Fin.val hq⟩

end Rotation

end Cycle
end Wpdk
