import Mathlib.Data.Nat.Digits.Defs

/-!
# Decimal text

The conversion `%d` of `printf`: the digits of a number, after a sign if it is negative.

* `formatInt`: the conversion; `length_formatInt_le`: how long it gets.
* `formatInt_inj`: a number can be told from its text.
-/

namespace Wpdk

/-- `%d`. -/
def formatInt (i : ℤ) : List Char :=
  if i < 0 then '-' :: Nat.toDigits 10 i.natAbs else Nat.toDigits 10 i.natAbs

theorem toDigits_inj {n m : ℕ} (h : Nat.toDigits 10 n = Nat.toDigits 10 m) : n = m := by
  have hn := Nat.ofDigitChars_toDigits (b := 10) (n := n) (by decide) (by decide)
  have hm := Nat.ofDigitChars_toDigits (b := 10) (n := m) (by decide) (by decide)
  rw [← hn, h, hm]

/-- The sign is not a digit. -/
theorem minus_cons_ne_toDigits (digits : List Char) (n : ℕ) :
    '-' :: digits ≠ Nat.toDigits 10 n := by
  intro h
  have hmem : '-' ∈ Nat.toDigits 10 n := by
    rw [← h]
    exact List.mem_cons_self
  exact absurd (Nat.isDigit_of_mem_toDigits (by decide) (by decide) hmem) (by decide)

theorem formatInt_inj {i j : ℤ} (h : formatInt i = formatInt j) : i = j := by
  unfold formatInt at h
  by_cases hi : i < 0
  · by_cases hj : j < 0
    · rw [if_pos hi, if_pos hj] at h
      have habs := toDigits_inj (List.cons.inj h).2
      omega
    · rw [if_pos hi, if_neg hj] at h
      exact absurd h (minus_cons_ne_toDigits _ _)
  · by_cases hj : j < 0
    · rw [if_neg hi, if_pos hj] at h
      exact absurd h.symm (minus_cons_ne_toDigits _ _)
    · rw [if_neg hi, if_neg hj] at h
      have habs := toDigits_inj h
      omega

/-- A number of at most `k` digits, with its sign. -/
theorem length_formatInt_le {i : ℤ} {k : ℕ} (hk : 0 < k) (h : i.natAbs < 10 ^ k) :
    (formatInt i).length ≤ k + 1 := by
  have hdigits : (Nat.toDigits 10 i.natAbs).length ≤ k :=
    (Nat.length_toDigits_le_iff (by decide) hk).mpr h
  unfold formatInt
  split
  · exact Nat.succ_le_succ hdigits
  · exact Nat.le_succ_of_le hdigits

end Wpdk
