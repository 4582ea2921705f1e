import Mathlib.Data.BitVec

/-!
# The bytes of a word

A word is put together from bytes by shifting each to its place and taking the disjunction, and
taken apart by shifting back and cutting off.  Byte `k` of a word is the one at its bits
`8 * k, ..., 8 * k + 7`.

* `byte`: a byte of a word; `ext_byte`: a word is given by its bytes.
* `byte_or`, `byte_shiftLeft`, `byte_setWidth`: the bytes of a word that is put together.
-/

namespace Wpdk

variable {w : ℕ}

/-- Byte `k` of a word, the lowest one being byte zero. -/
def byte (v : BitVec w) (k : ℕ) : BitVec 8 := (v >>> (8 * k)).setWidth 8

theorem getLsbD_byte (v : BitVec w) (k i : ℕ) :
    (byte v k).getLsbD i = (decide (i < 8) && v.getLsbD (8 * k + i)) := by
  rw [byte, BitVec.getLsbD_setWidth, BitVec.getLsbD_ushiftRight]

/-- Two words with the same bytes are the same. -/
theorem ext_byte {v v' : BitVec w} (h : ∀ k, 8 * k < w → byte v k = byte v' k) : v = v' := by
  refine BitVec.eq_of_getLsbD_eq fun i hi => ?_
  have hbit := congrArg (fun b => b.getLsbD (i % 8)) (h (i / 8) (by omega))
  simp only [getLsbD_byte] at hbit
  rwa [Nat.div_add_mod, decide_eq_true (Nat.mod_lt i (by omega)), Bool.true_and,
    Bool.true_and] at hbit

theorem byte_or (v v' : BitVec w) (k : ℕ) : byte (v ||| v') k = byte v k ||| byte v' k := by
  refine BitVec.eq_of_getLsbD_eq fun i _ => ?_
  rw [BitVec.getLsbD_or, getLsbD_byte, getLsbD_byte, getLsbD_byte, BitVec.getLsbD_or]
  cases decide (i < 8) <;> rfl

/-- A byte shifted to the place of byte `j`. -/
theorem byte_shiftLeft (b : BitVec 8) {j : ℕ} (hj : 8 * (j + 1) ≤ w) {n : ℕ} (hn : n = 8 * j)
    (k : ℕ) : byte (b.setWidth w <<< n) k = if k = j then b else 0 := by
  subst hn
  refine BitVec.eq_of_getLsbD_eq fun i hi => ?_
  rw [getLsbD_byte, BitVec.getLsbD_shiftLeft, BitVec.getLsbD_setWidth]
  rcases Nat.lt_trichotomy k j with hkj | rfl | hkj
  · have hlt : 8 * k + i < 8 * j := by omega
    simp [hlt, Nat.ne_of_lt hkj]
  · have hin : 8 * k + i < w := by omega
    have hi' : i < w := by omega
    simp [hi, hin, hi']
  · have hout : 8 ≤ 8 * k + i - 8 * j := by omega
    have hnot : ¬ 8 * k + i < 8 * j := by omega
    simp [hnot, Nat.ne_of_gt hkj, BitVec.getLsbD_of_ge b _ hout]

/-- A byte that is not shifted. -/
theorem byte_setWidth (b : BitVec 8) (hw : 8 ≤ w) (k : ℕ) :
    byte (b.setWidth w) k = if k = 0 then b else 0 := by
  have h := byte_shiftLeft b (w := w) (j := 0) (by omega) (n := 0) rfl k
  rwa [BitVec.shiftLeft_zero] at h

end Wpdk
