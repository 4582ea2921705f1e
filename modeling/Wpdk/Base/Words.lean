import Mathlib.Data.Finset.Basic
import Mathlib.Data.Finset.Card
import Mathlib.Data.Finset.Range
import Mathlib.Logic.Function.Basic

/-!
# Sets of numbers in the bits of words

An array of words of `w` bits holds a set of numbers: `b` is in it if bit `b % w` of word `b / w` is
set.

* `bit`, `setBit`, `clearBit`: one number.
* `members`: the set that the first `n` words hold.
* `each`: a loop over the words of an array that computes each word from the same words of two
  others; `each_apply`, also if it writes to one of those that it reads.
-/

namespace Wpdk
namespace Words

variable {w : ℕ}

/-- The bit of a number. -/
def bit (a : ℕ → BitVec w) (b : ℕ) : Bool := (a (b / w)).getLsbD (b % w)

/-- The bit is set. -/
def setBit (a : ℕ → BitVec w) (b : ℕ) : ℕ → BitVec w :=
  Function.update a (b / w) (a (b / w) ||| 1#w <<< (b % w))

/-- The bit is cleared. -/
def clearBit (a : ℕ → BitVec w) (b : ℕ) : ℕ → BitVec w :=
  Function.update a (b / w) (a (b / w) &&& ~~~(1#w <<< (b % w)))

section Bits

variable {a : ℕ → BitVec w} {b c : ℕ}

theorem getLsbD_one_shiftLeft {i k : ℕ} (hk : k < w) :
    (1#w <<< k).getLsbD i = decide (i = k) := by
  rw [← BitVec.twoPow_eq, BitVec.getLsbD_twoPow]
  simp [hk, eq_comm]

/-- A test of one bit. -/
theorem and_one_shiftLeft_ne_zero (x : BitVec w) {k : ℕ} (hk : k < w) :
    (x &&& 1#w <<< k != 0) = x.getLsbD k := by
  have hpow : BitVec.twoPow w k ≠ 0 := by
    intro heq
    have hbit := congrArg (·.getLsbD k) heq
    simp [hk] at hbit
  rw [← BitVec.twoPow_eq, BitVec.and_twoPow]
  cases x.getLsbD k with
  | true => simpa using hpow
  | false => simp

/-- In one word, a number is its bit. -/
theorem mod_eq_iff (hdiv : c / w = b / w) : c % w = b % w ↔ c = b := by
  constructor
  · intro hmod
    rw [← Nat.div_add_mod c w, hdiv, hmod, Nat.div_add_mod]
  · exact fun heq => heq ▸ rfl

theorem bit_setBit (hw : 0 < w) : bit (setBit a b) c = (bit a c || decide (c = b)) := by
  unfold bit setBit
  by_cases hdiv : c / w = b / w
  · rw [hdiv, Function.update_self, BitVec.getLsbD_or, getLsbD_one_shiftLeft (Nat.mod_lt b hw),
      decide_eq_decide.mpr (mod_eq_iff hdiv)]
  · have hne : c ≠ b := fun heq => hdiv (heq ▸ rfl)
    rw [Function.update_of_ne hdiv, decide_eq_false hne, Bool.or_false]

theorem bit_clearBit (hw : 0 < w) : bit (clearBit a b) c = (bit a c && !decide (c = b)) := by
  unfold bit clearBit
  by_cases hdiv : c / w = b / w
  · rw [hdiv, Function.update_self, BitVec.getLsbD_and, BitVec.getLsbD_not,
      getLsbD_one_shiftLeft (Nat.mod_lt b hw), decide_eq_decide.mpr (mod_eq_iff hdiv),
      decide_eq_true (Nat.mod_lt c hw), Bool.true_and]
  · have hne : c ≠ b := fun heq => hdiv (heq ▸ rfl)
    rw [Function.update_of_ne hdiv, decide_eq_false hne, Bool.not_false, Bool.and_true]

end Bits

/-! ## The set -/

/-- The numbers below `w * n` whose bits are set. -/
def members (n : ℕ) (a : ℕ → BitVec w) : Finset ℕ :=
  (Finset.range (w * n)).filter fun b => bit a b = true

section Members

variable {n : ℕ} {a a₁ a₂ : ℕ → BitVec w} {b c : ℕ}

theorem mem_members : b ∈ members n a ↔ b < w * n ∧ bit a b = true := by
  rw [members, Finset.mem_filter, Finset.mem_range]

theorem members_setBit (hw : 0 < w) (hb : b < w * n) :
    members n (setBit a b) = insert b (members n a) := by
  ext c
  rw [Finset.mem_insert, mem_members, mem_members, bit_setBit hw, Bool.or_eq_true,
    decide_eq_true_iff]
  constructor
  · rintro ⟨hc, hbit | rfl⟩
    · exact Or.inr ⟨hc, hbit⟩
    · exact Or.inl rfl
  · rintro (rfl | ⟨hc, hbit⟩)
    · exact ⟨hb, Or.inr rfl⟩
    · exact ⟨hc, Or.inl hbit⟩

theorem members_clearBit (hw : 0 < w) : members n (clearBit a b) = (members n a).erase b := by
  ext c
  rw [Finset.mem_erase, mem_members, mem_members, bit_clearBit hw, Bool.and_eq_true,
    Bool.not_eq_true', decide_eq_false_iff_not]
  exact ⟨fun h => ⟨h.2.2, h.1, h.2.1⟩, fun h => ⟨h.2.1, h.2.2, h.1⟩⟩

/-- The words below `n` are all that counts. -/
theorem members_congr (h : ∀ i < n, a₁ i = a₂ i) : members n a₁ = members n a₂ := by
  ext b
  rw [mem_members, mem_members]
  refine and_congr_right fun hb => ?_
  rw [bit, bit, h (b / w) (Nat.div_lt_of_lt_mul hb)]

theorem members_zero : members n (fun _ => 0#w) = ∅ := by
  ext b
  simp [mem_members, bit]

theorem members_allOnes (hw : 0 < w) :
    members n (fun _ => BitVec.allOnes w) = Finset.range (w * n) := by
  ext b
  simp [mem_members, bit, Nat.mod_lt b hw]

theorem members_and : members n (fun i => a₁ i &&& a₂ i) = members n a₁ ∩ members n a₂ := by
  ext b
  rw [Finset.mem_inter, mem_members, mem_members, mem_members]
  simp only [bit, BitVec.getLsbD_and, Bool.and_eq_true]
  exact ⟨fun h => ⟨⟨h.1, h.2.1⟩, h.1, h.2.2⟩, fun h => ⟨h.1.1, h.1.2, h.2.2⟩⟩

theorem members_or : members n (fun i => a₁ i ||| a₂ i) = members n a₁ ∪ members n a₂ := by
  ext b
  rw [Finset.mem_union, mem_members, mem_members, mem_members]
  simp only [bit, BitVec.getLsbD_or, Bool.or_eq_true]
  exact ⟨fun h => h.2.imp (⟨h.1, ·⟩) (⟨h.1, ·⟩),
    fun h => h.elim (fun h => ⟨h.1, Or.inl h.2⟩) fun h => ⟨h.1, Or.inr h.2⟩⟩

theorem members_xor_allOnes (hw : 0 < w) :
    members n (fun i => a i ^^^ BitVec.allOnes w) = Finset.range (w * n) \ members n a := by
  ext b
  rw [Finset.mem_sdiff, Finset.mem_range, mem_members, mem_members]
  have hmod := Nat.mod_lt b hw
  simp only [bit, BitVec.getLsbD_xor, BitVec.getLsbD_allOnes, hmod, decide_true, Bool.xor_true,
    Bool.not_eq_true', Bool.eq_false_iff]
  exact ⟨fun h => ⟨h.1, fun h' => h.2 h'.2⟩, fun h => ⟨h.1, fun h' => h.2 ⟨h.1, h'⟩⟩⟩

end Members

/-! ## Loops over the words -/

section Each

variable {V : Type*} [DecidableEq V]

/-- `for (i = 0; i < n; i++) dst[i] = g(src1[i], src2[i])`. -/
def each (g : BitVec w → BitVec w → BitVec w) (dst src₁ src₂ : V) :
    ℕ → (V → ℕ → BitVec w) → V → ℕ → BitVec w
  | 0, m => m
  | n + 1, m =>
    let m := each g dst src₁ src₂ n m
    Function.update m dst (Function.update (m dst) n (g (m src₁ n) (m src₂ n)))

/-- **Aliases do no harm**: a word is read before it is written, and never again. -/
theorem each_apply (g : BitVec w → BitVec w → BitVec w) (dst src₁ src₂ : V) (n : ℕ)
    (m : V → ℕ → BitVec w) (v : V) (i : ℕ) :
    each g dst src₁ src₂ n m v i =
      if v = dst ∧ i < n then g (m src₁ i) (m src₂ i) else m v i := by
  induction n generalizing v i with
  | zero =>
    rw [if_neg fun h => Nat.not_lt_zero i h.2]
    rfl
  | succ n ih =>
    have hsrc : ∀ u, each g dst src₁ src₂ n m u n = m u n := fun u => by
      rw [ih, if_neg fun h => Nat.lt_irrefl n h.2]
    rw [each, hsrc, hsrc]
    by_cases hv : v = dst
    · subst hv
      rw [Function.update_self]
      by_cases hi : i = n
      · subst hi
        rw [Function.update_self, if_pos ⟨rfl, Nat.lt_succ_self i⟩]
      · rw [Function.update_of_ne hi, ih]
        have hlt : i < n ↔ i < n + 1 := by omega
        simp only [true_and, hlt]
    · rw [Function.update_of_ne hv, ih, if_neg fun h => hv h.1, if_neg fun h => hv h.1]

/-- What the loop does to the sets. -/
theorem members_each (g : BitVec w → BitVec w → BitVec w) (dst src₁ src₂ : V) (n : ℕ)
    (m : V → ℕ → BitVec w) :
    (fun v => members n (each g dst src₁ src₂ n m v)) =
      Function.update (fun v => members n (m v)) dst
        (members n fun i => g (m src₁ i) (m src₂ i)) := by
  funext v
  by_cases hv : v = dst
  · subst hv
    rw [Function.update_self]
    refine members_congr fun i hi => ?_
    rw [each_apply, if_pos ⟨rfl, hi⟩]
  · rw [Function.update_of_ne hv]
    refine members_congr fun i _ => ?_
    rw [each_apply, if_neg fun h => hv h.1]

end Each

end Words
end Wpdk
