import Wpdk.Base.Cycle

/-!
# Moving operands behind options

`permute_args` of `getopt.c` exchanges two neighbouring blocks of the argument vector, the operands
that were skipped and the options found behind them, without a second array.  An argument of the
first block goes up by the length of the second, one of the second goes down by the length of the
first: within the two blocks that is a rotation, and the function follows its cycles
(`Wpdk.Base.Cycle`), of which there are `gcd (nnonopts, nopts)`.

* `gcd`, `permuteArgs`: the functions.
* `permute_args_exchanges`: the blocks are exchanged, each in its order.
-/

namespace Wpdk
namespace Getopt

open Wpdk.Cycle

variable {α : Type*}

/-- The loop of `gcd`, with `b` as a bound for its rounds. -/
def gcdLoop : ℕ → ℕ → ℕ → ℕ
  | 0, _, b => b
  | k + 1, a, b => if a % b = 0 then b else gcdLoop k b (a % b)

/-- `gcd`. -/
def gcd (a b : ℕ) : ℕ := gcdLoop b a b

/-- Where `permute_args` goes from a position. -/
def nextPos (nonoptEnd nnonopts nopts pos : ℕ) : ℕ :=
  if nonoptEnd ≤ pos then pos - nnonopts else pos + nopts

/-- `permute_args`. -/
def permuteArgs (nonoptStart nonoptEnd optEnd : ℕ) (nargv : List α) : List α :=
  let nnonopts := nonoptEnd - nonoptStart
  let nopts := optEnd - nonoptEnd
  let ncycle := gcd nnonopts nopts
  let cyclelen := (optEnd - nonoptStart) / ncycle
  moveCycles (nextPos nonoptEnd nnonopts nopts) (nonoptEnd + ·) cyclelen ncycle nargv

/-! ## The number of cycles -/

theorem gcdLoop_eq {k a b : ℕ} (hb : 0 < b) (hk : b ≤ k) : gcdLoop k a b = Nat.gcd a b := by
  induction k generalizing a b with
  | zero => omega
  | succ k ih =>
    rw [gcdLoop]
    by_cases hdvd : a % b = 0
    · rw [if_pos hdvd, Nat.gcd_eq_right (Nat.dvd_of_mod_eq_zero hdvd)]
    · have hlt : a % b < b := Nat.mod_lt a hb
      rw [if_neg hdvd, ih (by omega) (by omega), Nat.gcd_comm b, ← Nat.gcd_rec, Nat.gcd_comm]

theorem gcd_eq {a b : ℕ} (hb : 0 < b) : gcd a b = Nat.gcd a b := gcdLoop_eq hb (Nat.le_refl b)

/-! ## The cycles -/

section Blocks

-- where the blocks begin, and how long they are
variable {s a b : ℕ}

/-- Within the blocks it is a rotation. -/
theorem nextPos_eq {x : ℕ} (hx : x < a + b) :
    nextPos (s + a) a b (s + x) = s + (x + b) % (a + b) := by
  unfold nextPos
  by_cases h : a ≤ x
  · rw [if_pos (by omega), show x + b = x - a + (a + b) by omega, Nat.add_mod_right,
      Nat.mod_eq_of_lt (by omega)]
    omega
  · rw [if_neg (by omega), Nat.mod_eq_of_lt (by omega)]
    omega

theorem isCycle_orbit (ha : 0 < a) (i : ℕ) :
    IsCycle (nextPos (s + a) a b) (fun k => s + orbit a b i k) ((a + b) / Nat.gcd a b) where
  next_eq k := by rw [nextPos_eq (orbit_lt (by omega) i k), orbit_succ]
  inj k l hk hl heq := orbit_injective (by omega) hk hl (Nat.add_left_cancel heq)
  closed := congrArg (s + ·) (orbit_closed i)

/-- Every entry of the blocks is moved as it should be, and no other. -/
theorem getElem?_permuteArgs {v : List α} (ha : 0 < a) (hb : 0 < b) (hv : s + a + b ≤ v.length) :
    (∀ x, x < a + b → (permuteArgs s (s + a) (s + a + b) v)[s + (x + b) % (a + b)]? = v[s + x]?) ∧
      ∀ x, x < s ∨ s + a + b ≤ x → (permuteArgs s (s + a) (s + a + b) v)[x]? = v[x]? := by
  have hgcd_le : Nat.gcd a b ≤ b := Nat.gcd_le_right a hb
  have hgcd_pos : 0 < Nat.gcd a b := Nat.gcd_pos_of_pos_left b ha
  have hlen : 0 < (a + b) / Nat.gcd a b := Nat.div_pos (by omega) hgcd_pos
  have hmoved : MovedAll (fun i k => s + orbit a b i k) ((a + b) / Nat.gcd a b) (Nat.gcd a b) v
      (permuteArgs s (s + a) (s + a + b) v) := by
    unfold permuteArgs
    dsimp only
    rw [Nat.add_sub_cancel_left, Nat.add_sub_cancel_left, gcd_eq hb, Nat.add_assoc s a b,
      Nat.add_sub_cancel_left, moveCycles_congr fun i => s + orbit a b i 0]
    · refine movedAll_moveCycles (fun i _ => isCycle_orbit ha i) hlen (fun i _ k _ => ?_) ?_
      · have := orbit_lt (a := a) (b := b) (by omega) i k
        omega
      · intro i j hi hj k l heq
        exact orbit_cycle_eq hi hj (Nat.add_left_cancel heq)
    · intro i hi
      unfold orbit
      rw [Nat.zero_mul, Nat.add_zero, Nat.mod_eq_of_lt (by omega), Nat.add_assoc]
  refine ⟨fun x hx => ?_, fun x hx => ?_⟩
  · obtain ⟨i, hi, k, hk, rfl⟩ := orbit_surjective (by omega) hx
    rw [← orbit_succ]
    exact hmoved.moved i hi k hk
  · refine hmoved.rest x fun i _ k _ => ?_
    have := orbit_lt (a := a) (b := b) (by omega) i k
    omega

end Blocks

/-- An entry of a block in the middle. -/
theorem getElem?_block (pre block post : List α) {k : ℕ} (hk : k < block.length) :
    (pre ++ block ++ post)[pre.length + k]? = block[k]? := by
  rw [List.append_assoc, List.getElem?_append_right (Nat.le_add_right _ _),
    Nat.add_sub_cancel_left, List.getElem?_append_left hk]

/-- **The blocks are exchanged**, each in its order, and what is before and behind them stays. -/
theorem permuteArgs_append (front : List α) {opnds opts : List α} (rest : List α)
    (hopnds : opnds ≠ [])
    (hopts : opts ≠ []) :
    permuteArgs front.length (front.length + opnds.length)
      (front.length + opnds.length + opts.length) (front ++ opnds ++ opts ++ rest) =
      front ++ opts ++ opnds ++ rest := by
  have ha : 0 < opnds.length := List.length_pos_iff.mpr hopnds
  have hb : 0 < opts.length := List.length_pos_iff.mpr hopts
  obtain ⟨hmoved, hrest⟩ := getElem?_permuteArgs (v := front ++ opnds ++ opts ++ rest)
    (s := front.length) ha hb (by simp only [List.length_append]; omega)
  refine List.ext_getElem? fun x => ?_
  by_cases hbefore : x < front.length
  · rw [hrest x (Or.inl hbefore)]
    simp only [List.append_assoc]
    rw [List.getElem?_append_left hbefore, List.getElem?_append_left hbefore]
  by_cases hbehind : front.length + opnds.length + opts.length ≤ x
  · rw [hrest x (Or.inr hbehind),
      List.getElem?_append_right (by simp only [List.length_append]; omega),
      List.getElem?_append_right (by simp only [List.length_append]; omega)]
    simp only [List.length_append, Nat.add_right_comm]
  by_cases hopt : x < front.length + opts.length
  · -- an option, which was behind the operands
    obtain ⟨y, rfl⟩ : ∃ y, x = front.length + y := ⟨x - front.length, by omega⟩
    have hy : y < opts.length := by omega
    have hold := getElem?_block (front ++ opnds) opts rest hy
    have hnew := getElem?_block front opts (opnds ++ rest) hy
    have h := hmoved (opnds.length + y) (by omega)
    rw [show opnds.length + y + opts.length = y + (opnds.length + opts.length) by omega,
      Nat.add_mod_right, Nat.mod_eq_of_lt (by omega)] at h
    rw [List.length_append, Nat.add_assoc] at hold
    rw [h, hold, ← hnew, ← List.append_assoc]
  · obtain ⟨y, rfl⟩ : ∃ y, x = front.length + (y + opts.length) :=
      ⟨x - (front.length + opts.length), by omega⟩
    have hy : y < opnds.length := by omega
    have hold := getElem?_block front opnds (opts ++ rest) hy
    have hnew := getElem?_block (front ++ opts) opnds rest hy
    have h := hmoved y (by omega)
    rw [Nat.mod_eq_of_lt (by omega)] at h
    rw [← List.append_assoc] at hold
    rw [List.length_append, Nat.add_assoc, Nat.add_comm opts.length] at hnew
    rw [h, hold, hnew]

/-- What is between two positions, put behind what is before the first. -/
theorem take_append_drop_take {i j : ℕ} (h : i ≤ j) (v : List α) :
    v.take i ++ (v.take j).drop i = v.take j := by
  conv_rhs => rw [← List.take_append_drop i (v.take j)]
  rw [List.take_take, Nat.min_eq_left h]

/-- For all argument vectors and all positions of two neighbouring blocks that are not empty. -/
theorem permute_args_exchanges (nargv : List α) {nonoptStart nonoptEnd optEnd : ℕ}
    (hopnds : nonoptStart < nonoptEnd) (hopts : nonoptEnd < optEnd) (hend : optEnd ≤ nargv.length) :
    permuteArgs nonoptStart nonoptEnd optEnd nargv =
      nargv.take nonoptStart ++ (nargv.take optEnd).drop nonoptEnd ++
        (nargv.take nonoptEnd).drop nonoptStart ++ nargv.drop optEnd := by
  have hfront : (nargv.take nonoptStart).length = nonoptStart := by
    rw [List.length_take]
    omega
  have hskipped : ((nargv.take nonoptEnd).drop nonoptStart).length = nonoptEnd - nonoptStart := by
    rw [List.length_drop, List.length_take]
    omega
  have hfound : ((nargv.take optEnd).drop nonoptEnd).length = optEnd - nonoptEnd := by
    rw [List.length_drop, List.length_take]
    omega
  have hblocks : nargv = nargv.take nonoptStart ++ (nargv.take nonoptEnd).drop nonoptStart ++
      (nargv.take optEnd).drop nonoptEnd ++ nargv.drop optEnd := by
    rw [take_append_drop_take (by omega), take_append_drop_take (by omega), List.take_append_drop]
  have h := permuteArgs_append (nargv.take nonoptStart) (nargv.drop optEnd)
    (List.ne_nil_of_length_pos (by rw [hskipped]; omega))
    (List.ne_nil_of_length_pos (by rw [hfound]; omega))
  rw [← hblocks, hfront, hskipped, hfound] at h
  rwa [show nonoptStart + (nonoptEnd - nonoptStart) = nonoptEnd by omega,
    show nonoptEnd + (optEnd - nonoptEnd) = optEnd by omega] at h

/-- Two operands in front of three options. -/
theorem permute_args_exchanges_five :
    permuteArgs 1 3 6 ["prog", "x", "y", "-a", "-b", "-c", "z"] =
      ["prog", "-a", "-b", "-c", "x", "y", "z"] :=
  permute_args_exchanges _ (by decide) (by decide) (by decide)

end Getopt
end Wpdk
