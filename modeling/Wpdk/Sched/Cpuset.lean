import Mathlib.Data.Finset.Card
import Mathlib.Data.Nat.Bitwise
import Wpdk.Base.Run
import Wpdk.Base.Words

/-!
# Processor sets

`cpuset_t` of `sched.h` is an array of `_NUM_SETS(CPU_SETSIZE)` words of 64 bits, and the macros
`CPU_*` set, clear and test the bit of a processor and combine whole arrays word by word.
`CPU_SETSIZE` is 128 or what the configuration of the caller says.

A processor beyond the last word is not tested for: the macro reads or writes behind the array.
Such a step cannot be taken here.  The array may be larger than `CPU_SETSIZE`, and `CPU_FILL` and
`CPU_NOT` do not stop there: the sets are sets of numbers below 64 times the number of words.

`CPU_COUNT` is not about the same sets.  Its loop runs over the words and tests the bit with the
number of the word, so that it counts the processors whose number is less than the number of words.

* `Memory`, and the macros.
* `sets`: the sets that a memory holds.
* `cpu_sets_are_sets`: any sequence of the macros.
* `cpu_count_eq_card_iff`: when `CPU_COUNT` is right.
-/

namespace Wpdk
namespace Sched

open Run Words

/-- `_BITS_PER_SET`. -/
def bitsPerSet : ℕ := 8 * 8

/-- `_BIT_SET_MASK`. -/
def bitSetMask : ℕ := bitsPerSet - 1

/-- `_NUM_SETS`. -/
def numSets (b : ℕ) : ℕ := (b + bitSetMask) / bitsPerSet

/-- `_WHICH_SET`. -/
def whichSet (b : ℕ) : ℕ := b / bitsPerSet

/-- `_WHICH_BIT`. -/
def whichBit (b : ℕ) : ℕ := b &&& (bitsPerSet - 1)

/-- The arrays of the variables `V`. -/
abbrev Memory (V : Type*) := V → ℕ → BitVec 64

section Macros

variable {V : Type*} [DecidableEq V] (size : ℕ) (m : Memory V)

/-- `CPU_SET`. -/
def cpuSet (b : ℕ) (s : V) : Option (Memory V) :=
  if whichSet b < numSets size then
    some (Function.update m s (Function.update (m s) (whichSet b)
      (m s (whichSet b) ||| 1#64 <<< whichBit b)))
  else none

/-- `CPU_CLR`. -/
def cpuClr (b : ℕ) (s : V) : Option (Memory V) :=
  if whichSet b < numSets size then
    some (Function.update m s (Function.update (m s) (whichSet b)
      (m s (whichSet b) &&& ~~~(1#64 <<< whichBit b))))
  else none

/-- `CPU_ISSET`. -/
def cpuIsset (b : ℕ) (s : V) : Option Bool :=
  if whichSet b < numSets size then some (m s (whichSet b) &&& 1#64 <<< whichBit b != 0)
  else none

/-- `CPU_ZERO`. -/
def cpuZero (s : V) : Memory V := each (fun _ _ => 0#64) s s s (numSets size) m

/-- `CPU_FILL`. -/
def cpuFill (s : V) : Memory V := each (fun _ _ => -1#64) s s s (numSets size) m

/-- `CPU_AND`. -/
def cpuAnd (dst src₁ src₂ : V) : Memory V := each (· &&& ·) dst src₁ src₂ (numSets size) m

/-- `CPU_OR`. -/
def cpuOr (dst src₁ src₂ : V) : Memory V := each (· ||| ·) dst src₁ src₂ (numSets size) m

/-- `CPU_NOT`. -/
def cpuNot (dst src : V) : Memory V := each (fun x _ => x ^^^ -1#64) dst src src (numSets size) m

/-- The loop of `count_cpu`. -/
def countLoop (s : V) : ℕ → ℕ
  | 0 => 0
  | i + 1 => countLoop s i + if cpuIsset size m i s = some true then 1 else 0

/-- `CPU_COUNT`. -/
def countCpu (s : V) : ℕ := countLoop size m s (numSets size)

end Macros

/-- The macros that write. -/
inductive Macro (V : Type*) where
  | set (b : ℕ) (s : V)
  | clr (b : ℕ) (s : V)
  | zero (s : V)
  | fill (s : V)
  | and (dst src₁ src₂ : V)
  | or (dst src₁ src₂ : V)
  | not (dst src : V)

section Steps

variable {V : Type*} [DecidableEq V]

/-- A macro. -/
def step (size : ℕ) (m : Memory V) : Macro V → Option (Memory V)
  | .set b s => cpuSet size m b s
  | .clr b s => cpuClr size m b s
  | .zero s => some (cpuZero size m s)
  | .fill s => some (cpuFill size m s)
  | .and dst src₁ src₂ => some (cpuAnd size m dst src₁ src₂)
  | .or dst src₁ src₂ => some (cpuOr size m dst src₁ src₂)
  | .not dst src => some (cpuNot size m dst src)

/-- The numbers that an array has a bit for. -/
def numbers (size : ℕ) : Finset ℕ := Finset.range (64 * numSets size)

/-- The same for sets. -/
def setStep (size : ℕ) (a : V → Finset ℕ) : Macro V → Option (V → Finset ℕ)
  | .set b s => if b ∈ numbers size then some (Function.update a s (insert b (a s))) else none
  | .clr b s => if b ∈ numbers size then some (Function.update a s ((a s).erase b)) else none
  | .zero s => some (Function.update a s ∅)
  | .fill s => some (Function.update a s (numbers size))
  | .and dst src₁ src₂ => some (Function.update a dst (a src₁ ∩ a src₂))
  | .or dst src₁ src₂ => some (Function.update a dst (a src₁ ∪ a src₂))
  | .not dst src => some (Function.update a dst (numbers size \ a src))

/-- The sets in memory. -/
def sets (size : ℕ) (m : Memory V) (v : V) : Finset ℕ := members (numSets size) (m v)

end Steps

/-! ## One macro -/

theorem whichBit_eq (b : ℕ) : whichBit b = b % 64 := Nat.and_two_pow_sub_one_eq_mod b 6

theorem whichSet_lt_iff {size b : ℕ} : whichSet b < numSets size ↔ b ∈ numbers size := by
  rw [numbers, Finset.mem_range]
  exact (Nat.div_lt_iff_lt_mul (by decide)).trans (by rw [Nat.mul_comm]; exact Iff.rfl)

section One

variable {V : Type*} [DecidableEq V] (size : ℕ) (m : Memory V)

theorem sets_update (s : V) (a : ℕ → BitVec 64) :
    sets size (Function.update m s a) =
      Function.update (sets size m) s (members (numSets size) a) :=
  Function.comp_update (members (numSets size)) m s a

theorem sets_each (g : BitVec 64 → BitVec 64 → BitVec 64) (dst src₁ src₂ : V) :
    sets size (each g dst src₁ src₂ (numSets size) m) =
      Function.update (sets size m) dst
        (members (numSets size) fun i => g (m src₁ i) (m src₂ i)) :=
  members_each g dst src₁ src₂ (numSets size) m

/-- **One macro.** -/
theorem sets_step (op : Macro V) :
    (step size m op).map (sets size) = setStep size (sets size m) op := by
  have hones : -1#64 = BitVec.allOnes 64 := BitVec.neg_one_eq_allOnes
  cases op with
  | set b s =>
    rw [step, setStep, cpuSet]
    by_cases hb : b ∈ numbers size
    · rw [if_pos (whichSet_lt_iff.mpr hb), if_pos hb, Option.map_some, sets_update, whichBit_eq]
      exact congrArg (fun x => some (Function.update (sets size m) s x))
        (members_setBit (by decide) (Finset.mem_range.mp hb))
    · rw [if_neg (mt whichSet_lt_iff.mp hb), if_neg hb]
      rfl
  | clr b s =>
    rw [step, setStep, cpuClr]
    by_cases hb : b ∈ numbers size
    · rw [if_pos (whichSet_lt_iff.mpr hb), if_pos hb, Option.map_some, sets_update, whichBit_eq]
      exact congrArg (fun x => some (Function.update (sets size m) s x))
        (members_clearBit (by decide))
    · rw [if_neg (mt whichSet_lt_iff.mp hb), if_neg hb]
      rfl
  | zero s =>
    rw [step, cpuZero, Option.map_some, sets_each, members_zero]
    rfl
  | fill s =>
    rw [step, cpuFill, Option.map_some, sets_each, hones, members_allOnes (by decide)]
    rfl
  | and dst src₁ src₂ =>
    rw [step, cpuAnd, Option.map_some, sets_each, members_and]
    rfl
  | or dst src₁ src₂ =>
    rw [step, cpuOr, Option.map_some, sets_each, members_or]
    rfl
  | not dst src =>
    rw [step, cpuNot, Option.map_some, sets_each, hones, members_xor_allOnes (by decide)]
    rfl

omit [DecidableEq V] in
/-- A test of the bit is a test of the set. -/
theorem cpuIsset_eq (b : ℕ) (s : V) :
    cpuIsset size m b s =
      if b ∈ numbers size then some (decide (b ∈ sets size m s)) else none := by
  unfold cpuIsset
  by_cases hb : b ∈ numbers size
  · have hbit : (m s (whichSet b) &&& 1#64 <<< whichBit b != 0) = bit (m s) b := by
      rw [whichBit_eq]
      exact and_one_shiftLeft_ne_zero _ (Nat.mod_lt b (by decide))
    rw [if_pos (whichSet_lt_iff.mpr hb), if_pos hb, hbit, sets, Option.some.injEq]
    cases hbit : bit (m s) b with
    | true => exact (decide_eq_true (mem_members.mpr ⟨Finset.mem_range.mp hb, hbit⟩)).symm
    | false =>
      refine (decide_eq_false fun hmem => ?_).symm
      exact Bool.false_ne_true (hbit.symm.trans (mem_members.mp hmem).2)
  · rw [if_neg (mt whichSet_lt_iff.mp hb), if_neg hb]

end One

/-! ## Any sequence of the macros -/

/-- **Processor sets are sets**: whatever the arrays hold at first, any sequence of the macros does
to the sets in memory what the set operations do, also where a set is combined with itself, and
cannot be taken exactly where a processor has no bit; and `CPU_ISSET` tells the elements. -/
theorem cpu_sets_are_sets {V : Type*} [DecidableEq V] (size : ℕ) (m : Memory V)
    (ops : List (Macro V)) :
    (exec (step size) m ops).map (sets size) = exec (setStep size) (sets size m) ops ∧
      ∀ (m' : Memory V) (b : ℕ) (s : V), cpuIsset size m' b s =
        if b ∈ numbers size then some (decide (b ∈ sets size m' s)) else none :=
  ⟨exec_map (sets_step size) m ops, cpuIsset_eq size⟩

/-! ## Counting -/

section Count

variable {V : Type*} (size : ℕ) (m : Memory V) (s : V)

theorem countLoop_eq {n : ℕ} (hn : n ≤ numSets size) :
    countLoop size m s n = ((sets size m s).filter (· < n)).card := by
  induction n with
  | zero => simp [countLoop]
  | succ n ih =>
    have hn' : n ∈ numbers size := by
      rw [numbers, Finset.mem_range]
      omega
    have hfilter : (sets size m s).filter (· < n + 1) =
        if n ∈ sets size m s then insert n ((sets size m s).filter (· < n))
        else (sets size m s).filter (· < n) := by
      ext b
      split
      · rename_i hmem
        simp only [Finset.mem_insert, Finset.mem_filter, Nat.lt_succ_iff_lt_or_eq]
        constructor
        · rintro ⟨hb, hlt | rfl⟩
          · exact Or.inr ⟨hb, hlt⟩
          · exact Or.inl rfl
        · rintro (rfl | ⟨hb, hlt⟩)
          · exact ⟨hmem, Or.inr rfl⟩
          · exact ⟨hb, Or.inl hlt⟩
      · rename_i hmem
        simp only [Finset.mem_filter, Nat.lt_succ_iff_lt_or_eq]
        refine and_congr_right fun hb => ⟨fun h => h.resolve_right ?_, Or.inl⟩
        rintro rfl
        exact hmem hb
    rw [countLoop, ih (Nat.le_of_succ_le hn), cpuIsset_eq, if_pos hn', hfilter]
    by_cases hmem : n ∈ sets size m s
    · rw [if_pos hmem, if_pos (by rw [decide_eq_true hmem]), Finset.card_insert_of_notMem]
      simp
    · rw [if_neg hmem, if_neg (by rw [decide_eq_false hmem]; decide), Nat.add_zero]

/-- **When `CPU_COUNT` is right**: it counts the processors of the set whose number is less than the
number of words, and this is the number of all of them exactly if there are no others. -/
theorem cpu_count_eq_card_iff :
    countCpu size m s = ((sets size m s).filter (· < numSets size)).card ∧
      (countCpu size m s = (sets size m s).card ↔ ∀ b ∈ sets size m s, b < numSets size) := by
  have hcount := countLoop_eq size m s (Nat.le_refl (numSets size))
  refine ⟨hcount, ?_⟩
  rw [countCpu, hcount]
  constructor
  · intro hcard b hb
    have heq := Finset.eq_of_subset_of_card_le (Finset.filter_subset _ _) (Nat.le_of_eq hcard.symm)
    rw [← heq] at hb
    exact (Finset.mem_filter.mp hb).2
  · intro hall
    rw [Finset.filter_true_of_mem hall]

end Count

/-- With the default size, processors `0`, `1` and `2` are counted as two. -/
example : countCpu 128 (fun (_ : Unit) _ => 7#64) () = 2 := by decide

end Sched
end Wpdk
