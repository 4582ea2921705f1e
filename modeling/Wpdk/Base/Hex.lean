import Mathlib.Data.Nat.Digits.Lemmas
import Mathlib.Order.Nat

/-!
# Hexadecimal text

The conversions `%0wX` and `%0wx` of `printf` write a number with sixteen digits, in capitals or
not, and with zeros in front of it up to a width.  A reader takes digits of either case.

* `formatHex`: the conversion; `length_formatHex`, `isHex_of_mem_formatHex`: what it writes when
  the number fits the width.
* `readHex`: the number that a text of digits stands for; `readHex_formatHex`: reading what was
  written.
* `compareText`: the lexicographic order of texts.  `compareText_formatHex`: numbers in small
  letters and of the same width are ordered as texts the way they are as numbers.  In ASCII the
  digits come before the letters.
-/

namespace Wpdk

/-- The digit for a number below sixteen. -/
def hexDigit (upper : Bool) (d : ℕ) : Char :=
  if d < 10 then Char.ofNat (48 + d) else Char.ofNat ((if upper then 65 else 97) + (d - 10))

/-- The number of a digit of either case. -/
def hexVal (c : Char) : Option ℕ :=
  if 48 ≤ c.toNat ∧ c.toNat ≤ 57 then some (c.toNat - 48)
  else if 65 ≤ c.toNat ∧ c.toNat ≤ 70 then some (c.toNat - 65 + 10)
  else if 97 ≤ c.toNat ∧ c.toNat ≤ 102 then some (c.toNat - 97 + 10)
  else none

/-- A digit of either case. -/
def IsHex (c : Char) : Prop := (hexVal c).isSome = true

instance (c : Char) : Decidable (IsHex c) := inferInstanceAs (Decidable (_ = true))

/-- The number that a text of digits stands for. -/
def readHex (text : List Char) : ℕ :=
  Nat.ofDigits 16 (text.map fun c => (hexVal c).getD 0).reverse

/-- `%0wX`, or `%0wx`, for a width of at least one. -/
def formatHex (upper : Bool) (width n : ℕ) : List Char :=
  ((Nat.digits 16 n).reverse.map (hexDigit upper)).leftpad width '0'

theorem hexVal_hexDigit (upper : Bool) {d : ℕ} (h : d < 16) :
    hexVal (hexDigit upper d) = some d := by
  interval_cases d <;> cases upper <;> rfl

variable (upper : Bool) {width n : ℕ}

/-- A number that fits the width is written with as many digits. -/
theorem length_formatHex (h : n < 16 ^ width) : (formatHex upper width n).length = width := by
  have hdigits : (Nat.digits 16 n).length ≤ width := (Nat.digits_length_le_iff (by omega) n).mpr h
  rw [formatHex, List.leftpad, List.length_append, List.length_replicate, List.length_map,
    List.length_reverse]
  omega

theorem isHex_of_mem_formatHex {c : Char} (hc : c ∈ formatHex upper width n) : IsHex c := by
  rw [formatHex, List.leftpad, List.mem_append, List.mem_replicate, List.mem_map] at hc
  rcases hc with ⟨-, rfl⟩ | ⟨d, hd, rfl⟩
  · decide
  · have hlt : d < 16 := Nat.digits_lt_base (by omega) (List.mem_reverse.mp hd)
    rw [IsHex, hexVal_hexDigit upper hlt]
    rfl

/-- **What was written is read back**, whatever the case. -/
theorem readHex_formatHex (width n : ℕ) : readHex (formatHex upper width n) = n := by
  have hzero : (hexVal '0').getD 0 = 0 := rfl
  have hval : ∀ d ∈ Nat.digits 16 n, (hexVal (hexDigit upper d)).getD 0 = d := by
    intro d hd
    rw [hexVal_hexDigit upper (Nat.digits_lt_base (by omega) hd)]
    rfl
  have hdigits : ((Nat.digits 16 n).reverse.map (hexDigit upper)).map
      (fun c => (hexVal c).getD 0) = (Nat.digits 16 n).reverse := by
    rw [List.map_map]
    exact (List.map_congr_left fun d hd => hval d (List.mem_reverse.mp hd)).trans (List.map_id _)
  -- read from the last digit on, the zeros in front come last and count for nothing
  rw [readHex, formatHex, List.leftpad, List.map_append, List.map_replicate, hzero, hdigits,
    List.reverse_append, List.reverse_reverse, List.reverse_replicate,
    Nat.ofDigits_append_replicate_zero, Nat.ofDigits_digits]

/-- The last digit is the remainder. -/
theorem formatHex_succ (width n : ℕ) :
    formatHex upper (width + 1) n =
      formatHex upper width (n / 16) ++ [hexDigit upper (n % 16)] := by
  rcases Nat.eq_zero_or_pos n with rfl | hpos
  · have hzero : hexDigit upper 0 = '0' := rfl
    simp [formatHex, List.leftpad, hzero, List.replicate_succ']
  · rw [formatHex, formatHex, Nat.digits_def' (by decide) hpos, List.reverse_cons, List.map_append,
      List.leftpad, List.leftpad, List.length_append, List.append_assoc]
    congr 2
    simp

/-! ## Order -/

section Lexicographic

variable {α : Type*} {cmp : α → α → Ordering}

/-- What comes behind lists of one length decides if they are equal. -/
theorem compareLex_append {a b : List α} (h : a.length = b.length) (c d : List α) :
    List.compareLex cmp (a ++ c) (b ++ d) =
      (List.compareLex cmp a b).then (List.compareLex cmp c d) := by
  induction a generalizing b with
  | nil =>
    obtain rfl := List.eq_nil_of_length_eq_zero h.symm
    rfl
  | cons x a ih =>
    cases b with
    | nil => cases h
    | cons y b =>
      rw [List.cons_append, List.cons_append, List.compareLex_cons_cons, List.compareLex_cons_cons,
        ih (Nat.succ.inj h), Ordering.then_assoc]

end Lexicographic

/-- The lexicographic order of texts, by the codes of the characters. -/
def compareText : List Char → List Char → Ordering := List.compareLex (compareOn Char.toNat)

instance transCmp_compareText : Std.TransCmp compareText :=
  inferInstanceAs (Std.TransCmp (List.compareLex (compareOn Char.toNat)))

instance lawfulEqCmp_charToNat : Std.LawfulEqCmp (compareOn Char.toNat) where
  eq_of_compare h := Char.toNat_inj.mp (Nat.compare_eq_eq.mp h)

instance lawfulEqCmp_compareText : Std.LawfulEqCmp compareText :=
  inferInstanceAs (Std.LawfulEqCmp (List.compareLex (compareOn Char.toNat)))

theorem compareText_append {a b : List Char} (h : a.length = b.length) (c d : List Char) :
    compareText (a ++ c) (b ++ d) = (compareText a b).then (compareText c d) :=
  compareLex_append h c d

@[simp] theorem compareText_cons_self (x : Char) (a b : List Char) :
    compareText (x :: a) (x :: b) = compareText a b := by
  have hself : compareOn Char.toNat x x = .eq := Std.ReflCmp.compare_self
  rw [compareText, List.compareLex_cons_cons, hself, Ordering.eq_then]

/-- Small letters are ordered after the digits, and both among themselves. -/
theorem compareText_hexDigit {d e : ℕ} (hd : d < 16) (he : e < 16) :
    compareText [hexDigit false d] [hexDigit false e] = compare d e := by
  have hall : ∀ d e : Fin 16,
      compareText [hexDigit false d] [hexDigit false e] = compare d.val e.val := by decide
  exact hall ⟨d, hd⟩ ⟨e, he⟩

theorem compare_div_mod (n m : ℕ) :
    (compare (n / 16) (m / 16)).then (compare (n % 16) (m % 16)) = compare n m := by
  rcases Nat.lt_trichotomy (n / 16) (m / 16) with hlt | heq | hgt
  · rw [Nat.compare_eq_lt.mpr hlt, Ordering.lt_then, eq_comm, Nat.compare_eq_lt]
    omega
  · rw [Nat.compare_eq_eq.mpr heq, Ordering.eq_then]
    rcases Nat.lt_trichotomy (n % 16) (m % 16) with hlt | heq' | hgt
    · rw [Nat.compare_eq_lt.mpr hlt, eq_comm, Nat.compare_eq_lt]
      omega
    · rw [Nat.compare_eq_eq.mpr heq', eq_comm, Nat.compare_eq_eq]
      omega
    · rw [Nat.compare_eq_gt.mpr hgt, eq_comm, Nat.compare_eq_gt]
      omega
  · rw [Nat.compare_eq_gt.mpr hgt, Ordering.gt_then, eq_comm, Nat.compare_eq_gt]
    omega

/-- **Numbers of one width are ordered as their texts are.** -/
theorem compareText_formatHex {n m : ℕ} (hn : n < 16 ^ width) (hm : m < 16 ^ width) :
    compareText (formatHex false width n) (formatHex false width m) = compare n m := by
  -- from the last digit on: the rest of the number decides, and the digit if the rests are equal
  induction width generalizing n m with
  | zero =>
    obtain rfl : n = 0 := Nat.lt_one_iff.mp hn
    obtain rfl : m = 0 := Nat.lt_one_iff.mp hm
    rfl
  | succ width ih =>
    have hn' : n / 16 < 16 ^ width := Nat.div_lt_of_lt_mul (by rwa [← Nat.pow_succ'])
    have hm' : m / 16 < 16 ^ width := Nat.div_lt_of_lt_mul (by rwa [← Nat.pow_succ'])
    have hlength :
        (formatHex false width (n / 16)).length = (formatHex false width (m / 16)).length := by
      rw [length_formatHex false hn', length_formatHex false hm']
    rw [formatHex_succ, formatHex_succ, compareText_append hlength, ih hn' hm',
      compareText_hexDigit (Nat.mod_lt n (by decide)) (Nat.mod_lt m (by decide)), compare_div_mod]

end Wpdk
