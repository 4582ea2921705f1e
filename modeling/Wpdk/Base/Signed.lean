import Mathlib.Data.Int.Notation
import Mathlib.Data.Nat.Notation

/-!
# Signed integer types

An operation on a signed type of C has the exact result when that fits the type, and no meaning
otherwise.  Values are integers; the operation whose exact result is `x` is `t.value x`, which is
`none` where it overflows.

A conversion to a type has a meaning for every value: it is taken modulo the number of values of
the type.  Division truncates, so that a quotient is rounded down for a positive dividend and up
for a negative one.

* `IntType.value`: an operation; `IntType.value_bind_eq_some` takes it apart.
* `toInt32`, `toDword`, `toInt64`, `toSize`: conversions to the signed and the unsigned types of 32
  and of 64 bits.
* `intMax`, `ssizeMax`, `iovMax`: limits that lengths and counts are tested against.
* `highPart`, `lowPart`, `ofHalves`: a number of 64 bits in two halves.
* `tdiv_of_nonneg`, `tdiv_of_nonpos`: truncating division as rounding division.
-/

namespace Wpdk

/-- The bounds of a signed integer type. -/
structure IntType where
  min : ℤ
  max : ℤ

namespace IntType

/-- `int`. -/
def int32 : IntType := ⟨-2147483648, 2147483647⟩

/-- `int64_t`. -/
def int64 : IntType := ⟨-9223372036854775808, 9223372036854775807⟩

variable (t : IntType) {x : ℤ}

/-- The value is in the range of the type. -/
def Fits (x : ℤ) : Prop := t.min ≤ x ∧ x ≤ t.max

instance (x : ℤ) : Decidable (t.Fits x) := inferInstanceAs (Decidable (_ ∧ _))

/-- The value of an operation with exact result `x`. -/
def value (x : ℤ) : Option ℤ := if t.Fits x then some x else none

variable {t}

theorem value_of_fits (h : t.Fits x) : t.value x = some x := if_pos h

theorem value_of_not_fits (h : ¬ t.Fits x) : t.value x = none := if_neg h

theorem value_eq_some_iff {y : ℤ} : t.value x = some y ↔ t.Fits x ∧ x = y := by
  unfold value
  by_cases h : t.Fits x
  · simp [h]
  · simp [h]

theorem value_bind_eq_some {α : Type} {f : ℤ → Option α} {a : α} :
    (t.value x).bind f = some a ↔ t.Fits x ∧ f x = some a := by
  unfold value
  by_cases h : t.Fits x
  · simp [h]
  · simp [h]

theorem fits_int32 : int32.Fits x ↔ -2147483648 ≤ x ∧ x ≤ 2147483647 := Iff.rfl

theorem fits_int64 : int64.Fits x ↔ -9223372036854775808 ≤ x ∧ x ≤ 9223372036854775807 :=
  Iff.rfl

end IntType

/-- `INT_MAX`. -/
def intMax : ℕ := 2147483647

/-- `SSIZE_MAX`. -/
def ssizeMax : ℕ := 9223372036854775807

/-- `IOV_MAX`. -/
def iovMax : ℕ := 1024

/-- Conversion to a signed type of 32 bits, such as `long`. -/
def toInt32 (x : ℤ) : ℤ := x.bmod 4294967296

theorem fits_toInt32 (x : ℤ) : IntType.int32.Fits (toInt32 x) := by
  have hle := Int.le_bmod (x := x) (m := 4294967296) (by decide)
  have hlt := Int.bmod_lt (x := x) (m := 4294967296) (by decide)
  rw [IntType.fits_int32, toInt32]
  omega

theorem toInt32_of_fits {x : ℤ} (h : IntType.int32.Fits x) : toInt32 x = x := by
  rw [IntType.fits_int32] at h
  exact Int.bmod_eq_of_le (by omega) (by omega)

/-- Conversion to an unsigned type of 32 bits, such as `DWORD`. -/
def toDword (x : ℤ) : ℕ := (x % 4294967296).toNat

theorem toDword_of_lt {x : ℤ} (h : 0 ≤ x) (h' : x < 4294967296) : (toDword x : ℤ) = x := by
  rw [toDword, Int.emod_eq_of_lt h h', Int.toNat_of_nonneg h]

/-- Conversion to a signed type of 64 bits. -/
def toInt64 (x : ℤ) : ℤ := x.bmod 18446744073709551616

theorem toInt64_of_fits {x : ℤ} (h : IntType.int64.Fits x) : toInt64 x = x := by
  rw [IntType.fits_int64] at h
  exact Int.bmod_eq_of_le (by omega) (by omega)

/-- Conversion to an unsigned type of 64 bits, such as `size_t` or a pointer. -/
def toSize (x : ℤ) : ℕ := (x % 18446744073709551616).toNat

theorem toSize_of_lt {x : ℤ} (h : 0 ≤ x) (h' : x < 18446744073709551616) :
    (toSize x : ℤ) = x := by
  rw [toSize, Int.emod_eq_of_lt h h', Int.toNat_of_nonneg h]

/-- The upper half of a signed number of 64 bits. -/
def highPart (x : ℤ) : ℤ := x / 4294967296

/-- The lower half of a signed number of 64 bits. -/
def lowPart (x : ℤ) : ℕ := toDword x

theorem lowPart_of_highPart {x : ℤ} (h : highPart x = 0) : (lowPart x : ℤ) = x := by
  rw [highPart] at h
  exact toDword_of_lt (by omega) (by omega)

/-- The unsigned number of 64 bits with the given halves. -/
def ofHalves (high low : ℕ) : ℕ := high * 4294967296 + low

theorem highPart_eq_zero_iff {x : ℤ} : highPart x = 0 ↔ 0 ≤ x ∧ x < 4294967296 := by
  rw [highPart]
  omega

theorem ofHalves_of_nonneg {x : ℤ} (h : 0 ≤ x) (h' : IntType.int64.Fits x) :
    (ofHalves (toDword (highPart x)) (lowPart x) : ℤ) = x := by
  rw [IntType.fits_int64] at h'
  rw [ofHalves, lowPart, toDword, toDword, highPart]
  omega

theorem tdiv_of_nonneg {x : ℤ} (n : ℤ) (h : 0 ≤ x) : x.tdiv n = x / n :=
  Int.tdiv_eq_ediv_of_nonneg h

theorem tdiv_of_nonpos {x : ℤ} (n : ℤ) (h : x ≤ 0) : x.tdiv n = -(-x / n) := by
  rw [← Int.tdiv_eq_ediv_of_nonneg (by omega : 0 ≤ -x), Int.neg_tdiv, Int.neg_neg]

end Wpdk
