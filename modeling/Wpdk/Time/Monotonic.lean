import Wpdk.Time.Deadline

/-!
# The monotonic clock

`wpdk_clock_gettime` for `CLOCK_MONOTONIC` and `CLOCK_MONOTONIC_RAW` turns the performance counter
into seconds and nanoseconds, with two divisions by the frequency that both truncate: the quotient
gives the seconds, and the rest, scaled, the nanoseconds.

Rounding the two separately comes to the same as rounding the time as a whole down to nanoseconds
(`nanos_eq`), and that is why the order is kept across the boundary of a second.

* `Counter`: a counter value with its frequency; `Counter.time`: seconds and nanoseconds as exact
  numbers.
* `monotonic_eq`: the function computes them without overflow.
* `monotonic_clock_conversion`: the conversion is normalised, monotone and exact up to a nanosecond.
-/

namespace Wpdk
namespace Time

open IntType

/-- A counter value with a frequency that leaves room for the scaling, and a number of seconds that
fits a `long`. -/
structure Counter where
  stamp : ℤ
  freq : ℤ
  stamp_nonneg : 0 ≤ stamp
  freq_pos : 1 ≤ freq
  freq_le : freq ≤ 9223372036854775807 / 1000000000
  seconds_lt : stamp / freq < 2147483648

namespace Counter

variable (c : Counter)

theorem rest_nonneg : 0 ≤ c.stamp % c.freq := by
  have hpos := c.freq_pos
  exact Int.emod_nonneg c.stamp (by omega)

theorem rest_lt : c.stamp % c.freq < c.freq := by
  have hpos := c.freq_pos
  exact Int.emod_lt_of_pos c.stamp (by omega)

/-- The rest, scaled, fits 63 bits. -/
theorem fits_scaled : int64.Fits (c.stamp % c.freq * 1000000000) := by
  have hnonneg := c.rest_nonneg
  have hlt := c.rest_lt
  have hmax := c.freq_le
  rw [fits_int64]
  omega

theorem seconds_nonneg : 0 ≤ c.stamp / c.freq := by
  have hpos := c.freq_pos
  exact Int.ediv_nonneg c.stamp_nonneg (by omega)

theorem nsec_nonneg : 0 ≤ c.stamp % c.freq * 1000000000 / c.freq := by
  have hpos := c.freq_pos
  have hrest := c.rest_nonneg
  exact Int.ediv_nonneg (by omega) (by omega)

theorem nsec_lt : c.stamp % c.freq * 1000000000 / c.freq < 1000000000 := by
  have hpos := c.freq_pos
  have hrest := c.rest_lt
  exact Int.ediv_lt_of_lt_mul (by omega) (by omega)

/-- Seconds and nanoseconds, without any conversion. -/
def time : Timespec where
  tvSec := c.stamp / c.freq
  tvNsec := c.stamp % c.freq * 1000000000 / c.freq
  fits_tvSec := by
    have hnonneg := c.seconds_nonneg
    have hlt := c.seconds_lt
    rw [fits_int64]
    omega
  fits_tvNsec := by
    have hnonneg := c.nsec_nonneg
    have hlt := c.nsec_lt
    rw [fits_int32]
    omega

/-- **The function computes these**: nothing overflows, and the conversions to `long` change
nothing. -/
theorem monotonic_eq : monotonic c.stamp c.freq = some c.time := by
  have hsec : toInt32 (c.stamp.tdiv c.freq) = c.time.tvSec := by
    have hnonneg := c.seconds_nonneg
    have hlt := c.seconds_lt
    rw [tdiv_of_nonneg _ c.stamp_nonneg, toInt32_of_fits (by rw [fits_int32]; omega)]
    rfl
  have hnsec : toInt32 ((c.stamp % c.freq * 1000000000).tdiv c.freq) = c.time.tvNsec := by
    have hnonneg := c.rest_nonneg
    rw [tdiv_of_nonneg _ (by omega)]
    exact toInt32_of_fits c.time.fits_tvNsec
  rw [monotonic, Int.tmod_eq_emod_of_nonneg c.stamp_nonneg, value_of_fits c.fits_scaled,
    Option.map_some]
  simp only [Timespec.ofLong, hsec, hnsec]

theorem clockGettime_eq (now : Filetime) :
    clockGettime ⟨now, c.stamp, c.freq⟩ .monotonic true = some (.ok c.time) ∧
      clockGettime ⟨now, c.stamp, c.freq⟩ .monotonicRaw true = some (.ok c.time) := by
  have hok : (monotonic c.stamp c.freq).map Except.ok =
      some (Except.ok c.time : Except Errno Timespec) := by
    rw [c.monotonic_eq, Option.map_some]
  exact ⟨hok, hok⟩

theorem normalised : c.time.Normalised := ⟨c.nsec_nonneg, c.nsec_lt⟩

/-- **The time as a whole is rounded down.** -/
theorem nanos_eq : c.time.nanos = c.stamp * 1000000000 / c.freq := by
  have hpos := c.freq_pos
  have hsplit : c.stamp * 1000000000 =
      c.stamp % c.freq * 1000000000 + c.stamp / c.freq * 1000000000 * c.freq := by
    have hdiv := Int.emod_add_mul_ediv c.stamp c.freq
    calc c.stamp * 1000000000
        = (c.stamp % c.freq + c.freq * (c.stamp / c.freq)) * 1000000000 := by rw [hdiv]
      _ = c.stamp % c.freq * 1000000000 + c.stamp / c.freq * 1000000000 * c.freq := by
        rw [Int.add_mul, Int.mul_comm c.freq, Int.mul_right_comm]
  rw [hsplit, Int.add_mul_ediv_right _ _ (by omega), Timespec.nanos, Int.add_comm]
  rfl

/-- The nanoseconds differ from the exact time by less than one. -/
theorem nanos_close :
    c.time.nanos * c.freq ≤ c.stamp * 1000000000 ∧
      c.stamp * 1000000000 < (c.time.nanos + 1) * c.freq := by
  have hpos := c.freq_pos
  rw [c.nanos_eq]
  exact ⟨Int.ediv_mul_le _ (by omega), Int.lt_ediv_add_one_mul_self _ (by omega)⟩

end Counter

/-- Normalised times with ordered nanoseconds are ordered by their fields. -/
theorem lex_of_nanos_le {t t' : Timespec} (ht : t.Normalised) (ht' : t'.Normalised)
    (h : t.nanos ≤ t'.nanos) :
    t.tvSec < t'.tvSec ∨ t.tvSec = t'.tvSec ∧ t.tvNsec ≤ t'.tvNsec := by
  unfold Timespec.Normalised at ht ht'
  rw [Timespec.nanos, Timespec.nanos] at h
  omega

/-- For every frequency between one and `(2^63 - 1) / 10^9` and all counter values, from zero on and
in order, with fewer than `2^31` seconds: the clock has a time for both, normalised and without
overflow, the first not after the second, and each less than a nanosecond below the exact time. -/
theorem monotonic_clock_conversion (now : Filetime) (freq s₁ s₂ : ℤ) (hfreq : 1 ≤ freq)
    (hroom : freq ≤ 9223372036854775807 / 1000000000) (hstart : 0 ≤ s₁) (horder : s₁ ≤ s₂)
    (hseconds : s₂ / freq < 2147483648) :
    ∃ t₁ t₂, clockGettime ⟨now, s₁, freq⟩ .monotonic true = some (.ok t₁) ∧
      clockGettime ⟨now, s₂, freq⟩ .monotonic true = some (.ok t₂) ∧
      t₁.Normalised ∧ t₂.Normalised ∧
      (int64.Fits (s₁ % freq * 1000000000) ∧ int64.Fits (s₂ % freq * 1000000000)) ∧
      (t₁.tvSec < t₂.tvSec ∨ t₁.tvSec = t₂.tvSec ∧ t₁.tvNsec ≤ t₂.tvNsec) ∧
      (t₁.nanos * freq ≤ s₁ * 1000000000 ∧ s₁ * 1000000000 < (t₁.nanos + 1) * freq) ∧
      (t₂.nanos * freq ≤ s₂ * 1000000000 ∧ s₂ * 1000000000 < (t₂.nanos + 1) * freq) := by
  have hearlier : s₁ / freq < 2147483648 :=
    Int.lt_of_le_of_lt (Int.ediv_le_ediv (by omega) horder) hseconds
  let c₁ : Counter := ⟨s₁, freq, hstart, hfreq, hroom, hearlier⟩
  let c₂ : Counter := ⟨s₂, freq, by omega, hfreq, hroom, hseconds⟩
  have hnanos : c₁.time.nanos ≤ c₂.time.nanos := by
    rw [c₁.nanos_eq, c₂.nanos_eq]
    show s₁ * 1000000000 / freq ≤ s₂ * 1000000000 / freq
    exact Int.ediv_le_ediv (by omega) (by omega)
  exact ⟨c₁.time, c₂.time, (c₁.clockGettime_eq now).1, (c₂.clockGettime_eq now).1, c₁.normalised,
    c₂.normalised, ⟨c₁.fits_scaled, c₂.fits_scaled⟩,
    lex_of_nanos_le c₁.normalised c₂.normalised hnanos, c₁.nanos_close, c₂.nanos_close⟩

/-- A frequency of 10 MHz, and two values on either side of the end of a second. -/
theorem monotonic_clock_conversion_second :
    ∃ t₁ t₂, clockGettime ⟨⟨0, 0⟩, 9999999, 10000000⟩ .monotonic true = some (.ok t₁) ∧
      clockGettime ⟨⟨0, 0⟩, 10000001, 10000000⟩ .monotonic true = some (.ok t₂) ∧
      t₁.Normalised ∧ t₂.Normalised ∧
      (int64.Fits (9999999 % 10000000 * 1000000000) ∧
        int64.Fits (10000001 % 10000000 * 1000000000)) ∧
      (t₁.tvSec < t₂.tvSec ∨ t₁.tvSec = t₂.tvSec ∧ t₁.tvNsec ≤ t₂.tvNsec) ∧
      (t₁.nanos * 10000000 ≤ 9999999 * 1000000000 ∧
        9999999 * 1000000000 < (t₁.nanos + 1) * 10000000) ∧
      (t₂.nanos * 10000000 ≤ 10000001 * 1000000000 ∧
        10000001 * 1000000000 < (t₂.nanos + 1) * 10000000) :=
  monotonic_clock_conversion ⟨0, 0⟩ 10000000 9999999 10000001 (by decide) (by decide) (by decide)
    (by decide) (by decide)

end Time
end Wpdk
