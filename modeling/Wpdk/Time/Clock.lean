import Wpdk.Base.Signed
import Wpdk.Error

/-!
# Times of the system

`wpdk_clock_gettime` and `wpdk_gettimeofday` of `time.c`, and `wpdk_getrusage` of `resource.c`.
The system counts in units of 100 nanoseconds, from 1601 for the wall clock; a count comes in two
halves of 32 bits, is put together as an unsigned number of 64 bits, and is divided into seconds
and a rest.  A `long` has 32 bits here, while a `time_t` has 64.

* `Filetime`, `Timespec`, `Timeval`: the structures; a `Timespec` carries the ranges of its fields.
* `clockGettime`, `gettimeofday`, `getrusage`: the functions.
* `tvSec_realtime`, `tvNsec_realtime`, `usage_eq`: the fields in terms of the count.
* `filetime_preserved_iff`: the times that are denoted as they should be.
-/

namespace Wpdk
namespace Time

open IntType

/-- `FILETIME`. -/
structure Filetime where
  high : BitVec 32
  low : BitVec 32

/-- `ULARGE_INTEGER.QuadPart` once both halves are set. -/
def Filetime.quadPart (t : Filetime) : BitVec 64 := t.high ++ t.low

/-- The number of units of 100 nanoseconds. -/
def Filetime.ticks (t : Filetime) : ℕ := t.quadPart.toNat

/-- `struct timespec`, with a `time_t` of 64 bits and a `long` of 32. -/
structure Timespec where
  tvSec : ℤ
  tvNsec : ℤ
  fits_tvSec : int64.Fits tvSec
  fits_tvNsec : int32.Fits tvNsec

/-- `struct timeval`, with two fields of 32 bits. -/
structure Timeval where
  tvSec : ℤ
  tvUsec : ℤ
deriving DecidableEq

theorem fits_int64_of_int32 {x : ℤ} (h : int32.Fits x) : int64.Fits x := by
  rw [fits_int32] at h
  rw [fits_int64]
  omega

/-- The fields set from two values that are converted to `long`. -/
def Timespec.ofLong (sec nsec : ℤ) : Timespec :=
  ⟨toInt32 sec, toInt32 nsec, fits_int64_of_int32 (fits_toInt32 sec), fits_toInt32 nsec⟩

/-- The clocks that are known, and any other number. -/
inductive Clock where
  | realtime
  | monotonic
  | monotonicRaw
  | other
deriving DecidableEq

/-- What the clocks show: the wall clock, and the performance counter with its frequency. -/
structure Clocks where
  now : Filetime
  stamp : ℤ
  freq : ℤ

/-- The Unix epoch on the wall clock. -/
def epoch : BitVec 64 := 116444736000000000

/-- `CLOCK_REALTIME`: the assignments to `tv_sec` and `tv_nsec` convert to `long`. -/
def realtime (now : Filetime) : Timespec :=
  let v := now.quadPart - epoch
  Timespec.ofLong (v / 10000000).toNat (v % 10000000 * 100).toNat

/-- `CLOCK_MONOTONIC` and `CLOCK_MONOTONIC_RAW`. -/
def monotonic (stamp freq : ℤ) : Option Timespec :=
  (int64.value (stamp.tmod freq * 1000000000)).map fun scaled =>
    Timespec.ofLong (stamp.tdiv freq) (scaled.tdiv freq)

/-- `wpdk_clock_gettime`; `tp` says whether there is a structure to fill.  There is no value where
an operation overflows. -/
def clockGettime (clocks : Clocks) (clk : Clock) (tp : Bool) : Option (Except Errno Timespec) :=
  if !tp then some (.error .einval)
  else
    match clk with
    | .monotonic | .monotonicRaw => (monotonic clocks.stamp clocks.freq).map .ok
    | .realtime => some (.ok (realtime clocks.now))
    | .other => some (.error .einval)

/-- `wpdk_gettimeofday`; `tp` and `tzp` say whether the pointers are not null. -/
def gettimeofday (clocks : Clocks) (tp tzp : Bool) : Except Errno Timeval :=
  if !tp || tzp then .error .einval
  else
    let t := realtime clocks.now
    .ok ⟨toInt32 t.tvSec, toInt32 (t.tvNsec.tdiv 1000)⟩

/-- The members of `struct rusage` that are set. -/
structure Rusage where
  utime : Timeval
  stime : Timeval
deriving DecidableEq

/-- The time that a thread has used. -/
def usage (t : Filetime) : Timeval :=
  ⟨toInt32 (t.quadPart / 10000000).toNat, toInt32 (t.quadPart % 10000000 * 100).toNat⟩

/-- `wpdk_getrusage`: `who` says whether the argument is `RUSAGE_THREAD`, and `times` has the user
and the system time if `GetThreadTimes` succeeds, and the error otherwise. -/
def getrusage (who : Bool) (present : Bool) (times : Except WinError (Filetime × Filetime)) :
    Except (Errno ⊕ WinError) Rusage :=
  if !present then .error (.inl .einval)
  else if !who then .error (.inl .einval)
  else
    match times with
    | .error e => .error (.inr e)
    | .ok (user, system) => .ok ⟨usage user, usage system⟩

/-! ## The fields in terms of the count -/

section Fields

variable {t : Filetime}

/-- The Unix epoch as a count. -/
def epochTicks : ℕ := 116444736000000000

/-- The count since the Unix epoch. -/
def Filetime.sinceEpoch (t : Filetime) : ℕ := t.ticks - epochTicks

theorem toNat_sub_epoch (h : epochTicks ≤ t.ticks) :
    (t.quadPart - epoch).toNat = t.sinceEpoch := by
  rw [BitVec.toNat_sub_of_le]
  · rfl
  · exact h

theorem toNat_rest_mul (v : BitVec 64) :
    (v % 10000000 * 100).toNat = v.toNat % 10000000 * 100 := by
  have hlt : v.toNat % 10000000 < 10000000 := Nat.mod_lt _ (by decide)
  rw [BitVec.toNat_mul, BitVec.toNat_umod]
  exact Nat.mod_eq_of_lt (show v.toNat % 10000000 * 100 < 18446744073709551616 by omega)

theorem toNat_seconds (v : BitVec 64) : (v / 10000000).toNat = v.toNat / 10000000 :=
  BitVec.toNat_udiv

/-- The rest, in units of the hundredth part of a tick, fits a `long`. -/
theorem toInt32_rest (n : ℕ) :
    toInt32 ((n % 10000000 * 100 : ℕ) : ℤ) = ((n % 10000000 * 100 : ℕ) : ℤ) := by
  have hlt : n % 10000000 < 10000000 := Nat.mod_lt _ (by decide)
  refine toInt32_of_fits ?_
  rw [fits_int32]
  omega

theorem tvSec_realtime (h : epochTicks ≤ t.ticks) :
    (realtime t).tvSec = toInt32 (t.sinceEpoch / 10000000 : ℕ) := by
  simp only [realtime, Timespec.ofLong]
  rw [toNat_seconds, toNat_sub_epoch h]

theorem tvNsec_realtime (h : epochTicks ≤ t.ticks) :
    (realtime t).tvNsec = (t.sinceEpoch % 10000000 * 100 : ℕ) := by
  simp only [realtime, Timespec.ofLong]
  rw [toNat_rest_mul, toNat_sub_epoch h, toInt32_rest]

theorem usage_eq (t : Filetime) :
    usage t = ⟨toInt32 (t.ticks / 10000000 : ℕ), (t.ticks % 10000000 * 100 : ℕ)⟩ := by
  rw [usage, toNat_seconds, toNat_rest_mul, toInt32_rest]
  rfl

end Fields

/-! ## Times that are preserved -/

/-- A `timeval` denotes a count, truncated to microseconds, if its seconds fit. -/
def Timeval.Denotes (v : Timeval) (ticks : ℕ) : Prop :=
  int32.Fits (ticks / 10000000 : ℕ) →
    0 ≤ v.tvUsec ∧ v.tvUsec < 1000000 ∧ v.tvSec * 1000000 + v.tvUsec = (ticks / 10 : ℕ)

/-- A `timespec` denotes a count. -/
def Timespec.Denotes (v : Timespec) (ticks : ℕ) : Prop :=
  0 ≤ v.tvNsec ∧ v.tvNsec < 1000000000 ∧ v.tvSec * 10000000 + v.tvNsec / 100 = ticks

/-- **The conversions preserve time**: the wall clock as `wpdk_clock_gettime` and
`wpdk_gettimeofday` give it, and the times of a thread as `wpdk_getrusage` gives them. -/
structure Preserved (clocks : Clocks) (user system : Filetime) : Prop where
  clock : ∃ v, clockGettime clocks .realtime true = some (.ok v) ∧
    v.Denotes clocks.now.sinceEpoch
  timeofday : ∃ v, gettimeofday clocks true false = .ok v ∧ v.Denotes clocks.now.sinceEpoch
  rusage : ∃ r, getrusage true true (.ok (user, system)) = .ok r ∧
    r.utime.Denotes user.ticks ∧ r.stime.Denotes system.ticks

section Preserved

variable {clocks : Clocks} {t : Filetime}

theorem realtime_denotes_iff (h : epochTicks ≤ t.ticks) :
    (realtime t).Denotes t.sinceEpoch ↔ int32.Fits (t.sinceEpoch / 10000000 : ℕ) := by
  rw [Timespec.Denotes, tvSec_realtime h, tvNsec_realtime h]
  constructor
  · rintro ⟨-, -, heq⟩
    -- the seconds are what they were before the conversion, which fits
    have hsec : toInt32 (t.sinceEpoch / 10000000 : ℕ) = (t.sinceEpoch / 10000000 : ℕ) := by omega
    rw [← hsec]
    exact fits_toInt32 _
  · intro hfits
    rw [toInt32_of_fits hfits]
    omega

theorem gettimeofday_denotes (h : epochTicks ≤ clocks.now.ticks) :
    ∃ v, gettimeofday clocks true false = .ok v ∧ v.Denotes clocks.now.sinceEpoch := by
  refine ⟨_, rfl, fun hfits => ?_⟩
  have hlt : clocks.now.sinceEpoch % 10000000 < 10000000 := Nat.mod_lt _ (by decide)
  have husec : toInt32 ((realtime clocks.now).tvNsec.tdiv 1000) =
      (clocks.now.sinceEpoch % 10000000 / 10 : ℕ) := by
    rw [tvNsec_realtime h, tdiv_of_nonneg _ (by omega), toInt32_of_fits]
    · omega
    · rw [fits_int32]
      omega
  have hsec : toInt32 (realtime clocks.now).tvSec = (clocks.now.sinceEpoch / 10000000 : ℕ) := by
    rw [tvSec_realtime h, toInt32_of_fits (fits_toInt32 _), toInt32_of_fits hfits]
  dsimp only
  rw [husec, hsec]
  omega

/-- The rest is multiplied by 100 where it should be divided by 10. -/
theorem usage_denotes_iff (t : Filetime) :
    (usage t).Denotes t.ticks ↔
      (int32.Fits (t.ticks / 10000000 : ℕ) → t.ticks % 10000000 = 0) := by
  rw [usage_eq, Timeval.Denotes]
  refine forall_congr' fun hfits => ?_
  dsimp only
  rw [toInt32_of_fits hfits]
  omega

end Preserved

/-- For every wall clock at or after the Unix epoch and all times of the thread, the conversions
preserve time if and only if the seconds since the epoch fit 32 bits, and the times of the thread
are whole numbers of seconds (as far as these fit). -/
theorem filetime_preserved_iff (clocks : Clocks) (user system : Filetime)
    (hepoch : epochTicks ≤ clocks.now.ticks) :
    Preserved clocks user system ↔
      int32.Fits (clocks.now.sinceEpoch / 10000000 : ℕ) ∧
        ∀ t ∈ [user, system], int32.Fits (t.ticks / 10000000 : ℕ) → t.ticks % 10000000 = 0 := by
  rw [List.forall_mem_cons, List.forall_mem_singleton, ← realtime_denotes_iff hepoch,
    ← usage_denotes_iff, ← usage_denotes_iff]
  constructor
  · rintro ⟨⟨v, hv, hclock⟩, -, r, hr, husage⟩
    obtain rfl := Except.ok.inj (Option.some.inj hv)
    obtain rfl := Except.ok.inj hr
    exact ⟨hclock, husage⟩
  · rintro ⟨hclock, husage⟩
    exact ⟨⟨_, rfl, hclock⟩, gettimeofday_denotes hepoch, _, rfl, husage⟩

/-- The wall clock at the Unix epoch, and a thread that has used no user time and one second of
system time. -/
theorem filetime_preserved_at_epoch :
    Preserved ⟨⟨27111902, 3577643008⟩, 0, 1⟩ ⟨0, 0⟩ ⟨0, 10000000⟩ :=
  (filetime_preserved_iff _ _ _ (by decide)).mpr (by decide)

/-- Half a second of a thread is reported as 500000000 microseconds, and the first second of 2038
which does not fit a `long` as a time before 1902. -/
theorem filetime_not_preserved :
    usage ⟨0, 5000000⟩ = ⟨0, 500000000⟩ ∧
      ∃ now : Filetime, now.sinceEpoch / 10000000 = 2147483648 ∧
        (realtime now).tvSec = -2147483648 := by
  refine ⟨by decide, ⟨32111902, 3577643008⟩, by decide, by decide⟩

end Time
end Wpdk
