import Wpdk.Time.Clock

/-!
# Deadlines

`wpdk_abstime_to_msecs` of `time.c`, and the two functions that wait until a deadline:
`wpdk_pthread_cond_timedwait` of `pthread.c` and `wpdk_sem_timedwait` of `semaphore.c`.  The
deadline is turned into a number of milliseconds from now.  Seconds and nanoseconds are subtracted
separately, and the quotient of the nanoseconds is truncated: the number of milliseconds is rounded
down if the nanoseconds of the deadline are larger than those of the current time, and up if they
are smaller.

The seconds are multiplied before anything is said about their range, and the test on the result
has no lower bound.

* `abstimeToMsecs`: the function, with no value where an operation overflows.
* `OsWait`, `condTimedwait`, `semTimedwait`: the waits.
* `msecsUntil_later_iff`, `msecsUntil_same`, `msecsUntil_past`: the three branches.
* `InRange`: the bounds on the fields of a deadline.
* `deadline_never_early_iff`, `deadline_no_wrap_iff`: when a deadline is not missed, and when it is
  converted without overflow.
-/

namespace Wpdk
namespace Time

open IntType

/-- The difference in milliseconds, and nothing where an operation on it overflows. -/
def msecsUntil (abstime now : Timespec) : Option ℤ :=
  if now.tvSec < abstime.tvSec then
    (int64.value (abstime.tvSec - now.tvSec)).bind fun secs =>
      (int64.value (secs * 1000)).bind fun msecs =>
        (int32.value (abstime.tvNsec - now.tvNsec)).bind fun nsecs =>
          int64.value (msecs + nsecs.tdiv 1000000)
  else if abstime.tvSec = now.tvSec ∧ now.tvNsec < abstime.tvNsec then
    (int32.value (abstime.tvNsec - now.tvNsec)).map fun nsecs => nsecs.tdiv 1000000
  else some 0

/-- `wpdk_abstime_to_msecs`, up to the conversion of the result to `DWORD`. -/
def abstimeToMsecs (abstime now : Timespec) : Option (Except Errno ℤ) :=
  (msecsUntil abstime now).map fun msecs =>
    if 1000000000 ≤ msecs then .error .einval else .ok msecs

/-! ## Waiting -/

/-- A wait of the system, by the number of milliseconds it is given: how it ends, and after how many
nanoseconds.  It times out only when the milliseconds have passed. -/
structure OsWait (Status : Type) (timeout : Status) where
  status : ℕ → Status
  elapsed : ℕ → ℕ
  patient : ∀ msecs, status msecs = timeout → msecs * 1000000 ≤ elapsed msecs

/-- How `SleepConditionVariableCS` ends. -/
inductive SleepEnd where
  | woken
  | failed (e : WinError)
deriving DecidableEq

/-- `wpdk_cond_wait`, with `none` for the value zero, and the time it takes; `present` says whether
there are a condition variable and a mutex. -/
def condWait (os : OsWait SleepEnd (.failed .errorTimeout)) (present : Bool) (msecs : ℕ) :
    Option Errno × ℕ :=
  if !present then (some .einval, 0)
  else
    match os.status msecs with
    | .woken => (none, os.elapsed msecs)
    | .failed e => (if e = .errorTimeout then some .etimedout else none, os.elapsed msecs)

/-- `wpdk_pthread_cond_timedwait`, with the time it takes. -/
def condTimedwait (os : OsWait SleepEnd (.failed .errorTimeout)) (present : Bool)
    (abstime now : Timespec) : Option (Option Errno × ℕ) :=
  (abstimeToMsecs abstime now).map fun r =>
    match r with
    | .error e => (some e, 0)
    | .ok msecs => condWait os present (toDword msecs)

/-- What `WaitForSingleObject` returns. -/
inductive WaitStatus where
  | failed (e : WinError)
  | abandoned
  | object0
  | timeout
  | unknown
deriving DecidableEq

/-- What `wpdk_wait_sem` returns: zero, `wpdk_posix_error` or `wpdk_last_error`. -/
inductive SemResult where
  | zero
  | posix (e : Errno)
  | last (e : WinError)
deriving DecidableEq

/-- `wpdk_wait_sem`, with the time it takes; `present` says whether there is a semaphore. -/
def waitSem (os : OsWait WaitStatus .timeout) (present : Bool) (msecs : ℕ) : SemResult × ℕ :=
  if !present then (.posix .einval, 0)
  else
    match os.status msecs with
    | .failed e => (.last e, os.elapsed msecs)
    | .abandoned => (.zero, os.elapsed msecs)
    | .object0 => (.zero, os.elapsed msecs)
    | .timeout => (.posix .eagain, os.elapsed msecs)
    | .unknown => (.posix .einval, os.elapsed msecs)

/-- `wpdk_sem_timedwait`, with the time it takes. -/
def semTimedwait (os : OsWait WaitStatus .timeout) (present : Bool) (abstime now : Timespec) :
    Option (SemResult × ℕ) :=
  (abstimeToMsecs abstime now).map fun r =>
    match r with
    | .error e => (.posix e, 0)
    | .ok msecs => waitSem os present (toDword msecs)

/-! ## The branches -/

/-- The exact number of milliseconds that the first branch computes. -/
def exactMsecs (abstime now : Timespec) : ℤ :=
  (abstime.tvSec - now.tvSec) * 1000 + (abstime.tvNsec - now.tvNsec).tdiv 1000000

/-- No operation of the first branch overflows. -/
structure NoOverflow (abstime now : Timespec) : Prop where
  secs : int64.Fits (abstime.tvSec - now.tvSec)
  scaled : int64.Fits ((abstime.tvSec - now.tvSec) * 1000)
  nsecs : int32.Fits (abstime.tvNsec - now.tvNsec)
  sum : int64.Fits (exactMsecs abstime now)

/-- The nanoseconds are in their range. -/
def Timespec.Normalised (t : Timespec) : Prop := 0 ≤ t.tvNsec ∧ t.tvNsec < 1000000000

instance (t : Timespec) : Decidable t.Normalised := inferInstanceAs (Decidable (_ ∧ _))

/-- The nanoseconds since the epoch. -/
def Timespec.nanos (t : Timespec) : ℤ := t.tvSec * 1000000000 + t.tvNsec

section Branches

variable {abstime now : Timespec} {msecs : ℤ}

theorem msecsUntil_later_iff (h : now.tvSec < abstime.tvSec) :
    msecsUntil abstime now = some msecs ↔
      NoOverflow abstime now ∧ exactMsecs abstime now = msecs := by
  rw [msecsUntil, if_pos h]
  simp only [value_bind_eq_some, value_eq_some_iff]
  constructor
  · rintro ⟨hsecs, hscaled, hnsecs, hsum, heq⟩
    exact ⟨⟨hsecs, hscaled, hnsecs, hsum⟩, heq⟩
  · rintro ⟨⟨hsecs, hscaled, hnsecs, hsum⟩, heq⟩
    exact ⟨hsecs, hscaled, hnsecs, hsum, heq⟩

/-- In the second branch nothing overflows, the nanoseconds of the current time not being
negative. -/
theorem msecsUntil_same (hnow : now.Normalised) (hsec : abstime.tvSec = now.tvSec)
    (hnsec : now.tvNsec < abstime.tvNsec) :
    msecsUntil abstime now = some ((abstime.tvNsec - now.tvNsec) / 1000000) := by
  have hfits : int32.Fits (abstime.tvNsec - now.tvNsec) := by
    have hmax := abstime.fits_tvNsec
    have hpos := hnow.1
    rw [fits_int32] at hmax ⊢
    omega
  rw [msecsUntil, if_neg (by omega), if_pos ⟨hsec, hnsec⟩, value_of_fits hfits, Option.map_some,
    tdiv_of_nonneg _ (by omega)]

theorem msecsUntil_past (hsec : abstime.tvSec ≤ now.tvSec)
    (hnsec : abstime.tvSec = now.tvSec → abstime.tvNsec ≤ now.tvNsec) :
    msecsUntil abstime now = some 0 := by
  rw [msecsUntil, if_neg (by omega), if_neg]
  rintro ⟨heq, hlt⟩
  have hle := hnsec heq
  omega

theorem abstimeToMsecs_eq_ok_iff :
    abstimeToMsecs abstime now = some (.ok msecs) ↔
      msecsUntil abstime now = some msecs ∧ msecs < 1000000000 := by
  rw [abstimeToMsecs, Option.map_eq_some_iff]
  constructor
  · rintro ⟨m, hm, hif⟩
    by_cases hlarge : 1000000000 ≤ m
    · rw [if_pos hlarge] at hif
      cases hif
    · rw [if_neg hlarge] at hif
      obtain rfl := Except.ok.inj hif
      exact ⟨hm, by omega⟩
  · rintro ⟨hm, hsmall⟩
    exact ⟨msecs, hm, if_neg (by omega)⟩

theorem abstimeToMsecs_of_large (h : msecsUntil abstime now = some msecs)
    (hlarge : 1000000000 ≤ msecs) : abstimeToMsecs abstime now = some (.error .einval) := by
  rw [abstimeToMsecs, h, Option.map_some, if_pos hlarge]

/-- The function has a value exactly if nothing overflows. -/
theorem exists_abstimeToMsecs_iff (hnow : now.Normalised) :
    (∃ r, abstimeToMsecs abstime now = some r) ↔
      (now.tvSec < abstime.tvSec → NoOverflow abstime now) := by
  constructor
  · rintro ⟨r, hr⟩ hlater
    obtain ⟨msecs, hmsecs, -⟩ := Option.map_eq_some_iff.mp hr
    exact ((msecsUntil_later_iff hlater).mp hmsecs).1
  · intro h
    suffices hsome : ∃ msecs, msecsUntil abstime now = some msecs by
      obtain ⟨msecs, hmsecs⟩ := hsome
      exact ⟨_, by rw [abstimeToMsecs, hmsecs, Option.map_some]⟩
    rcases Int.lt_trichotomy now.tvSec abstime.tvSec with hlt | heq | hgt
    · exact ⟨_, (msecsUntil_later_iff hlt).mpr ⟨h hlt, rfl⟩⟩
    · by_cases hnsec : now.tvNsec < abstime.tvNsec
      · exact ⟨_, msecsUntil_same hnow heq.symm hnsec⟩
      · exact ⟨0, msecsUntil_past (by omega) (by omega)⟩
    · exact ⟨0, msecsUntil_past (by omega) (by omega)⟩

end Branches

/-! ## Rounding -/

section Rounding

variable {abstime now : Timespec} {msecs : ℤ}

/-- Rounded down, the difference of the nanoseconds being positive. -/
theorem exactMsecs_of_nonneg (h : now.tvNsec ≤ abstime.tvNsec) :
    exactMsecs abstime now * 1000000 =
      abstime.nanos - now.nanos - (abstime.tvNsec - now.tvNsec) % 1000000 := by
  rw [exactMsecs, tdiv_of_nonneg _ (by omega), Timespec.nanos, Timespec.nanos]
  omega

/-- Rounded up, the difference of the nanoseconds being negative. -/
theorem exactMsecs_of_nonpos (h : abstime.tvNsec ≤ now.tvNsec) :
    exactMsecs abstime now * 1000000 =
      abstime.nanos - now.nanos + (now.tvNsec - abstime.tvNsec) % 1000000 := by
  rw [exactMsecs, tdiv_of_nonpos _ (by omega), Timespec.nanos, Timespec.nanos]
  omega

/-- Less than a millisecond is lost or gained. -/
theorem exactMsecs_close (abstime now : Timespec) :
    abstime.nanos - now.nanos - 1000000 < exactMsecs abstime now * 1000000 ∧
      exactMsecs abstime now * 1000000 < abstime.nanos - now.nanos + 1000000 := by
  rcases Int.le_total now.tvNsec abstime.tvNsec with h | h
  · rw [exactMsecs_of_nonneg h]
    omega
  · rw [exactMsecs_of_nonpos h]
    omega

/-- The number of milliseconds, whichever branch is taken. -/
theorem eq_of_msecsUntil (hnow : now.Normalised) (habs : abstime.Normalised)
    (hmsecs : msecsUntil abstime now = some msecs) :
    msecs = if now.nanos < abstime.nanos then exactMsecs abstime now else 0 := by
  have horder : now.nanos < abstime.nanos ↔ now.tvSec < abstime.tvSec ∨
      abstime.tvSec = now.tvSec ∧ now.tvNsec < abstime.tvNsec := by
    rw [Timespec.nanos, Timespec.nanos]
    unfold Timespec.Normalised at hnow habs
    omega
  rcases Int.lt_trichotomy now.tvSec abstime.tvSec with hlt | heq | hgt
  · rw [if_pos (horder.mpr (Or.inl hlt))]
    exact ((msecsUntil_later_iff hlt).mp hmsecs).2.symm
  · by_cases hnsec : now.tvNsec < abstime.tvNsec
    · rw [if_pos (horder.mpr (Or.inr ⟨heq.symm, hnsec⟩)), exactMsecs, heq, Int.sub_self,
        Int.zero_mul, Int.zero_add, tdiv_of_nonneg _ (by omega)]
      rw [msecsUntil_same hnow heq.symm hnsec] at hmsecs
      exact (Option.some.inj hmsecs).symm
    · rw [if_neg (by rw [horder]; omega)]
      rw [msecsUntil_past (by omega) (by omega)] at hmsecs
      exact (Option.some.inj hmsecs).symm
  · rw [if_neg (by rw [horder]; omega)]
    rw [msecsUntil_past (by omega) (by omega)] at hmsecs
    exact (Option.some.inj hmsecs).symm

theorem eq_of_abstimeToMsecs_ok (hnow : now.Normalised) (habs : abstime.Normalised)
    (h : abstimeToMsecs abstime now = some (.ok msecs)) :
    msecs = if now.nanos < abstime.nanos then exactMsecs abstime now else 0 :=
  eq_of_msecsUntil hnow habs (abstimeToMsecs_eq_ok_iff.mp h).1

theorem nonneg_of_abstimeToMsecs_ok (hnow : now.Normalised) (habs : abstime.Normalised)
    (h : abstimeToMsecs abstime now = some (.ok msecs)) : 0 ≤ msecs := by
  rw [eq_of_abstimeToMsecs_ok hnow habs h]
  split
  · have hclose := exactMsecs_close abstime now
    omega
  · exact Int.le_refl 0

/-- A later deadline does not give fewer milliseconds. -/
theorem exactMsecs_mono {later : Timespec} (hnow : now.Normalised) (habs : abstime.Normalised)
    (hlater : later.Normalised) (hle : abstime.nanos ≤ later.nanos) :
    exactMsecs abstime now ≤ exactMsecs later now := by
  unfold Timespec.Normalised at hnow habs hlater
  rw [Timespec.nanos, Timespec.nanos] at hle
  rw [exactMsecs, exactMsecs]
  -- the sign of the difference of the nanoseconds decides how each of the two is rounded
  rcases Int.le_total now.tvNsec abstime.tvNsec with h | h
  · rw [tdiv_of_nonneg _ (by omega : 0 ≤ abstime.tvNsec - now.tvNsec)]
    rcases Int.le_total now.tvNsec later.tvNsec with h' | h'
    · rw [tdiv_of_nonneg _ (by omega : 0 ≤ later.tvNsec - now.tvNsec)]
      omega
    · rw [tdiv_of_nonpos _ (by omega : later.tvNsec - now.tvNsec ≤ 0)]
      omega
  · rw [tdiv_of_nonpos _ (by omega : abstime.tvNsec - now.tvNsec ≤ 0)]
    rcases Int.le_total now.tvNsec later.tvNsec with h' | h'
    · rw [tdiv_of_nonneg _ (by omega : 0 ≤ later.tvNsec - now.tvNsec)]
      omega
    · rw [tdiv_of_nonpos _ (by omega : later.tvNsec - now.tvNsec ≤ 0)]
      omega

end Rounding

/-! ## Deadlines that do not expire early -/

/-- **A deadline does not expire early.**  The conversion has a value; if it succeeds, the
milliseconds reach the deadline and exceed it by less than one, there are none of them for a
deadline that has passed, and a later deadline does not give fewer; and neither wait reports a
timeout before the deadline. -/
structure NeverEarly (abstime now : Timespec) : Prop where
  defined : ∃ r, abstimeToMsecs abstime now = some r
  reached : ∀ m, abstimeToMsecs abstime now = some (.ok m) →
    abstime.nanos ≤ now.nanos + m * 1000000
  close : ∀ m, abstimeToMsecs abstime now = some (.ok m) → now.nanos < abstime.nanos →
    now.nanos + m * 1000000 < abstime.nanos + 1000000
  past : ∀ m, abstimeToMsecs abstime now = some (.ok m) → abstime.nanos ≤ now.nanos → m = 0
  monotone : ∀ later : Timespec, later.Normalised → abstime.nanos ≤ later.nanos → ∀ m m',
    abstimeToMsecs abstime now = some (.ok m) → abstimeToMsecs later now = some (.ok m') → m ≤ m'
  cond : ∀ os present t, condTimedwait os present abstime now = some (some .etimedout, t) →
    abstime.nanos ≤ now.nanos + t
  sem : ∀ os present t, semTimedwait os present abstime now = some (.posix .eagain, t) →
    abstime.nanos ≤ now.nanos + t

/-- A deadline for which the milliseconds are not rounded down: it has passed, it is rejected, or
the difference of the nanoseconds is not positive or a whole number of milliseconds. -/
def NotRoundedDown (abstime now : Timespec) : Prop :=
  abstime.nanos ≤ now.nanos ∨ 1000000000 ≤ exactMsecs abstime now ∨
    abstime.tvNsec ≤ now.tvNsec ∨ (abstime.tvNsec - now.tvNsec) % 1000000 = 0

section Early

variable {abstime now : Timespec} {msecs : ℤ}

theorem error_of_abstimeToMsecs {e : Errno}
    (h : abstimeToMsecs abstime now = some (.error e)) : e = .einval := by
  obtain ⟨m, -, hif⟩ := Option.map_eq_some_iff.mp h
  by_cases hlarge : 1000000000 ≤ m
  · rw [if_pos hlarge] at hif
    exact (Except.error.inj hif).symm
  · rw [if_neg hlarge] at hif
    cases hif

/-- A timeout of the condition variable has waited for the milliseconds. -/
theorem elapsed_of_condWait {os : OsWait SleepEnd (.failed .errorTimeout)} {present : Bool}
    {n t : ℕ} (h : condWait os present n = (some .etimedout, t)) : n * 1000000 ≤ t := by
  unfold condWait at h
  cases present with
  | false => cases h
  | true =>
    rw [if_neg (by decide)] at h
    cases hstatus : os.status n with
    | woken =>
      rw [hstatus] at h
      cases h
    | failed e =>
      rw [hstatus] at h
      dsimp only at h
      by_cases he : e = .errorTimeout
      · rw [he] at hstatus
        rw [← (Prod.mk.inj h).2]
        exact os.patient _ hstatus
      · rw [if_neg he] at h
        cases h

/-- A timeout of the semaphore has waited for the milliseconds. -/
theorem elapsed_of_waitSem {os : OsWait WaitStatus .timeout} {present : Bool} {n t : ℕ}
    (h : waitSem os present n = (.posix .eagain, t)) : n * 1000000 ≤ t := by
  unfold waitSem at h
  cases present with
  | false => cases h
  | true =>
    rw [if_neg (by decide)] at h
    -- every other end of the wait is reported as something else
    cases hstatus : os.status n with
    | timeout =>
      rw [hstatus] at h
      rw [← (Prod.mk.inj h).2]
      exact os.patient _ hstatus
    | failed e => rw [hstatus] at h; cases h
    | abandoned => rw [hstatus] at h; cases h
    | object0 => rw [hstatus] at h; cases h
    | unknown => rw [hstatus] at h; cases h

/-- A wait that starts with the conversion and does not end with its error has got a number of
milliseconds from it. -/
theorem msecs_of_map {α : Type} {onError : Errno → α} {onMsecs : ℤ → α} {a : α}
    (h : ((abstimeToMsecs abstime now).map fun r =>
      match r with
      | .error e => onError e
      | .ok msecs => onMsecs msecs) = some a) (herror : onError .einval ≠ a) :
    ∃ m, abstimeToMsecs abstime now = some (.ok m) ∧ onMsecs m = a := by
  obtain ⟨r, hr, hout⟩ := Option.map_eq_some_iff.mp h
  cases r with
  | error e =>
    rw [error_of_abstimeToMsecs hr] at hout
    exact absurd hout herror
  | ok m => exact ⟨m, hr, hout⟩

theorem elapsed_of_condTimedwait {os : OsWait SleepEnd (.failed .errorTimeout)} {present : Bool}
    {t : ℕ} (h : condTimedwait os present abstime now = some (some .etimedout, t)) :
    ∃ m, abstimeToMsecs abstime now = some (.ok m) ∧ toDword m * 1000000 ≤ t := by
  obtain ⟨m, hm, hwait⟩ := msecs_of_map h (by simp)
  exact ⟨m, hm, elapsed_of_condWait hwait⟩

theorem elapsed_of_semTimedwait {os : OsWait WaitStatus .timeout} {present : Bool} {t : ℕ}
    (h : semTimedwait os present abstime now = some (.posix .eagain, t)) :
    ∃ m, abstimeToMsecs abstime now = some (.ok m) ∧ toDword m * 1000000 ≤ t := by
  obtain ⟨m, hm, hwait⟩ := msecs_of_map h (by simp)
  exact ⟨m, hm, elapsed_of_waitSem hwait⟩

variable (hnow : now.Normalised) (habs : abstime.Normalised)

include hnow habs

theorem reached_of_notRoundedDown (hround : NotRoundedDown abstime now)
    (h : abstimeToMsecs abstime now = some (.ok msecs)) :
    abstime.nanos ≤ now.nanos + msecs * 1000000 := by
  have hsmall := (abstimeToMsecs_eq_ok_iff.mp h).2
  have hmsecs := eq_of_abstimeToMsecs_ok hnow habs h
  split at hmsecs
  · rename_i hfuture
    rw [hmsecs] at hsmall ⊢
    rcases Int.le_total abstime.tvNsec now.tvNsec with hle | hge
    · rw [exactMsecs_of_nonpos hle]
      omega
    · rw [exactMsecs_of_nonneg hge]
      rcases hround with hpast | hlarge | hle | hwhole
      · omega
      · omega
      · have heq : abstime.tvNsec - now.tvNsec = 0 := by omega
        rw [heq]
        omega
      · omega
  · omega

/-- Waiting for the milliseconds is enough. -/
theorem nanos_le_of_elapsed (hround : NotRoundedDown abstime now) {t : ℕ}
    (h : ∃ m, abstimeToMsecs abstime now = some (.ok m) ∧ toDword m * 1000000 ≤ t) :
    abstime.nanos ≤ now.nanos + t := by
  obtain ⟨m, hm, ht⟩ := h
  have hreached := reached_of_notRoundedDown hnow habs hround hm
  have hdword := toDword_of_lt (nonneg_of_abstimeToMsecs_ok hnow habs hm)
    (by have hsmall := (abstimeToMsecs_eq_ok_iff.mp hm).2; omega)
  omega

theorem neverEarly_of_notRoundedDown
    (hover : now.tvSec < abstime.tvSec → NoOverflow abstime now)
    (hround : NotRoundedDown abstime now) : NeverEarly abstime now where
  defined := (exists_abstimeToMsecs_iff hnow).mpr hover
  reached m hm := reached_of_notRoundedDown hnow habs hround hm
  close m hm hfuture := by
    have hclose := exactMsecs_close abstime now
    rw [eq_of_abstimeToMsecs_ok hnow habs hm, if_pos hfuture]
    omega
  past m hm hpast := by
    rw [eq_of_abstimeToMsecs_ok hnow habs hm, if_neg (by omega)]
  monotone later hlater hle m m' hm hm' := by
    rw [eq_of_abstimeToMsecs_ok hnow habs hm]
    by_cases hfuture : now.nanos < abstime.nanos
    · rw [if_pos hfuture, eq_of_abstimeToMsecs_ok hnow hlater hm', if_pos (by omega)]
      exact exactMsecs_mono hnow habs hlater hle
    · rw [if_neg hfuture]
      exact nonneg_of_abstimeToMsecs_ok hnow hlater hm'
  cond _ _ _ h := nanos_le_of_elapsed hnow habs hround (elapsed_of_condTimedwait h)
  sem _ _ _ h := nanos_le_of_elapsed hnow habs hround (elapsed_of_semTimedwait h)

/-- Rounding down makes the deadline expire early. -/
theorem notRoundedDown_of_reached (hover : now.tvSec < abstime.tvSec → NoOverflow abstime now)
    (hreached : ∀ m, abstimeToMsecs abstime now = some (.ok m) →
      abstime.nanos ≤ now.nanos + m * 1000000) : NotRoundedDown abstime now := by
  refine Classical.byContradiction fun hdown => ?_
  unfold NotRoundedDown at hdown
  rw [not_or, not_or, not_or] at hdown
  obtain ⟨hfuture, hsmall, hnsec, hpart⟩ := hdown
  obtain ⟨r, hr⟩ := (exists_abstimeToMsecs_iff hnow).mpr hover
  obtain ⟨m, hm, -⟩ := Option.map_eq_some_iff.mp hr
  have hexact := eq_of_msecsUntil hnow habs hm
  rw [if_pos (by omega)] at hexact
  have hlate := hreached m (abstimeToMsecs_eq_ok_iff.mpr ⟨hm, by omega⟩)
  rw [hexact, exactMsecs_of_nonneg (by omega)] at hlate
  omega

end Early

/-- For every current time and every deadline with their nanoseconds in range, the deadline does not
expire early if and only if the conversion does not overflow and does not round down. -/
theorem deadline_never_early_iff (abstime now : Timespec) (habs : abstime.Normalised)
    (hnow : now.Normalised) :
    NeverEarly abstime now ↔
      (now.tvSec < abstime.tvSec → NoOverflow abstime now) ∧ NotRoundedDown abstime now := by
  constructor
  · intro h
    have hover := (exists_abstimeToMsecs_iff hnow).mp h.defined
    exact ⟨hover, notRoundedDown_of_reached hnow habs hover h.reached⟩
  · rintro ⟨hover, hround⟩
    exact neverEarly_of_notRoundedDown hnow habs hover hround

/-- A deadline 1.5 milliseconds ahead, in the next second: rounded up to two. -/
theorem deadline_never_early_next_second :
    NeverEarly ⟨1, 500000, by decide, by decide⟩ ⟨0, 999000000, by decide, by decide⟩ :=
  (deadline_never_early_iff _ _ (by decide) (by decide)).mpr
    ⟨fun _ => ⟨by decide, by decide, by decide, by decide⟩, Or.inr (Or.inr (Or.inl (by decide)))⟩

/-- A wait that times out as soon as it may. -/
def punctual : OsWait WaitStatus .timeout := ⟨fun _ => .timeout, fun n => n * 1000000, fun _ _ =>
  Nat.le_refl _⟩

/-- Half a millisecond before the deadline the number of milliseconds is zero, and the wait for the
semaphore times out at once. -/
theorem deadline_expires_early :
    ∃ abstime now : Timespec, abstime.Normalised ∧ now.Normalised ∧
      abstime.nanos = now.nanos + 500000 ∧ abstimeToMsecs abstime now = some (.ok 0) ∧
      semTimedwait punctual true abstime now = some (.posix .eagain, 0) := by
  have hok : abstimeToMsecs ⟨0, 500000, by decide, by decide⟩ ⟨0, 0, by decide, by decide⟩ =
      some (.ok 0) :=
    abstimeToMsecs_eq_ok_iff.mpr ⟨msecsUntil_same (by decide) rfl (by decide), by decide⟩
  refine ⟨⟨0, 500000, by decide, by decide⟩, ⟨0, 0, by decide, by decide⟩, by decide, by decide,
    by decide, hok, ?_⟩
  rw [semTimedwait, hok]
  rfl

/-! ## Conversions that do not wrap -/

/-- `INFINITE`. -/
def infinite : ℕ := 4294967295

/-- **The conversion cannot wrap.**  It has a value; a deadline a billion milliseconds ahead is
rejected; and if it succeeds, the result is in range, and so is what a wait is given. -/
structure NoWrap (abstime now : Timespec) : Prop where
  defined : ∃ r, abstimeToMsecs abstime now = some r
  rejects : now.nanos + 1000000000 * 1000000 ≤ abstime.nanos →
    abstimeToMsecs abstime now = some (.error .einval)
  range : ∀ m, abstimeToMsecs abstime now = some (.ok m) → 0 ≤ m ∧ m < 1000000000
  waiter : ∀ m, abstimeToMsecs abstime now = some (.ok m) →
    (toDword m : ℤ) = m ∧ toDword m ≠ infinite

/-- The bounds on the two fields, for a deadline in a later second.  The milliseconds may reach
`LLONG_MAX`, which is 9223372036854775807. -/
structure InRange (abstime now : Timespec) : Prop where
  /-- The seconds may be multiplied. -/
  secs : abstime.tvSec - now.tvSec ≤ 9223372036854775
  /-- The nanoseconds may be subtracted. -/
  nsecs : now.tvNsec - 2147483648 ≤ abstime.tvNsec
  /-- The nanoseconds may be added to the most seconds that there may be. -/
  last : abstime.tvSec - now.tvSec = 9223372036854775 → abstime.tvNsec - now.tvNsec < 808000000
  /-- With one second less there is room for a second more. -/
  beforeLast : abstime.tvSec - now.tvSec = 9223372036854774 →
    abstime.tvNsec - now.tvNsec < 1808000000
  /-- Negative nanoseconds do not outweigh one second by a millisecond. -/
  first : abstime.tvSec - now.tvSec = 1 → -1001000000 < abstime.tvNsec - now.tvNsec
  /-- They do not outweigh two. -/
  second : abstime.tvSec - now.tvSec = 2 → -2001000000 < abstime.tvNsec - now.tvNsec

section Wrap

variable {abstime now : Timespec} {msecs : ℤ}

/-- The milliseconds, by the sign of what is divided. -/
theorem exactMsecs_cases (abstime now : Timespec) :
    (now.tvNsec ≤ abstime.tvNsec ∧ exactMsecs abstime now =
        (abstime.tvSec - now.tvSec) * 1000 + (abstime.tvNsec - now.tvNsec) / 1000000) ∨
      (abstime.tvNsec < now.tvNsec ∧ exactMsecs abstime now =
        (abstime.tvSec - now.tvSec) * 1000 - (now.tvNsec - abstime.tvNsec) / 1000000) := by
  rcases Int.lt_or_le abstime.tvNsec now.tvNsec with hneg | hnonneg
  · right
    rw [exactMsecs, tdiv_of_nonpos _ (by omega)]
    omega
  · left
    rw [exactMsecs, tdiv_of_nonneg _ (by omega)]
    omega

/-- The bounds are those for which the milliseconds are computed and are not negative. -/
theorem inRange_iff (hnow : now.Normalised) (hlater : now.tvSec < abstime.tvSec) :
    InRange abstime now ↔ NoOverflow abstime now ∧ 0 ≤ exactMsecs abstime now := by
  obtain ⟨hpos, hsecond⟩ := hnow
  have hmax := abstime.fits_tvNsec
  rw [fits_int32] at hmax
  have hquot := exactMsecs_cases abstime now
  constructor
  · rintro ⟨hsecs, hnsecs, hlast, hbefore, hfirst, htwo⟩
    refine ⟨⟨?_, ?_, ?_, ?_⟩, ?_⟩
    · rw [fits_int64]
      omega
    · rw [fits_int64]
      omega
    · rw [fits_int32]
      omega
    · rw [fits_int64]
      omega
    · omega
  · rintro ⟨⟨hsecs, hscaled, hnsecs, hsum⟩, hnonneg⟩
    rw [fits_int64] at hsecs hscaled hsum
    rw [fits_int32] at hnsecs
    refine ⟨?_, ?_, ?_, ?_, ?_, ?_⟩ <;> omega

/-- A result is negative only in the first branch. -/
theorem nonneg_of_msecsUntil (hnow : now.Normalised)
    (hpos : now.tvSec < abstime.tvSec → 0 ≤ exactMsecs abstime now)
    (h : msecsUntil abstime now = some msecs) : 0 ≤ msecs := by
  rcases Int.lt_trichotomy now.tvSec abstime.tvSec with hlt | heq | hgt
  · rw [← ((msecsUntil_later_iff hlt).mp h).2]
    exact hpos hlt
  · by_cases hnsec : now.tvNsec < abstime.tvNsec
    · rw [msecsUntil_same hnow heq.symm hnsec] at h
      have hvalue := Option.some.inj h
      omega
    · rw [msecsUntil_past (by omega) (by omega)] at h
      exact Int.le_of_eq (Option.some.inj h)
  · rw [msecsUntil_past (by omega) (by omega)] at h
    exact Int.le_of_eq (Option.some.inj h)

/-- A deadline a billion milliseconds ahead is in a later second, and the number of milliseconds is
not rounded below a billion. -/
theorem rejects_of_noOverflow (hnow : now.Normalised)
    (hover : now.tvSec < abstime.tvSec → NoOverflow abstime now)
    (hfar : now.nanos + 1000000000 * 1000000 ≤ abstime.nanos) :
    abstimeToMsecs abstime now = some (.error .einval) := by
  have hmax := abstime.fits_tvNsec
  have hpos := hnow.1
  have hclose := exactMsecs_close abstime now
  have hlater : now.tvSec < abstime.tvSec := by
    rw [Timespec.nanos, Timespec.nanos] at hfar
    rw [fits_int32] at hmax
    omega
  exact abstimeToMsecs_of_large ((msecsUntil_later_iff hlater).mpr ⟨hover hlater, rfl⟩) (by omega)

end Wrap

/-- For every deadline, its nanoseconds in range or not, and every current time, the conversion
cannot wrap if and only if, for a deadline in a later second, the fields are in range. -/
theorem deadline_no_wrap_iff (abstime now : Timespec) (hnow : now.Normalised) :
    NoWrap abstime now ↔ (now.tvSec < abstime.tvSec → InRange abstime now) := by
  constructor
  · intro h hlater
    rw [inRange_iff hnow hlater]
    have hover := (exists_abstimeToMsecs_iff hnow).mp h.defined hlater
    refine ⟨hover, ?_⟩
    have hmsecs := (msecsUntil_later_iff hlater).mpr ⟨hover, rfl⟩
    rcases Int.lt_or_le (exactMsecs abstime now) 1000000000 with hsmall | hlarge
    · exact (h.range _ (abstimeToMsecs_eq_ok_iff.mpr ⟨hmsecs, hsmall⟩)).1
    · omega
  · intro h
    have hexact := fun hlater => (inRange_iff hnow hlater).mp (h hlater)
    have hover := fun hlater => (hexact hlater).1
    have hrange : ∀ m, abstimeToMsecs abstime now = some (.ok m) → 0 ≤ m ∧ m < 1000000000 := by
      intro m hm
      obtain ⟨hmsecs, hsmall⟩ := abstimeToMsecs_eq_ok_iff.mp hm
      exact ⟨nonneg_of_msecsUntil hnow (fun hlater => (hexact hlater).2) hmsecs, hsmall⟩
    refine ⟨(exists_abstimeToMsecs_iff hnow).mpr hover, rejects_of_noOverflow hnow hover, hrange,
      fun m hm => ?_⟩
    obtain ⟨hpos, hsmall⟩ := hrange m hm
    have hdword := toDword_of_lt hpos (by omega)
    refine ⟨hdword, ?_⟩
    rw [infinite]
    omega

/-- A deadline 100 milliseconds ahead. -/
theorem deadline_no_wrap_near :
    NoWrap ⟨1, 50000000, by decide, by decide⟩ ⟨0, 950000000, by decide, by decide⟩ :=
  (deadline_no_wrap_iff _ _ (by decide)).mpr fun _ =>
    ⟨by decide, by decide, by decide, by decide, by decide, by decide⟩

/-- A deadline of the largest `time_t` overflows in the multiplication.  With -1001000000
nanoseconds, a deadline one second ahead gives -1 milliseconds, which is accepted and is `INFINITE`
for the wait. -/
theorem deadline_wraps :
    (∃ abstime now : Timespec, abstime.tvSec = int64.max ∧ now.Normalised ∧
      abstimeToMsecs abstime now = none) ∧
    ∃ abstime now : Timespec, abstime.tvSec = 1 ∧ abstime.tvNsec = -1001000000 ∧ now.nanos = 0 ∧
      abstimeToMsecs abstime now = some (.ok (-1)) ∧ toDword (-1) = infinite := by
  refine ⟨⟨⟨int64.max, 0, by decide, by decide⟩, ⟨0, 0, by decide, by decide⟩, rfl, by decide, ?_⟩,
    ⟨1, -1001000000, by decide, by decide⟩, ⟨0, 0, by decide, by decide⟩, rfl, rfl, rfl, ?_,
    by decide⟩
  · cases hmsecs : abstimeToMsecs ⟨int64.max, 0, by decide, by decide⟩
        ⟨0, 0, by decide, by decide⟩ with
    | none => rfl
    | some r =>
      have hover := (exists_abstimeToMsecs_iff (by decide)).mp ⟨r, hmsecs⟩ (by decide)
      exact absurd hover.scaled (by decide)
  · refine abstimeToMsecs_eq_ok_iff.mpr ⟨(msecsUntil_later_iff (by decide)).mpr
      ⟨⟨by decide, by decide, by decide, by decide⟩, by decide⟩, by decide⟩

end Time
end Wpdk
