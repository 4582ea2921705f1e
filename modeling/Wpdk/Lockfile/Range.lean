import Mathlib.Data.Int.Order.Basic
import Wpdk.Base.Signed
import Wpdk.Error
import Wpdk.Lockfile.Probe

/-!
# Lock ranges

`wpdk_lockfile_get_range` turns the origin, offset and size of a POSIX lock request into a start
and a length inside the window `[0, LOCKFILE_MAX]`.  `wpdk_lockfile` then moves the range up by
`LOCKFILE_MAX`, which keeps it below the guard byte as long as it was inside the window.

The checks bound the position and the offset one by one, not their sum, and negate the offset
and the size before they have been looked at.  The base of the range can therefore be almost
twice `LOCKFILE_MAX`, which a negative size is not checked against, and which can overflow when a
positive size is added; the two negations overflow for the least 64-bit value.

* `lockfileGetRange`: the source's function; `none` stands for an operation that overflows.
* `posixRange`, `Lockable`: the range that was asked for, and when it can be locked.
* `rangeBefore_eq`, `rangeAfter_eq`: what comes out for a base and a size.
* `lockfile_range_exact_iff`: the range is exact except for five families of arguments.
-/

namespace Wpdk
namespace Lockfile

open IntType

/-! ## The computation of the source -/

/-- The values of `whence`. -/
inductive Whence where
  | seekSet
  | seekCur
  | seekEnd
  | other
deriving DecidableEq

/-- What the runtime and the system say about the file: its position, whether it has a handle,
and its size.  A runtime call that fails leaves its own `errno`. -/
structure FileAnswers where
  telli64 : Except ℕ ℤ
  osfhandle : Except ℕ Unit
  fileSizeEx : Except WinError ℤ

/-- The starting position of `wpdk_lockfile_get_range`. -/
def startingPosition (file : FileAnswers) : Whence → Except ℕ ℤ
  | .seekSet => .ok 0
  | .seekCur => file.telli64
  | .seekEnd =>
    match file.osfhandle with
    | .error e => .error e
    | .ok () =>
      match file.fileSizeEx with
      | .error e => .error (convertToPosix e)
      | .ok size => .ok size
  | .other => .error Errno.einval.code

/-- `offset < 0 && posn < (-offset)`. -/
def beforeFile (posn offset : ℤ) : Option Bool :=
  if offset < 0 then (int64.value (-offset)).map fun n => decide (posn < n) else some false

/-- The required range for a size below zero: the bytes before the base. -/
def rangeBefore (base size : ℤ) : Option (Except ℕ (ℤ × ℤ)) := do
  let n ← int64.value (-size)
  if base < n ∨ lockfileMax < n then
    return .error Errno.einval.code
  let start ← int64.value (base + size)
  return .ok (start, n)

/-- The required range for other sizes: the bytes from the base on, up to the end of the window
if the size is zero. -/
def rangeAfter (base size : ℤ) : Option (Except ℕ (ℤ × ℤ)) := do
  if lockfileMax < size then
    return .error Errno.einval.code
  let stop ← int64.value (base + size)
  if lockfileMax < stop then
    return .error Errno.einval.code
  if size = 0 then
    let rest ← int64.value (lockfileMax - base)
    return .ok (base, rest)
  return .ok (base, size)

/-- `wpdk_lockfile_get_range` once the starting position is known. -/
def rangeFrom (posn offset size : ℤ) : Option (Except ℕ (ℤ × ℤ)) := do
  if lockfileMax ≤ posn then
    return .error Errno.einval.code
  if (← beforeFile posn offset) ∨ lockfileMax ≤ offset then
    return .error Errno.einval.code
  let base ← int64.value (posn + offset)
  if size < 0 then rangeBefore base size else rangeAfter base size

/-- `wpdk_lockfile_get_range`: an `errno` value, or the start and the number of bytes. -/
def lockfileGetRange (file : FileAnswers) (whence : Whence) (offset size : ℤ) :
    Option (Except ℕ (ℤ × ℤ)) :=
  match startingPosition file whence with
  | .error e => some (.error e)
  | .ok posn => rangeFrom posn offset size

theorem lockfileMax_eq : lockfileMax = 4611686018427387903 := rfl

theorem lockfileGuard_eq : lockfileGuard = 4611686018427387904 := rfl

/-! ## The range that was asked for -/

/-- First byte and end of the POSIX range. -/
def posixRange (base size : ℤ) : ℤ × ℤ :=
  if 0 < size then (base, base + size)
  else if size < 0 then (base + size, base)
  else (base, lockfileMax)

/-- The range is not empty and inside the window, and its two parts are below the end of it. -/
def Lockable (posn offset size : ℤ) : Prop :=
  let r := posixRange (posn + offset) size
  r.1 < r.2 ∧ 0 ≤ r.1 ∧ r.2 ≤ lockfileMax ∧ posn < lockfileMax ∧ offset < lockfileMax

/-- The range that `wpdk_lockfile` locks for `start` and `nbytes` is representable and does not
contain the guard byte. -/
def AvoidsGuard (start nbytes : ℤ) : Prop :=
  int64.Fits (lockfileMax + start) ∧ int64.Fits (lockfileMax + start + nbytes) ∧
    ¬ ((lockfileMax : ℤ) + start ≤ lockfileMax + lockfileGuard ∧
      (lockfileMax : ℤ) + lockfileGuard < lockfileMax + start + nbytes)

/-- No operation has overflowed, the call succeeds exactly for ranges that can be locked, and on
success the result is the range that was asked for. -/
def RangeExact (outcome : Option (Except ℕ (ℤ × ℤ))) (posn offset size : ℤ) : Prop :=
  ∃ result, outcome = some result ∧
    ((∃ r, result = .ok r) ↔ Lockable posn offset size) ∧
    ∀ start nbytes, result = .ok (start, nbytes) →
      posixRange (posn + offset) size = (start, start + nbytes) ∧ AvoidsGuard start nbytes

/-! ## Outcomes -/

theorem beforeFile_min (posn : ℤ) : beforeFile posn int64.min = none := by
  unfold beforeFile
  rw [if_pos (by decide), value_of_not_fits (by decide)]
  rfl

theorem beforeFile_of_ne {posn offset : ℤ} (ho : int64.Fits offset) (hne : offset ≠ int64.min) :
    beforeFile posn offset = some (decide (offset < 0 ∧ posn + offset < 0)) := by
  rw [fits_int64] at ho
  simp only [int64] at hne
  unfold beforeFile
  split_ifs with hneg
  · rw [value_of_fits (by rw [fits_int64]; omega), Option.map_some]
    congr 2
    exact propext (by omega)
  · simp [hneg]

/-- A negative size: the negation overflows for the least value only, and the base is not looked
at except through the first byte. -/
theorem rangeBefore_eq {base size : ℤ} (hb : 0 ≤ base) (hb' : int64.Fits base)
    (hs : int64.Fits size) (hneg : size < 0) :
    rangeBefore base size =
      if size = int64.min then none
      else if base + size < 0 ∨ lockfileMax < -size then some (.error Errno.einval.code)
      else some (.ok (base + size, -size)) := by
  rw [fits_int64] at hs hb'
  unfold rangeBefore
  by_cases hmin : size = int64.min
  · rw [if_pos hmin, value_of_not_fits (by rw [hmin, fits_int64]; decide)]
    rfl
  · rw [if_neg hmin]
    simp only [int64] at hmin
    rw [value_of_fits (by rw [fits_int64]; omega), value_of_fits (by rw [fits_int64]; omega)]
    have hiff : (base < -size ∨ (lockfileMax : ℤ) < -size) ↔
        (base + size < 0 ∨ (lockfileMax : ℤ) < -size) := by omega
    simp only [Option.bind_eq_bind, Option.bind_some, Option.pure_def, hiff]

/-- Other sizes: the end of the range overflows if the base is large enough. -/
theorem rangeAfter_eq {base size : ℤ} (hb : 0 ≤ base) (hs : 0 ≤ size) :
    rangeAfter base size =
      if lockfileMax < size then some (.error Errno.einval.code)
      else if int64.max < base + size then none
      else if lockfileMax < base + size then some (.error Errno.einval.code)
      else some (.ok (base, if size = 0 then lockfileMax - base else size)) := by
  unfold rangeAfter
  by_cases hsize : (lockfileMax : ℤ) < size
  · rw [if_pos hsize, if_pos hsize]
    rfl
  rw [if_neg hsize, if_neg hsize]
  by_cases hover : int64.max < base + size
  · rw [if_pos hover, value_of_not_fits (fun h => absurd h.2 (Int.not_le.mpr hover))]
    rfl
  rw [if_neg hover, value_of_fits (by rw [fits_int64]; simp only [int64] at hover; omega)]
  simp only [Option.bind_eq_bind, Option.bind_some, Option.pure_def]
  split_ifs with hstop hzero
  · rfl
  · rw [value_of_fits (by rw [fits_int64, lockfileMax_eq]; rw [lockfileMax_eq] at hstop; omega)]
    rfl
  · rfl

theorem rangeFrom_of_regular {posn offset size : ℤ} (hp : posn < lockfileMax)
    (ho : int64.Fits offset) (hne : offset ≠ int64.min) (hlt : offset < lockfileMax)
    (hp0 : 0 ≤ posn) (hb : 0 ≤ posn + offset) :
    rangeFrom posn offset size =
      if size < 0 then rangeBefore (posn + offset) size else rangeAfter (posn + offset) size := by
  unfold rangeFrom
  rw [if_neg (Int.not_le.mpr hp), beforeFile_of_ne ho hne]
  rw [lockfileMax_eq] at hp hlt
  simp only [Option.bind_eq_bind, Option.bind_some]
  rw [if_neg (by simp [lockfileMax_eq]; omega), value_of_fits (by rw [fits_int64]; omega)]
  rfl

theorem rangeFrom_of_posn {posn offset size : ℤ} (hp : (lockfileMax : ℤ) ≤ posn) :
    rangeFrom posn offset size = some (.error Errno.einval.code) := by
  unfold rangeFrom
  rw [if_pos hp]
  rfl

theorem rangeFrom_of_offset {posn offset size : ℤ} (hp : posn < lockfileMax)
    (ho : int64.Fits offset) (hne : offset ≠ int64.min)
    (hbad : (lockfileMax : ℤ) ≤ offset ∨ posn + offset < 0) (hp0 : 0 ≤ posn) :
    rangeFrom posn offset size = some (.error Errno.einval.code) := by
  unfold rangeFrom
  rw [if_neg (Int.not_le.mpr hp), beforeFile_of_ne ho hne]
  simp only [Option.bind_eq_bind, Option.bind_some]
  rw [if_pos (by simp only [decide_eq_true_eq]; omega)]
  rfl

theorem rangeFrom_min {posn size : ℤ} (hp : posn < lockfileMax) :
    rangeFrom posn int64.min size = none := by
  unfold rangeFrom
  rw [if_neg (Int.not_le.mpr hp), beforeFile_min]
  rfl

/-! ## Exactness -/

/-- What a range with a base of at least zero needs: a negative size is not the least one and, if
it is short enough, has its base inside the window; a range of size zero does not start at the
end of the window; and the end of a range that is short enough does not overflow. -/
def RegularFrom (base size : ℤ) : Prop :=
  (size < 0 → size ≠ int64.min ∧ (-size ≤ lockfileMax → base ≤ lockfileMax)) ∧
  (size = 0 → base ≠ lockfileMax) ∧
  (0 < size → size ≤ lockfileMax → base + size ≤ int64.max)

/-- The arguments for which the range is exact. -/
def Regular (posn offset size : ℤ) : Prop :=
  posn < lockfileMax → offset ≠ int64.min ∧
    (offset < lockfileMax → 0 ≤ posn + offset → RegularFrom (posn + offset) size)

theorem posixRange_pos {base size : ℤ} (h : 0 < size) :
    posixRange base size = (base, base + size) :=
  if_pos h

theorem posixRange_neg {base size : ℤ} (h : size < 0) :
    posixRange base size = (base + size, base) := by
  unfold posixRange
  rw [if_neg (by omega), if_pos h]

theorem posixRange_zero (base : ℤ) : posixRange base 0 = (base, (lockfileMax : ℤ)) := rfl

theorem not_rangeExact_none {posn offset size : ℤ} : ¬ RangeExact none posn offset size := by
  rintro ⟨result, hresult, -⟩
  cases hresult

theorem rangeExact_error_iff {posn offset size : ℤ} {e : ℕ} :
    RangeExact (some (.error e)) posn offset size ↔ ¬ Lockable posn offset size := by
  constructor
  · rintro ⟨result, hresult, hiff, -⟩ hlock
    obtain ⟨r, hr⟩ := hiff.mpr hlock
    rw [hr] at hresult
    cases hresult
  · intro hlock
    refine ⟨_, rfl, ⟨?_, fun h => absurd h hlock⟩, ?_⟩
    · rintro ⟨r, hr⟩
      cases hr
    · intro start nbytes h
      cases h

/-- A range that can be locked is moved to below the guard byte. -/
theorem avoidsGuard_of_lockable {posn offset size start nbytes : ℤ}
    (hlock : Lockable posn offset size)
    (hrange : posixRange (posn + offset) size = (start, start + nbytes)) :
    AvoidsGuard start nbytes := by
  obtain ⟨hne, h0, hmax, -, -⟩ := hlock
  rw [hrange] at hne h0 hmax
  rw [lockfileMax_eq] at hmax
  simp only [AvoidsGuard, fits_int64, lockfileMax_eq, lockfileGuard_eq]
  omega

theorem rangeExact_ok_iff {posn offset size start nbytes : ℤ}
    (hrange : Lockable posn offset size →
      posixRange (posn + offset) size = (start, start + nbytes)) :
    RangeExact (some (.ok (start, nbytes))) posn offset size ↔ Lockable posn offset size := by
  constructor
  · rintro ⟨result, hresult, hiff, -⟩
    exact hiff.mp ⟨_, (Option.some.inj hresult).symm⟩
  · intro hlock
    refine ⟨_, rfl, ⟨fun _ => hlock, fun _ => ⟨_, rfl⟩⟩, ?_⟩
    rintro _ _ ⟨⟩
    exact ⟨hrange hlock, avoidsGuard_of_lockable hlock (hrange hlock)⟩

theorem lockable_iff_neg {posn offset size : ℤ} (h : size < 0) (hp : posn < lockfileMax)
    (ho : offset < lockfileMax) :
    Lockable posn offset size ↔ 0 ≤ posn + offset + size ∧ posn + offset ≤ lockfileMax := by
  unfold Lockable
  rw [posixRange_neg h]
  constructor
  · rintro ⟨-, h0, hmax, -, -⟩
    exact ⟨h0, hmax⟩
  · rintro ⟨h0, hmax⟩
    exact ⟨by dsimp only; omega, h0, hmax, hp, ho⟩

theorem lockable_iff_zero {posn offset : ℤ} (hp : posn < lockfileMax) (ho : offset < lockfileMax) :
    Lockable posn offset 0 ↔ 0 ≤ posn + offset ∧ posn + offset < lockfileMax := by
  unfold Lockable
  rw [posixRange_zero]
  constructor
  · rintro ⟨hne, h0, -, -, -⟩
    exact ⟨h0, hne⟩
  · rintro ⟨h0, hne⟩
    exact ⟨hne, h0, le_rfl, hp, ho⟩

theorem lockable_iff_pos {posn offset size : ℤ} (h : 0 < size) (hp : posn < lockfileMax)
    (ho : offset < lockfileMax) :
    Lockable posn offset size ↔
      0 ≤ posn + offset ∧ posn + offset + size ≤ lockfileMax := by
  unfold Lockable
  rw [posixRange_pos h]
  constructor
  · rintro ⟨-, h0, hmax, -, -⟩
    exact ⟨h0, hmax⟩
  · rintro ⟨h0, hmax⟩
    exact ⟨by dsimp only; omega, h0, hmax, hp, ho⟩

theorem rangeExact_neg_iff {posn offset size : ℤ} (hp : posn < lockfileMax)
    (ho : offset < lockfileMax) (hb : 0 ≤ posn + offset) (hs : int64.Fits size) (h : size < 0) :
    RangeExact (rangeBefore (posn + offset) size) posn offset size ↔
      size ≠ int64.min ∧ (-size ≤ lockfileMax → posn + offset ≤ lockfileMax) := by
  have hb' : int64.Fits (posn + offset) := by
    rw [lockfileMax_eq] at hp ho
    rw [fits_int64]
    omega
  rw [rangeBefore_eq hb hb' hs h]
  split_ifs with hmin hbad
  · exact iff_of_false not_rangeExact_none fun hc => hc.1 hmin
  · rw [rangeExact_error_iff, lockable_iff_neg h hp ho]
    constructor
    · intro hnot
      exact ⟨hmin, fun hle => by omega⟩
    · rintro ⟨-, hbase⟩ ⟨h0, hmax⟩
      omega
  · rw [rangeExact_ok_iff fun _ => by rw [posixRange_neg h]; congr 1; omega,
      lockable_iff_neg h hp ho]
    constructor
    · rintro ⟨-, hmax⟩
      exact ⟨hmin, fun _ => hmax⟩
    · rintro ⟨-, hbase⟩
      exact ⟨by omega, hbase (by omega)⟩

theorem rangeExact_nonneg_iff {posn offset size : ℤ} (hp : posn < lockfileMax)
    (ho : offset < lockfileMax) (hb : 0 ≤ posn + offset) (h : 0 ≤ size) :
    RangeExact (rangeAfter (posn + offset) size) posn offset size ↔
      (size = 0 → posn + offset ≠ lockfileMax) ∧
      (0 < size → size ≤ lockfileMax → posn + offset + size ≤ int64.max) := by
  rw [rangeAfter_eq hb h]
  rcases lt_or_eq_of_le h with hpos | rfl
  · split_ifs with hlong hover hstop hzero
    · rw [rangeExact_error_iff, lockable_iff_pos hpos hp ho]
      exact iff_of_true (by omega) ⟨by omega, by omega⟩
    · exact iff_of_false not_rangeExact_none fun hc => by have := hc.2 hpos (by omega); omega
    · rw [rangeExact_error_iff, lockable_iff_pos hpos hp ho]
      exact iff_of_true (by omega) ⟨by omega, by omega⟩
    · omega
    · rw [rangeExact_ok_iff fun _ => posixRange_pos hpos, lockable_iff_pos hpos hp ho]
      exact iff_of_true (by omega) ⟨by omega, by omega⟩
  · have hfits : ¬ int64.max < posn + offset + 0 := by
      rw [lockfileMax_eq] at hp ho
      simp only [int64]
      omega
    rw [if_neg (by omega), if_neg hfits, if_pos rfl]
    split_ifs with hstop
    · rw [rangeExact_error_iff, lockable_iff_zero hp ho]
      exact iff_of_true (by omega) ⟨by omega, by omega⟩
    · rw [rangeExact_ok_iff fun _ => by rw [posixRange_zero]; congr 1; omega,
        lockable_iff_zero hp ho]
      constructor
      · rintro ⟨-, hne⟩
        exact ⟨fun _ => ne_of_lt hne, by omega⟩
      · rintro ⟨hne, -⟩
        exact ⟨hb, by have := hne rfl; omega⟩

theorem rangeExact_rangeFrom_iff {posn offset size : ℤ} (hp0 : 0 ≤ posn)
    (ho : int64.Fits offset) (hs : int64.Fits size) :
    RangeExact (rangeFrom posn offset size) posn offset size ↔ Regular posn offset size := by
  by_cases hp : posn < lockfileMax
  swap
  · rw [rangeFrom_of_posn (by omega), rangeExact_error_iff]
    exact iff_of_true (fun hlock => hp hlock.2.2.2.1) fun h => absurd h hp
  by_cases hmin : offset = int64.min
  · subst hmin
    rw [rangeFrom_min hp]
    exact iff_of_false not_rangeExact_none fun h => (h hp).1 rfl
  by_cases hlt : offset < lockfileMax
  swap
  · rw [rangeFrom_of_offset hp ho hmin (Or.inl (by omega)) hp0, rangeExact_error_iff]
    exact iff_of_true (fun hlock => hlt hlock.2.2.2.2) fun _ => ⟨hmin, fun h => absurd h hlt⟩
  by_cases hb : 0 ≤ posn + offset
  swap
  · rw [rangeFrom_of_offset hp ho hmin (Or.inr (by omega)) hp0, rangeExact_error_iff]
    refine iff_of_true (fun hlock => hb ?_) fun _ => ⟨hmin, fun _ h => absurd h hb⟩
    obtain ⟨-, h0, -⟩ := hlock
    unfold posixRange at h0
    split_ifs at h0 <;> simp only at h0 <;> omega
  -- the base is known: what is left is the size
  have hreg : Regular posn offset size ↔ RegularFrom (posn + offset) size :=
    ⟨fun h => (h hp).2 hlt hb, fun h _ => ⟨hmin, fun _ _ => h⟩⟩
  rw [rangeFrom_of_regular hp ho hmin hlt hp0 hb, hreg]
  unfold RegularFrom
  split_ifs with hneg
  · rw [rangeExact_neg_iff hp hlt hb hs hneg]
    exact ⟨fun h => ⟨fun _ => h, by omega, by omega⟩, fun h => h.1 hneg⟩
  · rw [rangeExact_nonneg_iff hp hlt hb (by omega)]
    exact ⟨fun h => ⟨fun h' => absurd h' hneg, h⟩, And.right⟩

/-- For every origin, offset and size, the range is exact if and only if the arguments are
regular. -/
theorem lockfile_range_exact_iff (file : FileAnswers) (whence : Whence) (posn offset size : ℤ)
    (hposn : startingPosition file whence = .ok posn) (hp0 : 0 ≤ posn)
    (ho : int64.Fits offset) (hs : int64.Fits size) :
    RangeExact (lockfileGetRange file whence offset size) posn offset size ↔
      Regular posn offset size := by
  unfold lockfileGetRange
  rw [hposn]
  exact rangeExact_rangeFrom_iff hp0 ho hs

/-- What an exact computation hands out is a range that a client of the lock probes can ask for. -/
theorem RangeExact.exists_lockRange {outcome : Option (Except ℕ (ℤ × ℤ))}
    {posn offset size start nbytes : ℤ} (h : RangeExact outcome posn offset size)
    (hok : outcome = some (.ok (start, nbytes))) :
    ∃ r : LockRange, (r.start : ℤ) = start ∧ (r.nbytes : ℤ) = nbytes := by
  obtain ⟨result, hresult, hiff, hrange⟩ := h
  obtain rfl : result = .ok (start, nbytes) := Option.some.inj (hresult.symm.trans hok)
  obtain ⟨hne, h0, hmax, -, -⟩ := hiff.mp ⟨_, rfl⟩
  rw [(hrange start nbytes rfl).1] at hne h0 hmax
  dsimp only at hne h0 hmax
  refine ⟨⟨start.toNat, nbytes.toNat, by omega, by omega⟩, ?_, ?_⟩ <;>
  · dsimp only
    omega

/-- A file with its position at 5 and 12 bytes in it. -/
def helloFile : FileAnswers := ⟨.ok 5, .ok (), .ok 12⟩

/-- The last two bytes before the position. -/
theorem lockfile_range_exact_before :
    RangeExact (lockfileGetRange helloFile .seekCur 0 (-2)) 5 0 (-2) :=
  (lockfile_range_exact_iff helloFile .seekCur 5 0 (-2) rfl (by decide) (by decide)
    (by decide)).mpr fun _ =>
      ⟨by decide, fun _ _ => ⟨fun _ => ⟨by decide, by decide⟩, by decide, by decide⟩⟩

/-- A file with its position near the end of the window. -/
def largeFile : FileAnswers := ⟨.ok (lockfileMax - 1), .ok (), .ok (lockfileMax - 1)⟩

/-- One byte before a base of almost twice `LOCKFILE_MAX` is handed out although it is outside the
window, and adding `LOCKFILE_MAX` to its start overflows; a range of no bytes is handed out at the
end of the window; and the end of a range, the negated offset and the negated size overflow. -/
theorem lockfile_range_outside_window :
    (lockfileGetRange largeFile .seekCur (lockfileMax - 1) (-1) =
        some (.ok (2 * lockfileMax - 3, 1)) ∧
      ¬ Lockable (lockfileMax - 1) (lockfileMax - 1) (-1) ∧
      ¬ int64.Fits (lockfileMax + (2 * lockfileMax - 3))) ∧
    lockfileGetRange largeFile .seekCur 1 0 = some (.ok (lockfileMax, 0)) ∧
    lockfileGetRange largeFile .seekCur (lockfileMax - 1) 4 = none ∧
    lockfileGetRange largeFile .seekCur int64.min 1 = none ∧
    lockfileGetRange largeFile .seekCur 0 int64.min = none := by
  refine ⟨⟨by decide, ?_, by decide⟩, by decide, by decide, by decide, by decide⟩
  rintro ⟨-, -, hmax, -, -⟩
  exact absurd hmax (by decide)

end Lockfile
end Wpdk
