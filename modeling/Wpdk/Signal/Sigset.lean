import Mathlib.Data.Finset.Image
import Mathlib.Data.Finset.Range
import Wpdk.Base.Calls
import Wpdk.Base.Words
import Wpdk.Error
import Wpdk.Signal.Disposition

/-!
# Signal sets

`sigset_t` is one word of 32 bits, and signal `s` is bit `s - 1`.  The functions refuse a null
pointer and a signal that is not between 1 and `NSIG`; `sigfillset` sets the bits of all the others
and no more.  `pthread_sigmask` does not look at the set it is given: whatever has been blocked, it
reports that nothing was.

* `Call`, `call`: the functions.
* `signals`: the set in a word.
* `setCall`: the same for sets.
* `signal_sets_are_sets`: any sequence of calls.
-/

namespace Wpdk
namespace Signal
namespace Sigset

open Words

/-- The words of the variables `V`. -/
abbrev Memory (V : Type*) := V → BitVec 32

/-- A call with its arguments; `none` is a null pointer. -/
inductive Call (V : Type*) where
  | sigemptyset (set : Option V)
  | sigfillset (set : Option V)
  | sigaddset (set : Option V) (signo : ℤ)
  | sigdelset (set : Option V) (signo : ℤ)
  | sigismember (set : Option V) (signo : ℤ)
  | pthreadSigmask (how : ℤ) (set oset : Option V)

section Functions

variable {V : Type*} [DecidableEq V] (m : Memory V)

/-- `wpdk_sigemptyset`. -/
def sigemptyset : Option V → Except Errno ℤ × Memory V
  | none => (.error .einval, m)
  | some set => (.ok 0, Function.update m set 0#32)

/-- `wpdk_sigfillset`. -/
def sigfillset : Option V → Except Errno ℤ × Memory V
  | none => (.error .einval, m)
  | some set => (.ok 0, Function.update m set (1#32 <<< (nsig - 1).toNat - 1#32))

/-- `wpdk_sigaddset`. -/
def sigaddset (signo : ℤ) : Option V → Except Errno ℤ × Memory V
  | none => (.error .einval, m)
  | some set =>
    if signo < 1 ∨ signo ≥ nsig then (.error .einval, m)
    else (.ok 0, Function.update m set (m set ||| 1#32 <<< (signo - 1).toNat))

/-- `wpdk_sigdelset`. -/
def sigdelset (signo : ℤ) : Option V → Except Errno ℤ × Memory V
  | none => (.error .einval, m)
  | some set =>
    if signo < 1 ∨ signo ≥ nsig then (.error .einval, m)
    else (.ok 0, Function.update m set (m set &&& ~~~(1#32 <<< (signo - 1).toNat)))

/-- `wpdk_sigismember`. -/
def sigismember (signo : ℤ) : Option V → Except Errno ℤ × Memory V
  | none => (.error .einval, m)
  | some set =>
    if signo < 1 ∨ signo ≥ nsig then (.error .einval, m)
    else (.ok (if m set &&& 1#32 <<< (signo - 1).toNat != 0 then 1 else 0), m)

/-- `wpdk_pthread_sigmask`. -/
def pthreadSigmask : Option V → Except Errno ℤ × Memory V
  | none => (.ok 0, m)
  | some oset => (.ok 0, (sigemptyset m (some oset)).2)

/-- A call. -/
def call : Call V → Except Errno ℤ × Memory V
  | .sigemptyset set => sigemptyset m set
  | .sigfillset set => sigfillset m set
  | .sigaddset set signo => sigaddset m signo set
  | .sigdelset set signo => sigdelset m signo set
  | .sigismember set signo => sigismember m signo set
  | .pthreadSigmask _ _ oset => pthreadSigmask m oset

end Functions

/-! ## Sets -/

/-- The signals that there are. -/
def all : Finset ℤ := (Finset.range (nsig - 1).toNat).image fun bit : ℕ => (bit : ℤ) + 1

/-- What a call has to do to sets of signals. -/
def setCall {V : Type*} [DecidableEq V] (a : V → Finset ℤ) :
    Call V → Except Errno ℤ × (V → Finset ℤ)
  | .sigemptyset (some set) => (.ok 0, Function.update a set ∅)
  | .sigfillset (some set) => (.ok 0, Function.update a set all)
  | .sigaddset (some set) signo =>
    if signo ∈ all then (.ok 0, Function.update a set (insert signo (a set)))
    else (.error .einval, a)
  | .sigdelset (some set) signo =>
    if signo ∈ all then (.ok 0, Function.update a set ((a set).erase signo))
    else (.error .einval, a)
  | .sigismember (some set) signo =>
    if signo ∈ all then (.ok (if signo ∈ a set then 1 else 0), a) else (.error .einval, a)
  | .pthreadSigmask _ _ (some oset) => (.ok 0, Function.update a oset ∅)
  | .pthreadSigmask _ _ none => (.ok 0, a)
  | _ => (.error .einval, a)

/-- The signals of a word. -/
def signals (x : BitVec 32) : Finset ℤ := all.filter fun s => x.getLsbD (s - 1).toNat = true

section Signals

variable {x : BitVec 32} {s signo : ℤ}

theorem mem_all : s ∈ all ↔ 1 ≤ s ∧ s < nsig := by
  rw [all, Finset.mem_image]
  constructor
  · rintro ⟨bit, hbit, rfl⟩
    rw [Finset.mem_range] at hbit
    omega
  · rintro ⟨hpos, hlt⟩
    refine ⟨(s - 1).toNat, ?_, ?_⟩
    · rw [Finset.mem_range]
      omega
    · omega

theorem not_refused_iff : ¬ (signo < 1 ∨ signo ≥ nsig) ↔ signo ∈ all := by
  rw [mem_all]
  omega

theorem mem_signals : s ∈ signals x ↔ s ∈ all ∧ x.getLsbD (s - 1).toNat = true := Finset.mem_filter

/-- A signal is its bit. -/
theorem toNat_eq_iff (hs : s ∈ all) (hsigno : signo ∈ all) :
    (s - 1).toNat = (signo - 1).toNat ↔ s = signo := by
  rw [mem_all] at hs hsigno
  omega

theorem toNat_lt (hs : s ∈ all) : (s - 1).toNat < 32 := by
  rw [mem_all, nsig] at hs
  omega

theorem signals_zero : signals 0#32 = ∅ := by
  ext s
  simp [mem_signals]

theorem signals_fill : signals (1#32 <<< (nsig - 1).toNat - 1#32) = all := by
  decide

theorem signals_add (hsigno : signo ∈ all) :
    signals (x ||| 1#32 <<< (signo - 1).toNat) = insert signo (signals x) := by
  ext s
  rw [Finset.mem_insert, mem_signals, mem_signals, BitVec.getLsbD_or,
    getLsbD_one_shiftLeft (toNat_lt hsigno), Bool.or_eq_true, decide_eq_true_iff]
  constructor
  · rintro ⟨hs, hbit | hbit⟩
    · exact Or.inr ⟨hs, hbit⟩
    · exact Or.inl ((toNat_eq_iff hs hsigno).mp hbit)
  · rintro (rfl | ⟨hs, hbit⟩)
    · exact ⟨hsigno, Or.inr rfl⟩
    · exact ⟨hs, Or.inl hbit⟩

theorem signals_del (hsigno : signo ∈ all) :
    signals (x &&& ~~~(1#32 <<< (signo - 1).toNat)) = (signals x).erase signo := by
  ext s
  rw [Finset.mem_erase, mem_signals, mem_signals, BitVec.getLsbD_and, BitVec.getLsbD_not,
    getLsbD_one_shiftLeft (toNat_lt hsigno), Bool.and_eq_true, Bool.and_eq_true,
    decide_eq_true_iff, Bool.not_eq_true', decide_eq_false_iff_not]
  constructor
  · rintro ⟨hs, hbit, -, hne⟩
    exact ⟨fun heq => hne (heq ▸ rfl), hs, hbit⟩
  · rintro ⟨hne, hs, hbit⟩
    exact ⟨hs, hbit, toNat_lt hs, fun heq => hne ((toNat_eq_iff hs hsigno).mp heq)⟩

end Signals

/-- The sets in memory. -/
def sets {V : Type*} (m : Memory V) (v : V) : Finset ℤ := signals (m v)

theorem sets_update {V : Type*} [DecidableEq V] (m : Memory V) (set : V) (x : BitVec 32) :
    sets (Function.update m set x) = Function.update (sets m) set (signals x) :=
  Function.comp_update signals m set x

/-- **One call.** -/
theorem sets_call {V : Type*} [DecidableEq V] (m : Memory V) (c : Call V) :
    (call m c).1 = (setCall (sets m) c).1 ∧ sets (call m c).2 = (setCall (sets m) c).2 := by
  cases c with
  | sigemptyset set =>
    cases set with
    | none => exact ⟨rfl, rfl⟩
    | some set =>
      refine ⟨rfl, (sets_update m set _).trans ?_⟩
      rw [signals_zero]
      rfl
  | sigfillset set =>
    cases set with
    | none => exact ⟨rfl, rfl⟩
    | some set =>
      refine ⟨rfl, (sets_update m set _).trans ?_⟩
      rw [signals_fill]
      rfl
  | sigaddset set signo =>
    cases set with
    | none => exact ⟨rfl, rfl⟩
    | some set =>
      rw [call, sigaddset, setCall]
      by_cases hsigno : signo ∈ all
      · rw [if_neg (not_refused_iff.mpr hsigno), if_pos hsigno]
        refine ⟨rfl, (sets_update m set _).trans ?_⟩
        rw [signals_add hsigno]
        rfl
      · rw [if_pos (not_not.mp (mt not_refused_iff.mp hsigno)), if_neg hsigno]
        exact ⟨rfl, rfl⟩
  | sigdelset set signo =>
    cases set with
    | none => exact ⟨rfl, rfl⟩
    | some set =>
      rw [call, sigdelset, setCall]
      by_cases hsigno : signo ∈ all
      · rw [if_neg (not_refused_iff.mpr hsigno), if_pos hsigno]
        refine ⟨rfl, (sets_update m set _).trans ?_⟩
        rw [signals_del hsigno]
        rfl
      · rw [if_pos (not_not.mp (mt not_refused_iff.mp hsigno)), if_neg hsigno]
        exact ⟨rfl, rfl⟩
  | sigismember set signo =>
    cases set with
    | none => exact ⟨rfl, rfl⟩
    | some set =>
      rw [call, sigismember, setCall]
      by_cases hsigno : signo ∈ all
      · rw [if_neg (not_refused_iff.mpr hsigno), if_pos hsigno,
          and_one_shiftLeft_ne_zero _ (toNat_lt hsigno)]
        refine ⟨congrArg Except.ok (if_congr ?_ rfl rfl), rfl⟩
        rw [sets, mem_signals]
        exact ⟨fun hbit => ⟨hsigno, hbit⟩, And.right⟩
      · rw [if_pos (not_not.mp (mt not_refused_iff.mp hsigno)), if_neg hsigno]
        exact ⟨rfl, rfl⟩
  | pthreadSigmask how set oset =>
    cases oset with
    | none => exact ⟨rfl, rfl⟩
    | some oset =>
      refine ⟨rfl, (sets_update m oset _).trans ?_⟩
      rw [signals_zero]
      rfl

/-- **Signal sets are sets**: whatever the words hold at first, any sequence of calls returns what
the same operations on sets of the signals 1 to `NSIG - 1` return, and leaves the same sets. -/
theorem signal_sets_are_sets {V : Type*} [DecidableEq V] (m : Memory V) (cs : List (Call V)) :
    (replies call m cs).1 = (replies setCall (sets m) cs).1 ∧
      sets (replies call m cs).2 = (replies setCall (sets m) cs).2 := by
  refine replies_simulation (R := fun m a => sets m = a) (fun m a c hm => ?_) rfl cs
  subst hm
  exact sets_call m c

end Sigset
end Signal
end Wpdk
