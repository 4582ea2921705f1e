import Mathlib.Data.Int.Notation
import Wpdk.Error

/-!
# The kill tool

`notify_process` sends a signal to a process.  A `SIGTERM` is sent with `wpdk_kill`, and if that
fails, or the process has not exited after a while, the process is terminated; a `SIGKILL`
terminates it at once.  The tool exits with what `notify_process` returns.

Three conventions for success meet here.  `wpdk_kill` returns zero, `TerminateProcess` returns a
`BOOL`, and the exit code of a process comes back in a variable.  The source takes the `BOOL` as it
is, so that a process that was terminated counts as a failure and one that was not as a success.
And `process_exited` compares the `BOOL` of `GetExitCodeProcess` with `STILL_ACTIVE`, where the exit
code is meant: the first call decides, whether the process has exited or not.

* `World`: what the system answers.
* `wpdkKill`, `processExited`, `notifyProcess`: the functions.
* `Reports`: the return value says whether the process was reached.
* `Waits`: a `SIGTERM` ends with the process seen to have exited, or with `TerminateProcess`.
* `notify_process_right_iff`: when both hold.
-/

namespace Wpdk
namespace Kill

/-- The signals of the tool, and none. -/
inductive Sig where
  | zero
  | sigint
  | sigterm
  | sigkill
deriving DecidableEq

/-- The number of a signal. -/
def Sig.num : Sig → ℤ
  | zero => 0
  | sigint => 2
  | sigterm => 15
  | sigkill => 9

/-- A call of `GetExitCodeProcess`: its result and the exit code. -/
structure Poll where
  ret : ℤ
  code : ℕ

/-- What the system answers: whether `OpenProcess` returns a handle, the number of the own process,
the result of `raise`, the event for a process and a signal with the result of `SetEvent`, the calls
of `GetExitCodeProcess` in their order and the result of `TerminateProcess`. -/
structure World where
  opened : Bool
  getpid : ℤ
  raise : ℤ → ℤ
  event : ℤ → ℤ → Option ℤ
  poll : ℕ → Poll
  terminate : ℤ

/-- `STILL_ACTIVE`. -/
def stillActive : ℕ := 259

section Functions

variable (w : World)

/-- `wpdk_kill`: the return value, and the error if it sets one. -/
def wpdkKill (pid sig : ℤ) : ℤ × Option Errno :=
  if pid = 0 ∨ pid = -1 ∨ pid = w.getpid ∨ -pid = w.getpid then
    (if sig ≠ 0 then w.raise sig else 0, none)
  else
    match w.event (if 0 < pid then pid else -pid) sig with
    | some rc => if rc ≠ 0 then (0, none) else (-1, some .enosys)
    | none => (-1, some .enosys)

/-- The loop of `process_exited` with `n` rounds to go, from the call with number `i` on: the number
of the call after which it returns 1, or nothing if it returns 0. -/
def processExitedFrom : ℕ → ℕ → Option ℕ
  | 0, _ => none
  | n + 1, i => if (w.poll i).ret ≠ stillActive then some i else processExitedFrom n (i + 1)

/-- `process_exited`. -/
def processExited : Option ℕ := processExitedFrom w 250 0

/-- What has come of a call of `notify_process`: the return value, the result of `wpdk_kill` if it
was called, the number of calls of `GetExitCodeProcess`, and the result of `TerminateProcess` if it
was called. -/
structure Outcome where
  rc : ℤ
  killed : Option ℤ
  polls : ℕ
  terminated : Option ℤ

/-- `TerminateProcess(h, 128 + sig) != 0`. -/
def terminateRc : ℤ := if w.terminate ≠ 0 then 1 else 0

/-- `notify_process`. -/
def notifyProcess (pid : ℤ) (sig : Sig) : Outcome :=
  if w.opened = false then ⟨1, none, 0, none⟩
  else
    match sig with
    | .sigterm =>
      let rc := (wpdkKill w pid sig.num).1
      if rc ≠ 0 then ⟨terminateRc w, some rc, 0, some w.terminate⟩
      else
        match processExited w with
        | some i => ⟨rc, some rc, i + 1, none⟩
        | none => ⟨terminateRc w, some rc, 250, some w.terminate⟩
    | .sigkill => ⟨terminateRc w, none, 0, some w.terminate⟩
    | .sigint => ⟨(wpdkKill w pid sig.num).1, some (wpdkKill w pid sig.num).1, 0, none⟩
    | .zero => ⟨0, none, 0, none⟩

end Functions

/-! ## What is asked of it -/

section Specification

variable (w : World) (pid : ℤ) (sig : Sig)

/-- The signal was delivered, or the process was terminated. -/
def Outcome.Reached (o : Outcome) : Prop := o.killed = some 0 ∨ ∃ b, o.terminated = some b ∧ b ≠ 0

/-- A call of `GetExitCodeProcess` says that the process has exited. -/
def World.Exited (i : ℕ) : Prop := (w.poll i).ret ≠ 0 ∧ (w.poll i).code ≠ stillActive

/-- **The return value is zero** exactly if there is the process and, for a signal, it was reached.
-/
def Reports : Prop :=
  (notifyProcess w pid sig).rc = 0 ↔
    w.opened = true ∧ (sig ≠ .zero → (notifyProcess w pid sig).Reached)

/-- **A `SIGTERM` ends** with the process seen to have exited, or with a call of `TerminateProcess`.
-/
def Waits : Prop :=
  sig = .sigterm → w.opened = true →
    (∃ i, i < (notifyProcess w pid sig).polls ∧ w.Exited i) ∨
      (notifyProcess w pid sig).terminated.isSome = true

/-- When it does what is asked: there is no process, or there is no signal, or the signal is
`SIGINT`, or it is a `SIGTERM` that is delivered, and the process is seen to have exited before the
loop ends, or the loop does not end early and `TerminateProcess` fails. -/
def Sound : Prop :=
  w.opened = true →
    match sig with
    | .zero => True
    | .sigint => True
    | .sigkill => False
    | .sigterm => (wpdkKill w pid sig.num).1 = 0 ∧
        match processExited w with
        | some i => ∃ j, j ≤ i ∧ w.Exited j
        | none => w.terminate = 0

end Specification

section Proof

variable {w : World} {pid : ℤ} {sig : Sig}

theorem terminateRc_eq_zero_iff : terminateRc w = 0 ↔ w.terminate = 0 := by
  unfold terminateRc
  split
  · rename_i h
    exact iff_of_false (by decide) h
  · rename_i h
    exact iff_of_true rfl (Decidable.not_not.mp h)

/-- Without the signal having been delivered, all depends on `TerminateProcess`. -/
theorem reached_terminated {rc : ℤ} {killed : Option ℤ} {polls : ℕ} (h : killed ≠ some 0) :
    Outcome.Reached ⟨rc, killed, polls, some w.terminate⟩ ↔ w.terminate ≠ 0 := by
  constructor
  · rintro (hkilled | ⟨b, hb, hne⟩)
    · exact absurd hkilled h
    · cases hb
      exact hne
  · exact fun hne => Or.inr ⟨w.terminate, rfl, hne⟩

/-- Without a process both hold. -/
theorem right_of_not_opened (h : w.opened = false) : Reports w pid sig ∧ Waits w pid sig := by
  have hcall : notifyProcess w pid sig = ⟨1, none, 0, none⟩ := if_pos h
  refine ⟨?_, fun _ hopened => ?_⟩
  · rw [Reports, hcall, h]
    exact iff_of_false Int.one_ne_zero fun hc => absurd hc.1 Bool.false_ne_true
  · rw [h] at hopened
    cases hopened

/-- Everything that is terminated is misreported. -/
theorem not_reports_terminated {o : Outcome} (hcall : notifyProcess w pid sig = o)
    (hopened : w.opened = true) (hsig : sig ≠ .zero) (hrc : o.rc = terminateRc w)
    (hreached : o.Reached ↔ w.terminate ≠ 0) : ¬ Reports w pid sig := by
  intro h
  rw [Reports, hcall, hrc, terminateRc_eq_zero_iff] at h
  by_cases hzero : w.terminate = 0
  · exact hreached.mp ((h.mp hzero).2 hsig) hzero
  · exact hzero (h.mpr ⟨hopened, fun _ => hreached.mpr hzero⟩)

/-- A `SIGKILL` never says what it has done. -/
theorem not_reports_sigkill (hopened : w.opened = true) : ¬ Reports w pid .sigkill := by
  have hcall : notifyProcess w pid .sigkill = ⟨terminateRc w, none, 0, some w.terminate⟩ := by
    rw [notifyProcess, if_neg (by rw [hopened]; decide)]
  exact not_reports_terminated hcall hopened (by decide) rfl (reached_terminated (by decide))

theorem sigterm_right_iff (hopened : w.opened = true) :
    (Reports w pid .sigterm ∧ Waits w pid .sigterm) ↔
      (wpdkKill w pid Sig.sigterm.num).1 = 0 ∧
        match processExited w with
        | some i => ∃ j, j ≤ i ∧ w.Exited j
        | none => w.terminate = 0 := by
  have hnotify : notifyProcess w pid .sigterm =
      if (wpdkKill w pid Sig.sigterm.num).1 ≠ 0 then
        ⟨terminateRc w, some (wpdkKill w pid Sig.sigterm.num).1, 0, some w.terminate⟩
      else
        match processExited w with
        | some i => ⟨(wpdkKill w pid Sig.sigterm.num).1,
            some (wpdkKill w pid Sig.sigterm.num).1, i + 1, none⟩
        | none =>
          ⟨terminateRc w, some (wpdkKill w pid Sig.sigterm.num).1, 250, some w.terminate⟩ := by
    rw [notifyProcess, if_neg (by rw [hopened]; decide)]
  by_cases hkill : (wpdkKill w pid Sig.sigterm.num).1 = 0
  · rw [if_neg (not_not_intro hkill)] at hnotify
    cases hexited : processExited w with
    | some i =>
      -- the signal was delivered and nothing terminated: all depends on what was seen
      rw [hexited, hkill] at hnotify
      have hreports : Reports w pid .sigterm := by
        rw [Reports, hnotify]
        exact iff_of_true rfl ⟨hopened, fun _ => Or.inl rfl⟩
      have hwaits : Waits w pid .sigterm ↔ ∃ j, j ≤ i ∧ w.Exited j := by
        rw [Waits, hnotify]
        constructor
        · intro h
          obtain ⟨j, hj, hseen⟩ := (h rfl hopened).resolve_right Bool.false_ne_true
          exact ⟨j, Nat.le_of_lt_succ hj, hseen⟩
        · rintro ⟨j, hj, hseen⟩ - -
          exact Or.inl ⟨j, Nat.lt_succ_of_le hj, hseen⟩
      exact ⟨fun h => ⟨hkill, hwaits.mp h.2⟩, fun h => ⟨hreports, hwaits.mpr h.2⟩⟩
    | none =>
      rw [hexited, hkill] at hnotify
      have hreports : Reports w pid .sigterm ↔ w.terminate = 0 := by
        rw [Reports, hnotify, terminateRc_eq_zero_iff]
        exact iff_true_right ⟨hopened, fun _ => Or.inl rfl⟩
      have hwaits : Waits w pid .sigterm := by
        rw [Waits, hnotify]
        exact fun _ _ => Or.inr rfl
      exact ⟨fun h => ⟨hkill, hreports.mp h.1⟩, fun h => ⟨hreports.mpr h.2, hwaits⟩⟩
  · rw [if_pos hkill] at hnotify
    have hnot := not_reports_terminated hnotify hopened (by decide) rfl
      (reached_terminated fun hsome => hkill (Option.some.inj hsome))
    exact iff_of_false (fun h => hnot h.1) fun h => hkill h.1

/-- A signal that is only sent is reported as it was sent. -/
theorem right_sigint (hopened : w.opened = true) :
    Reports w pid .sigint ∧ Waits w pid .sigint := by
  have hcall : notifyProcess w pid .sigint = ⟨(wpdkKill w pid Sig.sigint.num).1,
      some (wpdkKill w pid Sig.sigint.num).1, 0, none⟩ := by
    rw [notifyProcess, if_neg (by rw [hopened]; decide)]
  refine ⟨?_, fun h => nomatch h⟩
  rw [Reports, hcall]
  constructor
  · exact fun hrc => ⟨hopened, fun _ => Or.inl (congrArg some hrc)⟩
  · rintro ⟨-, hreached⟩
    rcases hreached (by decide) with hkilled | ⟨b, hb, -⟩
    · exact Option.some.inj hkilled
    · cases hb

theorem right_zero (hopened : w.opened = true) : Reports w pid .zero ∧ Waits w pid .zero := by
  have hcall : notifyProcess w pid .zero = ⟨0, none, 0, none⟩ := by
    rw [notifyProcess, if_neg (by rw [hopened]; decide)]
  refine ⟨?_, fun h => nomatch h⟩
  rw [Reports, hcall]
  exact iff_of_true rfl ⟨hopened, fun h => absurd rfl h⟩

end Proof

/-- For every process, every signal and whatever the system answers: the return value is right and a
`SIGTERM` is seen through, exactly under `Sound`. -/
theorem notify_process_right_iff (w : World) (pid : ℤ) (sig : Sig) :
    (Reports w pid sig ∧ Waits w pid sig) ↔ Sound w pid sig := by
  cases hopened : w.opened with
  | false =>
    refine iff_of_true (right_of_not_opened hopened) fun h => ?_
    rw [hopened] at h
    cases h
  | true =>
    cases sig with
    | zero => exact iff_of_true (right_zero hopened) fun _ => trivial
    | sigint => exact iff_of_true (right_sigint hopened) fun _ => trivial
    | sigkill => exact iff_of_false (fun h => not_reports_sigkill hopened h.1) fun h => h hopened
    | sigterm => exact (sigterm_right_iff hopened).trans ⟨fun h _ => h, fun h => h hopened⟩

/-- A process that is there, that can be terminated and that handles its signals; it is still
running whenever it is asked for its exit code. -/
def runningWorld : World where
  opened := true
  getpid := 1
  raise _ := 0
  event _ _ := some 1
  poll _ := ⟨1, stillActive⟩
  terminate := 1

/-- A `SIGKILL` terminates the process and returns 1.  A `SIGTERM` returns 0 after one look at the
process, which is running, and does not terminate it. -/
theorem notify_process_running :
    (notifyProcess runningWorld 5 .sigkill).rc = 1 ∧
      (notifyProcess runningWorld 5 .sigkill).terminated = some 1 ∧
      ¬ Reports runningWorld 5 .sigkill ∧
      notifyProcess runningWorld 5 .sigterm = ⟨0, some 0, 1, none⟩ ∧
      ¬ Waits runningWorld 5 .sigterm := by
  refine ⟨rfl, rfl, fun h => ?_, rfl, fun h => ?_⟩
  · exact absurd (h.mpr ⟨rfl, fun _ => Or.inr ⟨1, rfl, by decide⟩⟩) (by decide)
  · rcases h rfl rfl with ⟨i, -, hseen⟩ | hterminated
    · exact hseen.2 rfl
    · exact absurd hterminated (by decide)

end Kill
end Wpdk
