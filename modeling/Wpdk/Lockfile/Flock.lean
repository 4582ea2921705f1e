import Wpdk.Error
import Wpdk.Lockfile.Probe

/-!
# `flock`

`wpdk_flock` locks a whole file for a handle, shared or exclusively.  It gives back whatever lock
the handle has, without looking at the result, and then asks for the new one.  If it is not to wait,
the request is made under a guard lock, which itself is waited for.

Any number of handles on one file are used at the same time, each by one caller, and every call of
the lock manager is one step.  A `LockFileEx` may fail for reasons of its own; one that waits takes
no step as long as a lock is in its way.

* `Pc`, `step`: the calls of the lock manager that `wpdk_flock` makes.
* `ownLocks`: what a handle holds, as a function of where its caller is and of how the last call has
  ended.
* `Exclusion`: the locks are those of readers and writers.
* `flock_excludes`: they are so in every state of every run.
-/

namespace Wpdk
namespace Flock

open Run
open Lockfile (lockfileMax lockfileGuard)

/-- `LOCK_SH`, `LOCK_EX` and `LOCK_UN`.  Any other operation is refused before anything is done. -/
inductive Operation where
  | sh
  | ex
  | un
deriving DecidableEq

/-- The lock that the operation asks for: exclusive or shared, or none. -/
def Operation.mode : Operation → Option Bool
  | .sh => some false
  | .ex => some true
  | .un => none

/-- A call that has returned: its operation, whether `LOCK_NB` was given, and what it has returned,
zero or -1 with an `errno`. -/
structure Outcome where
  op : Operation
  nowait : Bool
  result : Except ℕ Unit

/-- Where the caller of a handle is: out of the calls; about to unlock the range; about to lock it,
and waiting for it; about to lock the guard, and waiting for it; about to try to lock the range;
or about to unlock the guard. -/
inductive Pc where
  | idle
  | unlocking (op : Operation) (nowait : Bool)
  | locking (exclusive : Bool)
  | guarding (exclusive : Bool)
  | trying (exclusive : Bool)
  | unguarding (exclusive : Bool) (rc : Except WinError Unit)

/-- The locks on the file, how the last call on every handle has ended, and where the callers
are. -/
structure State where
  locks : List (FileLock ℕ)
  last : ℕ → Option Outcome
  pcs : ℕ → Pc

/-- No lock, and no call so far. -/
def State.start : State := ⟨[], fun _ => none, fun _ => .idle⟩

/-- The range of the whole file, as `wpdk_lockfile_get_range` and `wpdk_lockfile` compute it. -/
def wholeLock (i : ℕ) (exclusive : Bool) : FileLock ℕ := ⟨i, exclusive, lockfileMax, lockfileMax⟩

/-- `wpdk_lockfile(F_WRLCK, fildes, LOCKFILE_GUARD, 1, false)`. -/
def guardLock (i : ℕ) : FileLock ℕ := ⟨i, true, lockfileMax + lockfileGuard, 1⟩

/-- The operation that locks in a mode. -/
def lockOp (exclusive : Bool) : Operation := if exclusive then .ex else .sh

/-- The end of `wpdk_flock`: `EACCES` is turned into `EWOULDBLOCK` if it is not to wait. -/
def flockResult (nowait : Bool) : Except WinError Unit → Except ℕ Unit
  | .ok _ => .ok ()
  | .error e =>
    if nowait ∧ convertToPosix e = Errno.eacces.code then .error Errno.ewouldblock.code
    else .error (convertToPosix e)

namespace State

/-- The call on handle `i` goes on, with the locks as they are then. -/
def goto (s : State) (i : ℕ) (locks : List (FileLock ℕ)) (pc : Pc) : State :=
  { s with locks := locks, pcs := Function.update s.pcs i pc }

/-- A call returns. -/
def finish (s : State) (i : ℕ) (locks : List (FileLock ℕ)) (outcome : Outcome) : State where
  locks := locks
  last := Function.update s.last i (some outcome)
  pcs := Function.update s.pcs i .idle

/-- The locks after `UnlockFileEx`; its result is not looked at. -/
def unlocked (s : State) (l : FileLock ℕ) : List (FileLock ℕ) :=
  (unlockFile s.locks l.owner l.first l.len).getD s.locks

/-- The next call to the lock manager; `failure` is an error that `LockFileEx` has of its own. -/
def next (s : State) (i : ℕ) (failure : Option WinError) : Option State :=
  match s.pcs i with
  | .idle => none
  | .unlocking op nowait =>
    let locks := s.unlocked (wholeLock i true)
    match op.mode with
    | none => some (s.finish i locks ⟨op, nowait, .ok ()⟩)
    | some exclusive =>
      some (s.goto i locks (if nowait then .guarding exclusive else .locking exclusive))
  | .locking exclusive =>
    match failure with
    | some e => some (s.finish i s.locks ⟨lockOp exclusive, false, flockResult false (.error e)⟩)
    | none =>
      (lockFile s.locks (wholeLock i exclusive)).map fun locks =>
        s.finish i locks ⟨lockOp exclusive, false, flockResult false (.ok ())⟩
  | .guarding exclusive =>
    match failure with
    | some e => some (s.finish i s.locks ⟨lockOp exclusive, true, flockResult true (.error e)⟩)
    | none =>
      (lockFile s.locks (guardLock i)).map fun locks => s.goto i locks (.trying exclusive)
  | .trying exclusive =>
    match failure with
    | some e => some (s.goto i s.locks (.unguarding exclusive (.error e)))
    | none =>
      match lockFile s.locks (wholeLock i exclusive) with
      | none => some (s.goto i s.locks (.unguarding exclusive (.error .errorLockViolation)))
      | some locks => some (s.goto i locks (.unguarding exclusive (.ok ())))
  | .unguarding exclusive rc =>
    some (s.finish i (s.unlocked (guardLock i)) ⟨lockOp exclusive, true, flockResult true rc⟩)

end State

/-- A call of `wpdk_flock` on handle `i`, or the next step of the one that is under way. -/
inductive Action where
  | flock (i : ℕ) (op : Operation) (nowait : Bool)
  | next (i : ℕ) (failure : Option WinError)

/-- One step. -/
def step (s : State) : Action → Option State
  | .flock i op nowait =>
    match s.pcs i with
    | .idle => some (s.goto i s.locks (.unlocking op nowait))
    | _ => none
  | .next i failure => s.next i failure

/-! ## What a handle holds -/

/-- The mode in which a handle is locked after a call. -/
def Outcome.mode (o : Outcome) : Option Bool :=
  match o.result with
  | .ok _ => o.op.mode
  | .error _ => none

/-- The lock on the range after the last call. -/
def lastLock (i : ℕ) (last : Option Outcome) : List (FileLock ℕ) :=
  ((last.bind Outcome.mode).map (wholeLock i)).toList

/-- The locks of a handle, as a function of where its caller is. -/
def ownLocks (i : ℕ) (last : Option Outcome) : Pc → List (FileLock ℕ)
  | .idle | .unlocking _ _ => lastLock i last
  | .locking _ | .guarding _ => []
  | .trying _ => [guardLock i]
  | .unguarding exclusive (.ok _) => [wholeLock i exclusive, guardLock i]
  | .unguarding _ (.error _) => [guardLock i]

/-- The locks of handle `i`. -/
def State.own (s : State) (i : ℕ) : List (FileLock ℕ) := ownLocks i (s.last i) (s.pcs i)

/-- What a run keeps. -/
structure Inv (s : State) : Prop where
  held : HeldBy s.own s.locks
  compatible : Compatible s.locks

/-- **Reader/writer exclusion, with at most one lock per handle.** -/
structure Exclusion (s : State) : Prop where
  /-- A handle has at most one lock on the range. -/
  atMostOne : ∀ i, s.locks.count (wholeLock i true) + s.locks.count (wholeLock i false) ≤ 1
  /-- After a call that has returned zero, and until the next one, it has the lock that was asked
  for. -/
  granted : ∀ i o, s.pcs i = .idle → s.last i = some o → o.result = .ok () →
    ∀ exclusive, wholeLock i exclusive ∈ s.locks ↔ o.op.mode = some exclusive
  /-- After a call with `LOCK_NB` that has failed it has none. -/
  refused : ∀ i o e, s.pcs i = .idle → s.last i = some o → o.nowait = true → o.result = .error e →
    ∀ exclusive, wholeLock i exclusive ∉ s.locks
  /-- An exclusive lock is the only one. -/
  exclusive : ∀ i j exclusive, wholeLock i true ∈ s.locks → wholeLock j exclusive ∈ s.locks → i = j
  /-- Between calls no handle has the guard. -/
  noGuard : ∀ i, s.pcs i = .idle → guardLock i ∉ s.locks

@[simp]
theorem wholeLock_inj {i j : ℕ} {a b : Bool} : wholeLock i a = wholeLock j b ↔ i = j ∧ a = b := by
  simp [wholeLock]

@[simp]
theorem guardLock_ne_wholeLock (i j : ℕ) (a : Bool) : guardLock i ≠ wholeLock j a := by
  intro heq
  have hlen : 1 = lockfileMax := congrArg FileLock.len heq
  exact absurd hlen (by decide)

@[simp]
theorem wholeLock_ne_guardLock (i j : ℕ) (a : Bool) : wholeLock i a ≠ guardLock j :=
  (guardLock_ne_wholeLock j i a).symm

theorem wholeLock_overlaps (i j : ℕ) (a b : Bool) : (wholeLock i a).Overlaps (wholeLock j b) := by
  have hpos : 0 < lockfileMax := by decide
  exact ⟨Nat.lt_add_of_pos_right hpos, Nat.lt_add_of_pos_right hpos⟩

@[simp]
theorem lockOp_mode (exclusive : Bool) : (lockOp exclusive).mode = some exclusive := by
  cases exclusive <;> rfl

theorem lastLock_granted (i : ℕ) (exclusive nowait : Bool) :
    lastLock i (some ⟨lockOp exclusive, nowait, flockResult nowait (.ok ())⟩) =
      [wholeLock i exclusive] := by
  simp [lastLock, Outcome.mode, flockResult]

theorem lastLock_failed (i : ℕ) (op : Operation) (nowait : Bool) (e : WinError) :
    lastLock i (some ⟨op, nowait, flockResult nowait (.error e)⟩) = [] := by
  have hresult : ∃ errno, flockResult nowait (.error e) = .error errno := by
    rw [flockResult]
    split
    · exact ⟨_, rfl⟩
    · exact ⟨_, rfl⟩
  obtain ⟨errno, herrno⟩ := hresult
  rw [herrno]
  rfl

namespace State

theorem own_goto (s : State) (i : ℕ) (locks : List (FileLock ℕ)) (pc : Pc) :
    (s.goto i locks pc).own = Function.update s.own i (ownLocks i (s.last i) pc) := by
  funext j
  by_cases hj : j = i
  · subst hj
    simp [own, goto]
  · simp [own, goto, hj]

theorem own_finish (s : State) (i : ℕ) (locks : List (FileLock ℕ)) (o : Outcome) :
    (s.finish i locks o).own = Function.update s.own i (lastLock i (some o)) := by
  funext j
  by_cases hj : j = i
  · subst hj
    simp [own, finish, ownLocks]
  · simp [own, finish, hj]

end State

/-! ## One call of the lock manager -/

namespace Inv

variable {s s' : State} {i : ℕ} {a : FileLock ℕ}

theorem start : Inv State.start where
  held := fun _ => rfl
  compatible := fun _ ha => absurd ha List.not_mem_nil

/-- The locks are not touched. -/
theorem same (h : Inv s) (hown : s'.own = Function.update s.own i (s.own i))
    (hlocks : s'.locks = s.locks) : Inv s' where
  held := by
    rw [hown, Function.update_eq_self, hlocks]
    exact h.held
  compatible := by
    rw [hlocks]
    exact h.compatible

/-- The caller goes on with the locks that it had. -/
theorem goto (h : Inv s) {pc : Pc} (hpc : ownLocks i (s.last i) pc = s.own i) :
    Inv (s.goto i s.locks pc) := by
  refine h.same (i := i) ?_ rfl
  rw [State.own_goto, hpc]

/-- A caller without locks returns an error. -/
theorem fail (h : Inv s) (hnone : s.own i = []) (op : Operation) (nowait : Bool) (e : WinError) :
    Inv (s.finish i s.locks ⟨op, nowait, flockResult nowait (.error e)⟩) := by
  refine h.same (i := i) ?_ rfl
  rw [State.own_finish, lastLock_failed, hnone]

/-- A lock is granted. -/
theorem lock (h : Inv s) (hown : s'.own = Function.update s.own i (a :: s.own i))
    (ha : a.owner = i) (hlock : lockFile s.locks a = some s'.locks) : Inv s' := by
  by_cases hblocked : Blocked s.locks a
  · rw [lockFile_of_blocked hblocked] at hlock
    cases hlock
  · rw [lockFile_of_not_blocked hblocked] at hlock
    have hlocks : a :: s.locks = s'.locks := Option.some.inj hlock
    constructor
    · rw [hown, ← hlocks]
      exact h.held.lock ha
    · rw [← hlocks]
      exact h.compatible.lock hblocked

/-- A lock is given back. -/
theorem unlock (h : Inv s) (hown : s'.own = Function.update s.own i ((s.own i).erase a))
    (ha : a.owner = i) (hlocks : s'.locks = s.locks.erase a) : Inv s' where
  held := by
    rw [hown, hlocks]
    exact h.held.unlock ha
  compatible := by
    rw [hlocks]
    exact h.compatible.erase a

/-- The unlock of the range gives back the lock that is there, and is refused if there is none. -/
theorem unlock_whole (h : Inv s) {mode : Option Bool}
    (hmode : s.own i = (mode.map (wholeLock i)).toList)
    (hown : s'.own = Function.update s.own i [])
    (hlocks : s'.locks = s.unlocked (wholeLock i true)) : Inv s' := by
  have hmem : ∀ b, wholeLock i b ∈ s.locks ↔ wholeLock i b ∈ s.own i := fun b => h.held.mem_iff
  cases mode with
  | none =>
    have hnone : s.own i = [] := hmode
    have hunlocked : s.unlocked (wholeLock i true) = s.locks := by
      have hrefused : unlockFile s.locks i lockfileMax lockfileMax = none := by
        refine unlockFile_of_notMem fun b hb => ?_
        have hown' := (hmem b).mp hb
        rw [hnone] at hown'
        cases hown'
      show (unlockFile s.locks i lockfileMax lockfileMax).getD s.locks = s.locks
      rw [hrefused]
      rfl
    refine h.same (i := i) ?_ (hlocks.trans hunlocked)
    rw [hown, hnone]
  | some b =>
    have hone : s.own i = [wholeLock i b] := hmode
    have hunlocked : s.unlocked (wholeLock i true) = s.locks.erase (wholeLock i b) := by
      have hgiven : unlockFile s.locks i lockfileMax lockfileMax =
          some (s.locks.erase (wholeLock i b)) := by
        refine unlockFile_of_mem (l := wholeLock i b) ?_ ?_
        · rw [hmem, hone]
          exact List.mem_singleton_self _
        · intro hshared hexclusive
          have htrue : wholeLock i true ∈ s.own i := (hmem true).mp hexclusive
          have hfalse : b = false := hshared
          rw [hone, hfalse] at htrue
          simp at htrue
      show (unlockFile s.locks i lockfileMax lockfileMax).getD s.locks = _
      rw [hgiven]
      rfl
    refine h.unlock (i := i) ?_ rfl (hlocks.trans hunlocked)
    rw [hown, hone, List.erase_cons_head]

/-- The guard is given back. -/
theorem unlock_guard (h : Inv s) (hguard : guardLock i ∈ s.own i)
    (hown : s'.own = Function.update s.own i ((s.own i).erase (guardLock i)))
    (hlocks : s'.locks = s.unlocked (guardLock i)) : Inv s' := by
  have hheld : guardLock i ∈ s.locks := h.held.mem_iff.mpr hguard
  refine h.unlock hown rfl (hlocks.trans ?_)
  rw [State.unlocked, unlockFile_of_mem hheld (fun hshared => nomatch hshared)]
  rfl

end Inv

/-- **Every call of the lock manager keeps the account.** -/
theorem inv_next {s s' : State} {i : ℕ} {failure : Option WinError} (h : Inv s)
    (hnext : s.next i failure = some s') : Inv s' := by
  have hpc : s.own i = ownLocks i (s.last i) (s.pcs i) := rfl
  unfold State.next at hnext
  cases hi : s.pcs i with
  | idle =>
    rw [hi] at hnext
    cases hnext
  | unlocking op nowait =>
    rw [hi] at hnext hpc
    cases hop : op.mode with
    | none =>
      simp only [hop, Option.some.injEq] at hnext
      subst hnext
      refine h.unlock_whole hpc ?_ rfl
      rw [State.own_finish]
      simp [lastLock, Outcome.mode, hop]
    | some exclusive =>
      simp only [hop, Option.some.injEq] at hnext
      subst hnext
      refine h.unlock_whole hpc ?_ rfl
      rw [State.own_goto]
      cases nowait <;> rfl
  | locking exclusive =>
    rw [hi] at hnext hpc
    cases failure with
    | some e =>
      cases hnext
      exact h.fail hpc _ _ e
    | none =>
      obtain ⟨locks, hlock, rfl⟩ := Option.map_eq_some_iff.mp hnext
      refine h.lock (i := i) ?_ rfl hlock
      rw [State.own_finish, lastLock_granted, hpc]
      rfl
  | guarding exclusive =>
    rw [hi] at hnext hpc
    cases failure with
    | some e =>
      cases hnext
      exact h.fail hpc _ _ e
    | none =>
      obtain ⟨locks, hlock, rfl⟩ := Option.map_eq_some_iff.mp hnext
      refine h.lock (i := i) ?_ rfl hlock
      rw [State.own_goto, hpc]
      rfl
  | trying exclusive =>
    rw [hi] at hnext hpc
    cases failure with
    | some e =>
      cases hnext
      exact h.goto hpc.symm
    | none =>
      cases hlock : lockFile s.locks (wholeLock i exclusive) with
      | none =>
        simp only [hlock, Option.some.injEq] at hnext
        subst hnext
        exact h.goto hpc.symm
      | some locks =>
        simp only [hlock, Option.some.injEq] at hnext
        subst hnext
        refine h.lock (i := i) ?_ rfl hlock
        rw [State.own_goto, hpc]
        rfl
  | unguarding exclusive rc =>
    rw [hi] at hnext hpc
    cases hnext
    cases rc with
    | ok _ =>
      refine h.unlock_guard ?_ ?_ rfl
      · rw [hpc]
        simp [ownLocks]
      · rw [State.own_finish, lastLock_granted, hpc]
        simp [ownLocks]
    | error e =>
      refine h.unlock_guard ?_ ?_ rfl
      · rw [hpc]
        exact List.mem_singleton_self _
      · rw [State.own_finish, lastLock_failed, hpc]
        simp [ownLocks]

theorem inv_step {s s' : State} {a : Action} (h : Inv s) (hstep : step s a = some s') : Inv s' := by
  cases a with
  | next i failure => exact inv_next h hstep
  | flock i op nowait =>
    unfold step at hstep
    cases hi : s.pcs i with
    | idle =>
      simp only [hi, Option.some.injEq] at hstep
      subst hstep
      refine h.goto ?_
      rw [State.own, hi]
      rfl
    | _ =>
      simp [hi] at hstep

/-! ## Exclusion -/

theorem count_wholeLock_le_one (i : ℕ) (last : Option Outcome) (pc : Pc) :
    (ownLocks i last pc).count (wholeLock i true) +
      (ownLocks i last pc).count (wholeLock i false) ≤ 1 := by
  have hlast : (lastLock i last).count (wholeLock i true) +
      (lastLock i last).count (wholeLock i false) ≤ 1 := by
    unfold lastLock
    cases last.bind Outcome.mode with
    | none => simp
    | some b => cases b <;> simp
  cases pc with
  | idle => exact hlast
  | unlocking op nowait => exact hlast
  | locking exclusive => simp [ownLocks]
  | guarding exclusive => simp [ownLocks]
  | trying exclusive => simp [ownLocks]
  | unguarding exclusive rc =>
    cases rc with
    | error e => simp [ownLocks]
    | ok _ => cases exclusive <;> simp [ownLocks]

/-- **What the handles hold is what the locks of readers and writers are.** -/
theorem Inv.exclusion {s : State} (h : Inv s) : Exclusion s := by
  have hidle : ∀ i, s.pcs i = .idle → s.own i = lastLock i (s.last i) := by
    intro i hi
    rw [State.own, hi]
    rfl
  refine ⟨?_, ?_, ?_, ?_, ?_⟩
  · intro i
    rw [h.held, h.held]
    exact count_wholeLock_le_one i (s.last i) (s.pcs i)
  · intro i o hi ho hok exclusive
    rw [h.held.mem_iff]
    change wholeLock i exclusive ∈ s.own i ↔ _
    rw [hidle i hi, ho, lastLock]
    simp [Outcome.mode, hok]
  · intro i o e hi ho _ herror exclusive hmem
    have hown : wholeLock i exclusive ∈ s.own i := h.held.mem_iff.mp hmem
    rw [hidle i hi, ho, lastLock] at hown
    simp [Outcome.mode, herror] at hown
  · intro i j exclusive hi hj
    exact h.compatible _ hi _ hj rfl (wholeLock_overlaps i j true exclusive)
  · intro i hi hmem
    have hown : guardLock i ∈ s.own i := h.held.mem_iff.mp hmem
    rw [hidle i hi, lastLock, Option.mem_toList, Option.map_eq_some_iff] at hown
    obtain ⟨b, -, hb⟩ := hown
    exact wholeLock_ne_guardLock i i b hb

/-- **`flock` excludes as it should in every state of every run**, for any number of handles. -/
theorem flock_excludes (run : List Action) (s : State) (h : exec step State.start run = some s) :
    Exclusion s :=
  (exec_invariant (fun _ _ _ => inv_step) Inv.start h).exclusion

/-- Handle 0 turns its shared lock into an exclusive one, while handle 1 asks for a shared one
without waiting. -/
def conversion : List Action :=
  [.flock 0 .sh false, .next 0 none, .next 0 none, .flock 1 .sh true, .flock 0 .ex false,
    .next 1 none, .next 0 none, .next 0 none, .next 1 none, .next 1 none, .next 1 none]

theorem flock_excludes_conversion : ∃ s, exec step State.start conversion = some s ∧
    s.locks = [wholeLock 0 true] ∧
    s.last 1 = some ⟨.sh, true, .error Errno.ewouldblock.code⟩ ∧ Exclusion s :=
  ⟨_, rfl, rfl, rfl, flock_excludes conversion _ rfl⟩

end Flock
end Wpdk
