import Wpdk.Base.CString
import Wpdk.Thread.Affinity
import Wpdk.Thread.Table
import Wpdk.Time.Deadline

/-!
# What the pthread functions return

A pthread function returns zero or an error number.  The functions for errors that the library
shares, `wpdk_last_error`, `wpdk_windows_error` and `wpdk_posix_error`, set `errno` and return -1,
as most of the C library does, so that every pthread function has to return `errno` after calling
one of them. Some return what the call has returned.

Twelve functions are here, each with its arguments and the answers of the system calls that it
makes, and with what it has come to: the return value, and whether the operation took effect.  The
parts of `pthread_create`, `pthread_join` and `pthread_detach` that look at the table are those of
`Wpdk.Thread.Table`, on the table as it is at that time; other threads may have changed it in
between.

* `Outcome`: the return value and the effect; `Outcome.Reported`: what is asked of it.
* `pthreadCreate`, ..., `pthreadCondTimedwait`: the functions.
* `PthreadCall`: a call of one of them; `PthreadCall.Sound`: when it is reported right.
* `pthread_codes_iff`: it is reported right exactly then.
-/

namespace Wpdk
namespace Pthread

open Thread

/-- The return value, and whether the operation took effect. -/
structure Outcome where
  ret : ℤ
  effect : Bool

namespace Outcome

/-- `return 0` after the operation has taken effect. -/
def ok : Outcome := ⟨0, true⟩

/-- `return` with an error number. -/
def failed (e : Errno) : Outcome := ⟨e.code, false⟩

/-- `wpdk_last_error(); return errno;`. -/
def lastErrno (e : WinError) : Outcome := ⟨convertToPosix e, false⟩

/-- `error = wpdk_last_error(); ... return error;`. -/
def lastError : Outcome := ⟨Wpdk.lastError, false⟩

/-- **The return value is zero or an error number**, and zero only if the operation took effect. -/
structure Reported (o : Outcome) : Prop where
  code : o.ret = 0 ∨ ∃ e : Errno, o.ret = e.code
  effect : o.ret = 0 → o.effect = true

end Outcome

/-! ## Threads -/

/-- `wpdk_pthread_create`: the answers are those of `calloc` for the table and for the record, and
of `_beginthreadex`, and whether `ResumeThread` succeeds. -/
def pthreadCreate (args : CreateArgs) (s : State) (tableOk recordOk : Bool) (begun : Begun)
    (resumed : Bool) : Outcome :=
  if args.thread = false ∨ args.start = 0 then .failed .einval
  else
    match (s.allocateThread tableOk recordOk).2 with
    | .noMemory => .failed .enomem
    | .full _ => .failed .emfile
    | .placed _ =>
      match begun with
      | .failed _ e => .failed e
      | .ok _ _ => ⟨0, resumed⟩

/-- The loop of `wpdk_pthread_join`; nothing if it has not come to an end. -/
def waitLoop : List WaitResult → Option WaitResult
  | [] => none
  | .again :: waits => waitLoop waits
  | .object0 :: _ => some .object0
  | .failed :: _ => some .failed

/-- `wpdk_pthread_join` in the thread `self`, with the table when the handle is looked up and the
table after the wait. -/
def pthreadJoin (self t : ℕ) (s s' : State) (waits : List WaitResult) : Option Outcome :=
  if t = 0 ∨ t = self then some (.failed .einval)
  else
    match (s.getThreadInfo t).2 with
    | none => some (.failed .einval)
    | some (_, index) =>
      (waitLoop waits).map fun rc =>
        let found := (s'.detachThread t index).2.isSome
        ⟨State.joinCode rc found, decide (rc = .object0) && found⟩

/-- `wpdk_pthread_detach`. -/
def pthreadDetach (t : ℕ) (s : State) : Outcome :=
  if (s.detachThread t (-1)).2.isSome then .ok else .failed .einval

/-! ## Affinity -/

/-- `wpdk_pthread_setaffinity_np`, with the result of `SetThreadAffinityMask`. -/
def pthreadSetaffinity (args : Affinity.Args) (opened : Except WinError Unit)
    (affinity : Affinity.Mask) : Outcome :=
  match Affinity.earlyCode args opened with
  | some code => ⟨code, false⟩
  | none => if affinity ≠ 0 then .ok else .lastError

/-- `wpdk_pthread_getaffinity_np`, with the result of `SetThreadAffinityMask` for each temporary
mask: these are 1, 2, 4 and so on, and the last one is 2 ^ 63. -/
def pthreadGetaffinity (args : Affinity.Args) (opened : Except WinError Unit)
    (probe : Affinity.Mask → Affinity.Mask) : Outcome :=
  match Affinity.earlyCode args opened with
  | some code => ⟨code, false⟩
  | none => if first (fun i => probe (1 <<< i) != 0) 64 < 64 then .ok else .lastError

/-! ## Keys -/

/-- The end of the functions for keys: a call of the system and its error. -/
def tlsOutcome {α : Type} : Except WinError α → Outcome
  | .error e => .lastErrno e
  | .ok _ => .ok

/-- `wpdk_pthread_key_create`, with the result of `TlsAlloc`. -/
def pthreadKeyCreate (key destructor : Bool) (alloc : Except WinError ℕ) : Outcome :=
  if key = false ∨ destructor = true then .failed .einval else tlsOutcome alloc

/-- `wpdk_pthread_key_delete`, with the result of `TlsFree`. -/
def pthreadKeyDelete (freed : Except WinError Unit) : Outcome := tlsOutcome freed

/-- `wpdk_pthread_setspecific`, with the result of `TlsSetValue`. -/
def pthreadSetspecific (set : Except WinError Unit) : Outcome := tlsOutcome set

/-! ## Names -/

/-- The size of `buf` in `wpdk_pthread_setname_np`. -/
def nameSize : ℕ := 32

/-- `wpdk_pthread_setname_np`; `available` is whether there is a `SetThreadDescription`, and `set`
whether it succeeds. -/
def pthreadSetname (thread : ℕ) (name : Option CString) (available : Bool)
    (opened : Except WinError Unit) (set : Bool) : Outcome :=
  match name with
  | none => .failed .einval
  | some name =>
    if thread = 0 then .failed .einval
    else if available = false then .failed .enosys
    else if (name.chars.take nameSize).length = 0 then .failed .einval
    else if (name.chars.take nameSize).length = nameSize then .failed .erange
    else
      match opened with
      | .error e => .lastErrno e
      | .ok _ => if set then .ok else .failed .einval

/-- `wpdk_pthread_getname_np`, with the text that `GetThreadDescription` gives if it succeeds. -/
def pthreadGetname (thread : ℕ) (name : Bool) (len : ℕ) (available : Bool)
    (opened : Except WinError Unit) (str : Option CString) : Outcome :=
  if thread = 0 ∨ name = false ∨ len < 1 then .failed .einval
  else if available = false then .failed .enosys
  else
    match opened with
    | .error e => .lastErrno e
    | .ok _ =>
      match str with
      | none => .failed .einval
      | some str => if (str.chars.take len).length < len then .ok else .failed .erange

/-! ## Condition variables -/

/-- The answers of `SleepConditionVariableCS`. -/
abbrev Sleep := Time.OsWait Time.SleepEnd (.failed .errorTimeout)

/-- `wpdk_cond_wait`; it takes effect if it is woken. -/
def condWait (os : Sleep) (present : Bool) (msecs : ℕ) : Outcome where
  ret := match (Time.condWait os present msecs).1 with
    | none => 0
    | some e => e.code
  effect := present && decide (os.status msecs = .woken)

/-- `wpdk_pthread_cond_wait`. -/
def pthreadCondWait (os : Sleep) (present : Bool) : Outcome := condWait os present Time.infinite

/-- `wpdk_pthread_cond_timedwait`; nothing where the conversion of the time overflows. -/
def pthreadCondTimedwait (os : Sleep) (present : Bool) (abstime now : Time.Timespec) :
    Option Outcome :=
  (Time.abstimeToMsecs abstime now).map fun r =>
    match r with
    | .error e => .failed e
    | .ok msecs => condWait os present (toDword msecs)

/-! ## Calls -/

/-- A call of one of the functions, with the answers. -/
inductive PthreadCall where
  | create (args : CreateArgs) (s : State) (tableOk recordOk : Bool) (begun : Begun)
    (resumed : Bool)
  | join (self t : ℕ) (s s' : State) (waits : List WaitResult)
  | detach (t : ℕ) (s : State)
  | setaffinity (args : Affinity.Args) (opened : Except WinError Unit) (affinity : Affinity.Mask)
  | getaffinity (args : Affinity.Args) (opened : Except WinError Unit)
    (probe : Affinity.Mask → Affinity.Mask)
  | keyCreate (key destructor : Bool) (alloc : Except WinError ℕ)
  | keyDelete (freed : Except WinError Unit)
  | setspecific (set : Except WinError Unit)
  | setname (thread : ℕ) (name : Option CString) (available : Bool) (opened : Except WinError Unit)
    (set : Bool)
  | getname (thread : ℕ) (name : Bool) (len : ℕ) (available : Bool) (opened : Except WinError Unit)
    (str : Option CString)
  | condWait (os : Sleep) (present : Bool)
  | condTimedwait (os : Sleep) (present : Bool) (abstime now : Time.Timespec)

namespace PthreadCall

/-- What a call comes to, if it returns. -/
def outcome : PthreadCall → Option Outcome
  | create args s tableOk recordOk begun resumed =>
    some (pthreadCreate args s tableOk recordOk begun resumed)
  | join self t s s' waits => pthreadJoin self t s s' waits
  | detach t s => some (pthreadDetach t s)
  | setaffinity args opened affinity => some (pthreadSetaffinity args opened affinity)
  | getaffinity args opened probe => some (pthreadGetaffinity args opened probe)
  | keyCreate key destructor alloc => some (pthreadKeyCreate key destructor alloc)
  | keyDelete freed => some (pthreadKeyDelete freed)
  | setspecific set => some (pthreadSetspecific set)
  | setname thread name available opened set =>
    some (pthreadSetname thread name available opened set)
  | getname thread name len available opened str =>
    some (pthreadGetname thread name len available opened str)
  | condWait os present => some (pthreadCondWait os present)
  | condTimedwait os present abstime now => pthreadCondTimedwait os present abstime now

/-- **When a call is reported right**, as far as it gets to the call of the system that matters: a
thread that was created is resumed; a wait does not fail; a mask is accepted, or one of the
temporary masks; a call that fails with the error in `errno` has an error; and a wait on a condition
variable that fails has timed out. -/
def Sound : PthreadCall → Prop
  | create args s tableOk recordOk begun resumed =>
    ∀ r id h, args.thread = true → args.start ≠ 0 →
      (s.allocateThread tableOk recordOk).2 = .placed r → begun = .ok id h → resumed = true
  | join self t s _ waits =>
    t ≠ 0 → t ≠ self → (s.getThreadInfo t).2.isSome = true → waitLoop waits ≠ some .failed
  | detach _ _ => True
  | setaffinity args opened affinity =>
    args.bad = false → opened ≠ .error .errorSuccess ∧ (opened = .ok () → affinity ≠ 0)
  | getaffinity args opened probe =>
    args.bad = false → opened ≠ .error .errorSuccess ∧
      (opened = .ok () → ∃ i, i < 64 ∧ probe (1 <<< i) ≠ 0)
  | keyCreate key destructor alloc =>
    key = true → destructor = false → alloc ≠ .error .errorSuccess
  | keyDelete freed => freed ≠ .error .errorSuccess
  | setspecific set => set ≠ .error .errorSuccess
  | setname thread name available opened _ =>
    ∀ n, name = some n → thread ≠ 0 → available = true → n.strlen ≠ 0 → n.strlen < nameSize →
      opened ≠ .error .errorSuccess
  | getname thread name len available opened _ =>
    thread ≠ 0 → name = true → 1 ≤ len → available = true → opened ≠ .error .errorSuccess
  | condWait os present =>
    present = true → ∀ e, os.status Time.infinite = .failed e → e = .errorTimeout
  | condTimedwait os present abstime now =>
    ∀ msecs, Time.abstimeToMsecs abstime now = some (.ok msecs) → present = true →
      ∀ e, os.status (toDword msecs) = .failed e → e = .errorTimeout

end PthreadCall

/-! ## Outcomes -/

section Outcomes

variable {o : Outcome}

theorem reported_ok : Outcome.ok.Reported := ⟨Or.inl rfl, fun _ => rfl⟩

theorem reported_failed (e : Errno) : (Outcome.failed e).Reported := by
  refine ⟨Or.inr ⟨e, rfl⟩, fun h => ?_⟩
  have hpos := e.code_pos
  have hzero : (e.code : ℤ) = 0 := h
  omega

/-- Without an error, `errno` is zero and so is the return value. -/
theorem reported_lastErrno_iff {e : WinError} :
    (Outcome.lastErrno e).Reported ↔ e ≠ .errorSuccess := by
  constructor
  · rintro h rfl
    exact absurd (h.effect rfl) Bool.false_ne_true
  · intro hne
    obtain ⟨x, hx⟩ := exists_code_of_ne hne
    have heq : Outcome.lastErrno e = Outcome.failed x := by
      rw [Outcome.lastErrno, hx]
      rfl
    rw [heq]
    exact reported_failed x

/-- The value of `wpdk_last_error` is not an error number. -/
theorem not_reported_lastError : ¬ Outcome.lastError.Reported := by
  intro h
  rcases h.code with hzero | ⟨e, he⟩
  · exact absurd hzero (by decide)
  · have hneg : (-1 : ℤ) = e.code := he
    omega

theorem reported_zero_iff {effect : Bool} : (⟨0, effect⟩ : Outcome).Reported ↔ effect = true :=
  ⟨fun h => h.effect rfl, fun h => ⟨Or.inl rfl, fun _ => h⟩⟩

/-- What is reported right is not -1. -/
theorem Outcome.Reported.ret_ne (h : o.Reported) : o.ret ≠ -1 := by
  rcases h.code with hzero | ⟨e, he⟩
  · rw [hzero]
    decide
  · rw [he]
    omega

/-- A check with an error number of its own: the rest matters only where the check passes. -/
theorem reported_guard_iff {bad : Prop} [Decidable bad] {e : Errno} {sound : Prop}
    (hbad : bad → sound) (hrest : ¬ bad → (o.Reported ↔ sound)) :
    (if bad then .failed e else o).Reported ↔ sound := by
  by_cases h : bad
  · rw [if_pos h]
    exact iff_of_true (reported_failed e) (hbad h)
  · rw [if_neg h]
    exact hrest h

/-- The last check of a function. -/
theorem reported_check {good : Prop} [Decidable good] (e : Errno) :
    (if good then Outcome.ok else .failed e).Reported := by
  split
  · exact reported_ok
  · exact reported_failed e

theorem reported_tlsOutcome_iff {α : Type} {result : Except WinError α} :
    (tlsOutcome result).Reported ↔ result ≠ .error .errorSuccess := by
  cases result with
  | ok _ => exact iff_of_true reported_ok fun h => nomatch h
  | error e => exact reported_lastErrno_iff.trans (not_congr ⟨congrArg _, Except.error.inj⟩)

end Outcomes

/-! ## The functions -/

section Functions

theorem reported_create_iff {args : CreateArgs} {s : State} {tableOk recordOk : Bool}
    {begun : Begun} {resumed : Bool} :
    (pthreadCreate args s tableOk recordOk begun resumed).Reported ↔
      (PthreadCall.create args s tableOk recordOk begun resumed).Sound := by
  unfold pthreadCreate
  refine reported_guard_iff (fun hargs r id h hthread hstart => ?_) fun hargs => ?_
  · rcases hargs with hfalse | hzero
    · rw [hfalse] at hthread
      cases hthread
    · exact absurd hzero hstart
  rw [not_or, Bool.not_eq_false] at hargs
  cases halloc : (s.allocateThread tableOk recordOk).2 with
  | noMemory =>
    refine iff_of_true (reported_failed _) fun r id h _ _ hr => ?_
    rw [halloc] at hr
    cases hr
  | full r =>
    refine iff_of_true (reported_failed _) fun r' id h _ _ hr => ?_
    rw [halloc] at hr
    cases hr
  | placed r =>
    cases begun with
    | failed id e =>
      exact iff_of_true (reported_failed _) fun r' id' h _ _ _ hb => nomatch hb
    | ok id h =>
      refine reported_zero_iff.trans ⟨fun hresumed _ _ _ _ _ _ _ => hresumed, fun hsound => ?_⟩
      exact hsound r id h hargs.1 hargs.2 halloc rfl

theorem waitLoop_ne_again (waits : List WaitResult) : waitLoop waits ≠ some .again := by
  induction waits with
  | nil => exact fun h => nomatch h
  | cons rc waits ih =>
    cases rc with
    | again => exact ih
    | object0 => exact fun h => nomatch h
    | failed => exact fun h => nomatch h

/-- What `pthread_join` does after the wait. -/
theorem reported_joinCode_iff {rc : WaitResult} (hrc : rc ≠ .again) (found : Bool) :
    (⟨State.joinCode rc found, decide (rc = .object0) && found⟩ : Outcome).Reported ↔
      rc ≠ .failed := by
  cases rc with
  | again => exact absurd rfl hrc
  | failed => exact iff_of_false not_reported_lastError fun h => h rfl
  | object0 =>
    refine iff_of_true ?_ (by decide)
    cases found with
    | true => exact reported_ok
    | false => exact reported_failed .esrch

theorem reported_join_iff {self t : ℕ} {s s' : State} {waits : List WaitResult} {o : Outcome}
    (h : pthreadJoin self t s s' waits = some o) :
    o.Reported ↔ (PthreadCall.join self t s s' waits).Sound := by
  unfold pthreadJoin at h
  by_cases hargs : t = 0 ∨ t = self
  · rw [if_pos hargs] at h
    obtain rfl := Option.some.inj h
    exact iff_of_true (reported_failed _) fun hzero hself _ => (hargs.elim hzero hself).elim
  · rw [if_neg hargs] at h
    cases hinfo : (s.getThreadInfo t).2 with
    | none =>
      rw [hinfo] at h
      obtain rfl := Option.some.inj h
      refine iff_of_true (reported_failed _) fun _ _ hsome => ?_
      rw [hinfo] at hsome
      cases hsome
    | some info =>
      obtain ⟨handle, index⟩ := info
      rw [hinfo] at h
      obtain ⟨rc, hrc, rfl⟩ := Option.map_eq_some_iff.mp h
      have hagain : rc ≠ .again := fun heq => waitLoop_ne_again waits (heq ▸ hrc)
      refine (reported_joinCode_iff hagain _).trans ⟨fun hne _ _ _ hfailed => ?_, fun hsound => ?_⟩
      · rw [hrc] at hfailed
        exact hne (Option.some.inj hfailed)
      · rw [not_or] at hargs
        rintro rfl
        exact hsound hargs.1 hargs.2 (by rw [hinfo]; rfl) hrc

theorem reported_detach (t : ℕ) (s : State) : (pthreadDetach t s).Reported := reported_check _

/-- A call on the affinity, up to the first write. -/
theorem reported_affinity_iff {args : Affinity.Args} {opened : Except WinError Unit}
    {accepted : Prop} [Decidable accepted] :
    (match Affinity.earlyCode args opened with
      | some code => (⟨code, false⟩ : Outcome)
      | none => if accepted then .ok else .lastError).Reported ↔
      (args.bad = false → opened ≠ .error .errorSuccess ∧ (opened = .ok () → accepted)) := by
  cases hbad : args.bad with
  | true =>
    have hearly : Affinity.earlyCode args opened = some (Errno.einval.code : ℤ) := if_pos hbad
    rw [hearly]
    exact iff_of_true (reported_failed .einval) fun h => nomatch h
  | false =>
    rw [forall_prop_of_true rfl]
    cases opened with
    | error e =>
      have hearly : Affinity.earlyCode args (.error e) = some (convertToPosix e : ℤ) :=
        if_neg (by rw [hbad]; decide)
      rw [hearly]
      refine (reported_lastErrno_iff (e := e)).trans ⟨fun hne => ⟨?_, (fun h => nomatch h)⟩, ?_⟩
      · exact fun h => hne (Except.error.inj h)
      · rintro ⟨hne, -⟩ rfl
        exact hne rfl
    | ok _ =>
      have hearly : Affinity.earlyCode args (.ok ()) = none := if_neg (by rw [hbad]; decide)
      rw [hearly]
      dsimp only
      by_cases hacc : accepted
      · rw [if_pos hacc]
        exact iff_of_true reported_ok ⟨(fun h => nomatch h), fun _ => hacc⟩
      · rw [if_neg hacc]
        exact iff_of_false not_reported_lastError fun h => hacc (h.2 rfl)

theorem first_probe_lt_iff {probe : Affinity.Mask → Affinity.Mask} :
    first (fun i => probe (1 <<< i) != 0) 64 < 64 ↔ ∃ i, i < 64 ∧ probe (1 <<< i) ≠ 0 := by
  constructor
  · intro h
    exact ⟨_, h, bne_iff_ne.mp (first_spec h)⟩
  · rintro ⟨i, hi, hne⟩
    exact first_lt hi (bne_iff_ne.mpr hne)

theorem reported_keyCreate_iff {key destructor : Bool} {alloc : Except WinError ℕ} :
    (pthreadKeyCreate key destructor alloc).Reported ↔
      (PthreadCall.keyCreate key destructor alloc).Sound := by
  refine reported_guard_iff (fun hargs hkey hdestructor => ?_) fun hargs => ?_
  · rw [hkey, hdestructor] at hargs
    exact absurd hargs (by decide)
  · rw [not_or, Bool.not_eq_false, Bool.not_eq_true] at hargs
    refine reported_tlsOutcome_iff.trans ⟨fun hne _ _ => hne, fun hsound => ?_⟩
    exact hsound hargs.1 hargs.2

theorem reported_setname_iff {thread : ℕ} {name : Option CString} {available set : Bool}
    {opened : Except WinError Unit} :
    (pthreadSetname thread name available opened set).Reported ↔
      (PthreadCall.setname thread name available opened set).Sound := by
  unfold pthreadSetname
  cases name with
  | none => exact iff_of_true (reported_failed _) fun n hn => nomatch hn
  | some name =>
    have hlength : (name.chars.take nameSize).length = min nameSize name.strlen := List.length_take
    dsimp only
    rw [hlength]
    refine reported_guard_iff (fun hzero _ _ hne => absurd hzero hne) fun hthread => ?_
    refine reported_guard_iff (fun hfalse _ _ _ htrue => ?_) fun havailable => ?_
    · rw [hfalse] at htrue
      cases htrue
    refine reported_guard_iff (fun hempty n hn _ _ hne => ?_) fun hempty => ?_
    · cases hn
      unfold nameSize at hempty
      omega
    refine reported_guard_iff (fun hlong n hn _ _ _ hlt => ?_) fun hlong => ?_
    · cases hn
      omega
    cases opened with
    | ok _ => exact iff_of_true (reported_check _) fun _ _ _ _ _ _ h => nomatch h
    | error e =>
      refine reported_lastErrno_iff.trans ⟨fun hne _ _ _ _ _ _ h => hne (Except.error.inj h), ?_⟩
      rintro hsound rfl
      exact hsound name rfl hthread (Bool.not_eq_false _ ▸ havailable) (by omega) (by omega) rfl

theorem reported_getname_iff {thread len : ℕ} {name available : Bool} {str : Option CString}
    {opened : Except WinError Unit} :
    (pthreadGetname thread name len available opened str).Reported ↔
      (PthreadCall.getname thread name len available opened str).Sound := by
  unfold pthreadGetname
  refine reported_guard_iff (fun hargs hthread hname hlen => ?_) fun hargs => ?_
  · rcases hargs with hzero | hfalse | hshort
    · exact absurd hzero hthread
    · rw [hfalse] at hname
      cases hname
    · omega
  rw [not_or, not_or, Bool.not_eq_false, Nat.not_lt] at hargs
  refine reported_guard_iff (fun hfalse _ _ _ htrue => ?_) fun havailable => ?_
  · rw [hfalse] at htrue
    cases htrue
  cases opened with
  | ok _ =>
    refine iff_of_true ?_ fun _ _ _ _ h => nomatch h
    cases str with
    | none => exact reported_failed _
    | some str => exact reported_check _
  | error e =>
    refine reported_lastErrno_iff.trans ⟨fun hne _ _ _ _ h => hne (Except.error.inj h), ?_⟩
    rintro hsound rfl
    exact hsound hargs.1 hargs.2.1 hargs.2.2 (Bool.not_eq_false _ ▸ havailable) rfl

theorem reported_condWait_iff {os : Sleep} {present : Bool} {msecs : ℕ} :
    (condWait os present msecs).Reported ↔
      (present = true → ∀ e, os.status msecs = .failed e → e = .errorTimeout) := by
  unfold condWait Time.condWait
  cases present with
  | false => exact iff_of_true (reported_failed .einval) fun h => nomatch h
  | true =>
    rw [forall_prop_of_true rfl]
    cases hstatus : os.status msecs with
    | woken =>
      refine iff_of_true ?_ fun e h => nomatch h
      exact reported_ok
    | failed e =>
      by_cases htimeout : e = .errorTimeout
      · subst htimeout
        refine iff_of_true (reported_failed .etimedout) fun e h => ?_
        exact (Time.SleepEnd.failed.inj h).symm
      · refine iff_of_false (fun h => ?_) fun h => htimeout (h e rfl)
        simp only [Bool.not_true, Bool.false_eq_true, if_false, if_neg htimeout] at h
        exact absurd (h.effect rfl) (by simp)

/-- The value is the one of `Time.condTimedwait`. -/
theorem ret_condTimedwait (os : Sleep) (present : Bool) (abstime now : Time.Timespec) :
    (pthreadCondTimedwait os present abstime now).map Outcome.ret =
      (Time.condTimedwait os present abstime now).map fun r =>
        match r.1 with
        | none => 0
        | some e => (e.code : ℤ) := by
  unfold pthreadCondTimedwait Time.condTimedwait
  cases Time.abstimeToMsecs abstime now with
  | none => rfl
  | some r =>
    cases r with
    | error e => rfl
    | ok msecs => rfl

theorem reported_condTimedwait_iff {os : Sleep} {present : Bool} {abstime now : Time.Timespec}
    {o : Outcome} (h : pthreadCondTimedwait os present abstime now = some o) :
    o.Reported ↔ (PthreadCall.condTimedwait os present abstime now).Sound := by
  obtain ⟨r, hr, rfl⟩ := Option.map_eq_some_iff.mp h
  cases r with
  | error e =>
    refine iff_of_true (reported_failed e) fun msecs hmsecs => ?_
    rw [hr] at hmsecs
    cases hmsecs
  | ok msecs =>
    refine reported_condWait_iff.trans ⟨fun hwait msecs' hmsecs => ?_, fun hsound => ?_⟩
    · rw [hr] at hmsecs
      cases hmsecs
      exact hwait
    · exact hsound msecs hr

end Functions

/-- For every call of the twelve functions that returns, whatever the arguments and the answers: the
return value is zero or an error number, and zero only if the operation took effect, exactly under
`Sound`. -/
theorem pthread_codes_iff (call : PthreadCall) (o : Outcome) (h : call.outcome = some o) :
    o.Reported ↔ call.Sound := by
  cases call with
  | create args s tableOk recordOk begun resumed =>
    obtain rfl := Option.some.inj h
    exact reported_create_iff
  | join self t s s' waits => exact reported_join_iff h
  | detach t s =>
    obtain rfl := Option.some.inj h
    exact iff_of_true (reported_detach t s) trivial
  | setaffinity args opened affinity =>
    obtain rfl := Option.some.inj h
    exact reported_affinity_iff
  | getaffinity args opened probe =>
    obtain rfl := Option.some.inj h
    refine reported_affinity_iff.trans ?_
    rw [first_probe_lt_iff]
    exact Iff.rfl
  | keyCreate key destructor alloc =>
    obtain rfl := Option.some.inj h
    exact reported_keyCreate_iff
  | keyDelete freed =>
    obtain rfl := Option.some.inj h
    exact reported_tlsOutcome_iff
  | setspecific set =>
    obtain rfl := Option.some.inj h
    exact reported_tlsOutcome_iff
  | setname thread name available opened set =>
    obtain rfl := Option.some.inj h
    exact reported_setname_iff
  | getname thread name len available opened str =>
    obtain rfl := Option.some.inj h
    exact reported_getname_iff
  | condWait os present =>
    obtain rfl := Option.some.inj h
    exact reported_condWait_iff
  | condTimedwait os present abstime now => exact reported_condTimedwait_iff h

/-- A mask that is refused. -/
def refusedMask : PthreadCall := .setaffinity ⟨4, 8, true⟩ (.ok ()) 0

/-- `wpdk_pthread_setaffinity_np` returns -1. -/
theorem setaffinity_returns_neg_one :
    refusedMask.outcome = some ⟨-1, false⟩ ∧ ¬ (⟨-1, false⟩ : Outcome).Reported :=
  ⟨rfl, not_reported_lastError⟩

/-- A key that cannot be deleted: the error number is returned, and that is right. -/
theorem pthread_codes_key_delete :
    (PthreadCall.keyDelete (.error .errorInvalidParameter)).outcome =
        some (.lastErrno .errorInvalidParameter) ∧
      (Outcome.lastErrno .errorInvalidParameter).Reported :=
  ⟨rfl, (pthread_codes_iff (.keyDelete (.error .errorInvalidParameter)) _ rfl).mpr
    (fun h => nomatch h)⟩

end Pthread
end Wpdk
