import Mathlib.Data.Int.Notation
import Mathlib.Data.List.Basic
import Mathlib.Logic.Function.Basic
import Wpdk.Base.Search
import Wpdk.Error

/-!
# Threads and their records

`pthread_create` allocates a `struct thread`, lists it in a table under a lock, starts a Windows
thread on it, and hands back the thread id.  The record is then used from three sides: the new
thread reads its start routine from it and leaves its result in it, `pthread_join` and
`pthread_detach` find it by the id and take it out of the table.  Which of them frees it depends on
the order in which they come to the lock, and they tell by the fields `start` and `index`.

A section of code under the lock is one step here, and so is each `free`, which is made after the
lock has been released.  What a call does in a row without touching anything shared --- testing
its arguments, closing a handle that is its own --- is in the step next to it.  Any number of calls
and threads take steps in any order.

* `Record`: `struct thread`.  Records are numbered in the order of their allocation, and a freed
  one is not given out again under its number, so that a late access can be told.
* `State`: the table and its high-water mark, the records, the Windows threads, and the calls.
  `freed` lists the calls of `free`, `faults` the accesses that are undefined.
* `allocateThread`, `setThreadInfo`, `getThreadInfo`, `threadStarting`, `threadDone`,
  `detachThread`: the sections under the lock, named as in the source.
* `step`: one step of a call or of a thread, with the answers of the operating system; `Stepped` is
  the same as a relation, and `stepped_of_step` is where the proofs about steps begin.

The operating system never gives out a thread id or a handle twice, and neither is zero.  A wait
ends when the thread of the handle has ended, or fails; it may do either on a handle that has been
closed in the meantime.
-/

namespace Wpdk
namespace Thread

/-- `struct thread`.  Pointers are numbers, and `NULL` is zero. -/
structure Record where
  id : ℕ
  h : ℕ
  start : ℕ
  arg : ℕ
  result : ℕ
  index : ℤ

/-- What `calloc` returns. -/
def Record.zero : Record := ⟨0, 0, 0, 0, 0, 0⟩

/-- The number of slots. -/
def maxthreads : ℕ := 8192

/-- An access the language does not define: to a record after it has been freed, or to a slot the
table does not have. -/
inductive Fault where
  | stale (r : ℕ)
  | bounds (index : ℤ)
deriving DecidableEq

/-- Where a Windows thread is: created but not resumed; on its way to `wpdk_thread_starting`; out
of the section under the lock there, with its copy of the record; in its start routine; past
`wpdk_thread_done`, with the value it returned or gave to `pthread_exit`; or ended. -/
inductive ThreadPc where
  | suspended
  | resumed
  | starting (info : Record)
  | running (info : Record)
  | left (value : ℕ)
  | terminated (value : ℕ)

/-- A Windows thread that runs `wpdk_start_thread` on a record.  Whether it was created detached
is remembered for the statements about it. -/
structure OsThread where
  record : ℕ
  detached : Bool
  pc : ThreadPc

/-- The detach state in the attributes. -/
inductive DetachState where
  | joinable
  | detached
deriving DecidableEq

/-- The arguments of `pthread_create`: whether there is a place for the id, the detach state in
the attributes if there are any, the start routine and its argument. -/
structure CreateArgs where
  thread : Bool
  attr : Option DetachState
  start : ℕ
  arg : ℕ

/-- The thread is to be created detached. -/
def CreateArgs.detached (args : CreateArgs) : Bool := args.attr = some .detached

/-- What `_beginthreadex` answers.  When it fails, the handle is zero and the variable for the id
keeps what happened to be in it. -/
inductive Begun where
  | ok (id h : ℕ)
  | failed (id : ℕ) (error : Errno)

/-- What is in the variable for the id. -/
def Begun.id : Begun → ℕ
  | .ok id _ => id
  | .failed id _ => id

/-- The handle that is returned. -/
def Begun.handle : Begun → ℕ
  | .ok _ h => h
  | .failed _ _ => 0

/-- What `WaitForSingleObjectEx` answers; on anything but the first and the last the loop in
`pthread_join` waits again. -/
inductive WaitResult where
  | object0
  | again
  | failed
deriving DecidableEq

/-- What a call has returned.  `pthread_create` has failed, having allocated the record `r` or
none, or has created a thread; `pthread_join` of `t` was or was not given a place for the value,
has or has not found the record, and returns `code`, with `out` written to that place;
`pthread_detach` of `t` has or has not found the record, and returns `code`. -/
inductive Ret where
  | createFailed (r : Option ℕ) (e : Errno)
  | created (id : ℕ)
  | joined (t : ℕ) (value found : Bool) (code : ℤ) (out : Option ℕ)
  | detached (t : ℕ) (found : Bool) (code : ℤ)

/-- Where a call is.

`pthread_create` has a record in the table (`allocated`); has written the start routine and its
argument to it (`filled`); has asked for the thread (`begun`); has written the id and the handle
(`registered`), and is about to resume the thread; or is about to free the record and to fail
(`discard`).  `pthread_join` waits on the handle `h` (`waiting`) or has an answer (`waited`).
Both `pthread_join` and `pthread_detach` close the handle and free the record, if it is theirs to
free, once they have taken it out of the table (`closing`). -/
inductive Pc where
  | idle
  | allocated (r : ℕ) (args : CreateArgs)
  | filled (r : ℕ) (args : CreateArgs)
  | begun (r : ℕ) (args : CreateArgs) (b : Begun)
  | registered (args : CreateArgs) (id h : ℕ)
  | discard (r : ℕ) (e : Errno)
  | waiting (t h index : ℕ) (value : Bool)
  | waited (t index : ℕ) (value : Bool) (rc : WaitResult)
  | closing (r h start : ℕ) (ret : Ret)
  | returned (ret : Ret)

/-- The code has `table` (`wpdk_threads`, with a null pointer before the first call), `hwmthreads`
and the records; the operating system has the threads, the handles that stand for them, and those
that have been closed. -/
structure State where
  table : Option (ℕ → Option ℕ)
  hwmthreads : ℕ
  records : ℕ → Record
  allocated : ℕ
  freed : List ℕ
  faults : List Fault
  threads : ℕ → Option OsThread
  handles : ℕ → Option ℕ
  closed : List ℕ
  calls : ℕ → Pc

namespace State

/-- No call has begun. -/
def start : State where
  table := none
  hwmthreads := 0
  records := fun _ => Record.zero
  allocated := 0
  freed := []
  faults := []
  threads := fun _ => none
  handles := fun _ => none
  closed := []
  calls := fun _ => .idle

/-- Call `c` is at `pc`. -/
def goto (s : State) (c : ℕ) (pc : Pc) : State :=
  { s with calls := Function.update s.calls c pc }

/-- Thread `t` is now as given. -/
def setThread (s : State) (t : ℕ) (th : OsThread) : State :=
  { s with threads := Function.update s.threads t (some th) }

/-- The record has new contents. -/
def setRecord (s : State) (r : ℕ) (contents : Record) : State :=
  { s with records := Function.update s.records r contents }

/-- The records are read or written. -/
def access (s : State) (rs : List ℕ) : State :=
  { s with faults := s.faults ++ (rs.filter (· ∈ s.freed)).map .stale }

/-- The record is freed. -/
def free (s : State) (r : ℕ) : State := { s with freed := s.freed ++ [r] }

/-- `CloseHandle`. -/
def closeHandle (s : State) (h : ℕ) : State := { s with closed := s.closed ++ [h] }

/-! ## The table -/

/-- `wpdk_threads[i]`. -/
def slot (s : State) (i : ℕ) : Option ℕ := s.table.bind fun table => table i

/-- `wpdk_threads[i] = NULL`. -/
def clear (s : State) (i : ℕ) : State :=
  { s with table := s.table.map fun table => Function.update table i none }

/-- The same where nothing has checked the index. -/
def clearAt (s : State) (index : ℤ) : State :=
  if 0 ≤ index ∧ index < maxthreads then s.clear index.toNat
  else { s with faults := s.faults ++ [.bounds index] }

/-- `wpdk_threads[i] && wpdk_threads[i]->id == id`. -/
def hasId (s : State) (id i : ℕ) : Bool :=
  match s.slot i with
  | some r => (s.records r).id == id
  | none => false

/-- The loop over the slots below the high-water mark. -/
def search (s : State) (id : ℕ) : ℕ := first (s.hasId id) s.hwmthreads

/-- The index that `wpdk_thread_done` and `wpdk_detach_thread` go on with. -/
def locate (s : State) (id : ℕ) (index : ℤ) : ℤ :=
  if index = -1 ∧ s.table.isSome then s.search id else index

/-- The slot and the record they work on, if the tests on the index and on the id succeed. -/
def entry (s : State) (id : ℕ) (index : ℤ) : Option (ℕ × ℕ) :=
  let i := s.locate id index
  if 0 ≤ i ∧ i < maxthreads then
    if s.hasId id i.toNat then (s.slot i.toNat).map fun r => (i.toNat, r) else none
  else none

/-- The records in the slots that are looked at on the way. -/
def visited (s : State) (id : ℕ) (index : ℤ) : List ℕ :=
  if index = -1 then (List.range (s.search id + 1)).filterMap s.slot
  else (s.slot index.toNat).toList

/-! ## The sections under the lock -/

/-- How `wpdk_allocate_thread` ends. -/
inductive Allocated where
  | noMemory
  | full (r : ℕ)
  | placed (r : ℕ)

/-- `wpdk_allocate_thread`; the two answers of `calloc` are for the table, if there is none yet,
and for the record. -/
def allocateThread (s : State) (tableOk recordOk : Bool) : State × Allocated :=
  match s.table.or (if tableOk then some fun _ => none else none) with
  | none => (s, .noMemory)
  | some table =>
    if recordOk then
      let r := s.allocated
      let i := first (fun i => (table i).isNone) maxthreads
      if i < maxthreads then
        ({ s with
            table := some (Function.update table i (some r))
            hwmthreads := if i ≥ s.hwmthreads then i + 1 else s.hwmthreads
            records := Function.update s.records r { Record.zero with index := i }
            allocated := r + 1 }, .placed r)
      else
        ({ s with
            table := some table
            records := Function.update s.records r Record.zero
            allocated := r + 1 }, .full r)
    else ({ s with table := some table }, .noMemory)

/-- `wpdk_set_thread_info`, up to the release of the lock. -/
def setThreadInfo (s : State) (r id h : ℕ) (detached : Bool) : State :=
  let old := s.records r
  let h := if detached then 0 else h
  if h = 0 then
    ((s.access [r]).setRecord r { old with id := id, h := h, index := -1 }).clearAt old.index
  else (s.access [r]).setRecord r { old with id := id, h := h }

/-- `wpdk_get_thread_info`. -/
def getThreadInfo (s : State) (id : ℕ) : State × Option (ℕ × ℕ) :=
  let i := s.search id
  (s.access (s.visited id (-1)),
    if i < s.hwmthreads then (s.slot i).map fun r => ((s.records r).h, i) else none)

/-- `wpdk_thread_starting`, up to the release of the lock; the copy is what it was before. -/
def threadStarting (s : State) (r : ℕ) : State :=
  (s.access [r]).setRecord r { s.records r with start := 0 }

/-- `wpdk_thread_done` in the thread `id`. -/
def threadDone (s : State) (id : ℕ) (index : ℤ) (result : ℕ) : State :=
  match s.entry id index with
  | some (_, r) =>
    (s.access (s.visited id index)).setRecord r { s.records r with result := result }
  | none => s.access (s.visited id index)

/-- `wpdk_detach_thread`, up to the release of the lock, with the record that was taken out and
what was read from it. -/
def detachThread (s : State) (id : ℕ) (index : ℤ) : State × Option (ℕ × Record) :=
  match s.entry id index with
  | some (i, r) =>
    (((s.access (s.visited id index)).setRecord r { s.records r with index := -1 }).clear i,
      some (r, s.records r))
  | none => (s.access (s.visited id index), none)

/-! ## The calls -/

/-- The arguments are tested and a record is allocated. -/
def pthreadCreate (s : State) (c : ℕ) (args : CreateArgs) (tableOk recordOk : Bool) : State :=
  if args.thread = false ∨ args.start = 0 then s.goto c (.returned (.createFailed none .einval))
  else
    match s.allocateThread tableOk recordOk with
    | (s, .noMemory) => s.goto c (.returned (.createFailed none .enomem))
    | (s, .full r) => s.goto c (.discard r .emfile)
    | (s, .placed r) => s.goto c (.allocated r args)

/-- `_beginthreadex`, with a new thread under an id and a handle that were never used. -/
def beginThread (s : State) (c r : ℕ) (args : CreateArgs) : Begun → Option State
  | .ok id h =>
    if id ≠ 0 ∧ h ≠ 0 ∧ s.threads id = none ∧ s.handles h = none then
      some ({ s with handles := Function.update s.handles h (some id) }.setThread id
        ⟨r, args.detached, .suspended⟩ |>.goto c (.begun r args (.ok id h)))
    else none
  | .failed id e => some (s.goto c (.begun r args (.failed id e)))

/-- `ResumeThread`. -/
def resumeThread (s : State) (h : ℕ) : State :=
  match s.handles h with
  | none => s
  | some t =>
    match s.threads t with
    | some ⟨r, detached, .suspended⟩ => s.setThread t ⟨r, detached, .resumed⟩
    | _ => s

/-- The thread is resumed, unless that fails; the handle of a detached one is closed, and nobody
else has it. -/
def finishCreate (s : State) (c : ℕ) (args : CreateArgs) (id h : ℕ) (ok : Bool) : State :=
  let s := if ok then s.resumeThread h else s
  let s := if args.detached then s.closeHandle h else s
  s.goto c (.returned (.created id))

/-- The arguments are tested and the handle is looked up. -/
def pthreadJoin (s : State) (c self t : ℕ) (value : Bool) : State :=
  let einval := Pc.returned (.joined t value false Errno.einval.code none)
  if t = 0 ∨ t = self then s.goto c einval
  else
    match s.getThreadInfo t with
    | (s, some (h, index)) => s.goto c (.waiting t h index value)
    | (s, none) => s.goto c einval

/-- The thread of a handle has ended. -/
def ended (s : State) (h : ℕ) : Bool :=
  match (s.handles h).bind s.threads with
  | some ⟨_, _, .terminated _⟩ => true
  | _ => false

/-- What `pthread_join` returns. -/
def joinCode (rc : WaitResult) (found : Bool) : ℤ :=
  if rc = .failed then lastError else if found then 0 else Errno.esrch.code

/-- The second half of `pthread_join`, and `pthread_detach`: the record is taken out of the table,
or the call returns. -/
def takeOut (s : State) (c t : ℕ) (index : ℤ) (ret : Option Record → Ret) : State :=
  match s.detachThread t index with
  | (s, some (r, old)) => s.goto c (.closing r old.h old.start (ret (some old)))
  | (s, none) => s.goto c (.returned (ret none))

/-- What `pthread_join` comes to, with the record that was taken out. -/
def joinRet (t : ℕ) (value : Bool) (rc : WaitResult) (old : Option Record) : Ret :=
  .joined t value old.isSome (joinCode rc old.isSome)
    (if value then old.map Record.result else none)

/-- What `pthread_detach` comes to. -/
def detachRet (t : ℕ) (old : Option Record) : Ret :=
  .detached t old.isSome (if old.isSome then 0 else Errno.einval.code)

/-- The end of `wpdk_detach_thread`, after the lock has been released. -/
def release (s : State) (c r h start : ℕ) (ret : Ret) : State :=
  let s := if h ≠ 0 then s.closeHandle h else s
  let s := if start = 0 then s.free r else s
  s.goto c (.returned ret)

/-- The end of `wpdk_thread_starting`, after the lock has been released. -/
def enterThread (s : State) (t : ℕ) (th : OsThread) (info : Record) : State :=
  let s := if info.index = -1 then s.free th.record else s
  s.setThread t { th with pc := .running info }

end State

/-- A thread ends by returning from its start routine, or by `pthread_exit`. -/
inductive Ending where
  | byReturn
  | byExit

/-- The index given to `wpdk_thread_done`. -/
def Ending.index (info : Record) : Ending → ℤ
  | .byReturn => info.index
  | .byExit => -1

/-- The steps of call `c` and of thread `t`, with what the operating system answers. -/
inductive Action where
  | create (c : ℕ) (args : CreateArgs) (tableOk recordOk : Bool)
  | fill (c : ℕ)
  | beginThread (c : ℕ) (b : Begun)
  | setInfo (c : ℕ)
  | finishCreate (c : ℕ) (ok : Bool)
  | discard (c : ℕ)
  | join (c self t : ℕ) (value : Bool)
  | wait (c : ℕ) (rc : WaitResult)
  | endJoin (c : ℕ)
  | detach (c t : ℕ)
  | release (c : ℕ)
  | starting (t : ℕ)
  | enter (t : ℕ)
  | leave (t value : ℕ) (how : Ending)
  | terminate (t : ℕ)

open State in
/-- One step. -/
def step (s : State) : Action → Option State
  | .create c args tableOk recordOk =>
    match s.calls c with
    | .idle => some (s.pthreadCreate c args tableOk recordOk)
    | _ => none
  | .fill c =>
    match s.calls c with
    | .allocated r args =>
      some ((s.access [r]).setRecord r { s.records r with start := args.start, arg := args.arg }
        |>.goto c (.filled r args))
    | _ => none
  | .beginThread c b =>
    match s.calls c with
    | .filled r args => s.beginThread c r args b
    | _ => none
  | .setInfo c =>
    match s.calls c with
    | .begun r args b =>
      let s := s.setThreadInfo r b.id b.handle args.detached
      match b with
      | .ok id h => some (s.goto c (.registered args id h))
      | .failed _ e => some (s.goto c (.discard r e))
    | _ => none
  | .finishCreate c ok =>
    match s.calls c with
    | .registered args id h => some (s.finishCreate c args id h ok)
    | _ => none
  | .discard c =>
    match s.calls c with
    | .discard r e => some ((s.free r).goto c (.returned (.createFailed (some r) e)))
    | _ => none
  | .join c self t value =>
    match s.calls c with
    | .idle => some (s.pthreadJoin c self t value)
    | _ => none
  | .wait c rc =>
    match s.calls c with
    | .waiting t h index value =>
      match rc with
      | .again => some s
      | .failed => some (s.goto c (.waited t index value .failed))
      | .object0 => if s.ended h then some (s.goto c (.waited t index value .object0)) else none
    | _ => none
  | .endJoin c =>
    match s.calls c with
    | .waited t index value rc => some (s.takeOut c t index (joinRet t value rc))
    | _ => none
  | .detach c t =>
    match s.calls c with
    | .idle => some (s.takeOut c t (-1) (detachRet t))
    | _ => none
  | .release c =>
    match s.calls c with
    | .closing r h start ret => some (s.release c r h start ret)
    | _ => none
  | .starting t =>
    match s.threads t with
    | some ⟨r, detached, .resumed⟩ =>
      some ((s.threadStarting r).setThread t ⟨r, detached, .starting (s.records r)⟩)
    | _ => none
  | .enter t =>
    match s.threads t with
    | some ⟨r, detached, .starting info⟩ =>
      some (s.enterThread t ⟨r, detached, .starting info⟩ info)
    | _ => none
  | .leave t value how =>
    match s.threads t with
    | some ⟨r, detached, .running info⟩ =>
      some ((s.threadDone t (how.index info) value).setThread t ⟨r, detached, .left value⟩)
    | _ => none
  | .terminate t =>
    match s.threads t with
    | some ⟨r, detached, .left value⟩ => some (s.setThread t ⟨r, detached, .terminated value⟩)
    | _ => none

/-- The steps one by one, each with the place at which it is taken. -/
inductive Stepped (s : State) : Action → State → Prop where
  | create {c : ℕ} (args : CreateArgs) (tableOk recordOk : Bool) (hc : s.calls c = .idle) :
    Stepped s (.create c args tableOk recordOk) (s.pthreadCreate c args tableOk recordOk)
  | fill {c r : ℕ} {args : CreateArgs} (hc : s.calls c = .allocated r args) :
    Stepped s (.fill c)
      ((s.access [r]).setRecord r { s.records r with start := args.start, arg := args.arg }
        |>.goto c (.filled r args))
  | beginThread {c r : ℕ} {args : CreateArgs} {b : Begun} {s' : State}
    (hc : s.calls c = .filled r args) (hbegin : s.beginThread c r args b = some s') :
    Stepped s (.beginThread c b) s'
  | setInfoOk {c r id h : ℕ} {args : CreateArgs} (hc : s.calls c = .begun r args (.ok id h)) :
    Stepped s (.setInfo c)
      ((s.setThreadInfo r id h args.detached).goto c (.registered args id h))
  | setInfoFailed {c r id : ℕ} {e : Errno} {args : CreateArgs}
    (hc : s.calls c = .begun r args (.failed id e)) :
    Stepped s (.setInfo c) ((s.setThreadInfo r id 0 args.detached).goto c (.discard r e))
  | finishCreate {c id h : ℕ} {args : CreateArgs} (ok : Bool)
    (hc : s.calls c = .registered args id h) :
    Stepped s (.finishCreate c ok) (s.finishCreate c args id h ok)
  | discard {c r : ℕ} {e : Errno} (hc : s.calls c = .discard r e) :
    Stepped s (.discard c) ((s.free r).goto c (.returned (.createFailed (some r) e)))
  | join {c : ℕ} (self t : ℕ) (value : Bool) (hc : s.calls c = .idle) :
    Stepped s (.join c self t value) (s.pthreadJoin c self t value)
  | waitAgain {c : ℕ} : Stepped s (.wait c .again) s
  | waited {c t h index : ℕ} {value : Bool} {rc : WaitResult}
    (hc : s.calls c = .waiting t h index value) (hrc : rc = .failed ∨ s.ended h = true) :
    Stepped s (.wait c rc) (s.goto c (.waited t index value rc))
  | endJoin {c t index : ℕ} {value : Bool} {rc : WaitResult}
    (hc : s.calls c = .waited t index value rc) :
    Stepped s (.endJoin c) (s.takeOut c t index (State.joinRet t value rc))
  | detach {c : ℕ} (t : ℕ) (hc : s.calls c = .idle) :
    Stepped s (.detach c t) (s.takeOut c t (-1) (State.detachRet t))
  | release {c r h start : ℕ} {ret : Ret} (hc : s.calls c = .closing r h start ret) :
    Stepped s (.release c) (s.release c r h start ret)
  | starting {t r : ℕ} {detached : Bool} (ht : s.threads t = some ⟨r, detached, .resumed⟩) :
    Stepped s (.starting t)
      ((s.threadStarting r).setThread t ⟨r, detached, .starting (s.records r)⟩)
  | enter {t r : ℕ} {detached : Bool} {info : Record}
    (ht : s.threads t = some ⟨r, detached, .starting info⟩) :
    Stepped s (.enter t) (s.enterThread t ⟨r, detached, .starting info⟩ info)
  | leave {t r : ℕ} {detached : Bool} {info : Record} (value : ℕ) (how : Ending)
    (ht : s.threads t = some ⟨r, detached, .running info⟩) :
    Stepped s (.leave t value how)
      ((s.threadDone t (how.index info) value).setThread t ⟨r, detached, .left value⟩)
  | terminate {t r value : ℕ} {detached : Bool}
    (ht : s.threads t = some ⟨r, detached, .left value⟩) :
    Stepped s (.terminate t) (s.setThread t ⟨r, detached, .terminated value⟩)

theorem stepped_of_step {s s' : State} {a : Action} (h : step s a = some s') : Stepped s a s' := by
  cases a with
  | create c args tableOk recordOk =>
    dsimp only [step] at h
    split at h
    · rename_i hc
      obtain rfl := Option.some.inj h
      exact .create args tableOk recordOk hc
    · cases h
  | fill c =>
    dsimp only [step] at h
    split at h
    · rename_i hc
      obtain rfl := Option.some.inj h
      exact .fill hc
    · cases h
  | beginThread c b =>
    dsimp only [step] at h
    split at h
    · rename_i hc
      exact .beginThread hc h
    · cases h
  | setInfo c =>
    dsimp only [step] at h
    split at h
    · rename_i hc
      split at h
      · obtain rfl := Option.some.inj h
        exact .setInfoOk hc
      · obtain rfl := Option.some.inj h
        exact .setInfoFailed hc
    · cases h
  | finishCreate c ok =>
    dsimp only [step] at h
    split at h
    · rename_i hc
      obtain rfl := Option.some.inj h
      exact .finishCreate ok hc
    · cases h
  | discard c =>
    dsimp only [step] at h
    split at h
    · rename_i hc
      obtain rfl := Option.some.inj h
      exact .discard hc
    · cases h
  | join c self t value =>
    dsimp only [step] at h
    split at h
    · rename_i hc
      obtain rfl := Option.some.inj h
      exact .join self t value hc
    · cases h
  | wait c rc =>
    dsimp only [step] at h
    split at h
    · rename_i hc
      split at h
      · obtain rfl := Option.some.inj h
        exact .waitAgain
      · obtain rfl := Option.some.inj h
        exact .waited hc (Or.inl rfl)
      · split at h
        · rename_i hended
          obtain rfl := Option.some.inj h
          exact .waited hc (Or.inr hended)
        · cases h
    · cases h
  | endJoin c =>
    dsimp only [step] at h
    split at h
    · rename_i hc
      obtain rfl := Option.some.inj h
      exact .endJoin hc
    · cases h
  | detach c t =>
    dsimp only [step] at h
    split at h
    · rename_i hc
      obtain rfl := Option.some.inj h
      exact .detach t hc
    · cases h
  | release c =>
    dsimp only [step] at h
    split at h
    · rename_i hc
      obtain rfl := Option.some.inj h
      exact .release hc
    · cases h
  | starting t =>
    dsimp only [step] at h
    split at h
    · rename_i ht
      obtain rfl := Option.some.inj h
      exact .starting ht
    · cases h
  | enter t =>
    dsimp only [step] at h
    split at h
    · rename_i ht
      obtain rfl := Option.some.inj h
      exact .enter ht
    · cases h
  | leave t value how =>
    dsimp only [step] at h
    split at h
    · rename_i ht
      obtain rfl := Option.some.inj h
      exact .leave value how ht
    · cases h
  | terminate t =>
    dsimp only [step] at h
    split at h
    · rename_i ht
      obtain rfl := Option.some.inj h
      exact .terminate ht
    · cases h

end Thread
end Wpdk
