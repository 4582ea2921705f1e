import Mathlib.Algebra.BigOperators.Group.Finset.Basic
import Wpdk.Base.Run
import Wpdk.Aio.Context

/-!
# Vectored requests: the submit loop and the completions

`wpdk_aio_readv` and `wpdk_aio_writev` issue one transfer for each segment of an `iovec`
list.  A transfer completes inline, or later on another thread, or fails when it is issued.
The request as a whole owns the counter `active`, loaded with `iovcnt + 1`: one share for
each segment and one for the submit loop.  Whoever brings it to zero scans the results and
posts the event.

This file is the machine.  Its state is the shared memory of one request together with the
position of the submit loop and of every completion, and one move is one access to the
shared counter with the private writes that precede it:

* `.submit`: the next step of `wpdk_aio_readv` or `wpdk_aio_writev`;
* `.complete j`: the next step of the `wpdk_aio_done` call for segment `j`, which first
  stores its result and then gives back its share.

A schedule is a list of moves.  What the operating system does with a segment is fixed
beforehand (`Segment.outcome`), so every outcome and every interleaving is some pair of a
segment list and a schedule.

* `submitStep`, `completeStep`, `vectorStep`: the moves.
* `Submitted`: the branches of a step of the submit loop, for the proofs about it.
-/

namespace Wpdk
namespace Aio

/-! ## What can happen to a segment -/

/-- What the operating system does with the transfer of one segment: it completes inside the
call with `nbytes`, it stays pending and `wpdk_aio_done` is called with `res` later, or the
call fails with an error other than `ERROR_IO_PENDING`. -/
inductive Outcome where
  | inline (nbytes : ℕ)
  | later (res : ℤ)
  | failed (error : WinError)
  deriving DecidableEq

/-- A transfer moves at most what was asked for, a negative `res` is an error number, and a
call that fails leaves a real error behind. -/
def Outcome.Possible (len : ℕ) : Outcome → Prop
  | .inline nbytes => nbytes ≤ len
  | .later res => res ≤ len
  | .failed error => error ≠ .errorSuccess ∧ error ≠ .errorIoPending

/-- One entry of the `iovec` list, with its fate. -/
structure Segment where
  iovLen : ℕ
  outcome : Outcome
  possible : outcome.Possible iovLen

/-- A segment of length zero is not passed to the operating system: it completes inline with
no bytes. -/
def Segment.issued (seg : Segment) : Outcome :=
  if seg.iovLen = 0 then .inline 0 else seg.outcome

theorem Segment.issued_possible (seg : Segment) : seg.issued.Possible seg.iovLen := by
  unfold Segment.issued
  split_ifs with h
  · exact Nat.zero_le _
  · exact seg.possible

/-- **What a posted result has to be**: scan the segments in order, add the bytes
transferred, stop after the first segment that is shorter than requested, and report the
error if that segment failed. -/
def scanResult : List Segment → ℤ → ℤ
  | [], sum => sum
  | seg :: segs, sum =>
    match seg.issued with
    | .inline nbytes => if nbytes < seg.iovLen then sum + nbytes else scanResult segs (sum + nbytes)
    | .later res =>
      if res < 0 then res
      else if res < seg.iovLen then sum + res
      else scanResult segs (sum + res)
    | .failed error => -convertToPosix error

/-! ## The shared memory of a request -/

/-- Where the `type` field of a segment's task points: to its own `iov` member, or to its own
`result` member once the transfer turned out shorter than requested. -/
inductive TaskType where
  | iov
  | result
  deriving DecidableEq

/-- How far a segment has come.  `inline` and `pending` are issued, with the completion
still to be recorded by the submit loop or by another thread; `stored` has its result in
place; `counted` has given back its share of `active`. -/
inductive Phase where
  | unissued
  | inline
  | pending
  | stored
  | counted
  deriving DecidableEq

/-- The task of one segment. -/
structure SegTask where
  type : TaskType
  result : ℤ
  phase : Phase
  deriving DecidableEq

/-- Where the submit loop stands. -/
inductive SubmitPc where
  /-- About to issue segment `i`, or to leave the loop. -/
  | issue (i : ℕ)
  /-- The transfer of segment `i` completed inline: about to call `wpdk_aio_done`. -/
  | transferred (i nbytes : ℕ)
  /-- It was shorter than requested: about to give back the segments after it as well. -/
  | short (i : ℕ)
  /-- Segment `i` failed when it was issued: about to enter `wpdk_aio_iov_abort`. -/
  | abort (i : ℕ) (error : WinError)
  /-- The unissued segments are given back: about to read `active`. -/
  | reread (i : ℕ) (error : WinError)
  /-- Some earlier segment is still active: about to give back the loop's own share. -/
  | giveUp (i : ℕ) (error : WinError)
  /-- Returned, with the request left to its completions or settled by one. -/
  | returned (rc : ℤ)
  /-- Returned from `wpdk_aio_iov_abort` after it freed the request. -/
  | aborted (rc : ℤ)
  deriving DecidableEq

/-- A vectored request: the counter, the segment tasks, the submit loop, and what has come of
it: the results passed to `wpdk_aio_task_done` and the number of calls of `wpdk_aio_free`. -/
structure VecRequest where
  active : ℤ
  task : ℕ → SegTask
  pc : SubmitPc
  posted : List ℤ
  freed : ℕ

/-- `wpdk_aio_allocate` for `iovcnt` segments: the memory is zeroed, and only a list of more
than one segment gets the counter and the segment tasks. -/
def aioAllocateVector (iovcnt : ℕ) : VecRequest where
  active := if iovcnt > 1 then iovcnt + 1 else 0
  task := fun _ => ⟨.iov, 0, .unissued⟩
  pc := .issue 0
  posted := []
  freed := 0

/-- The loop of `wpdk_aio_iov_done`, from task `i` on with `k` tasks left. -/
def iovScan (task : ℕ → SegTask) : ℕ → ℕ → ℤ → ℤ
  | _, 0, result => result
  | i, k + 1, result =>
    if result < 0 then result
    else
      let next := if (task i).result < 0 then (task i).result else result + (task i).result
      if (task i).type = .result then next else iovScan task (i + 1) k next

/-- `wpdk_aio_iov_done`: give back `count` shares, and settle the request if they were the
last.  The scan reads tasks that nobody writes any more, so it is part of the same step. -/
def aioIovDone (iovcnt : ℕ) (count : ℤ) (s : VecRequest) : VecRequest :=
  if s.active - count = 0 then
    { s with
      active := 0
      posted := s.posted ++ [iovScan s.task 0 iovcnt 0]
      freed := s.freed + 1 }
  else { s with active := s.active - count }

/-- The writes of `wpdk_aio_done` to the task of a segment: record a short transfer in
`type`, then store the result. -/
def SegTask.store (t : SegTask) (res : ℤ) (phase : Phase) : SegTask where
  type := if res ≠ t.result then .result else t.type
  result := res
  phase := phase

/-- Replace the task of segment `i`. -/
def VecRequest.setTask (s : VecRequest) (i : ℕ) (t : SegTask) : VecRequest :=
  { s with task := Function.update s.task i t }

/-! ## Moves -/

/-- Who takes the next step. -/
inductive Move where
  | submit
  | complete (j : ℕ)
  deriving DecidableEq

/-- One step of the submit loop. -/
def submitStep (segs : List Segment) (s : VecRequest) : Option VecRequest :=
  match s.pc with
  | .issue i =>
    match segs[i]? with
    | none => some { aioIovDone segs.length 1 s with pc := .returned 0 }
    | some seg =>
      match seg.issued with
      | .inline nbytes =>
        some { s.setTask i ⟨(s.task i).type, seg.iovLen, .inline⟩ with
          pc := .transferred i nbytes }
      | .later _ =>
        some { s.setTask i ⟨(s.task i).type, seg.iovLen, .pending⟩ with pc := .issue (i + 1) }
      | .failed error =>
        some { s.setTask i ⟨(s.task i).type, seg.iovLen, .unissued⟩ with pc := .abort i error }
  | .transferred i nbytes =>
    segs[i]?.map fun seg =>
      { aioIovDone segs.length 1 (s.setTask i ((s.task i).store nbytes .counted)) with
        pc := if nbytes ≠ seg.iovLen then .short i else .issue (i + 1) }
  | .short i =>
    some { aioIovDone segs.length (segs.length - i) s with pc := .returned 0 }
  | .abort i error =>
    -- the source counts tasks from 1, so its `iovcnt - i + 1` is this `length - i`
    some { aioIovDone segs.length (segs.length - i)
        (s.setTask i { s.task i with result := -convertToPosix error }) with
      pc := .reread i error }
  | .reread i error =>
    if s.active = 1 then
      some { s with freed := s.freed + 1, pc := .aborted (-convertToPosix error) }
    else some { s with pc := .giveUp i error }
  | .giveUp _ _ =>
    some { aioIovDone segs.length 1 s with pc := .returned Errno.eintr.code }
  | .returned _ => none
  | .aborted _ => none

/-- **What a step of the submit loop can be**, by its branches. -/
inductive Submitted (segs : List Segment) (s : VecRequest) : VecRequest → Prop where
  | finish {i : ℕ} (hpc : s.pc = .issue i) (hseg : segs[i]? = none) :
    Submitted segs s { aioIovDone segs.length 1 s with pc := .returned 0 }
  | inline {i nbytes : ℕ} {seg : Segment} (hpc : s.pc = .issue i) (hseg : segs[i]? = some seg)
    (hissued : seg.issued = .inline nbytes) :
    Submitted segs s { s.setTask i ⟨(s.task i).type, seg.iovLen, .inline⟩ with
      pc := .transferred i nbytes }
  | later {i : ℕ} {seg : Segment} {res : ℤ} (hpc : s.pc = .issue i) (hseg : segs[i]? = some seg)
    (hissued : seg.issued = .later res) :
    Submitted segs s { s.setTask i ⟨(s.task i).type, seg.iovLen, .pending⟩ with
      pc := .issue (i + 1) }
  | failed {i : ℕ} {seg : Segment} {error : WinError} (hpc : s.pc = .issue i)
    (hseg : segs[i]? = some seg) (hissued : seg.issued = .failed error) :
    Submitted segs s { s.setTask i ⟨(s.task i).type, seg.iovLen, .unissued⟩ with
      pc := .abort i error }
  | transferred {i nbytes : ℕ} {seg : Segment} (hpc : s.pc = .transferred i nbytes)
    (hseg : segs[i]? = some seg) :
    Submitted segs s
      { aioIovDone segs.length 1 (s.setTask i ((s.task i).store nbytes .counted)) with
        pc := if nbytes ≠ seg.iovLen then .short i else .issue (i + 1) }
  | short {i : ℕ} (hpc : s.pc = .short i) :
    Submitted segs s { aioIovDone segs.length (segs.length - i) s with pc := .returned 0 }
  | abort {i : ℕ} {error : WinError} (hpc : s.pc = .abort i error) :
    Submitted segs s { aioIovDone segs.length (segs.length - i)
        (s.setTask i { s.task i with result := -convertToPosix error }) with
      pc := .reread i error }
  | free {i : ℕ} {error : WinError} (hpc : s.pc = .reread i error) (hone : s.active = 1) :
    Submitted segs s { s with freed := s.freed + 1, pc := .aborted (-convertToPosix error) }
  | keep {i : ℕ} {error : WinError} (hpc : s.pc = .reread i error) (hmore : s.active ≠ 1) :
    Submitted segs s { s with pc := .giveUp i error }
  | giveUp {i : ℕ} {error : WinError} (hpc : s.pc = .giveUp i error) :
    Submitted segs s { aioIovDone segs.length 1 s with pc := .returned Errno.eintr.code }

theorem submitted_of_submitStep {segs : List Segment} {s s' : VecRequest}
    (h : submitStep segs s = some s') : Submitted segs s s' := by
  unfold submitStep at h
  cases hpc : s.pc with
  | issue i =>
    simp only [hpc] at h
    cases hseg : segs[i]? with
    | none =>
      rw [hseg] at h
      obtain rfl := Option.some.inj h
      exact .finish hpc hseg
    | some seg =>
      rw [hseg] at h
      cases hissued : seg.issued with
      | inline nbytes =>
        simp only [hissued] at h
        obtain rfl := Option.some.inj h
        exact .inline hpc hseg hissued
      | later res =>
        simp only [hissued] at h
        obtain rfl := Option.some.inj h
        exact .later hpc hseg hissued
      | failed error =>
        simp only [hissued] at h
        obtain rfl := Option.some.inj h
        exact .failed hpc hseg hissued
  | transferred i nbytes =>
    simp only [hpc] at h
    obtain ⟨seg, hseg, rfl⟩ := Option.map_eq_some_iff.mp h
    exact .transferred hpc hseg
  | short i =>
    simp only [hpc] at h
    obtain rfl := Option.some.inj h
    exact .short hpc
  | abort i error =>
    simp only [hpc] at h
    obtain rfl := Option.some.inj h
    exact .abort hpc
  | reread i error =>
    simp only [hpc] at h
    split_ifs at h with hone
    · obtain rfl := Option.some.inj h
      exact .free hpc hone
    · obtain rfl := Option.some.inj h
      exact .keep hpc hone
  | giveUp i error =>
    simp only [hpc] at h
    obtain rfl := Option.some.inj h
    exact .giveUp hpc
  | returned rc =>
    simp only [hpc] at h
    cases h
  | aborted rc =>
    simp only [hpc] at h
    cases h

/-- One step of the completion of segment `j`: store the result, then give back the share. -/
def completeStep (segs : List Segment) (j : ℕ) (s : VecRequest) : Option VecRequest :=
  match segs[j]? with
  | none => none
  | some seg =>
    match (s.task j).phase, seg.issued with
    | .pending, .later res => some (s.setTask j ((s.task j).store res .stored))
    | .stored, _ =>
      some (aioIovDone segs.length 1 (s.setTask j { s.task j with phase := .counted }))
    | _, _ => none

/-- One move. -/
def vectorStep (segs : List Segment) (s : VecRequest) : Move → Option VecRequest
  | .submit => submitStep segs s
  | .complete j => completeStep segs j s

/-! ## The two requests of the source -/

/-- The operating system call that transfers a segment. -/
inductive FileCall where
  | readFile
  | writeFile

/-- What the operating system does with the transfer of segment `i` of length `len`. -/
abbrev TransferOracle := FileCall → (i len : ℕ) → { o : Outcome // o.Possible len }

/-- The segments of an `iovec` list, as one of the two calls treats them. -/
def segmentsOf (os : TransferOracle) (call : FileCall) (iov : List ℕ) : List Segment :=
  iov.mapIdx fun i len => ⟨len, (os call i len).1, (os call i len).2⟩

@[simp] theorem length_segmentsOf (os : TransferOracle) (call : FileCall) (iov : List ℕ) :
    (segmentsOf os call iov).length = iov.length := List.length_mapIdx

/-- `wpdk_aio_readv`. -/
def aioReadv (os : TransferOracle) (iov : List ℕ) : VecRequest → Move → Option VecRequest :=
  vectorStep (segmentsOf os .readFile iov)

/-- `wpdk_aio_writev`. -/
def aioWritev (os : TransferOracle) (iov : List ℕ) : VecRequest → Move → Option VecRequest :=
  vectorStep (segmentsOf os .writeFile iov)

end Aio
end Wpdk
