import Wpdk.Aio.Vectored
import Wpdk.Base.Signed

/-!
# `io_submit`

`wpdk_io_submit` works through an array of control blocks.  For each of them it checks the pointer,
the descriptor and the opcode, allocates a task, issues the transfers and looks at what has come of
that: zero if the request was started or has completed, a negative `errno` if it was not, and
`EINTR` if a vectored request has failed with segments still active.

Any number of calls run on one context at the same time, and completions arrive at any time after a
transfer was left pending.  A step of a call is an allocation together with the checks before it,
one transfer of a plain request, one step of a vectored request, or the look at the return code.

* `validateIovec`, `startPlain`, `startVector`, `startEntry`: from a control block to a task, with
  the ways in which that ends (`Looked`).
* `Entry`: what has become of one control block of a call.
* `Entry.submit`, `Entry.complete`: a step of the call, and a step of a completion.
* `SubmitState`, `submission`: all calls on a context.

The code under `WPDK_AIO_TEST` is left out, and so is `errno`: the functions return it as well.
-/

namespace Wpdk
namespace Aio

/-! ## Control blocks -/

/-- `aio_lio_opcode`. -/
inductive Opcode where
  | pread
  | pwrite
  | preadv
  | pwritev
  | unknown
  deriving DecidableEq

/-- `struct iocb`, with the lengths of the vector that `aio_buf` points to in the vectored
requests. -/
structure ControlBlock extends Iocb where
  aioLioOpcode : Opcode
  aioFildes : ℤ
  aioNbytes : BitVec 64
  iovLen : ℕ → ℕ

/-- The conversion of a `size_t` to `int`. -/
def intOf (n : BitVec 64) : ℤ := (n.setWidth 32).toInt

/-- The loop of `wpdk_aio_validate_iovec`, with `k` elements left. -/
def validateLoop (iovLen : ℕ → ℕ) : ℕ → ℕ → ℕ → Bool
  | _, 0, _ => true
  | i, k + 1, length =>
    if iovLen i > ssizeMax - length then false
    else validateLoop iovLen (i + 1) k (length + iovLen i)

/-- `wpdk_aio_validate_iovec`. -/
def validateIovec (iovLen : ℕ → ℕ) (iovcnt : BitVec 64) : Bool :=
  if iovcnt.toNat < 1 then false else validateLoop iovLen 0 (intOf iovcnt).toNat 0

/-- What the system does while a control block is looked at: whether `_get_osfhandle` knows a
descriptor, whether `calloc` finds memory, and the fates of the transfers. -/
structure Answers where
  osfhandle : ℤ → Bool
  mem : Bool
  os : TransferOracle

/-! ## Entries -/

/-- How far a plain request has come: its task is allocated; its transfer is pending; it has
completed; or it was aborted. -/
inductive PlainPc where
  | issuing
  | pending
  | completed (res : ℤ)
  | aborted (error : WinError)

/-- What has become of one control block of a call: it has not been looked at; no task was allocated
for it; or it is a request. -/
inductive Entry where
  | waiting
  | refused (rc : ℤ)
  | plain (task : IoTask) (seg : Segment) (pc : PlainPc)
  | vector (task : IoTask) (segs : List Segment) (req : VecRequest)

/-- `wpdk_aio_read` and `wpdk_aio_write`, up to the transfer. -/
def startPlain (hdr : IoHeader) (iocb : Iocb) (call : FileCall) (len : ℕ) (answers : Answers) :
    IoHeader × Entry :=
  match aioAllocate hdr iocb answers.mem with
  | none => (hdr, .refused (-Errno.eagain.code))
  | some (task, hdr') =>
    (hdr', .plain task ⟨len, (answers.os call 0 len).1, (answers.os call 0 len).2⟩ .issuing)

/-- The vectored opcodes: a vector of one element is a plain request.  For more elements this is
`wpdk_aio_readv` and `wpdk_aio_writev`, up to their loop. -/
def startVector (hdr : IoHeader) (io : ControlBlock) (call : FileCall) (answers : Answers) :
    IoHeader × Entry :=
  if validateIovec io.iovLen io.aioNbytes = false then (hdr, .refused (-Errno.einval.code))
  else if io.aioNbytes = 1 then startPlain hdr io.toIocb call (io.iovLen 0) answers
  else
    let iov := (List.range (intOf io.aioNbytes).toNat).map io.iovLen
    match aioAllocate hdr io.toIocb answers.mem with
    | none => (hdr, .refused (-Errno.eagain.code))
    | some (task, hdr') =>
      (hdr', .vector task (segmentsOf answers.os call iov) (aioAllocateVector iov.length))

/-- The body of the loop of `wpdk_io_submit`, up to the first transfer. -/
def startEntry (hdr : IoHeader) (io : Option ControlBlock) (answers : Answers) :
    IoHeader × Entry :=
  match io with
  | none => (hdr, .refused (-Errno.einval.code))
  | some io =>
    if answers.osfhandle io.aioFildes = false then (hdr, .refused (-Errno.einval.code))
    else
      match io.aioLioOpcode with
      | .pread => startPlain hdr io.toIocb .readFile io.aioNbytes.toNat answers
      | .pwrite => startPlain hdr io.toIocb .writeFile io.aioNbytes.toNat answers
      | .preadv => startVector hdr io .readFile answers
      | .pwritev => startVector hdr io .writeFile answers
      | .unknown => (hdr, .refused (-Errno.einval.code))

/-- **What comes of a control block that is looked at**: it is refused, or a task is allocated for a
plain or for a vectored request. -/
inductive Looked (hdr : IoHeader) (io : Option ControlBlock) (answers : Answers) :
    IoHeader × Entry → Prop where
  | refused {rc : ℤ} (hneg : rc < 0) : Looked hdr io answers (hdr, .refused rc)
  | plain {iocb : Iocb} {task : IoTask} {hdr' : IoHeader} {seg : Segment}
    (halloc : aioAllocate hdr iocb answers.mem = some (task, hdr')) :
    Looked hdr io answers (hdr', .plain task seg .issuing)
  | vector {b : ControlBlock} {call : FileCall} {task : IoTask} {hdr' : IoHeader}
    (hio : io = some b) (hop : b.aioLioOpcode = .preadv ∨ b.aioLioOpcode = .pwritev)
    (hpos : 1 ≤ b.aioNbytes.toNat) (hone : b.aioNbytes ≠ 1)
    (halloc : aioAllocate hdr b.toIocb answers.mem = some (task, hdr')) :
    Looked hdr io answers (hdr', .vector task
      (segmentsOf answers.os call ((List.range (intOf b.aioNbytes).toNat).map b.iovLen))
      (aioAllocateVector ((List.range (intOf b.aioNbytes).toNat).map b.iovLen).length))

theorem looked_startPlain (hdr : IoHeader) (io : Option ControlBlock) (iocb : Iocb)
    (call : FileCall) (len : ℕ) (answers : Answers) :
    Looked hdr io answers (startPlain hdr iocb call len answers) := by
  unfold startPlain
  cases halloc : aioAllocate hdr iocb answers.mem with
  | none => exact .refused (by decide)
  | some allocated => exact .plain halloc

theorem looked_startVector (hdr : IoHeader) (b : ControlBlock) (call : FileCall)
    (answers : Answers) (hop : b.aioLioOpcode = .preadv ∨ b.aioLioOpcode = .pwritev) :
    Looked hdr (some b) answers (startVector hdr b call answers) := by
  unfold startVector
  split_ifs with hvalid hone
  · exact .refused (by decide)
  · exact looked_startPlain hdr (some b) b.toIocb call (b.iovLen 0) answers
  · cases halloc : aioAllocate hdr b.toIocb answers.mem with
    | none => exact .refused (by decide)
    | some allocated =>
      have hpos : 1 ≤ b.aioNbytes.toNat := by
        by_contra hzero
        exact hvalid (if_pos (Nat.lt_of_not_le hzero))
      exact .vector rfl hop hpos hone halloc

theorem looked_startEntry {hdr : IoHeader} {io : Option ControlBlock} {answers : Answers}
    {done : IoHeader × Entry} (h : startEntry hdr io answers = done) :
    Looked hdr io answers done := by
  rw [← h]
  unfold startEntry
  cases io with
  | none => exact .refused (by decide)
  | some b =>
    simp only
    split_ifs
    · exact .refused (by decide)
    · cases hop : b.aioLioOpcode with
      | pread =>
        exact looked_startPlain hdr (some b) b.toIocb .readFile b.aioNbytes.toNat answers
      | pwrite =>
        exact looked_startPlain hdr (some b) b.toIocb .writeFile b.aioNbytes.toNat answers
      | preadv => exact looked_startVector hdr b .readFile answers (Or.inl hop)
      | pwritev => exact looked_startVector hdr b .writeFile answers (Or.inr hop)
      | unknown => exact .refused (by decide)

/-- The transfer of a plain request: `wpdk_aio_done` if it completes inline, `wpdk_aio_abort` if it
fails. -/
def issuePlain (hdr : IoHeader) (task : IoTask) (seg : Segment) : IoHeader × Entry :=
  match seg.issued with
  | .inline nbytes => (aioTaskDone hdr task nbytes, .plain task seg (.completed nbytes))
  | .later _ => (hdr, .plain task seg .pending)
  | .failed error => (aioFree hdr, .plain task seg (.aborted error))

/-- The header after a step of a vectored request: one call of `wpdk_aio_task_done` for every result
that was posted, and one of `wpdk_aio_free` for every other time the request was freed. -/
def settleVector (hdr : IoHeader) (task : IoTask) (req req' : VecRequest) : IoHeader :=
  let posted := req'.posted.drop req.posted.length
  aioFree^[req'.freed - req.freed - posted.length]
    (posted.foldl (fun h res => aioTaskDone h task res) hdr)

/-- One move of a vectored request, with its effect on the header. -/
def moveVector (hdr : IoHeader) (task : IoTask) (segs : List Segment) (req : VecRequest)
    (move : Move) : Option (IoHeader × Entry) :=
  (vectorStep segs req move).map fun req' =>
    (settleVector hdr task req req', .vector task segs req')

namespace Entry

/-- A step of the call for the entry that it is at. -/
def submit (hdr : IoHeader) (io : Option ControlBlock) (answers : Answers) :
    Entry → Option (IoHeader × Entry)
  | .waiting => some (startEntry hdr io answers)
  | .plain task seg .issuing => some (issuePlain hdr task seg)
  | .plain _ _ _ => none
  | .vector task segs req => moveVector hdr task segs req .submit
  | .refused _ => none

/-- A step of `wpdk_aio_done` for a transfer that was left pending. -/
def complete (hdr : IoHeader) (j : ℕ) : Entry → Option (IoHeader × Entry)
  | .plain task seg .pending =>
    match seg.issued with
    | .later res => some (aioTaskDone hdr task res, .plain task seg (.completed res))
    | _ => none
  | .plain _ _ _ => none
  | .vector task segs req => moveVector hdr task segs req (.complete j)
  | .waiting => none
  | .refused _ => none

/-- What a step of the call can be. -/
theorem submit_cases {e : Entry} {hdr : IoHeader} {io : Option ControlBlock} {answers : Answers}
    {done : IoHeader × Entry} (h : e.submit hdr io answers = some done) :
    (e = .waiting ∧ done = startEntry hdr io answers) ∨
      (∃ task seg, e = .plain task seg .issuing ∧ done = issuePlain hdr task seg) ∨
      ∃ task segs req, e = .vector task segs req ∧
        moveVector hdr task segs req .submit = some done := by
  cases e with
  | waiting => exact Or.inl ⟨rfl, (Option.some.inj h).symm⟩
  | refused rc => cases h
  | plain task seg pc =>
    cases pc with
    | issuing => exact Or.inr (Or.inl ⟨task, seg, rfl, (Option.some.inj h).symm⟩)
    | pending => cases h
    | completed res => cases h
    | aborted error => cases h
  | vector task segs req => exact Or.inr (Or.inr ⟨task, segs, req, rfl, h⟩)

/-- What a step of a completion can be. -/
theorem complete_cases {e : Entry} {hdr : IoHeader} {j : ℕ} {done : IoHeader × Entry}
    (h : e.complete hdr j = some done) :
    (∃ task seg res, e = .plain task seg .pending ∧ seg.issued = .later res ∧
        done = (aioTaskDone hdr task res, .plain task seg (.completed res))) ∨
      ∃ task segs req, e = .vector task segs req ∧
        moveVector hdr task segs req (.complete j) = some done := by
  cases e with
  | waiting => cases h
  | refused rc => cases h
  | plain task seg pc =>
    cases pc with
    | issuing => cases h
    | pending =>
      rw [complete] at h
      split at h
      · rename_i res hissued
        exact Or.inl ⟨task, seg, res, rfl, hissued, (Option.some.inj h).symm⟩
      · cases h
    | completed res => cases h
    | aborted error => cases h
  | vector task segs req => exact Or.inr ⟨task, segs, req, rfl, h⟩

end Entry

/-- The return code of a vectored request. -/
def SubmitPc.rc? : SubmitPc → Option ℤ
  | .returned rc => some rc
  | .aborted rc => some rc
  | _ => none

/-- What `wpdk_io_submit` is told about the request, once the functions it has called have
returned. -/
def Entry.rc? : Entry → Option ℤ
  | .waiting => none
  | .refused rc => some rc
  | .plain _ _ .issuing => none
  | .plain _ _ .pending => some 0
  | .plain _ _ (.completed _) => some 0
  | .plain _ _ (.aborted error) => some (-convertToPosix error)
  | .vector _ _ req => req.pc.rc?

/-! ## Calls -/

/-- A call: its control blocks, what has become of them, the one it is at, and its return value. -/
structure SubmitCall where
  ios : List (Option ControlBlock)
  entries : ℕ → Entry
  index : ℕ
  result : Option ℤ

namespace SubmitCall

/-- The beginning of `wpdk_io_submit`. -/
def begin : Option (List (Option ControlBlock)) → SubmitCall
  | none => ⟨[], fun _ => .waiting, 0, some (-Errno.einval.code)⟩
  | some ios => ⟨ios, fun _ => .waiting, 0, none⟩

/-- The end of the loop body. -/
def report (call : SubmitCall) (rc : ℤ) : SubmitCall :=
  if rc = Errno.eintr.code then { call with result := some (call.index + 1) }
  else if rc ≠ 0 then { call with result := some (if call.index = 0 then rc else call.index) }
  else { call with index := call.index + 1 }

/-- Entry `i` is replaced. -/
def setEntry (call : SubmitCall) (i : ℕ) (e : Entry) : SubmitCall :=
  { call with entries := Function.update call.entries i e }

end SubmitCall

/-- The header of a context and the calls that were made on it, in the order of their beginning. -/
structure SubmitState where
  hdr : IoHeader
  calls : ℕ → SubmitCall
  begun : ℕ

namespace SubmitState

/-- No call has begun. -/
def start (hdr : IoHeader) : SubmitState := ⟨hdr, fun _ => SubmitCall.begin none, 0⟩

/-- Entry `i` of call `c`. -/
def entry (s : SubmitState) (c i : ℕ) : Entry := (s.calls c).entries i

/-- Call `c` is replaced. -/
def setCall (s : SubmitState) (c : ℕ) (call : SubmitCall) : SubmitState :=
  { s with calls := Function.update s.calls c call }

/-- Entry `i` of call `c` has been worked on. -/
def work (s : SubmitState) (c i : ℕ) (done : IoHeader × Entry) : SubmitState :=
  { s.setCall c ((s.calls c).setEntry i done.2) with hdr := done.1 }

/-- A step of call `c`. -/
def submit (s : SubmitState) (c : ℕ) (answers : Answers) : Option SubmitState :=
  let call := s.calls c
  match call.result with
  | some _ => none
  | none =>
    match call.ios[call.index]? with
    | none => some (s.setCall c { call with result := some call.index })
    | some io =>
      match (call.entries call.index).rc? with
      | some rc => some (s.setCall c (call.report rc))
      | none =>
        ((call.entries call.index).submit s.hdr io answers).map fun done =>
          s.work c call.index done

/-- A step of a completion for entry `i` of call `c`. -/
def complete (s : SubmitState) (c i j : ℕ) : Option SubmitState :=
  if i < (s.calls c).ios.length then
    (((s.calls c).entries i).complete s.hdr j).map fun done => s.work c i done
  else none

end SubmitState

/-- A call begins; a call takes a step; or the transfer of segment `j` of entry `i` of call `c` does
(a plain request has one transfer). -/
inductive SubmitAction where
  | begin (ios : Option (List (Option ControlBlock)))
  | submit (c : ℕ) (answers : Answers)
  | complete (c i j : ℕ)

/-- The calls of `wpdk_io_submit` on a context, and the completions of what they have started. -/
def submission (s : SubmitState) : SubmitAction → Option SubmitState
  | .begin ios =>
    some { s.setCall s.begun (SubmitCall.begin ios) with begun := s.begun + 1 }
  | .submit c answers => if c < s.begun then s.submit c answers else none
  | .complete c i j => if c < s.begun then s.complete c i j else none

/-- The control block, by call and index, on whose behalf a step is taken. -/
def SubmitAction.target (s : SubmitState) : SubmitAction → Option (ℕ × ℕ)
  | .begin _ => none
  | .submit c _ => some (c, (s.calls c).index)
  | .complete c i _ => some (c, i)

end Aio
end Wpdk
