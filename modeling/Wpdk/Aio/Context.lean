import Wpdk.Base.Ring
import Wpdk.Error

/-!
# The asynchronous I/O context

`src/aio.c` and `inc/libaio.h`: the header that `wpdk_io_setup` allocates, the counter of
requests in progress, and the ring of completed events.

The header keeps two things that move independently.  `iocount` goes up when a request is
allocated and down when it completes or is aborted; `tail` goes up when it completes and
`head` when the completed event is harvested.  The functions below are the source's own,
one for one, on an explicit header.

* `ioSetup`, `aioIncrementIocount`, `aioDecrementIocount`, `aioAllocate`, `aioFree`,
  `aioTaskDone`, `ioGetevents`.
* `IoHeader.ring`: the header's `events`, `head`, `tail` and `size`, as a `Ring`.
  `ring_aioTaskDone` and `geteventsLoop_eq_drain` say that the source's two operations on it
  are the ring's `push` and `drain`, so what the ring library proves holds of the header.

Pointers are numbers: nothing is read through the `data` and `iocb` pointers, they are
only stored and handed back.  The header fields that no modelled function reads (`id`,
`version`, the feature words, `header_length` and `next`) are left out.
-/

namespace Wpdk
namespace Aio

/-- `struct io_event`. -/
structure IoEvent where
  data : ℕ
  obj : ℕ
  res : BitVec 64
  res2 : BitVec 64
  deriving DecidableEq, Repr

/-- The part of `struct iocb` that an allocation reads: its address and its `data`. -/
structure Iocb where
  addr : ℕ
  data : ℕ
  deriving DecidableEq, Repr

/-- `struct io_task`, as `wpdk_aio_allocate` fills it in for a request. -/
structure IoTask where
  iocb : ℕ
  data : ℕ
  deriving DecidableEq, Repr

/-- `struct io_context`.  The indices are below the size from the start, and stay there
because they only move modulo the size. -/
structure IoContext where
  size : ℕ
  head : ℕ
  tail : ℕ
  head_lt : head < size
  tail_lt : tail < size

/-- `struct io_header`, with the event array behind it. -/
structure IoHeader where
  context : IoContext
  events : ℕ → IoEvent
  iocount : ℤ

/-- The event array as `memset` leaves it. -/
def IoEvent.zero : IoEvent := ⟨0, 0, 0, 0⟩

/-- The header that `wpdk_io_setup` makes for a positive number of events. -/
def IoHeader.init (size : ℕ) (hsize : 0 < size) : IoHeader where
  context := ⟨size, 0, 0, hsize, hsize⟩
  events := fun _ => IoEvent.zero
  iocount := 0

/-- `wpdk_io_setup`.  The outer `Option` of `ctxp` is the pointer, the inner one what it
points to; `mem` says whether the allocation succeeds. -/
def ioSetup (maxevents : ℤ) (ctxp : Option (Option IoHeader)) (mem : Bool) :
    Except Errno IoHeader :=
  match ctxp with
  | none => .error .einval
  | some (some _) => .error .einval
  | some none =>
    if h : maxevents < 1 then .error .einval
    else if mem then .ok (IoHeader.init maxevents.toNat (by omega))
    else .error .enomem

/-- `wpdk_aio_increment_iocount`: admission, or `none` with `EAGAIN`.  The compare-exchange
loop of the source retries until its read of the counter is current, so its effect is that
of one atomic step. -/
def aioIncrementIocount (hdr : IoHeader) : Option IoHeader :=
  if hdr.iocount ≥ hdr.context.size then none
  else some { hdr with iocount := hdr.iocount + 1 }

/-- `wpdk_aio_decrement_iocount`. -/
def aioDecrementIocount (hdr : IoHeader) : IoHeader :=
  { hdr with iocount := hdr.iocount - 1 }

/-- `wpdk_aio_allocate`, for the request as a whole: `none` is the refusal with `EAGAIN`.
`mem` says whether the task can be allocated; when it cannot, the counter is not touched. -/
def aioAllocate (hdr : IoHeader) (iocb : Iocb) (mem : Bool) : Option (IoTask × IoHeader) :=
  if mem then (aioIncrementIocount hdr).map fun hdr' => (⟨iocb.addr, iocb.data⟩, hdr')
  else none

/-- `wpdk_aio_free`, on the header. -/
def aioFree (hdr : IoHeader) : IoHeader := aioDecrementIocount hdr

/-- The event that a completion with result `res` has to deliver. -/
def completionEvent (task : IoTask) (res : ℤ) : IoEvent where
  data := task.data
  obj := task.iocb
  res := BitVec.ofInt 64 res
  res2 := 0

/-- `wpdk_aio_task_done`: fill the event at `tail`, advance `tail`, and free the task. -/
def aioTaskDone (hdr : IoHeader) (task : IoTask) (res : ℤ) : IoHeader :=
  aioFree
    { hdr with
      events := Function.update hdr.events hdr.context.tail
        ⟨task.data, task.iocb, BitVec.ofInt 64 res, 0⟩
      context :=
        { hdr.context with
          tail := (hdr.context.tail + 1) % hdr.context.size
          tail_lt := Nat.mod_lt _ (Nat.lt_of_le_of_lt (Nat.zero_le _) hdr.context.head_lt) } }

/-- The header with `head` advanced by one. -/
def IoHeader.advanceHead (hdr : IoHeader) : IoHeader :=
  { hdr with
    context :=
      { hdr.context with
        head := (hdr.context.head + 1) % hdr.context.size
        head_lt := Nat.mod_lt _ (Nat.lt_of_le_of_lt (Nat.zero_le _) hdr.context.head_lt) } }

/-- The loop of `wpdk_io_getevents`, with the number of iterations left. -/
def geteventsLoop : ℕ → IoHeader → List IoEvent × IoHeader
  | 0, hdr => ([], hdr)
  | n + 1, hdr =>
    if hdr.context.head = hdr.context.tail then ([], hdr)
    else
      let rest := geteventsLoop n hdr.advanceHead
      (hdr.events hdr.context.head :: rest.1, rest.2)

/-- `wpdk_io_getevents`: the events stored through the caller's pointer, whose number is
the return value, and the header after the call.  A negative `nr` runs no iteration. -/
def ioGetevents (ctxId : Option IoHeader) (nr : ℤ) : Except Errno (List IoEvent × IoHeader) :=
  match ctxId with
  | none => .error .einval
  | some hdr => .ok (geteventsLoop nr.toNat hdr)

/-! ## The header as a ring -/

/-- The event ring of a header. -/
def IoHeader.ring (hdr : IoHeader) : Ring IoEvent where
  size := hdr.context.size
  head := hdr.context.head
  tail := hdr.context.tail
  slots := hdr.events
  head_lt := hdr.context.head_lt
  tail_lt := hdr.context.tail_lt

@[simp] theorem ring_size (hdr : IoHeader) : hdr.ring.size = hdr.context.size := rfl

@[simp] theorem ring_head (hdr : IoHeader) : hdr.ring.head = hdr.context.head := rfl

@[simp] theorem ring_tail (hdr : IoHeader) : hdr.ring.tail = hdr.context.tail := rfl

/-- A completion is a store into the ring. -/
theorem ring_aioTaskDone (hdr : IoHeader) (task : IoTask) (res : ℤ) :
    (aioTaskDone hdr task res).ring = hdr.ring.push (completionEvent task res) := rfl

theorem ring_advanceHead (hdr : IoHeader) : hdr.advanceHead.ring = hdr.ring.advance := rfl

/-- The harvest loop is the ring's. -/
theorem geteventsLoop_eq_drain (n : ℕ) (hdr : IoHeader) :
    (geteventsLoop n hdr).1 = (hdr.ring.drain n).1 ∧
      (geteventsLoop n hdr).2.ring = (hdr.ring.drain n).2 := by
  induction n generalizing hdr with
  | zero => exact ⟨rfl, rfl⟩
  | succ n ih =>
    by_cases h : hdr.context.head = hdr.context.tail
    · have hpop : hdr.ring.pop? = none := if_pos h
      rw [Ring.drain_succ_of_none hpop, geteventsLoop, if_pos h]
      exact ⟨rfl, rfl⟩
    · have hpop : hdr.ring.pop? = some (hdr.events hdr.context.head, hdr.ring.advance) :=
        if_neg h
      obtain ⟨hevents, hring⟩ := ih hdr.advanceHead
      rw [ring_advanceHead] at hevents hring
      rw [Ring.drain_succ_of_some hpop, geteventsLoop, if_neg h]
      exact ⟨congrArg _ hevents, hring⟩

/-! ## What the operations leave alone -/

@[simp] theorem aioFree_ring (hdr : IoHeader) : (aioFree hdr).ring = hdr.ring := rfl

/-- **What an admission is**: memory is found, fewer requests are in progress than the size, and
only the counter changes. -/
theorem aioAllocate_eq_some_iff {hdr hdr' : IoHeader} {iocb : Iocb} {mem : Bool} {task : IoTask} :
    aioAllocate hdr iocb mem = some (task, hdr') ↔
      mem = true ∧ hdr.iocount < hdr.context.size ∧ task = ⟨iocb.addr, iocb.data⟩ ∧
        hdr' = { hdr with iocount := hdr.iocount + 1 } := by
  unfold aioAllocate aioIncrementIocount
  cases mem with
  | false => simp
  | true =>
    by_cases hfull : hdr.iocount ≥ hdr.context.size
    · simp [hfull]
    · have hroom : hdr.iocount < hdr.context.size := Int.not_le.mp hfull
      simp [hroom, eq_comm]

/-- A refusal. -/
theorem aioAllocate_eq_none_iff {hdr : IoHeader} {iocb : Iocb} {mem : Bool} :
    aioAllocate hdr iocb mem = none ↔ mem = false ∨ hdr.context.size ≤ hdr.iocount := by
  unfold aioAllocate aioIncrementIocount
  cases mem with
  | false => simp
  | true => simp

/-- A successful set-up makes an empty ring of the requested size. -/
theorem ioSetup_ok {maxevents : ℤ} {ctxp : Option (Option IoHeader)} {mem : Bool}
    {hdr : IoHeader} (h : ioSetup maxevents ctxp mem = .ok hdr) :
    1 ≤ maxevents ∧ (hdr.context.size : ℤ) = maxevents ∧ hdr.iocount = 0 ∧
      hdr.ring.Holds [] := by
  unfold ioSetup at h
  split at h
  · cases h
  · cases h
  · split_ifs at h with hlt hmem
    cases h
    refine ⟨by omega, ?_, rfl, ⟨?_, ?_, ?_⟩⟩
    · show ((maxevents.toNat : ℕ) : ℤ) = maxevents
      omega
    · show 0 < maxevents.toNat
      omega
    · rfl
    · intro i hi
      exact absurd hi (Nat.not_lt_zero i)

end Aio
end Wpdk
