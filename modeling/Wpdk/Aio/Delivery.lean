import Wpdk.Base.Run
import Wpdk.Aio.Context

/-!
# Completed events: what is posted and what is delivered

Two runs of the event ring, at the granularity of whole calls.

The first is the ring by itself: completions and harvests in any order.  As long as at most
`size - 1` completed events wait to be harvested, the ring is a first-in first-out queue:
`getevents_refines_fifo`.

The second puts the admission of requests in front of it.  A request is admitted by
`aioAllocate` while fewer than `size` requests are in progress, completes or is aborted
later, and the completed events are harvested later still.  Admission counts the requests
in progress, and a request stops being in progress when it *completes*, not when its event
has been *harvested*.  What the ring has to hold is the requests that were admitted and have
not been harvested (`Submission.outstanding`), and nothing in the source bounds those: at
`size` of them the ring has overrun already.  `admission_protects_ring_iff` says what the
source refuses, and that the ring is safe exactly when the program itself submits only while
fewer than `size - 1` requests are outstanding.

A call of `wpdk_io_submit` is, for the context, the sequence of the admissions, the inline
completions and the aborts of its requests, so the runs below contain every interleaving of
such calls with later completions and with harvests.
-/

namespace Wpdk
namespace Aio

open Run

/-! ## The history of a context -/

/-- A header, with the history of what was completed on it and of what each call of
`wpdk_io_getevents` returned. -/
structure History where
  hdr : IoHeader
  completed : List IoEvent
  returned : List (List IoEvent)

namespace History

/-- A context on which nothing has happened yet. -/
def start (hdr : IoHeader) : History := ⟨hdr, [], []⟩

/-- The events returned so far, by all calls together. -/
def delivered (t : History) : List IoEvent := t.returned.flatten

/-- The events that were completed and that no harvest has returned. -/
def undelivered (t : History) : List IoEvent := t.completed.drop t.delivered.length

/-- The number of completed but undelivered events. -/
def waiting (t : History) : ℤ := t.completed.length - t.delivered.length

/-- A completion. -/
def complete (t : History) (task : IoTask) (res : ℤ) : History where
  hdr := aioTaskDone t.hdr task res
  completed := t.completed ++ [completionEvent task res]
  returned := t.returned

/-- A harvest. -/
def harvest (t : History) (nr : ℤ) : Option History :=
  match ioGetevents (some t.hdr) nr with
  | .error _ => none
  | .ok (events, hdr) => some ⟨hdr, t.completed, t.returned ++ [events]⟩

/-- The ring holds exactly the completed events that were not delivered yet, and delivery
has followed the order of completion. -/
def Queued (n : ℕ) (t : History) : Prop :=
  t.hdr.context.size = n ∧ ∃ q, t.hdr.ring.Holds q ∧ t.completed = t.delivered ++ q

theorem queued_start {hdr : IoHeader} (h : hdr.ring.Holds []) :
    Queued hdr.context.size (start hdr) :=
  ⟨rfl, [], h, rfl⟩

theorem undelivered_of_append {t : History} {q : List IoEvent}
    (h : t.completed = t.delivered ++ q) : t.undelivered = q := by
  rw [undelivered, h, List.drop_left]

theorem waiting_of_append {t : History} {q : List IoEvent}
    (h : t.completed = t.delivered ++ q) : t.waiting = q.length := by
  rw [waiting, h, List.length_append]
  omega

theorem waiting_complete (t : History) (task : IoTask) (res : ℤ) :
    (t.complete task res).waiting = t.waiting + 1 := by
  have hlen : ((t.complete task res).completed.length : ℤ) = t.completed.length + 1 := by
    show ((t.completed ++ [_]).length : ℤ) = _
    rw [List.length_append, List.length_singleton]
    omega
  have hdel : (t.complete task res).delivered = t.delivered := rfl
  rw [waiting, waiting, hlen, hdel]
  omega

/-- A completion keeps the queue as long as a slot is free besides the one it fills. -/
theorem Queued.complete {n : ℕ} {t : History} (h : Queued n t) (task : IoTask) (res : ℤ)
    (hroom : t.waiting + 1 < n) : Queued n (t.complete task res) := by
  obtain ⟨hsize, q, hq, happ⟩ := h
  refine ⟨hsize, q ++ [completionEvent task res], ?_, ?_⟩
  · rw [waiting_of_append happ] at hroom
    have hlt : q.length + 1 < t.hdr.ring.size := by
      rw [ring_size, hsize]
      omega
    show (aioTaskDone t.hdr task res).ring.Holds _
    rw [ring_aioTaskDone]
    exact hq.push hlt _
  · show t.completed ++ [completionEvent task res] = t.delivered ++ (q ++ [_])
    rw [happ, List.append_assoc]

theorem harvest_eq (t : History) (nr : ℤ) :
    t.harvest nr = some ⟨(geteventsLoop nr.toNat t.hdr).2, t.completed,
      t.returned ++ [(geteventsLoop nr.toNat t.hdr).1]⟩ := rfl

theorem geteventsLoop_keeps (n : ℕ) (hdr : IoHeader) :
    (geteventsLoop n hdr).2.iocount = hdr.iocount ∧
      (geteventsLoop n hdr).2.context.size = hdr.context.size := by
  induction n generalizing hdr with
  | zero => exact ⟨rfl, rfl⟩
  | succ n ih =>
    rw [geteventsLoop]
    split_ifs with h
    · exact ⟨rfl, rfl⟩
    · exact ih hdr.advanceHead

/-- A harvest leaves no more events waiting. -/
theorem waiting_harvest_le {t t' : History} {nr : ℤ} (h : t.harvest nr = some t') :
    t'.waiting ≤ t.waiting := by
  rw [harvest_eq] at h
  obtain rfl := Option.some.inj h
  simp only [waiting, delivered, List.flatten_append, List.length_append]
  omega

/-- A harvest returns a prefix of what waits. -/
theorem Queued.geteventsLoop_fst {n : ℕ} {t : History} (h : Queued n t) (k : ℕ) :
    (geteventsLoop k t.hdr).1 = t.undelivered.take k := by
  obtain ⟨-, q, hq, happ⟩ := h
  rw [(geteventsLoop_eq_drain k t.hdr).1, undelivered_of_append happ]
  exact (hq.drain k).1

theorem Queued.harvest {n : ℕ} {t t' : History} (h : Queued n t) {nr : ℤ}
    (ht : t.harvest nr = some t') : Queued n t' := by
  obtain ⟨hsize, q, hq, happ⟩ := h
  rw [harvest_eq] at ht
  obtain rfl := Option.some.inj ht
  obtain ⟨hevents, hring⟩ := geteventsLoop_eq_drain nr.toNat t.hdr
  obtain ⟨htake, hdrop⟩ := hq.drain nr.toNat
  refine ⟨(geteventsLoop_keeps _ _).2.trans hsize, q.drop nr.toNat, ?_, ?_⟩
  · show (geteventsLoop nr.toNat t.hdr).2.ring.Holds _
    rw [hring]
    exact hdrop
  · show t.completed = (t.returned ++ [(geteventsLoop nr.toNat t.hdr).1]).flatten ++ _
    rw [List.flatten_append, List.flatten_singleton, hevents, htake, List.append_assoc,
      List.take_append_drop]
    exact happ

end History

/-! ## The ring as a queue -/

/-- The calls on a context once its requests have been admitted. -/
inductive RingCall where
  | taskDone (task : IoTask) (res : ℤ)
  | getevents (nr : ℤ)

/-- One call. -/
def ringStep (t : History) : RingCall → Option History
  | .taskDone task res => some (t.complete task res)
  | .getevents nr => t.harvest nr

/-- What a harvest has to return: as many events as were asked for, or as many as wait. -/
def HarvestExact (t : History) (c : RingCall) : Prop :=
  ∀ nr, c = .getevents nr → ∃ events hdr, ioGetevents (some t.hdr) nr = .ok (events, hdr) ∧
    (events.length : ℤ) = min (max nr 0) t.waiting

theorem queued_ringStep {n : ℕ} (t : History) (c : RingCall) (t' : History)
    (h : t.Queued n) (hstep : ringStep t c = some t') (hcap : t'.waiting ≤ (n : ℤ) - 1) :
    t'.Queued n := by
  cases c with
  | taskDone task res =>
    obtain rfl := Option.some.inj hstep
    refine h.complete task res ?_
    rw [History.waiting_complete] at hcap
    omega
  | getevents nr => exact h.harvest hstep

theorem harvestExact_of_queued {n : ℕ} (t : History) (c : RingCall) (h : t.Queued n) :
    HarvestExact t c := by
  rintro nr rfl
  refine ⟨_, _, rfl, ?_⟩
  rw [h.geteventsLoop_fst, List.length_take]
  obtain ⟨-, q, -, happ⟩ := h
  rw [History.undelivered_of_append happ, History.waiting_of_append happ]
  omega

/-- **The event ring refines a first-in first-out queue.**  On a context for `n` events, along
any sequence of completions and harvests in which at most `n - 1` completed events wait at
any time, the events returned are a prefix of the events completed, in order, and every
harvest returns as many as it can. -/
theorem getevents_refines_fifo {n : ℤ} {ctxp : Option (Option IoHeader)} {mem : Bool}
    {hdr : IoHeader} (hsetup : ioSetup n ctxp mem = .ok hdr) (calls : List RingCall)
    (hcap : Throughout ringStep (fun t => t.waiting ≤ n - 1) (History.start hdr) calls) :
    EachStep ringStep HarvestExact (History.start hdr) calls ∧
      ∀ t, exec ringStep (History.start hdr) calls = some t →
        t.delivered <+: t.completed := by
  obtain ⟨-, hsize, -, hring⟩ := ioSetup_ok hsetup
  rw [← hsize] at hcap
  have hstart := History.queued_start hring
  refine ⟨eachStep_of_throughout queued_ringStep harvestExact_of_queued hstart hcap, ?_⟩
  intro t ht
  obtain ⟨-, q, -, happ⟩ := exec_invariant_of_throughout queued_ringStep hstart hcap ht
  exact ⟨q, happ.symm⟩

/-- Three events at a time on a context for four, harvested one, two and three at a time: `tail`
and `head` come round, and the last harvest asks for more than there are. -/
def wrappingCalls : List RingCall :=
  [.taskDone ⟨16, 1⟩ 512, .taskDone ⟨24, 2⟩ 0, .taskDone ⟨32, 3⟩ (-5), .getevents 1,
    .taskDone ⟨40, 4⟩ 64, .getevents 2, .taskDone ⟨48, 5⟩ 8, .taskDone ⟨56, 6⟩ 16, .getevents 9]

theorem getevents_refines_fifo_wrapping :
    ∃ hdr, ioSetup 4 (some none) true = .ok hdr ∧
      EachStep ringStep HarvestExact (History.start hdr) wrappingCalls ∧
      (∃ t, exec ringStep (History.start hdr) wrappingCalls = some t ∧
        t.returned.map List.length = [1, 2, 3] ∧ t.hdr.context.head = 2) ∧
      ∀ t, exec ringStep (History.start hdr) wrappingCalls = some t →
        t.delivered <+: t.completed := by
  have hsetup : ioSetup 4 (some none) true = .ok (IoHeader.init 4 (by decide)) := rfl
  have hfifo := getevents_refines_fifo hsetup wrappingCalls (by decide)
  exact ⟨_, hsetup, hfifo.1, ⟨_, rfl, by decide, by decide⟩, hfifo.2⟩

/-! ## Admission in front of the ring -/

/-- A context with the requests that were admitted and have neither completed nor been
aborted. -/
structure Submission where
  history : History
  inflight : List IoTask

/-- The events of a context in use: a request is submitted, one of the requests in progress
completes or is aborted, or completed events are harvested. -/
inductive SubmissionAction where
  | submit (iocb : Iocb) (mem : Bool)
  | complete (k : ℕ) (res : ℤ)
  | abort (k : ℕ)
  | getevents (nr : ℤ)

/-- The actions in which a request ends. -/
def SubmissionAction.Ends : SubmissionAction → Prop
  | .submit _ _ => False
  | .complete _ _ => True
  | .abort _ => True
  | .getevents _ => False

namespace Submission

/-- A context that was just set up. -/
def start (hdr : IoHeader) : Submission := ⟨History.start hdr, []⟩

/-- One action.  A request that is refused with `EAGAIN` leaves everything as it was. -/
def step (s : Submission) : SubmissionAction → Option Submission
  | .submit iocb mem =>
    match aioAllocate s.history.hdr iocb mem with
    | none => some s
    | some (task, hdr) => some ⟨{ s.history with hdr := hdr }, s.inflight ++ [task]⟩
  | .complete k res =>
    s.inflight[k]?.map fun task => ⟨s.history.complete task res, s.inflight.eraseIdx k⟩
  | .abort k =>
    s.inflight[k]?.map fun _ =>
      ⟨{ s.history with hdr := aioFree s.history.hdr }, s.inflight.eraseIdx k⟩
  | .getevents nr => (s.history.harvest nr).map fun t => ⟨t, s.inflight⟩

/-- No undelivered event has been overwritten, and none has become invisible. -/
def Protected (s : Submission) : Prop :=
  (∀ (i : ℕ) (hi : i < s.history.undelivered.length),
      s.history.hdr.events
        ((s.history.hdr.context.head + i) % s.history.hdr.context.size) =
          s.history.undelivered[i]) ∧
    (s.history.hdr.context.head = s.history.hdr.context.tail → s.history.undelivered = [])

instance : DecidablePred Protected := fun s => by
  unfold Protected
  infer_instance

/-- The requests that were admitted and not aborted, and whose event no harvest has returned. -/
def outstanding (s : Submission) : ℤ := s.inflight.length + s.history.waiting

/-- What `wpdk_io_submit` gives for a request that it cannot start. -/
def refusal (s : Submission) (iocb : Iocb) (mem : Bool) : Option Errno :=
  match aioAllocate s.history.hdr iocb mem with
  | none => some .eagain
  | some _ => none

/-- **However the requests in progress end**, no event that waits is overwritten or becomes
invisible, and there are never more of them than the ring holds. -/
def Safe (s : Submission) : Prop :=
  ∀ run, (∀ a ∈ run, SubmissionAction.Ends a) → ∀ s', exec step s run = some s' →
    s'.Protected ∧ s'.history.waiting < s'.history.hdr.context.size

/-- What the source refuses: a request for which there is no memory, or that would be one more than
`size` in progress. -/
def RefusesBySize (s : Submission) : Prop :=
  ∀ iocb mem, s.refusal iocb mem = some .eagain ↔
    mem = false ∨ s.inflight.length = s.history.hdr.context.size

/-- What would protect the ring: a request is refused when as many are outstanding as the ring holds
events. -/
def RefusesWhenFull (s : Submission) : SubmissionAction → Prop
  | .submit iocb mem =>
    s.history.hdr.context.size ≤ s.outstanding + 1 → s.refusal iocb mem = some .eagain
  | _ => True

/-- A request for which there is memory is submitted while fewer are outstanding than the ring holds
events. -/
def WithinCapacity (s : Submission) : SubmissionAction → Prop
  | .submit _ mem => mem = true → s.outstanding + 1 < s.history.hdr.context.size
  | _ => True

instance (s : Submission) (a : SubmissionAction) : Decidable (s.RefusesWhenFull a) := by
  unfold RefusesWhenFull
  split <;> infer_instance

instance (s : Submission) (a : SubmissionAction) : Decidable (s.WithinCapacity a) := by
  unfold WithinCapacity
  split <;> infer_instance

theorem protected_of_queued {n : ℕ} (s : Submission) (h : s.history.Queued n) :
    s.Protected := by
  obtain ⟨-, q, hq, happ⟩ := h
  have hund := History.undelivered_of_append happ
  refine ⟨?_, ?_⟩
  · intro i hi
    have hiq : i < q.length := by rwa [hund] at hi
    have hslot := hq.slot_eq i hiq
    simp only [hund]
    exact hslot
  · intro hempty
    rw [hund]
    exact hq.head_eq_tail_iff.mp hempty

/-- Room for one more event, as a statement about the number of events that wait. -/
theorem room_iff {n : ℕ} {t : History} (h : t.Queued n) :
    (t.hdr.context.tail + 1) % t.hdr.context.size ≠ t.hdr.context.head ↔ t.waiting + 1 < n := by
  obtain ⟨hsize, q, hq, happ⟩ := h
  have hlt := hq.length_lt
  rw [ring_size, hsize] at hlt
  have hfull := hq.nextTail_eq_head_iff
  rw [ring_tail, ring_size, ring_head, hsize] at hfull
  rw [History.waiting_of_append happ, hsize, Ne, hfull]
  omega

/-- An admission, or an abort, changes the counter only. -/
theorem queued_of_ring_eq {n : ℕ} {t : History} {hdr : IoHeader} (h : t.Queued n)
    (hring : hdr.ring = t.hdr.ring) : History.Queued n { t with hdr := hdr } := by
  obtain ⟨hsize, q, hq, happ⟩ := h
  refine ⟨?_, q, ?_, happ⟩
  · have hs := congrArg Ring.size hring
    exact hs.trans hsize
  · show hdr.ring.Holds q
    rw [hring]
    exact hq

/-! ### What a step can be -/

/-- **One step**: a request is refused, is admitted, completes or is aborted, or events are
harvested. -/
inductive Stepped (s : Submission) : SubmissionAction → Submission → Prop where
  | refused {iocb : Iocb} {mem : Bool}
    (hnone : mem = false ∨ s.history.hdr.context.size ≤ s.history.hdr.iocount) :
    Stepped s (.submit iocb mem) s
  | admitted {iocb : Iocb} (hroom : s.history.hdr.iocount < s.history.hdr.context.size) :
    Stepped s (.submit iocb true)
      ⟨{ s.history with hdr := { s.history.hdr with iocount := s.history.hdr.iocount + 1 } },
        s.inflight ++ [⟨iocb.addr, iocb.data⟩]⟩
  | completed {k : ℕ} {res : ℤ} (hk : k < s.inflight.length) :
    Stepped s (.complete k res)
      ⟨s.history.complete s.inflight[k] res, s.inflight.eraseIdx k⟩
  | aborted {k : ℕ} (hk : k < s.inflight.length) :
    Stepped s (.abort k)
      ⟨{ s.history with hdr := aioFree s.history.hdr }, s.inflight.eraseIdx k⟩
  | harvested {nr : ℤ} {t : History} (ht : s.history.harvest nr = some t) :
    Stepped s (.getevents nr) ⟨t, s.inflight⟩

theorem stepped_of_step {s s' : Submission} {a : SubmissionAction} (h : s.step a = some s') :
    s.Stepped a s' := by
  cases a with
  | submit iocb mem =>
    rw [step] at h
    cases halloc : aioAllocate s.history.hdr iocb mem with
    | none =>
      rw [halloc] at h
      obtain rfl := Option.some.inj h
      exact .refused (aioAllocate_eq_none_iff.mp halloc)
    | some p =>
      obtain ⟨task, hdr⟩ := p
      rw [halloc] at h
      obtain rfl := Option.some.inj h
      obtain ⟨rfl, hroom, rfl, rfl⟩ := aioAllocate_eq_some_iff.mp halloc
      exact .admitted hroom
  | complete k res =>
    rw [step, Option.map_eq_some_iff] at h
    obtain ⟨task, htask, rfl⟩ := h
    obtain ⟨hk, rfl⟩ := List.getElem?_eq_some_iff.mp htask
    exact .completed hk
  | abort k =>
    rw [step, Option.map_eq_some_iff] at h
    obtain ⟨task, htask, rfl⟩ := h
    exact .aborted (List.getElem?_eq_some_iff.mp htask).1
  | getevents nr =>
    rw [step, Option.map_eq_some_iff] at h
    obtain ⟨t, ht, rfl⟩ := h
    exact .harvested ht

theorem step_complete {s : Submission} {k : ℕ} (hk : k < s.inflight.length) (res : ℤ) :
    s.step (.complete k res) =
      some ⟨s.history.complete s.inflight[k] res, s.inflight.eraseIdx k⟩ := by
  rw [step, List.getElem?_eq_getElem hk]
  rfl

/-! ### What the source refuses -/

/-- The counter is the number of requests in progress, which is at most the size. -/
structure Counted (s : Submission) : Prop where
  count : s.history.hdr.iocount = s.inflight.length
  le : s.inflight.length ≤ s.history.hdr.context.size

/-- A request that ends is taken out and counted down. -/
theorem Counted.erase {s : Submission} {t : History} {k : ℕ} (h : s.Counted)
    (hk : k < s.inflight.length) (hcount : t.hdr.iocount = s.history.hdr.iocount - 1)
    (hsize : t.hdr.context.size = s.history.hdr.context.size) :
    Counted ⟨t, s.inflight.eraseIdx k⟩ := by
  have hbefore := h.count
  have hle := h.le
  have hlen := List.length_eraseIdx_add_one hk
  refine ⟨?_, ?_⟩
  · show t.hdr.iocount = ((s.inflight.eraseIdx k).length : ℤ)
    omega
  · show (s.inflight.eraseIdx k).length ≤ t.hdr.context.size
    omega

theorem counted_step (s : Submission) (a : SubmissionAction) (s' : Submission) (h : s.Counted)
    (hstep : s.step a = some s') : s'.Counted := by
  have hcount := h.count
  have hle := h.le
  cases stepped_of_step hstep with
  | refused hnone => exact h
  | admitted hroom =>
    refine ⟨?_, ?_⟩
    · show s.history.hdr.iocount + 1 = ((s.inflight ++ [_]).length : ℤ)
      rw [List.length_append, List.length_singleton]
      omega
    · show (s.inflight ++ [_]).length ≤ s.history.hdr.context.size
      rw [List.length_append, List.length_singleton]
      omega
  | completed hk => exact h.erase hk rfl rfl
  | aborted hk => exact h.erase hk rfl rfl
  | @harvested nr t ht =>
    rw [History.harvest_eq] at ht
    obtain rfl := Option.some.inj ht
    obtain ⟨hiocount, hsize⟩ := History.geteventsLoop_keeps nr.toNat s.history.hdr
    exact ⟨hiocount.trans hcount, hsize.symm ▸ hle⟩

theorem refusal_eq_eagain_iff {s : Submission} {iocb : Iocb} {mem : Bool} :
    s.refusal iocb mem = some .eagain ↔
      mem = false ∨ s.history.hdr.context.size ≤ s.history.hdr.iocount := by
  have hnone := @aioAllocate_eq_none_iff s.history.hdr iocb mem
  rw [← hnone, refusal]
  cases aioAllocate s.history.hdr iocb mem with
  | none => simp
  | some p => simp

theorem Counted.refusesBySize (s : Submission) (h : s.Counted) : s.RefusesBySize := by
  intro iocb mem
  have hcount := h.count
  have hle := h.le
  rw [refusal_eq_eagain_iff, hcount]
  exact or_congr Iff.rfl ⟨fun h => by omega, fun h => by omega⟩

/-! ### What the ring needs -/

/-- The ring holds the events that wait, and has room for those that are to come. -/
structure Held (n : ℕ) (s : Submission) : Prop where
  queued : s.history.Queued n
  counted : s.Counted
  room : s.outstanding + 1 ≤ n

theorem Held.size {n : ℕ} {s : Submission} (h : s.Held n) : s.history.hdr.context.size = n :=
  h.queued.1

theorem waiting_nonneg {n : ℕ} {t : History} (h : t.Queued n) : 0 ≤ t.waiting := by
  obtain ⟨-, q, -, happ⟩ := h
  rw [History.waiting_of_append happ]
  exact Int.natCast_nonneg _

theorem held_step {n : ℕ} (s : Submission) (a : SubmissionAction) (s' : Submission)
    (h : s.Held n) (ha : s.WithinCapacity a) (hstep : s.step a = some s') : s'.Held n := by
  have hcounted := counted_step s a s' h.counted hstep
  have hroom := h.room
  have hwaiting := waiting_nonneg h.queued
  unfold outstanding at hroom
  cases stepped_of_step hstep with
  | refused hnone => exact h
  | admitted hfree =>
    refine ⟨queued_of_ring_eq h.queued rfl, hcounted, ?_⟩
    have hwithin := ha rfl
    rw [h.size, outstanding] at hwithin
    show (((s.inflight ++ [_]).length : ℕ) : ℤ) + s.history.waiting + 1 ≤ n
    rw [List.length_append, List.length_singleton]
    omega
  | completed hk =>
    have hlen := List.length_eraseIdx_add_one hk
    refine ⟨h.queued.complete _ _ (by omega), hcounted, ?_⟩
    show (((s.inflight.eraseIdx _).length : ℕ) : ℤ) + (s.history.complete _ _).waiting + 1 ≤ n
    rw [History.waiting_complete]
    omega
  | aborted hk =>
    have hlen := List.length_eraseIdx_add_one hk
    refine ⟨queued_of_ring_eq h.queued (aioFree_ring _), hcounted, ?_⟩
    show (((s.inflight.eraseIdx _).length : ℕ) : ℤ) + s.history.waiting + 1 ≤ n
    omega
  | @harvested nr t ht =>
    refine ⟨h.queued.harvest ht, hcounted, ?_⟩
    have hle := History.waiting_harvest_le ht
    show (s.inflight.length : ℤ) + t.waiting + 1 ≤ n
    omega

theorem withinCapacity_of_ends (s : Submission) {a : SubmissionAction} (ha : a.Ends) :
    s.WithinCapacity a := by
  cases a with
  | submit iocb mem => exact ha.elim
  | complete k res => trivial
  | abort k => trivial
  | getevents nr => exact ha.elim

/-- The room is enough for every request in progress. -/
theorem Held.safe {n : ℕ} (s : Submission) (h : s.Held n) : s.Safe := by
  intro run hrun s' hexec
  have hheld : s'.Held n := exec_invariant_of_eachStep
    (fun s a s' hs (ha : a.Ends) hstep => held_step s a s' hs (withinCapacity_of_ends s ha) hstep)
    h (eachStep_of_forall hrun s) hexec
  have hroom := hheld.room
  have hin : 0 ≤ (s'.inflight.length : ℤ) := Int.natCast_nonneg _
  unfold outstanding at hroom
  refine ⟨protected_of_queued s' hheld.queued, ?_⟩
  rw [hheld.size]
  omega

/-- A completion without room makes every event that waits invisible. -/
theorem not_protected_of_full {n : ℕ} {s : Submission} {k : ℕ} (res : ℤ) (h : s.history.Queued n)
    (hfull : ¬ s.history.waiting + 1 < n) (hk : k < s.inflight.length) :
    ¬ Protected ⟨s.history.complete s.inflight[k] res, s.inflight.eraseIdx k⟩ := by
  rintro ⟨-, hvisible⟩
  -- the store brings `tail` onto `head`, with the new event still in the ring
  have heq : (s.history.hdr.context.tail + 1) % s.history.hdr.context.size =
      s.history.hdr.context.head := by
    by_contra hne
    exact hfull ((room_iff h).mp hne)
  have hnil : (s.history.complete s.inflight[k] res).undelivered = [] := hvisible heq.symm
  obtain ⟨-, q, -, happ⟩ := h
  have happ' : (s.history.complete s.inflight[k] res).completed =
      (s.history.complete s.inflight[k] res).delivered ++
        (q ++ [completionEvent s.inflight[k] res]) := by
    show s.history.completed ++ [_] = s.history.delivered ++ (q ++ [_])
    rw [happ, List.append_assoc]
  rw [History.undelivered_of_append happ'] at hnil
  exact absurd hnil (by simp)

/-- **With more requests outstanding than the ring holds events, the ring overruns** if they all
complete before the next harvest. -/
theorem not_safe_of_outstanding {n : ℕ} {s : Submission} (h : s.history.Queued n)
    (hover : n ≤ s.outstanding) : ¬ s.Safe := by
  intro hsafe
  unfold outstanding at hover
  -- the requests complete one after the other, until there is no room for the next one
  generalize hcount : s.inflight.length = count at hover
  induction count generalizing s with
  | zero =>
    have hwaiting := (hsafe [] (by simp) s rfl).2
    rw [h.1] at hwaiting
    omega
  | succ count ih =>
    have hk : 0 < s.inflight.length := by omega
    have hstep := step_complete hk 0
    have hends : ∀ a ∈ [SubmissionAction.complete 0 0], a.Ends := by
      simp [SubmissionAction.Ends]
    by_cases hroom : s.history.waiting + 1 < n
    · refine ih (s := ⟨s.history.complete s.inflight[0] 0, s.inflight.eraseIdx 0⟩)
        (h.complete s.inflight[0] 0 hroom) (fun run hrun s' hexec => ?_) ?_ ?_
      · refine hsafe (.complete 0 0 :: run) (fun a ha => ?_) s' ?_
        · rcases List.mem_cons.mp ha with rfl | ha
          · trivial
          · exact hrun a ha
        · exact exec_cons_eq_some.mpr ⟨_, hstep, hexec⟩
      · have hlen := List.length_eraseIdx_add_one hk
        show (s.inflight.eraseIdx 0).length = count
        omega
      · show (n : ℤ) ≤ count + (s.history.complete _ _).waiting
        rw [History.waiting_complete]
        omega
    · have hexec : exec step s [.complete 0 0] =
          some ⟨s.history.complete s.inflight[0] 0, s.inflight.eraseIdx 0⟩ :=
        exec_cons_eq_some.mpr ⟨_, hstep, rfl⟩
      exact not_protected_of_full 0 h hroom hk (hsafe _ hends _ hexec).1

/-- A request that is submitted with the ring spoken for is admitted. -/
theorem not_safe_of_not_withinCapacity {n : ℕ} (s : Submission) (a : SubmissionAction)
    (h : s.Held n) (ha : ¬ s.WithinCapacity a) : ∃ s', s.step a = some s' ∧ ¬ s'.Safe := by
  cases a with
  | complete k res => exact absurd trivial ha
  | abort k => exact absurd trivial ha
  | getevents nr => exact absurd trivial ha
  | submit iocb mem =>
    simp only [WithinCapacity, Classical.not_imp] at ha
    obtain ⟨rfl, hover⟩ := ha
    have hroom := h.room
    have hcount := h.counted.count
    have hwaiting := waiting_nonneg h.queued
    rw [h.size] at hover
    unfold outstanding at hover hroom
    have halloc : aioAllocate s.history.hdr iocb true = some (⟨iocb.addr, iocb.data⟩,
        { s.history.hdr with iocount := s.history.hdr.iocount + 1 }) := by
      refine aioAllocate_eq_some_iff.mpr ⟨rfl, ?_, rfl, rfl⟩
      rw [h.size]
      omega
    refine ⟨_, by rw [step, halloc], ?_⟩
    refine not_safe_of_outstanding (n := n) (queued_of_ring_eq h.queued rfl) ?_
    show (n : ℤ) ≤ ((s.inflight ++ [_]).length : ℕ) + s.history.waiting
    rw [List.length_append, List.length_singleton]
    omega

end Submission

/-- **When admission protects the ring.**  On a context for `maxevents` events, a submission is
refused with `EAGAIN` exactly if there is no memory or `maxevents` requests are in progress.  That
does not protect the ring: along a run, no event that waits is ever overwritten or made invisible,
however the requests in progress end, and a request is refused whenever as many are outstanding as
the ring holds events, if and only if every request of the run is submitted while fewer than
`maxevents - 1` are outstanding, i.e. admitted and not harvested. -/
theorem admission_protects_ring_iff {maxevents : ℤ} {ctxp : Option (Option IoHeader)}
    {mem : Bool} {hdr : IoHeader} (hsetup : ioSetup maxevents ctxp mem = .ok hdr)
    (actions : List SubmissionAction) :
    Throughout Submission.step Submission.RefusesBySize (Submission.start hdr) actions ∧
      (Throughout Submission.step Submission.Safe (Submission.start hdr) actions ∧
          EachStep Submission.step Submission.RefusesWhenFull (Submission.start hdr) actions ↔
        EachStep Submission.step Submission.WithinCapacity (Submission.start hdr) actions) := by
  obtain ⟨hpos, hsize, hcount, hring⟩ := ioSetup_ok hsetup
  have hcounted : (Submission.start hdr).Counted := ⟨hcount, Nat.zero_le _⟩
  have hheld : (Submission.start hdr).Held hdr.context.size := by
    refine ⟨History.queued_start hring, hcounted, ?_⟩
    show (0 : ℤ) + 0 + 1 ≤ hdr.context.size
    omega
  have hsafe : Throughout Submission.step Submission.Safe (Submission.start hdr) actions ↔
      EachStep Submission.step Submission.WithinCapacity (Submission.start hdr) actions :=
    throughout_iff_eachStep Submission.Held.safe Submission.held_step
      Submission.not_safe_of_not_withinCapacity hheld
  refine ⟨?_, fun h => hsafe.mp h.1, fun h => ⟨hsafe.mpr h, ?_⟩⟩
  · exact throughout_of_invariant (C := fun _ _ => True) Submission.Counted.refusesBySize
      (fun s a s' hs _ hstep => Submission.counted_step s a s' hs hstep) hcounted
      (eachStep_of_forall (fun _ _ => trivial) _)
  · refine eachStep_of_invariant (fun s a hs ha => ?_) Submission.held_step hheld h
    cases a with
    | submit iocb mem =>
      intro hfull
      refine Submission.refusal_eq_eagain_iff.mpr (Or.inl ?_)
      by_contra hmem
      exact absurd (ha (Bool.not_eq_false _ ▸ hmem)) (Int.not_lt.mpr hfull)
    | complete k res => trivial
    | abort k => trivial
    | getevents nr => trivial

/-- On a context for three events two requests are submitted at a time, and the next one after a
harvest; the indices come round. -/
theorem admission_protects_ring_three :
    ∃ hdr, ioSetup 3 (some none) true = .ok hdr ∧
      Throughout Submission.step Submission.Safe (Submission.start hdr)
        [.submit ⟨16, 7⟩ true, .submit ⟨24, 8⟩ true, .complete 1 512, .complete 0 64,
          .getevents 1, .submit ⟨32, 9⟩ true, .abort 0, .submit ⟨40, 10⟩ true, .complete 0 8,
          .getevents 5] := by
  have hsetup : ioSetup 3 (some none) true = .ok (IoHeader.init 3 (by decide)) := rfl
  exact ⟨_, hsetup, ((admission_protects_ring_iff hsetup _).2.mpr (by decide)).1⟩

/-- **The overrun.**  On a context for two events, two requests are submitted one after the
other, each completing at once: `iocount` is back at zero before the second submission, which
is admitted, and its completion brings `tail` round to `head` with two events undelivered. -/
theorem admission_overruns_ring :
    ∃ hdr, ioSetup 2 (some none) true = .ok hdr ∧
      ¬ Throughout Submission.step Submission.Protected (Submission.start hdr)
        [.submit ⟨16, 7⟩ true, .complete 0 512, .submit ⟨24, 8⟩ true, .complete 0 512] ∧
      ¬ EachStep Submission.step Submission.RefusesWhenFull (Submission.start hdr)
        [.submit ⟨16, 7⟩ true, .complete 0 512, .submit ⟨24, 8⟩ true] :=
  ⟨_, rfl, by decide, by decide⟩

end Aio
end Wpdk
