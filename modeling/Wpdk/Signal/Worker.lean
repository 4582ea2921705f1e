import Mathlib.Data.Int.Notation
import Mathlib.Data.List.Count
import Mathlib.Logic.Function.Basic
import Wpdk.Base.Run
import Wpdk.Signal.Disposition

/-!
# The signal worker

A signal from another process is an event: `wpdk_kill` opens the event of the process and the signal
by its name and sets it, and a worker of the process waits for the events of `wpdk_siglist`, resets
the one that is set and calls the handler.  Neither side waits for the other, and several processes
may send at once.

The worker resets the event before it calls the handler.  A signal that is sent while the handler
runs sets the event again, and one that is sent between the wait and the reset is taken for the one
that was there before; the handler has not been called yet, so it is not lost either.

An event is there as long as somebody has a handle of it.  If the wait fails the worker closes its
handles and ends, and a sender that has opened the event before can still set it: then `wpdk_kill`
returns 0 and nothing happens.

* `Event`, `WorkerState`: the events with the holders of their handles, the worker, the senders, and
  a log with the latest entry first.
* `workerStep`, `step`: the steps of the worker and of the senders.
* `Served`: every signal that was sent has been delivered later.
* `Inv`: what holds in every state; `inv_step`: one step, `inv_exec`: a run.
* `signals_served_at_rest`: no signal is lost, and none is delivered that was not sent.
* `worker_comes_to_rest`: the worker, left alone, gets there.
-/

namespace Wpdk
namespace Signal
namespace Worker

open Run

/-- Who has a handle of an event: the worker, or a sender. -/
inductive Holder where
  | worker
  | sender (t : ℕ)
deriving DecidableEq

/-- An event. -/
structure Event where
  signalled : Bool
  holders : List Holder

/-- The events that exist, by signal. -/
abbrev Events := ℤ → Option Event

/-- `CreateEvent(NULL, TRUE, FALSE, name)`; an event that exists is opened as it is. -/
def Events.create (ev : Events) (sig : ℤ) : Events :=
  Function.update ev sig
    (some ⟨(ev sig).elim false Event.signalled, .worker :: (ev sig).elim [] Event.holders⟩)

/-- `OpenEvent` of an event that exists. -/
def Events.open (ev : Events) (sig : ℤ) (t : ℕ) : Events :=
  Function.update ev sig ((ev sig).map fun e => { e with holders := .sender t :: e.holders })

/-- `SetEvent` and `ResetEvent`. -/
def Events.put (ev : Events) (sig : ℤ) (b : Bool) : Events :=
  Function.update ev sig ((ev sig).map fun e => { e with signalled := b })

/-- `CloseHandle`; the last handle takes the event with it. -/
def Events.close (ev : Events) (sig : ℤ) (holder : Holder) : Events :=
  Function.update ev sig
    ((ev sig).bind fun e =>
      if e.holders.erase holder = [] then none
      else some { e with holders := e.holders.erase holder })

/-- An event is set. -/
def Events.signalled (ev : Events) (sig : ℤ) : Bool := (ev sig).elim false Event.signalled

/-- Where the worker is. -/
inductive WorkerPc where
  | creating (rest : List ℤ)
  | waiting
  | woken (sig : ℤ)
  | handling (sig : ℤ)
  | closing (rest : List ℤ)
  | done
deriving DecidableEq

/-- Where a call of `wpdk_kill` for this process is. -/
inductive Sender where
  | idle
  | opened (sig : ℤ)
  | tried (sig : ℤ)
deriving DecidableEq

/-- What happened: `SetEvent` returned, or the handler was called. -/
inductive Entry where
  | sent (sig : ℤ)
  | delivered (sig : ℤ)
deriving DecidableEq

/-- The worker with the signals of its handles, the events, the senders and the log. -/
structure WorkerState where
  pc : WorkerPc
  h : List ℤ
  events : Events
  senders : ℕ → Sender
  log : List Entry

/-- The worker is created, and there is no event. -/
def WorkerState.start : WorkerState := ⟨.creating siglist, [], fun _ => none, fun _ => .idle, []⟩

/-- A step of `wpdk_signal_worker`; `ok` says whether the call of the system succeeds. -/
def workerStep (s : WorkerState) (ok : Bool) : Option WorkerState :=
  match s.pc with
  | .creating (sig :: rest) =>
    if ok then
      some { s with pc := .creating rest, h := s.h ++ [sig], events := s.events.create sig }
    else some { s with pc := .creating rest }
  | .creating [] => some { s with pc := if s.h = [] then .closing [] else .waiting }
  | .waiting =>
    if ok then
      -- the first of the events that are set; the worker does not go on if there is none
      (s.h.find? s.events.signalled).map fun sig => { s with pc := .woken sig }
    else some { s with pc := .closing s.h.reverse }
  | .woken sig => some { s with pc := .handling sig, events := s.events.put sig false }
  | .handling sig => some { s with pc := .waiting, log := .delivered sig :: s.log }
  | .closing (sig :: rest) =>
    some { s with pc := .closing rest, events := s.events.close sig .worker }
  | .closing [] => some { s with pc := .done }
  | .done => none

/-- The steps of the worker and of the senders. -/
inductive Action where
  | worker (ok : Bool)
  | openEvent (t : ℕ) (sig : ℤ)
  | setEvent (t : ℕ) (ok : Bool)
  | closeEvent (t : ℕ)

/-- A step. -/
def step (s : WorkerState) : Action → Option WorkerState
  | .worker ok => workerStep s ok
  | .openEvent t sig =>
    match s.senders t with
    | .idle =>
      if (s.events sig).isSome then
        some { s with
          events := s.events.open sig t
          senders := Function.update s.senders t (.opened sig) }
      else some s
    | _ => none
  | .setEvent t ok =>
    match s.senders t with
    | .opened sig =>
      if ok then
        some { s with
          events := s.events.put sig true
          senders := Function.update s.senders t (.tried sig)
          log := .sent sig :: s.log }
      else some { s with senders := Function.update s.senders t (.tried sig) }
    | _ => none
  | .closeEvent t =>
    match s.senders t with
    | .tried sig =>
      some { s with
        events := s.events.close sig (.sender t)
        senders := Function.update s.senders t .idle }
    | _ => none

/-! ## What is asked of it -/

/-- Every `SetEvent` for a signal is followed by a call of the handler. -/
def Served (sig : ℤ) (log : List Entry) : Prop :=
  ∀ newer older, log = newer ++ .sent sig :: older → .delivered sig ∈ newer

/-- The worker is in its loop, or on the way to it. -/
def WorkerPc.inLoop : WorkerPc → Bool
  | .creating _ => true
  | .waiting => true
  | .woken _ => true
  | .handling _ => true
  | .closing _ => false
  | .done => false

/-- The worker has nothing to do. -/
def WorkerState.AtRest (s : WorkerState) : Prop :=
  s.pc = .waiting ∧ ∀ sig ∈ s.h, s.events.signalled sig = false

/-! ## The events -/

section Events

variable (ev : Events) (sig : ℤ)

@[simp] theorem signalled_create (i : ℤ) : (ev.create sig).signalled i = ev.signalled i := by
  unfold Events.signalled Events.create
  by_cases h : i = sig
  · subst h
    rw [Function.update_self]
    rfl
  · rw [Function.update_of_ne h]

@[simp] theorem signalled_open (t : ℕ) (i : ℤ) : (ev.open sig t).signalled i = ev.signalled i := by
  unfold Events.signalled Events.open
  by_cases h : i = sig
  · subst h
    rw [Function.update_self]
    cases ev i <;> rfl
  · rw [Function.update_of_ne h]

theorem signalled_put_of_ne (b : Bool) {i : ℤ} (h : i ≠ sig) :
    (ev.put sig b).signalled i = ev.signalled i := by
  unfold Events.signalled Events.put
  rw [Function.update_of_ne h]

theorem signalled_put_false : (ev.put sig false).signalled sig = false := by
  unfold Events.signalled Events.put
  rw [Function.update_self]
  cases ev sig <;> rfl

theorem signalled_put_true {e : Event} (h : ev sig = some e) :
    (ev.put sig true).signalled sig = true := by
  unfold Events.signalled Events.put
  rw [Function.update_self, h]
  rfl

/-- Closing a handle does not set an event. -/
theorem signalled_of_close {holder : Holder} {i : ℤ}
    (h : (ev.close sig holder).signalled i = true) : ev.signalled i = true := by
  unfold Events.signalled Events.close at h
  unfold Events.signalled
  by_cases hi : i = sig
  · subst hi
    rw [Function.update_self] at h
    cases hev : ev i with
    | none =>
      rw [hev] at h
      exact h
    | some e =>
      rw [hev, Option.bind_some] at h
      by_cases hlast : e.holders.erase holder = []
      · rw [if_pos hlast] at h
        cases h
      · rw [if_neg hlast] at h
        exact h
  · rwa [Function.update_of_ne hi] at h

theorem toNat_signalled_close_le (holder : Holder) (i : ℤ) :
    ((ev.close sig holder).signalled i).toNat ≤ (ev.signalled i).toNat := by
  cases hset : (ev.close sig holder).signalled i with
  | false => exact Nat.zero_le _
  | true => exact Nat.le_of_eq (congrArg Bool.toNat (signalled_of_close ev sig hset)).symm

theorem isSome_of_signalled {ev : Events} {i : ℤ} (h : ev.signalled i = true) :
    (ev i).isSome = true := by
  unfold Events.signalled at h
  cases hev : ev i with
  | none =>
    rw [hev] at h
    cases h
  | some e => rfl

/-- The worker has a handle of an event. -/
def Events.Held : Prop := ∃ e, ev sig = some e ∧ .worker ∈ e.holders

variable {ev sig} {i : ℤ}

theorem Events.Held.create_self : (ev.create sig).Held sig := by
  refine ⟨_, Function.update_self _ _ _, ?_⟩
  exact List.mem_cons_self

theorem Events.Held.create (h : ev.Held i) (sig : ℤ) : (ev.create sig).Held i := by
  by_cases hi : i = sig
  · subst hi
    exact create_self
  · obtain ⟨e, he, hw⟩ := h
    exact ⟨e, (Function.update_of_ne hi _ _).trans he, hw⟩

theorem Events.Held.open (h : ev.Held i) (sig : ℤ) (t : ℕ) : (ev.open sig t).Held i := by
  obtain ⟨e, he, hw⟩ := h
  by_cases hi : i = sig
  · subst hi
    refine ⟨{ e with holders := .sender t :: e.holders }, ?_, List.mem_cons_of_mem _ hw⟩
    rw [Events.open, Function.update_self, he]
    rfl
  · exact ⟨e, (Function.update_of_ne hi _ _).trans he, hw⟩

theorem Events.Held.put (h : ev.Held i) (sig : ℤ) (b : Bool) : (ev.put sig b).Held i := by
  obtain ⟨e, he, hw⟩ := h
  by_cases hi : i = sig
  · subst hi
    refine ⟨{ e with signalled := b }, ?_, hw⟩
    rw [Events.put, Function.update_self, he]
    rfl
  · exact ⟨e, (Function.update_of_ne hi _ _).trans he, hw⟩

/-- A sender closes its own handle; the event stays as it is. -/
theorem Events.Held.close (h : ev.Held i) (sig : ℤ) (t : ℕ) :
    (ev.close sig (.sender t)).Held i ∧
      (ev.close sig (.sender t)).signalled i = ev.signalled i := by
  obtain ⟨e, he, hw⟩ := h
  have hne : Holder.worker ≠ .sender t := fun h => nomatch h
  have hw' : .worker ∈ e.holders.erase (.sender t) := (List.mem_erase_of_ne hne).mpr hw
  by_cases hi : i = sig
  · subst hi
    have hclose : ev.close i (.sender t) i =
        some { e with holders := e.holders.erase (.sender t) } := by
      rw [Events.close, Function.update_self, he, Option.bind_some]
      exact if_neg (List.ne_nil_of_mem hw')
    refine ⟨⟨_, hclose, hw'⟩, ?_⟩
    rw [Events.signalled, Events.signalled, hclose, he]
    rfl
  · have hclose : ev.close sig (.sender t) i = ev i := Function.update_of_ne hi _ _
    exact ⟨⟨e, hclose.trans he, hw⟩, by rw [Events.signalled, Events.signalled, hclose]⟩

theorem isSome_create (h : ((ev.create sig) i).isSome = true) :
    i = sig ∨ (ev i).isSome = true := by
  by_cases hi : i = sig
  · exact Or.inl hi
  · rw [Events.create, Function.update_of_ne hi] at h
    exact Or.inr h

theorem isSome_open {t : ℕ} (h : ((ev.open sig t) i).isSome = true) : (ev i).isSome = true := by
  by_cases hi : i = sig
  · subst hi
    rwa [Events.open, Function.update_self, Option.isSome_map] at h
  · rwa [Events.open, Function.update_of_ne hi] at h

theorem isSome_put {b : Bool} (h : ((ev.put sig b) i).isSome = true) : (ev i).isSome = true := by
  by_cases hi : i = sig
  · subst hi
    rwa [Events.put, Function.update_self, Option.isSome_map] at h
  · rwa [Events.put, Function.update_of_ne hi] at h

theorem isSome_close {holder : Holder} (h : ((ev.close sig holder) i).isSome = true) :
    (ev i).isSome = true := by
  by_cases hi : i = sig
  · subst hi
    rw [Events.close, Function.update_self] at h
    exact Option.isSome_of_isSome_bind h
  · rwa [Events.close, Function.update_of_ne hi] at h

end Events

/-! ## The log -/

section Log

variable {sig : ℤ} {log : List Entry}

theorem served_nil : Served sig [] := by
  intro newer older h
  exact absurd h.symm (List.append_ne_nil_of_right_ne_nil _ (List.cons_ne_nil _ _))

/-- A call of the handler serves everything before it. -/
theorem served_delivered : Served sig (.delivered sig :: log) := by
  intro newer older h
  cases newer with
  | nil => cases h
  | cons e newer =>
    cases h
    exact List.mem_cons_self

/-- What happens for another signal changes nothing. -/
theorem Served.cons {e : Entry} (he : e ≠ .sent sig) (h : Served sig log) :
    Served sig (e :: log) := by
  intro newer older heq
  cases newer with
  | nil =>
    cases heq
    exact absurd rfl he
  | cons e' newer =>
    cases heq
    exact List.mem_cons_of_mem _ (h newer older rfl)

end Log

/-! ## The invariant -/

/-- What is on its way to the handler: an event that is set, or the call that the worker is about to
make. -/
def WorkerState.due (s : WorkerState) (sig : ℤ) : ℕ :=
  (s.events.signalled sig).toNat + if s.pc = .handling sig then 1 else 0

/-- What holds in every state. -/
structure Inv (s : WorkerState) : Prop where
  /-- There are no events but those of the worker. -/
  known : ∀ sig, (s.events sig).isSome = true → sig ∈ s.h
  opened : ∀ t sig, s.senders t = .opened sig → sig ∈ s.h
  held : s.pc.inLoop = true → ∀ sig ∈ s.h, s.events.Held sig
  woken : ∀ sig, s.pc = .woken sig → s.events.signalled sig = true
  served : s.pc.inLoop = true → ∀ sig, s.due sig = 0 → Served sig s.log
  counted : ∀ sig, s.log.count (.delivered sig) + s.due sig ≤ s.log.count (.sent sig)

theorem due_eq_zero_iff {s : WorkerState} {sig : ℤ} :
    s.due sig = 0 ↔ s.events.signalled sig = false ∧ s.pc ≠ .handling sig := by
  unfold WorkerState.due
  rw [Nat.add_eq_zero_iff, Bool.toNat_eq_zero, ite_eq_right_iff]
  simp

theorem due_of_ne {s : WorkerState} {sig : ℤ} (h : s.pc ≠ .handling sig) :
    s.due sig = (s.events.signalled sig).toNat := by
  rw [WorkerState.due, if_neg h, Nat.add_zero]

theorem due_of_handling {s : WorkerState} {sig : ℤ} (h : s.pc = .handling sig) :
    s.due sig = (s.events.signalled sig).toNat + 1 := by
  rw [WorkerState.due, if_pos h]

/-- The same with another place of the worker, where it is not about to call the handler. -/
theorem due_of_pc {s s' : WorkerState} {sig : ℤ}
    (hev : s'.events.signalled sig = s.events.signalled sig)
    (hpc : s.pc ≠ .handling sig) (hpc' : s'.pc ≠ .handling sig) : s'.due sig = s.due sig := by
  rw [due_of_ne hpc, due_of_ne hpc', hev]

theorem inv_start : Inv WorkerState.start where
  known sig h := by cases h
  opened t sig h := by cases h
  held _ sig h := by cases h
  woken sig h := by cases h
  served _ sig _ := served_nil
  counted sig := Nat.le_refl 0

section Steps

variable {s s' : WorkerState}

/-- A step that nothing is sent or delivered in keeps what is on its way, as long as the worker is
in its loop. -/
theorem Inv.keep (h : Inv s) (hlog : s'.log = s.log) (hdue : ∀ sig, s'.due sig ≤ s.due sig)
    (hsame : s'.pc.inLoop = true → s.pc.inLoop = true ∧ ∀ sig, s'.due sig = s.due sig)
    (known : ∀ sig, (s'.events sig).isSome = true → sig ∈ s'.h)
    (opened : ∀ t sig, s'.senders t = .opened sig → sig ∈ s'.h)
    (held : s'.pc.inLoop = true → ∀ sig ∈ s'.h, s'.events.Held sig)
    (woken : ∀ sig, s'.pc = .woken sig → s'.events.signalled sig = true) : Inv s' where
  known := known
  opened := opened
  held := held
  woken := woken
  served hloop sig hzero := by
    obtain ⟨hloop', heq⟩ := hsame hloop
    rw [heq] at hzero
    rw [hlog]
    exact h.served hloop' sig hzero
  counted sig := by
    rw [hlog]
    exact Nat.le_trans (Nat.add_le_add_left (hdue sig) _) (h.counted sig)

theorem inv_create (h : Inv s) {sig : ℤ} {rest : List ℤ} (hpc : s.pc = .creating (sig :: rest)) :
    Inv { s with pc := .creating rest, h := s.h ++ [sig], events := s.events.create sig } := by
  have hdue : ∀ i, WorkerState.due
      { s with pc := .creating rest, h := s.h ++ [sig], events := s.events.create sig } i =
        s.due i :=
    fun i => due_of_pc (signalled_create _ _ i) (fun h => nomatch hpc.symm.trans h)
      (fun h => nomatch h)
  refine h.keep rfl (fun i => Nat.le_of_eq (hdue i)) (fun _ => ⟨by rw [hpc]; rfl, hdue⟩) ?_ ?_ ?_
    (fun i hi => nomatch hi)
  · intro i hi
    rcases isSome_create hi with rfl | hi
    · exact List.mem_append_right _ List.mem_cons_self
    · exact List.mem_append_left _ (h.known i hi)
  · exact fun t i hi => List.mem_append_left _ (h.opened t i hi)
  · intro _ i hi
    rcases List.mem_append.mp hi with hi | hi
    · exact (h.held (by rw [hpc]; rfl) i hi).create sig
    · rw [List.mem_singleton.mp hi]
      exact Events.Held.create_self

/-- The worker moves on, and nothing else happens. -/
theorem inv_pc (h : Inv s) {pc : WorkerPc} (hloop : pc.inLoop = true → s.pc.inLoop = true)
    (hpc : ∀ sig, s.pc ≠ .handling sig) (hpc' : ∀ sig, pc ≠ .handling sig)
    (woken : ∀ sig, pc = .woken sig → s.events.signalled sig = true) : Inv { s with pc := pc } := by
  have hdue : ∀ sig, WorkerState.due { s with pc := pc } sig = s.due sig :=
    fun sig => due_of_pc rfl (hpc sig) (hpc' sig)
  exact h.keep rfl (fun sig => Nat.le_of_eq (hdue sig))
    (fun hl => ⟨hloop hl, hdue⟩) h.known h.opened
    (fun hl => h.held (hloop hl)) woken

theorem inv_reset (h : Inv s) {sig : ℤ} (hpc : s.pc = .woken sig) :
    Inv { s with pc := .handling sig, events := s.events.put sig false } := by
  have hloop : s.pc.inLoop = true := by
    rw [hpc]
    rfl
  -- what the event said is now what the worker is about to do
  have hdue : ∀ i, WorkerState.due
      { s with pc := .handling sig, events := s.events.put sig false } i =
      s.due i := by
    intro i
    by_cases hi : i = sig
    · subst hi
      rw [due_of_handling rfl, due_of_ne (fun h => nomatch hpc.symm.trans h), h.woken i hpc]
      exact congrArg (·.toNat + 1) (signalled_put_false _ _)
    · have hne : WorkerPc.handling sig ≠ .handling i := fun h => hi (WorkerPc.handling.inj h).symm
      exact due_of_pc (signalled_put_of_ne _ _ _ hi) (fun h => nomatch hpc.symm.trans h) hne
  exact h.keep rfl (fun i => Nat.le_of_eq (hdue i)) (fun _ => ⟨hloop, hdue⟩)
    (fun i hi => h.known i (isSome_put hi)) h.opened
    (fun _ i hi => (h.held hloop i hi).put sig false)
    (fun i hi => nomatch hi)

theorem inv_deliver (h : Inv s) {sig : ℤ} (hpc : s.pc = .handling sig) :
    Inv { s with pc := .waiting, log := .delivered sig :: s.log } where
  known := h.known
  opened := h.opened
  held _ := h.held (by rw [hpc]; rfl)
  woken i hi := nomatch hi
  served _ i hzero := by
    by_cases hi : i = sig
    · subst hi
      exact served_delivered
    · refine (h.served (by rw [hpc]; rfl) i ?_).cons (fun h => nomatch h)
      have hsig := (due_eq_zero_iff.mp hzero).1
      exact due_eq_zero_iff.mpr ⟨hsig, fun h => hi (WorkerPc.handling.inj (hpc.symm.trans h)).symm⟩
  counted i := by
    have hold := h.counted i
    have hdue : WorkerState.due { s with pc := .waiting, log := .delivered sig :: s.log } i =
        (s.events.signalled i).toNat := due_of_ne fun h => nomatch h
    have hentry : Entry.delivered sig ≠ .sent i := fun h => nomatch h
    have hsent : (Entry.delivered sig :: s.log).count (.sent i) = s.log.count (.sent i) :=
      List.count_cons_of_ne hentry
    change (Entry.delivered sig :: s.log).count (.delivered i) + _ ≤
      (Entry.delivered sig :: s.log).count (.sent i)
    rw [hdue, hsent]
    by_cases hi : i = sig
    · subst hi
      rw [due_of_handling hpc] at hold
      rw [List.count_cons_self]
      omega
    · have hne : s.pc ≠ .handling i := fun h => hi (WorkerPc.handling.inj (hpc.symm.trans h)).symm
      rw [due_of_ne hne] at hold
      rw [List.count_cons_of_ne fun h => hi (Entry.delivered.inj h).symm]
      exact hold

theorem inv_closeWorker (h : Inv s) {sig : ℤ} {rest : List ℤ}
    (hpc : s.pc = .closing (sig :: rest)) :
    Inv { s with pc := .closing rest, events := s.events.close sig .worker } := by
  refine h.keep rfl (fun i => ?_) (fun hl => nomatch hl) (fun i hi => h.known i (isSome_close hi))
    h.opened (fun hl => nomatch hl) (fun i hi => nomatch hi)
  have hold : s.due i = (s.events.signalled i).toNat :=
    due_of_ne fun h => nomatch hpc.symm.trans h
  have hnew : WorkerState.due
      { s with pc := .closing rest, events := s.events.close sig .worker } i =
        ((s.events.close sig .worker).signalled i).toNat := due_of_ne fun h => nomatch h
  rw [hold, hnew]
  exact toNat_signalled_close_le _ _ _ _

/-- **A step of the worker.** -/
theorem inv_workerStep (h : Inv s) {ok : Bool} (hstep : workerStep s ok = some s') : Inv s' := by
  unfold workerStep at hstep
  cases hpc : s.pc with
  | creating rest =>
    rw [hpc] at hstep
    cases rest with
    | nil =>
      cases hstep
      refine inv_pc h (fun _ => by rw [hpc]; rfl) (fun sig hs => nomatch hpc.symm.trans hs) ?_ ?_
      · intro sig
        split <;> exact fun h => nomatch h
      · intro sig
        split <;> exact fun h => nomatch h
    | cons sig rest =>
      dsimp only at hstep
      split at hstep
      · cases hstep
        exact inv_create h hpc
      · cases hstep
        exact inv_pc h (fun _ => by rw [hpc]; rfl) (fun sig hs => nomatch hpc.symm.trans hs)
          (fun sig hs => nomatch hs) (fun sig hs => nomatch hs)
  | waiting =>
    rw [hpc] at hstep
    dsimp only at hstep
    split at hstep
    · obtain ⟨sig, hsig, rfl⟩ := Option.map_eq_some_iff.mp hstep
      refine inv_pc h (fun _ => by rw [hpc]; rfl) (fun i hs => nomatch hpc.symm.trans hs)
        (fun i hs => nomatch hs) fun i hs => ?_
      cases hs
      exact List.find?_some hsig
    · cases hstep
      exact inv_pc h (fun hl => nomatch hl) (fun i hs => nomatch hpc.symm.trans hs)
        (fun i hs => nomatch hs) (fun i hs => nomatch hs)
  | woken sig =>
    rw [hpc] at hstep
    cases hstep
    exact inv_reset h hpc
  | handling sig =>
    rw [hpc] at hstep
    cases hstep
    exact inv_deliver h hpc
  | closing rest =>
    rw [hpc] at hstep
    cases rest with
    | nil =>
      cases hstep
      exact inv_pc h (fun hl => nomatch hl) (fun i hs => nomatch hpc.symm.trans hs)
        (fun i hs => nomatch hs) (fun i hs => nomatch hs)
    | cons sig rest =>
      cases hstep
      exact inv_closeWorker h hpc
  | done =>
    rw [hpc] at hstep
    cases hstep

theorem inv_openEvent (h : Inv s) {t : ℕ} {sig : ℤ} (hev : (s.events sig).isSome = true) :
    Inv { s with
      events := s.events.open sig t
      senders := Function.update s.senders t (.opened sig) } := by
  have hdue : ∀ i, WorkerState.due { s with
      events := s.events.open sig t
      senders := Function.update s.senders t (.opened sig) } i = s.due i := by
    intro i
    unfold WorkerState.due
    dsimp only
    rw [signalled_open]
  refine h.keep rfl (fun i => Nat.le_of_eq (hdue i)) (fun hl => ⟨hl, hdue⟩)
    (fun i hi => h.known i (isSome_open hi)) ?_ (fun hl i hi => (h.held hl i hi).open sig t) ?_
  · intro t' i hi
    dsimp only at hi
    by_cases ht : t' = t
    · subst ht
      rw [Function.update_self] at hi
      cases hi
      exact h.known _ hev
    · rw [Function.update_of_ne ht] at hi
      exact h.opened t' i hi
  · intro i hi
    exact (signalled_open _ _ _ _).trans (h.woken i hi)

/-- A sender that is no longer before `SetEvent`. -/
theorem opened_update {t : ℕ} {sender : Sender} (hsender : ∀ sig, sender ≠ .opened sig)
    (h : Inv s) : ∀ t' sig, Function.update s.senders t sender t' = .opened sig → sig ∈ s.h := by
  intro t' sig hopened
  by_cases ht : t' = t
  · subst ht
    rw [Function.update_self] at hopened
    exact absurd hopened (hsender sig)
  · rw [Function.update_of_ne ht] at hopened
    exact h.opened t' sig hopened

theorem inv_setEvent (h : Inv s) {t : ℕ} {sig : ℤ} (ht : s.senders t = .opened sig) :
    Inv { s with
      events := s.events.put sig true
      senders := Function.update s.senders t (.tried sig)
      log := .sent sig :: s.log } where
  known i hi := h.known i (isSome_put hi)
  opened := opened_update (fun i hi => nomatch hi) h
  held hl i hi := (h.held hl i hi).put sig true
  woken i hi := by
    by_cases hsig : i = sig
    · subst hsig
      have hl : s.pc.inLoop = true := by
        rw [show s.pc = .woken i from hi]
        rfl
      obtain ⟨e, he, -⟩ := h.held hl i (h.opened t i ht)
      exact signalled_put_true _ _ he
    · exact (signalled_put_of_ne _ _ _ hsig).trans (h.woken i hi)
  served hl i hzero := by
    obtain ⟨hsignalled, hpc⟩ := due_eq_zero_iff.mp hzero
    by_cases hsig : i = sig
    · -- the event is there, so that it is set now
      subst hsig
      obtain ⟨e, he, -⟩ := h.held hl i (h.opened t i ht)
      exact absurd ((signalled_put_true _ _ he).symm.trans hsignalled) (by decide)
    · refine (h.served hl i (due_eq_zero_iff.mpr ⟨?_, hpc⟩)).cons fun heq =>
        hsig (Entry.sent.inj heq).symm
      exact (signalled_put_of_ne _ _ _ hsig).symm.trans hsignalled
  counted i := by
    have hold := h.counted i
    have hentry : Entry.sent sig ≠ .delivered i := fun h => nomatch h
    have hdelivered : (Entry.sent sig :: s.log).count (.delivered i) = s.log.count (.delivered i) :=
      List.count_cons_of_ne hentry
    unfold WorkerState.due at hold ⊢
    dsimp only
    rw [hdelivered]
    by_cases hsig : i = sig
    · subst hsig
      have hone := Bool.toNat_le ((s.events.put i true).signalled i)
      rw [List.count_cons_self]
      omega
    · rw [signalled_put_of_ne _ _ _ hsig,
        List.count_cons_of_ne fun heq => hsig (Entry.sent.inj heq).symm]
      exact hold

theorem inv_closeEvent (h : Inv s) (t : ℕ) (sig : ℤ) :
    Inv { s with
      events := s.events.close sig (.sender t)
      senders := Function.update s.senders t .idle } := by
  have hle : ∀ i, WorkerState.due { s with
      events := s.events.close sig (.sender t)
      senders := Function.update s.senders t .idle } i ≤ s.due i :=
    fun i => Nat.add_le_add_right (toNat_signalled_close_le _ _ _ _) _
  refine h.keep rfl hle (fun hl => ⟨hl, fun i => ?_⟩) (fun i hi => h.known i (isSome_close hi))
    (opened_update (fun i hi => nomatch hi) h) (fun hl i hi => ((h.held hl i hi).close sig t).1) ?_
  · by_cases hi : i ∈ s.h
    · unfold WorkerState.due
      dsimp only
      rw [((h.held hl i hi).close sig t).2]
    · -- there is no such event
      have hnone : s.events.signalled i = false := by
        cases hev : s.events i with
        | none => rw [Events.signalled, hev]; rfl
        | some e => exact absurd (h.known i (by rw [hev]; rfl)) hi
      refine Nat.le_antisymm (hle i) ?_
      unfold WorkerState.due
      rw [hnone]
      exact Nat.add_le_add_right (Nat.zero_le _) _
  · intro i hi
    have hl : s.pc.inLoop = true := by
      rw [show s.pc = .woken i from hi]
      rfl
    have hmem : i ∈ s.h := h.known i (isSome_of_signalled (h.woken i hi))
    exact ((h.held hl i hmem).close sig t).2.trans (h.woken i hi)

/-- **A step.** -/
theorem inv_step {a : Action} (h : Inv s) (hstep : step s a = some s') : Inv s' := by
  cases a with
  | worker ok => exact inv_workerStep h hstep
  | openEvent t sig =>
    unfold step at hstep
    dsimp only at hstep
    split at hstep
    · split at hstep
      · cases hstep
        exact inv_openEvent h ‹_›
      · cases hstep
        exact h
    · cases hstep
  | setEvent t ok =>
    unfold step at hstep
    dsimp only at hstep
    split at hstep
    · split at hstep
      · cases hstep
        exact inv_setEvent h ‹_›
      · cases hstep
        exact h.keep rfl (fun _ => Nat.le_refl _) (fun hl => ⟨hl, fun _ => rfl⟩) h.known
          (opened_update (fun i hi => nomatch hi) h) h.held h.woken
    · cases hstep
  | closeEvent t =>
    unfold step at hstep
    dsimp only at hstep
    split at hstep
    · cases hstep
      exact inv_closeEvent h _ _
    · cases hstep

end Steps

/-- **A run.** -/
theorem inv_exec {s s' : WorkerState} {as : List Action} (hs : Inv s)
    (h : exec step s as = some s') : Inv s' :=
  exec_invariant (fun _ _ _ hs hstep => inv_step hs hstep) hs h

/-- When the worker has nothing to do nothing is on its way. -/
theorem Inv.served_of_atRest {s : WorkerState} (h : Inv s) (hrest : s.AtRest) (sig : ℤ) :
    Served sig s.log := by
  obtain ⟨hpc, hquiet⟩ := hrest
  have hsignalled : s.events.signalled sig = false := by
    by_contra hset
    rw [Bool.not_eq_false] at hset
    have hmem : sig ∈ s.h := h.known sig (isSome_of_signalled hset)
    exact Bool.false_ne_true ((hquiet sig hmem).symm.trans hset)
  refine h.served (by rw [hpc]; rfl) sig (due_eq_zero_iff.mpr ⟨hsignalled, ?_⟩)
  rw [hpc]
  exact fun h => nomatch h

/-- **No signal is lost and none is made up**: in every order of the steps of the worker and of any
number of senders, when the worker has nothing to do, every signal that was sent has been delivered
after it was sent; and at no time has one been delivered more often than it was sent. -/
theorem signals_served_at_rest {s : WorkerState} {as : List Action}
    (h : exec step WorkerState.start as = some s) (sig : ℤ) :
    (s.AtRest → Served sig s.log) ∧
      s.log.count (.delivered sig) ≤ s.log.count (.sent sig) := by
  have hinv := inv_exec inv_start h
  refine ⟨fun hrest => hinv.served_of_atRest hrest sig, ?_⟩
  exact Nat.le_trans (Nat.le_add_right _ _) (hinv.counted sig)

/-- A second sender sets the event between the wait and the reset, and a third one while the handler
runs. -/
def threeSenders : List Action :=
  [.worker true, .worker true, .worker true, .openEvent 1 15, .openEvent 2 15, .openEvent 3 15,
    .setEvent 1 true, .worker true, .setEvent 2 true, .worker true, .setEvent 3 true,
    .closeEvent 1, .worker true, .worker true, .worker true, .worker true]

theorem signals_served_three_senders :
    ∃ s, exec step WorkerState.start threeSenders = some s ∧ s.AtRest ∧ Served 15 s.log ∧
      s.log.count (.delivered 15) = 2 ∧ s.log.count (.sent 15) = 3 := by
  refine ⟨_, rfl, ?_, (@signals_served_at_rest _ threeSenders rfl 15).1 ?_, rfl, rfl⟩
  · exact ⟨rfl, by decide⟩
  · exact ⟨rfl, by decide⟩

/-! ## The worker comes to rest -/

/-- The worker waits, or is on its way back to the wait. -/
def WorkerPc.looping : WorkerPc → Bool
  | .waiting => true
  | .woken _ => true
  | .handling _ => true
  | _ => false

/-- Steps of the worker that succeed. -/
def workerSteps (n : ℕ) : List Action := List.replicate n (.worker true)

/-- The worker, left alone, gets from one state to another in at most so many steps; only calls of
the handler are logged. -/
def Reaches (s : WorkerState) (n : ℕ) (s' : WorkerState) : Prop :=
  ∃ k ≤ n, exec step s (workerSteps k) = some s' ∧ s.log <:+ s'.log

theorem Reaches.refl (s : WorkerState) (n : ℕ) : Reaches s n s :=
  ⟨0, Nat.zero_le n, rfl, List.suffix_refl _⟩

theorem Reaches.cons {s m s' : WorkerState} {n : ℕ} (hstep : workerStep s true = some m)
    (hlog : s.log <:+ m.log) (h : Reaches m n s') : Reaches s (n + 1) s' := by
  obtain ⟨k, hk, hexec, hlog'⟩ := h
  exact ⟨k + 1, Nat.succ_le_succ hk, exec_cons_eq_some.mpr ⟨m, hstep, hexec⟩, hlog.trans hlog'⟩

theorem Reaches.mono {s s' : WorkerState} {n n' : ℕ} (h : Reaches s n s') (hn : n ≤ n') :
    Reaches s n' s' := by
  obtain ⟨k, hk, hexec, hlog⟩ := h
  exact ⟨k, Nat.le_trans hk hn, hexec, hlog⟩

/-- How many events are set. -/
def WorkerState.pending (s : WorkerState) : ℕ := s.h.countP s.events.signalled

/-- After the reset one less is set. -/
theorem countP_put_lt {ev : Events} {h : List ℤ} {sig : ℤ} (hmem : sig ∈ h)
    (hset : ev.signalled sig = true) :
    h.countP (ev.put sig false).signalled < h.countP ev.signalled := by
  have hmono : ∀ i, (ev.put sig false).signalled i = true → ev.signalled i = true := by
    intro i hi
    by_cases hsig : i = sig
    · exact hsig ▸ hset
    · rwa [signalled_put_of_ne _ _ _ hsig] at hi
  obtain ⟨before, after, rfl⟩ := List.append_of_mem hmem
  have hbefore := List.countP_mono_left (l := before) fun i _ => hmono i
  have hafter := List.countP_mono_left (l := after) fun i _ => hmono i
  rw [List.countP_append, List.countP_append, List.countP_cons_of_pos hset,
    List.countP_cons_of_neg (by rw [signalled_put_false]; exact Bool.false_ne_true)]
  omega

/-- From the wait, three steps for every event that is set. -/
theorem reaches_rest_of_waiting (n : ℕ) : ∀ s : WorkerState, s.pc = .waiting → s.pending = n →
    ∃ s', Reaches s (3 * n) s' ∧ s'.AtRest := by
  induction n using Nat.strongRecOn with
  | ind n ih =>
    intro s hpc hn
    cases hfind : s.h.find? s.events.signalled with
    | none =>
      refine ⟨s, Reaches.refl s _, hpc, fun sig hsig => ?_⟩
      exact Bool.eq_false_iff.mpr (List.find?_eq_none.mp hfind sig hsig)
    | some sig =>
      have hlt := countP_put_lt (List.mem_of_find?_eq_some hfind) (List.find?_some hfind)
      obtain ⟨s', hreach, hrest⟩ := ih _ (Nat.lt_of_lt_of_eq hlt hn)
        { s with
          pc := .waiting, events := s.events.put sig false, log := .delivered sig :: s.log } rfl rfl
      have hwoken : workerStep s true = some { s with pc := .woken sig } := by
        unfold workerStep
        rw [hpc, hfind]
        rfl
      have hround := Reaches.cons hwoken (List.suffix_refl _)
        (Reaches.cons rfl (List.suffix_refl _) (Reaches.cons rfl (List.suffix_cons _ _) hreach))
      refine ⟨s', hround.mono ?_, hrest⟩
      unfold WorkerState.pending at hn
      omega

theorem reaches_rest {s : WorkerState} (h : s.pc.looping = true) :
    ∃ s', Reaches s (3 * s.h.length + 2) s' ∧ s'.AtRest := by
  have hround : ∀ m : WorkerState, m.pc = .waiting → m.h = s.h →
      ∃ s', Reaches m (3 * s.h.length) s' ∧ s'.AtRest := by
    intro m hpc hh
    obtain ⟨s', hreach, hrest⟩ := reaches_rest_of_waiting _ m hpc rfl
    refine ⟨s', hreach.mono (Nat.mul_le_mul_left 3 ?_), hrest⟩
    rw [← hh]
    exact List.countP_le_length
  cases hpc : s.pc with
  | waiting =>
    obtain ⟨s', hreach, hrest⟩ := hround s hpc rfl
    exact ⟨s', hreach.mono (Nat.le_add_right _ _), hrest⟩
  | handling sig =>
    obtain ⟨s', hreach, hrest⟩ :=
      hround { s with pc := .waiting, log := .delivered sig :: s.log } rfl rfl
    refine ⟨s', (Reaches.cons ?_ (List.suffix_cons _ _) hreach).mono (Nat.le_succ _), hrest⟩
    unfold workerStep
    rw [hpc]
  | woken sig =>
    obtain ⟨s', hreach, hrest⟩ := hround
      { s with pc := .waiting, events := s.events.put sig false, log := .delivered sig :: s.log }
      rfl rfl
    refine ⟨s', Reaches.cons (m := { s with pc := .handling sig, events := s.events.put sig false })
      ?_ (List.suffix_refl _) (Reaches.cons rfl (List.suffix_cons _ _) hreach), hrest⟩
    unfold workerStep
    rw [hpc]
  | creating rest | closing rest | done =>
    rw [hpc] at h
    cases h

/-- **Every signal gets to the handler**: after any run, a worker that is in its loop and is left
alone delivers everything that has been sent so far and waits, within three steps for each of its
events and two for what it is in the middle of. -/
theorem worker_comes_to_rest {s : WorkerState} {as : List Action}
    (h : exec step WorkerState.start as = some s) (hloop : s.pc.looping = true) :
    ∃ k ≤ 3 * s.h.length + 2, ∃ s', exec step s (workerSteps k) = some s' ∧ s'.AtRest ∧
      s.log <:+ s'.log ∧ ∀ sig, Served sig s'.log := by
  obtain ⟨s', ⟨k, hk, hexec, hlog⟩, hrest⟩ := reaches_rest hloop
  have hinv : Inv s' := inv_exec (inv_exec inv_start h) hexec
  exact ⟨k, hk, s', hexec, hrest, hlog, hinv.served_of_atRest hrest⟩

/-- The same run up to the first call of the handler. -/
theorem worker_comes_to_rest_three_senders :
    ∃ s, exec step WorkerState.start (threeSenders.take 11) = some s ∧
      ∃ k ≤ 8, ∃ s', exec step s (workerSteps k) = some s' ∧ s'.AtRest ∧
        s.log <:+ s'.log ∧ ∀ sig, Served sig s'.log :=
  ⟨_, rfl, @worker_comes_to_rest _ (threeSenders.take 11) rfl rfl⟩

end Worker
end Signal
end Wpdk
