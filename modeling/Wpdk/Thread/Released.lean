import Wpdk.Base.Run
import Wpdk.Thread.Join

/-!
# Records are freed once, and joins deliver the right value

Every step keeps a state consistent with the phases of its records, so every run does.  The
one thing that is asked of the callers is that they do not detach the thread zero: there is no such
thread, but a record is in the table under that id while its thread is being created.

* `step_consistent`, `exists_consistent`: steps and runs.
* `ReleasedOnce`, `records_released_once`: what becomes of the records.
* `JoinsDeliver`, `join_delivers_result`: what a join returns.
-/

namespace Wpdk
namespace Thread

open Run

/-- The thread has come out of `wpdk_thread_starting`. -/
def ThreadPc.started : ThreadPc → Bool
  | .running _ | .left _ | .terminated _ => true
  | .suspended | .resumed | .starting _ => false

/-- The value that the thread has returned or given to `pthread_exit`. -/
def ThreadPc.value : ThreadPc → Option ℕ
  | .left v | .terminated v => some v
  | .suspended | .resumed | .starting _ | .running _ => none

/-- A detach is called for a thread, as POSIX asks of its callers, and the id of a thread is not
zero.  The join tests for zero itself. -/
def Action.proper : Action → Bool
  | .detach _ t => t ≠ 0
  | .create _ _ _ _ | .fill _ | .beginThread _ _ | .setInfo _ | .finishCreate _ _ | .discard _
  | .join _ _ _ _ | .wait _ _ | .endJoin _ | .release _ | .starting _ | .enter _ | .leave _ _ _
  | .terminate _ => true

/-! ## Steps and runs -/

variable {φ : ℕ → Phase} {s s' : State}

/-- The end of a join delivers what the thread has left, if the thread has ended. -/
theorem Consistent.endJoin (h : Consistent φ s) {c t index : ℕ} {value : Bool} {rc : WaitResult}
    (hc : s.calls c = .waited t index value rc) :
    ∃ φ', Consistent φ' (s.takeOut c t index (State.joinRet t value rc)) := by
  have hcall := h.call c
  rw [hc] at hcall
  obtain ⟨hne, hended⟩ := hcall
  refine h.takeOut hne index _ ⟨?_, rfl, by simp [State.joinRet]⟩ fun i r hi hid => ⟨?_, rfl⟩
  · intro hcode
    have hpos := Errno.code_pos .esrch
    unfold State.joinCode lastError at hcode
    split at hcode
    · cases hcode
    · change (Errno.esrch.code : ℤ) = 0 at hcode
      omega
  · intro hcode
    have hrc : rc ≠ .failed := by
      rintro rfl
      simp [State.joinCode, lastError] at hcode
    obtain ⟨v, th, hth, hpc⟩ := hended hrc
    refine ⟨rfl, v, ⟨th, hth, hpc⟩, fun hvalue => ?_⟩
    -- the thread has ended and its record is in the table, so the result is there
    obtain ⟨-, th', hth', hrecord⟩ := h.known_of_id hi hid hne
    obtain rfl := Option.some.inj (hth.symm.trans hth')
    obtain ⟨-, -, hresult⟩ := h.thread t th hth
    rw [hpc, hrecord] at hresult
    rcases hresult with ⟨-, hresult⟩ | hpast
    · simp [hvalue, hresult]
    · have hlisted := (h.slots.slot i r hi).1
      rcases hpast with hpast | ⟨d, hpast⟩ <;> rw [hpast] at hlisted <;> cases hlisted

/-- **Every step keeps the state consistent with some phases.** -/
theorem step_consistent (h : Consistent φ s) {a : Action} (ha : a.proper = true)
    (hstep : step s a = some s') : ∃ φ', Consistent φ' s' := by
  cases stepped_of_step hstep with
  | @create c args tableOk recordOk _ => exact h.pthreadCreate c args tableOk recordOk
  | fill hc => exact h.fill hc
  | beginThread hc hbegin => exact h.beginThread hc hbegin
  | setInfoOk hc => exact h.setInfo_ok hc
  | setInfoFailed hc => exact h.setInfo_failed hc
  | finishCreate ok hc => exact ⟨φ, h.finishCreate hc ok⟩
  | discard hc => exact h.discard hc
  | @join c self t value _ => exact ⟨φ, h.pthreadJoin c self t value⟩
  | waitAgain => exact ⟨φ, h⟩
  | waited hc hrc => exact ⟨φ, h.wait hc hrc⟩
  | endJoin hc => exact h.endJoin hc
  | detach t _ =>
    exact h.takeOut (of_decide_eq_true ha) (-1) _
      ⟨trivial, rfl, by simp [State.detachRet]⟩ fun _ _ _ _ => ⟨trivial, rfl⟩
  | release hc => exact h.release hc
  | starting ht => exact h.starting ht
  | enter ht => exact h.enter ht
  | leave value how ht => exact h.leave ht value how
  | terminate ht => exact ⟨φ, h.terminate ht⟩

/-- Every state that is reached is consistent with some phases. -/
theorem exists_consistent {actions : List Action} (hargs : ∀ a ∈ actions, a.proper = true)
    (h : exec step State.start actions = some s) : ∃ φ, Consistent φ s :=
  exec_invariant_of_eachStep (P := fun s => ∃ φ, Consistent φ s)
    (fun _ _ _ ⟨_, hφ⟩ ha hstep => step_consistent hφ ha hstep) ⟨_, consistent_start⟩
    (eachStep_of_forall hargs State.start) h

/-! ## What becomes of the records -/

/-- **Records are released exactly once.** -/
structure ReleasedOnce (s : State) : Prop where
  /-- No record is freed twice. -/
  atMostOnce : s.freed.Nodup
  /-- No record is read or written after it has been freed. -/
  defined : s.faults = []
  /-- The record of a creation that has failed is freed, and in no slot. -/
  failed : ∀ c r e, s.calls c = .returned (.createFailed (some r) e) →
    r ∈ s.freed ∧ ∀ i, s.slot i ≠ some r
  /-- So is the record of a thread that has started and was created detached, or has been joined
  or detached. -/
  started : ∀ t th, s.threads t = some th → th.pc.started = true →
    (th.detached = true ∨ ∃ c ret, s.calls c = .returned ret ∧ ret.taken = some t) →
    th.record ∈ s.freed ∧ ∀ i, s.slot i ≠ some th.record

namespace Consistent

theorem freed_of_phase (h : Consistent φ s) {r : ℕ} (hr : φ r = .freed) :
    r ∈ s.freed ∧ ∀ i, s.slot i ≠ some r := by
  refine ⟨(h.memory.mem_freed_iff r).mpr hr, fun i hi => ?_⟩
  have hlisted := (h.slots.slot i r hi).1
  rw [hr] at hlisted
  cases hlisted

/-- The record of a thread that has started is in the table, or its freeing is left to a call. -/
theorem phase_of_started (h : Consistent φ s) {t : ℕ} {th : OsThread}
    (hth : s.threads t = some th) (hstarted : th.pc.started = true) :
    φ th.record = .started t ∨ (φ th.record).Past := by
  obtain ⟨-, -, hphase⟩ := h.thread t th hth
  cases hpc : th.pc with
  | running info | left v | terminated v =>
    rw [hpc] at hphase
    rcases hphase with ⟨hphase, -⟩ | hpast
    · exact Or.inl hphase
    · exact Or.inr hpast
  | suspended | resumed | starting info =>
    rw [hpc] at hstarted
    cases hstarted

theorem releasedOnce (h : Consistent φ s) : ReleasedOnce s where
  atMostOnce := h.memory.freed_nodup
  defined := h.memory.no_fault
  failed c r e hc := by
    have hcall := h.call c
    rw [hc] at hcall
    exact h.freed_of_phase (hcall.2.2 r e rfl)
  started t th hth hstarted hreleased := by
    refine h.freed_of_phase ?_
    have hphase := h.phase_of_started hth hstarted
    rcases hreleased with hdetached | ⟨c, ret, hc, htaken⟩
    · obtain ⟨-, hkept, -⟩ := h.thread t th hth
      obtain ⟨-, hnotStarted, hnotRemoved⟩ := hkept hdetached
      rcases hphase with hphase | hphase | ⟨d, hphase⟩
      · exact absurd hphase hnotStarted
      · exact hphase
      · exact absurd hphase (hnotRemoved d)
    · have hcall := h.call c
      rw [hc] at hcall
      obtain ⟨r, hworks, hout⟩ := hcall.2.1 t htaken
      obtain rfl := hworks.unique ⟨th, hth, rfl⟩
      -- the thread has started, so the record is not left to it any more
      rcases hout with hout | hout | hout
      · rcases hphase with hphase | hphase | ⟨d, hphase⟩ <;> rw [hout] at hphase <;> cases hphase
      · rcases hphase with hphase | hphase | ⟨d, hphase⟩ <;> rw [hout] at hphase <;> cases hphase
      · exact hout

end Consistent

/-- **Every thread record is released exactly once**, in every state that any number of calls and
threads can reach in any interleaving.  The arguments of joins and detaches are arbitrary but for a
detach of zero, which is not the id of a thread. -/
theorem records_released_once (actions : List Action) (hargs : ∀ a ∈ actions, a.proper = true)
    (h : exec step State.start actions = some s) : ReleasedOnce s := by
  obtain ⟨φ, hφ⟩ := exists_consistent hargs h
  exact hφ.releasedOnce

/-- Call `c` creates a thread that the operating system calls `id`. -/
def createRun (c id h : ℕ) (attr : Option DetachState) : List Action :=
  [.create c ⟨true, attr, 1, 0⟩ true true, .fill c, .beginThread c (.ok id h), .setInfo c,
    .finishCreate c true]

/-- A thread is detached between its creation and its start; a second thread cannot be created;
a third one is created detached. -/
def detachRun : List Action :=
  createRun 0 7 100 none ++ [.detach 1 7, .starting 7, .release 1, .enter 7] ++
    [.create 2 ⟨true, none, 1, 0⟩ true true, .fill 2, .beginThread 2 (.failed 99 .eagain),
      .setInfo 2, .discard 2] ++
    createRun 3 8 101 (some .detached) ++ [.starting 8, .enter 8]

theorem records_released_once_detachRun :
    ∃ s, exec step State.start detachRun = some s ∧ ReleasedOnce s ∧ s.freed = [0, 1, 2] :=
  ⟨_, rfl, records_released_once detachRun (by decide) rfl, rfl⟩

/-! ## What a join returns -/

/-- **Joins deliver the right value.** -/
structure JoinsDeliver (s : State) : Prop where
  /-- A join of `t` that returns zero has written the value of thread `t`. -/
  value : ∀ c t found out, s.calls c = .returned (.joined t true found 0 out) →
    ∃ th v, s.threads t = some th ∧ th.pc.value = some v ∧ out = some v
  /-- One join of `t` returns zero. -/
  once : ∀ c d t value value' found found' out out',
    s.calls c = .returned (.joined t value found 0 out) →
    s.calls d = .returned (.joined t value' found' 0 out') → c = d

theorem Consistent.joinsDeliver (h : Consistent φ s) : JoinsDeliver s where
  value c t found out hc := by
    have hcall := h.call c
    rw [hc] at hcall
    obtain ⟨-, v, ⟨th, hth, hpc⟩, hout⟩ := hcall.1 rfl
    exact ⟨th, v, hth, by rw [hpc]; rfl, hout rfl⟩
  once c d t value value' found found' out out' hc hd := by
    have htaken : ∀ {c value found out}, s.calls c = .returned (.joined t value found 0 out) →
        (s.calls c).taken = some t := by
      intro c value found out hc
      have hcall := h.call c
      rw [hc] at hcall ⊢
      obtain ⟨rfl, -⟩ := hcall.1 rfl
      rfl
    exact h.taken_unique c d t (htaken hc) (htaken hd)

/-- **A join that returns zero delivers the value of the thread it was called for**, and it is the
only one of that thread that does, in every run of any number of calls and threads.  The arguments
of joins are arbitrary, and so are those of detaches but for zero, which is no thread. -/
theorem join_delivers_result (actions : List Action) (hargs : ∀ a ∈ actions, a.proper = true)
    (h : exec step State.start actions = some s) : JoinsDeliver s := by
  obtain ⟨φ, hφ⟩ := exists_consistent hargs h
  exact hφ.joinsDeliver

/-- Two joins wait for thread 7, which returns 5; the slot is used again for thread 8, which ends
by `pthread_exit` with 6. -/
def joinRun : List Action :=
  createRun 0 7 100 none ++ [.join 1 0 7 true, .join 2 0 7 true, .starting 7, .enter 7,
    .leave 7 5 .byReturn, .terminate 7, .wait 1 .object0, .wait 2 .object0, .endJoin 1] ++
    createRun 3 8 101 none ++ [.endJoin 2, .release 1, .starting 8, .enter 8, .leave 8 6 .byExit,
      .terminate 8, .join 4 0 8 true, .wait 4 .object0, .endJoin 4, .release 4]

theorem join_delivers_result_joinRun :
    ∃ s, exec step State.start joinRun = some s ∧ JoinsDeliver s ∧
      s.calls 1 = .returned (.joined 7 true true 0 (some 5)) ∧
      s.calls 2 = .returned (.joined 7 true false Errno.esrch.code none) ∧
      s.calls 4 = .returned (.joined 8 true true 0 (some 6)) :=
  ⟨_, rfl, join_delivers_result joinRun (by decide) rfl, rfl, rfl, rfl⟩

end Thread
end Wpdk
