import Wpdk.Thread.Released

/-!
# Joining and detaching what is not a thread

A join or a detach of an id that is not the id of a joinable thread finds nothing in the table, and
fails.  The exception is zero.  A record is in the table under that id from `wpdk_allocate_thread`
to `wpdk_set_thread_info`; the join tests for zero, and the detach does not.  So a detach of zero
takes away a record that another thread is just filling in, and frees it if the start routine is not
in it yet.

* `State.Joinable`: the threads that may be joined or detached.
* `Origin`: every thread has been made by a call of `pthread_create`, which will return its id.
* `Refused`: what is asked of a step that joins or detaches anything else.
* `foreign_refused_iff`: the steps of a run meet it exactly if no detach of zero is made while a
  record is in the table under zero.
-/

namespace Wpdk
namespace Thread

open Run

/-- The id that a `pthread_create` returns, or will return. -/
def Pc.creates : Pc → Option ℕ
  | .begun _ _ (.ok id _) => some id
  | .registered _ id _ => some id
  | .returned (.created id) => some id
  | .idle | .allocated _ _ | .filled _ _ | .begun _ _ (.failed _ _) | .discard _ _
  | .waiting _ _ _ _ | .waited _ _ _ _ | .closing _ _ _ _ | .returned (.createFailed _ _)
  | .returned (.joined _ _ _ _ _) | .returned (.detached _ _ _) => none

namespace State

/-- A `pthread_create` has returned `t`, or is past `wpdk_set_thread_info` and about to return it;
the thread was not created detached; and no call has taken its record out of the table. -/
def Joinable (s : State) (t : ℕ) : Prop :=
  (∃ c, (∃ args h, s.calls c = .registered args t h) ∨ s.calls c = .returned (.created t)) ∧
    (∃ th, s.threads t = some th ∧ th.detached = false) ∧ ∀ d, (s.calls d).taken ≠ some t

/-- No slot has changed, and no record has been freed. -/
def Untouched (s s' : State) : Prop := s'.slot = s.slot ∧ s'.freed = s.freed

end State

/-- What a step does that joins or detaches something that is not a joinable thread: it returns an
error and leaves the table and the records alone.  A join looks twice, and the thread may have been
joined or detached by another call in between; where the wait has failed, that is what it reports.
-/
def Refused (s s' : State) : Action → Prop
  | .join c _ t value => ¬ s.Joinable t → s.Untouched s' ∧
      s'.calls c = .returned (.joined t value false Errno.einval.code none)
  | .endJoin c => ∀ t index value rc, s.calls c = .waited t index value rc → ¬ s.Joinable t →
      s.Untouched s' ∧ s'.calls c = .returned (.joined t value false
        (if rc = .failed then lastError else Errno.esrch.code) none)
  | .detach c t => ¬ s.Joinable t → s.Untouched s' ∧
      s'.calls c = .returned (.detached t false Errno.einval.code)
  | .create _ _ _ _ | .fill _ | .beginThread _ _ | .setInfo _ | .finishCreate _ _ | .discard _
  | .wait _ _ | .release _ | .starting _ | .enter _ | .leave _ _ _ | .terminate _ => True

/-- A detach of zero finds no record in the table under zero. -/
def NoZeroRecord (s : State) : Action → Prop
  | .detach c t => t = 0 → s.calls c = .idle → ∀ i r, s.slot i = some r → (s.records r).id ≠ 0
  | .create _ _ _ _ | .fill _ | .beginThread _ _ | .setInfo _ | .finishCreate _ _ | .discard _
  | .join _ _ _ _ | .wait _ _ | .endJoin _ | .release _ | .starting _ | .enter _ | .leave _ _ _
  | .terminate _ => True

/-! ## Where threads come from -/

/-- Every thread was made by a call that returns, or will return, its id. -/
def Origin (s : State) : Prop := ∀ t, s.threads t ≠ none → ∃ c, (s.calls c).creates = some t

/-- What a step does to the origins: a call that creates a thread goes on creating it, and a new
thread has one. -/
structure Traced (s s' : State) : Prop where
  calls : ∀ c t, (s.calls c).creates = some t → (s'.calls c).creates = some t
  threads : ∀ t, s'.threads t ≠ none → s.threads t ≠ none ∨ ∃ c, (s'.calls c).creates = some t

theorem Origin.traced {s s' : State} (h : Origin s) (htraced : Traced s s') : Origin s' := by
  intro t ht
  rcases htraced.threads t ht with hold | hnew
  · obtain ⟨c, hc⟩ := h t hold
    exact ⟨c, htraced.calls c t hc⟩
  · exact hnew

theorem ne_none_of_update {threads : ℕ → Option OsThread} {t t' : ℕ} {th th' : OsThread}
    (ht : threads t = some th) (ht' : Function.update threads t (some th') t' ≠ none) :
    threads t' ≠ none := by
  by_cases htt : t' = t
  · rw [htt, ht]
    exact Option.some_ne_none th
  · rwa [Function.update_of_ne htt] at ht'

namespace Traced

variable {s s' : State} {c : ℕ} {pc : Pc}

theorem refl (s : State) : Traced s s := ⟨fun _ _ h => h, fun _ h => Or.inl h⟩

/-- A step of a call. -/
theorem ofCall (hcalls : s'.calls = Function.update s.calls c pc)
    (hpc : ∀ t, (s.calls c).creates = some t → pc.creates = some t)
    (hthreads : ∀ t, s'.threads t ≠ none → s.threads t ≠ none ∨ pc.creates = some t) :
    Traced s s' := by
  refine ⟨fun d t hd => ?_, fun t ht => (hthreads t ht).imp_right fun hc => ⟨c, ?_⟩⟩
  · rw [hcalls]
    by_cases hdc : d = c
    · rw [hdc, Function.update_self]
      exact hpc t (hdc ▸ hd)
    · rwa [Function.update_of_ne hdc]
  · rwa [hcalls, Function.update_self]

/-- A step of a call that has not created anything yet. -/
theorem ofNone (hcalls : s'.calls = Function.update s.calls c pc)
    (hnone : (s.calls c).creates = none) (hthreads : s'.threads = s.threads) : Traced s s' :=
  ofCall hcalls (fun t ht => by rw [hnone] at ht; cases ht) fun t ht => Or.inl (hthreads ▸ ht)

/-- A step of a thread. -/
theorem ofThread {t : ℕ} {th th' : OsThread} (ht : s.threads t = some th)
    (hcalls : s'.calls = s.calls) (hthreads : s'.threads = Function.update s.threads t (some th')) :
    Traced s s' := by
  refine ⟨fun d t hd => by rwa [hcalls], fun t' ht' => Or.inl ?_⟩
  rw [hthreads] at ht'
  exact ne_none_of_update ht ht'

end Traced

namespace State

variable {s : State}

theorem allocateThread_frame (s : State) (tableOk recordOk : Bool) :
    (s.allocateThread tableOk recordOk).1.calls = s.calls ∧
      (s.allocateThread tableOk recordOk).1.threads = s.threads := by
  unfold allocateThread
  split
  · exact ⟨rfl, rfl⟩
  · split
    · dsimp only
      split <;> exact ⟨rfl, rfl⟩
    · exact ⟨rfl, rfl⟩

theorem clearAt_frame (s : State) (index : ℤ) :
    (s.clearAt index).calls = s.calls ∧ (s.clearAt index).threads = s.threads := by
  unfold clearAt
  split <;> exact ⟨rfl, rfl⟩

theorem setThreadInfo_frame (s : State) (r id h : ℕ) (detached : Bool) :
    (s.setThreadInfo r id h detached).calls = s.calls ∧
      (s.setThreadInfo r id h detached).threads = s.threads := by
  unfold setThreadInfo
  dsimp only
  generalize (if detached = true then 0 else h) = h'
  split
  · exact clearAt_frame _ _
  · exact ⟨rfl, rfl⟩

theorem threadDone_frame (s : State) (id : ℕ) (index : ℤ) (result : ℕ) :
    (s.threadDone id index result).calls = s.calls ∧
      (s.threadDone id index result).threads = s.threads := by
  unfold threadDone
  split <;> exact ⟨rfl, rfl⟩

theorem resumeThread_frame (s : State) (h : ℕ) : (s.resumeThread h).calls = s.calls ∧
    ∀ t, (s.resumeThread h).threads t ≠ none → s.threads t ≠ none := by
  unfold resumeThread
  split
  · exact ⟨rfl, fun _ ht => ht⟩
  · split
    · rename_i hth
      exact ⟨rfl, fun _ ht => ne_none_of_update hth ht⟩
    · exact ⟨rfl, fun _ ht => ht⟩

end State

namespace Traced

variable {s s' : State} {c : ℕ}

theorem pthreadCreate (hc : s.calls c = .idle) (args : CreateArgs) (tableOk recordOk : Bool) :
    Traced s (s.pthreadCreate c args tableOk recordOk) := by
  have hnone : (s.calls c).creates = none := by rw [hc]; rfl
  have hframe := s.allocateThread_frame tableOk recordOk
  unfold State.pthreadCreate
  split
  · exact ofNone rfl hnone rfl
  · split <;> rename_i heq <;> rw [heq] at hframe <;>
      exact ofNone (congrArg (Function.update · c _) hframe.1) hnone hframe.2

theorem beginThread {r : ℕ} {args : CreateArgs} (hc : s.calls c = .filled r args) {b : Begun}
    (hstep : s.beginThread c r args b = some s') : Traced s s' := by
  cases b with
  | failed id e =>
    obtain rfl := Option.some.inj hstep
    exact ofNone rfl (by rw [hc]; rfl) rfl
  | ok id h =>
    dsimp only [State.beginThread] at hstep
    split at hstep
    · obtain rfl := Option.some.inj hstep
      refine ofCall rfl (fun t ht => by rw [hc] at ht; cases ht) fun t ht => ?_
      by_cases hid : t = id
      · exact Or.inr (congrArg some hid.symm)
      · exact Or.inl ((Function.update_of_ne hid _ _).symm.trans_ne ht)
    · cases hstep

theorem finishCreate {args : CreateArgs} {id h : ℕ} (hc : s.calls c = .registered args id h)
    (ok : Bool) : Traced s (s.finishCreate c args id h ok) := by
  have hresumed : (if ok then s.resumeThread h else s).calls = s.calls ∧
      ∀ t, (if ok then s.resumeThread h else s).threads t ≠ none → s.threads t ≠ none := by
    split
    · exact s.resumeThread_frame h
    · exact ⟨rfl, fun _ ht => ht⟩
  unfold State.finishCreate
  dsimp only
  split <;> refine ofCall (congrArg (Function.update · c _) hresumed.1)
    (fun t ht => by rw [hc] at ht; exact ht) fun t ht => Or.inl (hresumed.2 t ht)

theorem pthreadJoin (hc : s.calls c = .idle) (self t : ℕ) (value : Bool) :
    Traced s (s.pthreadJoin c self t value) := by
  have hnone : (s.calls c).creates = none := by rw [hc]; rfl
  unfold State.pthreadJoin State.getThreadInfo
  dsimp only
  split
  · exact ofNone rfl hnone rfl
  · split <;> rename_i heq <;> obtain ⟨rfl, -⟩ := Prod.mk.inj heq <;> exact ofNone rfl hnone rfl

theorem takeOut (hnone : (s.calls c).creates = none) (t : ℕ) (index : ℤ)
    (ret : Option Record → Ret) : Traced s (s.takeOut c t index ret) := by
  unfold State.takeOut State.detachThread
  cases s.entry t index with
  | none => exact ofNone rfl hnone rfl
  | some found => exact ofNone rfl hnone rfl

theorem release {r h start : ℕ} {ret : Ret} (hc : s.calls c = .closing r h start ret) :
    Traced s (s.release c r h start ret) := by
  have hnone : (s.calls c).creates = none := by rw [hc]; rfl
  unfold State.release
  dsimp only
  split <;> split <;> exact ofNone rfl hnone rfl

theorem setThreadInfo {pc : Pc} (hpc : pc.creates = (s.calls c).creates) (r id h : ℕ)
    (detached : Bool) : Traced s ((s.setThreadInfo r id h detached).goto c pc) := by
  have hframe := s.setThreadInfo_frame r id h detached
  exact ofCall (congrArg (Function.update · c _) hframe.1) (fun t ht => hpc.trans ht)
    fun t ht => Or.inl (hframe.2 ▸ ht)

/-- **Every step keeps the origins.** -/
theorem step {a : Action} (hstep : step s a = some s') : Traced s s' := by
  cases stepped_of_step hstep with
  | create args tableOk recordOk hc => exact pthreadCreate hc args tableOk recordOk
  | fill hc => exact ofNone rfl (by rw [hc]; rfl) rfl
  | beginThread hc hbegin => exact beginThread hc hbegin
  | setInfoOk hc => exact setThreadInfo (by rw [hc]; rfl) _ _ _ _
  | setInfoFailed hc => exact setThreadInfo (by rw [hc]; rfl) _ _ _ _
  | finishCreate ok hc => exact finishCreate hc ok
  | discard hc => exact ofNone rfl (by rw [hc]; rfl) rfl
  | join self t value hc => exact pthreadJoin hc self t value
  | waitAgain => exact refl s
  | waited hc _ => exact ofNone rfl (by rw [hc]; rfl) rfl
  | endJoin hc => exact takeOut (by rw [hc]; rfl) _ _ _
  | detach t hc => exact takeOut (by rw [hc]; rfl) _ _ _
  | release hc => exact release hc
  | starting ht => exact ofThread ht rfl rfl
  | enter ht =>
    unfold State.enterThread
    dsimp only
    split <;> exact ofThread ht rfl rfl
  | @leave t r detached info value how ht =>
    have hframe := s.threadDone_frame t (how.index info) value
    exact ofThread ht hframe.1 (congrArg (Function.update · t _) hframe.2)
  | terminate ht => exact ofThread ht rfl rfl

end Traced

/-! ## What is found -/

namespace Consistent

variable {φ : ℕ → Phase} {s s' : State} {c i r t : ℕ}

/-- What is in the table under an id other than zero is the record of a joinable thread. -/
theorem joinable_of_id (h : Consistent φ s) (horigin : Origin s) (hi : s.slot i = some r)
    (hid : (s.records r).id = t) (ht : t ≠ 0) : s.Joinable t := by
  have hphase := h.phase_of_id hi hid ht
  obtain ⟨th, hth, hrecord⟩ := (h.known_of_id hi hid ht).2
  refine ⟨?_, ⟨th, hth, ?_⟩, fun d hd => ?_⟩
  · obtain ⟨c, hc⟩ := horigin t (by rw [hth]; exact Option.some_ne_none th)
    have hcall := h.call c
    refine ⟨c, ?_⟩
    cases hpc : s.calls c with
    | begun r' args b =>
      rw [hpc] at hc hcall
      cases b with
      | failed id e => cases hc
      | ok id hd =>
        -- before `wpdk_set_thread_info` the record is not in the table under the id
        obtain rfl := Option.some.inj hc
        obtain ⟨hlaunched, -, -, th', hth', rfl, -⟩ := hcall
        obtain rfl := Option.some.inj (hth.symm.trans hth')
        rw [hrecord] at hlaunched
        rcases hphase with hphase | hphase <;> rw [hphase] at hlaunched <;> cases hlaunched
    | registered args id hd =>
      rw [hpc] at hc
      obtain rfl := Option.some.inj hc
      exact Or.inl ⟨args, hd, rfl⟩
    | returned ret =>
      rw [hpc] at hc
      cases ret with
      | created id =>
        obtain rfl := Option.some.inj hc
        exact Or.inr rfl
      | createFailed _ _ | joined _ _ _ _ _ | detached _ _ _ => cases hc
    | idle | allocated _ _ | filled _ _ | discard _ _ | waiting _ _ _ _ | waited _ _ _ _
    | closing _ _ _ _ =>
      rw [hpc] at hc
      cases hc
  · obtain ⟨-, hdetached, -⟩ := h.thread t th hth
    rw [hrecord] at hdetached
    cases hd : th.detached with
    | false => rfl
    | true =>
      rcases hphase with hphase | hphase
      · exact absurd hphase (hdetached hd).1
      · exact absurd hphase (hdetached hd).2.1
  · obtain ⟨r', hworks, hunlisted⟩ := (h.call d).not_listed hd
    obtain rfl := (h.known_of_id hi hid ht).2.unique hworks
    rw [(h.slots.slot i r hi).1] at hunlisted
    cases hunlisted

/-- Nothing else is in the table, but for what is there under zero. -/
theorem id_ne_of_not_joinable (h : Consistent φ s) (horigin : Origin s)
    (hjoinable : ¬ s.Joinable t) (ht : t ≠ 0) :
    ∀ i r, s.slot i = some r → (s.records r).id ≠ t := fun _ _ hi hid =>
  hjoinable (h.joinable_of_id horigin hi hid ht)

/-- What is not in the table is not taken out of it. -/
theorem takeOut_of_absent (h : Consistent φ s)
    (habsent : ∀ i r, s.slot i = some r → (s.records r).id ≠ t) (index : ℤ)
    (ret : Option Record → Ret) : s.takeOut c t index ret = s.goto c (.returned (ret none)) := by
  have hentry : s.entry t index = none := by
    cases hentry : s.entry t index with
    | none => rfl
    | some found =>
      obtain ⟨hi, hid⟩ := State.entry_spec (i := found.1) (r := found.2) hentry
      exact absurd hid (habsent _ _ hi)
  unfold State.takeOut State.detachThread
  rw [hentry, h.access_visited]

theorem pthreadJoin_of_not_joinable (h : Consistent φ s) (horigin : Origin s)
    (hjoinable : ¬ s.Joinable t) (self : ℕ) (value : Bool) :
    s.pthreadJoin c self t value =
      s.goto c (.returned (.joined t value false Errno.einval.code none)) := by
  unfold State.pthreadJoin State.getThreadInfo
  dsimp only
  split
  · rfl
  · rename_i hargs
    have hlt : ¬ s.search t < s.hwmthreads := by
      intro hlt
      obtain ⟨r, hr, hid⟩ := State.hasId_iff.mp (first_spec hlt)
      exact h.id_ne_of_not_joinable horigin hjoinable (fun hzero => hargs (Or.inl hzero)) _ r hr hid
    rw [h.access_visited, if_neg hlt]

end Consistent

/-! ## Steps and runs -/

/-- What a run keeps. -/
def Sane (s : State) : Prop := (∃ φ, Consistent φ s) ∧ Origin s

theorem sane_start : Sane State.start := ⟨⟨_, consistent_start⟩, fun _ ht => absurd rfl ht⟩

variable {s s' : State} {a : Action}

/-- A detach of zero keeps the state consistent too, if it finds nothing. -/
theorem Consistent.detach_zero {φ : ℕ → Phase} (h : Consistent φ s) {c : ℕ}
    (hzero : ∀ i r, s.slot i = some r → (s.records r).id ≠ 0) :
    Consistent φ (s.takeOut c 0 (-1) (State.detachRet 0)) := by
  rw [h.takeOut_of_absent hzero]
  exact h.goto ⟨trivial, by simp [State.detachRet, Ret.taken], by simp [State.detachRet]⟩
    (Or.inl rfl)

theorem Sane.step (h : Sane s) (ha : NoZeroRecord s a) (hstep : step s a = some s') : Sane s' := by
  obtain ⟨⟨φ, hφ⟩, horigin⟩ := h
  refine ⟨?_, horigin.traced (Traced.step hstep)⟩
  cases a with
  | detach c t =>
    by_cases ht : t = 0
    · subst ht
      cases stepped_of_step hstep with
      | detach _ hc => exact ⟨φ, hφ.detach_zero (ha rfl hc)⟩
    · exact step_consistent (a := .detach c t) hφ (decide_eq_true ht) hstep
  | create _ _ _ _ | fill _ | beginThread _ _ | setInfo _ | finishCreate _ _ | discard _
  | join _ _ _ _ | wait _ _ | endJoin _ | release _ | starting _ | enter _ | leave _ _ _
  | terminate _ => exact step_consistent hφ rfl hstep

/-- Zero is not a thread. -/
theorem Sane.not_joinable_zero (h : Sane s) : ¬ s.Joinable 0 := by
  obtain ⟨⟨φ, hφ⟩, -⟩ := h
  rintro ⟨-, ⟨th, hth, -⟩, -⟩
  exact (hφ.thread 0 th hth).1 rfl

/-- A step that meets the condition is right. -/
theorem Sane.refused (h : Sane s) (ha : NoZeroRecord s a) (hstep : Thread.step s a = some s') :
    Refused s s' a := by
  obtain ⟨⟨φ, hφ⟩, horigin⟩ := h
  cases a with
  | join c self t value =>
    intro hjoinable
    cases stepped_of_step hstep with
    | join _ _ _ hc =>
      rw [hφ.pthreadJoin_of_not_joinable horigin hjoinable]
      exact ⟨⟨rfl, rfl⟩, Function.update_self _ _ _⟩
  | endJoin c =>
    intro t index value rc hc hjoinable
    have hne : t ≠ 0 := by
      have hcall := hφ.call c
      rw [hc] at hcall
      exact hcall.1
    simp only [Thread.step, hc] at hstep
    obtain rfl := Option.some.inj hstep
    rw [hφ.takeOut_of_absent (hφ.id_ne_of_not_joinable horigin hjoinable hne)]
    refine ⟨⟨rfl, rfl⟩, (Function.update_self _ _ _).trans ?_⟩
    cases value <;> rfl
  | detach c t =>
    intro hjoinable
    cases stepped_of_step hstep with
    | detach _ hc =>
      have habsent : ∀ i r, s.slot i = some r → (s.records r).id ≠ t := by
        by_cases ht : t = 0
        · exact ht ▸ ha ht hc
        · exact hφ.id_ne_of_not_joinable horigin hjoinable ht
      rw [hφ.takeOut_of_absent habsent]
      exact ⟨⟨rfl, rfl⟩, Function.update_self _ _ _⟩
  | create _ _ _ _ | fill _ | beginThread _ _ | setInfo _ | finishCreate _ _ | discard _
  | wait _ _ | release _ | starting _ | enter _ | leave _ _ _ | terminate _ => trivial

/-- A detach of zero that finds a record is not: it empties the slot. -/
theorem Sane.not_refused (h : Sane s) {c i r : ℕ} (hc : s.calls c = .idle)
    (hi : s.slot i = some r) (hid : (s.records r).id = 0) :
    ∃ s', Thread.step s (.detach c 0) = some s' ∧ ¬ Refused s s' (.detach c 0) := by
  refine ⟨s.takeOut c 0 (-1) (State.detachRet 0), by simp only [Thread.step, hc], ?_⟩
  intro hrefused
  have hzero := h.not_joinable_zero
  obtain ⟨⟨φ, hφ⟩, -⟩ := h
  have hlt := (hφ.slots.slot i r hi).2.2
  have hfound : s.search 0 < s.hwmthreads := first_lt hlt (State.hasId_iff.mpr ⟨r, hi, hid⟩)
  obtain ⟨r', hj, hid'⟩ := State.hasId_iff.mp (first_spec hfound)
  have hentry : s.entry 0 (-1) = some (s.search 0, r') := by
    refine State.entry_of_locate hj hid' (Nat.lt_of_lt_of_le hfound hφ.slots.hwm_le) ?_
    exact if_pos ⟨rfl, State.table_isSome_of_slot hi⟩
  have hret := (hrefused hzero).2
  unfold State.takeOut State.detachThread at hret
  rw [hentry] at hret
  cases (Function.update_self _ _ _).symm.trans hret

theorem Sane.refused_iff (h : Sane s) :
    (∀ s', Thread.step s a = some s' → Refused s s' a) ↔ NoZeroRecord s a := by
  refine ⟨fun hrefused => ?_, fun ha s' hstep => h.refused ha hstep⟩
  cases a with
  | detach c t =>
    rintro rfl hc i r hi hid
    obtain ⟨s', hstep, hnot⟩ := h.not_refused hc hi hid
    exact hnot (hrefused s' hstep)
  | create _ _ _ _ | fill _ | beginThread _ _ | setInfo _ | finishCreate _ _ | discard _
  | join _ _ _ _ | wait _ _ | endJoin _ | release _ | starting _ | enter _ | leave _ _ _
  | terminate _ => trivial

/-- **Only created threads can be joined or detached.**  In every interleaving of any number of
calls and threads, a join or a detach of anything but a joinable thread fails and leaves the table
and the records as they are: exactly as long as no detach of zero is made while the record of a
creation in progress is in the table under zero.

A thread counts as created from `wpdk_set_thread_info` on, which is before `pthread_create` returns.
A join that fails after the wait returns an error number, or -1 if the wait itself has failed. -/
theorem foreign_refused_iff (actions : List Action) :
    EachStep step (fun s a => ∀ s', step s a = some s' → Refused s s' a) State.start actions ↔
      EachStep step NoZeroRecord State.start actions :=
  eachStep_iff_eachStep (I := Sane) (fun _ _ _ h ha hstep => h.step ha hstep)
    (fun _ _ h => h.refused_iff) sane_start

/-- Call 0 has allocated a record for a new thread when call 1 detaches zero.  It empties the slot,
and goes on to free the record, into which call 0 then writes. -/
theorem detach_zero_releases_record :
    ∃ s s', exec step State.start [.create 0 ⟨true, none, 1, 0⟩ true true] = some s ∧
      step s (.detach 1 0) = some s' ∧ ¬ Refused s s' (.detach 1 0) ∧ s.slot 0 = some 0 ∧
      s'.slot 0 = none ∧
      ∃ t, exec step s' [.release 1, .fill 0] = some t ∧
        t.calls 1 = .returned (.detached 0 true 0) ∧ t.freed = [0] ∧ t.faults = [.stale 0] := by
  refine ⟨_, _, rfl, rfl, fun hrefused => ?_, rfl, rfl, _, rfl, rfl, rfl, rfl⟩
  -- there is no thread at all yet
  obtain ⟨-, hret⟩ := hrefused (by rintro ⟨-, ⟨th, hth, -⟩, -⟩; cases hth)
  cases hret

end Thread
end Wpdk
