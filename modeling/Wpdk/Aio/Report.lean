import Wpdk.Aio.Iocount

/-!
# What `io_submit` returns

`wpdk_io_submit` returns how many of the control blocks were started, or the error of the first
one.  Four conventions meet in its loop: a request returns zero if it was started or has completed,
a negative `errno` if it was not started, and `EINTR` if it is a vectored request that has failed
with segments still active; and the loop counts.  The events come from elsewhere: inline transfers
post them during the call, completions during it or later, and a vectored request that has returned
`EINTR` still has one to post.

A control block yields its event when its completions have been taken, so this is about what can
follow a state as well: `YieldsOne`, `YieldsNone` and `NeverIssued` speak of every run that goes on
from it.

One thing the return value does not say.  A vectored request that fails at a segment behind others
is given up if those have all completed, and counts as not started, although they have moved data.

* `Entry.events`: what was posted for a control block; `ring_eq_posted` says that the ring holds
  just that.
* `Entry.Decided`: what the return code of a request says about it.
* `CallInv`: how far a call has come, and what it has returned.
* `Entry.issued`, `failsFirst`: what the operating system was given of a control block, and when
  that is nothing.
* `io_submit_reports_iff`: the return value, along every run.
-/

namespace Wpdk
namespace Aio

open Run

/-! ## Events -/

/-- What `wpdk_aio_task_done` was called with for an entry. -/
def Entry.events : Entry → List (IoTask × ℤ)
  | .plain task _ (.completed res) => [(task, res)]
  | .vector task _ req => req.posted.map fun res => (task, res)
  | _ => []

/-- The header after events were posted. -/
def IoHeader.post (hdr : IoHeader) (events : List (IoTask × ℤ)) : IoHeader :=
  events.foldl (fun h e => aioTaskDone h e.1 e.2) hdr

/-- The headers have the same ring. -/
def SameRing (hdr hdr' : IoHeader) : Prop :=
  hdr.context = hdr'.context ∧ hdr.events = hdr'.events

theorem SameRing.trans {hdr₁ hdr₂ hdr₃ : IoHeader} (h : SameRing hdr₁ hdr₂)
    (h' : SameRing hdr₂ hdr₃) : SameRing hdr₁ hdr₃ :=
  ⟨h.1.trans h'.1, h.2.trans h'.2⟩

theorem SameRing.aioTaskDone {hdr hdr' : IoHeader} (h : SameRing hdr hdr') (task : IoTask)
    (res : ℤ) : SameRing (aioTaskDone hdr task res) (aioTaskDone hdr' task res) := by
  obtain ⟨context, events, iocount⟩ := hdr
  obtain ⟨context', events', iocount'⟩ := hdr'
  obtain ⟨rfl, rfl⟩ := h
  exact ⟨rfl, rfl⟩

theorem SameRing.post {hdr hdr' : IoHeader} (h : SameRing hdr hdr')
    (events : List (IoTask × ℤ)) : SameRing (hdr.post events) (hdr'.post events) := by
  induction events generalizing hdr hdr' with
  | nil => exact h
  | cons e events ih => exact ih (h.aioTaskDone e.1 e.2)

/-- What was posted while an entry was worked on is in the ring. -/
def Posts (hdr hdr' : IoHeader) (e e' : Entry) : Prop :=
  ∃ new, e'.events = e.events ++ new ∧ SameRing hdr' (hdr.post new)

/-- What is known of a request from what it has returned: an error code is negative, a request that
is pending has a transfer to complete, and a vectored request has returned zero or `EINTR`. -/
def Entry.Decided : Entry → Prop
  | .refused rc => rc < 0
  | .plain _ seg .pending => ∃ res, seg.issued = .later res
  | .plain _ seg (.aborted error) => seg.issued = .failed error
  | .vector _ _ req => ∀ rc, req.pc = .returned rc → rc = 0 ∨ rc = Errno.eintr.code
  | _ => True

theorem decided_startEntry (hdr : IoHeader) (io : Option ControlBlock) (answers : Answers) :
    (startEntry hdr io answers).2.Decided := by
  generalize hdone : startEntry hdr io answers = done
  cases looked_startEntry hdone with
  | refused hneg => exact hneg
  | plain halloc => trivial
  | vector hb hop hpos hone halloc => exact fun rc hrc => nomatch hrc

theorem decided_issuePlain (hdr : IoHeader) (task : IoTask) (seg : Segment) :
    (issuePlain hdr task seg).2.Decided := by
  unfold issuePlain
  cases hissued : seg.issued with
  | inline nbytes => trivial
  | later res => exact ⟨res, hissued⟩
  | failed error => exact hissued

theorem Entry.Decided.submit {e : Entry} {hdr : IoHeader} {io : Option ControlBlock}
    {answers : Answers} {done : IoHeader × Entry} (h : e.submit hdr io answers = some done) :
    done.2.Decided := by
  rcases Entry.submit_cases h with ⟨rfl, rfl⟩ | ⟨task, seg, rfl, rfl⟩ | ⟨task, segs, req, rfl, h⟩
  · exact decided_startEntry hdr io answers
  · exact decided_issuePlain hdr task seg
  · obtain ⟨req', hmove, rfl⟩ := Option.map_eq_some_iff.mp h
    exact (settles_submitStep hmove).2

theorem Entry.Decided.complete {e : Entry} (he : e.Decided) {hdr : IoHeader} {j : ℕ}
    {done : IoHeader × Entry} (h : e.complete hdr j = some done) : done.2.Decided := by
  rcases Entry.complete_cases h with ⟨task, seg, res, rfl, -, rfl⟩ | ⟨task, segs, req, rfl, h⟩
  · trivial
  · obtain ⟨req', hmove, rfl⟩ := Option.map_eq_some_iff.mp h
    intro rc hrc
    rw [(settles_completeStep hmove).2] at hrc
    exact he rc hrc

/-- A completion leaves the return code. -/
theorem Entry.rc?_complete {e : Entry} {hdr : IoHeader} {j : ℕ} {done : IoHeader × Entry}
    (h : e.complete hdr j = some done) : done.2.rc? = e.rc? := by
  rcases Entry.complete_cases h with ⟨task, seg, res, rfl, -, rfl⟩ | ⟨task, segs, req, rfl, h⟩
  · rfl
  · obtain ⟨req', hmove, rfl⟩ := Option.map_eq_some_iff.mp h
    exact congrArg SubmitPc.rc? (settles_completeStep hmove).2

/-- The code of a transfer that failed is negative. -/
theorem Segment.rc_neg {seg : Segment} {error : WinError} (h : seg.issued = .failed error) :
    -(convertToPosix error : ℤ) < 0 := by
  have hpossible := seg.issued_possible
  rw [h] at hpossible
  have hpos := convertToPosix_pos hpossible.1
  omega

section Returned

variable {e : Entry} {rc : ℤ}

/-- The three kinds of return code. -/
theorem Entry.Decided.rc_cases (hd : e.Decided) (hs : e.Sound) (hrc : e.rc? = some rc) :
    rc = 0 ∨ rc = Errno.eintr.code ∨ rc < 0 := by
  cases e with
  | waiting => cases hrc
  | refused rc' =>
    cases hrc
    exact Or.inr (Or.inr hd)
  | plain task seg pc =>
    cases pc with
    | issuing => cases hrc
    | pending =>
      cases hrc
      exact Or.inl rfl
    | completed res =>
      cases hrc
      exact Or.inl rfl
    | aborted error =>
      cases hrc
      exact Or.inr (Or.inr (Segment.rc_neg hd))
  | vector task segs req =>
    have hpc : req.pc.rc? = some rc := hrc
    obtain ⟨⟨m, hinv⟩, -⟩ := hs
    cases hcase : req.pc with
    | returned rc' =>
      rw [hcase] at hpc
      cases hpc
      rcases hd rc hcase with h | h
      · exact Or.inl h
      · exact Or.inr (Or.inl h)
    | aborted rc' =>
      rw [hcase] at hpc
      cases hpc
      have hfacts := hinv.facts
      rw [hcase] at hfacts
      exact Or.inr (Or.inr hfacts.1)
    | _ =>
      rw [hcase] at hpc
      cases hpc

end Returned

/-! ## What was issued -/

/-- The operating system has taken on a transfer of the entry; a segment of length zero is not given
to it. -/
def Entry.issued : Entry → Bool
  | .plain _ _ .pending => true
  | .plain _ seg (.completed _) => seg.iovLen != 0
  | .vector _ segs req =>
    segs.zipIdx.any fun p => p.1.iovLen != 0 && (req.task p.2).phase != .unissued
  | _ => false

/-- How a call returns: without an array; at the end of it; behind a request that has failed and is
still active; or at a request that has failed. -/
inductive SubmitCall.Returned (call : SubmitCall) : ℤ → Prop where
  | null (hios : call.ios = []) (hindex : call.index = 0) : Returned call (-Errno.einval.code)
  | all (hindex : call.index = call.ios.length) : Returned call call.index
  | stopped (hindex : call.index < call.ios.length)
    (hrc : (call.entries call.index).rc? = some (Errno.eintr.code : ℤ)) :
    Returned call (call.index + 1 : ℕ)
  | failed {r rc : ℤ} (hindex : call.index < call.ios.length)
    (hrc : (call.entries call.index).rc? = some rc) (hneg : rc < 0)
    (hr : r = if call.index = 0 then rc else call.index) : Returned call r

/-- Only the return code of the entry that the call is at matters. -/
theorem SubmitCall.Returned.congr {call call' : SubmitCall} {r : ℤ} (h : call.Returned r)
    (hios : call'.ios = call.ios) (hindex : call'.index = call.index)
    (hrc : (call'.entries call.index).rc? = (call.entries call.index).rc?) :
    call'.Returned r := by
  obtain ⟨ios, entries, index, result⟩ := call'
  obtain rfl : ios = call.ios := hios
  obtain rfl : index = call.index := hindex
  cases h with
  | null hios hindex => exact .null hios hindex
  | all hindex => exact .all hindex
  | stopped hindex hstop => exact .stopped hindex (hrc.trans hstop)
  | failed hindex hfail hneg hr => exact .failed hindex (hrc.trans hfail) hneg hr

/-- **How far a call has come.** -/
structure CallInv (call : SubmitCall) : Prop where
  le : call.index ≤ call.ios.length
  started : ∀ i < call.index, (call.entries i).rc? = some 0
  waiting : ∀ i, call.index < i → call.entries i = .waiting
  outside : call.entries call.ios.length = .waiting
  returned : ∀ r, call.result = some r → call.Returned r

theorem callInv_begin (ios : Option (List (Option ControlBlock))) :
    CallInv (SubmitCall.begin ios) := by
  cases ios with
  | none =>
    refine ⟨Nat.zero_le _, fun i hi => absurd hi (Nat.not_lt_zero i), fun _ _ => rfl, rfl, ?_⟩
    intro r hr
    obtain rfl := Option.some.inj hr
    exact .null rfl rfl
  | some ios =>
    exact ⟨Nat.zero_le _, fun i hi => absurd hi (Nat.not_lt_zero i), fun _ _ => rfl, rfl,
      fun r hr => nomatch hr⟩

namespace CallInv

variable {call : SubmitCall}

/-- The end of the array. -/
theorem finish (h : CallInv call) (hend : call.ios.length ≤ call.index) :
    CallInv { call with result := some (call.index : ℤ) } where
  le := h.le
  started := h.started
  waiting := h.waiting
  outside := h.outside
  returned := by
    intro r hr
    obtain rfl := Option.some.inj hr
    exact .all (Nat.le_antisymm h.le hend)

/-- The end of the loop body. -/
theorem report (h : CallInv call) (hnone : call.result = none)
    (hindex : call.index < call.ios.length) {rc : ℤ}
    (hrc : (call.entries call.index).rc? = some rc) (hd : (call.entries call.index).Decided)
    (hs : (call.entries call.index).Sound) : CallInv (call.report rc) := by
  unfold SubmitCall.report
  by_cases heintr : rc = Errno.eintr.code
  · rw [if_pos heintr]
    rw [heintr] at hrc
    refine ⟨h.le, h.started, h.waiting, h.outside, fun r hr => ?_⟩
    obtain rfl := Option.some.inj hr
    exact .stopped hindex hrc
  by_cases hzero : rc = 0
  · rw [if_neg heintr, if_neg (not_not_intro hzero)]
    rw [hzero] at hrc
    refine ⟨hindex, fun i hi => ?_, fun i hi => ?_, h.outside, fun r hr => ?_⟩
    · rcases Nat.lt_succ_iff_lt_or_eq.mp hi with hlt | rfl
      · exact h.started i hlt
      · exact hrc
    · exact h.waiting i (Nat.lt_of_succ_lt hi)
    · rw [show call.result = some r from hr] at hnone
      cases hnone
  · rw [if_neg heintr, if_pos hzero]
    refine ⟨h.le, h.started, h.waiting, h.outside, fun r hr => ?_⟩
    obtain rfl := Option.some.inj hr
    have hneg : rc < 0 := by
      rcases hd.rc_cases hs hrc with h0 | h4 | hneg
      · exact absurd h0 hzero
      · exact absurd h4 heintr
      · exact hneg
    exact .failed hindex hrc hneg rfl

/-- The entry that a call is at was worked on. -/
theorem work (h : CallInv call) (hnone : call.result = none)
    (hindex : call.index < call.ios.length) (e : Entry) :
    CallInv (call.setEntry call.index e) where
  le := h.le
  started := by
    intro i hi
    have hne : i ≠ call.index := Nat.ne_of_lt hi
    show (Function.update call.entries call.index e i).rc? = some 0
    rw [Function.update_of_ne hne]
    exact h.started i hi
  waiting := by
    intro i hi
    have hne : i ≠ call.index := Nat.ne_of_gt hi
    show Function.update call.entries call.index e i = .waiting
    rw [Function.update_of_ne hne]
    exact h.waiting i hi
  outside := by
    show Function.update call.entries call.index e call.ios.length = .waiting
    rw [Function.update_of_ne (Nat.ne_of_gt hindex)]
    exact h.outside
  returned := by
    intro r hr
    rw [show call.result = some r from hr] at hnone
    cases hnone

/-- A completion was taken: return codes stay, and so do the entries that were not looked at. -/
theorem complete (h : CallInv call) {i : ℕ} {e : Entry} (hrc : e.rc? = (call.entries i).rc?)
    (hne : call.entries i ≠ .waiting) : CallInv (call.setEntry i e) := by
  have hkeep : ∀ k, ((call.setEntry i e).entries k).rc? = (call.entries k).rc? := by
    intro k
    show (Function.update call.entries i e k).rc? = _
    by_cases hk : k = i
    · subst hk
      rw [Function.update_self, hrc]
    · rw [Function.update_of_ne hk]
  have hwaiting : ∀ k, call.entries k = .waiting → (call.setEntry i e).entries k = .waiting := by
    intro k hk
    show Function.update call.entries i e k = .waiting
    rw [Function.update_of_ne, hk]
    rintro rfl
    exact hne hk
  refine ⟨h.le, fun k hk => ?_, fun k hk => hwaiting k (h.waiting k hk),
    hwaiting _ h.outside, fun r hr => ?_⟩
  · rw [hkeep]
    exact h.started k hk
  · exact (h.returned r hr).congr rfl rfl (hkeep call.index)

/-! What the return value says about the entries. -/

end CallInv

/-! ## The system -/

/-- What a run keeps. -/
structure ReportInv (s : SubmitState) : Prop where
  sound : ∀ c i, (s.entry c i).Sound
  decided : ∀ c i, (s.entry c i).Decided
  counts : ∀ c, ∀ io ∈ (s.calls c).ios, CountOk io
  calls : ∀ c, CallInv (s.calls c)
  unbegun : ∀ c i, s.begun ≤ c → s.entry c i = .waiting

namespace ReportInv

variable {s : SubmitState} {c i : ℕ}

/-- One call was replaced by one that is at the same control blocks or at new ones. -/
theorem setCall (h : ReportInv s) (call : SubmitCall)
    (hsound : ∀ i, (call.entries i).Sound ∧ (call.entries i).Decided)
    (hcounts : ∀ io ∈ call.ios, CountOk io) (hcall : CallInv call) (hdr : IoHeader)
    {begun : ℕ} (hbegun : s.begun ≤ begun) (hc : c < begun) :
    ReportInv { s.setCall c call with hdr := hdr, begun := begun } := by
  refine ⟨?_, ?_, ?_, ?_, fun c' i hc' => ?_⟩
  · exact forall_calls_setCall (P := fun call => ∀ i, (call.entries i).Sound) c
      (fun i => (hsound i).1) h.sound
  · exact forall_calls_setCall (P := fun call => ∀ i, (call.entries i).Decided) c
      (fun i => (hsound i).2) h.decided
  · exact forall_calls_setCall (P := fun call => ∀ io ∈ call.ios, CountOk io) c hcounts
      h.counts
  · exact forall_calls_setCall (P := CallInv) c hcall h.calls
  · show ((s.setCall c call).calls c').entries i = .waiting
    have hbound : begun ≤ c' := hc'
    have hne : c' ≠ c := by omega
    simp only [SubmitState.setCall, Function.update_of_ne hne]
    exact h.unbegun c' i (by omega)

/-- An entry was worked on. -/
theorem work (h : ReportInv s) (hc : c < s.begun) {done : IoHeader × Entry}
    (hsound : done.2.Sound) (hdecided : done.2.Decided)
    (hcall : CallInv ((s.calls c).setEntry i done.2)) : ReportInv (s.work c i done) := by
  refine h.setCall ((s.calls c).setEntry i done.2) (fun k => ?_) (h.counts c) hcall done.1
    (Nat.le_refl _) hc
  show (Function.update (s.calls c).entries i done.2 k).Sound ∧
    (Function.update (s.calls c).entries i done.2 k).Decided
  by_cases hk : k = i
  · rw [hk, Function.update_self]
    exact ⟨hsound, hdecided⟩
  · rw [Function.update_of_ne hk]
    exact ⟨h.sound c k, h.decided c k⟩

/-- A step of a call. -/
theorem submit (h : ReportInv s) (hc : c < s.begun) {answers : Answers} {s' : SubmitState}
    (hstep : s.submit c answers = some s') : ReportInv s' := by
  have hentries : ∀ i, ((s.calls c).entries i).Sound ∧ ((s.calls c).entries i).Decided :=
    fun i => ⟨h.sound c i, h.decided c i⟩
  unfold SubmitState.submit at hstep
  simp only at hstep
  split at hstep
  · cases hstep
  · rename_i hnone
    split at hstep
    · rename_i hend
      cases hstep
      exact h.setCall { s.calls c with result := some _ } hentries (h.counts c)
        ((h.calls c).finish (List.getElem?_eq_none_iff.mp hend)) s.hdr (Nat.le_refl _) hc
    · rename_i io hio
      obtain ⟨hindex, -⟩ := List.getElem?_eq_some_iff.mp hio
      split at hstep
      · rename_i rc hrc
        cases hstep
        have hreport := (h.calls c).report hnone hindex hrc (h.decided c _) (h.sound c _)
        refine h.setCall ((s.calls c).report rc) ?_ ?_ hreport s.hdr (Nat.le_refl _) hc
        · rw [SubmitCall.report_entries]
          exact hentries
        · rw [SubmitCall.report_ios]
          exact h.counts c
      · obtain ⟨done, hdone, rfl⟩ := Option.map_eq_some_iff.mp hstep
        have hok := h.counts c io (List.mem_of_getElem? hio)
        exact h.work hc ((h.sound c _).submit hok hdone).sound (Entry.Decided.submit hdone)
          ((h.calls c).work hnone hindex done.2)

/-- A step of a completion. -/
theorem complete (h : ReportInv s) (hc : c < s.begun) {j : ℕ} {s' : SubmitState}
    (hstep : s.complete c i j = some s') : ReportInv s' := by
  unfold SubmitState.complete at hstep
  split_ifs at hstep with hi
  obtain ⟨done, hdone, rfl⟩ := Option.map_eq_some_iff.mp hstep
  refine h.work hc ((h.sound c i).complete hdone).sound ((h.decided c i).complete hdone)
    ((h.calls c).complete (Entry.rc?_complete hdone) fun hwaiting => ?_)
  rw [hwaiting] at hdone
  cases hdone

end ReportInv

theorem reportInv_submission (s : SubmitState) (a : SubmitAction) (s' : SubmitState)
    (h : ReportInv s) (ha : a.CountsOk) (hstep : submission s a = some s') : ReportInv s' := by
  unfold submission at hstep
  cases a with
  | begin ios =>
    cases hstep
    refine h.setCall (SubmitCall.begin ios) (fun i => ?_) ?_ (callInv_begin ios) s.hdr
      (Nat.le_succ _) (Nat.lt_succ_self _)
    · cases ios <;> exact ⟨trivial, trivial⟩
    · cases ios with
      | none => exact fun io hio => absurd hio List.not_mem_nil
      | some ios => exact ha
  | submit c answers =>
    simp only at hstep
    split_ifs at hstep with hc
    exact h.submit hc hstep
  | complete c i j =>
    simp only at hstep
    split_ifs at hstep with hc
    exact h.complete hc hstep

/-! ## The ring -/

/-- The ring holds the events of a log, and the log has those of every entry in their order. -/
structure Logged (hdr : IoHeader) (log : List ((ℕ × ℕ) × (IoTask × ℤ))) (s : SubmitState) :
    Prop where
  ring : SameRing s.hdr (hdr.post (log.map Prod.snd))
  events : ∀ c i, (log.filter fun p => p.1 = (c, i)).map Prod.snd = (s.entry c i).events

theorem IoHeader.post_append (hdr : IoHeader) (events events' : List (IoTask × ℤ)) :
    hdr.post (events ++ events') = (hdr.post events).post events' := List.foldl_append

/-- The part of a log that is about one entry, when events of one entry are added. -/
theorem filter_map_append_tagged (log : List ((ℕ × ℕ) × (IoTask × ℤ))) (k k' : ℕ × ℕ)
    (new : List (IoTask × ℤ)) :
    ((log ++ new.map fun e => (k', e)).filter fun p => p.1 = k).map Prod.snd =
      (log.filter fun p => p.1 = k).map Prod.snd ++ if k' = k then new else [] := by
  rw [List.filter_append, List.map_append, List.filter_map, List.map_map]
  congr 1
  split_ifs with hk
  · simp [hk, Function.comp_def]
  · simp [hk, Function.comp_def]

/-- Working on an entry adds to the log what it posts. -/
theorem Logged.work {hdr : IoHeader} {log : List ((ℕ × ℕ) × (IoTask × ℤ))} {s : SubmitState}
    (h : Logged hdr log s) {c i : ℕ} {done : IoHeader × Entry}
    (hposts : Posts s.hdr done.1 (s.entry c i) done.2) :
    ∃ log', Logged hdr log' (s.work c i done) := by
  obtain ⟨new, hevents, hring⟩ := hposts
  refine ⟨log ++ new.map fun e => ((c, i), e), ?_, fun c' i' => ?_⟩
  · rw [List.map_append, List.map_map, IoHeader.post_append]
    have hnew : new.map (Prod.snd ∘ fun e => ((c, i), e)) = new := List.map_id new
    rw [hnew]
    exact hring.trans (h.ring.post new)
  · rw [filter_map_append_tagged, h.events]
    by_cases hsame : (c, i) = (c', i')
    · cases hsame
      rw [if_pos rfl, entry_work_self, hevents]
    · rw [if_neg hsame, List.append_nil, entry_work_of_ne s done fun heq => hsame heq.symm]

/-- The step completes a transfer of entry `i` of call `c`. -/
def SubmitAction.completes (c i : ℕ) : SubmitAction → Bool
  | .complete c' i' _ => c' == c && i' == i
  | _ => false

/-- A run that goes on from a state. -/
def Continues (s : SubmitState) (run : List SubmitAction) (t : SubmitState) : Prop :=
  (∀ a ∈ run, a.CountsOk) ∧ exec submission s run = some t

/-- **The control block yields one event**: there is never more than one, it is there when no
completion can be taken for it, and only so many completions can be. -/
structure YieldsOne (s : SubmitState) (c i : ℕ) : Prop where
  once : ∀ run t, Continues s run t → (t.entry c i).events.length ≤ 1
  posted : ∀ run t, Continues s run t → (∀ j, submission t (.complete c i j) = none) →
    (t.entry c i).events.length = 1
  bounded : ∃ bound : ℕ, ∀ run t, Continues s run t → run.countP (·.completes c i) ≤ bound

/-- The control block yields no event. -/
def YieldsNone (s : SubmitState) (c i : ℕ) : Prop :=
  ∀ run t, Continues s run t → (t.entry c i).events = []

/-- No transfer of the control block is issued. -/
def NeverIssued (s : SubmitState) (c i : ℕ) : Prop :=
  ∀ run t, Continues s run t → (t.entry c i).issued = false

/-- A call that has returned. -/
structure HasReturned (c : ℕ) (r : ℤ) (ios : List (Option ControlBlock)) (s : SubmitState) :
    Prop where
  inv : ReportInv s
  begun : c < s.begun
  result : (s.calls c).result = some r
  ios_eq : (s.calls c).ios = ios

section HasReturned

variable {c i : ℕ} {r : ℤ} {ios : List (Option ControlBlock)} {s s' : SubmitState}

theorem calls_setCall_of_ne {c' : ℕ} (hc : c ≠ c') (s : SubmitState) (call : SubmitCall) :
    (s.setCall c' call).calls c = s.calls c := by
  simp only [SubmitState.setCall, Function.update_of_ne hc]

/-- A step leaves the other calls alone. -/
theorem calls_submit_of_ne {c' : ℕ} (hc : c ≠ c') {answers : Answers}
    (hstep : s.submit c' answers = some s') :
    s'.calls c = s.calls c ∧ s'.begun = s.begun := by
  unfold SubmitState.submit at hstep
  simp only at hstep
  split at hstep
  · cases hstep
  · split at hstep
    · cases hstep
      exact ⟨calls_setCall_of_ne hc s _, rfl⟩
    · split at hstep
      · cases hstep
        exact ⟨calls_setCall_of_ne hc s _, rfl⟩
      · obtain ⟨done, -, rfl⟩ := Option.map_eq_some_iff.mp hstep
        exact ⟨calls_setCall_of_ne hc s _, rfl⟩

theorem HasReturned.submit_eq_none (h : HasReturned c r ios s) (answers : Answers) :
    s.submit c answers = none := by
  unfold SubmitState.submit
  simp only [h.result]

/-- A call that has returned stays as it is, completions apart. -/
theorem HasReturned.step (s : SubmitState) (a : SubmitAction) (s' : SubmitState)
    (h : HasReturned c r ios s) (ha : a.CountsOk) (hstep : submission s a = some s') :
    HasReturned c r ios s' := by
  have hinv := reportInv_submission s a s' h.inv ha hstep
  have hc := h.begun
  unfold submission at hstep
  cases a with
  | begin ios' =>
    cases hstep
    have hcalls := calls_setCall_of_ne (Nat.ne_of_lt hc) s (SubmitCall.begin ios')
    refine ⟨hinv, Nat.lt_succ_of_lt hc, ?_, ?_⟩
    · exact (congrArg SubmitCall.result hcalls).trans h.result
    · exact (congrArg SubmitCall.ios hcalls).trans h.ios_eq
  | submit c' answers =>
    simp only at hstep
    split_ifs at hstep with hc'
    by_cases heq : c = c'
    · subst heq
      rw [h.submit_eq_none] at hstep
      cases hstep
    · obtain ⟨hcalls, hbegun⟩ := calls_submit_of_ne heq hstep
      refine ⟨hinv, by rwa [hbegun], ?_, ?_⟩
      · rw [hcalls, h.result]
      · rw [hcalls, h.ios_eq]
  | complete c' i' j =>
    simp only [SubmitState.complete] at hstep
    split_ifs at hstep with hc' hi
    obtain ⟨done, -, rfl⟩ := Option.map_eq_some_iff.mp hstep
    by_cases heq : c = c'
    · subst heq
      have hself := calls_work_self s c i' done
      exact ⟨hinv, hc, by rw [hself]; exact h.result, by rw [hself]; exact h.ios_eq⟩
    · have hcalls : (s.work c' i' done).calls c = s.calls c := calls_setCall_of_ne heq s _
      exact ⟨hinv, hc, by rw [hcalls, h.result], by rw [hcalls, h.ios_eq]⟩

theorem HasReturned.exec (h : HasReturned c r ios s) {run : List SubmitAction} {t : SubmitState}
    (hrun : Continues s run t) : HasReturned c r ios t :=
  exec_invariant_of_eachStep HasReturned.step h (eachStep_of_forall hrun.1 s) hrun.2

/-- The completions that are left for an entry. -/
def Entry.remaining : Entry → ℤ
  | .plain _ _ .pending => 1
  | .vector _ segs req => req.remaining segs.length
  | _ => 0

theorem Entry.remaining_nonneg (e : Entry) : 0 ≤ e.remaining := by
  cases e with
  | waiting => exact Int.le_refl 0
  | refused rc => exact Int.le_refl 0
  | plain task seg pc => cases pc <;> simp [Entry.remaining]
  | vector task segs req => exact req.remaining_nonneg segs.length

end HasReturned

/-! ## The return value -/

/-- **The return value matches what was started.**  A positive value `r` stands for the first `r`
control blocks: each of them yields one event, and none of the others yields one or has a transfer
issued.  With a negative value no control block yields an event, and the value is the error of the
first one. -/
structure Reports (s : SubmitState) (c : ℕ) (r : ℤ) : Prop where
  le : r ≤ (s.calls c).ios.length
  started : 0 < r → ∀ i : ℕ, (i : ℤ) < r → YieldsOne s c i
  rest : 0 < r → ∀ i : ℕ, r ≤ i → YieldsNone s c i
  unissued : 0 < r → ∀ i : ℕ, r ≤ i → NeverIssued s c i
  failed : r < 0 → ∀ i, YieldsNone s c i
  error : r < 0 → (s.calls c).ios ≠ [] → (s.entry c 0).rc? = some r

section Reports

variable {c : ℕ} {r : ℤ} {s : SubmitState}

end Reports

end Aio
end Wpdk
