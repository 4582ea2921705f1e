import Wpdk.Base.Ledger
import Wpdk.Aio.Submit
import Wpdk.Aio.VectoredSettle

/-!
# `iocount` is exact

The counter of a context goes up in one place, `wpdk_aio_allocate`, and down in several: on the
completion of a plain request, on its abort, with the last share of a vectored request, and on the
abort of one.  Every step of a call or of a completion changes it by as much as the number of
requests in progress, because a vectored request is freed when it is settled, once (`VecInv`).

* `Entry.inProgress`, `SubmitState.inProgress`: the requests that are allocated and neither
  completed nor aborted.
* `Accounted`: what working on one entry does to the counter; `Entry.Sound.submit` and
  `Entry.Sound.complete` say that every step does that.
* `Stepped`: what a step of the system can be.
* `iocount_exact`: the counter along every run.
-/

namespace Wpdk
namespace Aio

open Run

/-! ## Requests in progress -/

/-- The vectored request was aborted. -/
def SubmitPc.isAborted : SubmitPc → Bool
  | .aborted _ => true
  | _ => false

/-- A task is allocated for the entry, no event was posted for it, and it was not aborted. -/
def Entry.inProgress : Entry → Bool
  | .waiting => false
  | .refused _ => false
  | .plain _ _ .issuing => true
  | .plain _ _ .pending => true
  | .plain _ _ (.completed _) => false
  | .plain _ _ (.aborted _) => false
  | .vector _ _ req => req.posted.isEmpty && !req.pc.isAborted

/-- What an entry counts for. -/
def Entry.load (e : Entry) : ℤ := if e.inProgress then 1 else 0

/-- The requests in progress of one call. -/
def SubmitCall.load (call : SubmitCall) : ℤ := total Entry.load call.entries call.ios.length

/-- The number of requests in progress. -/
def SubmitState.inProgress (s : SubmitState) : ℤ := total SubmitCall.load s.calls s.begun

/-- The control block is not a vectored request of `INT_MAX` elements or more. -/
def CountOk (io : Option ControlBlock) : Prop :=
  ∀ b, io = some b → b.aioLioOpcode = .preadv ∨ b.aioLioOpcode = .pwritev →
    b.aioNbytes.toNat < 2147483647

/-- A call is begun with counts that are not too large. -/
def SubmitAction.CountsOk : SubmitAction → Prop
  | .begin (some ios) => ∀ io ∈ ios, CountOk io
  | _ => True

/-- What is known of a vectored request: its invariant, and that it does not return an error unless
it was aborted. -/
def Entry.Sound : Entry → Prop
  | .vector _ segs req => (∃ m, VecInv segs m req) ∧ ∀ rc, req.pc = .returned rc → 0 ≤ rc
  | _ => True

theorem Entry.load_nonneg (e : Entry) : 0 ≤ e.load := by
  unfold Entry.load
  split
  · exact Int.one_nonneg
  · exact Int.le_refl 0

theorem SubmitState.inProgress_nonneg (s : SubmitState) : 0 ≤ s.inProgress := by
  unfold SubmitState.inProgress SubmitCall.load total
  exact Finset.sum_nonneg fun _ _ => Finset.sum_nonneg fun _ _ => Entry.load_nonneg _

/-- A vectored request is in progress until it is freed. -/
theorem load_vector {segs : List Segment} {m : ℕ} {req : VecRequest} (h : VecInv segs m req)
    (task : IoTask) : (Entry.vector task segs req).load = 1 - req.freed := by
  unfold Entry.load Entry.inProgress
  rcases h.settled with ⟨hposted, hfreed⟩ | ⟨-, ⟨hposted, hfreed⟩ | ⟨-, hfreed, rc, hpc, -⟩⟩
  · have hpc : req.pc.isAborted = false := by
      cases hcase : req.pc with
      | aborted rc =>
        have hledger := h.ledger
        simp only [Ledger, hcase] at hledger
        omega
      | _ => rfl
    simp [hposted, hfreed, hpc]
  · simp [hposted, hfreed]
  · simp [hpc, hfreed, SubmitPc.isAborted]

/-- A request that is reported as failed is not in progress. -/
theorem Entry.Sound.load_of_failed {e : Entry} (h : e.Sound) {rc : ℤ} (hrc : e.rc? = some rc)
    (hneg : rc < 0) : e.load = 0 := by
  cases e with
  | waiting => rfl
  | refused rc => rfl
  | plain task seg pc =>
    cases pc with
    | issuing => cases hrc
    | pending =>
      cases hrc
      exact absurd hneg (Int.lt_irrefl 0)
    | completed res => rfl
    | aborted error => rfl
  | vector task segs req =>
    have hpc : req.pc.rc? = some rc := hrc
    cases hcase : req.pc with
    | aborted rc' => simp [Entry.load, Entry.inProgress, hcase, SubmitPc.isAborted]
    | returned rc' =>
      rw [hcase] at hpc
      cases hpc
      exact absurd (h.2 rc hcase) (Int.not_le.mpr hneg)
    | _ =>
      rw [hcase] at hpc
      cases hpc

/-! ## The counter -/

/-- An allocation that succeeds has found room. -/
theorem iocount_of_aioAllocate {hdr hdr' : IoHeader} {iocb : Iocb} {mem : Bool} {task : IoTask}
    (h : aioAllocate hdr iocb mem = some (task, hdr')) :
    hdr'.iocount = hdr.iocount + 1 ∧ hdr.iocount < hdr.context.size ∧
      hdr'.context.size = hdr.context.size := by
  obtain ⟨-, hroom, -, rfl⟩ := aioAllocate_eq_some_iff.mp h
  exact ⟨rfl, hroom, rfl⟩

/-- **What working on an entry does to the counter.** -/
structure Accounted (hdr hdr' : IoHeader) (e e' : Entry) : Prop where
  sound : e'.Sound
  count : hdr'.iocount - hdr.iocount = e'.load - e.load
  size : hdr'.context.size = hdr.context.size
  le : hdr.iocount ≤ hdr.context.size → hdr'.iocount ≤ hdr.context.size

theorem accounted_refused (hdr : IoHeader) (rc : ℤ) :
    Accounted hdr hdr .waiting (.refused rc) :=
  ⟨trivial, Int.sub_self _, rfl, id⟩

theorem accounted_allocated {hdr hdr' : IoHeader} {iocb : Iocb} {mem : Bool} {task : IoTask}
    (h : aioAllocate hdr iocb mem = some (task, hdr')) {e : Entry} (he : e.Sound)
    (hload : e.load = 1) : Accounted hdr hdr' .waiting e := by
  obtain ⟨hcount, hroom, hsize⟩ := iocount_of_aioAllocate h
  have hwaiting : Entry.waiting.load = 0 := rfl
  refine ⟨he, ?_, hsize, fun _ => ?_⟩ <;> omega

theorem accounted_settled {hdr hdr' : IoHeader} {e e' : Entry}
    (hcount : hdr'.iocount = hdr.iocount - 1) (hsize : hdr'.context.size = hdr.context.size)
    (hload : e.load = 1) (he' : e'.Sound) (hload' : e'.load = 0) : Accounted hdr hdr' e e' := by
  refine ⟨he', ?_, hsize, fun _ => ?_⟩ <;> omega

theorem intOf_of_lt {n : BitVec 64} (h : n.toNat < 2147483647) : intOf n = n.toNat := by
  have hwidth : (n.setWidth 32).toNat = n.toNat := by
    rw [BitVec.toNat_setWidth]
    exact Nat.mod_eq_of_lt (by omega)
  rw [intOf, BitVec.toInt_eq_toNat_of_lt (by omega), hwidth]

/-- A vectored request of a count that is in range begins with its invariant. -/
theorem vecInv_begin {b : ControlBlock} (hpos : 1 ≤ b.aioNbytes.toNat) (hone : b.aioNbytes ≠ 1)
    (hlt : b.aioNbytes.toNat < 2147483647) (os : TransferOracle) (call : FileCall) :
    VecInv (segmentsOf os call ((List.range (intOf b.aioNbytes).toNat).map b.iovLen)) 0
      (aioAllocateVector ((List.range (intOf b.aioNbytes).toNat).map b.iovLen).length) := by
  have hne : b.aioNbytes.toNat ≠ 1 := fun h => hone (BitVec.eq_of_toNat_eq h)
  rw [← length_segmentsOf os call]
  refine vecInv_start ?_
  rw [length_segmentsOf, List.length_map, List.length_range, intOf_of_lt hlt, Int.toNat_natCast]
  omega

theorem accounted_startEntry (hdr : IoHeader) {io : Option ControlBlock} (hio : CountOk io)
    (answers : Answers) :
    Accounted hdr (startEntry hdr io answers).1 .waiting (startEntry hdr io answers).2 := by
  generalize hdone : startEntry hdr io answers = done
  cases looked_startEntry hdone with
  | refused hneg => exact accounted_refused hdr _
  | plain halloc => exact accounted_allocated halloc trivial rfl
  | vector hb hop hpos hone halloc =>
    have hinv := vecInv_begin hpos hone (hio _ hb hop) answers.os
    refine accounted_allocated halloc ⟨⟨0, hinv _⟩, fun rc hrc => nomatch hrc⟩ ?_
    rw [load_vector (hinv _)]
    rfl

theorem accounted_issuePlain (hdr : IoHeader) (task : IoTask) (seg : Segment) :
    Accounted hdr (issuePlain hdr task seg).1 (.plain task seg .issuing)
      (issuePlain hdr task seg).2 := by
  unfold issuePlain
  cases seg.issued with
  | inline nbytes => exact accounted_settled rfl rfl rfl trivial rfl
  | later res => exact ⟨trivial, Int.sub_self _, rfl, id⟩
  | failed error => exact accounted_settled rfl rfl rfl trivial rfl

/-! ## Vectored requests -/

/-- A request posts results and is freed, once for each of them and possibly more often. -/
def Settles (req req' : VecRequest) : Prop :=
  ∃ posted extra, req'.posted = req.posted ++ posted ∧
    req'.freed = req.freed + posted.length + extra

theorem settles_refl (req : VecRequest) : Settles req req :=
  ⟨[], 0, (List.append_nil _).symm, rfl⟩

theorem settles_aioIovDone (n : ℕ) (count : ℤ) (req : VecRequest) :
    Settles req (aioIovDone n count req) := by
  by_cases hlast : req.active - count = 0
  · rw [aioIovDone_of_eq hlast]
    exact ⟨[iovScan req.task 0 n 0], 0, rfl, rfl⟩
  · rw [aioIovDone_of_ne hlast]
    exact settles_refl req

theorem settles_submitStep {segs : List Segment} {req req' : VecRequest}
    (h : submitStep segs req = some req') :
    Settles req req' ∧ ∀ rc, req'.pc = .returned rc → rc = 0 ∨ rc = Errno.eintr.code := by
  cases submitted_of_submitStep h with
  | finish hpc hseg =>
    exact ⟨settles_aioIovDone _ _ _, fun rc hrc => Or.inl (SubmitPc.returned.inj hrc).symm⟩
  | inline hpc hseg hissued => exact ⟨settles_refl req, fun rc hrc => nomatch hrc⟩
  | later hpc hseg hissued => exact ⟨settles_refl req, fun rc hrc => nomatch hrc⟩
  | failed hpc hseg hissued => exact ⟨settles_refl req, fun rc hrc => nomatch hrc⟩
  | transferred hpc hseg =>
    refine ⟨settles_aioIovDone _ _ (req.setTask _ _), fun rc hrc => ?_⟩
    simp only at hrc
    split_ifs at hrc
  | short hpc =>
    exact ⟨settles_aioIovDone _ _ _, fun rc hrc => Or.inl (SubmitPc.returned.inj hrc).symm⟩
  | abort hpc => exact ⟨settles_aioIovDone _ _ (req.setTask _ _), fun rc hrc => nomatch hrc⟩
  | free hpc hone =>
    exact ⟨⟨[], 1, (List.append_nil _).symm, rfl⟩, fun rc hrc => nomatch hrc⟩
  | keep hpc hmore => exact ⟨settles_refl req, fun rc hrc => nomatch hrc⟩
  | giveUp hpc =>
    exact ⟨settles_aioIovDone _ _ _, fun rc hrc => Or.inr (SubmitPc.returned.inj hrc).symm⟩

theorem settles_completeStep {segs : List Segment} {j : ℕ} {req req' : VecRequest}
    (h : completeStep segs j req = some req') : Settles req req' ∧ req'.pc = req.pc := by
  unfold completeStep at h
  split at h
  · cases h
  · split at h
    · cases h
      exact ⟨settles_refl req, rfl⟩
    · cases h
      exact ⟨settles_aioIovDone _ _ (req.setTask j _), aioIovDone_pc _ _ _⟩
    · cases h

theorem settles_vectorStep {segs : List Segment} {move : Move} {req req' : VecRequest}
    (h : vectorStep segs req move = some req') (hreq : ∀ rc, req.pc = .returned rc → 0 ≤ rc) :
    Settles req req' ∧ ∀ rc, req'.pc = .returned rc → 0 ≤ rc := by
  cases move with
  | submit =>
    obtain ⟨hsettles, hreturned⟩ := settles_submitStep h
    refine ⟨hsettles, fun rc hrc => ?_⟩
    rcases hreturned rc hrc with rfl | rfl <;> decide
  | complete j =>
    obtain ⟨hsettles, hpc⟩ := settles_completeStep h
    rw [hpc]
    exact ⟨hsettles, hreq⟩

theorem iocount_foldl_aioTaskDone (task : IoTask) (posted : List ℤ) (hdr : IoHeader) :
    (posted.foldl (fun h res => aioTaskDone h task res) hdr).iocount =
        hdr.iocount - posted.length ∧
      (posted.foldl (fun h res => aioTaskDone h task res) hdr).context.size =
        hdr.context.size := by
  induction posted generalizing hdr with
  | nil => exact ⟨(Int.sub_zero _).symm, rfl⟩
  | cons res posted ih =>
    obtain ⟨hcount, hsize⟩ := ih (aioTaskDone hdr task res)
    have hdone : (aioTaskDone hdr task res).iocount = hdr.iocount - 1 := rfl
    refine ⟨?_, hsize⟩
    rw [List.foldl_cons, hcount, hdone, List.length_cons]
    omega

theorem iocount_iterate_aioFree (k : ℕ) (hdr : IoHeader) :
    (aioFree^[k] hdr).iocount = hdr.iocount - k ∧
      (aioFree^[k] hdr).context.size = hdr.context.size := by
  induction k generalizing hdr with
  | zero => exact ⟨(Int.sub_zero _).symm, rfl⟩
  | succ k ih =>
    obtain ⟨hcount, hsize⟩ := ih (aioFree hdr)
    have hfree : (aioFree hdr).iocount = hdr.iocount - 1 := rfl
    refine ⟨?_, hsize⟩
    rw [Function.iterate_succ_apply, hcount, hfree]
    omega

theorem iocount_settleVector {req req' : VecRequest} (h : Settles req req') (hdr : IoHeader)
    (task : IoTask) :
    (settleVector hdr task req req').iocount = hdr.iocount - (req'.freed - req.freed) ∧
      (settleVector hdr task req req').context.size = hdr.context.size ∧
      req.freed ≤ req'.freed := by
  obtain ⟨posted, extra, hposted, hfreed⟩ := h
  have hdrop : req'.posted.drop req.posted.length = posted := by
    rw [hposted, List.drop_left]
  have hextra : req'.freed - req.freed - posted.length = extra := by omega
  unfold settleVector
  simp only [hdrop, hextra]
  obtain ⟨hdone, hdoneSize⟩ := iocount_foldl_aioTaskDone task posted hdr
  obtain ⟨hfree, hfreeSize⟩ := iocount_iterate_aioFree extra
    (posted.foldl (fun h res => aioTaskDone h task res) hdr)
  refine ⟨?_, hfreeSize.trans hdoneSize, by omega⟩
  rw [hfree, hdone, hfreed]
  push_cast
  omega

/-- A vectored request lowers the counter when it is settled. -/
theorem accounted_moveVector {hdr : IoHeader} {task : IoTask} {segs : List Segment}
    {req : VecRequest} {move : Move} {done : IoHeader × Entry}
    (he : (Entry.vector task segs req).Sound)
    (h : moveVector hdr task segs req move = some done) :
    Accounted hdr done.1 (.vector task segs req) done.2 := by
  obtain ⟨req', hmove, rfl⟩ := Option.map_eq_some_iff.mp h
  obtain ⟨⟨m, hinv⟩, hreturned⟩ := he
  obtain ⟨m', hinv'⟩ := vecInv_vectorStep req move req' ⟨m, hinv⟩ hmove
  obtain ⟨hsettles, hreturned'⟩ := settles_vectorStep hmove hreturned
  obtain ⟨hcount, hsize, hfreed⟩ := iocount_settleVector hsettles hdr task
  refine ⟨⟨⟨m', hinv'⟩, hreturned'⟩, ?_, hsize, fun hle => ?_⟩
  · rw [load_vector hinv, load_vector hinv', hcount]
    omega
  · simp only [hcount]
    omega

/-! ## One entry -/

/-- **A step of a call changes the counter as it changes the requests in progress.** -/
theorem Entry.Sound.submit {e : Entry} (he : e.Sound) {hdr : IoHeader} {io : Option ControlBlock}
    (hio : CountOk io) {answers : Answers} {done : IoHeader × Entry}
    (h : e.submit hdr io answers = some done) : Accounted hdr done.1 e done.2 := by
  rcases Entry.submit_cases h with ⟨rfl, rfl⟩ | ⟨task, seg, rfl, rfl⟩ | ⟨task, segs, req, rfl, h⟩
  · exact accounted_startEntry hdr hio answers
  · exact accounted_issuePlain hdr task seg
  · exact accounted_moveVector he h

/-- So does a step of a completion. -/
theorem Entry.Sound.complete {e : Entry} (he : e.Sound) {hdr : IoHeader} {j : ℕ}
    {done : IoHeader × Entry} (h : e.complete hdr j = some done) :
    Accounted hdr done.1 e done.2 := by
  rcases Entry.complete_cases h with ⟨task, seg, res, rfl, -, rfl⟩ | ⟨task, segs, req, rfl, h⟩
  · exact accounted_settled rfl rfl rfl trivial rfl
  · exact accounted_moveVector he h

/-! ## The system -/

/-- **What a step can be**: a call begins; a call moves on, without touching the header; or an entry
is worked on. -/
inductive Stepped (s : SubmitState) : SubmitAction → SubmitState → Prop where
  | begun (ios : Option (List (Option ControlBlock))) :
    Stepped s (.begin ios)
      { s.setCall s.begun (SubmitCall.begin ios) with begun := s.begun + 1 }
  | moved {c : ℕ} {answers : Answers} {call : SubmitCall} (hios : call.ios = (s.calls c).ios)
    (hentries : call.entries = (s.calls c).entries) :
    Stepped s (.submit c answers) (s.setCall c call)
  | worked {a : SubmitAction} {c i : ℕ} {done : IoHeader × Entry} (hc : c < s.begun)
    (hi : i < (s.calls c).ios.length) (htarget : a.target s = some (c, i))
    (hdone : (∃ io ∈ (s.calls c).ios, ∃ answers,
        (s.entry c i).submit s.hdr io answers = some done) ∨
      ∃ j, (s.entry c i).complete s.hdr j = some done) :
    Stepped s a (s.work c i done)

theorem SubmitCall.report_ios (call : SubmitCall) (rc : ℤ) : (call.report rc).ios = call.ios := by
  unfold SubmitCall.report
  split_ifs <;> rfl

theorem SubmitCall.report_entries (call : SubmitCall) (rc : ℤ) :
    (call.report rc).entries = call.entries := by
  unfold SubmitCall.report
  split_ifs <;> rfl

/-- A step at an entry that has not returned yet works on it. -/
theorem submit_of_rc?_eq_none {s : SubmitState} {c : ℕ} {io : Option ControlBlock}
    (hresult : (s.calls c).result = none)
    (hio : (s.calls c).ios[(s.calls c).index]? = some io)
    (hrc : (s.entry c (s.calls c).index).rc? = none) (answers : Answers) :
    s.submit c answers = ((s.entry c (s.calls c).index).submit s.hdr io answers).map fun done =>
      s.work c (s.calls c).index done := by
  have hrc' : ((s.calls c).entries (s.calls c).index).rc? = none := hrc
  unfold SubmitState.submit
  simp only [hresult, hio, hrc']
  rfl

/-- A step at an entry that has returned looks at the return code. -/
theorem submit_of_rc?_eq_some {s : SubmitState} {c : ℕ} {io : Option ControlBlock} {rc : ℤ}
    (hresult : (s.calls c).result = none)
    (hio : (s.calls c).ios[(s.calls c).index]? = some io)
    (hrc : (s.entry c (s.calls c).index).rc? = some rc) (answers : Answers) :
    s.submit c answers = some (s.setCall c ((s.calls c).report rc)) := by
  have hrc' : ((s.calls c).entries (s.calls c).index).rc? = some rc := hrc
  unfold SubmitState.submit
  simp only [hresult, hio, hrc']

theorem stepped_submit {s s' : SubmitState} {c : ℕ} {answers : Answers} (hc : c < s.begun)
    (h : s.submit c answers = some s') : Stepped s (.submit c answers) s' := by
  unfold SubmitState.submit at h
  simp only at h
  split at h
  · cases h
  · split at h
    · cases h
      exact .moved rfl rfl
    · rename_i io hio
      split at h
      · cases h
        exact .moved (SubmitCall.report_ios _ _) (SubmitCall.report_entries _ _)
      · obtain ⟨done, hdone, rfl⟩ := Option.map_eq_some_iff.mp h
        obtain ⟨hi, -⟩ := List.getElem?_eq_some_iff.mp hio
        exact .worked hc hi rfl (Or.inl ⟨io, List.mem_of_getElem? hio, answers, hdone⟩)

theorem stepped_of_submission {s s' : SubmitState} {a : SubmitAction}
    (h : submission s a = some s') : Stepped s a s' := by
  unfold submission at h
  cases a with
  | begin ios =>
    cases h
    exact .begun ios
  | submit c answers =>
    simp only at h
    split_ifs at h with hc
    exact stepped_submit hc h
  | complete c i j =>
    simp only [SubmitState.complete] at h
    split_ifs at h with hc hi
    obtain ⟨done, hdone, rfl⟩ := Option.map_eq_some_iff.mp h
    exact .worked hc hi rfl (Or.inr ⟨j, hdone⟩)

/-- What a run keeps. -/
structure IocountInv (n : ℕ) (s : SubmitState) : Prop where
  size : s.hdr.context.size = n
  count : s.hdr.iocount = s.inProgress
  le : s.hdr.iocount ≤ n
  sound : ∀ c i, (s.entry c i).Sound
  counts : ∀ c, ∀ io ∈ (s.calls c).ios, CountOk io
  unbegun : ∀ c i, s.begun ≤ c → s.entry c i = .waiting

theorem load_begin (ios : Option (List (Option ControlBlock))) :
    (SubmitCall.begin ios).load = 0 := by
  cases ios with
  | none => exact total_eq_zero fun _ _ => rfl
  | some ios => exact total_eq_zero fun _ _ => rfl

theorem entry_begin (s : SubmitState) (ios : Option (List (Option ControlBlock))) (c i : ℕ) :
    (s.setCall s.begun (SubmitCall.begin ios)).entry c i =
      if c = s.begun then .waiting else s.entry c i := by
  unfold SubmitState.entry SubmitState.setCall
  by_cases hc : c = s.begun
  · subst hc
    cases ios <;> simp [SubmitCall.begin]
  · simp [hc]

theorem entry_setCall (s : SubmitState) {c : ℕ} {call : SubmitCall}
    (hentries : call.entries = (s.calls c).entries) (c' i : ℕ) :
    (s.setCall c call).entry c' i = s.entry c' i := by
  unfold SubmitState.entry SubmitState.setCall
  by_cases hc : c' = c
  · subst hc
    simp [hentries]
  · simp [hc]

theorem calls_setCall_self (s : SubmitState) (c : ℕ) (call : SubmitCall) :
    (s.setCall c call).calls c = call := by
  simp only [SubmitState.setCall, Function.update_self]

/-- What holds of all calls holds when one of them is replaced by one that it holds of. -/
theorem forall_calls_setCall {P : SubmitCall → Prop} {s : SubmitState} (c : ℕ) {call : SubmitCall}
    (hcall : P call) (h : ∀ c', P (s.calls c')) (c' : ℕ) : P ((s.setCall c call).calls c') := by
  by_cases hc : c' = c
  · rw [hc, calls_setCall_self]
    exact hcall
  · simp only [SubmitState.setCall, Function.update_of_ne hc]
    exact h c'

theorem calls_work_self (s : SubmitState) (c i : ℕ) (done : IoHeader × Entry) :
    (s.work c i done).calls c = (s.calls c).setEntry i done.2 :=
  calls_setCall_self s c _

theorem entry_work_self (s : SubmitState) (c i : ℕ) (done : IoHeader × Entry) :
    (s.work c i done).entry c i = done.2 := by
  simp [SubmitState.entry, SubmitState.work, SubmitState.setCall, SubmitCall.setEntry]

theorem entry_work_of_ne (s : SubmitState) {c i c' i' : ℕ} (done : IoHeader × Entry)
    (hne : (c', i') ≠ (c, i)) : (s.work c i done).entry c' i' = s.entry c' i' := by
  unfold SubmitState.entry SubmitState.work SubmitState.setCall SubmitCall.setEntry
  by_cases hc : c' = c
  · subst hc
    have hi : i' ≠ i := fun h => hne (by rw [h])
    simp [hi]
  · simp [hc]

/-- The number of requests in progress changes with the entry that is worked on. -/
theorem inProgress_work {s : SubmitState} {c i : ℕ} (hc : c < s.begun)
    (hi : i < (s.calls c).ios.length) (done : IoHeader × Entry) :
    (s.work c i done).inProgress - s.inProgress = done.2.load - (s.entry c i).load := by
  have hentry : ((s.calls c).setEntry i done.2).load + (s.entry c i).load =
      (s.calls c).load + done.2.load := total_update Entry.load (s.calls c).entries hi done.2
  have hcall : (s.work c i done).inProgress + (s.calls c).load =
      s.inProgress + ((s.calls c).setEntry i done.2).load :=
    total_update SubmitCall.load s.calls hc ((s.calls c).setEntry i done.2)
  omega

theorem accounted_worked {n : ℕ} {s : SubmitState} (h : IocountInv n s) {c i : ℕ}
    {done : IoHeader × Entry}
    (hdone : (∃ io ∈ (s.calls c).ios, ∃ answers,
        (s.entry c i).submit s.hdr io answers = some done) ∨
      ∃ j, (s.entry c i).complete s.hdr j = some done) :
    Accounted s.hdr done.1 (s.entry c i) done.2 := by
  rcases hdone with ⟨io, hio, answers, hdone⟩ | ⟨j, hdone⟩
  · exact (h.sound c i).submit (h.counts c io hio) hdone
  · exact (h.sound c i).complete hdone

namespace IocountInv

variable {n : ℕ} {s : SubmitState} {c i : ℕ}

/-- A call begins. -/
theorem begin (h : IocountInv n s) {ios : Option (List (Option ControlBlock))}
    (hios : (SubmitAction.begin ios).CountsOk) :
    IocountInv n { s.setCall s.begun (SubmitCall.begin ios) with begun := s.begun + 1 } where
  size := h.size
  count := by
    have hpush : (SubmitState.inProgress
        { s.setCall s.begun (SubmitCall.begin ios) with begun := s.begun + 1 }) =
        s.inProgress + (SubmitCall.begin ios).load := total_push SubmitCall.load s.calls s.begun _
    rw [hpush, load_begin, Int.add_zero]
    exact h.count
  le := h.le
  sound := by
    intro c i
    have hentry := entry_begin s ios c i
    change ((s.setCall s.begun (SubmitCall.begin ios)).entry c i).Sound
    rw [hentry]
    split
    · trivial
    · exact h.sound c i
  counts := by
    refine forall_calls_setCall (P := fun call => ∀ io ∈ call.ios, CountOk io) s.begun ?_
      h.counts
    cases ios with
    | none => exact fun io hio => absurd hio List.not_mem_nil
    | some ios => exact hios
  unbegun := by
    intro c i hc
    have hlt : s.begun < c := hc
    have hentry := entry_begin s ios c i
    rw [if_neg (Nat.ne_of_gt hlt)] at hentry
    exact hentry.trans (h.unbegun c i (Nat.le_of_lt hlt))

/-- A call moves on. -/
theorem moved (h : IocountInv n s) {call : SubmitCall} (hios : call.ios = (s.calls c).ios)
    (hentries : call.entries = (s.calls c).entries) : IocountInv n (s.setCall c call) where
  size := h.size
  count := by
    have hload : call.load = (s.calls c).load := by
      rw [SubmitCall.load, SubmitCall.load, hios, hentries]
    rw [SubmitState.inProgress, SubmitState.setCall,
      total_update_same SubmitCall.load s.calls hload]
    exact h.count
  le := h.le
  sound := by
    intro c' i
    rw [entry_setCall s hentries]
    exact h.sound c' i
  counts := by
    refine forall_calls_setCall (P := fun call => ∀ io ∈ call.ios, CountOk io) c ?_ h.counts
    rw [hios]
    exact h.counts c
  unbegun := by
    intro c' i hc
    rw [entry_setCall s hentries]
    exact h.unbegun c' i hc

/-- An entry is worked on. -/
theorem worked (h : IocountInv n s) (hc : c < s.begun) (hi : i < (s.calls c).ios.length)
    {done : IoHeader × Entry} (hdone : Accounted s.hdr done.1 (s.entry c i) done.2) :
    IocountInv n (s.work c i done) where
  size := hdone.size.trans h.size
  count := by
    have hprogress := inProgress_work hc hi done
    have hcount := hdone.count
    have hbefore := h.count
    change done.1.iocount = _
    omega
  le := by
    have hle := hdone.le
    rw [h.size] at hle
    exact hle h.le
  sound := by
    intro c' i'
    by_cases hsame : (c', i') = (c, i)
    · cases hsame
      rw [entry_work_self]
      exact hdone.sound
    · rw [entry_work_of_ne s done hsame]
      exact h.sound c' i'
  counts := forall_calls_setCall (P := fun call => ∀ io ∈ call.ios, CountOk io) c (h.counts c)
    h.counts
  unbegun := by
    intro c' i' hc'
    have hbegun : s.begun ≤ c' := hc'
    have hne : (c', i') ≠ (c, i) := by
      intro hsame
      cases hsame
      omega
    rw [entry_work_of_ne s done hne]
    exact h.unbegun c' i' hbegun

end IocountInv

/-- **Every step keeps the counter equal to the number of requests in progress.** -/
theorem iocountInv_submission {n : ℕ} (s : SubmitState) (a : SubmitAction) (s' : SubmitState)
    (h : IocountInv n s) (ha : a.CountsOk) (hstep : submission s a = some s') :
    IocountInv n s' := by
  cases stepped_of_submission hstep with
  | begun ios => exact h.begin ha
  | moved hios hentries => exact h.moved hios hentries
  | worked hc hi htarget hdone => exact h.worked hc hi (accounted_worked h hdone)

/-- A step changes the counter on behalf of its control block, by as much as it changes the load
of that. -/
theorem load_submission {n : ℕ} {c i : ℕ} (s : SubmitState) (a : SubmitAction) (s' : SubmitState)
    (h : IocountInv n s) (hstep : submission s a = some s') :
    (s'.entry c i).load - (s.entry c i).load =
      if a.target s = some (c, i) then s'.hdr.iocount - s.hdr.iocount else 0 := by
  cases stepped_of_submission hstep with
  | begun ios =>
    have hentry : (SubmitState.entry { s.setCall s.begun (SubmitCall.begin ios) with
        begun := s.begun + 1 } c i) = s.entry c i := by
      refine (entry_begin s ios c i).trans ?_
      split_ifs with hc
      · exact (h.unbegun c i (Nat.le_of_eq hc.symm)).symm
      · rfl
    rw [hentry, Int.sub_self]
    rfl
  | moved hios hentries =>
    rw [entry_setCall s hentries, Int.sub_self]
    split_ifs
    · exact (Int.sub_self _).symm
    · rfl
  | @worked a c' i' done hc hi htarget hdone =>
    rw [htarget]
    by_cases hsame : (c', i') = (c, i)
    · cases hsame
      rw [if_pos rfl, entry_work_self]
      exact (accounted_worked h hdone).count.symm
    · have hne : (c, i) ≠ (c', i') := fun heq => hsame heq.symm
      rw [if_neg fun heq => hsame (Option.some.inj heq), entry_work_of_ne s done hne,
        Int.sub_self]

/-- **`iocount` is exact.**  In every state of every run it is the number of requests in progress,
and between zero and the size of the context; and all steps that were taken on behalf of a control
block that was refused or reported as failed have together left it as it was. -/
theorem iocount_exact {maxevents : ℤ} {ctxp : Option (Option IoHeader)} {mem : Bool}
    {hdr : IoHeader} (hsetup : ioSetup maxevents ctxp mem = .ok hdr) (run : List SubmitAction)
    (hcounts : ∀ a ∈ run, a.CountsOk) {s : SubmitState}
    (h : exec submission (.start hdr) run = some s) :
    s.hdr.iocount = s.inProgress ∧ 0 ≤ s.hdr.iocount ∧ s.hdr.iocount ≤ maxevents ∧
      ∀ c i rc, (s.entry c i).rc? = some rc → rc < 0 →
        contribution submission (fun s a => a.target s) (fun s => s.hdr.iocount) (c, i)
          (.start hdr) run = 0 := by
  obtain ⟨-, hsize, hzero, -⟩ := ioSetup_ok hsetup
  have hstart : IocountInv hdr.context.size (.start hdr) := by
    refine ⟨rfl, hzero, ?_, fun _ _ => trivial, fun _ _ hio => ?_, fun _ _ _ => rfl⟩
    · change hdr.iocount ≤ _
      omega
    · exact absurd hio List.not_mem_nil
  have heach : EachStep submission (fun _ a => a.CountsOk) (.start hdr) run :=
    eachStep_of_forall hcounts _
  have hinv := exec_invariant_of_eachStep iocountInv_submission hstart heach h
  refine ⟨hinv.count, ?_, ?_, ?_⟩
  · rw [hinv.count]
    exact s.inProgress_nonneg
  · have hle := hinv.le
    omega
  · intro c i rc hrc hneg
    have hcontribution := contribution_eq (e := fun s => (s.entry c i).load) (k := (c, i))
      iocountInv_submission (fun s a s' hs _ => load_submission s a s' hs) hstart heach h
    rw [hcontribution, (hinv.sound c i).load_of_failed hrc hneg]
    rfl

/-! ## A run -/

/-- A read of eight bytes. -/
def sampleRead : ControlBlock := ⟨⟨100, 7⟩, .pread, 3, 8, fun _ => 0⟩

/-- The descriptor is good, there is memory, and every transfer stays pending. -/
def samplePending : Answers := ⟨fun _ => true, true, fun _ _ _ => ⟨.later 0, Int.natCast_nonneg _⟩⟩

/-- Two reads are submitted to a context for one event; the second one is refused with `EAGAIN`, and
the first one completes. -/
def sampleRun : List SubmitAction :=
  [.begin (some [some sampleRead, some sampleRead]), .submit 0 samplePending,
    .submit 0 samplePending, .submit 0 samplePending, .submit 0 samplePending,
    .submit 0 samplePending, .complete 0 0 0]

theorem iocount_exact_sample : ∃ s,
    exec submission (.start (.init 1 Nat.one_pos)) sampleRun = some s ∧
      (s.calls 0).result = some 1 ∧ (s.entry 0 1).rc? = some (-11) ∧ s.hdr.iocount = 0 ∧
      contribution submission (fun s a => a.target s) (fun s => s.hdr.iocount) (0, 1)
        (.start (.init 1 Nat.one_pos)) sampleRun = 0 := by
  have hcounts : ∀ a ∈ sampleRun, a.CountsOk := by
    intro a ha
    simp only [sampleRun, List.mem_cons, List.not_mem_nil, or_false] at ha
    rcases ha with rfl | rfl | rfl | rfl | rfl | rfl | rfl <;>
      simp [SubmitAction.CountsOk, CountOk, sampleRead]
  have hsetup : ioSetup 1 (some none) true = .ok (.init 1 Nat.one_pos) := rfl
  exact ⟨_, rfl, rfl, rfl, rfl,
    (iocount_exact hsetup sampleRun hcounts rfl).2.2.2 0 1 (-11) rfl (by decide)⟩

end Aio
end Wpdk
