import Mathlib.Algebra.BigOperators.Group.List.Basic
import Wpdk.Base.Signed
import Wpdk.Aio.Iocount

/-!
# The count of a vectored request

`io_prep_preadv` and `io_prep_pwritev` store an `int` count in the `size_t` field `aio_nbytes`.
`wpdk_aio_validate_iovec` compares it with one as a `size_t` and loops to it as an `int`;
`wpdk_io_submit` compares it with one as a `size_t` and passes it on as an `int`; and
`wpdk_aio_allocate` adds one to that.

Below `INT_MAX` all of them mean the same number.  Behind that they do not.  A count that is
negative as an `int` passes the check, because nothing is looked at, and starts a request without
segments: its share of `active` is given back before there was one, so it never completes.  A count
that is one as an `int` and not as a `size_t` takes the vectored path with a single task, and its
segment uses the one behind it.  At `INT_MAX` the addition overflows.

* `ioPrepPreadv`, `ioPrepPwritev`, `taskCount`: where the count comes from, and how many tasks
  there are for it.
* `entryStep`: the steps of a single control block.
* `VectorCount`: what is accepted is processed, what is not is refused without a trace.
* `vector_count_iff`: when that holds.
-/

namespace Wpdk
namespace Aio

open Run

/-! ## Where the count goes -/

/-- The two functions below: the conversion of the count to `size_t` extends its sign. -/
def ioPrepVector (op : Opcode) (addr : ℕ) (fd : ℤ) (iovLen : ℕ → ℕ) (iovcnt : ℤ) :
    ControlBlock :=
  ⟨⟨addr, 0⟩, op, fd, BitVec.ofInt 64 iovcnt, iovLen⟩

/-- `io_prep_preadv`. -/
def ioPrepPreadv : ℕ → ℤ → (ℕ → ℕ) → ℤ → ControlBlock := ioPrepVector .preadv

/-- `io_prep_pwritev`. -/
def ioPrepPwritev : ℕ → ℤ → (ℕ → ℕ) → ℤ → ControlBlock := ioPrepVector .pwritev

/-- The number of tasks that `wpdk_aio_allocate` allocates. -/
def taskCount (iovcnt : ℤ) : Option ℤ :=
  if iovcnt > 1 then IntType.int32.value (iovcnt + 1) else some 1

/-- A step for a control block: one of the call, or one of a completion. -/
def entryStep (io : ControlBlock) (answers : Answers) (s : IoHeader × Entry) :
    Move → Option (IoHeader × Entry)
  | .submit => s.2.submit s.1 (some io) answers
  | .complete j => s.2.complete s.1 j

/-- The number of transfers that were issued for an entry. -/
def Entry.transfers : Entry → ℕ
  | .waiting => 0
  | .refused _ => 0
  | .plain _ _ .issuing => 0
  | .plain _ _ _ => 1
  | .vector _ segs req =>
    (List.range segs.length).countP fun j => (req.task j).phase ≠ .unissued

/-- The tasks of its array that a request uses: the first is its own, and those behind it belong to
the segments. -/
def Entry.UsesTask : Entry → ℕ → Prop
  | .waiting, _ => False
  | .refused _, _ => False
  | .plain _ _ _, k => k = 0
  | .vector _ segs _, k => k ≤ segs.length

/-- A transfer that moves all that was asked for, now or later. -/
def Outcome.Full (len : ℕ) (o : Outcome) : Prop := o = .inline len ∨ o = .later len

/-- Nothing stands in the way of a request: no error, and no short transfer. -/
structure Unhindered (hdr : IoHeader) (io : ControlBlock) (answers : Answers) : Prop where
  handle : answers.osfhandle io.aioFildes = true
  mem : answers.mem = true
  room : hdr.iocount < hdr.context.size
  full : ∀ call i len, (answers.os call i len).1.Full len

/-- **The count is processed**: without errors and short transfers as many segments are issued as
`aio_nbytes` says, their lengths add up to `SSIZE_MAX` at most, and all tasks that are used lie in
the array. -/
structure CountProcessed (io : ControlBlock) : Prop where
  issued : ∀ hdr answers, Unhindered hdr io answers → ∀ moves t,
    exec (entryStep io answers) (hdr, .waiting) moves = some t → t.2.rc? ≠ none →
      t.2.transfers = io.aioNbytes.toNat
  returns : ∀ hdr answers, Unhindered hdr io answers → ∃ moves t,
    exec (entryStep io answers) (hdr, .waiting) moves = some t ∧ t.2.rc? ≠ none
  lengths : ((List.range io.aioNbytes.toNat).map io.iovLen).sum ≤ ssizeMax
  tasks : ∃ count, taskCount (intOf io.aioNbytes) = some count ∧ ∀ hdr answers moves t,
    exec (entryStep io answers) (hdr, .waiting) moves = some t → ∀ k, t.2.UsesTask k →
      (k : ℤ) < count

/-- **The control block is refused**: a call that comes to it ends there, with its count or with
the error, and leaves the header as it was. -/
def RefusedCleanly (io : ControlBlock) : Prop :=
  ∀ (s : SubmitState) (c : ℕ) (answers answers' : Answers), c < s.begun →
    (s.calls c).result = none → (s.calls c).ios[(s.calls c).index]? = some (some io) →
    s.entry c (s.calls c).index = .waiting →
    ∃ t, exec submission s [.submit c answers, .submit c answers'] = some t ∧
      (t.calls c).result = some (if (s.calls c).index = 0 then -(Errno.einval.code : ℤ)
        else (s.calls c).index) ∧ t.hdr = s.hdr

/-- What is accepted is processed, and what is not is refused. -/
structure VectorCount (io : ControlBlock) : Prop where
  accepted : validateIovec io.iovLen io.aioNbytes = true → CountProcessed io
  refused : validateIovec io.iovLen io.aioNbytes = false → RefusedCleanly io

/-! ## The check -/

/-- The check adds up the lengths. -/
theorem validateLoop_eq_true_iff (iovLen : ℕ → ℕ) (i k length : ℕ) (hlength : length ≤ ssizeMax) :
    validateLoop iovLen i k length = true ↔
      length + ((List.range' i k).map iovLen).sum ≤ ssizeMax := by
  induction k generalizing i length with
  | zero => simpa [validateLoop] using hlength
  | succ k ih =>
    rw [validateLoop, List.range'_succ, List.map_cons, List.sum_cons]
    split_ifs with hlong
    · simp only [false_iff]
      omega
    · rw [ih (i + 1) (length + iovLen i) (by omega), Nat.add_assoc]

theorem validateIovec_eq_true_iff (iovLen : ℕ → ℕ) (iovcnt : BitVec 64) :
    validateIovec iovLen iovcnt = true ↔ 1 ≤ iovcnt.toNat ∧
      ((List.range (intOf iovcnt).toNat).map iovLen).sum ≤ ssizeMax := by
  unfold validateIovec
  split_ifs with hzero
  · simp only [false_iff]
    omega
  · rw [validateLoop_eq_true_iff iovLen 0 _ 0 (Nat.zero_le _), Nat.zero_add, List.range_eq_range']
    simp only [and_iff_right (Nat.le_of_not_lt hzero)]

theorem intOf_le (n : BitVec 64) : intOf n ≤ 2147483647 := by
  have hlt := BitVec.toInt_lt (x := n.setWidth 32)
  unfold intOf
  omega

/-! ## A control block that is refused -/

theorem startVector_of_invalid {io : ControlBlock}
    (hvalid : validateIovec io.iovLen io.aioNbytes = false) (hdr : IoHeader) (call : FileCall)
    (answers : Answers) :
    startVector hdr io call answers = (hdr, .refused (-Errno.einval.code)) := by
  unfold startVector
  rw [if_pos hvalid]

theorem startEntry_of_invalid {io : ControlBlock}
    (hop : io.aioLioOpcode = .preadv ∨ io.aioLioOpcode = .pwritev)
    (hvalid : validateIovec io.iovLen io.aioNbytes = false) (hdr : IoHeader) (answers : Answers) :
    startEntry hdr (some io) answers = (hdr, .refused (-Errno.einval.code)) := by
  unfold startEntry
  simp only
  split_ifs
  · rfl
  · rcases hop with hop | hop <;>
    · rw [hop]
      exact startVector_of_invalid hvalid hdr _ answers

theorem refusedCleanly_of_invalid {io : ControlBlock}
    (hop : io.aioLioOpcode = .preadv ∨ io.aioLioOpcode = .pwritev)
    (hvalid : validateIovec io.iovLen io.aioNbytes = false) : RefusedCleanly io := by
  intro s c answers answers' hc hnone hio hwaiting
  have hrefuse : (s.entry c (s.calls c).index).submit s.hdr (some io) answers =
      some (s.hdr, .refused (-Errno.einval.code)) := by
    rw [hwaiting]
    exact congrArg some (startEntry_of_invalid hop hvalid s.hdr answers)
  have hfirst : submission s (.submit c answers) =
      some (s.work c (s.calls c).index (s.hdr, .refused (-Errno.einval.code))) := by
    show (if c < s.begun then s.submit c answers else none) = _
    rw [if_pos hc, submit_of_rc?_eq_none hnone hio (by rw [hwaiting]; rfl), hrefuse,
      Option.map_some]
  obtain ⟨s₁, hs₁⟩ : ∃ s₁, s₁ =
      s.work c (s.calls c).index (s.hdr, .refused (-Errno.einval.code)) := ⟨_, rfl⟩
  rw [← hs₁] at hfirst
  have hcall : s₁.calls c =
      (s.calls c).setEntry (s.calls c).index (.refused (-Errno.einval.code)) := by
    rw [hs₁, calls_work_self]
  have hindex : (s₁.calls c).index = (s.calls c).index := by
    rw [hcall]
    rfl
  have hentry : s₁.entry c (s₁.calls c).index = .refused (-Errno.einval.code) := by
    rw [hindex, hs₁, entry_work_self]
  have hsecond : submission s₁ (.submit c answers') =
      some (s₁.setCall c ((s₁.calls c).report (-Errno.einval.code))) := by
    show (if c < s₁.begun then s₁.submit c answers' else none) = _
    have hc₁ : c < s₁.begun := by
      rw [hs₁]
      exact hc
    have hnone₁ : (s₁.calls c).result = none := by
      rw [hcall]
      exact hnone
    have hio₁ : (s₁.calls c).ios[(s₁.calls c).index]? = some (some io) := by
      rw [hindex, hcall]
      exact hio
    rw [if_pos hc₁, submit_of_rc?_eq_some hnone₁ hio₁ (by rw [hentry]; rfl)]
  refine ⟨s₁.setCall c ((s₁.calls c).report (-Errno.einval.code)), ?_, ?_, ?_⟩
  · rw [exec_cons, hfirst, Option.bind_some, exec_cons, hsecond, Option.bind_some, exec_nil]
  · rw [calls_setCall_self, ← hindex]
    unfold SubmitCall.report
    rw [if_neg (by decide), if_pos (by decide)]
  · show s₁.hdr = s.hdr
    rw [hs₁]
    rfl

/-! ## Full transfers -/

theorem issued_full {seg : Segment} (h : seg.outcome.Full seg.iovLen) :
    seg.issued.Full seg.iovLen := by
  unfold Segment.issued
  split_ifs with hzero
  · rw [hzero]
    exact Or.inl rfl
  · exact h

/-- Where the loop of a vectored request is, when every transfer is full. -/
def FullInv (segs : List Segment) (req : VecRequest) : Prop :=
  match req.pc with
  | .issue i => ∀ j < i, (req.task j).phase ≠ .unissued
  | .transferred i nbytes => (∃ seg, segs[i]? = some seg ∧ nbytes = seg.iovLen) ∧
      ∀ j < i + 1, (req.task j).phase ≠ .unissued
  | .returned _ => ∀ j < segs.length, (req.task j).phase ≠ .unissued
  | _ => False

section Machine

variable {segs : List Segment} {req req' : VecRequest}

/-- A segment that was issued stays so, when a task is written that was. -/
theorem phase_setTask_ne {i j : ℕ} {t : SegTask} (ht : t.phase ≠ .unissued)
    (hj : j ≠ i → (req.task j).phase ≠ .unissued) :
    ((req.setTask i t).task j).phase ≠ .unissued := by
  show (Function.update req.task i t j).phase ≠ .unissued
  by_cases hji : j = i
  · rw [hji, Function.update_self]
    exact ht
  · rw [Function.update_of_ne hji]
    exact hj hji

theorem FullInv.submitStep (h : FullInv segs req)
    (hfull : ∀ seg ∈ segs, seg.issued.Full seg.iovLen)
    (hstep : submitStep segs req = some req') : FullInv segs req' := by
  unfold FullInv at h
  cases submitted_of_submitStep hstep with
  | finish hpc hseg =>
    rw [hpc] at h
    intro j hj
    rw [aioIovDone_task]
    exact h j (Nat.lt_of_lt_of_le hj (List.getElem?_eq_none_iff.mp hseg))
  | @inline i nbytes seg hpc hseg hissued =>
    rw [hpc] at h
    have hnbytes : nbytes = seg.iovLen := by
      have hseg' := hfull seg (List.mem_of_getElem? hseg)
      rw [hissued] at hseg'
      rcases hseg' with heq | heq
      · exact Outcome.inline.inj heq
      · cases heq
    exact ⟨⟨seg, hseg, hnbytes⟩, fun j hj => phase_setTask_ne Phase.noConfusion fun hne =>
      h j (Nat.lt_of_le_of_ne (Nat.le_of_lt_succ hj) hne)⟩
  | later hpc hseg hissued =>
    rw [hpc] at h
    exact fun j hj => phase_setTask_ne Phase.noConfusion fun hne =>
      h j (Nat.lt_of_le_of_ne (Nat.le_of_lt_succ hj) hne)
  | @failed i seg error hpc hseg hissued =>
    have hseg' := hfull seg (List.mem_of_getElem? hseg)
    rw [hissued] at hseg'
    rcases hseg' with heq | heq <;> cases heq
  | transferred hpc hseg =>
    rw [hpc] at h
    obtain ⟨⟨seg, hseg', rfl⟩, hissued⟩ := h
    obtain rfl := Option.some.inj (hseg.symm.trans hseg')
    rw [if_neg (not_not_intro rfl)]
    intro j hj
    rw [aioIovDone_task]
    exact phase_setTask_ne Phase.noConfusion fun _ => hissued j hj
  | short hpc | abort hpc | free hpc _ | keep hpc _ | giveUp hpc =>
    rw [hpc] at h
    exact h.elim

theorem FullInv.completeStep (h : FullInv segs req) {j : ℕ}
    (hstep : completeStep segs j req = some req') : FullInv segs req' := by
  have hkeep : req'.pc = req.pc ∧
      ∀ k, (req.task k).phase ≠ .unissued → (req'.task k).phase ≠ .unissued := by
    refine ⟨(settles_completeStep hstep).2, fun k hk => ?_⟩
    unfold Aio.completeStep at hstep
    split at hstep
    · cases hstep
    · split at hstep
      · obtain rfl := Option.some.inj hstep
        exact phase_setTask_ne Phase.noConfusion fun _ => hk
      · obtain rfl := Option.some.inj hstep
        rw [aioIovDone_task]
        exact phase_setTask_ne Phase.noConfusion fun _ => hk
      · cases hstep
  obtain ⟨hpc, hphase⟩ := hkeep
  unfold FullInv at h ⊢
  rw [hpc]
  cases hcase : req.pc with
  | issue i =>
    rw [hcase] at h
    exact fun k hk => hphase k (h k hk)
  | transferred i nbytes =>
    rw [hcase] at h
    exact ⟨h.1, fun k hk => hphase k (h.2 k hk)⟩
  | returned rc =>
    rw [hcase] at h
    exact fun k hk => hphase k (h k hk)
  | _ =>
    rw [hcase] at h
    exact h.elim

/-- The loop can go on until the request returns. -/
theorem FullInv.exists_step (h : FullInv segs req) (hrc : req.pc.rc? = none) :
    ∃ req', Aio.submitStep segs req = some req' := by
  unfold FullInv at h
  unfold Aio.submitStep
  cases hpc : req.pc with
  | issue i =>
    cases hseg : segs[i]? with
    | none =>
      simp only [hseg]
      exact ⟨_, rfl⟩
    | some seg =>
      cases hissued : seg.issued with
      | inline _ | later _ | failed _ =>
        simp only [hseg, hissued]
        exact ⟨_, rfl⟩
  | transferred i nbytes =>
    rw [hpc] at h
    obtain ⟨⟨seg, hseg, -⟩, -⟩ := h
    simp only [hseg, Option.map_some]
    exact ⟨_, rfl⟩
  | returned rc =>
    rw [hpc] at hrc
    cases hrc
  | _ =>
    rw [hpc] at h
    exact h.elim

end Machine

/-! ## A control block that is accepted -/

/-- What an entry is, when `n` segments are processed without errors and short transfers. -/
def Entry.Full (n : ℕ) : Entry → Prop
  | .waiting => False
  | .refused _ => False
  | .plain _ seg pc => n = 1 ∧ seg.issued.Full seg.iovLen ∧ ∀ error, pc ≠ .aborted error
  | .vector _ segs req =>
    segs.length = n ∧ (∀ seg ∈ segs, seg.issued.Full seg.iovLen) ∧ FullInv segs req

section Entries

variable {n : ℕ} {io : ControlBlock} {hdr : IoHeader} {answers : Answers} {e : Entry}

theorem full_issuePlain {task : IoTask} {seg : Segment} (hn : n = 1)
    (hseg : seg.issued.Full seg.iovLen) :
    (issuePlain hdr task seg).2.Full n ∧ (issuePlain hdr task seg).2.rc? ≠ none := by
  unfold issuePlain
  rcases hseg with hissued | hissued
  · rw [hissued]
    exact ⟨⟨hn, Or.inl hissued, fun _ => PlainPc.noConfusion⟩, Option.some_ne_none _⟩
  · rw [hissued]
    exact ⟨⟨hn, Or.inr hissued, fun _ => PlainPc.noConfusion⟩, Option.some_ne_none _⟩

theorem Entry.Full.submit (h : e.Full n) {io : Option ControlBlock} {done : IoHeader × Entry}
    (hstep : e.submit hdr io answers = some done) : done.2.Full n := by
  rcases Entry.submit_cases hstep with
    ⟨rfl, -⟩ | ⟨task, seg, rfl, rfl⟩ | ⟨task, segs, req, rfl, hstep⟩
  · exact h.elim
  · exact (full_issuePlain h.1 h.2.1).1
  · obtain ⟨req', hmove, rfl⟩ := Option.map_eq_some_iff.mp hstep
    exact ⟨h.1, h.2.1, h.2.2.submitStep h.2.1 hmove⟩

theorem Entry.Full.complete (h : e.Full n) {j : ℕ} {done : IoHeader × Entry}
    (hstep : e.complete hdr j = some done) : done.2.Full n := by
  rcases Entry.complete_cases hstep with
    ⟨task, seg, res, rfl, -, rfl⟩ | ⟨task, segs, req, rfl, hstep⟩
  · exact ⟨h.1, h.2.1, fun _ => PlainPc.noConfusion⟩
  · obtain ⟨req', hmove, rfl⟩ := Option.map_eq_some_iff.mp hstep
    exact ⟨h.1, h.2.1, h.2.2.completeStep hmove⟩

/-- When it returns, all transfers were issued. -/
theorem Entry.Full.transfers_eq (h : e.Full n) (hrc : e.rc? ≠ none) : e.transfers = n := by
  cases e with
  | waiting => exact h.elim
  | refused rc => exact h.elim
  | plain task seg pc =>
    obtain ⟨rfl, -, hpc⟩ := h
    cases pc with
    | issuing => exact absurd rfl hrc
    | pending => rfl
    | completed res => rfl
    | aborted error => exact absurd rfl (hpc error)
  | vector task segs req =>
    obtain ⟨rfl, -, hinv⟩ := h
    have hpc : req.pc.rc? ≠ none := hrc
    unfold FullInv at hinv
    have hall : ∀ j < segs.length, (req.task j).phase ≠ .unissued := by
      cases hcase : req.pc with
      | returned rc =>
        rw [hcase] at hinv
        exact hinv
      | aborted rc =>
        rw [hcase] at hinv
        exact hinv.elim
      | _ =>
        rw [hcase] at hpc
        exact absurd rfl hpc
    have hcount := List.countP_eq_length.mpr fun j hj =>
      decide_eq_true (hall j (List.mem_range.mp hj))
    exact hcount.trans List.length_range

/-- It does return. -/
theorem Entry.Full.exists_return (h : e.Full n) (hdr : IoHeader) (io : ControlBlock)
    (answers : Answers) :
    ∃ moves t, exec (entryStep io answers) (hdr, e) moves = some t ∧ t.2.rc? ≠ none := by
  cases e with
  | waiting => exact h.elim
  | refused rc => exact h.elim
  | plain task seg pc =>
    cases pc with
    | issuing => exact ⟨[.submit], issuePlain hdr task seg, rfl, (full_issuePlain h.1 h.2.1).2⟩
    | pending => exact ⟨[], _, rfl, Option.some_ne_none _⟩
    | completed res => exact ⟨[], _, rfl, Option.some_ne_none _⟩
    | aborted error => exact ⟨[], _, rfl, Option.some_ne_none _⟩
  | vector task segs req =>
    obtain ⟨-, hfull, hinv⟩ := h
    -- by induction on the number of steps that the loop can still take
    induction hk : (req.remaining segs.length).toNat using Nat.strong_induction_on
      generalizing req hdr with
    | _ k ih =>
      cases hrc : req.pc.rc? with
      | some rc =>
        refine ⟨[], _, rfl, ?_⟩
        show req.pc.rc? ≠ none
        rw [hrc]
        exact Option.some_ne_none rc
      | none =>
        obtain ⟨req', hstep⟩ := hinv.exists_step hrc
        have hlt := remaining_submitStep hstep
        have hnonneg := req'.remaining_nonneg segs.length
        obtain ⟨moves, t, hexec, ht⟩ := ih _ (by omega) (settleVector hdr task req req') req'
          (hinv.submitStep hfull hstep) rfl
        have hmove : entryStep io answers (hdr, .vector task segs req) .submit =
            some (settleVector hdr task req req', .vector task segs req') := by
          show (vectorStep segs req .submit).map _ = _
          rw [show vectorStep segs req .submit = some req' from hstep]
          rfl
        exact ⟨.submit :: moves, t, exec_cons_eq_some.mpr ⟨_, hmove, hexec⟩, ht⟩

theorem aioAllocate_of_room {iocb : Iocb} (hroom : hdr.iocount < hdr.context.size) :
    aioAllocate hdr iocb true =
      some (⟨iocb.addr, iocb.data⟩, { hdr with iocount := hdr.iocount + 1 }) := by
  unfold aioAllocate aioIncrementIocount
  rw [if_pos rfl, if_neg (Int.not_le.mpr hroom), Option.map_some]

theorem full_segmentsOf (h : Unhindered hdr io answers) (call : FileCall) (iov : List ℕ) :
    ∀ seg ∈ segmentsOf answers.os call iov, seg.issued.Full seg.iovLen := by
  intro seg hseg
  obtain ⟨i, hi, rfl⟩ := List.mem_mapIdx.mp hseg
  exact issued_full (h.full call i iov[i])

theorem full_startVector (h : Unhindered hdr io answers)
    (hvalid : validateIovec io.iovLen io.aioNbytes = true) (call : FileCall) :
    (startVector hdr io call answers).2.Full (intOf io.aioNbytes).toNat := by
  unfold startVector
  rw [if_neg (by rw [hvalid]; exact Bool.noConfusion)]
  split_ifs with hone
  · unfold startPlain
    rw [h.mem, aioAllocate_of_room h.room, hone]
    exact ⟨by decide, issued_full (h.full call 0 (io.iovLen 0)), fun _ => PlainPc.noConfusion⟩
  · simp only [h.mem, aioAllocate_of_room h.room]
    refine ⟨?_, full_segmentsOf h call _, fun j hj => absurd hj (Nat.not_lt_zero j)⟩
    rw [length_segmentsOf, List.length_map, List.length_range]

theorem full_startEntry (h : Unhindered hdr io answers)
    (hop : io.aioLioOpcode = .preadv ∨ io.aioLioOpcode = .pwritev)
    (hvalid : validateIovec io.iovLen io.aioNbytes = true) :
    (startEntry hdr (some io) answers).2.Full (intOf io.aioNbytes).toNat := by
  unfold startEntry
  simp only [h.handle, Bool.true_eq_false, if_false]
  rcases hop with hop | hop <;>
  · rw [hop]
    exact full_startVector h hvalid _

/-- **The number of transfers** of a control block that is accepted. -/
theorem transfers_of_unhindered (h : Unhindered hdr io answers)
    (hop : io.aioLioOpcode = .preadv ∨ io.aioLioOpcode = .pwritev)
    (hvalid : validateIovec io.iovLen io.aioNbytes = true) {moves : List Move}
    {t : IoHeader × Entry} (hexec : exec (entryStep io answers) (hdr, .waiting) moves = some t)
    (hrc : t.2.rc? ≠ none) : t.2.transfers = (intOf io.aioNbytes).toNat := by
  have hrun : t = (hdr, .waiting) ∨ t.2.Full (intOf io.aioNbytes).toNat := by
    refine exec_invariant (P := fun s => s = (hdr, .waiting) ∨
      s.2.Full (intOf io.aioNbytes).toNat) ?_ (Or.inl rfl) hexec
    rintro s move s' (rfl | hs) hstep
    · cases move with
      | submit =>
        obtain rfl := Option.some.inj hstep
        exact Or.inr (full_startEntry h hop hvalid)
      | complete j => cases hstep
    · cases move with
      | submit => exact Or.inr (hs.submit hstep)
      | complete j => exact Or.inr (hs.complete hstep)
  rcases hrun with rfl | hfull
  · exact absurd rfl hrc
  · exact hfull.transfers_eq hrc

theorem exists_return_of_unhindered (h : Unhindered hdr io answers)
    (hop : io.aioLioOpcode = .preadv ∨ io.aioLioOpcode = .pwritev)
    (hvalid : validateIovec io.iovLen io.aioNbytes = true) :
    ∃ moves t, exec (entryStep io answers) (hdr, .waiting) moves = some t ∧ t.2.rc? ≠ none := by
  obtain ⟨moves, t, hexec, ht⟩ := (full_startEntry h hop hvalid).exists_return
    (startEntry hdr (some io) answers).1 io answers
  exact ⟨.submit :: moves, t, exec_cons_eq_some.mpr ⟨_, rfl, hexec⟩, ht⟩

/-- The last task that a request of a vectored opcode uses. -/
def lastTask (io : ControlBlock) : ℕ := if io.aioNbytes = 1 then 0 else (intOf io.aioNbytes).toNat

theorem usesTask_startEntry {k : ℕ} (hk : (startEntry hdr (some io) answers).2.UsesTask k) :
    k ≤ lastTask io := by
  generalize hdone : startEntry hdr (some io) answers = done at hk
  cases looked_startEntry hdone with
  | refused hneg => exact hk.elim
  | plain halloc => exact Nat.le_trans (Nat.le_of_eq hk) (Nat.zero_le _)
  | vector hb hop hpos hone halloc =>
    obtain rfl := Option.some.inj hb
    refine Nat.le_trans hk ?_
    rw [lastTask, if_neg hone, length_segmentsOf, List.length_map, List.length_range]

/-- A request uses the tasks that it was started with. -/
theorem usesTask_entryStep {s s' : IoHeader × Entry} {move : Move}
    (hs : ∀ k, s.2.UsesTask k → k ≤ lastTask io) (hstep : entryStep io answers s move = some s')
    (k : ℕ) (hk : s'.2.UsesTask k) : k ≤ lastTask io := by
  obtain ⟨hdr, e⟩ := s
  cases move with
  | submit =>
    rcases Entry.submit_cases hstep with
      ⟨he, rfl⟩ | ⟨task, seg, he, rfl⟩ | ⟨task, segs, req, he, hmove⟩
    · exact usesTask_startEntry hk
    · have hzero : k = 0 := by
        unfold issuePlain at hk
        cases hissued : seg.issued with
        | inline _ | later _ | failed _ =>
          rw [hissued] at hk
          exact hk
      omega
    · obtain ⟨req', -, rfl⟩ := Option.map_eq_some_iff.mp hmove
      refine hs k ?_
      rw [he]
      exact hk
  | complete j =>
    rcases Entry.complete_cases hstep with
      ⟨task, seg, res, he, -, rfl⟩ | ⟨task, segs, req, he, hmove⟩
    · refine hs k ?_
      rw [he]
      exact hk
    · obtain ⟨req', -, rfl⟩ := Option.map_eq_some_iff.mp hmove
      refine hs k ?_
      rw [he]
      exact hk

theorem usesTask_le {moves : List Move} {t : IoHeader × Entry}
    (hexec : exec (entryStep io answers) (hdr, .waiting) moves = some t) :
    ∀ k, t.2.UsesTask k → k ≤ lastTask io :=
  exec_invariant (P := fun s : IoHeader × Entry => ∀ k, s.2.UsesTask k → k ≤ lastTask io)
    (fun _ _ _ hs hstep => usesTask_entryStep hs hstep)
    (fun k (hk : Entry.waiting.UsesTask k) => hk.elim) hexec

end Entries

/-! ## The result -/

/-- There is room, and all transfers are done at once. -/
def promptAnswers : Answers := ⟨fun _ => true, true, fun _ _ len => ⟨.inline len, le_rfl⟩⟩

theorem unhindered_prompt (io : ControlBlock) :
    Unhindered (.init 1 Nat.one_pos) io promptAnswers :=
  ⟨rfl, rfl, by decide, fun _ _ _ => Or.inl rfl⟩

/-- Below `INT_MAX` there are enough tasks. -/
theorem exists_taskCount {io : ControlBlock} (hpos : 1 ≤ io.aioNbytes.toNat)
    (hlt : io.aioNbytes.toNat < 2147483647) :
    ∃ count, taskCount (intOf io.aioNbytes) = some count ∧ (lastTask io : ℤ) < count := by
  unfold taskCount lastTask
  rw [intOf_of_lt hlt]
  by_cases hone : io.aioNbytes = 1
  · rw [hone]
    exact ⟨1, rfl, by decide⟩
  · have hne : io.aioNbytes.toNat ≠ 1 := fun h => hone (BitVec.eq_of_toNat_eq h)
    have hfits : IntType.int32.Fits (io.aioNbytes.toNat + 1) := by
      show (-2147483648 : ℤ) ≤ _ ∧ _ ≤ (2147483647 : ℤ)
      omega
    refine ⟨io.aioNbytes.toNat + 1, ?_, ?_⟩
    · rw [if_pos (by omega), IntType.value_of_fits hfits]
    · rw [if_neg hone]
      omega

theorem countProcessed_of_lt {io : ControlBlock}
    (hop : io.aioLioOpcode = .preadv ∨ io.aioLioOpcode = .pwritev)
    (hvalid : validateIovec io.iovLen io.aioNbytes = true)
    (hlt : io.aioNbytes.toNat < 2147483647) : CountProcessed io := by
  have hint := intOf_of_lt hlt
  have hnat : (intOf io.aioNbytes).toNat = io.aioNbytes.toNat := by rw [hint, Int.toNat_natCast]
  obtain ⟨hpos, hsum⟩ := (validateIovec_eq_true_iff _ _).mp hvalid
  rw [hnat] at hsum
  refine ⟨?_, fun hdr answers h => exists_return_of_unhindered h hop hvalid, hsum, ?_⟩
  · intro hdr answers h moves t hexec hrc
    rw [transfers_of_unhindered h hop hvalid hexec hrc, hnat]
  · obtain ⟨count, hcount, hlast⟩ := exists_taskCount hpos hlt
    refine ⟨count, hcount, fun hdr answers moves t hexec k hk => ?_⟩
    have hle := usesTask_le hexec k hk
    omega

/-- **When the count that is accepted is the count that is processed**: when it is below
`INT_MAX`. -/
theorem vector_count_iff (io : ControlBlock)
    (hop : io.aioLioOpcode = .preadv ∨ io.aioLioOpcode = .pwritev) :
    VectorCount io ↔ (validateIovec io.iovLen io.aioNbytes = true →
      io.aioNbytes.toNat < 2147483647) := by
  constructor
  · intro h hvalid
    obtain ⟨hissued, hreturns, -, count, hcount, -⟩ := h.accepted hvalid
    have hprompt := unhindered_prompt io
    obtain ⟨moves, t, hexec, hrc⟩ := hreturns _ _ hprompt
    have heq := (transfers_of_unhindered hprompt hop hvalid hexec hrc).symm.trans
      (hissued _ _ hprompt moves t hexec hrc)
    have hle := intOf_le io.aioNbytes
    -- the addition of one overflows at the largest count
    have hne : intOf io.aioNbytes ≠ 2147483647 := by
      intro hmax
      have hnone : taskCount 2147483647 = none := by decide
      rw [hmax, hnone] at hcount
      cases hcount
    omega
  · intro hlt
    exact ⟨fun hvalid => countProcessed_of_lt hop hvalid (hlt hvalid),
      fun hvalid => refusedCleanly_of_invalid hop hvalid⟩

/-- Two elements of eight bytes. -/
theorem vector_count_two : VectorCount (ioPrepPreadv 100 3 (fun _ => 8) 2) :=
  (vector_count_iff (ioPrepPreadv 100 3 (fun _ => 8) 2) (Or.inl rfl)).mpr fun _ => by decide

/-- A count of minus one is accepted.  The request has no segment, is reported as started, keeps its
place in the context, and no completion of it is left.  A count of one above the range of
`unsigned` is accepted as well: there is one task, and the request uses the one behind it. -/
theorem vector_count_negative :
    validateIovec (fun _ => 8) (ioPrepPreadv 100 3 (fun _ => 8) (-1)).aioNbytes = true ∧
    (∃ t, exec (entryStep (ioPrepPreadv 100 3 (fun _ => 8) (-1)) promptAnswers)
        (.init 1 Nat.one_pos, .waiting) [.submit, .submit] = some t ∧
      t.2.rc? = some 0 ∧ t.2.transfers = 0 ∧ t.1.iocount = 1 ∧
      ∀ move, entryStep (ioPrepPreadv 100 3 (fun _ => 8) (-1)) promptAnswers t move = none) ∧
    (∃ t, exec (entryStep ⟨⟨100, 0⟩, .preadv, 3, 4294967297, fun _ => 8⟩ promptAnswers)
        (.init 1 Nat.one_pos, .waiting) [.submit, .submit] = some t ∧
      taskCount (intOf 4294967297) = some 1 ∧ t.2.UsesTask 1) ∧
    ¬ VectorCount (ioPrepPreadv 100 3 (fun _ => 8) (-1)) := by
  have hvalid : validateIovec (fun _ => 8) (ioPrepPreadv 100 3 (fun _ => 8) (-1)).aioNbytes =
      true := by decide
  refine ⟨hvalid, ⟨_, rfl, rfl, rfl, rfl, ?_⟩, ⟨_, rfl, by decide, Nat.le_refl 1⟩, ?_⟩
  · intro move
    cases move with
    | submit => rfl
    | complete j => rfl
  · intro h
    have hissued := (h.accepted hvalid).issued _ _ (unhindered_prompt _) [.submit, .submit] _ rfl
      (Option.some_ne_none _)
    exact absurd hissued (by decide)

end Aio
end Wpdk
