import Wpdk.Epoll.Wait

/-!
# The rotation index

`wpdk_epoll_wait` adds one to `start` whenever `select` has counted more than has been reported,
so that the next call begins one slot further on.  Nothing takes `start` back.  The first loop of
the scan is bounded by `maxcount`, and does nothing once `start` is behind it; the second is
bounded by `start` alone.

Two things follow.  A call in which a socket is ready in both sets leaves the count of `select`
above the number of sockets, whatever room there is: then `start` moves on, and the second loop is
not stopped by the count.  After `FD_SETSIZE` such calls `start` is at the end of the arrays, and
the next one takes it, and the second loop, behind them.  And once `start` is behind the slots of
some sockets, these are only reported if they are among the first in the order of the slots.

* `Epoll.pollStep`: calls of `wpdk_epoll_ctl` and `wpdk_epoll_wait` in any order.
* `epoll_scan_in_bounds_iff`: the scan stays inside the arrays exactly as long as no call that is
  made with `start` at their end leaves part of the count of `select` unreported.
* `epoll_wait_starves_nobody_iff`: of sockets that stay ready, all are reported exactly if at most
  `maxevents` of them are in slots below `start`.
-/

namespace Wpdk

open Run

/-! ## Calls in any order -/

/-- A call of `wpdk_epoll_ctl` on an open socket, or one of `wpdk_epoll_wait` with the answer of
`select` and what is in memory behind the arrays. -/
inductive PollAction where
  | ctl (call : CtlCall)
  | wait (call : WaitCall) (answer : Except WinError Ready)
      (behind : ℕ → Option ℕ × EpollEvent)

namespace Epoll

/-- An answer that `select` can give. -/
def Answers (ep : Epoll) : Except WinError Ready → Prop
  | .error _ => True
  | .ok ready => ep.waitSets.Allows ready

instance (ep : Epoll) : (answer : Except WinError Ready) → Decidable (ep.Answers answer)
  | .error _ => isTrue trivial
  | .ok ready => inferInstanceAs (Decidable (ep.waitSets.Allows ready))

/-- One call; `select` gives an answer that it can give. -/
def pollStep (ep : Epoll) : PollAction → Option Epoll
  | .ctl call => ep.ctlStep call
  | .wait call answer behind =>
    if ep.Answers answer then (epollWait (some ep) call answer behind).1 else none

/-- The slots that the scan loops of a call read. -/
def slotsRead (ep : Epoll) (call : WaitCall) (answer : Except WinError Ready)
    (behind : ℕ → Option ℕ × EpollEvent) : List ℕ :=
  match (epollWait (some ep) call answer behind).2 with
  | .error _ => []
  | .ok s => s.reads

/-- **The scan stays inside the arrays**: `start` does, and so does every slot that a call reads,
whatever `select` answers. -/
def InBounds (ep : Epoll) : Prop :=
  ep.start ≤ fdSetSize ∧
    ∀ call answer behind, ep.Answers answer → ∀ i ∈ ep.slotsRead call answer behind, i < fdSetSize

/-- A call that is made with `start` at the end of the arrays reports all that `select` has
counted: there is room for it, and no socket is counted twice. -/
def Reportable (ep : Epoll) : PollAction → Prop
  | .wait call (.ok ready) _ =>
    call.Valid → ep.waitSets.Allows ready → ep.start = fdSetSize →
      (ready.rc : ℤ) ≤ call.maxevents ∧ Disjoint ready.readfds ready.exceptfds
  | _ => True

/-- The instance stands for some map. -/
def Valid (ep : Epoll) : Prop := ∃ m, ep.Refines m

variable {ep ep' : Epoll}

theorem ctl_start (op : ℤ) (socket : ℕ) (event : Option EpollEvent) :
    (ep.ctl op socket event).1.start = ep.start := by
  unfold ctl ctlDel
  cases event with
  | none => simp only [ctlAdd]; split_ifs <;> rfl
  | some event => simp only [ctlAdd]; split_ifs <;> rfl

theorem pollStep_wait {call : WaitCall} {answer : Except WinError Ready}
    {behind : ℕ → Option ℕ × EpollEvent} (h : ep.Answers answer) :
    ep.pollStep (.wait call answer behind) = some (ep.wait call answer behind).1 :=
  if_pos h

/-- What a call that has been made has done. -/
theorem pollStep_cases {a : PollAction} (hstep : ep.pollStep a = some ep') :
    (∃ call, a = .ctl call ∧ ep' = (ep.ctl call.op call.socket call.event).1) ∨
      ∃ call answer behind, a = .wait call answer behind ∧ ep.Answers answer ∧
        ep' = (ep.wait call answer behind).1 := by
  cases a with
  | ctl call => exact Or.inl ⟨call, rfl, (Option.some.inj hstep).symm⟩
  | wait call answer behind =>
    by_cases hanswer : ep.Answers answer
    · rw [pollStep_wait hanswer] at hstep
      exact Or.inr ⟨call, answer, behind, rfl, hanswer, (Option.some.inj hstep).symm⟩
    · rw [pollStep, if_neg hanswer] at hstep
      cases hstep

/-- A call keeps the instance valid. -/
theorem Valid.step {a : PollAction} (h : ep.Valid) (hstep : ep.pollStep a = some ep') :
    ep'.Valid := by
  obtain ⟨m, hm⟩ := h
  rcases pollStep_cases hstep with ⟨call, -, rfl⟩ | ⟨call, answer, behind, -, -, rfl⟩
  · exact ⟨_, (hm.ctl call).2.1⟩
  · rcases ep.wait_fst call answer behind with heq | heq
    · rw [heq]
      exact ⟨m, hm⟩
    · rw [heq]
      exact ⟨m, hm.with_start _⟩

theorem valid_of_exec {flags : ℤ} {run : List PollAction}
    (h : exec pollStep (epollCreate1 flags) run = some ep) : ep.Valid :=
  exec_invariant (fun _ _ _ hs hstep => hs.step hstep) ⟨∅, refines_create1 flags⟩ h

/-! ## The bounds of the arrays -/

theorem slotsRead_lt {m : InterestMap} (h : ep.Refines m) (hstart : ep.start ≤ fdSetSize)
    {call : WaitCall} {answer : Except WinError Ready} {behind : ℕ → Option ℕ × EpollEvent}
    {i : ℕ} (hi : i ∈ ep.slotsRead call answer behind) : i < fdSetSize := by
  have hread : ∀ ready n, i ∈ (ep.scan behind ready n).reads → i < fdSetSize :=
    fun ready n hi => (Scan.mem_pass_reads hi).trans_le (max_le h.maxcount_le hstart)
  unfold slotsRead epollWait at hi
  dsimp only at hi
  by_cases hvalid : call.Valid
  swap
  · rw [wait_of_invalid hvalid] at hi
    exact absurd hi List.not_mem_nil
  cases hwork : ep.waitSets.worktodo with
  | false =>
    rw [wait_of_idle hvalid hwork] at hi
    exact absurd hi List.not_mem_nil
  | true =>
    cases answer with
    | error e =>
      rw [wait_of_error hvalid hwork] at hi
      exact absurd hi List.not_mem_nil
    | ok ready =>
      rw [wait_of_ready hvalid hwork] at hi
      exact hread ready _ hi

/-- `select` has counted no more than has been reported. -/
theorem rc_le_found_iff {m : InterestMap} (h : ep.Refines m) {ready : Ready}
    (behind : ℕ → Option ℕ × EpollEvent) {maxevents : ℤ} (hmax : 1 ≤ maxevents)
    (hready : ep.waitSets.Allows ready) (hstart : ep.start ≤ fdSetSize) :
    ready.rc ≤ (ep.scan behind ready maxevents.toNat).found.length ↔
      (ready.rc : ℤ) ≤ maxevents ∧ Disjoint ready.readfds ready.exceptfds := by
  rw [h.length_scan_found behind hready (Or.inl hstart), ← Finset.card_union_eq_card_add_card]
  have hle := card_sockets_le_rc ready
  simp only [Ready.sockets, Ready.rc] at hle ⊢
  omega

/-- A call that can be made takes `start` on when it leaves part of the count unreported. -/
theorem wait_start {m : InterestMap} (h : ep.Refines m) {call : WaitCall} {ready : Ready}
    {behind : ℕ → Option ℕ × EpollEvent} (hvalid : call.Valid)
    (hready : ep.waitSets.Allows ready) (hstart : ep.start ≤ fdSetSize) :
    (ep.wait call (.ok ready) behind).1.start =
      if (ready.rc : ℤ) ≤ call.maxevents ∧ Disjoint ready.readfds ready.exceptfds then ep.start
      else ep.start + 1 := by
  cases hwork : ep.waitSets.worktodo with
  | false =>
    have hnone := sockets_eq_empty hwork hready
    rw [Ready.sockets, Finset.union_eq_empty] at hnone
    have hmax := hvalid.2.2
    rw [wait_of_idle hvalid hwork, if_pos]
    simp only [Ready.rc, hnone.1, hnone.2, Finset.card_empty]
    exact ⟨by omega, Finset.disjoint_empty_left _⟩
  | true =>
    rw [wait_of_ready hvalid hwork]
    have hiff := rc_le_found_iff h behind hvalid.2.2 hready hstart
    split_ifs with hfits hgt
    · exact absurd (hiff.mpr hgt) (Nat.not_le.mpr hfits)
    · rfl
    · rfl
    · exact absurd (hiff.mp (Nat.le_of_not_lt hfits)) (by assumption)

/-- A call that reports all that has been counted when it has to leaves `start` inside. -/
theorem start_le_of_reportable {m : InterestMap} (h : ep.Refines m)
    (hstart : ep.start ≤ fdSetSize) {a : PollAction} (hC : ep.Reportable a)
    (hstep : ep.pollStep a = some ep') : ep'.start ≤ fdSetSize := by
  rcases pollStep_cases hstep with ⟨call, -, rfl⟩ | ⟨call, answer, behind, rfl, hanswer, rfl⟩
  · rwa [ctl_start]
  by_cases hvalid : call.Valid
  swap
  · rwa [wait_of_invalid hvalid]
  cases answer with
  | error e =>
    cases hwork : ep.waitSets.worktodo with
    | false => rwa [wait_of_idle hvalid hwork]
    | true => rwa [wait_of_error hvalid hwork]
  | ok ready =>
    rw [wait_start h hvalid hanswer hstart]
    split_ifs with hfits
    · exact hstart
    · exact Nat.lt_of_le_of_ne hstart fun heq => hfits (hC hvalid hanswer heq)

/-- A call that does not takes `start` out of the arrays. -/
theorem exists_step_of_not_reportable {m : InterestMap} (h : ep.Refines m) {a : PollAction}
    (hC : ¬ ep.Reportable a) : ∃ ep', ep.pollStep a = some ep' ∧ ep'.start = fdSetSize + 1 := by
  match a with
  | .ctl call => exact absurd trivial hC
  | .wait call (.error e) behind => exact absurd trivial hC
  | .wait call (.ok ready) behind =>
    simp only [Reportable, Classical.not_imp] at hC
    obtain ⟨hvalid, hready, hstart, hfits⟩ := hC
    refine ⟨_, pollStep_wait hready, ?_⟩
    rw [wait_start h hvalid hready hstart.le, if_neg hfits, hstart]

end Epoll

/-- **The scan stays inside the arrays** along a run exactly if every call that is made with
`start` at the end of the arrays reports all that `select` has counted. -/
theorem epoll_scan_in_bounds_iff (flags : ℤ) (run : List PollAction) :
    Throughout Epoll.pollStep Epoll.InBounds (epollCreate1 flags) run ↔
      EachStep Epoll.pollStep Epoll.Reportable (epollCreate1 flags) run := by
  refine throughout_iff_eachStep (I := fun ep => ep.Valid ∧ ep.start ≤ fdSetSize) ?_ ?_ ?_
    ⟨⟨∅, refines_create1 flags⟩, Nat.zero_le _⟩
  · rintro ep ⟨⟨m, hm⟩, hstart⟩
    exact ⟨hstart, fun call answer behind _ i hi => Epoll.slotsRead_lt hm hstart hi⟩
  · rintro ep a ep' ⟨⟨m, hm⟩, hstart⟩ hC hstep
    exact ⟨Epoll.Valid.step ⟨m, hm⟩ hstep, Epoll.start_le_of_reportable hm hstart hC hstep⟩
  · rintro ep a ⟨⟨m, hm⟩, hstart⟩ hC
    obtain ⟨ep', hstep, hstart'⟩ := Epoll.exists_step_of_not_reportable hm hC
    refine ⟨ep', hstep, fun hin => ?_⟩
    have := hin.1
    omega

/-- A socket that is registered for both sets and is ready in both of them. -/
def bothCall : PollAction := .ctl ⟨epollCtlAdd, 7, some ⟨epollIn ||| epollErr, 70⟩⟩

/-- A wait that finds it ready. -/
def bothReady : PollAction :=
  .wait ⟨true, 10, 0⟩ (.ok ⟨{7}, {7}⟩) fun _ => (none, ⟨0, 0⟩)

/-- What is left after 65 calls: `start`, and whether the next call reads the slot behind the
arrays. -/
theorem exec_bothReady :
    (exec Epoll.pollStep (epollCreate1 0) (bothCall :: List.replicate 65 bothReady)).map
      (fun ep => (ep.start, decide (64 ∈ ep.slotsRead ⟨true, 10, 0⟩ (.ok ⟨{7}, {7}⟩)
        fun _ => (none, ⟨0, 0⟩)))) = some (65, true) := by
  decide +kernel

/-- One socket, ready in both sets, and room for ten events: after 65 calls `start` is behind the
arrays, and the second loop of the next call reads what is behind them. -/
theorem epoll_scan_leaves_arrays :
    ∃ ep, exec Epoll.pollStep (epollCreate1 0) (bothCall :: List.replicate 65 bothReady) = some ep ∧
      ep.start = fdSetSize + 1 ∧
      fdSetSize ∈ ep.slotsRead ⟨true, 10, 0⟩ (.ok ⟨{7}, {7}⟩) (fun _ => (none, ⟨0, 0⟩)) ∧
      ¬ Throughout Epoll.pollStep Epoll.InBounds (epollCreate1 0)
        (bothCall :: List.replicate 65 bothReady) := by
  obtain ⟨ep, hep, heq⟩ := Option.map_eq_some_iff.mp exec_bothReady
  obtain ⟨hstart, hread⟩ := Prod.mk.injEq .. ▸ heq
  refine ⟨ep, hep, hstart, of_decide_eq_true hread, fun h => ?_⟩
  have hin : ep.InBounds :=
    exec_invariant_of_throughout (P := Epoll.InBounds) (fun _ _ _ _ _ hP => hP) h.head h hep
  have := hin.1
  rw [hstart] at this
  exact absurd this (by decide)

/-! ## Sockets that stay ready -/

namespace Epoll

/-- The instance after `k` calls with the same room and no change to the registrations. -/
def after (ep : Epoll) (maxevents : ℤ) (ready : ℕ → Ready)
    (behind : ℕ → ℕ → Option ℕ × EpollEvent) : ℕ → Epoll
  | 0 => ep
  | k + 1 =>
    ((ep.after maxevents ready behind k).wait ⟨true, maxevents, 0⟩ (.ok (ready k)) (behind k)).1

/-- The socket is one of those whose events a call reports. -/
def Reports (ep : Epoll) (maxevents : ℤ) (ready : Ready) (behind : ℕ → Option ℕ × EpollEvent)
    (socket : ℕ) : Prop :=
  ∃ s, (epollWait (some ep) ⟨true, maxevents, 0⟩ (.ok ready) behind).2 = .ok s ∧
    ∃ i ∈ s.found.map Prod.fst, ep.socket i = some socket

/-- Whether the socket in a slot is one of `R`. -/
def holdsOneOf (ep : Epoll) (R : Finset ℕ) (i : ℕ) : Bool := decide (∃ s ∈ R, ep.socket i = some s)

/-- How many sockets of `R` are in slots below `start`. -/
def belowStart (ep : Epoll) (R : Finset ℕ) : ℕ := (List.range ep.start).countP (ep.holdsOneOf R)

variable {ep : Epoll} {m : InterestMap} {maxevents : ℤ} {ready : ℕ → Ready} {R : Finset ℕ}
  {behind : ℕ → ℕ → Option ℕ × EpollEvent}

theorem holdsOneOf_iff {i : ℕ} : ep.holdsOneOf R i = true ↔ ∃ s ∈ R, ep.socket i = some s :=
  decide_eq_true_iff

theorem report_isSome_eq {ready : Ready} {behind : ℕ → Option ℕ × EpollEvent} {i : ℕ}
    (hi : i < fdSetSize) (hR : ready.sockets = R) :
    (ep.report behind ready i).isSome = ep.holdsOneOf R i := by
  rw [Bool.eq_iff_iff, holdsOneOf_iff, report_isSome_iff hi, hR]

/-- There are as many slots with sockets of `R` as there are sockets in `R`. -/
theorem Refines.countP_holdsOneOf (h : ep.Refines m) {ready : Ready}
    (hready : ep.waitSets.Allows ready) (hR : ready.sockets = R) :
    (List.range ep.maxcount).countP (ep.holdsOneOf R) = R.card := by
  have hcount := h.length_hits_report (fun _ => (none, ⟨0, 0⟩)) hready
  rwa [length_hits_eq_countP fun i hi =>
    report_isSome_eq ((List.mem_range.mp hi).trans_le h.maxcount_le) hR, hR] at hcount

/-- A wait finds something to do if a socket is ready. -/
theorem worktodo_of_mem {ready : Ready} (hready : ep.waitSets.Allows ready) {s : ℕ}
    (hs : s ∈ ready.sockets) : ep.waitSets.worktodo = true := by
  by_contra hwork
  rw [sockets_eq_empty (Bool.eq_false_of_not_eq_true hwork) hready] at hs
  exact Finset.notMem_empty s hs

theorem reports_iff {ready : Ready} {behind : ℕ → Option ℕ × EpollEvent} {socket : ℕ}
    (hmax : 1 ≤ maxevents) (hwork : ep.waitSets.worktodo = true) :
    ep.Reports maxevents ready behind socket ↔
      ∃ i ∈ (ep.scan behind ready maxevents.toNat).found.map Prod.fst,
        ep.socket i = some socket := by
  have hwait := congrArg Prod.snd (wait_of_ready (WaitCall.valid_of_one_le hmax) hwork
    ready behind)
  constructor
  · rintro ⟨s, hs, hreports⟩
    obtain rfl := Except.ok.inj (hwait.symm.trans hs)
    exact hreports
  · exact fun hreports => ⟨_, hwait, hreports⟩

/-- A socket is reported if its slot is one of those that are found. -/
theorem Refines.reports_iff_mem (h : ep.Refines m) {ready : Ready}
    {behind : ℕ → Option ℕ × EpollEvent} (hmax : 1 ≤ maxevents)
    (hready : ep.waitSets.Allows ready) {i s : ℕ} (hs : s ∈ ready.sockets)
    (hi : ep.socket i = some s) :
    ep.Reports maxevents ready behind s ↔
      i ∈ (ep.scan behind ready maxevents.toNat).found.map Prod.fst := by
  rw [reports_iff hmax (worktodo_of_mem hready hs)]
  constructor
  · rintro ⟨j, hj, hsocket⟩
    rwa [h.represents.distinct i j s hi hsocket]
  · exact fun hmem => ⟨i, hmem, hi⟩

/-- Every ready socket has a slot. -/
theorem Refines.exists_slot (h : ep.Refines m) {ready : Ready}
    (hready : ep.waitSets.Allows ready) {s : ℕ} (hs : s ∈ ready.sockets) :
    ∃ i, ep.socket i = some s := by
  obtain ⟨event, hevent, -⟩ := h.lookup_of_ready hready hs
  obtain ⟨i, hi, -⟩ := (h.represents.lookup_iff _ _).mp hevent
  exact ⟨i, hi⟩

/-- With more ready sockets than room, every call takes `start` on by one. -/
theorem Refines.after_eq (h : ep.Refines m) (hmax : 1 ≤ maxevents) {n : ℕ}
    (hready : ∀ k, k < n → ep.waitSets.Allows (ready k))
    (hR : ∀ k, k < n → (ready k).sockets = R)
    (hone : ∀ k, k < n → (ready k).rc = R.card) (hmany : maxevents < R.card) {k : ℕ}
    (hk : k ≤ n) :
    ep.after maxevents ready behind k = { ep with start := ep.start + k } := by
  induction k with
  | zero => rfl
  | succ k ih =>
    have hlt : k < n := hk
    have hrefines := h.with_start (ep.start + k)
    obtain ⟨s, hs⟩ : R.Nonempty := Finset.card_pos.mp (by omega)
    have hwork : (waitSets { ep with start := ep.start + k }).worktodo = true :=
      worktodo_of_mem (hready k hlt) ((hR k hlt).symm ▸ hs)
    have hlen := hrefines.length_scan_found (behind k) (hready k hlt)
      (Or.inr (by rw [hone k hlt, hR k hlt])) maxevents.toNat
    rw [after, ih (Nat.le_of_succ_le hk),
      wait_of_ready (WaitCall.valid_of_one_le hmax) hwork, if_pos]
    · rfl
    · dsimp only
      rw [hlen, hone k hlt, hR k hlt]
      omega

/-- With room for all ready sockets, the first call reports them all. -/
theorem Refines.mem_scan_of_room (h : ep.Refines m) {ready : Ready}
    {behind : ℕ → Option ℕ × EpollEvent} (hready : ep.waitSets.Allows ready)
    (hR : ready.sockets = R) (hone : ready.rc = R.card) {n : ℕ} (hroom : R.card ≤ n) {i s : ℕ}
    (hs : s ∈ R) (hi : ep.socket i = some s) :
    i ∈ (ep.scan behind ready n).found.map Prod.fst := by
  have hlt := h.lt_maxcount i s hi
  have hcount :
      (hits (ep.report behind ready) (rotation ep.maxcount ep.start)).length = R.card := by
    rw [length_hits_perm (rotation_perm _ _), h.length_hits_report behind hready, hR]
  rw [h.scan_found behind hready (Or.inr (by rw [hone, hR])), hone,
    List.take_of_length_le (by rw [hcount]; omega), map_fst_hits, List.mem_filter]
  exact ⟨mem_rotation.mpr hlt, (report_isSome_eq (hlt.trans_le h.maxcount_le) hR).trans
    (holdsOneOf_iff.mpr ⟨s, hs, hi⟩)⟩

theorem Refines.belowStart_le (h : ep.Refines m) {ready : Ready}
    (hready : ep.waitSets.Allows ready) (hR : ready.sockets = R) :
    ep.belowStart R ≤ R.card := by
  rw [← h.countP_holdsOneOf hready hR]
  unfold belowStart
  rcases Nat.le_total ep.start ep.maxcount with hle | hle
  · exact (List.range_sublist.mpr hle).countP_le
  · rw [range_eq_append hle, List.countP_append]
    have hnone :
        (List.range' ep.maxcount (ep.start - ep.maxcount)).countP (ep.holdsOneOf R) = 0 := by
      rw [List.countP_eq_zero]
      intro i hi hholds
      obtain ⟨s, -, hs⟩ := holdsOneOf_iff.mp hholds
      have := h.lt_maxcount i s hs
      have := List.mem_range'_1.mp hi
      omega
    omega

/-- With more ready sockets than room, a socket is reported by one of the calls if its slot is not
below `start`, or if few enough of the ready sockets are in slots before it. -/
theorem Refines.exists_reports_iff (h : ep.Refines m) (hmax : 1 ≤ maxevents) (ready : ℕ → Ready)
    (behind : ℕ → ℕ → Option ℕ × EpollEvent)
    (hready : ∀ k, k < fdSetSize → ep.waitSets.Allows (ready k))
    (hR : ∀ k, k < fdSetSize → (ready k).sockets = R)
    (hone : ∀ k, k < fdSetSize → (ready k).rc = R.card) (hmany : maxevents < R.card) {i s : ℕ}
    (hs : s ∈ R) (hi : ep.socket i = some s) :
    (∃ k, k < fdSetSize ∧
        (ep.after maxevents ready behind k).Reports maxevents (ready k) (behind k) s) ↔
      ep.start ≤ i ∨ (List.range i).countP (ep.holdsOneOf R) < maxevents.toNat := by
  have hlt := h.lt_maxcount i s hi
  have hcount := h.countP_holdsOneOf (hready 0 (by decide)) (hR 0 (by decide))
  rw [← exists_pass_found_iff (g := fun k => ep.report (behind k) (ready k))
    (p := ep.holdsOneOf R)
    (fun k hk i hi => report_isSome_eq (hi.trans_le h.maxcount_le) (hR k hk)) h.maxcount_le
    (by omega) (by omega) hlt (holdsOneOf_iff.mpr ⟨s, hs, hi⟩)]
  refine exists_congr fun k => and_congr_right fun hk => ?_
  have hmin : min maxevents.toNat (ready k).rc = maxevents.toNat := by
    rw [hone k hk]
    omega
  rw [h.after_eq hmax hready hR hone hmany hk.le,
    (h.with_start (ep.start + k)).reports_iff_mem hmax (hready k hk) ((hR k hk).symm ▸ hs) hi,
    scan, hmin]
  rfl

/-- **Which sockets are reported.**  All of them exactly if no more than `maxevents` are in slots
below `start`. -/
theorem Refines.forall_reports_iff (h : ep.Refines m) (hmax : 1 ≤ maxevents)
    (hready : ∀ k, k < fdSetSize → ep.waitSets.Allows (ready k))
    (hR : ∀ k, k < fdSetSize → (ready k).sockets = R)
    (hone : ∀ k, k < fdSetSize → Disjoint (ready k).readfds (ready k).exceptfds) :
    (∀ socket ∈ R, ∃ k, k < fdSetSize ∧
        (ep.after maxevents ready behind k).Reports maxevents (ready k) (behind k) socket) ↔
      (ep.belowStart R : ℤ) ≤ maxevents := by
  have hrc : ∀ k, k < fdSetSize → (ready k).rc = R.card := fun k hk => by
    rw [← hR k hk]
    exact (Finset.card_union_of_disjoint (hone k hk)).symm
  have hzero : 0 < fdSetSize := by decide
  have hslot : ∀ s ∈ R, ∃ i, ep.socket i = some s := fun s hs =>
    h.exists_slot (hready 0 hzero) ((hR 0 hzero).symm ▸ hs)
  by_cases hroom : (R.card : ℤ) ≤ maxevents
  · have hbelow := h.belowStart_le (hready 0 hzero) (hR 0 hzero)
    refine iff_of_true (fun s hs => ?_) (by omega)
    obtain ⟨i, hi⟩ := hslot s hs
    exact ⟨0, hzero, (h.reports_iff_mem hmax (hready 0 hzero) ((hR 0 hzero).symm ▸ hs) hi).mpr
      (h.mem_scan_of_room (hready 0 hzero) (hR 0 hzero) (hrc 0 hzero) (by omega) hs hi)⟩
  · have hserved : ∀ i s, s ∈ R → ep.socket i = some s → _ := fun i s =>
      h.exists_reports_iff hmax ready behind hready hR hrc (by omega)
    have hnat : (ep.belowStart R : ℤ) ≤ maxevents ↔ ep.belowStart R ≤ maxevents.toNat := by omega
    rw [hnat, belowStart, ← forall_countP_lt_iff]
    constructor
    · intro hall i hlt hholds
      obtain ⟨s, hs, hi⟩ := holdsOneOf_iff.mp hholds
      exact ((hserved i s hs hi).mp (hall s hs)).resolve_left (Nat.not_le.mpr hlt)
    · intro hfew s hs
      obtain ⟨i, hi⟩ := hslot s hs
      refine (hserved i s hs hi).mpr ?_
      by_cases hle : ep.start ≤ i
      · exact Or.inl hle
      · exact Or.inr (hfew i (Nat.lt_of_not_le hle) (holdsOneOf_iff.mpr ⟨s, hs, hi⟩))

end Epoll

/-- **Who is starved.**  In any state that calls have led to, if the same sockets are reported
ready by `select`, each in one set, to `FD_SETSIZE` calls in a row with the same room, all of them
are reported by one of the calls exactly if at most `maxevents` of them were in slots below
`start` at the first. -/
theorem epoll_wait_starves_nobody_iff (flags : ℤ) (run : List PollAction) (ep : Epoll)
    (hrun : exec Epoll.pollStep (epollCreate1 flags) run = some ep) (maxevents : ℤ)
    (hmax : 1 ≤ maxevents) (R : Finset ℕ) (ready : ℕ → Ready)
    (hready : ∀ k, k < fdSetSize → ep.waitSets.Allows (ready k))
    (hR : ∀ k, k < fdSetSize → (ready k).sockets = R)
    (hone : ∀ k, k < fdSetSize → Disjoint (ready k).readfds (ready k).exceptfds)
    (behind : ℕ → ℕ → Option ℕ × EpollEvent) :
    (∀ socket ∈ R, ∃ k, k < fdSetSize ∧
        (ep.after maxevents ready behind k).Reports maxevents (ready k) (behind k) socket) ↔
      (ep.belowStart R : ℤ) ≤ maxevents := by
  obtain ⟨m, h⟩ := Epoll.valid_of_exec hrun
  exact h.forall_reports_iff hmax hready hR hone

/-- Two sockets are registered. -/
def twoSockets : List PollAction :=
  [.ctl ⟨epollCtlAdd, 7, some ⟨epollIn, 70⟩⟩, .ctl ⟨epollCtlAdd, 8, some ⟨epollIn, 80⟩⟩]

/-- Both are ready. -/
def twoReady : Ready := ⟨{7, 8}, ∅⟩

/-- Nothing is behind the arrays. -/
def nothingBehind : ℕ → Option ℕ × EpollEvent := fun _ => (none, ⟨0, 0⟩)

/-- With a new instance, both sockets are reported though there is room for one. -/
theorem epoll_wait_starves_nobody_at_start :
    ∃ ep, exec Epoll.pollStep (epollCreate1 0) twoSockets = some ep ∧
      ∀ socket ∈ ({7, 8} : Finset ℕ), ∃ k, k < fdSetSize ∧
        (ep.after 1 (fun _ => twoReady) (fun _ => nothingBehind) k).Reports 1 twoReady
          nothingBehind socket :=
  ⟨_, rfl, (epoll_wait_starves_nobody_iff 0 twoSockets _ rfl 1 (by decide) {7, 8}
    (fun _ => twoReady) (fun _ _ => by decide) (fun _ _ => by decide) (fun _ _ => by decide)
    fun _ => nothingBehind).mpr (by decide)⟩

/-- Two calls with room for one of them. -/
def twoWaits : List PollAction :=
  twoSockets ++ List.replicate 2 (.wait ⟨true, 1, 0⟩ (.ok twoReady) nothingBehind)

/-- After two calls with room for one event, `start` is behind both sockets; from then on the
second is not reported, however often it is ready. -/
theorem epoll_wait_starves_second :
    ∃ ep, exec Epoll.pollStep (epollCreate1 0) twoWaits = some ep ∧ ep.start = 2 ∧
      ep.socket 1 = some 8 ∧ ∀ k, k < fdSetSize →
        ¬ (ep.after 1 (fun _ => twoReady) (fun _ => nothingBehind) k).Reports 1 twoReady
          nothingBehind 8 := by
  obtain ⟨ep, hep, hstart, hsocket, hallows, hcount⟩ : ∃ ep,
      exec Epoll.pollStep (epollCreate1 0) twoWaits = some ep ∧ ep.start = 2 ∧
        ep.socket 1 = some 8 ∧ ep.waitSets.Allows twoReady ∧
        (List.range 1).countP (ep.holdsOneOf {7, 8}) = 1 :=
    ⟨_, rfl, by decide, by decide, by decide, by decide⟩
  obtain ⟨m, h⟩ := Epoll.valid_of_exec hep
  refine ⟨ep, hep, hstart, hsocket, fun k hk hreports => ?_⟩
  have hiff := h.exists_reports_iff (le_refl (1 : ℤ)) (fun _ => twoReady)
    (fun _ => nothingBehind) (R := {7, 8}) (fun _ _ => hallows) (fun _ _ => by decide)
    (fun _ _ => by decide) (by decide) (s := 8) (by decide) hsocket
  rcases hiff.mp ⟨k, hk, hreports⟩ with hle | hlt
  · omega
  · rw [hcount] at hlt
    exact absurd hlt (by decide)

end Wpdk
