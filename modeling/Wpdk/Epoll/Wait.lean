import Wpdk.Base.Scan
import Wpdk.Epoll.Interest

/-!
# Waiting for events

`wpdk_epoll_wait` puts the registered sockets into a read set and an exception set, lets `select`
say which of them are ready, and goes through the slots to write down the events.  It begins at
the slot `start` and goes round in two loops, which both stop when `maxevents` events have been
written or as many as `select` has counted.  `select` counts a socket once for each set that it
is in, so that its count is not the number of sockets but an upper bound of it.

The second loop is bounded by `start` and not by the end of the arrays.  What it reads behind them
is a parameter, `behind`.

* `Epoll.wait`: the function of the source, with what `select` has answered.
* `Refines.mem_readfds_iff`, `Refines.mem_exceptfds_iff`: the sets that are passed to `select`.
* `length_hits_report`: there is one event to report for each ready socket.
* `wait_of_ready`: what a call with valid arguments does.
* `epoll_wait_reports_ready`: the events are those of the ready sockets, each at most once.
-/

namespace Wpdk

open Run

/-- `EPOLLIN`. -/
def epollIn : BitVec 32 := 1

/-- `EPOLLERR`. -/
def epollErr : BitVec 32 := 4

/-- `FD_SET`: Winsock keeps an array, and leaves out what is there already or has no room. -/
def fdSet (set : List ℕ) (socket : ℕ) : List ℕ :=
  if socket ∈ set ∨ fdSetSize ≤ set.length then set else set ++ [socket]

/-- The sets for `select`, and whether there is anything in them. -/
structure WaitSets where
  readfds : List ℕ
  exceptfds : List ℕ
  worktodo : Bool

/-- The sets as `select` leaves them. -/
structure Ready where
  readfds : Finset ℕ
  exceptfds : Finset ℕ

/-- The ready sockets. -/
def Ready.sockets (ready : Ready) : Finset ℕ := ready.readfds ∪ ready.exceptfds

/-- The return value of `select`, which counts members of sets. -/
def Ready.rc (ready : Ready) : ℕ := ready.readfds.card + ready.exceptfds.card

/-- The flags to report for a socket. -/
def Ready.flags (ready : Ready) (socket : ℕ) : BitVec 32 :=
  (if socket ∈ ready.readfds then epollIn else 0) |||
    (if socket ∈ ready.exceptfds then epollErr else 0)

/-- `select` removes members and adds none. -/
def WaitSets.Allows (sets : WaitSets) (ready : Ready) : Prop :=
  (∀ socket ∈ ready.readfds, socket ∈ sets.readfds) ∧
    ∀ socket ∈ ready.exceptfds, socket ∈ sets.exceptfds

instance (sets : WaitSets) (ready : Ready) : Decidable (sets.Allows ready) :=
  inferInstanceAs (Decidable (_ ∧ _))

/-- The arguments of a call: whether there is an array for the events, its length, and the
timeout. -/
structure WaitCall where
  events : Bool
  maxevents : ℤ
  timeout : ℤ

/-- The arguments that the function supports. -/
def WaitCall.Valid (call : WaitCall) : Prop :=
  call.timeout = 0 ∧ call.events = true ∧ 1 ≤ call.maxevents

theorem WaitCall.valid_of_one_le {maxevents : ℤ} (h : 1 ≤ maxevents) :
    WaitCall.Valid ⟨true, maxevents, 0⟩ :=
  ⟨rfl, rfl, h⟩

namespace Epoll

/-- The body of the loop that fills the sets. -/
def addSlot (ep : Epoll) (sets : WaitSets) (i : ℕ) : WaitSets :=
  match ep.socket i with
  | none => sets
  | some socket =>
    let sets :=
      if (ep.event i).events &&& epollIn ≠ 0 then
        { sets with readfds := fdSet sets.readfds socket, worktodo := true }
      else sets
    if (ep.event i).events &&& epollErr ≠ 0 then
      { sets with exceptfds := fdSet sets.exceptfds socket, worktodo := true }
    else sets

/-- The sets that the loop over the slots has filled. -/
def waitSets (ep : Epoll) : WaitSets :=
  (List.range ep.maxcount).foldl ep.addSlot ⟨[], [], false⟩

/-- A slot as the scan loops read it. -/
def slot (ep : Epoll) (behind : ℕ → Option ℕ × EpollEvent) (i : ℕ) : Option ℕ × EpollEvent :=
  if i < fdSetSize then (ep.socket i, ep.event i) else behind i

/-- The body of the scan loops: the event to report for a slot. -/
def report (ep : Epoll) (behind : ℕ → Option ℕ × EpollEvent) (ready : Ready) (i : ℕ) :
    Option EpollEvent :=
  match ep.slot behind i with
  | (none, _) => none
  | (some socket, event) =>
    if socket ∈ ready.readfds ∨ socket ∈ ready.exceptfds then
      some ⟨ready.flags socket, event.data⟩
    else none

/-- The two scan loops, with `n < maxevents && n < rc`. -/
def scan (ep : Epoll) (behind : ℕ → Option ℕ × EpollEvent) (ready : Ready) (maxevents : ℕ) :
    Scan EpollEvent :=
  Scan.pass (ep.report behind ready) (min maxevents ready.rc) ep.maxcount ep.start

/-- `wpdk_epoll_wait` on an instance: the instance after it, and the error or what was found. -/
def wait (ep : Epoll) (call : WaitCall) (answer : Except WinError Ready)
    (behind : ℕ → Option ℕ × EpollEvent) : Epoll × Except ℕ (Scan EpollEvent) :=
  if call.timeout ≠ 0 ∨ call.events = false ∨ call.maxevents < 1 then
    (ep, .error Errno.einval.code)
  else if ep.waitSets.worktodo = false then (ep, .ok Scan.empty)
  else
    match answer with
    | .error e => (ep, .error (convertToPosix e))
    | .ok ready =>
      let s := ep.scan behind ready call.maxevents.toNat
      (if ready.rc > s.found.length then { ep with start := ep.start + 1 } else ep, .ok s)

end Epoll

/-- `wpdk_epoll_wait`, on the instance of `epfd` if the descriptor has one. -/
def epollWait (ep : Option Epoll) (call : WaitCall) (answer : Except WinError Ready)
    (behind : ℕ → Option ℕ × EpollEvent) : Option Epoll × Except ℕ (Scan EpollEvent) :=
  match ep with
  | none => (none, .error Errno.ebadf.code)
  | some ep => ((ep.wait call answer behind).1, (ep.wait call answer behind).2)

/-! ## The sets for `select` -/

theorem mem_fdSet {set : List ℕ} {socket s : ℕ} (hroom : set.length < fdSetSize) :
    s ∈ fdSet set socket ↔ s ∈ set ∨ s = socket := by
  unfold fdSet
  split_ifs with h
  · have hmem := h.resolve_right (Nat.not_le.mpr hroom)
    constructor
    · exact Or.inl
    · rintro (hs | rfl)
      · exact hs
      · exact hmem
  · simp

theorem length_fdSet_le (set : List ℕ) (socket : ℕ) :
    (fdSet set socket).length ≤ set.length + 1 := by
  unfold fdSet
  split_ifs <;> simp

namespace Epoll

/-- What the loop does to the set for one of the flags. -/
def addFlag (ep : Epoll) (flag : BitVec 32) (set : List ℕ) (i : ℕ) : List ℕ :=
  match ep.socket i with
  | none => set
  | some socket => if (ep.event i).events &&& flag ≠ 0 then fdSet set socket else set

variable {ep : Epoll} {m : InterestMap}

theorem addFlag_of_none {flag : BitVec 32} {set : List ℕ} {i : ℕ} (h : ep.socket i = none) :
    ep.addFlag flag set i = set := by
  simp only [addFlag, h]

theorem addFlag_of_some {flag : BitVec 32} {set : List ℕ} {i socket : ℕ}
    (h : ep.socket i = some socket) :
    ep.addFlag flag set i =
      if (ep.event i).events &&& flag ≠ 0 then fdSet set socket else set := by
  simp only [addFlag, h]

theorem addSlot_eq (ep : Epoll) (sets : WaitSets) (i : ℕ) :
    (ep.addSlot sets i).readfds = ep.addFlag epollIn sets.readfds i ∧
      (ep.addSlot sets i).exceptfds = ep.addFlag epollErr sets.exceptfds i ∧
      ((ep.addSlot sets i).worktodo = false → ep.addSlot sets i = sets) := by
  cases h : ep.socket i with
  | none =>
    rw [addFlag_of_none h, addFlag_of_none h]
    simp only [addSlot, h]
    exact ⟨trivial, trivial, fun _ => trivial⟩
  | some socket =>
    rw [addFlag_of_some h, addFlag_of_some h]
    simp only [addSlot, h]
    refine ⟨?_, ?_, ?_⟩
    · split_ifs <;> rfl
    · split_ifs <;> rfl
    · split_ifs <;> simp

theorem foldl_addSlot (l : List ℕ) (sets : WaitSets) :
    (l.foldl ep.addSlot sets).readfds = l.foldl (ep.addFlag epollIn) sets.readfds ∧
      (l.foldl ep.addSlot sets).exceptfds = l.foldl (ep.addFlag epollErr) sets.exceptfds ∧
      ((l.foldl ep.addSlot sets).worktodo = false → l.foldl ep.addSlot sets = sets) := by
  induction l generalizing sets with
  | nil => exact ⟨rfl, rfl, fun _ => rfl⟩
  | cons i l ih =>
    obtain ⟨hread, hexcept, hwork⟩ := addSlot_eq ep sets i
    obtain ⟨ihread, ihexcept, ihwork⟩ := ih (ep.addSlot sets i)
    simp only [List.foldl_cons]
    refine ⟨by rw [ihread, hread], by rw [ihexcept, hexcept], fun h => ?_⟩
    have hrest := ihwork h
    rw [hrest] at h ⊢
    exact hwork h

/-- The set for a flag has the sockets that are registered for it.  There is room for them
because a slot adds at most one. -/
theorem mem_foldl_addFlag (flag : BitVec 32) {k : ℕ} (hk : k ≤ fdSetSize) :
    ((List.range k).foldl (ep.addFlag flag) []).length ≤ k ∧
      ∀ s, s ∈ (List.range k).foldl (ep.addFlag flag) [] ↔
        ∃ i, i < k ∧ ep.socket i = some s ∧ (ep.event i).events &&& flag ≠ 0 := by
  induction k with
  | zero => simp
  | succ k ih =>
    obtain ⟨hlen, hmem⟩ := ih (Nat.le_of_succ_le hk)
    rw [List.range_succ, List.foldl_append, List.foldl_cons, List.foldl_nil]
    cases h : ep.socket k with
    | none =>
      rw [addFlag_of_none h]
      refine ⟨Nat.le_succ_of_le hlen, fun s => ?_⟩
      rw [hmem, Nat.exists_lt_succ_right]
      simp [h]
    | some socket =>
      rw [addFlag_of_some h]
      split_ifs with hflag
      · refine ⟨(length_fdSet_le _ _).trans (Nat.succ_le_succ hlen), fun s => ?_⟩
        rw [mem_fdSet (Nat.lt_of_le_of_lt hlen hk), hmem, Nat.exists_lt_succ_right, h,
          Option.some.injEq, and_iff_left hflag, eq_comm (a := s)]
      · refine ⟨Nat.le_succ_of_le hlen, fun s => ?_⟩
        rw [hmem, Nat.exists_lt_succ_right]
        exact (or_iff_left fun hk => hflag hk.2).symm

theorem Refines.mem_foldl_iff (h : ep.Refines m) {flag : BitVec 32} {s : ℕ} :
    s ∈ (List.range ep.maxcount).foldl (ep.addFlag flag) [] ↔
      ∃ event, m.lookup s = some event ∧ event.events &&& flag ≠ 0 := by
  rw [(mem_foldl_addFlag flag h.maxcount_le).2]
  constructor
  · rintro ⟨i, -, hi, hflag⟩
    exact ⟨_, (h.represents.lookup_iff s _).mpr ⟨i, hi, rfl⟩, hflag⟩
  · rintro ⟨event, hlookup, hflag⟩
    obtain ⟨i, hi, rfl⟩ := (h.represents.lookup_iff s _).mp hlookup
    exact ⟨i, h.lt_maxcount i s hi, hi, hflag⟩

/-- The read set has the sockets that are registered with `EPOLLIN`. -/
theorem Refines.mem_readfds_iff (h : ep.Refines m) {s : ℕ} :
    s ∈ ep.waitSets.readfds ↔
      ∃ event, m.lookup s = some event ∧ event.events &&& epollIn ≠ 0 := by
  rw [waitSets, (foldl_addSlot _ _).1]
  exact h.mem_foldl_iff

/-- The exception set has the sockets that are registered with `EPOLLERR`. -/
theorem Refines.mem_exceptfds_iff (h : ep.Refines m) {s : ℕ} :
    s ∈ ep.waitSets.exceptfds ↔
      ∃ event, m.lookup s = some event ∧ event.events &&& epollErr ≠ 0 := by
  rw [waitSets, (foldl_addSlot _ _).2.1]
  exact h.mem_foldl_iff

/-- Without work to do, nothing is ready. -/
theorem sockets_eq_empty {ready : Ready} (hwork : ep.waitSets.worktodo = false)
    (hready : ep.waitSets.Allows ready) : ready.sockets = ∅ := by
  rw [waitSets, (foldl_addSlot _ _).2.2 hwork] at hready
  obtain ⟨hread, hexcept⟩ := hready
  rw [Ready.sockets, Finset.eq_empty_of_forall_notMem fun s hs => List.not_mem_nil (hread s hs),
    Finset.eq_empty_of_forall_notMem fun s hs => List.not_mem_nil (hexcept s hs)]
  rfl

/-- What is ready is registered, with the flags that it is ready for. -/
theorem Refines.lookup_of_ready (h : ep.Refines m) {ready : Ready}
    (hready : ep.waitSets.Allows ready) {s : ℕ} (hs : s ∈ ready.sockets) :
    ∃ event, m.lookup s = some event ∧ (s ∈ ready.readfds → event.events &&& epollIn ≠ 0) ∧
      (s ∈ ready.exceptfds → event.events &&& epollErr ≠ 0) := by
  have hone : ∃ event, m.lookup s = some event := by
    rcases Finset.mem_union.mp hs with hs | hs
    · obtain ⟨event, hevent, -⟩ := h.mem_readfds_iff.mp (hready.1 s hs)
      exact ⟨event, hevent⟩
    · obtain ⟨event, hevent, -⟩ := h.mem_exceptfds_iff.mp (hready.2 s hs)
      exact ⟨event, hevent⟩
  obtain ⟨event, hevent⟩ := hone
  refine ⟨event, hevent, fun hread => ?_, fun hexcept => ?_⟩
  · obtain ⟨event', hevent', hflag⟩ := h.mem_readfds_iff.mp (hready.1 s hread)
    rwa [Option.some.inj (hevent.symm.trans hevent')]
  · obtain ⟨event', hevent', hflag⟩ := h.mem_exceptfds_iff.mp (hready.2 s hexcept)
    rwa [Option.some.inj (hevent.symm.trans hevent')]

/-! ## The scan -/

section Scan

variable {behind : ℕ → Option ℕ × EpollEvent} {ready : Ready}

theorem slot_of_lt {i : ℕ} (h : i < fdSetSize) : ep.slot behind i = (ep.socket i, ep.event i) :=
  if_pos h

theorem report_of_none {i : ℕ} (hi : i < fdSetSize) (h : ep.socket i = none) :
    ep.report behind ready i = none := by
  unfold report
  rw [slot_of_lt hi, h]

theorem report_of_some {i socket : ℕ} (hi : i < fdSetSize) (h : ep.socket i = some socket) :
    ep.report behind ready i =
      if socket ∈ ready.sockets then some ⟨ready.flags socket, (ep.event i).data⟩ else none := by
  unfold report Ready.sockets
  rw [slot_of_lt hi, h]
  simp only [Finset.mem_union]

/-- There is an event to report for the slots of the ready sockets. -/
theorem report_isSome_iff {i : ℕ} (hi : i < fdSetSize) :
    (ep.report behind ready i).isSome ↔ ∃ s ∈ ready.sockets, ep.socket i = some s := by
  cases h : ep.socket i with
  | none => simp [report_of_none hi h]
  | some socket =>
    rw [report_of_some hi h]
    split_ifs with hs <;> simp [hs]

theorem card_sockets_le_rc (ready : Ready) : ready.sockets.card ≤ ready.rc :=
  Finset.card_union_le _ _

/-- There is one event to report for each ready socket. -/
theorem Refines.length_hits_report (h : ep.Refines m) (behind : ℕ → Option ℕ × EpollEvent)
    (hready : ep.waitSets.Allows ready) :
    (hits (ep.report behind ready) (List.range ep.maxcount)).length = ready.sockets.card := by
  have hslots : Represents ep.socket ep.event ep.maxcount m :=
    ⟨h.lt_maxcount, h.represents.distinct, h.represents.lookup_iff⟩
  have hmem : ∀ s ∈ ready.sockets, s ∈ m := fun s hs => by
    obtain ⟨event, hevent, -⟩ := h.lookup_of_ready hready hs
    exact Finmap.mem_iff.mpr ⟨event, hevent⟩
  rw [← hslots.card_slots hmem, ← List.length_map (f := Prod.fst), map_fst_hits,
    ← List.toFinset_card_of_nodup (List.nodup_range.filter _)]
  congr 1
  ext i
  simp only [List.mem_toFinset, List.mem_filter, List.mem_range, Finset.mem_filter,
    Finset.mem_range]
  refine and_congr_right fun hi => ?_
  rw [report_isSome_iff (hi.trans_le h.maxcount_le)]

/-- The scan finds the first events in the order of the rotation.  The start may be behind the
slots in use if it is inside the arrays, or if each socket is ready in one set. -/
theorem Refines.scan_found (h : ep.Refines m) (behind : ℕ → Option ℕ × EpollEvent)
    (hready : ep.waitSets.Allows ready)
    (hstart : ep.start ≤ fdSetSize ∨ ready.rc = ready.sockets.card) (maxevents : ℕ) :
    (ep.scan behind ready maxevents).found =
      (hits (ep.report behind ready) (rotation ep.maxcount ep.start)).take
        (min maxevents ready.rc) := by
  refine pass_found ?_
  rcases hstart with hstart | hrc
  · left
    intro i hi hi'
    refine report_of_none (hi'.trans_le hstart) ?_
    rw [Option.eq_none_iff_forall_ne_some]
    intro s hs
    exact absurd (h.lt_maxcount i s hs) (Nat.not_lt.mpr hi)
  · right
    rw [h.length_hits_report behind hready, hrc]
    exact Nat.min_le_right _ _

/-- As many events are found as there are ready sockets and room. -/
theorem Refines.length_scan_found (h : ep.Refines m) (behind : ℕ → Option ℕ × EpollEvent)
    (hready : ep.waitSets.Allows ready)
    (hstart : ep.start ≤ fdSetSize ∨ ready.rc = ready.sockets.card) (maxevents : ℕ) :
    (ep.scan behind ready maxevents).found.length = min maxevents ready.sockets.card := by
  have hcard := card_sockets_le_rc ready
  rw [h.scan_found behind hready hstart, List.length_take, length_hits_perm (rotation_perm _ _),
    h.length_hits_report behind hready]
  omega

end Scan

/-! ## A call -/

section Wait

variable {call : WaitCall} {behind : ℕ → Option ℕ × EpollEvent}

theorem wait_of_invalid (h : ¬ call.Valid) (answer : Except WinError Ready) :
    ep.wait call answer behind = (ep, .error Errno.einval.code) := by
  unfold WaitCall.Valid at h
  unfold wait
  rw [if_pos]
  by_contra hnot
  simp only [not_or, not_not, Bool.not_eq_false, Int.not_lt] at hnot
  exact h hnot

theorem wait_of_idle (h : call.Valid) (hwork : ep.waitSets.worktodo = false)
    (answer : Except WinError Ready) : ep.wait call answer behind = (ep, .ok Scan.empty) := by
  obtain ⟨htimeout, hevents, hmax⟩ := h
  unfold wait
  rw [if_neg (by simp [htimeout, hevents]; omega), if_pos hwork]

theorem wait_of_error (h : call.Valid) (hwork : ep.waitSets.worktodo = true) (e : WinError) :
    ep.wait call (.error e) behind = (ep, .error (convertToPosix e)) := by
  obtain ⟨htimeout, hevents, hmax⟩ := h
  unfold wait
  rw [if_neg (by simp [htimeout, hevents]; omega), if_neg (by simp [hwork])]

theorem wait_of_ready (h : call.Valid) (hwork : ep.waitSets.worktodo = true) (ready : Ready)
    (behind : ℕ → Option ℕ × EpollEvent) :
    ep.wait call (.ok ready) behind =
      (if ready.rc > (ep.scan behind ready call.maxevents.toNat).found.length then
          { ep with start := ep.start + 1 } else ep,
        .ok (ep.scan behind ready call.maxevents.toNat)) := by
  obtain ⟨htimeout, hevents, hmax⟩ := h
  unfold wait
  rw [if_neg (by simp [htimeout, hevents]; omega), if_neg (by simp [hwork])]

/-- A call changes nothing but the start, and that by at most one. -/
theorem wait_fst (ep : Epoll) (call : WaitCall) (answer : Except WinError Ready)
    (behind : ℕ → Option ℕ × EpollEvent) :
    (ep.wait call answer behind).1 = ep ∨
      (ep.wait call answer behind).1 = { ep with start := ep.start + 1 } := by
  by_cases h : call.Valid
  swap
  · exact Or.inl (by rw [wait_of_invalid h])
  cases hwork : ep.waitSets.worktodo with
  | false => exact Or.inl (by rw [wait_of_idle h hwork])
  | true =>
    cases answer with
    | error e => exact Or.inl (by rw [wait_of_error h hwork])
    | ok ready =>
      rw [wait_of_ready h hwork]
      dsimp only
      split_ifs
      · exact Or.inr rfl
      · exact Or.inl rfl

end Wait

theorem Refines.with_start (h : ep.Refines m) (start : ℕ) :
    Epoll.Refines { ep with start := start } m :=
  ⟨h.represents, h.lt_maxcount, h.maxcount_le⟩

end Epoll

/-! ## What is reported -/

/-- **The event is right for the socket.**  It carries the data that was registered, its flags are
those of the sets that the socket is in, and they have been registered. -/
structure EventFor (m : InterestMap) (ready : Ready) (socket : ℕ) (event : EpollEvent) : Prop where
  isReady : socket ∈ ready.sockets
  in_iff : event.events &&& epollIn ≠ 0 ↔ socket ∈ ready.readfds
  err_iff : event.events &&& epollErr ≠ 0 ↔ socket ∈ ready.exceptfds
  registered : ∃ registered, m.lookup socket = some registered ∧
    event.data = registered.data ∧ event.events &&& ~~~registered.events = 0

/-- **The events are right for the ready sockets**: there are as many as there is room for, and
they are for different sockets. -/
def ReportsReady (m : InterestMap) (ready : Ready) (maxevents : ℤ) (events : List EpollEvent) :
    Prop :=
  (events.length : ℤ) = min maxevents ready.sockets.card ∧
    ∃ sockets : List ℕ, sockets.Nodup ∧ List.Forall₂ (EventFor m ready) sockets events

theorem flags_and_epollIn (ready : Ready) (socket : ℕ) :
    ready.flags socket &&& epollIn ≠ 0 ↔ socket ∈ ready.readfds := by
  unfold Ready.flags
  split_ifs with hread hexcept hexcept <;> simp [hread, epollIn, epollErr]

theorem flags_and_epollErr (ready : Ready) (socket : ℕ) :
    ready.flags socket &&& epollErr ≠ 0 ↔ socket ∈ ready.exceptfds := by
  unfold Ready.flags
  split_ifs with hread hexcept hexcept <;> simp [hexcept, epollIn, epollErr]

/-- A flag of one bit that has been registered is not outside what has been registered. -/
theorem flag_and_not_eq_zero {flag registered : BitVec 32} {k : ℕ}
    (hflag : flag = BitVec.twoPow 32 k) (h : registered &&& flag ≠ 0) :
    flag &&& ~~~registered = 0 := by
  have hfull : registered &&& flag = flag := by
    rw [hflag, BitVec.and_twoPow] at h ⊢
    split_ifs at h ⊢ with hbit
    · rfl
    · exact absurd rfl h
  rw [← hfull, BitVec.and_comm registered, BitVec.and_assoc, BitVec.and_not_self]
  exact BitVec.and_zero

theorem flags_and_not_eq_zero {ready : Ready} {socket : ℕ} {registered : BitVec 32}
    (hread : socket ∈ ready.readfds → registered &&& epollIn ≠ 0)
    (hexcept : socket ∈ ready.exceptfds → registered &&& epollErr ≠ 0) :
    ready.flags socket &&& ~~~registered = 0 := by
  unfold Ready.flags
  rw [BitVec.and_or_distrib_right]
  have hin : (if socket ∈ ready.readfds then epollIn else 0) &&& ~~~registered = 0 := by
    split_ifs with h
    · exact flag_and_not_eq_zero (k := 0) (by decide) (hread h)
    · exact BitVec.zero_and
  have herr : (if socket ∈ ready.exceptfds then epollErr else 0) &&& ~~~registered = 0 := by
    split_ifs with h
    · exact flag_and_not_eq_zero (k := 2) (by decide) (hexcept h)
    · exact BitVec.zero_and
  rw [hin, herr]
  rfl

namespace Epoll.Refines

variable {ep : Epoll} {m : InterestMap} {ready : Ready} {behind : ℕ → Option ℕ × EpollEvent}

/-- What is found at a slot is right for the socket in it. -/
theorem eventFor (h : ep.Refines m) (hready : ep.waitSets.Allows ready) {i : ℕ}
    {event : EpollEvent} (hi : i < ep.maxcount) (hevent : ep.report behind ready i = some event) :
    ∃ socket, ep.socket i = some socket ∧ EventFor m ready socket event := by
  have hlt := hi.trans_le h.maxcount_le
  cases hsocket : ep.socket i with
  | none =>
    rw [Epoll.report_of_none hlt hsocket] at hevent
    cases hevent
  | some socket =>
    rw [Epoll.report_of_some hlt hsocket] at hevent
    split_ifs at hevent with hs
    obtain rfl := Option.some.inj hevent
    obtain ⟨registered, hlookup, hread, hexcept⟩ := h.lookup_of_ready hready hs
    obtain ⟨j, hj, rfl⟩ := (h.represents.lookup_iff socket registered).mp hlookup
    obtain rfl := h.represents.distinct i j socket hsocket hj
    exact ⟨socket, rfl, hs, flags_and_epollIn ready socket, flags_and_epollErr ready socket,
      _, hlookup, rfl, flags_and_not_eq_zero hread hexcept⟩

theorem scan_reportsReady (h : ep.Refines m) (hready : ep.waitSets.Allows ready)
    (hstart : ep.start ≤ fdSetSize) {maxevents : ℤ} (hmax : 1 ≤ maxevents) :
    ReportsReady m ready maxevents
      ((ep.scan behind ready maxevents.toNat).found.map Prod.snd) := by
  have hfound := h.scan_found behind hready (Or.inl hstart) maxevents.toNat
  have hright : ∀ r ∈ (ep.scan behind ready maxevents.toNat).found,
      ∃ socket, ep.socket r.1 = some socket ∧ EventFor m ready socket r.2 := by
    rintro ⟨i, event⟩ hr
    rw [hfound] at hr
    obtain ⟨hi, hevent⟩ := mem_hits.mp (List.mem_of_mem_take hr)
    exact h.eventFor hready (mem_rotation.mp hi) hevent
  refine ⟨?_, (ep.scan behind ready maxevents.toNat).found.map
    fun r => (ep.socket r.1).getD 0, ?_, ?_⟩
  · rw [List.length_map, h.length_scan_found behind hready (Or.inl hstart)]
    omega
  · -- different slots have different sockets
    have hnodup : ((ep.scan behind ready maxevents.toNat).found.map Prod.fst).Nodup := by
      rw [hfound, List.map_take]
      exact (nodup_hits (rotation_nodup _ _)).sublist (List.take_sublist _ _)
    rw [← Function.comp_def (fun i => (ep.socket i).getD 0) Prod.fst, ← List.map_map]
    refine List.Nodup.map_on ?_ hnodup
    intro i hi j hj heq
    obtain ⟨r, hr, rfl⟩ := List.mem_map.mp hi
    obtain ⟨r', hr', rfl⟩ := List.mem_map.mp hj
    obtain ⟨socket, hsocket, -⟩ := hright r hr
    obtain ⟨socket', hsocket', -⟩ := hright r' hr'
    rw [hsocket, hsocket', Option.getD_some, Option.getD_some] at heq
    exact h.represents.distinct _ _ socket hsocket (heq ▸ hsocket')
  · rw [List.forall₂_map_left_iff, List.forall₂_map_right_iff, List.forall₂_same]
    intro r hr
    obtain ⟨socket, hsocket, hevent⟩ := hright r hr
    rwa [hsocket, Option.getD_some]

theorem wait_reportsReady (h : ep.Refines m) (hready : ep.waitSets.Allows ready)
    (hstart : ep.start ≤ fdSetSize) {maxevents : ℤ} (hmax : 1 ≤ maxevents) :
    ∃ s, (ep.wait ⟨true, maxevents, 0⟩ (.ok ready) behind).2 = .ok s ∧
      ReportsReady m ready maxevents (s.found.map Prod.snd) := by
  have hvalid := WaitCall.valid_of_one_le hmax
  cases hwork : ep.waitSets.worktodo with
  | false =>
    refine ⟨_, congrArg Prod.snd (Epoll.wait_of_idle hvalid hwork _), ?_⟩
    refine ⟨?_, [], List.nodup_nil, List.Forall₂.nil⟩
    rw [Epoll.sockets_eq_empty hwork hready]
    simp only [Scan.empty, List.map_nil, List.length_nil, Finset.card_empty]
    omega
  | true =>
    exact ⟨_, congrArg Prod.snd (Epoll.wait_of_ready hvalid hwork ready behind),
      h.scan_reportsReady hready hstart hmax⟩

end Epoll.Refines

/-- **A wait reports exactly the ready registrations.**  Whatever calls have been made on the
interest list, from whatever start inside the arrays, and whatever `select` answers: as many
events are written as there are ready sockets and room for them, for different sockets, each with
the data and the flags that it should have. -/
theorem epoll_wait_reports_ready (flags : ℤ) (calls : List CtlCall) (ep : Epoll)
    (m : InterestMap) (hep : exec Epoll.ctlStep (epollCreate1 flags) calls = some ep)
    (hm : exec InterestMap.step ∅ calls = some m) (start : ℕ) (hstart : start ≤ fdSetSize)
    (maxevents : ℤ) (hmax : 1 ≤ maxevents) (ready : Ready) (hready : ep.waitSets.Allows ready)
    (behind : ℕ → Option ℕ × EpollEvent) :
    ∃ s, (epollWait (some { ep with start := start }) ⟨true, maxevents, 0⟩ (.ok ready)
        behind).2 = .ok s ∧ ReportsReady m ready maxevents (s.found.map Prod.snd) := by
  obtain ⟨ep', m', hep', hm', h⟩ := exists_refines flags calls
  obtain rfl := Option.some.inj (hep.symm.trans hep')
  obtain rfl := Option.some.inj (hm.symm.trans hm')
  exact (h.with_start start).wait_reportsReady hready hstart hmax

/-- Two sockets are registered, the second for exceptions too. -/
def pairCalls : List CtlCall :=
  [⟨epollCtlAdd, 7, some ⟨epollIn, 70⟩⟩, ⟨epollCtlAdd, 8, some ⟨epollIn ||| epollErr, 80⟩⟩]

/-- Both are ready, the second in both sets, and the start is behind both. -/
theorem epoll_wait_reports_pair :
    ∃ ep m, exec Epoll.ctlStep (epollCreate1 0) pairCalls = some ep ∧
      exec InterestMap.step ∅ pairCalls = some m ∧
      ∃ s, (epollWait (some { ep with start := 5 }) ⟨true, 10, 0⟩ (.ok ⟨{7, 8}, {8}⟩)
          fun _ => (none, ⟨0, 0⟩)).2 = .ok s ∧
        ReportsReady m ⟨{7, 8}, {8}⟩ 10 (s.found.map Prod.snd) :=
  ⟨_, _, rfl, rfl, epoll_wait_reports_ready 0 pairCalls _ _ rfl rfl 5 (by decide) 10 (by decide)
    ⟨{7, 8}, {8}⟩ (by decide) _⟩

end Wpdk
