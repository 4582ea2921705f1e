import Wpdk.Epoll.Wait
import Wpdk.Socket.Calls

/-!
# Polling

`wpdk_poll` of `poll.c`.  A first loop over the entries puts their sockets into three sets, one for
each kind of event that is requested; `select` leaves the sockets that are ready in the sets; and a
second loop reads off the sets what happened to the socket of each entry.  It does not look at what
the entry has requested, so that two entries for one socket share what they request.

* `Pollfd`, `Kind`: the entries, and the three kinds of events.
* `reset`, `addEntry`, `report`, `poll`: the function.  `select` is a parameter.
* `mem_sets_iff`: the sets that are passed to `select`.
* `expected`: the events of an entry that is polled alone.
* `poll_independent_iff`: the entries get these exactly if no entry sees what only another one for
  the same socket has requested.
-/

namespace Wpdk
namespace Poll

open Socket

/-- `POLLIN`. -/
def pollin : BitVec 16 := 0x300

/-- `POLLPRI`. -/
def pollpri : BitVec 16 := 0x400

/-- `POLLOUT`. -/
def pollout : BitVec 16 := 0x10

/-- `POLLERR`. -/
def pollerr : BitVec 16 := 1

/-- `POLLHUP`. -/
def pollhup : BitVec 16 := 2

/-- `POLLNVAL`. -/
def pollnval : BitVec 16 := 4

/-- `struct pollfd`. -/
structure Pollfd where
  fd : ℤ
  events : BitVec 16
  revents : BitVec 16
deriving DecidableEq

/-- The kinds of events, each with a set of its own. -/
inductive Kind where
  | read
  | write
  | except
deriving DecidableEq

/-- The flag that requests a kind of events. -/
def Kind.mask : Kind → BitVec 16
  | .read => pollin
  | .write => pollout
  | .except => pollpri

/-- The entry requests a kind of events. -/
def Pollfd.Requests (e : Pollfd) (k : Kind) : Prop := e.events &&& k.mask ≠ 0

instance (e : Pollfd) (k : Kind) : Decidable (e.Requests k) := inferInstanceAs (Decidable (_ ≠ _))

/-- The flags that report kinds of events. -/
def flags (happened : Kind → Bool) : BitVec 16 :=
  (if happened .read then pollin else 0) ||| (if happened .write then pollout else 0) |||
    (if happened .except then pollerr ||| pollhup ||| pollpri else 0)

/-- The sets for `select`, and whether there is anything in them. -/
structure PollSets where
  sets : Kind → List ℕ
  worktodo : Bool

/-- The socket of an entry that is looked at. -/
def socketOf (t : SocketTable) (e : Pollfd) : Option ℕ :=
  if e.fd < 0 then none else getSocket t e.fd

/-- The first loop: `revents` of an entry. -/
def reset (t : SocketTable) (e : Pollfd) : Pollfd :=
  if e.fd < 0 then { e with revents := 0 }
  else
    match getSocket t e.fd with
    | none => { e with revents := pollnval }
    | some _ => { e with revents := 0 }

/-- The first loop: the sets. -/
def addEntry (t : SocketTable) (s : PollSets) (e : Pollfd) : PollSets :=
  match socketOf t e with
  | none => s
  | some socket =>
    { sets := fun k => if e.Requests k then fdSet (s.sets k) socket else s.sets k
      worktodo := s.worktodo || decide (e.Requests .read) || decide (e.Requests .write) ||
        decide (e.Requests .except) }

/-- The sets after `FD_ZERO`. -/
def noSets : PollSets := ⟨fun _ => [], false⟩

/-- The sets that the first loop leaves. -/
def pollSets (t : SocketTable) (fds : List Pollfd) : PollSets := fds.foldl (addEntry t) noSets

/-- The second loop: an entry, with the sets as `select` has left them. -/
def report (t : SocketTable) (sets : Kind → List ℕ) (e : Pollfd) : Pollfd :=
  match socketOf t e with
  | none => e
  | some socket => { e with revents := e.revents ||| flags fun k => decide (socket ∈ sets k) }

/-- The second loop: the entries that are counted. -/
def counts (e : Pollfd) : Bool := !decide (e.fd < 0) && e.revents != 0

/-- The argument `timeout` of `select` in seconds and microseconds, or a null pointer. -/
def delay (timeout : ℤ) : Option (ℤ × ℤ) :=
  if timeout ≠ -1 then some (timeout.tdiv 1000, timeout.tmod 1000 * 1000) else none

/-- `select`: an error, or for each kind the sockets that are ready. -/
abbrev Select := (Kind → List ℕ) → Option (ℤ × ℤ) → Except WinError (Kind → ℕ → Bool)

/-- The value returned, with an error of the function or of `select`, and the array. -/
structure PollResult where
  ret : Except (Errno ⊕ WinError) ℕ
  fds : List Pollfd

/-- The second loop. -/
def finish (t : SocketTable) (sets : Kind → List ℕ) (fds : List Pollfd) : PollResult :=
  ⟨.ok ((fds.map (report t sets)).countP counts), fds.map (report t sets)⟩

/-- `wpdk_poll`. -/
def poll (t : SocketTable) (select : Select) (fds : Option (List Pollfd)) (timeout : ℤ) :
    PollResult :=
  match fds with
  | none => ⟨.error (.inl .einval), []⟩
  | some fds =>
    if fdSetSize ≤ fds.length then ⟨.error (.inl .einval), fds⟩
    else
      let s := pollSets t fds
      if s.worktodo then
        match select s.sets (delay timeout) with
        | .error e => ⟨.error (.inr e), fds.map (reset t)⟩
        | .ok ready => finish t (fun k => (s.sets k).filter (ready k)) (fds.map (reset t))
      else finish t s.sets (fds.map (reset t))

/-! ## The sets -/

section Sets

variable {t : SocketTable} {fds : List Pollfd} {k : Kind} {socket : ℕ}

/-- An entry asks for events of this kind on this socket. -/
def Asks (t : SocketTable) (k : Kind) (socket : ℕ) (e : Pollfd) : Prop :=
  socketOf t e = some socket ∧ e.Requests k

theorem length_sets_addEntry_le (t : SocketTable) (s : PollSets) (e : Pollfd) (k : Kind) :
    ((addEntry t s e).sets k).length ≤ (s.sets k).length + 1 := by
  unfold addEntry
  cases socketOf t e with
  | none => exact Nat.le_succ _
  | some socket =>
    dsimp only
    split
    · exact length_fdSet_le _ _
    · exact Nat.le_succ _

theorem mem_sets_addEntry {s : PollSets} {e : Pollfd} (hroom : (s.sets k).length < fdSetSize) :
    socket ∈ (addEntry t s e).sets k ↔ socket ∈ s.sets k ∨ Asks t k socket e := by
  unfold addEntry Asks
  cases socketOf t e with
  | none => simp
  | some socket' =>
    dsimp only
    split
    · rename_i hreq
      rw [mem_fdSet hroom, Option.some_inj, eq_comm]
      exact or_congr_right (and_iff_left hreq).symm
    · rename_i hreq
      exact (or_iff_left fun h => hreq h.2).symm

/-- The sets along the first loop: there is room as long as there are fewer entries than that. -/
theorem mem_sets_foldl {s : PollSets} (hroom : (s.sets k).length + fds.length ≤ fdSetSize) :
    socket ∈ (fds.foldl (addEntry t) s).sets k ↔
      socket ∈ s.sets k ∨ ∃ e ∈ fds, Asks t k socket e := by
  induction fds generalizing s with
  | nil => simp
  | cons e fds ih =>
    rw [List.length_cons] at hroom
    have hlen := length_sets_addEntry_le t s e k
    rw [List.foldl_cons, ih (by omega), mem_sets_addEntry (by omega), or_assoc,
      List.exists_mem_cons_iff]

/-- **The sets have the sockets for which some entry requests the events.** -/
theorem mem_sets_iff (hlen : fds.length < fdSetSize) :
    socket ∈ (pollSets t fds).sets k ↔ ∃ e ∈ fds, Asks t k socket e := by
  rw [pollSets, mem_sets_foldl]
  · simp [noSets]
  · simpa [noSets] using Nat.le_of_lt hlen

theorem sets_of_no_work (t : SocketTable) (fds : List Pollfd) {s : PollSets}
    (hs : s.worktodo = false → ∀ k, s.sets k = []) :
    (fds.foldl (addEntry t) s).worktodo = false →
      ∀ k, (fds.foldl (addEntry t) s).sets k = [] := by
  induction fds generalizing s with
  | nil => exact hs
  | cons e fds ih =>
    rw [List.foldl_cons]
    refine ih fun hwork k => ?_
    unfold addEntry at hwork ⊢
    cases hsocket : socketOf t e with
    | none =>
      rw [hsocket] at hwork
      exact hs hwork k
    | some socket =>
      rw [hsocket] at hwork
      simp only [Bool.or_eq_false_iff, decide_eq_false_iff_not] at hwork
      have hreq : ¬ e.Requests k := by
        cases k with
        | read => exact hwork.1.1.2
        | write => exact hwork.1.2
        | except => exact hwork.2
      dsimp only
      rw [if_neg hreq]
      exact hs hwork.1.1.1 k

/-- Without anything to do the sets are empty, so that it does not matter that `select` is not
called. -/
theorem poll_eq_finish (hlen : fds.length < fdSetSize) (select : Select) (timeout : ℤ)
    {ready : Kind → ℕ → Bool}
    (hselect : select (pollSets t fds).sets (delay timeout) = .ok ready) :
    poll t select (some fds) timeout =
      finish t (fun k => ((pollSets t fds).sets k).filter (ready k)) (fds.map (reset t)) := by
  rw [poll]
  dsimp only
  rw [if_neg (Nat.not_le.mpr hlen)]
  cases hwork : (pollSets t fds).worktodo with
  | true =>
    rw [if_pos rfl, hselect]
  | false =>
    have hnil := sets_of_no_work t fds (s := noSets) (fun _ _ => rfl) hwork
    have hsets : (pollSets t fds).sets = fun k => ((pollSets t fds).sets k).filter (ready k) := by
      funext k
      rw [show (pollSets t fds).sets k = [] from hnil k, List.filter_nil]
    rw [if_neg Bool.false_ne_true]
    exact congrArg (fun sets => finish t sets (fds.map (reset t))) hsets

end Sets

/-! ## The events of an entry -/

/-- The events of an entry that is polled alone: those that it requests and its socket is ready for,
`POLLNVAL` for a descriptor without an open socket, and nothing for a negative one. -/
def expected (t : SocketTable) (ready : Kind → ℕ → Bool) (e : Pollfd) : BitVec 16 :=
  if e.fd < 0 then 0
  else
    match getSocket t e.fd with
    | none => pollnval
    | some socket => flags fun k => decide (e.Requests k) && ready k socket

/-- No entry misses a request for events that another entry for the same socket makes, and for
which the socket is ready. -/
def NoSharedRequest (t : SocketTable) (ready : Kind → ℕ → Bool) (fds : List Pollfd) : Prop :=
  ∀ e ∈ fds, ∀ e' ∈ fds, ∀ socket, socketOf t e = some socket → socketOf t e' = some socket →
    ∀ k, e'.Requests k → ready k socket = true → e.Requests k

/-- **The entries are treated independently.**  Each gets the events it gets when it is polled
alone, and the value returned is the number of entries that get any. -/
structure Independent (t : SocketTable) (select : Select) (timeout : ℤ) (ready : Kind → ℕ → Bool)
    (fds : List Pollfd) : Prop where
  entries : (poll t select (some fds) timeout).fds =
    fds.map fun e => { e with revents := expected t ready e }
  alone : ∀ e ∈ fds, (poll t select (some [e]) timeout).fds =
    [{ e with revents := expected t ready e }]
  count : (poll t select (some fds) timeout).ret =
    .ok ((poll t select (some fds) timeout).fds.countP fun e => e.revents != 0)

section Events

variable {t : SocketTable} {fds : List Pollfd} {ready : Kind → ℕ → Bool} {e : Pollfd}

theorem flags_injective : Function.Injective flags := by
  intro b b' h
  have hbits : ∀ r w x r' w' x' : Bool,
      ((if r then pollin else 0) ||| (if w then pollout else 0) |||
        (if x then pollerr ||| pollhup ||| pollpri else 0) =
      (if r' then pollin else 0) ||| (if w' then pollout else 0) |||
        (if x' then pollerr ||| pollhup ||| pollpri else 0)) →
      r = r' ∧ w = w' ∧ x = x' := by decide
  obtain ⟨hr, hw, hx⟩ := hbits _ _ _ _ _ _ h
  funext k
  cases k with
  | read => exact hr
  | write => exact hw
  | except => exact hx

theorem reset_fd (t : SocketTable) (e : Pollfd) : (reset t e).fd = e.fd := by
  unfold reset
  split
  · rfl
  · split <;> rfl

theorem socketOf_reset (t : SocketTable) (e : Pollfd) : socketOf t (reset t e) = socketOf t e := by
  rw [socketOf, socketOf, reset_fd]

/-- An entry without a socket. -/
theorem report_reset_of_none (ready : Kind → ℕ → Bool) (sets : Kind → List ℕ)
    (h : socketOf t e = none) :
    report t sets (reset t e) = { e with revents := expected t ready e } := by
  rw [report, socketOf_reset, h]
  dsimp only
  unfold socketOf at h
  unfold reset expected
  split
  · rfl
  · rename_i hfd
    rw [if_neg hfd] at h
    rw [h]

/-- An entry with a socket. -/
theorem report_reset_of_some (sets : Kind → List ℕ) {socket : ℕ} (h : socketOf t e = some socket) :
    report t sets (reset t e) = { e with revents := flags fun k => decide (socket ∈ sets k) } := by
  have hreset : reset t e = { e with revents := 0 } := by
    unfold socketOf at h
    unfold reset
    split
    · rfl
    · rename_i hfd
      rw [if_neg hfd] at h
      rw [h]
  rw [report, socketOf_reset, h, hreset]
  exact congrArg (Pollfd.mk e.fd e.events) BitVec.zero_or

theorem expected_of_some {socket : ℕ} (h : socketOf t e = some socket) :
    expected t ready e = flags fun k => decide (e.Requests k) && ready k socket := by
  unfold socketOf at h
  unfold expected
  split
  · rename_i hfd
    rw [if_pos hfd] at h
    cases h
  · rename_i hfd
    rw [if_neg hfd] at h
    rw [h]

/-- **An entry gets its own events** exactly if it requests what any entry for its socket
requests. -/
theorem report_eq_expected_iff (hlen : fds.length < fdSetSize) (he : e ∈ fds) :
    report t (fun k => ((pollSets t fds).sets k).filter (ready k)) (reset t e) =
        { e with revents := expected t ready e } ↔
      ∀ e' ∈ fds, ∀ socket, socketOf t e = some socket → socketOf t e' = some socket →
        ∀ k, e'.Requests k → ready k socket = true → e.Requests k := by
  cases hsocket : socketOf t e with
  | none =>
    refine iff_of_true (report_reset_of_none _ _ hsocket) ?_
    rintro e' - socket h
    cases h
  | some socket =>
    rw [report_reset_of_some _ hsocket, expected_of_some hsocket, Pollfd.mk.injEq]
    simp only [true_and]
    rw [flags_injective.eq_iff]
    constructor
    · rintro h e' he' socket' hs hs' k hreq hready
      obtain rfl := Option.some.inj hs
      have hk := congrFun h k
      have hmem : socket ∈ ((pollSets t fds).sets k).filter (ready k) :=
        List.mem_filter.mpr ⟨(mem_sets_iff hlen).mpr ⟨e', he', hs', hreq⟩, hready⟩
      rw [decide_eq_true hmem, eq_comm, Bool.and_eq_true] at hk
      exact of_decide_eq_true hk.1
    · intro h
      funext k
      rw [Bool.eq_iff_iff, decide_eq_true_eq, Bool.and_eq_true, decide_eq_true_eq,
        List.mem_filter, mem_sets_iff hlen]
      refine and_congr_left fun hready => ⟨?_, fun hreq => ⟨e, he, hsocket, hreq⟩⟩
      rintro ⟨e', he', hs', hreq⟩
      exact h e' he' socket rfl hs' k hreq hready

/-- The entries that are counted are those with events. -/
theorem counts_report_reset (sets : Kind → List ℕ) (e : Pollfd) :
    counts (report t sets (reset t e)) = ((report t sets (reset t e)).revents != 0) := by
  by_cases hfd : e.fd < 0
  · have hnone : socketOf t e = none := if_pos hfd
    rw [report_reset_of_none (fun _ _ => false) sets hnone, counts, expected, if_pos hfd]
    simp
  · have hcounted : ¬ (report t sets (reset t e)).fd < 0 := by
      unfold report
      cases socketOf t (reset t e) with
      | none =>
        dsimp only
        rwa [reset_fd]
      | some socket =>
        dsimp only
        rwa [reset_fd]
    rw [counts, decide_eq_false hcounted]
    rfl

theorem map_report_eq_iff (hlen : fds.length < fdSetSize) :
    (fds.map (reset t)).map (report t fun k => ((pollSets t fds).sets k).filter (ready k)) =
        (fds.map fun e => { e with revents := expected t ready e }) ↔
      NoSharedRequest t ready fds := by
  rw [List.map_map, List.map_inj_left]
  exact forall₂_congr fun e he => report_eq_expected_iff hlen he

/-- An entry that is alone misses nothing. -/
theorem noSharedRequest_singleton (t : SocketTable) (ready : Kind → ℕ → Bool) (e : Pollfd) :
    NoSharedRequest t ready [e] := by
  rintro e₁ he₁ e₂ he₂ socket - - k hreq -
  rw [List.mem_singleton.mp he₁]
  rwa [List.mem_singleton.mp he₂] at hreq

end Events

/-- For every table of sockets, every array of fewer than `FD_SETSIZE` entries, every timeout and
every readiness of the sockets: the entries are treated independently if and only if no entry
misses a request that another entry for the same socket makes. -/
theorem poll_independent_iff (t : SocketTable) (fds : List Pollfd) (hlen : fds.length < fdSetSize)
    (timeout : ℤ) (ready : Kind → ℕ → Bool) :
    Independent t (fun _ _ => .ok ready) timeout ready fds ↔ NoSharedRequest t ready fds := by
  have hpoll := poll_eq_finish (t := t) hlen (fun _ _ => .ok ready) timeout rfl
  constructor
  · intro h
    have hentries := h.entries
    rw [hpoll] at hentries
    exact (map_report_eq_iff hlen).mp hentries
  · intro h
    refine ⟨?_, fun e he => ?_, ?_⟩
    · rw [hpoll]
      exact (map_report_eq_iff hlen).mpr h
    · have hone : [e].length < fdSetSize := show 1 < fdSetSize by decide
      rw [poll_eq_finish (t := t) hone (fun _ _ => .ok ready) timeout rfl]
      exact (map_report_eq_iff hone).mpr (noSharedRequest_singleton t ready e)
    · rw [hpoll]
      refine congrArg Except.ok (List.countP_congr fun e he => ?_)
      obtain ⟨e', he', rfl⟩ := List.mem_map.mp he
      obtain ⟨e, -, rfl⟩ := List.mem_map.mp he'
      rw [counts_report_reset]

/-- A table with the socket 7 in its first slot. -/
def oneSocket : SocketTable :=
  some fun i => if i = 0 then ⟨some 7, 2, 0⟩ else SocketFd.empty

/-- Two entries for the same socket that request the same events. -/
theorem poll_independent_same_request :
    Independent oneSocket (fun _ _ => .ok fun _ _ => true) 0 (fun _ _ => true)
      [⟨65536, pollin, 0⟩, ⟨65536, pollin, 0⟩] := by
  refine (poll_independent_iff _ _ (by decide) _ _).mpr ?_
  rintro e he e' he' socket - - k hreq -
  have hsame : ∀ x ∈ ([⟨65536, pollin, 0⟩, ⟨65536, pollin, 0⟩] : List Pollfd),
      x = ⟨65536, pollin, 0⟩ := by decide
  rw [hsame e he]
  rwa [hsame e' he'] at hreq

/-- One entry requests `POLLIN` and the other `POLLOUT` for the same socket, which is ready for
writing only.  Both get `POLLOUT`, and the value is 2; alone, the first gets nothing. -/
theorem poll_shares_requests :
    poll oneSocket (fun _ _ => .ok fun k _ => decide (k = .write))
        (some [⟨65536, pollin, 0⟩, ⟨65536, pollout, 0⟩]) 0 =
      ⟨.ok 2, [⟨65536, pollin, pollout⟩, ⟨65536, pollout, pollout⟩]⟩ ∧
    poll oneSocket (fun _ _ => .ok fun k _ => decide (k = .write)) (some [⟨65536, pollin, 0⟩]) 0 =
      ⟨.ok 0, [⟨65536, pollin, 0⟩]⟩ :=
  ⟨rfl, rfl⟩

end Poll
end Wpdk
