import Wpdk.Base.Run
import Wpdk.Base.Search
import Wpdk.Base.SlotMap
import Wpdk.Error

/-!
# The interest list of an epoll instance

`struct epoll` keeps the sockets that an instance is interested in in an array of `FD_SETSIZE`
slots, with `INVALID_SOCKET` in the empty ones, and the registered events in a second array beside
it.  `wpdk_epoll_ctl` looks for a socket among the first `maxcount` slots only, and for an empty
slot among all of them.  A removal takes one off `maxcount` if it empties the last of these slots,
and leaves a hole otherwise; after it, the slot before may be a hole as well, so `maxcount` is a
bound on the slots in use and not their number.

* `Epoll`, `epollCtl`: the structure and the function, with the descriptors looked up.
* `InterestMap.ctl`: what the function is for, on a finite map from sockets to events.
* `Epoll.Refines`: the slots represent the map, and `maxcount` bounds the slots in use.
* `epoll_ctl_refines_map`: the two agree along every sequence of calls.
-/

namespace Wpdk

open Run

/-- `FD_SETSIZE`, as Winsock has it. -/
def fdSetSize : ℕ := 64

/-- `struct epoll_event`. -/
structure EpollEvent where
  events : BitVec 32
  data : BitVec 64
deriving DecidableEq

/-- `struct epoll`.  A socket is a number, and `INVALID_SOCKET` is none.  `start` and `maxcount` are
of type `int`.  `maxcount` is at most `FD_SETSIZE`.  `start` grows by one in a call and is never set
back, so that it takes 2 ^ 31 calls to overflow; that is not modelled, and there is no bound on
`start` here. -/
structure Epoll where
  flags : ℤ
  start : ℕ
  maxcount : ℕ
  socket : ℕ → Option ℕ
  event : ℕ → EpollEvent

/-- The instance that `wpdk_allocate_epoll` makes for `wpdk_epoll_create1`. -/
def epollCreate1 (flags : ℤ) : Epoll where
  flags := flags
  start := 0
  maxcount := 0
  socket := fun _ => none
  event := fun _ => ⟨0, 0⟩

/-- `EPOLL_CTL_ADD`. -/
def epollCtlAdd : ℤ := 1

/-- `EPOLL_CTL_DEL`. -/
def epollCtlDel : ℤ := 2

namespace Epoll

/-- The search for a socket among the first `maxcount` slots. -/
def find (ep : Epoll) (socket : ℕ) : ℕ := first (fun i => ep.socket i = some socket) ep.maxcount

/-- The search for an empty slot. -/
def findFree (ep : Epoll) : ℕ := first (fun i => ep.socket i = none) fdSetSize

/-- The case `EPOLL_CTL_ADD` of `wpdk_epoll_ctl`. -/
def ctlAdd (ep : Epoll) (socket : ℕ) : Option EpollEvent → Epoll × Option Errno
  | none => (ep, some .einval)
  | some event =>
    if ep.find socket < ep.maxcount then (ep, some .eexist)
    else
      let i := ep.findFree
      if i ≥ fdSetSize then (ep, some .enospc)
      else
        ({ ep with
            maxcount := if i ≥ ep.maxcount then i + 1 else ep.maxcount
            socket := Function.update ep.socket i (some socket)
            event := Function.update ep.event i event }, none)

/-- The case `EPOLL_CTL_DEL`. -/
def ctlDel (ep : Epoll) (socket : ℕ) : Epoll × Option Errno :=
  let i := ep.find socket
  if i ≥ ep.maxcount then (ep, some .enoent)
  else
    ({ ep with
        maxcount := if i = ep.maxcount - 1 then ep.maxcount - 1 else ep.maxcount
        socket := Function.update ep.socket i none }, none)

/-- The instance after the call, and the error if it has failed. -/
def ctl (ep : Epoll) (op : ℤ) (socket : ℕ) (event : Option EpollEvent) : Epoll × Option Errno :=
  if op = epollCtlAdd then ep.ctlAdd socket event
  else if op = epollCtlDel then ep.ctlDel socket
  else (ep, some .einval)

end Epoll

/-- `wpdk_epoll_ctl`, on the instance of `epfd` and the socket of `fd`, if the descriptors have
them. -/
def epollCtl (ep : Option Epoll) (op : ℤ) (socket : Option ℕ) (event : Option EpollEvent) :
    Option Epoll × Option Errno :=
  match ep, socket with
  | some ep, some socket => ((ep.ctl op socket event).1, (ep.ctl op socket event).2)
  | _, _ => (ep, some .ebadf)

/-! ## What the interest list is for -/

/-- The sockets that an instance is interested in, with what was registered for them. -/
abbrev InterestMap := Finmap fun _ : ℕ => EpollEvent

/-- A call on an open socket. -/
structure CtlCall where
  op : ℤ
  socket : ℕ
  event : Option EpollEvent

/-- **What a call does to the map**, and the error it fails with. -/
def InterestMap.ctl (m : InterestMap) (call : CtlCall) : InterestMap × Option Errno :=
  if call.op = epollCtlAdd then
    match call.event with
    | none => (m, some .einval)
    | some event =>
      if call.socket ∈ m then (m, some .eexist)
      else if m.keys.card = fdSetSize then (m, some .enospc)
      else (m.insert call.socket event, none)
  else if call.op = epollCtlDel then
    if call.socket ∈ m then (m.erase call.socket, none) else (m, some .enoent)
  else (m, some .einval)

/-- A call as a step of the instance. -/
def Epoll.ctlStep (ep : Epoll) (call : CtlCall) : Option Epoll :=
  (epollCtl (some ep) call.op (some call.socket) call.event).1

/-- A call as a step of the map. -/
def InterestMap.step (m : InterestMap) (call : CtlCall) : Option InterestMap :=
  some (m.ctl call).1

/-- **The instance stands for the map.** -/
structure Epoll.Refines (ep : Epoll) (m : InterestMap) : Prop where
  represents : Represents ep.socket ep.event fdSetSize m
  /-- Every slot in use is below `maxcount`. -/
  lt_maxcount : ∀ i socket, ep.socket i = some socket → i < ep.maxcount
  maxcount_le : ep.maxcount ≤ fdSetSize

theorem refines_create1 (flags : ℤ) : (epollCreate1 flags).Refines ∅ where
  represents := Represents.empty _ _
  lt_maxcount _ _ h := by cases h
  maxcount_le := Nat.zero_le _

namespace Epoll.Refines

variable {ep : Epoll} {m : InterestMap} {socket : ℕ}

/-- The search below `maxcount` finds what is in the map. -/
theorem find_lt_iff (h : ep.Refines m) : ep.find socket < ep.maxcount ↔ socket ∈ m := by
  rw [h.represents.mem_iff]
  constructor
  · intro hlt
    exact ⟨_, of_decide_eq_true (first_spec hlt)⟩
  · rintro ⟨i, hi⟩
    exact first_lt (h.lt_maxcount i socket hi) (decide_eq_true hi)

/-- The search for an empty slot fails when the map is full. -/
theorem findFree_ge_iff (h : ep.Refines m) :
    ep.findFree ≥ fdSetSize ↔ m.keys.card = fdSetSize := by
  rw [h.represents.card_eq_iff]
  constructor
  · intro hge i hi hnone
    exact absurd (first_lt hi (decide_eq_true hnone)) (Nat.not_lt.mpr hge)
  · intro hfull
    by_contra hlt
    exact hfull _ (Nat.lt_of_not_le hlt) (of_decide_eq_true (first_spec (Nat.lt_of_not_le hlt)))

theorem add (h : ep.Refines m) (hnew : socket ∉ m) (hlt : ep.findFree < fdSetSize)
    (event : EpollEvent) :
    Epoll.Refines
      { ep with
        maxcount := if ep.findFree ≥ ep.maxcount then ep.findFree + 1 else ep.maxcount
        socket := Function.update ep.socket ep.findFree (some socket)
        event := Function.update ep.event ep.findFree event }
      (m.insert socket event) := by
  have hfree : ep.socket ep.findFree = none := of_decide_eq_true (first_spec hlt)
  refine ⟨h.represents.insert hlt hfree hnew event, fun i s hi => ?_, ?_⟩
  · dsimp only at hi ⊢
    by_cases hif : i = ep.findFree
    · split <;> omega
    · rw [Function.update_of_ne hif] at hi
      have := h.lt_maxcount i s hi
      split <;> omega
  · have := h.maxcount_le
    dsimp only
    split <;> omega

theorem del (h : ep.Refines m) (hlt : ep.find socket < ep.maxcount) :
    Epoll.Refines
      { ep with
        maxcount := if ep.find socket = ep.maxcount - 1 then ep.maxcount - 1 else ep.maxcount
        socket := Function.update ep.socket (ep.find socket) none }
      (m.erase socket) := by
  have hfound : ep.socket (ep.find socket) = some socket := of_decide_eq_true (first_spec hlt)
  refine ⟨h.represents.erase hfound, fun i s hi => ?_, ?_⟩
  · dsimp only at hi ⊢
    by_cases hif : i = ep.find socket
    · rw [hif, Function.update_self] at hi
      cases hi
    · -- the last of the slots below `maxcount` is the one that was emptied, or stays below it
      rw [Function.update_of_ne hif] at hi
      have := h.lt_maxcount i s hi
      split <;> omega
  · have := h.maxcount_le
    dsimp only
    split <;> omega

/-- **One call.**  It has the result that the map gives, and leaves an instance that stands for the
map after it; if it fails, the instance is as it was. -/
theorem ctl (h : ep.Refines m) (call : CtlCall) :
    (ep.ctl call.op call.socket call.event).2 = (m.ctl call).2 ∧
      (ep.ctl call.op call.socket call.event).1.Refines (m.ctl call).1 ∧
      ((m.ctl call).2 ≠ none → (ep.ctl call.op call.socket call.event).1 = ep) := by
  obtain ⟨op, socket, event⟩ := call
  unfold Epoll.ctl InterestMap.ctl
  dsimp only
  split
  · cases event with
    | none => exact ⟨rfl, h, fun _ => rfl⟩
    | some event =>
      unfold Epoll.ctlAdd
      dsimp only
      by_cases hmem : socket ∈ m
      · rw [if_pos hmem, if_pos (h.find_lt_iff.mpr hmem)]
        exact ⟨rfl, h, fun _ => rfl⟩
      · rw [if_neg hmem, if_neg (mt h.find_lt_iff.mp hmem)]
        by_cases hfull : m.keys.card = fdSetSize
        · rw [if_pos hfull, if_pos (h.findFree_ge_iff.mpr hfull)]
          exact ⟨rfl, h, fun _ => rfl⟩
        · have hlt : ¬ ep.findFree ≥ fdSetSize := mt h.findFree_ge_iff.mp hfull
          rw [if_neg hfull, if_neg hlt]
          exact ⟨rfl, h.add hmem (Nat.lt_of_not_le hlt) event, fun hne => absurd rfl hne⟩
  · split
    · unfold Epoll.ctlDel
      dsimp only
      by_cases hmem : socket ∈ m
      · have hlt := h.find_lt_iff.mpr hmem
        rw [if_pos hmem, if_neg (Nat.not_le.mpr hlt)]
        exact ⟨rfl, h.del hlt, fun hne => absurd rfl hne⟩
      · rw [if_neg hmem, if_pos (Nat.le_of_not_lt (mt h.find_lt_iff.mp hmem))]
        exact ⟨rfl, h, fun _ => rfl⟩
    · exact ⟨rfl, h, fun _ => rfl⟩

end Epoll.Refines

/-- The instance and the map that the same calls lead to. -/
theorem exists_refines (flags : ℤ) (calls : List CtlCall) :
    ∃ ep m, exec Epoll.ctlStep (epollCreate1 flags) calls = some ep ∧
      exec InterestMap.step ∅ calls = some m ∧ ep.Refines m :=
  exec_simulation (fun _ _ call h => ⟨_, _, rfl, rfl, (h.ctl call).2.1⟩) (refines_create1 flags)
    calls

/-- **The interest list is a finite map.**  After any sequence of calls on open sockets the
instance stands for the map that the same calls make of the empty one: no socket is in two slots,
every slot in use is below `maxcount`, and there are at most `FD_SETSIZE` keys.  The next call,
whatever it is, has the result that the map gives and leads to an instance and a map that agree
again; and if it fails, it leaves the instance as it is. -/
theorem epoll_ctl_refines_map (flags : ℤ) (calls : List CtlCall) :
    ∃ ep m, exec Epoll.ctlStep (epollCreate1 flags) calls = some ep ∧
      exec InterestMap.step ∅ calls = some m ∧ ep.Refines m ∧ m.keys.card ≤ fdSetSize ∧
      ∀ call : CtlCall,
        (epollCtl (some ep) call.op (some call.socket) call.event).2 = (m.ctl call).2 ∧
          ∃ ep', ep.ctlStep call = some ep' ∧ ep'.Refines (m.ctl call).1 ∧
            ((m.ctl call).2 ≠ none → ep' = ep) := by
  obtain ⟨ep, m, hep, hm, h⟩ := exists_refines flags calls
  refine ⟨ep, m, hep, hm, h, h.represents.card_le, fun call => ?_⟩
  obtain ⟨hresult, hnext, hfail⟩ := h.ctl call
  exact ⟨hresult, _, rfl, hnext, hfail⟩

end Wpdk
