import Wpdk.Base.Run
import Wpdk.Socket.Calls

/-!
# Socket flags and the mode of the socket

Whether a socket is non-blocking is known twice: to Winsock, which is told by `FIONBIO` requests,
and in the flags of the slot.  The two are written one after the other, when a socket is created or
accepted and by `F_SETFL`, and the request may fail.

* `Os`: the open sockets and the last `FIONBIO` request that succeeded on each.
* `Call`, `perform`: the calls, made one at a time, with what Winsock answers.
* `SlotsOk`: what the calls keep.  The sockets in the slots are open and different, so that a
  request on one of them changes the mode of no other.
* `flags_mirror_mode`: the flags say what the mode is, in every state; and a failed `F_SETFL`
  changes neither.
-/

namespace Wpdk
namespace Socket

open Interact (ask run wp)

/-! ## Winsock -/

/-- The sockets that are open, and the mode that was last requested for each of them. -/
structure Os where
  isOpen : ℕ → Bool
  mode : ℕ → Option Bool

/-- A new socket.  Its number is not that of an open one, and no request has been made on it. -/
def Os.create (os : Os) (s : ℕ) : Option Os :=
  if os.isOpen s then none
  else some ⟨Function.update os.isOpen s true, Function.update os.mode s none⟩

/-- A `FIONBIO` request that succeeds. -/
def Os.setMode (os : Os) (s : ℕ) (nonblocking : Bool) : Os :=
  { os with mode := Function.update os.mode s (some nonblocking) }

/-- What a call does, with its answer.  A call that fails does nothing. -/
def Os.call (os : Os) : WsCall → Answer → Option Os
  | .socket _ _ _, .ok s => os.create s
  | .accept _, .ok s => os.create s
  | .ioctlsocket s nonblocking, .ok _ => some (os.setMode s nonblocking)
  | .closesocket s, .ok _ => some { os with isOpen := Function.update os.isOpen s false }
  | _, _ => some os

/-! ## Runs -/

/-- The calls that make sockets, close them or set their mode. -/
inductive Call where
  | socket (domain : ℤ) (type : BitVec 32) (protocol : ℤ) (started : Except WinError Unit)
  | accept (fd : ℤ)
  | accept4 (fd : ℤ) (sflags : BitVec 32)
  | setfl (fd : ℤ) (arg : BitVec 32)
  | close (fd : ℤ)

/-- The call as a program. -/
def Call.program (t : SocketTable) : Call → Prog (SocketTable × Result)
  | .socket domain type protocol started => Socket.socket t domain type protocol started
  | .accept fd => Socket.accept t fd
  | .accept4 fd sflags => Socket.accept4 t fd sflags
  | .setfl fd arg => socketFcntl t fd .setfl arg
  | .close fd => closeSocket t fd

/-- The table and the sockets. -/
structure State where
  table : SocketTable
  os : Os

/-- No table and no socket. -/
def State.start : State := ⟨none, fun _ => false, fun _ => none⟩

/-- One call, with the answers to the Winsock calls that it makes. -/
def perform (s : State) (a : Call × List Answer) : Option (State × Result) :=
  (run Os.call s.os a.2 (a.1.program s.table)).map fun r => (⟨r.1.1, r.2⟩, r.1.2)

/-- The state after a call. -/
def step (s : State) (a : Call × List Answer) : Option State := (perform s a).map Prod.fst

/-- **The flags mirror the mode.** -/
def Mirrored (s : State) : Prop :=
  ∀ fds i h, s.table = some fds → (fds i).socket = some h →
    ((fds i).flags = 0 ∨ (fds i).flags = oNonblock) ∧
      ((fds i).flags &&& oNonblock ≠ 0 ↔ s.os.mode h = some true)

/-! ## What the calls keep -/

/-- The flags that go with a mode. -/
def modeFlags (mode : Option Bool) : BitVec 32 := if mode = some true then oNonblock else 0

/-- Every slot has an open socket of its own, and the flags of its mode. -/
structure SlotsOk (fds : ℕ → SocketFd) (os : Os) : Prop where
  isOpen : ∀ i h, (fds i).socket = some h → os.isOpen h = true
  inj : ∀ i j h, (fds i).socket = some h → (fds j).socket = some h → i = j
  flags : ∀ i h, (fds i).socket = some h → (fds i).flags = modeFlags (os.mode h)

/-- The same, if there is a table. -/
def TableOk (t : SocketTable) (os : Os) : Prop := ∀ fds, t = some fds → SlotsOk fds os

theorem modeFlags_of_flagsOf (type : BitVec 32) :
    flagsOf type = modeFlags (some (flagsOf type &&& oNonblock ≠ 0)) := by
  unfold flagsOf
  split <;> decide

theorem modeFlags_of_modeFlags (mode : Option Bool) :
    modeFlags mode = modeFlags (some (modeFlags mode &&& oNonblock ≠ 0)) := by
  unfold modeFlags
  split <;> decide

/-- `F_SETFL` on the flags of a slot. -/
theorem setfl_modeFlags (mode : Option Bool) (nonblocking : Bool) :
    (if nonblocking then modeFlags mode ||| oNonblock else modeFlags mode &&& ~~~oNonblock) =
      modeFlags (some nonblocking) := by
  cases nonblocking <;> unfold modeFlags <;> by_cases hmode : mode = some true <;>
    simp only [hmode] <;> decide

namespace SlotsOk

variable {fds : ℕ → SocketFd} {os os' : Os} {h : ℕ}

theorem empty (os : Os) : SlotsOk (fun _ => SocketFd.empty) os :=
  ⟨nofun, nofun, nofun⟩

/-- A socket that is not open is in no slot. -/
theorem not_in_slot (hok : SlotsOk fds os) (hclosed : os.isOpen h ≠ true) :
    ∀ i, (fds i).socket ≠ some h := fun i hi => hclosed (hok.isOpen i h hi)

/-- What happens to a socket that is in no slot does not matter. -/
theorem outside (hok : SlotsOk fds os) {s : ℕ} (hnot : ∀ i, (fds i).socket ≠ some s)
    (hopen : ∀ h, h ≠ s → os'.isOpen h = os.isOpen h)
    (hmode : ∀ h, h ≠ s → os'.mode h = os.mode h) :
    SlotsOk fds os' := by
  have hne : ∀ i h, (fds i).socket = some h → h ≠ s := by
    rintro i h hi rfl
    exact hnot i hi
  refine ⟨fun i h hi => ?_, hok.inj, fun i h hi => ?_⟩
  · rw [hopen h (hne i h hi)]
    exact hok.isOpen i h hi
  · rw [hmode h (hne i h hi)]
    exact hok.flags i h hi

/-- A socket is put in a slot, with the flags that go with its mode. -/
theorem place (hok : SlotsOk fds os) {s : ℕ} (hnot : ∀ i, (fds i).socket ≠ some s)
    (hopen : os.isOpen s = true) (i : ℕ) (domain : ℤ) :
    SlotsOk (Function.update fds i ⟨some s, domain, modeFlags (os.mode s)⟩) os := by
  -- a slot has the new socket exactly if it is slot `i`, and what it had before otherwise
  have hslot : ∀ j h, (Function.update fds i ⟨some s, domain, modeFlags (os.mode s)⟩ j).socket =
      some h → j = i ∧ h = s ∨ j ≠ i ∧ h ≠ s ∧ (fds j).socket = some h := by
    intro j h hj
    by_cases hji : j = i
    · rw [hji, Function.update_self] at hj
      exact Or.inl ⟨hji, (Option.some.inj hj).symm⟩
    · rw [Function.update_of_ne hji] at hj
      exact Or.inr ⟨hji, fun hs => hnot j (hs ▸ hj), hj⟩
  refine ⟨fun j h hj => ?_, fun j k h hj hk => ?_, fun j h hj => ?_⟩
  · rcases hslot j h hj with ⟨-, rfl⟩ | ⟨-, -, hj⟩
    · exact hopen
    · exact hok.isOpen j h hj
  · rcases hslot j h hj with ⟨rfl, rfl⟩ | ⟨-, hs, hj⟩
    · rcases hslot k _ hk with ⟨rfl, -⟩ | ⟨-, hs, -⟩
      · rfl
      · exact absurd rfl hs
    · rcases hslot k h hk with ⟨-, rfl⟩ | ⟨-, -, hk⟩
      · exact absurd rfl hs
      · exact hok.inj j k h hj hk
  · rcases hslot j h hj with ⟨rfl, rfl⟩ | ⟨hji, -, hj⟩
    · rw [Function.update_self]
    · rw [Function.update_of_ne hji]
      exact hok.flags j h hj

/-- A slot is emptied, and nothing else has its socket. -/
theorem remove (hok : SlotsOk fds os) {i s : ℕ} (hi : (fds i).socket = some s) :
    SlotsOk (Function.update fds i { fds i with socket := none }) os ∧
      ∀ j, (Function.update fds i { fds i with socket := none } j).socket ≠ some s := by
  have hslot : ∀ j h, (Function.update fds i { fds i with socket := none } j).socket = some h →
      j ≠ i ∧ (fds j).socket = some h := by
    intro j h hj
    by_cases hji : j = i
    · rw [hji, Function.update_self] at hj
      cases hj
    · rw [Function.update_of_ne hji] at hj
      exact ⟨hji, hj⟩
  refine ⟨⟨fun j h hj => hok.isOpen j h (hslot j h hj).2,
    fun j k h hj hk => hok.inj j k h (hslot j h hj).2 (hslot k h hk).2, fun j h hj => ?_⟩,
    fun j hj => ?_⟩
  · rw [Function.update_of_ne (hslot j h hj).1]
    exact hok.flags j h (hslot j h hj).2
  · exact (hslot j s hj).1 (hok.inj j i s (hslot j s hj).2 hi)

/-- The mode and the flags are changed together. -/
theorem setMode (hok : SlotsOk fds os) {i s : ℕ} (hi : (fds i).socket = some s) (b : Bool) :
    SlotsOk (Function.update fds i { fds i with flags := modeFlags (some b) })
      (os.setMode s b) := by
  have hslot : ∀ j, (Function.update fds i { fds i with flags := modeFlags (some b) } j).socket =
      (fds j).socket := by
    intro j
    by_cases hji : j = i
    · rw [hji, Function.update_self]
    · rw [Function.update_of_ne hji]
  refine ⟨fun j h hj => ?_, fun j k h hj hk => ?_, fun j h hj => ?_⟩
  · rw [hslot] at hj
    exact hok.isOpen j h hj
  · rw [hslot] at hj hk
    exact hok.inj j k h hj hk
  · rw [hslot] at hj
    by_cases hji : j = i
    · obtain rfl := Option.some.inj (hi.symm.trans (hji ▸ hj))
      simp only [hji, Os.setMode, Function.update_self]
    · have hhs : h ≠ s := by
        rintro rfl
        exact hji (hok.inj j i h hj hi)
      rw [Function.update_of_ne hji, Os.setMode]
      dsimp only
      rw [Function.update_of_ne hhs]
      exact hok.flags j h hj

end SlotsOk

/-! ## The calls -/

section Calls

variable {fds : ℕ → SocketFd} {os os' : Os} {s : ℕ} {t : SocketTable}

theorem tableOk_some : TableOk (some fds) os ↔ SlotsOk fds os :=
  ⟨fun h => h fds rfl, fun h _ heq => Option.some.inj heq ▸ h⟩

/-- A socket in no slot is closed, or not. -/
theorem SlotsOk.closesocket (hok : SlotsOk fds os) (hnot : ∀ i, (fds i).socket ≠ some s)
    {ans : Answer} (hcall : os.call (.closesocket s) ans = some os') : SlotsOk fds os' := by
  cases ans with
  | error e => exact Option.some.inj hcall ▸ hok
  | ok v =>
    obtain rfl := Option.some.inj hcall
    exact hok.outside hnot (fun h hh => Function.update_of_ne hh _ _) fun _ _ => rfl

/-- A new socket is open, and in no slot. -/
theorem SlotsOk.create (hok : SlotsOk fds os) (hcreate : os.create s = some os') :
    SlotsOk fds os' ∧ os'.isOpen s = true ∧ ∀ i, (fds i).socket ≠ some s := by
  unfold Os.create at hcreate
  split at hcreate
  · cases hcreate
  · rename_i hclosed
    obtain rfl := Option.some.inj hcreate
    have hnot := hok.not_in_slot hclosed
    exact ⟨hok.outside hnot (fun h hh => Function.update_of_ne hh _ _)
      (fun h hh => Function.update_of_ne hh _ _), Function.update_self _ _ _, hnot⟩

/-- **`wpdk_allocate_socket`**, with flags that are those of a mode. -/
theorem wp_allocateSocket (hok : SlotsOk fds os) (hopen : os.isOpen s = true)
    (hnot : ∀ i, (fds i).socket ≠ some s) (domain : ℤ) {flags : BitVec 32}
    (hflags : flags = modeFlags (some (flags &&& oNonblock ≠ 0))) :
    wp Os.call (allocateSocket fds s domain flags) (fun r os' => TableOk r.1 os') os := by
  refine (Interact.wp_ask_bind _ _).mpr fun ans os' hcall => ?_
  cases ans with
  | error e =>
    obtain rfl := Option.some.inj hcall
    refine (Interact.wp_ask_bind _ _).mpr fun ans os' hcall => ?_
    exact tableOk_some.mpr (hok.closesocket hnot hcall)
  | ok v =>
    obtain rfl := Option.some.inj hcall
    have hok' : SlotsOk fds (os.setMode s (flags &&& oNonblock ≠ 0)) :=
      hok.outside hnot (fun _ _ => rfl) fun h hh => Function.update_of_ne hh _ _
    have hmode : (os.setMode s (flags &&& oNonblock ≠ 0)).mode s =
        some (decide (flags &&& oNonblock ≠ 0)) := Function.update_self _ _ _
    dsimp only
    split
    · have hplaced := hok'.place hnot hopen (first (fun i => (fds i).socket.isNone)
        Descriptor.maxsockets) domain
      rw [hmode, ← hflags] at hplaced
      exact tableOk_some.mpr hplaced
    · refine (Interact.wp_ask_bind _ _).mpr fun ans os' hcall => ?_
      exact tableOk_some.mpr (hok'.closesocket hnot hcall)

theorem wp_acceptWith (hok : SlotsOk fds os) (domain : ℤ) {flags : BitVec 32}
    (hflags : flags = modeFlags (some (flags &&& oNonblock ≠ 0))) :
    wp Os.call (acceptWith fds s domain flags) (fun r os' => TableOk r.1 os') os := by
  refine (Interact.wp_ask_bind _ _).mpr fun ans os' hcall => ?_
  cases ans with
  | error e => exact tableOk_some.mpr (Option.some.inj hcall ▸ hok)
  | ok new =>
    obtain ⟨hok', hopen, hnot⟩ := hok.create hcall
    exact wp_allocateSocket hok' hopen hnot domain hflags

theorem wp_socket (hok : TableOk t os) (domain : ℤ) (type : BitVec 32) (protocol : ℤ)
    (started : Except WinError Unit) :
    wp Os.call (Socket.socket t domain type protocol started)
      (fun r os' => TableOk r.1 os') os := by
  unfold Socket.socket
  cases htable : t.elim (started.map fun _ _ => SocketFd.empty) .ok with
  | error e => exact hok
  | ok fds =>
    have hslots : SlotsOk fds os := by
      cases t with
      | none =>
        cases started with
        | error e => cases htable
        | ok u =>
          obtain rfl := Except.ok.inj htable
          exact SlotsOk.empty os
      | some fds' =>
        obtain rfl := Except.ok.inj htable
        exact hok _ rfl
    refine (Interact.wp_ask_bind _ _).mpr fun ans os' hcall => ?_
    cases ans with
    | error e => exact tableOk_some.mpr (Option.some.inj hcall ▸ hslots)
    | ok new =>
      obtain ⟨hok', hopen, hnot⟩ := hslots.create hcall
      exact wp_allocateSocket hok' hopen hnot domain (modeFlags_of_flagsOf type)

/-- A function that takes a descriptor keeps the table if its body does. -/
theorem wp_withSocket (hok : TableOk t os) {fd : ℤ}
    {body : (ℕ → SocketFd) → ℕ → ℕ → Prog (SocketTable × Result)}
    (hbody : ∀ fds i s, t = some fds → SlotsOk fds os → (fds i).socket = some s →
      wp Os.call (body fds i s) (fun r os' => TableOk r.1 os') os) :
    wp Os.call (withSocket t fd (t, ·) body) (fun r os' => TableOk r.1 os') os := by
  cases hs : getSocket t fd with
  | none =>
    rw [withSocket_of_none hs]
    exact hok
  | some s =>
    obtain ⟨fds, i, ht, hslot, hi⟩ := slot_of_getSocket hs
    rw [withSocket_of_some ht hslot hi]
    exact hbody fds i s ht (hok fds ht) hi

/-- **Every call keeps the slots in order.** -/
theorem wp_program (hok : TableOk t os) (call : Call) :
    wp Os.call (call.program t) (fun r os' => TableOk r.1 os') os := by
  cases call with
  | socket domain type protocol started => exact wp_socket hok domain type protocol started
  | accept fd =>
    refine wp_withSocket hok fun fds i s _ hslots hi => ?_
    refine wp_acceptWith hslots _ ?_
    rw [hslots.flags i s hi]
    exact modeFlags_of_modeFlags _
  | accept4 fd sflags =>
    exact wp_withSocket hok fun fds i s _ hslots _ =>
      wp_acceptWith hslots _ (modeFlags_of_flagsOf sflags)
  | setfl fd arg =>
    refine wp_withSocket hok fun fds i s ht hslots hi => ?_
    refine (Interact.wp_ask_bind _ _).mpr fun ans os' hcall => ?_
    cases ans with
    | error e => exact Option.some.inj hcall ▸ hok
    | ok v =>
      obtain rfl := Option.some.inj hcall
      have hset := hslots.setMode hi (arg &&& oNonblock ≠ 0)
      rw [← setfl_modeFlags (os.mode s), ← hslots.flags i s hi] at hset
      exact tableOk_some.mpr hset
  | close fd =>
    refine wp_withSocket hok fun fds i s _ hslots hi => ?_
    obtain ⟨hremoved, hnot⟩ := hslots.remove hi
    refine (Interact.wp_ask_bind _ _).mpr fun ans os' hcall => ?_
    exact tableOk_some.mpr (hremoved.closesocket hnot hcall)

/-- A failed `F_SETFL` changes nothing. -/
theorem wp_setfl_error (t : SocketTable) (os : Os) (fd : ℤ) (arg : BitVec 32) :
    wp Os.call (socketFcntl t fd .setfl arg)
      (fun r os' => ∀ e, r.2 = .error e → r.1 = t ∧ os' = os) os := by
  unfold socketFcntl
  cases hs : getSocket t fd with
  | none =>
    rw [withSocket_of_none hs]
    exact fun e _ => ⟨rfl, rfl⟩
  | some s =>
    obtain ⟨fds, i, ht, hslot, hi⟩ := slot_of_getSocket hs
    rw [withSocket_of_some ht hslot hi]
    refine (Interact.wp_ask_bind _ _).mpr fun ans os' hcall => ?_
    cases ans with
    | error e =>
      obtain rfl := Option.some.inj hcall
      exact fun e _ => ⟨rfl, rfl⟩
    | ok v => exact fun e he => by cases he

end Calls

/-! ## Runs -/

theorem TableOk.mirrored {s : State} (h : TableOk s.table s.os) : Mirrored s := by
  intro fds i sock hfds hi
  rw [(h fds hfds).flags i sock hi]
  unfold modeFlags
  split
  · rename_i hmode
    exact ⟨Or.inr rfl, fun _ => hmode, fun _ => by decide⟩
  · rename_i hmode
    exact ⟨Or.inl rfl, fun hne => absurd rfl hne, fun hm => absurd hm hmode⟩

theorem tableOk_step {s s' : State} {a : Call × List Answer} (h : TableOk s.table s.os)
    (hstep : step s a = some s') : TableOk s'.table s'.os := by
  obtain ⟨⟨s'', r⟩, hperform, rfl⟩ := Option.map_eq_some_iff.mp hstep
  obtain ⟨⟨⟨t, r'⟩, os⟩, hrun, heq⟩ := Option.map_eq_some_iff.mp hperform
  obtain ⟨rfl, -⟩ := Prod.mk.inj heq
  exact Interact.run_spec (Q := fun r os => TableOk r.1 os) (wp_program h a.1) hrun

/-- **The flags of every live slot mirror the mode of its socket**, in every state that any calls
reach with any failures, and a failed `F_SETFL` changes neither the flags nor the mode. -/
theorem flags_mirror_mode {s : State} (actions : List (Call × List Answer))
    (h : Run.exec step State.start actions = some s) :
    Mirrored s ∧ ∀ fd arg answers s' e,
      perform s (.setfl fd arg, answers) = some (s', .error e) → s' = s := by
  have hok : TableOk s.table s.os :=
    Run.exec_invariant (P := fun s => TableOk s.table s.os)
      (fun _ _ _ h hstep => tableOk_step h hstep)
      (fun _ hnone => by cases hnone) h
  refine ⟨hok.mirrored, fun fd arg answers s' e hperform => ?_⟩
  obtain ⟨⟨⟨t, r⟩, os⟩, hrun, heq⟩ := Option.map_eq_some_iff.mp hperform
  obtain ⟨rfl, rfl⟩ := Prod.mk.inj heq
  obtain ⟨ht, hos⟩ := Interact.run_spec (wp_setfl_error s.table s.os fd arg) hrun e rfl
  cases s
  cases ht
  cases hos
  rfl

/-- A non-blocking socket is made, a request to make it blocking fails, and it is closed; the slot
is used again for a blocking socket, which is then made non-blocking. -/
def reuseRun : List (Call × List Answer) :=
  [(.socket 2 0x1001 0 (.ok ()), [.ok 40, .ok 0]), (.setfl 0x10000 0, [.error .wsaeinprogress]),
    (.close 0x10000, [.ok 0]), (.socket 2 0x0001 0 (.ok ()), [.ok 44, .ok 0]),
    (.setfl 0x10000 0x0004, [.ok 0])]

theorem flags_mirror_mode_reuse :
    ∃ s fds, Run.exec step State.start reuseRun = some s ∧ Mirrored s ∧ s.table = some fds ∧
      (fds 0).socket = some 44 ∧ (fds 0).flags = oNonblock ∧ s.os.mode 44 = some true :=
  ⟨_, _, rfl, (flags_mirror_mode reuseRun rfl).1, rfl, rfl, rfl, rfl⟩

end Socket
end Wpdk
