import Wpdk.Base.Run
import Wpdk.Socket.Calls

/-!
# A socket function on its own

The socket table is here twice.  In `Descriptor.Socket` the calls of any number of threads are made
of single steps, and nothing is said of what they return; in `Socket.Calls` a call of one thread is
a program, with its calls of Winsock and its result.  The second is what the first comes to if no
other thread takes a step during a call: whatever Winsock answers, the thread can go through its
steps and is then out of the call, and the two tables have the same sockets as before, with the same
data.

* `Shows`: the two tables have the same sockets.
* `TableCall`: the functions that change the table; `TableCall.prog` and `TableCall.begins` are the
  two models of them.
* `supplier`: a handle that is in use is not given out again.
* `Alone`: steps of one thread; `alone_scan`: the loop over the slots finds the first empty one.
* `tableCall_alone`: the steps of a call end in the table of the program.
-/

namespace Wpdk
namespace Socket

open Run
open Interact (ask wp)
open Descriptor (SocketAction SocketInfo socketStep socketbase maxsockets)

/-- The sockets of the table of all threads are those of the table of one thread, with what is
stored with them.  Beside an empty slot there may be anything. -/
structure Shows (s : Descriptor.Table SocketInfo) (t : SocketTable) : Prop where
  published : t.isSome = s.published
  socket : ∀ fds, t = some fds → ∀ i, (fds i).socket = s.pool.slots i
  data : ∀ fds, t = some fds → ∀ i, s.pool.slots i ≠ none →
    (fds i).domain = (s.data i).domain ∧ (fds i).flags = BitVec.ofInt 32 (s.data i).flags

/-- A call of a function that changes the table. -/
inductive TableCall where
  | socket (domain : ℤ) (type : BitVec 32) (protocol : ℤ) (started : Except WinError Unit)
  | accept (fd : ℤ)
  | accept4 (fd : ℤ) (sflags : BitVec 32)
  | close (fd : ℤ)

/-- The call as a program. -/
def TableCall.prog (t : SocketTable) : TableCall → Prog (SocketTable × Result)
  | .socket domain type protocol started => Socket.socket t domain type protocol started
  | .accept fd => Socket.accept t fd
  | .accept4 fd sflags => Socket.accept4 t fd sflags
  | .close fd => closeSocket t fd

/-- The first step of the call in a thread. -/
def TableCall.begins (thread : ℕ) : TableCall → SocketAction
  | .socket domain type _ started =>
    .socket thread ⟨domain, (flagsOf type).toInt⟩ (started matches .ok _)
  | .accept fd => .accept thread fd
  | .accept4 fd sflags => .accept4 thread fd (flagsOf sflags).toInt
  | .close fd => .close thread fd

/-- Winsock answers anything, but does not give out a handle that is in use. -/
def supplier (p : Pool) (u : Unit) : WsCall → Answer → Option Unit
  | .socket _ _ _, .ok v | .accept _, .ok v => if p.InUse v then none else some u
  | _, _ => some u

/-- Steps of one thread, whatever the answers. -/
def Alone (thread : ℕ) (s s' : Descriptor.Table SocketInfo) : Prop :=
  ∃ answers : List Descriptor.Table.OsAnswer,
    exec socketStep s (answers.map (SocketAction.next thread)) = some s'

/-- The thread comes to the end of its call with these slots and this data. -/
def EndsWith (thread : ℕ) (s : Descriptor.Table SocketInfo) (slots : ℕ → Option ℕ)
    (data : ℕ → SocketInfo) : Prop :=
  ∃ s', Alone thread s s' ∧ s'.pcs thread = .idle ∧ s'.published = s.published ∧
    s'.pool.slots = slots ∧ s'.data = data

section Steps

variable {s s' s'' : Descriptor.Table SocketInfo} {thread v i : ℕ} {info : SocketInfo}
  {slots : ℕ → Option ℕ} {data : ℕ → SocketInfo}

theorem Alone.refl (thread : ℕ) (s : Descriptor.Table SocketInfo) : Alone thread s s := ⟨[], rfl⟩

theorem Alone.head (os : Descriptor.Table.OsAnswer)
    (hstep : socketStep s (.next thread os) = some s') (h : Alone thread s' s'') :
    Alone thread s s'' := by
  obtain ⟨answers, hrun⟩ := h
  exact ⟨os :: answers, exec_cons_eq_some.mpr ⟨s', hstep, hrun⟩⟩

/-- One step nearer to the end. -/
theorem EndsWith.head (os : Descriptor.Table.OsAnswer)
    (hstep : socketStep s (.next thread os) = some s') (hpub : s'.published = s.published)
    (h : EndsWith thread s' slots data) : EndsWith thread s slots data := by
  obtain ⟨s'', halone, hidle, hpub', hslots, hdata⟩ := h
  exact ⟨s'', halone.head os hstep, hidle, hpub'.trans hpub, hslots, hdata⟩

theorem slots_dispose (p : Pool) (v : ℕ) : (p.dispose v).slots = p.slots := by
  unfold Pool.dispose
  cases p.latest v with
  | none => rfl
  | some k => rfl

/-- What is disposed of is in no slot. -/
theorem endsWith_dispose (hpc : s.pcs thread = .discard v ∨ s.pcs thread = .removed v) :
    EndsWith thread s s.pool.slots s.data := by
  have hdispose : socketStep s (.next thread ⟨none, true⟩) = some (s.disposeOf thread v) := by
    rcases hpc with hpc | hpc <;> simp only [socketStep, hpc]
  have hreturn : (s.disposeOf thread v).pcs thread = .returning (s.pool.latest v) :=
    Function.update_self _ _ _
  have hfinish : socketStep (s.disposeOf thread v) (.next thread ⟨none, true⟩) =
      some ((s.disposeOf thread v).finish thread (s.pool.latest v)) := by
    simp only [socketStep, hreturn]
  have hsteps := ((Alone.refl thread _).head _ hfinish).head _ hdispose
  exact ⟨_, hsteps, Function.update_self _ _ _, rfl, slots_dispose s.pool v, rfl⟩

/-- The data is stored. -/
theorem endsWith_placed (hpc : s.pcs thread = .placed i info) :
    EndsWith thread s s.pool.slots (Function.update s.data i info) := by
  have hstore : socketStep s (.next thread ⟨none, true⟩) =
      some ({ s with data := Function.update s.data i info }.goto thread .idle) := by
    simp only [socketStep, hpc]
  exact ⟨_, (Alone.refl _ _).head _ hstore, Function.update_self _ _ _, rfl, rfl, rfl⟩

/-- The compare-and-exchange of a slot that is still empty. -/
theorem endsWith_swap (hpc : s.pcs thread = .swap v info i) (hslot : s.pool.slots i = none) :
    EndsWith thread s (Function.update s.pool.slots i (some v))
      (Function.update s.data i info) := by
  have hswap : socketStep s (.next thread ⟨none, true⟩) =
      some (s.allocSwap thread v info i) := by
    simp only [socketStep, hpc]
  unfold Descriptor.Table.allocSwap at hswap
  rw [if_pos hslot] at hswap
  refine EndsWith.head _ hswap rfl (endsWith_placed (Function.update_self _ _ _))

/-- **The loop over the slots.**  Nothing happens to the slots while the thread reads them, so that
the first one it finds empty is still empty at the compare-and-exchange; by induction on the slots
that are left. -/
theorem alone_scan (n : ℕ) (hn : i + n = maxsockets) (hpc : s.pcs thread = .scan v info i)
    (hslots : s.pool.slots = slots) (hdata : s.data = data) :
    let j := firstFrom (fun k => (slots k).isNone) n i
    if j < maxsockets then
      EndsWith thread s (Function.update slots j (some v)) (Function.update data j info)
    else EndsWith thread s slots data := by
  have hscan : socketStep s (.next thread ⟨none, true⟩) =
      some (s.allocScan maxsockets thread v info i) := by
    simp only [socketStep, hpc]
  unfold Descriptor.Table.allocScan at hscan
  induction n generalizing s i with
  | zero =>
    have hend : ¬ i < maxsockets := by omega
    rw [if_neg hend] at hscan
    rw [firstFrom, if_neg hend, ← hslots, ← hdata]
    exact .head _ hscan rfl (endsWith_dispose (Or.inl (Function.update_self _ _ _)))
  | succ n ih =>
    have hlt : i < maxsockets := by omega
    rw [if_pos hlt] at hscan
    rw [firstFrom]
    dsimp only
    by_cases hslot : s.pool.slots i = none
    · rw [if_pos hslot] at hscan
      have hhit : (slots i).isNone = true := Option.isNone_iff_eq_none.mpr (hslots ▸ hslot)
      rw [if_pos hhit, if_pos hlt, ← hslots, ← hdata]
      exact .head _ hscan rfl (endsWith_swap (Function.update_self _ _ _) hslot)
    · rw [if_neg hslot] at hscan
      have hmiss : ¬ (slots i).isNone = true := fun h =>
        hslot (hslots.symm ▸ Option.isNone_iff_eq_none.mp h)
      have hpc' : (s.goto thread (.scan v info (i + 1))).pcs thread = .scan v info (i + 1) :=
        Function.update_self _ _ _
      have hrest := ih (s := s.goto thread (.scan v info (i + 1))) (i := i + 1) (by omega) hpc'
        hslots hdata (by simp only [socketStep, hpc']; rfl)
      dsimp only at hrest
      rw [if_neg hmiss]
      split at hrest
      · rename_i hfound
        rw [if_pos hfound]
        exact .head _ hscan rfl hrest
      · rename_i hfound
        rw [if_neg hfound]
        exact .head _ hscan rfl hrest

end Steps

/-! ## The functions -/

section Functions

variable {s s' : Descriptor.Table SocketInfo} {thread v i : ℕ} {info : SocketInfo}
  {t : SocketTable} {fds : ℕ → SocketFd} {p : Pool}

/-- The call has come to its end, in a table that shows the sockets. -/
def EndsIn (thread : ℕ) (s : Descriptor.Table SocketInfo) (t : SocketTable) : Prop :=
  ∃ s', Alone thread s s' ∧ s'.pcs thread = .idle ∧ Shows s' t

theorem EndsIn.head (os : Descriptor.Table.OsAnswer)
    (hstep : socketStep s (.next thread os) = some s') (h : EndsIn thread s' t) :
    EndsIn thread s t := by
  obtain ⟨s'', halone, hidle, hshow⟩ := h
  exact ⟨s'', halone.head os hstep, hidle, hshow⟩

theorem Shows.of_eq (h : Shows s t) (hpub : s'.published = s.published)
    (hslots : s'.pool.slots = s.pool.slots) (hdata : s'.data = s.data) : Shows s' t := by
  refine ⟨h.published.trans hpub.symm, ?_, ?_⟩
  · rw [hslots]
    exact h.socket
  · rw [hslots, hdata]
    exact h.data

theorem EndsWith.endsIn_of_shows (h : EndsWith thread s s.pool.slots s.data) (hshow : Shows s t) :
    EndsIn thread s t := by
  obtain ⟨s', halone, hidle, hpub, hslots, hdata⟩ := h
  exact ⟨s', halone, hidle, hshow.of_eq hpub hslots hdata⟩

/-- One slot is written in both tables. -/
theorem Shows.update (h : Shows s (some fds)) {fd : SocketFd} (hpub : s'.published = s.published)
    (hslots : s'.pool.slots = Function.update s.pool.slots i fd.socket)
    (hdata : s'.data = Function.update s.data i info)
    (hfd : fd.socket ≠ none →
      fd.domain = info.domain ∧ fd.flags = BitVec.ofInt 32 info.flags) :
    Shows s' (some (Function.update fds i fd)) := by
  refine ⟨h.published.trans hpub.symm, fun fds' hfds' j => ?_, fun fds' hfds' j hj => ?_⟩
  · obtain rfl := Option.some.inj hfds'
    rw [hslots]
    by_cases hji : j = i
    · rw [hji, Function.update_self, Function.update_self]
    · rw [Function.update_of_ne hji, Function.update_of_ne hji]
      exact h.socket fds rfl j
  · obtain rfl := Option.some.inj hfds'
    rw [hslots] at hj
    rw [hdata]
    by_cases hji : j = i
    · rw [hji, Function.update_self] at hj
      rw [hji, Function.update_self, Function.update_self]
      exact hfd hj
    · rw [Function.update_of_ne hji] at hj
      rw [Function.update_of_ne hji, Function.update_of_ne hji]
      exact h.data fds rfl j hj

/-- A slot is filled. -/
theorem EndsWith.endsIn_update
    (h : EndsWith thread s (Function.update s.pool.slots i (some v))
      (Function.update s.data i info)) (hshow : Shows s (some fds)) :
    EndsIn thread s
      (some (Function.update fds i ⟨some v, info.domain, BitVec.ofInt 32 info.flags⟩)) := by
  obtain ⟨s', halone, hidle, hpub, hslots, hdata⟩ := h
  exact ⟨s', halone, hidle, hshow.update hpub hslots hdata fun _ => ⟨rfl, rfl⟩⟩

/-- `wpdk_allocate_socket`. -/
theorem allocateSocket_alone (hshow : Shows s (some fds)) (hpc : s.pcs thread = .opened v info) :
    wp (supplier p) (allocateSocket fds v info.domain (BitVec.ofInt 32 info.flags))
      (fun out _ => EndsIn thread s out.1) () := by
  unfold allocateSocket
  rw [Interact.wp_ask_bind]
  rintro ans u -
  cases ans with
  | error e =>
    -- `ioctlsocket` has failed, and the handle is closed
    rintro ans u -
    have hstep : socketStep s (.next thread ⟨none, false⟩) =
        some (s.goto thread (.discard v)) := by
      simp only [socketStep, hpc, Bool.false_eq_true, if_false]
    refine EndsIn.head _ hstep ?_
    exact (endsWith_dispose (Or.inl (Function.update_self _ _ _))).endsIn_of_shows
      (hshow.of_eq rfl rfl rfl)
  | ok _ =>
    have hstep : socketStep s (.next thread ⟨none, true⟩) =
        some (s.goto thread (.scan v info 0)) := by
      simp only [socketStep, hpc, if_true]
    have hshow' : Shows (s.goto thread (.scan v info 0)) (some fds) := hshow.of_eq rfl rfl rfl
    have hslots : (fun i => (fds i).socket) = s.pool.slots := funext (hshow.socket fds rfl)
    have hscan := alone_scan (s := s.goto thread (.scan v info 0)) maxsockets (Nat.zero_add _)
      (Function.update_self thread _ _) rfl rfl
    have hfirst : first (fun i => (fds i).socket.isNone) maxsockets =
        firstFrom (fun k => (s.pool.slots k).isNone) maxsockets 0 := by
      rw [← hslots, first]
    dsimp only at hscan ⊢
    rw [hfirst]
    by_cases hfound : firstFrom (fun k => (s.pool.slots k).isNone) maxsockets 0 < maxsockets
    · rw [if_pos hfound]
      exact (EndsWith.endsIn_update ((if_pos hfound).mp hscan) hshow').head _ hstep
    · rw [if_neg hfound]
      rintro ans u -
      exact (EndsWith.endsIn_of_shows ((if_neg hfound).mp hscan) hshow').head _ hstep

/-- A new handle from `socket` or `accept`. -/
theorem obtained_alone (hshow : Shows s (some fds)) (hpc : s.pcs thread = .allocating info)
    (hfresh : ¬ s.pool.InUse v) :
    wp (supplier p) (allocateSocket fds v info.domain (BitVec.ofInt 32 info.flags))
      (fun out _ => EndsIn thread s out.1) () := by
  have hstep : socketStep s (.next thread ⟨some v, true⟩) =
      some ({ s with pool := s.pool.obtain thread v }.goto thread (.opened v info)) := by
    simp only [socketStep, hpc, Descriptor.Table.obtained, if_neg hfresh]
  have hopened := allocateSocket_alone (s := { s with pool := s.pool.obtain thread v }.goto thread
    (.opened v info)) (p := p) (hshow.of_eq rfl rfl rfl) (Function.update_self _ _ _)
  exact Interact.wp_mono hopened fun out _ hend => hend.head _ hstep

/-- No handle was given out. -/
theorem refused_alone (hshow : Shows s t) (hpc : s.pcs thread = .allocating info) :
    EndsIn thread s t := by
  have hstep : socketStep s (.next thread ⟨none, true⟩) = some (s.goto thread .idle) := by
    simp only [socketStep, hpc]
  exact ⟨_, (Alone.refl _ _).head _ hstep, Function.update_self _ _ _, hshow.of_eq rfl rfl rfl⟩

/-- What `accept` and the steps behind it come to. -/
theorem acceptWith_alone (hshow : Shows s (some fds)) (hpc : s.pcs thread = .allocating info) :
    wp (supplier s.pool) (acceptWith fds v info.domain (BitVec.ofInt 32 info.flags))
      (fun out _ => EndsIn thread s out.1) () := by
  unfold acceptWith
  rw [Interact.wp_ask_bind]
  rintro ans u hans
  cases ans with
  | error e => exact refused_alone hshow hpc
  | ok new =>
    obtain ⟨hfresh, -⟩ := Option.ite_none_left_eq_some.mp hans
    exact obtained_alone hshow hpc hfresh

/-- The table that `wpdk_socket_startup` makes has no sockets. -/
theorem shows_empty (hinv : Descriptor.Table.Inv maxsockets s) (hpub : s.published = false)
    (hpub' : s'.published = true) (hslots : s'.pool.slots = s.pool.slots) :
    Shows s' (some fun _ => SocketFd.empty) := by
  have hnone : ∀ i, s.pool.slots i = none := by
    intro i
    cases hslot : s.pool.slots i with
    | none => rfl
    | some v =>
      have htrue := (hinv.slot_lt i v hslot).2
      rw [hpub] at htrue
      cases htrue
  refine ⟨hpub'.symm, fun fds hfds i => ?_, fun fds hfds i hi => ?_⟩
  · obtain rfl := Option.some.inj hfds
    rw [hslots, hnone]
    rfl
  · rw [hslots] at hi
    exact absurd (hnone i) hi

/-- `wpdk_socket`. -/
theorem socket_alone (hinv : Descriptor.Table.Inv maxsockets s) (hshow : Shows s t)
    (hidle : s.pcs thread = .idle) (domain : ℤ) (type : BitVec 32) (protocol : ℤ)
    (started : Except WinError Unit) :
    wp (supplier s.pool) (Socket.socket t domain type protocol started)
      (fun out _ => ∃ s', socketStep s
        (TableCall.begins thread (.socket domain type protocol started)) = some s' ∧
          EndsIn thread s' out.1) () := by
  have hstep : socketStep s (TableCall.begins thread (.socket domain type protocol started)) =
      if s.published || started matches .ok _ then
        some ({ s with published := true }.goto thread
          (.allocating ⟨domain, (flagsOf type).toInt⟩))
      else some s := by
    simp only [TableCall.begins, socketStep, Descriptor.Table.beginCall, hidle]
  -- from the call of `socket` on
  have hrest : ∀ fds, s.published || started matches .ok _ →
      Shows ({ s with published := true }.goto thread
        (.allocating ⟨domain, (flagsOf type).toInt⟩)) (some fds) →
      wp (supplier s.pool) (Socket.socket (some fds) domain type protocol started)
        (fun out _ => ∃ s', socketStep s
          (TableCall.begins thread (.socket domain type protocol started)) = some s' ∧
            EndsIn thread s' out.1) () := by
    intro fds hok hshow'
    rw [if_pos hok] at hstep
    unfold Socket.socket
    simp only [Option.elim_some]
    rw [Interact.wp_ask_bind]
    rintro ans u hans
    cases ans with
    | error e => exact ⟨_, hstep, refused_alone hshow' (Function.update_self _ _ _)⟩
    | ok v =>
      obtain ⟨hfresh, -⟩ := Option.ite_none_left_eq_some.mp hans
      have halloc := obtained_alone (p := s.pool) hshow' (Function.update_self _ _ _) hfresh
      rw [BitVec.ofInt_toInt] at halloc
      exact Interact.wp_mono halloc fun out _ hend => ⟨_, hstep, hend⟩
  cases t with
  | some fds =>
    have hpub : s.published = true := hshow.published.symm
    exact hrest fds (by rw [hpub]; rfl) (hshow.of_eq hpub.symm rfl rfl)
  | none =>
    have hpub : s.published = false := hshow.published.symm
    cases started with
    | error e =>
      rw [hpub] at hstep
      exact ⟨s, hstep, s, Alone.refl _ _, hidle, hshow⟩
    | ok _ => exact hrest _ (by rw [hpub]; rfl) (shows_empty hinv hpub rfl rfl)

/-- The data of a socket in the table. -/
theorem getSocketInfo_of_shows (hshow : Shows s (some fds)) {fd : ℤ}
    (hi : Descriptor.Table.slotOf socketbase maxsockets fd = some i)
    (hsocket : (fds i).socket = some v) :
    Descriptor.getSocketInfo s fd = some (s.data i) ∧ (fds i).domain = (s.data i).domain ∧
      (fds i).flags = BitVec.ofInt 32 (s.data i).flags := by
  have hslot : s.pool.slots i ≠ none := by
    rw [← hshow.socket fds rfl i, hsocket]
    exact Option.some_ne_none v
  refine ⟨?_, hshow.data fds rfl i hslot⟩
  unfold Descriptor.getSocketInfo
  rw [hi]
  exact if_pos ⟨hshow.published.symm, hslot⟩

/-- A descriptor without a socket. -/
theorem getSocketInfo_of_getSocket_none (hshow : Shows s t) {fd : ℤ} (h : getSocket t fd = none) :
    Descriptor.getSocketInfo s fd = none := by
  unfold Descriptor.getSocketInfo
  cases hi : Descriptor.Table.slotOf socketbase maxsockets fd with
  | none => rfl
  | some i =>
    refine if_neg ?_
    rintro ⟨hpub, hslot⟩
    cases t with
    | none =>
      rw [← hshow.published] at hpub
      cases hpub
    | some fds =>
      rw [getSocket, Option.bind_some, hi, Option.bind_some, hshow.socket fds rfl i] at h
      exact hslot h

/-- A call that was given a descriptor without a socket is over at once. -/
theorem stays_alone (hshow : Shows s t) (hidle : s.pcs thread = .idle) {a : SocketAction}
    (hstep : socketStep s a = some s) :
    ∃ s', socketStep s a = some s' ∧ EndsIn thread s' t :=
  ⟨s, hstep, s, Alone.refl _ _, hidle, hshow⟩

/-- A call that has found the socket to accept from. -/
theorem accepts_alone (hshow : Shows s (some fds)) {a : SocketAction}
    (hstep : socketStep s a = some (s.goto thread (.allocating info))) :
    wp (supplier s.pool) (acceptWith fds v info.domain (BitVec.ofInt 32 info.flags))
      (fun out _ => ∃ s', socketStep s a = some s' ∧ EndsIn thread s' out.1) () := by
  have haccept := acceptWith_alone (s := s.goto thread (.allocating info)) (v := v)
    (hshow.of_eq rfl rfl rfl) (Function.update_self _ _ _)
  exact Interact.wp_mono haccept fun out _ hend => ⟨_, hstep, hend⟩

/-- `wpdk_accept`. -/
theorem accept_alone (hshow : Shows s t) (hidle : s.pcs thread = .idle) (fd : ℤ) :
    wp (supplier s.pool) (Socket.accept t fd)
      (fun out _ => ∃ s', socketStep s (.accept thread fd) = some s' ∧ EndsIn thread s' out.1)
      () := by
  unfold Socket.accept
  cases hget : getSocket t fd with
  | none =>
    rw [withSocket_of_none hget]
    refine stays_alone hshow hidle ?_
    simp only [socketStep, Descriptor.Table.beginCall, hidle,
      getSocketInfo_of_getSocket_none hshow hget]
  | some v =>
    obtain ⟨fds, i, rfl, hi, hsocket⟩ := slot_of_getSocket hget
    obtain ⟨hinfo, hdomain, hflags⟩ := getSocketInfo_of_shows hshow hi hsocket
    rw [withSocket_of_some rfl hi hsocket, hdomain, hflags]
    refine accepts_alone hshow ?_
    simp only [socketStep, Descriptor.Table.beginCall, hidle, hinfo]

/-- `wpdk_accept4`. -/
theorem accept4_alone (hshow : Shows s t) (hidle : s.pcs thread = .idle) (fd : ℤ)
    (sflags : BitVec 32) :
    wp (supplier s.pool) (Socket.accept4 t fd sflags)
      (fun out _ => ∃ s', socketStep s (.accept4 thread fd (flagsOf sflags).toInt) = some s' ∧
        EndsIn thread s' out.1) () := by
  unfold Socket.accept4
  cases hget : getSocket t fd with
  | none =>
    rw [withSocket_of_none hget]
    refine stays_alone hshow hidle ?_
    simp only [socketStep, Descriptor.Table.beginCall, hidle,
      getSocketInfo_of_getSocket_none hshow hget]
  | some v =>
    obtain ⟨fds, i, rfl, hi, hsocket⟩ := slot_of_getSocket hget
    obtain ⟨hinfo, hdomain, -⟩ := getSocketInfo_of_shows hshow hi hsocket
    have hstep : socketStep s (.accept4 thread fd (flagsOf sflags).toInt) =
        some (s.goto thread (.allocating ⟨(s.data i).domain, (flagsOf sflags).toInt⟩)) := by
      simp only [socketStep, Descriptor.Table.beginCall, hidle, hinfo]
    have haccept := accepts_alone (v := v) hshow hstep
    rw [BitVec.ofInt_toInt] at haccept
    rw [withSocket_of_some rfl hi hsocket, hdomain]
    exact haccept

/-- A close of a slot that is empty, or of one in a table that is not there. -/
theorem look_alone_of_none (hshow : Shows s t) (hpc : s.pcs thread = .look i)
    (hnone : t.bind (fun fds => (fds i).socket) = none) : EndsIn thread s t := by
  have hfail : s.lookAt thread i = s.failClose thread i .ebadf := by
    unfold Descriptor.Table.lookAt
    cases t with
    | none =>
      have hpub : s.published = false := hshow.published.symm
      rw [hpub]
      rfl
    | some fds =>
      have hslot : s.pool.slots i = none := by
        rw [← hshow.socket fds rfl i]
        exact hnone
      rw [hslot]
      exact ite_self _
  have hstep : socketStep s (.next thread ⟨none, true⟩) =
      some (s.failClose thread i .ebadf) := by
    simp only [socketStep, hpc, hfail]
  exact ⟨_, (Alone.refl _ _).head _ hstep, Function.update_self _ _ _, hshow.of_eq rfl rfl rfl⟩

/-- A close of a slot that has a handle: it is still there when it is taken out. -/
theorem look_alone_of_some (hshow : Shows s (some fds)) (hpc : s.pcs thread = .look i)
    (hsocket : (fds i).socket = some v) :
    EndsIn thread s (some (Function.update fds i { fds i with socket := none })) := by
  have hpub : s.published = true := hshow.published.symm
  have hslot : s.pool.slots i = some v := by rw [← hshow.socket fds rfl i, hsocket]
  have hlook : socketStep s (.next thread ⟨none, true⟩) = some (s.goto thread (.take i v)) := by
    simp only [socketStep, hpc, Descriptor.Table.lookAt, hpub, hslot, if_true]
  have hpc' : (s.goto thread (.take i v)).pcs thread = .take i v := Function.update_self _ _ _
  have hslot' : (s.goto thread (.take i v)).pool.slots i = some v := hslot
  have htake : socketStep (s.goto thread (.take i v)) (.next thread ⟨none, true⟩) =
      some ((s.goto thread (.take i v)).removeAt thread i v) := by
    simp only [socketStep, hpc', if_pos hslot']
  refine EndsIn.head _ hlook (EndsIn.head _ htake ?_)
  have hremoved : Shows ((s.goto thread (.take i v)).removeAt thread i v)
      (some (Function.update fds i { fds i with socket := none })) :=
    hshow.update rfl rfl (Function.update_eq_self i s.data).symm fun h => absurd rfl h
  exact (endsWith_dispose (Or.inr (Function.update_self _ _ _))).endsIn_of_shows hremoved

/-- `wpdk_close_socket`. -/
theorem closeSocket_alone (hshow : Shows s t) (hidle : s.pcs thread = .idle) (fd : ℤ) :
    wp (supplier s.pool) (closeSocket t fd)
      (fun out _ => ∃ s', socketStep s (.close thread fd) = some s' ∧ EndsIn thread s' out.1)
      () := by
  have hbegin : ∀ i, Descriptor.Table.slotOf socketbase maxsockets fd = some i →
      socketStep s (.close thread fd) = some (s.goto thread (.look i)) := by
    intro i hi
    simp only [socketStep, Descriptor.Table.beginCall, hidle, hi]
  unfold closeSocket
  cases hget : getSocket t fd with
  | none =>
    rw [withSocket_of_none hget]
    cases hi : Descriptor.Table.slotOf socketbase maxsockets fd with
    | none =>
      refine stays_alone hshow hidle ?_
      simp only [socketStep, Descriptor.Table.beginCall, hidle, hi]
    | some i =>
      rw [getSocket, hi] at hget
      exact ⟨_, hbegin i hi, look_alone_of_none (hshow.of_eq rfl rfl rfl)
        (Function.update_self _ _ _) hget⟩
  | some v =>
    obtain ⟨fds, i, rfl, hi, hsocket⟩ := slot_of_getSocket hget
    rw [withSocket_of_some rfl hi hsocket]
    rintro ans u -
    exact ⟨_, hbegin i hi, look_alone_of_some (hshow.of_eq rfl rfl rfl)
      (Function.update_self _ _ _) hsocket⟩

end Functions

/-- **The steps of a call end in the table of its program.**  From any table that threads can have
made, and with one thread taking steps: whatever Winsock answers to the program, the thread can go
through the call with steps that leave the sockets the program leaves. -/
theorem tableCall_alone {s : Descriptor.Table SocketInfo} {t : SocketTable} {thread : ℕ}
    (hinv : Descriptor.Table.Inv maxsockets s) (hshow : Shows s t) (hidle : s.pcs thread = .idle)
    (c : TableCall) :
    wp (supplier s.pool) (c.prog t)
      (fun out _ =>
        ∃ s', socketStep s (c.begins thread) = some s' ∧ EndsIn thread s' out.1) () := by
  cases c with
  | socket domain type protocol started =>
    exact socket_alone hinv hshow hidle domain type protocol started
  | accept fd => exact accept_alone hshow hidle fd
  | accept4 fd sflags => exact accept4_alone hshow hidle fd sflags
  | close fd => exact closeSocket_alone hshow hidle fd

end Socket
end Wpdk
