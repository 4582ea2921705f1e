import Wpdk.Socket.Calls

/-!
# Which handle a socket function uses

A function that is given a descriptor without a socket fails with `EBADF` and makes no call.
Otherwise its calls are made on the handle in the slot of the descriptor, and the socket that
`accept` returns is a new one, on which the calls that set it up are made.  All the functions do so
but `wpdk_shutdown`, which passes on its own argument: the descriptor, and not the handle.

* `record`: the environment that writes down the calls.
* `onBehalf`: the calls that are made on behalf of the descriptor.
* `operate_of_none`, `OnlyOn`: the two halves.
* `acts_on_handle_iff`: the exact condition.
-/

namespace Wpdk
namespace Socket

open Interact (ask run wp)

/-- Every answer is possible, and the calls are written down. -/
def record (log : List (WsCall × Answer)) (c : WsCall) (ans : Answer) :
    Option (List (WsCall × Answer)) :=
  some (log ++ [(c, ans)])

/-- The socket that a call has made. -/
def newSocket : WsCall → Answer → List ℕ
  | .accept _, .ok s => [s]
  | _, _ => []

/-- The calls but for those on the sockets `new`, and on those that are accepted on the way. -/
def onBehalf : List ℕ → List (WsCall × Answer) → List WsCall
  | _, [] => []
  | new, (c, ans) :: log =>
    if c.handle.all (· ∈ new) then onBehalf (newSocket c ans ++ new) log
    else c :: onBehalf (newSocket c ans ++ new) log

/-- **The function acts on the handle of its descriptor**, whatever is answered to its calls. -/
structure ActsOnHandle (copyPath : ℕ → CString → Option CString) (t : SocketTable)
    (op : Operation) : Prop where
  bad : getSocket t op.fd = none → ∀ answers r log,
    run record [] answers (operate copyPath t op) = some (r, log) →
      r.2 = posixError .ebadf ∧ log = []
  registered : ∀ h, getSocket t op.fd = some h → ∀ answers r log,
    run record [] answers (operate copyPath t op) = some (r, log) →
      ∀ c ∈ onBehalf [] log, c.handle = some h

variable {copyPath : ℕ → CString → Option CString} {t : SocketTable} {op : Operation}

/-- **Without a socket every function fails, and calls nothing.** -/
theorem operate_of_none (h : getSocket t op.fd = none) :
    operate copyPath t op = pure (t, posixError .ebadf) := by
  cases op <;> simp only [Operation.fd] at h <;>
    simp only [operate, bind, connect, listen, accept, accept4, getpeername, getsockname,
      getsockopt, setsockopt, recv, recvfrom, recvmsg, socketRead, socketReadv, send, sendto,
      sendmsg, socketWrite, socketWritev, shutdown, socketFcntl, closeSocket, callOn, transfer,
      transferv, withSocket_of_none h] <;> rfl

/-! ## With a socket -/

/-- Calls on sockets that were made on the way are nobody else's business. -/
theorem onBehalf_eq_nil {new : List ℕ} {log : List (WsCall × Answer)}
    (h : ∀ e ∈ log, ∃ s ∈ new, e.1.handle = some s) : onBehalf new log = [] := by
  induction log generalizing new with
  | nil => rfl
  | cons e log ih =>
    obtain ⟨c, ans⟩ := e
    obtain ⟨s, hs, hc⟩ := h _ List.mem_cons_self
    have hskip : c.handle.all (· ∈ new) = true := by simpa [hc] using hs
    rw [onBehalf, if_pos hskip]
    refine ih fun e he => ?_
    obtain ⟨s, hs, hc⟩ := h e (List.mem_cons_of_mem _ he)
    exact ⟨s, List.mem_append_right _ hs, hc⟩

/-- `wpdk_allocate_socket` calls on the new socket only. -/
theorem allocateSocket_log (fds : ℕ → SocketFd) (s : ℕ) (domain : ℤ) (flags : BitVec 32)
    (log : List (WsCall × Answer)) :
    wp record (allocateSocket fds s domain flags)
      (fun _ log' => ∃ own, log' = log ++ own ∧ ∀ e ∈ own, e.1.handle = some s) log := by
  refine (Interact.wp_ask_bind _ _).mpr fun ans log' hlog => ?_
  obtain rfl := Option.some.inj hlog
  have hclose : ∀ ans', ∃ own, log ++ [(WsCall.ioctlsocket s (flags &&& oNonblock ≠ 0), ans)] ++
      [(.closesocket s, ans')] = log ++ own ∧ ∀ e ∈ own, e.1.handle = some s := fun ans' =>
    ⟨_, List.append_assoc _ _ _, by simp [WsCall.handle]⟩
  cases ans with
  | error e =>
    refine (Interact.wp_ask_bind _ _).mpr fun ans' log' hlog => ?_
    obtain rfl := Option.some.inj hlog
    exact hclose ans'
  | ok v =>
    dsimp only
    split
    · exact ⟨_, rfl, by simp [WsCall.handle]⟩
    · refine (Interact.wp_ask_bind _ _).mpr fun ans' log' hlog => ?_
      obtain rfl := Option.some.inj hlog
      exact hclose ans'

/-- The calls of a program on behalf of the descriptor are made on `h`. -/
def OnlyOn {α : Type} (h : ℕ) (p : Prog α) : Prop :=
  wp record p (fun _ log => ∀ c ∈ onBehalf [] log, c.handle = some h) []

namespace OnlyOn

variable {α β : Type} {h : ℕ}

theorem pure (a : α) : OnlyOn h (pure a : Prog α) := by
  intro c hc
  cases hc

/-- One call, on `h`. -/
theorem ask {c : WsCall} (hc : c.handle = some h) {f : Answer → Prog α}
    (hf : ∀ ans, ∃ a, f ans = Pure.pure a) : OnlyOn h (ask c >>= f) := by
  refine (Interact.wp_ask_bind c f).mpr fun ans log hlog => ?_
  obtain ⟨a, ha⟩ := hf ans
  obtain rfl := Option.some.inj hlog
  rw [ha]
  intro d hd
  have hd : d ∈ [c] := by simpa [onBehalf, hc] using hd
  rw [List.mem_singleton.mp hd, hc]

theorem map {p : Prog α} (hp : OnlyOn h p) (f : α → β) : OnlyOn h (f <$> p) :=
  (Interact.wp_map f p).mpr hp

/-- The calls on a socket that was accepted are not made on behalf of the descriptor. -/
theorem acceptWith (fds : ℕ → SocketFd) (domain : ℤ) (flags : BitVec 32) :
    OnlyOn h (acceptWith fds h domain flags) := by
  refine (Interact.wp_ask_bind _ _).mpr fun ans log hlog => ?_
  obtain rfl := Option.some.inj hlog
  cases ans with
  | error e =>
    intro c hc
    have hc : c ∈ [WsCall.accept h] := by simpa [onBehalf, WsCall.handle] using hc
    rw [List.mem_singleton.mp hc]
    rfl
  | ok new =>
    refine Interact.wp_mono (allocateSocket_log fds new domain flags _) fun _ log hlog c hc => ?_
    obtain ⟨own, rfl, hown⟩ := hlog
    have hnone : onBehalf [new] own = [] :=
      onBehalf_eq_nil fun e he => ⟨new, List.mem_singleton_self new, hown e he⟩
    have hc : c ∈ [WsCall.accept h] := by simpa [onBehalf, WsCall.handle, newSocket, hnone] using hc
    rw [List.mem_singleton.mp hc]
    rfl

end OnlyOn

/-- A function whose body calls on the handle only. -/
theorem OnlyOn.withSocket {α : Type} {h : ℕ} {fd : ℤ} {bad : Result → α}
    {body : (ℕ → SocketFd) → ℕ → ℕ → Prog α} (hs : getSocket t fd = some h)
    (hbody : ∀ fds i, (fds i).socket = some h → OnlyOn h (body fds i h)) :
    OnlyOn h (withSocket t fd bad body) := by
  obtain ⟨fds, i, ht, hi, hsocket⟩ := slot_of_getSocket hs
  rw [withSocket_of_some ht hi hsocket]
  exact hbody fds i hsocket

theorem OnlyOn.callOn {h : ℕ} {fd : ℤ} {c : ℕ → WsCall} {result : Answer → Result}
    (hs : getSocket t fd = some h) (hc : (c h).handle = some h) :
    OnlyOn h (callOn t fd c result) :=
  withSocket hs fun _ _ _ => ask hc fun _ => ⟨_, rfl⟩

theorem OnlyOn.transfer {h : ℕ} {fd : ℤ} {length : ℕ} {c : ℕ → WsCall}
    (hs : getSocket t fd = some h) (hc : (c h).handle = some h) :
    OnlyOn h (transfer t fd length c) := by
  refine withSocket hs fun _ _ _ => ?_
  split
  · exact pure _
  · exact ask hc fun _ => ⟨_, rfl⟩

theorem OnlyOn.transferv {h : ℕ} {fd : ℤ} {iov : Iovec} {c : ℕ → List ℕ → WsCall}
    (hs : getSocket t fd = some h) (hc : ∀ lens, (c h lens).handle = some h) :
    OnlyOn h (transferv t fd iov c) := by
  refine withSocket hs fun _ _ _ => ?_
  split
  · exact pure _
  · exact ask (hc _) fun _ => ⟨_, rfl⟩

/-- What is passed to `shutdown`. -/
def Operation.passed (op : Operation) (h : ℕ) : ℕ :=
  match op with
  | .shutdown fd _ => (BitVec.ofInt 64 fd).toNat
  | _ => h

/-- **With a socket every function but `wpdk_shutdown` calls on its handle.** -/
theorem onlyOn_operate {h : ℕ} (hs : getSocket t op.fd = some h) (hpassed : op.passed h = h) :
    OnlyOn h (operate copyPath t op) := by
  cases op with
  | bind fd addr len =>
    refine (OnlyOn.withSocket hs fun _ _ _ => ?_).map _
    split
    · exact OnlyOn.pure _
    · exact OnlyOn.ask rfl fun _ => ⟨_, rfl⟩
  | connect fd addr len =>
    refine (OnlyOn.withSocket hs fun _ _ _ => ?_).map _
    split
    · exact OnlyOn.pure _
    · refine OnlyOn.ask rfl fun ans => ?_
      split <;> exact ⟨_, rfl⟩
  | listen fd backlog => exact (OnlyOn.callOn hs rfl).map _
  | accept fd => exact OnlyOn.withSocket hs fun _ _ _ => OnlyOn.acceptWith _ _ _
  | accept4 fd sflags => exact OnlyOn.withSocket hs fun _ _ _ => OnlyOn.acceptWith _ _ _
  | getpeername fd => exact (OnlyOn.callOn hs rfl).map _
  | getsockname fd => exact (OnlyOn.callOn hs rfl).map _
  | getsockopt fd level option => exact (OnlyOn.callOn hs rfl).map _
  | setsockopt fd level option len =>
    refine (OnlyOn.withSocket hs fun _ _ _ => ?_).map _
    split
    · exact OnlyOn.pure _
    · split
      · exact OnlyOn.pure _
      · exact OnlyOn.ask rfl fun _ => ⟨_, rfl⟩
  | recv fd length flags => exact (OnlyOn.transfer hs rfl).map _
  | recvfrom fd length flags => exact (OnlyOn.transfer hs rfl).map _
  | recvmsg fd iov msgFlags => exact (OnlyOn.transferv hs fun _ => rfl).map _
  | socketRead fd nbyte => exact (OnlyOn.transferv hs fun _ => rfl).map _
  | socketReadv fd iov => exact (OnlyOn.transferv hs fun _ => rfl).map _
  | send fd length flags => exact (OnlyOn.transfer hs rfl).map _
  | sendto fd length flags => exact (OnlyOn.transfer hs rfl).map _
  | sendmsg fd iov msgFlags => exact (OnlyOn.transferv hs fun _ => rfl).map _
  | socketWrite fd nbyte => exact (OnlyOn.transferv hs fun _ => rfl).map _
  | socketWritev fd iov => exact (OnlyOn.transferv hs fun _ => rfl).map _
  | shutdown fd how =>
    have hhandle : (WsCall.shutdown (BitVec.ofInt 64 fd).toNat how).handle = some h :=
      congrArg some hpassed
    exact (OnlyOn.callOn hs hhandle).map _
  | socketFcntl fd cmd arg =>
    refine OnlyOn.withSocket hs fun _ _ _ => ?_
    cases cmd with
    | getfl => exact OnlyOn.pure _
    | setfl =>
      refine OnlyOn.ask rfl fun ans => ?_
      cases ans <;> exact ⟨_, rfl⟩
    | other => exact OnlyOn.pure _
  | closeSocket fd => exact OnlyOn.withSocket hs fun _ _ _ => OnlyOn.ask rfl fun _ => ⟨_, rfl⟩

/-! ## The exact condition -/

theorem passed_of_getSocket {fd : ℤ} (how : ℤ) {h : ℕ} (hs : getSocket t fd = some h) :
    (Operation.shutdown fd how).passed h = h ↔ (h : ℤ) = fd := by
  obtain ⟨-, i, -, hi, -⟩ := slot_of_getSocket hs
  have hrange : Descriptor.socketbase ≤ fd ∧
      fd < Descriptor.socketbase + Descriptor.maxsockets := by
    unfold Descriptor.Table.slotOf at hi
    split at hi
    · assumption
    · cases hi
  unfold Descriptor.socketbase Descriptor.maxsockets at hrange
  change (BitVec.ofInt 64 fd).toNat = h ↔ (h : ℤ) = fd
  rw [BitVec.toNat_ofInt]
  omega

/-- **Every socket function acts on the handle registered for its descriptor**, for every table and
every descriptor, whatever the arguments and whatever is answered: unless it is `wpdk_shutdown`, and
the handle does not happen to be the same number as the descriptor. -/
theorem acts_on_handle_iff (copyPath : ℕ → CString → Option CString) (t : SocketTable)
    (op : Operation) :
    ActsOnHandle copyPath t op ↔
      ∀ fd how h, op = .shutdown fd how → getSocket t fd = some h → (h : ℤ) = fd := by
  constructor
  · rintro hacts fd how h rfl hs
    obtain ⟨fds, i, ht, hi, hsocket⟩ := slot_of_getSocket hs
    have hrun : run record [] [.ok 0] (operate copyPath t (.shutdown fd how)) =
        some ((t, .ok 0), [(.shutdown (BitVec.ofInt 64 fd).toNat how, .ok 0)]) := by
      rw [operate, shutdown, callOn, withSocket_of_some ht hi hsocket]
      rfl
    have hcall := hacts.registered h hs _ _ _ hrun (.shutdown (BitVec.ofInt 64 fd).toNat how)
      (by simp [onBehalf, WsCall.handle])
    exact (passed_of_getSocket how hs).mp (Option.some.inj hcall)
  · intro hshutdown
    constructor
    · intro hnone answers r log hrun
      rw [operate_of_none hnone] at hrun
      exact Interact.run_spec (Q := fun r log => r.2 = posixError .ebadf ∧ log = [])
        ((Interact.wp_pure _).mpr ⟨rfl, rfl⟩) hrun
    · intro h hs answers r log hrun
      refine Interact.run_spec (onlyOn_operate hs ?_) hrun
      cases op with
      | shutdown fd how => exact (passed_of_getSocket how hs).mpr (hshutdown fd how h rfl hs)
      | _ => rfl

/-- A socket with the handle 300 in the first slot. -/
def oneSocket : SocketTable :=
  some fun i => if i = 0 then ⟨some 300, 2, 0⟩ else SocketFd.empty

/-- `wpdk_shutdown` of its descriptor shuts down the socket with the handle 65536. -/
theorem shutdown_passes_descriptor :
    getSocket oneSocket 0x10000 = some 300 ∧
      run record [] [.ok 0] (operate (fun _ => some) oneSocket (.shutdown 0x10000 2)) =
        some ((oneSocket, .ok 0), [(.shutdown 0x10000 2, .ok 0)]) ∧
      ¬ ActsOnHandle (fun _ => some) oneSocket (.shutdown 0x10000 2) := by
  refine ⟨rfl, rfl, fun hacts => ?_⟩
  have hcall := hacts.registered 300 rfl [.ok 0] _ _ rfl (.shutdown 0x10000 2)
    (by simp [onBehalf, WsCall.handle])
  cases hcall

end Socket
end Wpdk
