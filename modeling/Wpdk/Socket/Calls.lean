import Wpdk.Base.CString
import Wpdk.Base.Interact
import Wpdk.Base.Search
import Wpdk.Base.Signed
import Wpdk.Descriptor.Socket

/-!
# The socket functions

The functions of `socket.c` that take a descriptor, and `wpdk_socket`.  Each of them looks up the
handle in the slot of the descriptor, makes its Winsock call on it, and turns a failure into an
`errno` value.  The calls are those of one thread; what several threads do to the table at once
is in `Descriptor.Socket`.

* `SocketTable`: `wpdk_socket_fds`, with `none` for a null pointer.
* `WsCall`: the calls of Winsock.  An answer is a value --- zero, a count, a new socket --- or a
  failure with the code that `WSAGetLastError` then returns.
* `withSocket`: what all the functions begin with; `withSocket_of_none` and `withSocket_of_some`
  are its two cases.
* `Operation`, `operate`: the functions that take a descriptor, together.

Addresses are as much of a `struct sockaddr` as is looked at.  Buffers and names are passed on and
do not appear.
-/

namespace Wpdk
namespace Socket

open Descriptor (socketbase maxsockets)
open Interact (ask)

/-- `struct socket_fd`; an empty slot has no socket. -/
structure SocketFd where
  socket : Option ℕ
  domain : ℤ
  flags : BitVec 32

/-- A slot as `wpdk_socket_startup` makes it. -/
def SocketFd.empty : SocketFd := ⟨none, 0, 0⟩

/-- `wpdk_socket_fds`; a null pointer is `none`. -/
abbrev SocketTable := Option (ℕ → SocketFd)

/-- A socket address: a path in the address family `AF_UNIX`, or something else. -/
inductive SockAddr where
  | unix (path : CString)
  | other (family : ℤ)

/-- The calls of Winsock.  `FIONBIO` is the one request made by `ioctlsocket`. -/
inductive WsCall where
  | socket (domain : ℤ) (type : BitVec 32) (protocol : ℤ)
  | ioctlsocket (s : ℕ) (nonblocking : Bool)
  | closesocket (s : ℕ)
  | accept (s : ℕ)
  | bind (s : ℕ) (addr : SockAddr) (len : ℤ)
  | connect (s : ℕ) (addr : SockAddr) (len : ℤ)
  | listen (s : ℕ) (backlog : ℤ)
  | getpeername (s : ℕ)
  | getsockname (s : ℕ)
  | getsockopt (s : ℕ) (level option : ℤ)
  | setsockopt (s : ℕ) (level option len : ℤ)
  | recv (s length : ℕ) (flags : ℤ)
  | recvfrom (s length : ℕ) (flags : ℤ)
  | send (s length : ℕ) (flags : ℤ)
  | sendto (s length : ℕ) (flags : ℤ)
  | wsaRecv (s : ℕ) (buffers : List ℕ) (flags : ℤ)
  | wsaSend (s : ℕ) (buffers : List ℕ) (flags : ℤ)
  | shutdown (s : ℕ) (how : ℤ)

/-- The socket that a call is made on. -/
def WsCall.handle : WsCall → Option ℕ
  | .socket _ _ _ => none
  | .ioctlsocket s _ | .closesocket s | .accept s | .bind s _ _ | .connect s _ _ | .listen s _
  | .getpeername s | .getsockname s | .getsockopt s _ _ | .setsockopt s _ _ _ | .recv s _ _
  | .recvfrom s _ _ | .send s _ _ | .sendto s _ _ | .wsaRecv s _ _ | .wsaSend s _ _
  | .shutdown s _ => some s

/-- The answer to a call of Winsock. -/
abbrev Answer := Except WinError ℕ

/-- A function that makes calls of Winsock. -/
abbrev Prog (α : Type) := Interact WsCall Answer α

/-- What a function returns: a value, or -1 with an `errno`. -/
abbrev Result := Except ℕ ℤ

/-- `wpdk_posix_error`. -/
def posixError (e : Errno) : Result := .error e.code

/-- A failure is turned into an `errno`; zero is returned otherwise. -/
def status : Answer → Result
  | .error e => .error (convertToPosix e)
  | .ok _ => .ok 0

/-- The same for a call that returns a count. -/
def count : Answer → Result
  | .error e => .error (convertToPosix e)
  | .ok n => .ok n

/-- `O_NONBLOCK`. -/
def oNonblock : BitVec 32 := 0x0004

/-- `SOCK_NONBLOCK`. -/
def sockNonblock : BitVec 32 := 0x1000

/-- `(type & SOCK_NONBLOCK) ? O_NONBLOCK : 0`. -/
def flagsOf (type : BitVec 32) : BitVec 32 := if type &&& sockNonblock ≠ 0 then oNonblock else 0

/-! ## The table -/

/-- `wpdk_get_socket`. -/
def getSocket (t : SocketTable) (fd : ℤ) : Option ℕ :=
  t.bind fun fds => (Descriptor.Table.slotOf socketbase maxsockets fd).bind fun i => (fds i).socket

/-- The handle is looked up, and `body` goes on with it, the table and the slot; without one the
call fails with `EBADF`. -/
def withSocket {α : Type} (t : SocketTable) (fd : ℤ) (bad : Result → α)
    (body : (ℕ → SocketFd) → ℕ → ℕ → Prog α) : Prog α :=
  match t, Descriptor.Table.slotOf socketbase maxsockets fd with
  | some fds, some i =>
    match (fds i).socket with
    | some s => body fds i s
    | none => pure (bad (posixError .ebadf))
  | _, _ => pure (bad (posixError .ebadf))

section Lookup

variable {t : SocketTable} {fd : ℤ} {α : Type} {bad : Result → α}
  {body : (ℕ → SocketFd) → ℕ → ℕ → Prog α}

theorem withSocket_of_none (h : getSocket t fd = none) :
    withSocket t fd bad body = pure (bad (posixError .ebadf)) := by
  unfold withSocket
  split
  · rename_i fds i hi
    rw [getSocket, Option.bind_some, hi, Option.bind_some] at h
    rw [h]
  · rfl

theorem slot_of_getSocket {s : ℕ} (h : getSocket t fd = some s) :
    ∃ fds i, t = some fds ∧ Descriptor.Table.slotOf socketbase maxsockets fd = some i ∧
      (fds i).socket = some s := by
  obtain ⟨fds, hfds, hslot⟩ := Option.bind_eq_some_iff.mp h
  obtain ⟨i, hi, hs⟩ := Option.bind_eq_some_iff.mp hslot
  exact ⟨fds, i, hfds, hi, hs⟩

theorem withSocket_of_some {fds : ℕ → SocketFd} {i s : ℕ} (ht : t = some fds)
    (hi : Descriptor.Table.slotOf socketbase maxsockets fd = some i)
    (hs : (fds i).socket = some s) : withSocket t fd bad body = body fds i s := by
  unfold withSocket
  rw [ht, hi]
  simp only [hs]

end Lookup

/-- `wpdk_allocate_socket`. -/
def allocateSocket (fds : ℕ → SocketFd) (s : ℕ) (domain : ℤ) (flags : BitVec 32) :
    Prog (SocketTable × Result) := do
  match ← ask (.ioctlsocket s (flags &&& oNonblock ≠ 0)) with
  | .error e =>
    let _ ← ask (.closesocket s)
    return (some fds, .error (convertToPosix e))
  | .ok _ =>
    let i := first (fun i => (fds i).socket.isNone) maxsockets
    if i < maxsockets then
      return (some (Function.update fds i ⟨some s, domain, flags⟩), .ok (socketbase + i))
    else
      let _ ← ask (.closesocket s)
      return (some fds, posixError .emfile)

/-- `wpdk_socket`; `started` is the result of `wpdk_socket_startup`, where it is called. -/
def socket (t : SocketTable) (domain : ℤ) (type : BitVec 32) (protocol : ℤ)
    (started : Except WinError Unit) : Prog (SocketTable × Result) :=
  match t.elim (started.map fun _ _ => SocketFd.empty) .ok with
  | .error e => pure (t, .error (convertToPosix e))
  | .ok fds => do
    match ← ask (.socket domain (type &&& ~~~sockNonblock) protocol) with
    | .error e => return (some fds, .error (convertToPosix e))
    | .ok s => allocateSocket fds s domain (flagsOf type)

/-- `wpdk_close_socket`.  The compare-and-exchange finds the handle that has just been read. -/
def closeSocket (t : SocketTable) (fd : ℤ) : Prog (SocketTable × Result) :=
  withSocket t fd (t, ·) fun fds i s => do
    let ans ← ask (.closesocket s)
    return (some (Function.update fds i { fds i with socket := none }), status ans)

/-- `accept` and what follows it. -/
def acceptWith (fds : ℕ → SocketFd) (s : ℕ) (domain : ℤ) (flags : BitVec 32) :
    Prog (SocketTable × Result) := do
  match ← ask (.accept s) with
  | .error e => return (some fds, .error (convertToPosix e))
  | .ok new => allocateSocket fds new domain flags

/-- `wpdk_accept`. -/
def accept (t : SocketTable) (fd : ℤ) : Prog (SocketTable × Result) :=
  withSocket t fd (t, ·) fun fds i s => acceptWith fds s (fds i).domain (fds i).flags

/-- `wpdk_accept4`. -/
def accept4 (t : SocketTable) (fd : ℤ) (sflags : BitVec 32) : Prog (SocketTable × Result) :=
  withSocket t fd (t, ·) fun fds i s => acceptWith fds s (fds i).domain (flagsOf sflags)

/-- The commands of `fcntl` that come here. -/
inductive FcntlCmd where
  | getfl
  | setfl
  | other
deriving DecidableEq

/-- `wpdk_socket_fcntl`. -/
def socketFcntl (t : SocketTable) (fd : ℤ) (cmd : FcntlCmd) (arg : BitVec 32) :
    Prog (SocketTable × Result) :=
  withSocket t fd (t, ·) fun fds i s =>
    match cmd with
    | .getfl => pure (t, .ok (fds i).flags.toInt)
    | .setfl => do
      let mode : Bool := arg &&& oNonblock ≠ 0
      match ← ask (.ioctlsocket s mode) with
      | .error e => return (t, .error (convertToPosix e))
      | .ok _ =>
        let flags := if mode then (fds i).flags ||| oNonblock else (fds i).flags &&& ~~~oNonblock
        return (some (Function.update fds i { fds i with flags := flags }), .ok 0)
    | .other => pure (t, posixError .einval)

/-! ## The functions that leave the table alone -/

/-- A function that makes one call on the handle. -/
def callOn (t : SocketTable) (fd : ℤ) (c : ℕ → WsCall) (result : Answer → Result) : Prog Result :=
  withSocket t fd id fun _ _ s => do return result (← ask (c s))

/-- `wpdk_listen`. -/
def listen (t : SocketTable) (fd backlog : ℤ) : Prog Result :=
  callOn t fd (.listen · backlog) status

/-- `wpdk_getpeername`. -/
def getpeername (t : SocketTable) (fd : ℤ) : Prog Result := callOn t fd .getpeername status

/-- `wpdk_getsockname`. -/
def getsockname (t : SocketTable) (fd : ℤ) : Prog Result := callOn t fd .getsockname status

/-- `wpdk_getsockopt`. -/
def getsockopt (t : SocketTable) (fd level option : ℤ) : Prog Result :=
  callOn t fd (.getsockopt · level option) status

/-- `wpdk_shutdown`.  The descriptor is passed on, as a `SOCKET`. -/
def shutdown (t : SocketTable) (fd how : ℤ) : Prog Result :=
  callOn t fd (fun _ => .shutdown (BitVec.ofInt 64 fd).toNat how) status

/-- `SO_REUSEADDR`. -/
def soReuseaddr : ℤ := 0x0004

/-- `SO_RCVLOWAT`. -/
def soRcvlowat : ℤ := 0x1004

/-- `AF_UNIX`. -/
def afUnix : ℤ := 1

/-- `wpdk_setsockopt`. -/
def setsockopt (t : SocketTable) (fd level option len : ℤ) : Prog Result :=
  withSocket t fd id fun fds i s =>
    -- with `SO_REUSEADDR` on `AF_UNIX` the bind would fail
    if option = soReuseaddr ∧ (fds i).domain = afUnix then pure (.ok 0)
    else if option = soRcvlowat then pure (.ok 0)
    else do return status (← ask (.setsockopt s level option len))

/-- A transfer of `length` bytes. -/
def transfer (t : SocketTable) (fd : ℤ) (length : ℕ) (c : ℕ → WsCall) : Prog Result :=
  withSocket t fd id fun _ _ s =>
    if intMax < length then pure (posixError .einval) else do return count (← ask (c s))

/-- `wpdk_recv`. -/
def recv (t : SocketTable) (fd : ℤ) (length : ℕ) (flags : ℤ) : Prog Result :=
  transfer t fd length (.recv · length flags)

/-- `wpdk_recvfrom`. -/
def recvfrom (t : SocketTable) (fd : ℤ) (length : ℕ) (flags : ℤ) : Prog Result :=
  transfer t fd length (.recvfrom · length flags)

/-- `wpdk_send`. -/
def send (t : SocketTable) (fd : ℤ) (length : ℕ) (flags : ℤ) : Prog Result :=
  transfer t fd length (.send · length flags)

/-- `wpdk_sendto`. -/
def sendto (t : SocketTable) (fd : ℤ) (length : ℕ) (flags : ℤ) : Prog Result :=
  transfer t fd length (.sendto · length flags)

/-! ## Vectors -/

/-- `ULONG_MAX`. -/
def ulongMax : ℕ := 4294967295

/-- The lengths of the segments of an `iov` array, `none` for a null pointer, with the count that
comes with it and the answer of `calloc`, which is asked for more than ten of them. -/
structure Iovec where
  lengths : Option (ℕ → ℕ)
  iovlen : ℤ
  mem : Bool

/-- The loop of `wpdk_get_wsabuf`. -/
def checkLengths : List ℕ → ℕ → Bool
  | [], _ => true
  | len :: lens, sum =>
    if ulongMax < len ∨ ssizeMax - sum < len then false else checkLengths lens (sum + len)

/-- `wpdk_get_wsabuf`, as the lengths of the buffers. -/
def getWsabuf (iov : Iovec) : Except Errno (List ℕ) :=
  match iov.lengths with
  | none => .error .einval
  | some lengths =>
    if iov.iovlen < 0 ∨ iovMax < iov.iovlen then .error .einval
    else if 10 < iov.iovlen ∧ iov.mem = false then .error .enomem
    else
      let lens := (List.range iov.iovlen.toNat).map lengths
      if checkLengths lens 0 then .ok lens else .error .einval

/-- A transfer from or to the segments of a vector. -/
def transferv (t : SocketTable) (fd : ℤ) (iov : Iovec) (c : ℕ → List ℕ → WsCall) : Prog Result :=
  withSocket t fd id fun _ _ s =>
    match getWsabuf iov with
    | .error e => pure (posixError e)
    | .ok lens => do return count (← ask (c s lens))

/-- `wpdk_socket_readv`. -/
def socketReadv (t : SocketTable) (fd : ℤ) (iov : Iovec) : Prog Result :=
  transferv t fd iov (.wsaRecv · · 0)

/-- `wpdk_socket_read`. -/
def socketRead (t : SocketTable) (fd : ℤ) (nbyte : ℕ) : Prog Result :=
  socketReadv t fd ⟨some fun _ => nbyte, 1, true⟩

/-- `wpdk_recvmsg`. -/
def recvmsg (t : SocketTable) (fd : ℤ) (iov : Iovec) (msgFlags : ℤ) : Prog Result :=
  transferv t fd iov (.wsaRecv · · msgFlags)

/-- `wpdk_socket_writev`. -/
def socketWritev (t : SocketTable) (fd : ℤ) (iov : Iovec) : Prog Result :=
  transferv t fd iov (.wsaSend · · 0)

/-- `wpdk_socket_write`. -/
def socketWrite (t : SocketTable) (fd : ℤ) (nbyte : ℕ) : Prog Result :=
  socketWritev t fd ⟨some fun _ => nbyte, 1, true⟩

/-- `wpdk_sendmsg`. -/
def sendmsg (t : SocketTable) (fd : ℤ) (iov : Iovec) (msgFlags : ℤ) : Prog Result :=
  transferv t fd iov (.wsaSend · · msgFlags)

/-! ## Addresses -/

/-- `sizeof(struct sockaddr_un)`. -/
def sizeofUn : ℤ := 110

/-- `sizeof(un.sun_path)`. -/
def sunPathSize : ℕ := 108

section Path

-- What `wpdk_copy_path` puts into a buffer of a given size, if it does not fail.
variable (copyPath : ℕ → CString → Option CString)

/-- The address that is passed on, with its length: paths are mapped. -/
def mapAddress (addr : SockAddr) (len : ℤ) : Except Errno (SockAddr × ℤ) :=
  match addr with
  | .other family => .ok (.other family, len)
  | .unix path =>
    if sizeofUn < len then .error .einval
    else
      match copyPath sunPathSize path with
      | none => .error .einval
      | some path => .ok (.unix path, sizeofUn)

/-- `wpdk_bind`. -/
def bind (t : SocketTable) (fd : ℤ) (addr : SockAddr) (len : ℤ) : Prog Result :=
  withSocket t fd id fun _ _ s =>
    match mapAddress copyPath addr len with
    | .error e => pure (posixError e)
    | .ok (addr, len) => do return status (← ask (.bind s addr len))

/-- `wpdk_connect`.  A connection that is under way on a non-blocking socket is a success. -/
def connect (t : SocketTable) (fd : ℤ) (addr : SockAddr) (len : ℤ) : Prog Result :=
  withSocket t fd id fun _ _ s =>
    match mapAddress copyPath addr len with
    | .error e => pure (posixError e)
    | .ok (addr, len) => do
      match ← ask (.connect s addr len) with
      | .error .wsaewouldblock => return .ok 0
      | ans => return status ans

/-! ## All of them -/

/-- A call of a function that takes a descriptor. -/
inductive Operation where
  | bind (fd : ℤ) (addr : SockAddr) (len : ℤ)
  | connect (fd : ℤ) (addr : SockAddr) (len : ℤ)
  | listen (fd backlog : ℤ)
  | accept (fd : ℤ)
  | accept4 (fd : ℤ) (sflags : BitVec 32)
  | getpeername (fd : ℤ)
  | getsockname (fd : ℤ)
  | getsockopt (fd level option : ℤ)
  | setsockopt (fd level option len : ℤ)
  | recv (fd : ℤ) (length : ℕ) (flags : ℤ)
  | recvfrom (fd : ℤ) (length : ℕ) (flags : ℤ)
  | recvmsg (fd : ℤ) (iov : Iovec) (msgFlags : ℤ)
  | socketRead (fd : ℤ) (nbyte : ℕ)
  | socketReadv (fd : ℤ) (iov : Iovec)
  | send (fd : ℤ) (length : ℕ) (flags : ℤ)
  | sendto (fd : ℤ) (length : ℕ) (flags : ℤ)
  | sendmsg (fd : ℤ) (iov : Iovec) (msgFlags : ℤ)
  | socketWrite (fd : ℤ) (nbyte : ℕ)
  | socketWritev (fd : ℤ) (iov : Iovec)
  | shutdown (fd how : ℤ)
  | socketFcntl (fd : ℤ) (cmd : FcntlCmd) (arg : BitVec 32)
  | closeSocket (fd : ℤ)

/-- The descriptor. -/
def Operation.fd : Operation → ℤ
  | .bind fd _ _ | .connect fd _ _ | .listen fd _ | .accept fd | .accept4 fd _ | .getpeername fd
  | .getsockname fd | .getsockopt fd _ _ | .setsockopt fd _ _ _ | .recv fd _ _ | .recvfrom fd _ _
  | .recvmsg fd _ _ | .socketRead fd _ | .socketReadv fd _ | .send fd _ _ | .sendto fd _ _
  | .sendmsg fd _ _ | .socketWrite fd _ | .socketWritev fd _ | .shutdown fd _
  | .socketFcntl fd _ _ | .closeSocket fd => fd

/-- The call, with the table it leaves. -/
def operate (t : SocketTable) : Operation → Prog (SocketTable × Result)
  | .bind fd addr len => (t, ·) <$> bind copyPath t fd addr len
  | .connect fd addr len => (t, ·) <$> connect copyPath t fd addr len
  | .listen fd backlog => (t, ·) <$> listen t fd backlog
  | .accept fd => accept t fd
  | .accept4 fd sflags => accept4 t fd sflags
  | .getpeername fd => (t, ·) <$> getpeername t fd
  | .getsockname fd => (t, ·) <$> getsockname t fd
  | .getsockopt fd level option => (t, ·) <$> getsockopt t fd level option
  | .setsockopt fd level option len => (t, ·) <$> setsockopt t fd level option len
  | .recv fd length flags => (t, ·) <$> recv t fd length flags
  | .recvfrom fd length flags => (t, ·) <$> recvfrom t fd length flags
  | .recvmsg fd iov msgFlags => (t, ·) <$> recvmsg t fd iov msgFlags
  | .socketRead fd nbyte => (t, ·) <$> socketRead t fd nbyte
  | .socketReadv fd iov => (t, ·) <$> socketReadv t fd iov
  | .send fd length flags => (t, ·) <$> send t fd length flags
  | .sendto fd length flags => (t, ·) <$> sendto t fd length flags
  | .sendmsg fd iov msgFlags => (t, ·) <$> sendmsg t fd iov msgFlags
  | .socketWrite fd nbyte => (t, ·) <$> socketWrite t fd nbyte
  | .socketWritev fd iov => (t, ·) <$> socketWritev t fd iov
  | .shutdown fd how => (t, ·) <$> shutdown t fd how
  | .socketFcntl fd cmd arg => socketFcntl t fd cmd arg
  | .closeSocket fd => closeSocket t fd

end Path

end Socket
end Wpdk
