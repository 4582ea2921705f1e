import Wpdk.Descriptor.Table

/-!
# The socket table

`wpdk_socket`, `wpdk_accept`, `wpdk_accept4`, `wpdk_allocate_socket` and `wpdk_close_socket` of
`socket.c`, as steps of any number of threads.  An empty slot has `INVALID_SOCKET`.  A close
compares the slot with the handle it has read, and takes it out only if it is still there.

`wpdk_socket_startup`, which publishes the table, is one step here.
-/

namespace Wpdk
namespace Descriptor

/-- What is stored with a socket. -/
structure SocketInfo where
  domain : ℤ
  flags : ℤ

/-- The number of slots. -/
def maxsockets : ℕ := 512

/-- The descriptor of slot zero. -/
def socketbase : ℤ := 0x10000

/-- A call of thread `t`, or its next step. -/
inductive SocketAction where
  /-- `wpdk_socket`, up to the call of `socket`; `started` is the result of
  `wpdk_socket_startup`. -/
  | socket (t : ℕ) (info : SocketInfo) (started : Bool)
  | accept (t : ℕ) (fd : ℤ)
  | accept4 (t : ℕ) (fd flags : ℤ)
  | close (t : ℕ) (fd : ℤ)
  /-- Thread `t` goes on with its call. -/
  | next (t : ℕ) (os : Table.OsAnswer)

/-- What is stored for a descriptor, where `wpdk_get_socket` finds a socket. -/
def getSocketInfo (s : Table SocketInfo) (fd : ℤ) : Option SocketInfo :=
  match Table.slotOf socketbase maxsockets fd with
  | none => none
  | some i => if s.published ∧ s.pool.slots i ≠ none then some (s.data i) else none

/-- One step on the socket table. -/
def socketStep (s : Table SocketInfo) : SocketAction → Option (Table SocketInfo)
  | .socket t info started =>
    s.beginCall t <|
      if s.published || started then
        some ({ s with published := true }.goto t (.allocating info))
      else some s
  | .accept t fd =>
    s.beginCall t <|
      match getSocketInfo s fd with
      | none => some s
      | some info => some (s.goto t (.allocating info))
  | .accept4 t fd flags =>
    s.beginCall t <|
      match getSocketInfo s fd with
      | none => some s
      | some info => some (s.goto t (.allocating { info with flags := flags }))
  | .close t fd =>
    s.beginCall t <|
      match Table.slotOf socketbase maxsockets fd with
      | none => some s
      | some i => some (s.goto t (.look i))
  | .next t os =>
    match s.pcs t with
    | .allocating info =>
      -- `socket` or `accept`
      match os.value with
      | none => some (s.goto t .idle)
      | some v => s.obtained t v (.opened v info)
    | .opened v info =>
      -- `ioctlsocket`
      if os.ok then some (s.goto t (.scan v info 0)) else some (s.goto t (.discard v))
    | .scan v info i => some (s.allocScan maxsockets t v info i)
    | .swap v info i => some (s.allocSwap t v info i)
    | .discard v => some (s.disposeOf t v)
    | .placed i info => some ({ s with data := Function.update s.data i info }.goto t .idle)
    | .look i => some (s.lookAt t i)
    | .take i v =>
      -- the slot must still have the handle that was read
      if s.pool.slots i = some v then some (s.removeAt t i v) else some (s.failClose t i .ebadf)
    | .removed v => some (s.disposeOf t v)
    | .returning k => some (s.finish t k)
    | .idle | .checkTable _ | .swapTable _ => none

/-- No socket, no table, and every thread idle. -/
def socketStart : Table SocketInfo where
  pool := Pool.empty
  published := false
  data := fun _ => ⟨0, 0⟩
  pcs := fun _ => .idle
  claims := fun _ => 0
  closes := fun _ => []
  ended := []

theorem inv_socketStart : Table.Inv maxsockets socketStart where
  owned := Pool.owned_empty
  returning _ _ h := by cases h
  ended _ h := by cases h
  swap_lt _ _ _ _ h := by cases h
  slot_lt _ _ h := by cases h
  published _ h := by cases h

theorem published_of_getSocketInfo {s : Table SocketInfo} {fd : ℤ} {info : SocketInfo}
    (h : getSocketInfo s fd = some info) : s.published = true := by
  unfold getSocketInfo at h
  split at h
  · cases h
  · split at h
    · rename_i hpub
      exact hpub.1
    · cases h

/-- **What a step on the socket table does.** -/
theorem micro_of_socketStep {s s' : Table SocketInfo} {a : SocketAction}
    (h : Table.Inv maxsockets s) (hstep : socketStep s a = some s') :
    Table.Micro maxsockets s s' := by
  cases a with
  | socket t info started =>
    obtain ⟨hidle, hcall⟩ := Table.beginCall_eq_some.mp hstep
    split at hcall
    · obtain rfl := Option.some.inj hcall
      exact .move t (.allocating info) rfl rfl rfl rfl rfl (by rw [hidle]; rfl) rfl (fun _ => rfl)
        (fun _ => rfl)
    · obtain rfl := Option.some.inj hcall
      exact .stay hidle
  | accept t fd =>
    obtain ⟨hidle, hcall⟩ := Table.beginCall_eq_some.mp hstep
    split at hcall
    · obtain rfl := Option.some.inj hcall
      exact .stay hidle
    · rename_i info hinfo
      obtain rfl := Option.some.inj hcall
      exact .goto (by rw [hidle]; rfl) rfl (fun _ => published_of_getSocketInfo hinfo)
  | accept4 t fd flags =>
    obtain ⟨hidle, hcall⟩ := Table.beginCall_eq_some.mp hstep
    split at hcall
    · obtain rfl := Option.some.inj hcall
      exact .stay hidle
    · rename_i info hinfo
      obtain rfl := Option.some.inj hcall
      exact .goto (by rw [hidle]; rfl) rfl (fun _ => published_of_getSocketInfo hinfo)
  | close t fd =>
    obtain ⟨hidle, hcall⟩ := Table.beginCall_eq_some.mp hstep
    split at hcall
    · obtain rfl := Option.some.inj hcall
      exact .stay hidle
    · obtain rfl := Option.some.inj hcall
      exact .goto (by rw [hidle]; rfl) rfl (by simp [Pc.needsTable])
  | next t os =>
    cases hpc : s.pcs t with
    | allocating info =>
      have hpub : s.published = true := h.published t (by rw [hpc]; rfl)
      simp only [socketStep, hpc] at hstep
      split at hstep
      · obtain rfl := Option.some.inj hstep
        exact .goto (by rw [hpc]; rfl) rfl (fun _ => hpub)
      · exact .obtain t _ _ (by rw [hpc]; rfl) rfl rfl hpub hstep
    | opened v info =>
      have hpub : s.published = true := h.published t (by rw [hpc]; rfl)
      simp only [socketStep, hpc] at hstep
      split at hstep
      · obtain rfl := Option.some.inj hstep
        exact .goto (by rw [hpc]; rfl) rfl (fun _ => hpub)
      · obtain rfl := Option.some.inj hstep
        exact .goto (by rw [hpc]; rfl) rfl (fun _ => hpub)
    | scan v info i =>
      simp only [socketStep, hpc, Option.some.injEq] at hstep
      exact hstep ▸ .scan t v info i hpc
    | swap v info i =>
      simp only [socketStep, hpc, Option.some.injEq] at hstep
      exact hstep ▸ .swap t v info i hpc
    | discard v =>
      simp only [socketStep, hpc, Option.some.injEq] at hstep
      exact hstep ▸ .dispose t v (by rw [hpc]; rfl)
    | placed i info =>
      simp only [socketStep, hpc, Option.some.injEq] at hstep
      rw [← hstep]
      exact .move t .idle rfl rfl rfl rfl rfl (by rw [hpc]; rfl) rfl (fun hp => hp)
        (by simp [Pc.needsTable])
    | look i =>
      simp only [socketStep, hpc, Option.some.injEq] at hstep
      exact hstep ▸ .look t i hpc
    | take i v =>
      simp only [socketStep, hpc] at hstep
      split at hstep
      · rename_i hi
        obtain rfl := Option.some.inj hstep
        exact .remove t i v v hpc hi
      · rename_i hi
        obtain rfl := Option.some.inj hstep
        exact .fail t i v hpc hi
    | removed v =>
      simp only [socketStep, hpc, Option.some.injEq] at hstep
      exact hstep ▸ .dispose t v (by rw [hpc]; rfl)
    | returning k =>
      simp only [socketStep, hpc, Option.some.injEq] at hstep
      exact hstep ▸ .finish t k hpc
    | idle => simp [socketStep, hpc] at hstep
    | checkTable d => simp [socketStep, hpc] at hstep
    | swapTable d => simp [socketStep, hpc] at hstep

end Descriptor
end Wpdk
