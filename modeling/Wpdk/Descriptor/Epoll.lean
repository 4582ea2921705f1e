import Wpdk.Descriptor.Table

/-!
# The epoll table

`wpdk_epoll_create1`, `wpdk_allocate_epoll` and `wpdk_close_epoll` of `epoll.c`, as steps of any
number of threads.  The table is published by the first allocation; a thread that finds another
table published in the meantime frees its own.  An empty slot is a null pointer.  A close
exchanges the slot with a null pointer, and has closed whatever was there.
-/

namespace Wpdk
namespace Descriptor

/-- The number of slots. -/
def maxepolls : ℕ := 512

/-- The descriptor of slot zero. -/
def epollbase : ℤ := 0x20000

/-- A call of thread `t`, or its next step. -/
inductive EpollAction where
  | create1 (t : ℕ) (flags : ℤ)
  | close (t : ℕ) (fd : ℤ)
  /-- Thread `t` goes on with its call. -/
  | next (t : ℕ) (os : Table.OsAnswer)

/-- One step on the epoll table.  The data of the table are the flags of the structure at an
address. -/
def epollStep (s : Table ℤ) : EpollAction → Option (Table ℤ)
  | .create1 t flags => s.beginCall t (some (s.goto t (.checkTable flags)))
  | .close t fd =>
    s.beginCall t <|
      match Table.slotOf epollbase maxepolls fd with
      | none => some s
      | some i => some (s.goto t (.look i))
  | .next t os =>
    match s.pcs t with
    | .checkTable flags =>
      if s.published then some (s.goto t (.allocating flags))
      else if os.ok then some (s.goto t (.swapTable flags))
      else some (s.goto t .idle)
    | .swapTable flags => some ({ s with published := true }.goto t (.allocating flags))
    | .allocating flags =>
      -- `calloc`
      match os.value with
      | none => some (s.goto t .idle)
      | some v => s.obtained t v (.scan v flags 0)
    | .scan v flags i => some (s.allocScan maxepolls t v flags i)
    | .swap v flags i => some (s.allocSwap t v flags i)
    | .discard v => some (s.disposeOf t v)
    | .placed i flags =>
      -- the slot is read again; the write through a null pointer ends the process
      match s.pool.slots i with
      | none => none
      | some v => some ({ s with data := Function.update s.data v flags }.goto t .idle)
    | .look i => some (s.lookAt t i)
    | .take i _ =>
      match s.pool.slots i with
      | none => some (s.failClose t i .ebadf)
      | some v => some (s.removeAt t i v)
    | .removed v => some (s.disposeOf t v)
    | .returning k => some (s.finish t k)
    | .idle | .opened _ _ => none

/-- No epoll instance, no table, and every thread idle. -/
def epollStart : Table ℤ where
  pool := Pool.empty
  published := false
  data := fun _ => 0
  pcs := fun _ => .idle
  claims := fun _ => 0
  closes := fun _ => []
  ended := []

theorem inv_epollStart : Table.Inv maxepolls epollStart where
  owned := Pool.owned_empty
  returning _ _ h := by cases h
  ended _ h := by cases h
  swap_lt _ _ _ _ h := by cases h
  slot_lt _ _ h := by cases h
  published _ h := by cases h

/-- **What a step on the epoll table does.** -/
theorem micro_of_epollStep {s s' : Table ℤ} {a : EpollAction} (h : Table.Inv maxepolls s)
    (hstep : epollStep s a = some s') : Table.Micro maxepolls s s' := by
  cases a with
  | create1 t flags =>
    obtain ⟨hidle, hcall⟩ := Table.beginCall_eq_some.mp hstep
    obtain rfl := Option.some.inj hcall
    exact .goto (by rw [hidle]; rfl) rfl (by simp [Pc.needsTable])
  | close t fd =>
    obtain ⟨hidle, hcall⟩ := Table.beginCall_eq_some.mp hstep
    split at hcall
    · obtain rfl := Option.some.inj hcall
      exact .stay hidle
    · obtain rfl := Option.some.inj hcall
      exact .goto (by rw [hidle]; rfl) rfl (by simp [Pc.needsTable])
  | next t os =>
    cases hpc : s.pcs t with
    | checkTable flags =>
      simp only [epollStep, hpc] at hstep
      split at hstep
      · rename_i hpub
        obtain rfl := Option.some.inj hstep
        exact .goto (by rw [hpc]; rfl) rfl (fun _ => hpub)
      · split at hstep
        · obtain rfl := Option.some.inj hstep
          exact .goto (by rw [hpc]; rfl) rfl (by simp [Pc.needsTable])
        · obtain rfl := Option.some.inj hstep
          exact .goto (by rw [hpc]; rfl) rfl (by simp [Pc.needsTable])
    | swapTable flags =>
      simp only [epollStep, hpc, Option.some.injEq] at hstep
      rw [← hstep]
      exact .move t (.allocating flags) rfl rfl rfl rfl rfl (by rw [hpc]; rfl) rfl (fun _ => rfl)
        (fun _ => rfl)
    | allocating flags =>
      have hpub : s.published = true := h.published t (by rw [hpc]; rfl)
      simp only [epollStep, hpc] at hstep
      split at hstep
      · obtain rfl := Option.some.inj hstep
        exact .goto (by rw [hpc]; rfl) rfl (fun _ => hpub)
      · exact .obtain t _ _ (by rw [hpc]; rfl) rfl rfl hpub hstep
    | scan v flags i =>
      simp only [epollStep, hpc, Option.some.injEq] at hstep
      exact hstep ▸ .scan t v flags i hpc
    | swap v flags i =>
      simp only [epollStep, hpc, Option.some.injEq] at hstep
      exact hstep ▸ .swap t v flags i hpc
    | discard v =>
      simp only [epollStep, hpc, Option.some.injEq] at hstep
      exact hstep ▸ .dispose t v (by rw [hpc]; rfl)
    | placed i flags =>
      simp only [epollStep, hpc] at hstep
      split at hstep
      · cases hstep
      · obtain rfl := Option.some.inj hstep
        exact .move t .idle rfl rfl rfl rfl rfl (by rw [hpc]; rfl) rfl (fun hp => hp)
          (by simp [Pc.needsTable])
    | look i =>
      simp only [epollStep, hpc, Option.some.injEq] at hstep
      exact hstep ▸ .look t i hpc
    | take i w =>
      simp only [epollStep, hpc] at hstep
      split at hstep
      · rename_i hi
        obtain rfl := Option.some.inj hstep
        exact .fail t i w hpc (by rw [hi]; simp)
      · rename_i v hi
        obtain rfl := Option.some.inj hstep
        exact .remove t i v w hpc hi
    | removed v =>
      simp only [epollStep, hpc, Option.some.injEq] at hstep
      exact hstep ▸ .dispose t v (by rw [hpc]; rfl)
    | returning k =>
      simp only [epollStep, hpc, Option.some.injEq] at hstep
      exact hstep ▸ .finish t k hpc
    | idle => simp [epollStep, hpc] at hstep
    | opened v d => simp [epollStep, hpc] at hstep

end Descriptor
end Wpdk
