import Mathlib.Data.Int.Notation
import Mathlib.Data.List.Basic
import Wpdk.Base.SlotPool
import Wpdk.Error

/-!
# Descriptor tables

Sockets and epoll instances are kept in two tables of the same kind: an array of slots, changed
by interlocked operations only, with a descriptor being a base value plus the index of a slot.
An allocation obtains a resource --- a socket handle, a `struct epoll` --- and looks for an empty
slot, first by reading and then by a compare-and-exchange that puts the resource there; a close
reads the slot, takes the resource out by an interlocked operation, and disposes of it.

This module has what the two tables share: the state, the single steps of the calls, and what
each of the steps keeps.  The steps in their order, which are not the same for the two tables,
are in `Descriptor.Socket` and `Descriptor.Epoll`.

* `Pc`: where a thread is; `Pc.held` is the resource it works on outside the table.
* `Table`: the slots with the resources behind them (`Pool`), the data stored with a descriptor,
  and a record of what happened --- how often each slot was filled, how the closes of each slot
  ended, and the resources whose allocation has failed or whose descriptor has been closed, at the
  time when the call returns.
* `Table.Micro`: what a single step of either table can do.
* `Table.Inv`: the resources are owned; `Table.Exclusive` is what follows for descriptors.
* `Table.Segment`: what the closes of one slot do as long as it is not filled again.
-/

namespace Wpdk
namespace Descriptor

/-- The next thing a thread does; `d` is the data that is to be stored with the descriptor.

A thread is out of the calls (`idle`); is about to test for a table, or to publish one
(`checkTable`, `swapTable`); is about to ask for a resource (`allocating`); has a new one
(`opened`); is about to read slot `i`, or to compare-and-exchange it (`scan`, `swap`); gives up
(`discard`); has a slot (`placed`); is about to read slot `i` for a close (`look`), or to take
what is there, having read `v` (`take`); has taken it (`removed`); or has disposed of a resource
and is about to return (`returning`). -/
inductive Pc (δ : Type) where
  | idle
  | checkTable (d : δ)
  | swapTable (d : δ)
  | allocating (d : δ)
  | opened (v : ℕ) (d : δ)
  | scan (v : ℕ) (d : δ) (i : ℕ)
  | swap (v : ℕ) (d : δ) (i : ℕ)
  | discard (v : ℕ)
  | placed (i : ℕ) (d : δ)
  | look (i : ℕ)
  | take (i v : ℕ)
  | removed (v : ℕ)
  | returning (k : Option ℕ)

variable {δ : Type}

/-- The resource a thread works on. -/
def Pc.held : Pc δ → Option ℕ
  | .opened v _ => some v
  | .scan v _ _ => some v
  | .swap v _ _ => some v
  | .discard v => some v
  | .removed v => some v
  | .idle | .checkTable _ | .swapTable _ | .allocating _ | .placed _ _ | .look _
  | .take _ _ | .returning _ => none

/-- A thread that has found the table published. -/
def Pc.needsTable : Pc δ → Bool
  | .allocating _ => true
  | .opened _ _ => true
  | .scan _ _ _ => true
  | .swap _ _ _ => true
  | .idle | .checkTable _ | .swapTable _ | .discard _ | .placed _ _ | .look _ | .take _ _
  | .removed _ | .returning _ => false

/-- A place in a call that is reached by going on, with nothing to be said of the slots. -/
def Pc.quiet : Pc δ → Bool
  | .swap _ _ _ => false
  | .take _ _ => false
  | .returning _ => false
  | .idle | .checkTable _ | .swapTable _ | .allocating _ | .opened _ _
  | .scan _ _ _ | .discard _ | .placed _ _ | .look _ | .removed _ => true

theorem Pc.quiet_ne_returning {pc : Pc δ} (h : pc.quiet = true) (k : Option ℕ) :
    pc ≠ .returning k := by
  rintro rfl
  cases h

theorem Pc.quiet_ne_swap {pc : Pc δ} (h : pc.quiet = true) (v : ℕ) (d : δ) (i : ℕ) :
    pc ≠ .swap v d i := by
  rintro rfl
  cases h

theorem Pc.quiet_ne_take {pc : Pc δ} (h : pc.quiet = true) (i v : ℕ) : pc ≠ .take i v := by
  rintro rfl
  cases h

/-- A table.  The code has the slots of the pool, `published` (the pointer to the table is not
null) and `data`. -/
structure Table (δ : Type) where
  pool : Pool
  published : Bool
  data : ℕ → δ
  pcs : ℕ → Pc δ
  claims : ℕ → ℕ
  closes : ℕ → List (Option Errno)
  ended : List ℕ

namespace Table

/-- What the operating system answers, where it is asked: a new resource, or success. -/
structure OsAnswer where
  value : Option ℕ
  ok : Bool

/-- Thread `t` is at `pc`. -/
def goto (s : Table δ) (t : ℕ) (pc : Pc δ) : Table δ :=
  { s with pcs := Function.update s.pcs t pc }

/-- A call begins, in a thread that is in no other one. -/
def beginCall (s : Table δ) (t : ℕ) (call : Option (Table δ)) : Option (Table δ) :=
  match s.pcs t with
  | .idle => call
  | _ => none

/-- A new resource; the system never gives out a value that is in use. -/
def obtained (s : Table δ) (t v : ℕ) (pc : Pc δ) : Option (Table δ) :=
  if s.pool.InUse v then none else some ({ s with pool := s.pool.obtain t v }.goto t pc)

/-- The loop over the slots: the test before the compare-and-exchange, and the end of the loop. -/
def allocScan (size : ℕ) (s : Table δ) (t v : ℕ) (d : δ) (i : ℕ) : Table δ :=
  if i < size then
    if s.pool.slots i = none then s.goto t (.swap v d i) else s.goto t (.scan v d (i + 1))
  else s.goto t (.discard v)

/-- The compare-and-exchange of an empty slot. -/
def allocSwap (s : Table δ) (t v : ℕ) (d : δ) (i : ℕ) : Table δ :=
  if s.pool.slots i = none then
    { s with
      pool := s.pool.claim i v
      claims := Function.update s.claims i (s.claims i + 1) }.goto t (.placed i d)
  else s.goto t (.scan v d (i + 1))

/-- `closesocket` or `free`. -/
def disposeOf (s : Table δ) (t v : ℕ) : Table δ :=
  { s with pool := s.pool.dispose v }.goto t (.returning (s.pool.latest v))

/-- The return of a call that has disposed of a resource. -/
def finish (s : Table δ) (t : ℕ) (k : Option ℕ) : Table δ :=
  { s with ended := s.ended ++ k.toList }.goto t .idle

/-- A close that fails. -/
def failClose (s : Table δ) (t i : ℕ) (e : Errno) : Table δ :=
  { s with closes := Function.update s.closes i (s.closes i ++ [some e]) }.goto t .idle

/-- The first read of a close. -/
def lookAt (s : Table δ) (t i : ℕ) : Table δ :=
  if s.published then
    match s.pool.slots i with
    | some v => s.goto t (.take i v)
    | none => s.failClose t i .ebadf
  else s.failClose t i .ebadf

/-- A close that takes the value `v` out of slot `i`. -/
def removeAt (s : Table δ) (t i v : ℕ) : Table δ :=
  { s with
    pool := s.pool.remove t i v
    closes := Function.update s.closes i (s.closes i ++ [none]) }.goto t (.removed v)

/-- The index of the slot of a descriptor. -/
def slotOf (base : ℤ) (size : ℕ) (fd : ℤ) : Option ℕ :=
  if base ≤ fd ∧ fd < base + size then some (fd - base).toNat else none

/-! ## What a step can do -/

/-- **The steps that both tables are made of.**  Thread `t` goes on in its call, leaving the pool
as it is; obtains a resource; goes through the loop over the slots; disposes of a resource and
returns; or reads a slot for a close, takes out what is in it, or fails to. -/
inductive Micro (size : ℕ) (s : Table δ) : Table δ → Prop where
  | move {s' : Table δ} (t : ℕ) (pc : Pc δ) (hpool : s'.pool = s.pool)
      (hclaims : s'.claims = s.claims) (hcloses : s'.closes = s.closes)
      (hended : s'.ended = s.ended) (hpcs : s'.pcs = Function.update s.pcs t pc)
      (hheld : pc.held = (s.pcs t).held) (hquiet : pc.quiet = true)
      (hpub : s.published = true → s'.published = true)
      (hneeds : pc.needsTable = true → s'.published = true) : Micro size s s'
  | obtain {s' : Table δ} (t v : ℕ) (pc : Pc δ) (ht : (s.pcs t).held = none)
      (hpc : pc.held = some v) (hquiet : pc.quiet = true) (hpub : s.published = true)
      (hstep : s.obtained t v pc = some s') : Micro size s s'
  | scan (t v : ℕ) (d : δ) (i : ℕ) (ht : s.pcs t = .scan v d i) :
      Micro size s (s.allocScan size t v d i)
  | swap (t v : ℕ) (d : δ) (i : ℕ) (ht : s.pcs t = .swap v d i) :
      Micro size s (s.allocSwap t v d i)
  | dispose (t v : ℕ) (ht : (s.pcs t).held = some v) : Micro size s (s.disposeOf t v)
  | finish (t : ℕ) (k : Option ℕ) (ht : s.pcs t = .returning k) : Micro size s (s.finish t k)
  | look (t i : ℕ) (ht : s.pcs t = .look i) : Micro size s (s.lookAt t i)
  | remove (t i v w : ℕ) (ht : s.pcs t = .take i w) (hi : s.pool.slots i = some v) :
      Micro size s (s.removeAt t i v)
  | fail (t i w : ℕ) (ht : s.pcs t = .take i w) (hi : s.pool.slots i ≠ some w) :
      Micro size s (s.failClose t i .ebadf)

variable {size : ℕ} {s s' : Table δ} {t : ℕ} {pc : Pc δ}

/-- Going on without a change to anything but where the thread is. -/
theorem Micro.goto (hheld : pc.held = (s.pcs t).held) (hquiet : pc.quiet = true)
    (hneeds : pc.needsTable = true → s.published = true) : Micro size s (s.goto t pc) :=
  .move t pc rfl rfl rfl rfl rfl hheld hquiet (fun h => h) hneeds

/-- A call that is over at once. -/
theorem Micro.stay (ht : s.pcs t = .idle) : Micro size s s := by
  refine .move t .idle rfl rfl rfl rfl ?_ (by rw [ht]) rfl (fun h => h) (by simp [Pc.needsTable])
  rw [← ht, Function.update_eq_self]

theorem beginCall_eq_some {call : Option (Table δ)} :
    s.beginCall t call = some s' ↔ s.pcs t = .idle ∧ call = some s' := by
  unfold beginCall
  cases s.pcs t <;> simp

/-! ## Ownership -/

/-- The resources that the threads work on. -/
def held (s : Table δ) : ℕ → Option ℕ := fun t => (s.pcs t).held

theorem held_update (hpcs : s'.pcs = Function.update s.pcs t pc) :
    s'.held = Function.update s.held t pc.held := by
  funext t'
  by_cases htt : t' = t
  · subst htt
    simp [held, hpcs]
  · simp [held, hpcs, htt]

/-- **Ownership in a table of `size` slots.** -/
structure Inv (size : ℕ) (s : Table δ) : Prop where
  owned : s.pool.Owned s.held
  /-- What is being returned, and what has been returned, is disposed of. -/
  returning : ∀ t k, s.pcs t = .returning (some k) → s.pool.place k = .disposed
  ended : ∀ k ∈ s.ended, s.pool.place k = .disposed
  /-- Only the slots of the table are used, once it is there. -/
  swap_lt : ∀ t v d i, s.pcs t = .swap v d i → i < size
  slot_lt : ∀ i v, s.pool.slots i = some v → i < size ∧ s.published = true
  published : ∀ t, (s.pcs t).needsTable = true → s.published = true

/-- A step of thread `t` to `pc` keeps the ownership if the pool it leaves is owned. -/
theorem Inv.of_pcs (h : Inv size s) (t : ℕ) (pc : Pc δ)
    (hpcs : s'.pcs = Function.update s.pcs t pc)
    (howned : s'.pool.Owned (Function.update s.held t pc.held))
    (hdisposed : ∀ k, s.pool.place k = .disposed → s'.pool.place k = .disposed)
    (hreturning : ∀ k, pc = .returning (some k) → s'.pool.place k = .disposed)
    (hended : ∀ k ∈ s'.ended, k ∈ s.ended ∨ s'.pool.place k = .disposed)
    (hswap : ∀ v d i, pc = .swap v d i → i < size)
    (hslot : ∀ i v, s'.pool.slots i = some v → i < size ∧ s'.published = true)
    (hpub : s.published = true → s'.published = true)
    (hneeds : pc.needsTable = true → s'.published = true) : Inv size s' := by
  -- what is known of every thread is known of `t` at `pc`, and of the others from before
  have hcases : ∀ {P : Pc δ → Prop}, P pc → (∀ t', P (s.pcs t')) → ∀ t', P (s'.pcs t') := by
    intro P hnew hold t'
    rw [hpcs]
    by_cases htt : t' = t
    · subst htt
      rw [Function.update_self]
      exact hnew
    · rw [Function.update_of_ne htt]
      exact hold t'
  refine ⟨by rw [held_update hpcs]; exact howned, fun t' => ?_, fun k hk => ?_, fun t' => ?_, hslot,
    fun t' => ?_⟩
  · exact hcases (P := fun pc => ∀ k, pc = .returning (some k) → s'.pool.place k = .disposed)
      hreturning (fun t' k hk => hdisposed k (h.returning t' k hk)) t'
  · rcases hended k hk with hk | hk
    · exact hdisposed k (h.ended k hk)
    · exact hk
  · exact hcases (P := fun pc => ∀ v d i, pc = .swap v d i → i < size) hswap h.swap_lt t'
  · exact hcases (P := fun pc => pc.needsTable = true → s'.published = true) hneeds
      (fun t' ht' => hpub (h.published t' ht')) t'

/-- A step that leaves the pool alone. -/
theorem Inv.same (h : Inv size s) (t : ℕ) (pc : Pc δ) (hpool : s'.pool = s.pool)
    (hpcs : s'.pcs = Function.update s.pcs t pc) (hheld : pc.held = (s.pcs t).held)
    (hreturning : ∀ k, pc ≠ .returning (some k))
    (hended : ∀ k ∈ s'.ended, k ∈ s.ended ∨ s.pool.place k = .disposed)
    (hswap : ∀ v d i, pc = .swap v d i → i < size)
    (hpub : s.published = true → s'.published = true)
    (hneeds : pc.needsTable = true → s'.published = true) : Inv size s' := by
  refine h.of_pcs t pc hpcs ?_ ?_ (fun k hk => absurd hk (hreturning k)) ?_ hswap ?_ hpub hneeds
  · rw [hpool, hheld]
    show s.pool.Owned (Function.update s.held t (s.held t))
    rw [Function.update_eq_self]
    exact h.owned
  · rw [hpool]
    exact fun k hk => hk
  · rw [hpool]
    exact hended
  · rw [hpool]
    exact fun i v hi => ⟨(h.slot_lt i v hi).1, hpub (h.slot_lt i v hi).2⟩

theorem Inv.allocScan (h : Inv size s) {v : ℕ} {d : δ} {i : ℕ} (ht : s.pcs t = .scan v d i) :
    Inv size (s.allocScan size t v d i) := by
  have hpub : s.published = true := h.published t (by rw [ht]; rfl)
  have hgoto : ∀ pc : Pc δ, pc.held = some v → (∀ k, pc ≠ .returning (some k)) →
      (∀ v d j, pc = .swap v d j → j < size) → Inv size (s.goto t pc) := fun pc hpc hret hswap =>
    h.same t pc rfl rfl (by rw [hpc, ht]; rfl) hret (fun _ hk => Or.inl hk) hswap (fun hp => hp)
      (fun _ => hpub)
  unfold Table.allocScan
  split
  · rename_i hi
    split
    · refine hgoto _ rfl (by simp) fun v' d' j heq => ?_
      cases heq
      exact hi
    · exact hgoto _ rfl (by simp) (by simp)
  · exact hgoto _ rfl (by simp) (by simp)

theorem Inv.allocSwap (h : Inv size s) {v : ℕ} {d : δ} {i : ℕ} (ht : s.pcs t = .swap v d i) :
    Inv size (s.allocSwap t v d i) := by
  have hpub : s.published = true := h.published t (by rw [ht]; rfl)
  have hheld : s.held t = some v := by
    rw [held, ht]
    rfl
  unfold Table.allocSwap
  split
  · rename_i hi
    refine h.of_pcs t (.placed i d) rfl ?_ ?_ (by simp) (fun _ hk => Or.inl hk)
      (by simp) (fun j w hj => ?_) (fun hp => hp) (fun _ => hpub)
    · exact h.owned.claim hheld hi
    · exact fun k hk => h.owned.disposed_claim hk hheld i
    · change Function.update s.pool.slots i (some v) j = some w at hj
      refine ⟨?_, hpub⟩
      by_cases hji : j = i
      · subst hji
        exact h.swap_lt t v d j ht
      · rw [Function.update_of_ne hji] at hj
        exact (h.slot_lt j w hj).1
  · exact h.same t (.scan v d (i + 1)) rfl rfl (by rw [ht]; rfl) (by simp)
      (fun _ hk => Or.inl hk) (by simp) (fun hp => hp) (fun _ => hpub)

theorem slots_dispose (p : Pool) (v : ℕ) : (p.dispose v).slots = p.slots := by
  unfold Pool.dispose
  split <;> rfl

theorem Inv.disposeOf (h : Inv size s) {v : ℕ} (ht : (s.pcs t).held = some v) :
    Inv size (s.disposeOf t v) := by
  refine h.of_pcs t (.returning (s.pool.latest v)) rfl ?_ ?_ ?_
    (fun _ hk => Or.inl hk) (by simp) ?_ (fun hp => hp) (by simp [Pc.needsTable])
  · exact h.owned.dispose ht
  · exact fun k hk => Pool.disposed_dispose hk v
  · intro k hk
    exact Pool.place_dispose (Pc.returning.inj hk)
  · intro i w hi
    refine h.slot_lt i w ?_
    rw [← slots_dispose s.pool v]
    exact hi

/-- **Every step keeps the ownership.** -/
theorem Inv.micro (h : Inv size s) (hstep : Micro size s s') : Inv size s' := by
  cases hstep with
  | move t pc hpool _ _ hended hpcs hheld hquiet hpub hneeds =>
    refine h.same t pc hpool hpcs hheld (fun k => Pc.quiet_ne_returning hquiet _) (fun k hk => ?_)
      (fun v d i hi => absurd hi (Pc.quiet_ne_swap hquiet v d i)) hpub hneeds
    rw [hended] at hk
    exact Or.inl hk
  | obtain t v pc ht hpc hquiet hpub hstep =>
    unfold Table.obtained at hstep
    split at hstep
    · cases hstep
    · rename_i hv
      obtain rfl := Option.some.inj hstep
      refine h.of_pcs t pc rfl ?_ (fun k hk => h.owned.disposed_obtain hk t v)
        (fun k hk => absurd hk (Pc.quiet_ne_returning hquiet _)) (fun _ hk => Or.inl hk)
        (fun v d i hi => absurd hi (Pc.quiet_ne_swap hquiet v d i)) h.slot_lt (fun hp => hp)
        (fun _ => hpub)
      rw [hpc]
      exact h.owned.obtain ht hv
  | scan t v d i ht => exact h.allocScan ht
  | swap t v d i ht => exact h.allocSwap ht
  | dispose t v ht => exact h.disposeOf ht
  | finish t k ht =>
    refine h.same t .idle rfl rfl (by rw [ht]; rfl) (by simp) ?_ (by simp)
      (fun hp => hp) (by simp [Pc.needsTable])
    intro l hl
    rcases List.mem_append.mp hl with hl | hl
    · exact Or.inl hl
    · have hk : k = some l := by simpa using hl
      exact Or.inr (h.returning t l (by rw [ht, hk]))
  | look t i ht =>
    have hquiet : ∀ pc : Pc δ, pc.held = none → (∀ k, pc ≠ .returning (some k)) →
        (∀ v d j, pc ≠ .swap v d j) → pc.needsTable = false →
        ∀ s' : Table δ, s'.pool = s.pool → s'.pcs = Function.update s.pcs t pc →
        s'.ended = s.ended → s'.published = s.published → Inv size s' := by
      intro pc hpc hret hswap hneeds s' hpool hpcs hended hpub
      refine h.same t pc hpool hpcs (by rw [hpc, ht]; rfl) hret (fun k hk => ?_)
        (fun v d j hj => absurd hj (hswap v d j)) (fun hp => by rw [hpub]; exact hp)
        (by simp [hneeds])
      rw [hended] at hk
      exact Or.inl hk
    unfold Table.lookAt
    split
    · split
      · exact hquiet (.take i _) rfl (by simp) (by simp) rfl _ rfl rfl rfl rfl
      · exact hquiet .idle rfl (by simp) (by simp) rfl _ rfl rfl rfl rfl
    · exact hquiet .idle rfl (by simp) (by simp) rfl _ rfl rfl rfl rfl
  | remove t i v w ht hi =>
    refine h.of_pcs t (.removed v) rfl ?_
      (fun k hk => h.owned.disposed_remove hk hi t) (by simp) (fun _ hk => Or.inl hk) (by simp)
      (fun j w hj => ?_) (fun hp => hp) (by simp [Pc.needsTable])
    · exact h.owned.remove (by rw [held, ht]; rfl) hi
    · change Function.update s.pool.slots i none j = some w at hj
      by_cases hji : j = i
      · subst hji
        simp at hj
      · rw [Function.update_of_ne hji] at hj
        exact h.slot_lt j w hj
  | fail t i w ht hi =>
    exact h.same t .idle rfl rfl (by rw [ht]; rfl) (by simp)
      (fun _ hk => Or.inl hk) (by simp) (fun hp => hp) (by simp [Pc.needsTable])

/-- **Exclusive ownership through descriptors.**  A descriptor is live, for the resource it was
allocated for, while that resource is placed in its slot. -/
structure Exclusive (size : ℕ) (s : Table δ) : Prop where
  /-- No two live descriptors name one slot. -/
  slot_unique : ∀ k l i, s.pool.place k = .slot i → s.pool.place l = .slot i → k = l
  /-- A live descriptor maps to the resource it was allocated for. -/
  maps : ∀ k i, s.pool.place k = .slot i → i < size ∧ s.pool.slots i = some (s.pool.value k)
  /-- A slot that is not empty belongs to a live descriptor. -/
  live : ∀ i v, s.pool.slots i = some v → ∃ k, s.pool.place k = .slot i ∧ s.pool.value k = v
  /-- No resource is disposed of twice. -/
  atMostOnce : ∀ k, s.pool.disposals k ≤ 1
  /-- A resource is disposed of by the time its allocation has failed or its descriptor has been
  closed. -/
  onceEnded : ∀ k ∈ s.ended, s.pool.disposals k = 1
  /-- Until then it has a live descriptor, or a thread in an allocation or a close works on
  it. -/
  accounted : ∀ k < s.pool.obtained,
    (∃ t, s.pool.place k = .thread t ∧ (s.pcs t).held = some (s.pool.value k)) ∨
      (∃ i, s.pool.place k = .slot i) ∨ s.pool.disposals k = 1

theorem Inv.exclusive (h : Inv size s) : Exclusive size s where
  slot_unique _ _ _ hk hl := h.owned.slot_unique hk hl
  maps k i hk :=
    ⟨(h.slot_lt i _ (h.owned.of_slot k i hk)).1, h.owned.of_slot k i hk⟩
  live i v hi := by
    obtain ⟨k, hk, hplace⟩ := h.owned.slot_holds i v hi
    exact ⟨k, hplace, (h.owned.latest_value v k hk).1⟩
  atMostOnce := h.owned.disposals_le_one
  onceEnded k hk := by
    rw [h.owned.disposals_eq k, if_pos (h.ended k hk)]
  accounted _ hk := h.owned.place_cases hk

/-! ## The closes of one slot -/

/-- From a moment on at which slot `i` had `v`, had been filled `c` times and its closes had ended
as `log`: as long as the slot is not filled again, either it still has `v` and no close of it has
ended, or it is empty, one close has taken `v` out, and the others have failed. -/
def Segment (i v c : ℕ) (log : List (Option Errno)) (s : Table δ) : Prop :=
  c ≤ s.claims i ∧
    (s.claims i = c →
      (s.pool.slots i = some v ∧ s.closes i = log ∧ ∀ t w, s.pcs t = .take i w → w = v) ∨
        (s.pool.slots i = none ∧
          ∃ m, s.closes i = log ++ none :: List.replicate m (some .ebadf)))

variable {i v c : ℕ} {log : List (Option Errno)}

/-- A step that has nothing to do with the slot. -/
theorem Segment.frame (h : Segment i v c log s) (t : ℕ) (pc : Pc δ)
    (hclaims : s'.claims i = s.claims i)
    (hslots : s'.pool.slots i = s.pool.slots i) (hcloses : s'.closes i = s.closes i)
    (hpcs : s'.pcs = Function.update s.pcs t pc) (hpc : ∀ w, pc ≠ .take i w) :
    Segment i v c log s' := by
  unfold Segment
  rw [hclaims, hslots, hcloses]
  refine ⟨h.1, fun hc => ?_⟩
  rcases h.2 hc with ⟨hv, hlog, htake⟩ | hremoved
  · refine Or.inl ⟨hv, hlog, fun t' w hw => ?_⟩
    rw [hpcs] at hw
    by_cases htt : t' = t
    · subst htt
      exact absurd (by simpa using hw) (hpc w)
    · exact htake t' w (by simpa [htt] using hw)
  · exact Or.inr hremoved

theorem Segment.goto (h : Segment i v c log s) (hpc : ∀ w, pc ≠ .take i w) :
    Segment i v c log (s.goto t pc) :=
  h.frame t pc rfl rfl rfl rfl hpc

theorem Segment.allocSwap (h : Segment i v c log s) (w : ℕ) (d : δ) (j : ℕ) :
    Segment i v c log (s.allocSwap t w d j) := by
  unfold Table.allocSwap
  split
  · by_cases hji : j = i
    · -- the slot is filled again
      subst hji
      have hclaims : Function.update s.claims j (s.claims j + 1) j = s.claims j + 1 := by simp
      have hle := h.1
      refine ⟨?_, fun hc => ?_⟩
      · show c ≤ Function.update s.claims j (s.claims j + 1) j
        omega
      · change Function.update s.claims j (s.claims j + 1) j = c at hc
        omega
    · refine h.frame t (.placed j d) ?_ ?_ rfl rfl (by simp)
      · exact Function.update_of_ne (Ne.symm hji) _ _
      · exact Function.update_of_ne (Ne.symm hji) _ _
  · exact h.goto (by simp)

/-- A close fails that finds something else in the slot than the value all closes of it have
read. -/
theorem Segment.failClose (h : Segment i v c log s) {j : ℕ}
    (hj : (∀ t w, s.pcs t = .take j w → w = v) → s.pool.slots j ≠ some v) :
    Segment i v c log (s.failClose t j .ebadf) := by
  by_cases hji : j = i
  · subst hji
    refine ⟨h.1, fun hc => ?_⟩
    rcases h.2 hc with ⟨hv, -, htake⟩ | ⟨hnone, m, hm⟩
    · exact absurd hv (hj htake)
    · refine Or.inr ⟨hnone, m + 1, ?_⟩
      show Function.update s.closes j (s.closes j ++ [some .ebadf]) j = _
      rw [Function.update_self, hm, List.append_assoc, List.cons_append,
        ← List.replicate_succ']
  · refine h.frame t .idle rfl rfl ?_ rfl (by simp)
    exact Function.update_of_ne (Ne.symm hji) _ _

theorem Segment.lookAt (h : Segment i v c log s) {j : ℕ}
    (hpub : ∀ w, s.pool.slots j = some w → s.published = true) :
    Segment i v c log (s.lookAt t j) := by
  unfold Table.lookAt
  split
  · split
    · rename_i w hw
      by_cases hji : j = i
      · subst hji
        refine ⟨h.1, fun hc => ?_⟩
        rcases h.2 hc with ⟨hv, hlog, htake⟩ | ⟨hnone, -⟩
        · refine Or.inl ⟨hv, hlog, fun t' w' hw' => ?_⟩
          change Function.update s.pcs t (.take j w) t' = .take j w' at hw'
          by_cases htt : t' = t
          · subst htt
            rw [Function.update_self] at hw'
            cases hw'
            exact Option.some.inj (hw.symm.trans hv)
          · exact htake t' w' (by simpa [htt] using hw')
        · rw [hnone] at hw
          cases hw
      · exact h.goto (by simp [hji])
    · rename_i hnone
      exact h.failClose fun _ => by rw [hnone]; simp
  · rename_i hnot
    exact h.failClose fun _ hv => hnot (hpub v hv)

theorem Segment.removeAt (h : Segment i v c log s) {j w : ℕ} (hj : s.pool.slots j = some w) :
    Segment i v c log (s.removeAt t j w) := by
  by_cases hji : j = i
  · subst hji
    refine ⟨h.1, fun hc => ?_⟩
    rcases h.2 hc with ⟨-, hlog, -⟩ | ⟨hnone, -⟩
    · refine Or.inr ⟨Function.update_self _ _ _, 0, ?_⟩
      show Function.update s.closes j (s.closes j ++ [none]) j = log ++ [none]
      rw [Function.update_self, hlog]
    · rw [hnone] at hj
      cases hj
  · refine h.frame t (.removed w) rfl ?_ ?_ rfl (by simp)
    · exact Function.update_of_ne (Ne.symm hji) _ _
    · exact Function.update_of_ne (Ne.symm hji) _ _

/-- **Every step keeps to the segment.** -/
theorem Segment.micro (h : Segment i v c log s) (hinv : Inv size s) (hstep : Micro size s s') :
    Segment i v c log s' := by
  cases hstep with
  | move t pc hpool hclaims hcloses _ hpcs _ hquiet _ _ =>
    exact h.frame t pc (by rw [hclaims]) (by rw [hpool]) (by rw [hcloses]) hpcs
      (fun w => Pc.quiet_ne_take hquiet i w)
  | obtain t w pc _ _ hquiet _ hstep =>
    unfold Table.obtained at hstep
    split at hstep
    · cases hstep
    · obtain rfl := Option.some.inj hstep
      exact h.frame t pc rfl rfl rfl rfl (fun w => Pc.quiet_ne_take hquiet i w)
  | scan t w d j _ =>
    unfold Table.allocScan
    split
    · split
      · exact h.goto (by simp)
      · exact h.goto (by simp)
    · exact h.goto (by simp)
  | swap t w d j _ => exact h.allocSwap w d j
  | dispose t w _ =>
    refine h.frame t (.returning (s.pool.latest w)) rfl ?_ rfl rfl (by simp)
    exact congrFun (slots_dispose s.pool w) i
  | finish t k _ => exact h.frame t .idle rfl rfl rfl rfl (by simp)
  | look t j _ => exact h.lookAt fun w hw => (hinv.slot_lt j w hw).2
  | remove t j w _ _ hj => exact h.removeAt hj
  | fail t j w ht hj =>
    refine h.failClose fun htake hv => ?_
    rw [htake t w ht] at hj
    exact hj hv

end Table

end Descriptor
end Wpdk
