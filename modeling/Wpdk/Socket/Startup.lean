import Mathlib.Data.Multiset.Count
import Mathlib.Data.Multiset.Range
import Mathlib.Tactic.Abel
import Wpdk.Base.Ledger
import Wpdk.Base.Run

/-!
# Starting Winsock

`wpdk_socket_startup` is run by whoever needs Winsock first, and by several threads at once if they
come together.  Each of them makes a socket table of its own, calls `WSAStartup`, and tries to
publish the table by one compare-and-exchange and to set `wpdk_socket_ready` by another.  A table
that was not published is freed, and a thread that has not set the flag takes its `WSAStartup` back;
the two need not be won by the same thread.

* `Pc`, `step`: the calls, numbered in the order in which they begin.  `wpdk_socket` looks at the
  flag first, `wpdk_getaddrinfo` does not.
* `Inv`: two ledgers.  Every table is freed, published, or in the hands of one call; every success
  of `WSAStartup` has been taken back, stands behind the flag, or belongs to a call under way.
* `startup_idempotent`: what follows when calls are under way, and when none is.
-/

namespace Wpdk
namespace Startup

open Run

/-- Where a call is: about to allocate a table (`enter`); with a table, about to call `WSAStartup`
(`allocated`), to free it because that has failed (`refused`), to publish it (`started`), or to free
it because another one is published (`lost`); about to set the flag (`flag`), or to call
`WSACleanup` because it is set (`spare`).  A call has returned with a result, or it is a
`wpdk_socket` that has found the flag set (`skipped`). -/
inductive Pc where
  | enter
  | allocated (fds : ℕ)
  | refused (fds : ℕ)
  | started (fds : ℕ)
  | lost (fds : ℕ)
  | flag
  | spare
  | returned (rc : Bool)
  | skipped
deriving DecidableEq

/-- The call has not returned. -/
def Pc.inProgress : Pc → Bool
  | .enter | .allocated _ | .refused _ | .started _ | .lost _ | .flag | .spare => true
  | .returned _ | .skipped => false

/-- The table in the hands of a call. -/
def Pc.held : Pc → Multiset ℕ
  | .allocated fds | .refused fds | .started fds | .lost fds => {fds}
  | .enter | .flag | .spare | .returned _ | .skipped => 0

/-- A success of `WSAStartup` that the call will take back or leave behind the flag. -/
def Pc.owes : Pc → ℕ
  | .started _ | .lost _ | .flag | .spare => 1
  | .enter | .allocated _ | .refused _ | .returned _ | .skipped => 0

/-- The call has been at the compare-and-exchange of the table. -/
def Pc.published : Pc → Bool
  | .lost _ | .flag | .spare | .returned true => true
  | .enter | .allocated _ | .refused _ | .started _ | .returned false | .skipped => false

/-- The code has `fds` (`wpdk_socket_fds`) and `ready` (`wpdk_socket_ready`).  Tables are numbered
in the order of their allocation; `startups` and `cleanups` count the successes of `WSAStartup` and
the calls of `WSACleanup`. -/
structure State where
  fds : Option ℕ
  ready : Bool
  allocated : ℕ
  freed : Multiset ℕ
  startups : ℕ
  cleanups : ℕ
  calls : ℕ
  pcs : ℕ → Pc

namespace State

/-- No call has begun. -/
def start : State where
  fds := none
  ready := false
  allocated := 0
  freed := 0
  startups := 0
  cleanups := 0
  calls := 0
  pcs := fun _ => .skipped

/-- Call `c` is at `pc`. -/
def goto (s : State) (c : ℕ) (pc : Pc) : State := { s with pcs := Function.update s.pcs c pc }

/-- A call begins. -/
def begin (s : State) (pc : Pc) : State :=
  { s with pcs := Function.update s.pcs s.calls pc, calls := s.calls + 1 }

/-- The array `fds` is freed. -/
def free (s : State) (fds : ℕ) : State := { s with freed := fds ::ₘ s.freed }

/-- The next step of `wpdk_socket_startup`; `ok` is the answer of `calloc` or of `WSAStartup`. -/
def next (s : State) (c : ℕ) (ok : Bool) : Option State :=
  match s.pcs c with
  | .enter =>
    if ok then some ({ s with allocated := s.allocated + 1 }.goto c (.allocated s.allocated))
    else some (s.goto c (.returned false))
  | .allocated fds =>
    if ok then some ({ s with startups := s.startups + 1 }.goto c (.started fds))
    else some (s.goto c (.refused fds))
  | .refused fds => some ((s.free fds).goto c (.returned false))
  | .started fds =>
    match s.fds with
    | none => some ({ s with fds := some fds }.goto c .flag)
    | some _ => some (s.goto c (.lost fds))
  | .lost fds => some ((s.free fds).goto c .flag)
  | .flag =>
    if s.ready then some (s.goto c .spare)
    else some ({ s with ready := true }.goto c (.returned true))
  | .spare => some ({ s with cleanups := s.cleanups + 1 }.goto c (.returned true))
  | .returned _ | .skipped => none

end State

/-- A call begins, or call `c` goes on. -/
inductive Action where
  | socket
  | getaddrinfo
  | next (c : ℕ) (ok : Bool)

/-- One step. -/
def step (s : State) : Action → Option State
  | .socket => some (s.begin (if s.ready then .skipped else .enter))
  | .getaddrinfo => some (s.begin .enter)
  | .next c ok => if c < s.calls then s.next c ok else none

/-! ## The ledgers -/

/-- What a run keeps. -/
structure Inv (s : State) : Prop where
  /-- Every table is freed, published, or in the hands of one call. -/
  tables : Multiset.range s.allocated = s.freed + s.fds.toList + total Pc.held s.pcs s.calls
  /-- Every success of `WSAStartup` is accounted for. -/
  startups : s.startups = s.cleanups + s.ready.toNat + total Pc.owes s.pcs s.calls
  published : ∀ c, c < s.calls → (s.pcs c).published = true → s.fds.isSome = true
  ready : s.ready = true → s.fds.isSome = true

theorem inv_start : Inv State.start where
  tables := rfl
  startups := rfl
  published c hc := absurd hc (Nat.not_lt_zero c)
  ready h := by cases h

namespace Inv

variable {s s' : State} {c : ℕ} {pc : Pc}

/-- A step of a call has to settle its own accounts only. -/
theorem goto (h : Inv s) (hc : c < s.calls) (hpcs : s'.pcs = Function.update s.pcs c pc)
    (hcalls : s'.calls = s.calls)
    (htables : Multiset.range s'.allocated + (s.pcs c).held + (s.freed + s.fds.toList) =
      Multiset.range s.allocated + pc.held + (s'.freed + s'.fds.toList))
    (hstartups : s'.startups + (s.pcs c).owes + (s.cleanups + s.ready.toNat) =
      s.startups + pc.owes + (s'.cleanups + s'.ready.toNat))
    (hfds : s.fds.isSome = true → s'.fds.isSome = true)
    (hpub : pc.published = true → s'.fds.isSome = true)
    (hready : s'.ready = true → s'.fds.isSome = true) : Inv s' where
  tables := by
    rw [hpcs, hcalls]
    exact balance_update hc h.tables htables
  startups := by
    rw [hpcs, hcalls]
    exact balance_update hc h.startups hstartups
  published d hd hp := by
    rw [hpcs] at hp
    rw [hcalls] at hd
    by_cases hdc : d = c
    · rw [hdc, Function.update_self] at hp
      exact hpub hp
    · rw [Function.update_of_ne hdc] at hp
      exact hfds (h.published d hd hp)
  ready := hready

/-- A call begins with nothing. -/
theorem begin (h : Inv s) (hpc : pc = .skipped ∨ pc = .enter) : Inv (s.begin pc) where
  tables := by
    refine balance_push h.tables ?_
    rcases hpc with rfl | rfl <;> exact congrArg (· + _) (add_zero _).symm
  startups := by
    refine balance_push h.startups ?_
    rcases hpc with rfl | rfl <;> rfl
  published d hd hp := by
    dsimp only [State.begin] at hd hp ⊢
    by_cases hdc : d = s.calls
    · rw [hdc, Function.update_self] at hp
      rcases hpc with rfl | rfl <;> cases hp
    · rw [Function.update_of_ne hdc] at hp
      exact h.published d (by omega) hp
  ready := h.ready

/-- A step that leaves the call with the table that it had, and the rest as it was. -/
theorem move (h : Inv s) (hc : c < s.calls) (hheld : pc.held = (s.pcs c).held)
    (howes : pc.owes = (s.pcs c).owes) (hpub : pc.published = true → s.fds.isSome = true) :
    Inv (s.goto c pc) :=
  h.goto hc rfl rfl (by rw [hheld]; rfl) (by rw [howes]; rfl) id hpub h.ready

/-- The table of the call is freed. -/
theorem free (h : Inv s) (hc : c < s.calls) {fds : ℕ} (hheld : (s.pcs c).held = {fds})
    (hpc : pc.held = 0) (howes : pc.owes = (s.pcs c).owes)
    (hpub : pc.published = true → s.fds.isSome = true) : Inv ((s.free fds).goto c pc) := by
  refine h.goto hc rfl rfl ?_ (by rw [howes]; rfl) id hpub h.ready
  simp only [State.goto, State.free, hheld, hpc, ← Multiset.singleton_add]
  abel

/-- **A step of `wpdk_socket_startup`.** -/
theorem next (h : Inv s) (hc : c < s.calls) {ok : Bool} (hstep : s.next c ok = some s') :
    Inv s' := by
  have hpublished := h.published c hc
  unfold State.next at hstep
  cases hpc : s.pcs c with
  | enter =>
    simp only [hpc] at hstep
    split at hstep
    · obtain rfl := Option.some.inj hstep
      refine h.goto hc rfl rfl ?_ (by rw [hpc]; rfl) id (by simp [Pc.published]) h.ready
      simp only [hpc, State.goto, Pc.held, Multiset.range_succ, ← Multiset.singleton_add]
      abel
    · obtain rfl := Option.some.inj hstep
      exact h.move hc (by rw [hpc]; rfl) (by rw [hpc]; rfl) (by simp [Pc.published])
  | allocated fds =>
    simp only [hpc] at hstep
    split at hstep
    · obtain rfl := Option.some.inj hstep
      refine h.goto hc rfl rfl (by rw [hpc]; rfl) ?_ id (by simp [Pc.published]) h.ready
      simp only [hpc, State.goto, Pc.owes]
    · obtain rfl := Option.some.inj hstep
      exact h.move hc (by rw [hpc]; rfl) (by rw [hpc]; rfl) (by simp [Pc.published])
  | refused fds =>
    simp only [hpc] at hstep
    obtain rfl := Option.some.inj hstep
    exact h.free hc (by rw [hpc]; rfl) rfl (by rw [hpc]; rfl) (by simp [Pc.published])
  | started fds =>
    simp only [hpc] at hstep
    cases hfds : s.fds with
    | none =>
      simp only [hfds] at hstep
      obtain rfl := Option.some.inj hstep
      refine h.goto hc rfl rfl ?_ (by rw [hpc]; rfl) (fun _ => rfl) (fun _ => rfl) (fun _ => rfl)
      simp only [hpc, hfds, State.goto, Pc.held, Option.toList_none, Option.toList_some,
        Multiset.coe_nil, Multiset.coe_singleton]
      abel
    | some other =>
      simp only [hfds] at hstep
      obtain rfl := Option.some.inj hstep
      exact h.move hc (by rw [hpc]; rfl) (by rw [hpc]; rfl) (by simp [hfds])
  | lost fds =>
    rw [hpc] at hpublished
    simp only [hpc] at hstep
    obtain rfl := Option.some.inj hstep
    exact h.free hc (by rw [hpc]; rfl) rfl (by rw [hpc]; rfl) (fun _ => hpublished rfl)
  | flag =>
    rw [hpc] at hpublished
    simp only [hpc] at hstep
    split at hstep
    · obtain rfl := Option.some.inj hstep
      exact h.move hc (by rw [hpc]; rfl) (by rw [hpc]; rfl) (fun _ => hpublished rfl)
    · -- the success of this call stands behind the flag from now on
      rename_i hready
      obtain rfl := Option.some.inj hstep
      refine h.goto hc rfl rfl (by rw [hpc]; rfl) ?_ id (fun _ => hpublished rfl)
        (fun _ => hpublished rfl)
      simp only [hpc, Bool.eq_false_of_not_eq_true hready, State.goto, Pc.owes, Bool.toNat_true,
        Bool.toNat_false]
      omega
  | spare =>
    rw [hpc] at hpublished
    simp only [hpc] at hstep
    obtain rfl := Option.some.inj hstep
    refine h.goto hc rfl rfl (by rw [hpc]; rfl) ?_ id (fun _ => hpublished rfl) h.ready
    simp only [hpc, State.goto, Pc.owes]
    omega
  | returned rc =>
    simp only [hpc] at hstep
    cases hstep
  | skipped =>
    simp only [hpc] at hstep
    cases hstep

theorem step (h : Inv s) {a : Action} (hstep : step s a = some s') : Inv s' := by
  cases a with
  | socket =>
    obtain rfl := Option.some.inj hstep
    refine h.begin ?_
    split
    · exact Or.inl rfl
    · exact Or.inr rfl
  | getaddrinfo =>
    obtain rfl := Option.some.inj hstep
    exact h.begin (Or.inr rfl)
  | next c ok =>
    dsimp only [Startup.step] at hstep
    split at hstep
    · rename_i hc
      exact h.next hc hstep
    · cases hstep

end Inv

/-! ## What follows -/

/-- **Start-up is sound in a state.** -/
structure Sound (s : State) : Prop where
  ready : s.ready = true → s.fds.isSome = true
  returned : ∀ c, c < s.calls → s.pcs c = .returned true → s.fds.isSome = true
  /-- No table is freed twice. -/
  freed_once : s.freed.Nodup
  /-- A table that is not published and not in the hands of a call under way has been freed,
  once. -/
  freed_losing : ∀ fds, fds < s.allocated → s.fds ≠ some fds →
    (∀ c, c < s.calls → fds ∉ (s.pcs c).held) → s.freed.count fds = 1
  /-- With no call under way, one `WSAStartup` is left if the flag is set, and none otherwise. -/
  balance : (∀ c, c < s.calls → (s.pcs c).inProgress = false) →
    (s.startups : ℤ) - s.cleanups = if s.ready then 1 else 0

theorem mem_total_held {pcs : ℕ → Pc} {n fds : ℕ} (h : fds ∈ total Pc.held pcs n) :
    ∃ c, c < n ∧ fds ∈ (pcs c).held := by
  obtain ⟨c, hc, hfds⟩ := Multiset.mem_sum.mp h
  exact ⟨c, Finset.mem_range.mp hc, hfds⟩

theorem Pc.owes_of_not_inProgress {pc : Pc} (h : pc.inProgress = false) : pc.owes = 0 := by
  cases pc <;> first | rfl | cases h

theorem Inv.nodup {s : State} (h : Inv s) :
    (s.freed + s.fds.toList + total Pc.held s.pcs s.calls).Nodup :=
  h.tables ▸ Multiset.nodup_range _

/-- What is published is not freed. -/
theorem Inv.notMem_freed {s : State} (h : Inv s) {fds : ℕ} (hfds : s.fds = some fds) :
    fds ∉ s.freed := by
  intro hfreed
  have hnodup := (Multiset.nodup_add.mp h.nodup).1
  refine Multiset.disjoint_left.mp (Multiset.nodup_add.mp hnodup).2.2 hfreed ?_
  rw [hfds]
  exact Multiset.mem_singleton_self fds

theorem Inv.sound {s : State} (h : Inv s) : Sound s where
  ready := h.ready
  returned c hc hpc := h.published c hc (by rw [hpc]; rfl)
  freed_once := (Multiset.nodup_add.mp (Multiset.nodup_add.mp h.nodup).1).1
  freed_losing fds hlt hpublished hheld := by
    have hcount := congrArg (Multiset.count fds) h.tables
    have hone : (Multiset.range s.allocated).count fds = 1 :=
      Multiset.count_eq_one_of_mem (Multiset.nodup_range _) (Multiset.mem_range.mpr hlt)
    have hnone : (s.fds.toList : Multiset ℕ).count fds = 0 := by
      rw [Multiset.count_eq_zero, Multiset.mem_coe, Option.mem_toList]
      exact hpublished
    have htotal : (total Pc.held s.pcs s.calls).count fds = 0 := by
      rw [Multiset.count_eq_zero]
      intro hmem
      obtain ⟨c, hc, hfds⟩ := mem_total_held hmem
      exact hheld c hc hfds
    rw [Multiset.count_add, Multiset.count_add, hone, hnone, htotal] at hcount
    omega
  balance hquiet := by
    have hsum := h.startups
    rw [total_eq_zero fun c hc => Pc.owes_of_not_inProgress (hquiet c hc)] at hsum
    cases hready : s.ready <;> simp only [hready, Bool.toNat_false, Bool.toNat_true] at hsum <;>
      simp <;> omega

/-- A published table stays published. -/
theorem fds_step {s s' : State} {a : Action} {fds : ℕ} (hfds : s.fds = some fds)
    (hstep : step s a = some s') : s'.fds = some fds := by
  cases a with
  | socket =>
    obtain rfl := Option.some.inj hstep
    exact hfds
  | getaddrinfo =>
    obtain rfl := Option.some.inj hstep
    exact hfds
  | next c ok =>
    dsimp only [step, State.next] at hstep
    split at hstep
    · cases hpc : s.pcs c with
      | enter | allocated _ | flag =>
        simp only [hpc] at hstep
        split at hstep <;> (obtain rfl := Option.some.inj hstep; exact hfds)
      | refused _ | lost _ | spare =>
        simp only [hpc] at hstep
        obtain rfl := Option.some.inj hstep
        exact hfds
      | started _ =>
        -- the compare-and-exchange finds the table of another call
        simp only [hpc, hfds] at hstep
        obtain rfl := Option.some.inj hstep
        exact hfds
      | returned _ | skipped =>
        simp only [hpc] at hstep
        cases hstep
    · cases hstep

/-- **Start-up is idempotent under races.**  In every state that any number of calls reach in any
interleaving, start-up is sound; and a table that is published there is still published, and not
freed, in every state that follows. -/
theorem startup_idempotent {s : State} (actions : List Action)
    (h : exec step State.start actions = some s) :
    Sound s ∧ ∀ (more : List Action) (s' : State), exec step s more = some s' →
      ∀ fds, s.fds = some fds → s'.fds = some fds ∧ fds ∉ s'.freed := by
  have hinv : Inv s := exec_invariant (fun _ _ _ h hstep => h.step hstep) inv_start h
  refine ⟨hinv.sound, fun more s' hmore fds hfds => ?_⟩
  have hkept : s'.fds = some fds :=
    exec_invariant (P := fun s => s.fds = some fds) (fun _ _ _ h hstep => fds_step h hstep) hfds
      hmore
  have hinv' : Inv s' := exec_invariant (fun _ _ _ h hstep => h.step hstep) hinv hmore
  exact ⟨hkept, hinv'.notMem_freed hkept⟩

/-- Two calls race: the first publishes its table, the second frees its own and sets the flag, and
the first takes its `WSAStartup` back. -/
def race : List Action :=
  [.socket, .getaddrinfo, .next 0 true, .next 1 true, .next 0 true, .next 1 true, .next 0 true,
    .next 1 true, .next 1 true, .next 1 true, .next 0 true, .next 0 true]

theorem startup_idempotent_race :
    ∃ s, exec step State.start race = some s ∧ Sound s ∧ s.fds = some 0 ∧ s.freed = {1} ∧
      s.startups = 2 ∧ s.cleanups = 1 ∧ s.pcs 0 = .returned true ∧ s.pcs 1 = .returned true :=
  ⟨_, rfl, (startup_idempotent race rfl).1, rfl, rfl, rfl, rfl, rfl, rfl⟩

end Startup
end Wpdk
