import Mathlib.Data.Int.Notation
import Mathlib.Logic.Function.Basic
import Wpdk.Base.Run
import Wpdk.Error

/-!
# Thread affinity

Windows has a call that sets the affinity mask of a thread and returns the mask it had, and none
that only reads it.  So `pthread_getaffinity_np` sets a temporary mask, one processor after the
other until one is accepted, and then puts back what it has been returned.  Between the two writes
the mask of the thread is the temporary one.

* `Process`: which masks are accepted, and the mask the thread begins with.
* `Pc`, `step`: the calls on one thread, numbered in the order in which they begin; each
  `SetThreadAffinityMask` is one step.
* `Undisturbed`: the queries disturb nothing.
* `affinity_undisturbed_iff`: they do not exactly as long as no write of another call comes between
  the two writes of a query with a mask that makes a difference.
-/

namespace Wpdk
namespace Affinity

open Run

/-- `DWORD_PTR`, a bit for each processor. -/
abbrev Mask := BitVec 64

/-- The masks that `SetThreadAffinityMask` accepts, and the mask of the thread at the beginning. -/
structure Process where
  accepts : Mask → Bool
  accepts_zero : accepts 0 = false
  initial : Mask
  accepts_initial : accepts initial = true

/-- The arguments, as far as they are tested. -/
structure Args where
  thread : ℕ
  cpusetsize : ℕ
  cpuset : Bool

/-- `!thread || cpusetsize < sizeof(affinity) || !cpuset`. -/
def Args.bad (args : Args) : Bool := args.thread = 0 || args.cpusetsize < 8 || !args.cpuset

/-- Where a call is: about to set the mask (`setting`); about to try a temporary one (`probing`);
about to put back what was returned for it (`reinstating`); or back, with its result, and for a
query that has succeeded with the mask it reports. -/
inductive Pc where
  | setting (mask : Mask)
  | probing (temporary : Mask)
  | reinstating (affinity : Mask)
  | set (code : ℤ)
  | got (code : ℤ) (cpuset : Option Mask)
deriving DecidableEq

/-- `mask` is the affinity of the thread; `sets` are the masks installed by the calls of
`pthread_setaffinity_np` that have succeeded, the last one first. -/
structure State where
  mask : Mask
  sets : List Mask
  calls : ℕ
  pcs : ℕ → Pc

section Process

variable (p : Process)

/-- No call has begun. -/
def State.start : State := ⟨p.initial, [], 0, fun _ => .set 0⟩

/-- The mask that the last successful `pthread_setaffinity_np` has installed. -/
def State.expected (s : State) : Mask := s.sets.headD p.initial

/-- `SetThreadAffinityMask`: the mask that the thread has afterwards, and the result. -/
def setThreadAffinityMask (current mask : Mask) : Mask × Mask :=
  if p.accepts mask then (mask, current) else (current, 0)

/-- Call `c` is at `pc`. -/
def State.goto (s : State) (c : ℕ) (pc : Pc) : State :=
  { s with pcs := Function.update s.pcs c pc }

/-- The next step of a call. -/
def State.next (s : State) (c : ℕ) : Option State :=
  match s.pcs c with
  | .setting mask =>
    let (current, affinity) := setThreadAffinityMask p s.mask mask
    if affinity ≠ 0 then some ({ s with mask := current, sets := mask :: s.sets }.goto c (.set 0))
    else some ({ s with mask := current }.goto c (.set lastError))
  | .probing temporary =>
    let (current, affinity) := setThreadAffinityMask p s.mask temporary
    if affinity ≠ 0 then some ({ s with mask := current }.goto c (.reinstating affinity))
    else if temporary <<< 1 ≠ 0 then
      some ({ s with mask := current }.goto c (.probing (temporary <<< 1)))
    else some ({ s with mask := current }.goto c (.got lastError none))
  | .reinstating affinity =>
    let (current, _) := setThreadAffinityMask p s.mask affinity
    some ({ s with mask := current }.goto c (.got 0 (some affinity)))
  | .set _ | .got _ _ => none

/-- A call begins: the arguments are tested and the thread is opened. -/
def State.begin (s : State) (pc : Pc) : State :=
  { s with pcs := Function.update s.pcs s.calls pc, calls := s.calls + 1 }

/-- The code of a call that does not come to its first write. -/
def earlyCode (args : Args) (opened : Except WinError Unit) : Option ℤ :=
  if args.bad then some Errno.einval.code
  else
    match opened with
    | .error e => some (convertToPosix e)
    | .ok _ => none

/-- A call begins, or call `c` goes on. -/
inductive Action where
  | setaffinity (args : Args) (opened : Except WinError Unit) (mask : Mask)
  | getaffinity (args : Args) (opened : Except WinError Unit)
  | next (c : ℕ)

/-- One step. -/
def step (s : State) : Action → Option State
  | .setaffinity args opened mask =>
    some (s.begin ((earlyCode args opened).elim (.setting mask) .set))
  | .getaffinity args opened =>
    some (s.begin ((earlyCode args opened).elim (.probing 1) (.got · none)))
  | .next c => if c < s.calls then s.next p c else none

/-! ## What is asked -/

/-- **The queries disturb nothing.** -/
structure Undisturbed (s : State) : Prop where
  /-- With no query between its two writes, and so when all calls are back, the mask is the one that
  was set last. -/
  settled : (∀ c, c < s.calls → ∀ a, s.pcs c ≠ .reinstating a) → s.mask = s.expected p
  /-- A query between its two writes is about to put back that mask: it may be the last to go on. -/
  pending : ∀ c, c < s.calls → ∀ a, s.pcs c = .reinstating a → a = s.expected p
  /-- What was reported is the first mask, or has been set. -/
  reported : ∀ c, c < s.calls → ∀ code a, s.pcs c = .got code (some a) →
    a = p.initial ∨ a ∈ s.sets

/-- A mask is set only if it is the one that every query between its two writes is about to put
back, and a temporary one only over the mask that was set last.  Writes that are refused do not
matter. -/
def Clear (s : State) : Action → Prop
  | .next c => c < s.calls →
    (∀ mask, s.pcs c = .setting mask → p.accepts mask = true →
      ∀ d, d < s.calls → ∀ a, s.pcs d = .reinstating a → a = mask) ∧
    ∀ temporary, s.pcs c = .probing temporary → p.accepts temporary = true →
      s.mask = s.expected p
  | .setaffinity _ _ _ | .getaffinity _ _ => True

/-- What a run keeps. -/
structure Inv (s : State) : Prop extends Undisturbed p s where
  mask_ok : p.accepts s.mask = true
  sets_ok : ∀ m ∈ s.sets, p.accepts m = true

end Process

variable {p : Process} {s s' : State} {c : ℕ}

theorem ne_zero_of_accepts {m : Mask} (h : p.accepts m = true) : m ≠ 0 := by
  rintro rfl
  rw [p.accepts_zero] at h
  cases h

/-- A mask is set. -/
theorem next_setting {mask : Mask} (hmask : s.mask ≠ 0) (hpc : s.pcs c = .setting mask)
    (haccepts : p.accepts mask = true) :
    s.next p c = some ({ s with mask := mask, sets := mask :: s.sets }.goto c (.set 0)) := by
  simp only [State.next, hpc, setThreadAffinityMask, haccepts, if_true, if_pos hmask]

/-- A temporary mask is set. -/
theorem next_probing {temporary : Mask} (hmask : s.mask ≠ 0) (hpc : s.pcs c = .probing temporary)
    (haccepts : p.accepts temporary = true) :
    s.next p c = some ({ s with mask := temporary }.goto c (.reinstating s.mask)) := by
  simp only [State.next, hpc, setThreadAffinityMask, haccepts, if_true, if_pos hmask]

theorem inv_start : Inv p (State.start p) where
  settled _ := rfl
  pending c hc := absurd hc (Nat.not_lt_zero c)
  reported c hc := absurd hc (Nat.not_lt_zero c)
  mask_ok := p.accepts_initial
  sets_ok m hm := by cases hm

namespace Inv

/-- The expected mask is the first one, or has been set. -/
theorem expected_mem (s : State) : s.expected p = p.initial ∨ s.expected p ∈ s.sets := by
  unfold State.expected
  cases s.sets with
  | nil => exact Or.inl rfl
  | cons m sets => exact Or.inr List.mem_cons_self

theorem expected_ok (h : Inv p s) : p.accepts (s.expected p) = true := by
  rcases expected_mem (p := p) s with heq | hmem
  · rw [heq]
    exact p.accepts_initial
  · exact h.sets_ok _ hmem

/-- A call begins, and has neither written nor reported anything. -/
theorem begin (h : Inv p s) {pc : Pc} (hpending : ∀ a, pc ≠ .reinstating a)
    (hreported : ∀ code a, pc ≠ .got code (some a)) : Inv p (s.begin pc) := by
  have hold : ∀ {c}, c < s.calls → Function.update s.pcs s.calls pc c = s.pcs c := fun hc =>
    Function.update_of_ne (Nat.ne_of_lt hc) _ _
  have hcases : ∀ {c}, c < s.calls + 1 → c < s.calls ∨ c = s.calls := fun hc => by omega
  refine ⟨⟨fun hnone => h.settled fun c hc a ha => ?_, fun c hc a ha => ?_,
    fun c hc code a ha => ?_⟩, h.mask_ok, h.sets_ok⟩
  · exact hnone c (Nat.lt_succ_of_lt hc) a ((hold hc).trans ha)
  · rcases hcases hc with hc | rfl
    · exact h.pending c hc a ((hold hc).symm.trans ha)
    · exact absurd ((Function.update_self _ _ _).symm.trans ha) (hpending a)
  · rcases hcases hc with hc | rfl
    · exact h.reported c hc code a ((hold hc).symm.trans ha)
    · exact absurd ((Function.update_self _ _ _).symm.trans ha) (hreported code a)

/-- A call goes on.  What it writes and reports has to be right, and what the other queries are
about to put back. -/
theorem goto (h : Inv p s) {pc : Pc} {mask : Mask} {sets : List Mask}
    (hsub : ∀ m ∈ s.sets, m ∈ sets) (hmask : p.accepts mask = true)
    (hsets : ∀ m ∈ sets, p.accepts m = true)
    (hsettled : (∀ a, pc ≠ .reinstating a) →
      (∀ d, d < s.calls → d ≠ c → ∀ a, s.pcs d ≠ .reinstating a) → mask = sets.headD p.initial)
    (hpending : ∀ a, pc = .reinstating a → a = sets.headD p.initial)
    (hothers : ∀ d, d < s.calls → d ≠ c → ∀ a, s.pcs d = .reinstating a →
      a = sets.headD p.initial)
    (hreported : ∀ code a, pc = .got code (some a) → a = p.initial ∨ a ∈ sets)
    (hc : c < s.calls) : Inv p ({ s with mask := mask, sets := sets }.goto c pc) := by
  have hself : Function.update s.pcs c pc c = pc := Function.update_self _ _ _
  have hother : ∀ {d}, d ≠ c → Function.update s.pcs c pc d = s.pcs d := fun hd =>
    Function.update_of_ne hd _ _
  refine ⟨⟨fun hnone => hsettled (fun a ha => hnone c hc a (hself.trans ha)) fun d hd hdc a ha =>
    hnone d hd a ((hother hdc).trans ha), fun d hd a ha => ?_, fun d hd code a ha => ?_⟩,
    hmask, hsets⟩
  · by_cases hdc : d = c
    · subst hdc
      exact hpending a (hself.symm.trans ha)
    · exact hothers d hd hdc a ((hother hdc).symm.trans ha)
  · by_cases hdc : d = c
    · subst hdc
      exact hreported code a (hself.symm.trans ha)
    · exact (h.reported d hd code a ((hother hdc).symm.trans ha)).imp_right (hsub a)

/-- A write that is refused. -/
theorem refused (h : Inv p s) {pc : Pc} (hc : c < s.calls) (hwas : ∀ a, s.pcs c ≠ .reinstating a)
    (hpc : ∀ a, pc ≠ .reinstating a) (hgot : ∀ code a, pc ≠ .got code (some a)) :
    Inv p (s.goto c pc) := by
  refine h.goto (fun _ hm => hm) h.mask_ok h.sets_ok (fun _ hnone => h.settled fun d hd a ha => ?_)
    (fun a ha => absurd ha (hpc a)) (fun d hd _ a ha => h.pending d hd a ha)
    (fun code a ha => absurd ha (hgot code a)) hc
  by_cases hdc : d = c
  · exact hwas a (hdc ▸ ha)
  · exact hnone d hd hdc a ha

/-- **A step of a call**, with nobody else in the way. -/
theorem next (h : Inv p s) (hc : c < s.calls) (hclear : Clear p s (.next c))
    (hstep : s.next p c = some s') : Inv p s' := by
  have hmask := ne_zero_of_accepts h.mask_ok
  obtain ⟨hset, hprobe⟩ := hclear hc
  cases hpc : s.pcs c with
  | setting mask =>
    cases haccepts : p.accepts mask with
    | true =>
      rw [next_setting hmask hpc haccepts] at hstep
      obtain rfl := Option.some.inj hstep
      refine h.goto (fun m hm => List.mem_cons_of_mem _ hm) haccepts ?_ (fun _ _ => rfl) (by simp)
        (fun d hd _ a ha => hset mask hpc haccepts d hd a ha) (by simp) hc
      intro m hm
      rcases List.mem_cons.mp hm with rfl | hm
      · exact haccepts
      · exact h.sets_ok m hm
    | false =>
      simp only [State.next, hpc, setThreadAffinityMask, haccepts, Bool.false_eq_true, if_false,
        ne_eq, not_true_eq_false] at hstep
      obtain rfl := Option.some.inj hstep
      exact h.refused hc (by simp [hpc]) (by simp) (by simp)
  | probing temporary =>
    cases haccepts : p.accepts temporary with
    | true =>
      -- the mask that comes back is the one that was set last
      have hexpected := hprobe temporary hpc haccepts
      rw [next_probing hmask hpc haccepts] at hstep
      obtain rfl := Option.some.inj hstep
      refine h.goto (fun _ hm => hm) haccepts h.sets_ok (fun hnot => absurd rfl (hnot s.mask))
        (fun a ha => ?_) (fun d hd _ a ha => h.pending d hd a ha) (by simp) hc
      obtain rfl := Pc.reinstating.inj ha
      exact hexpected
    | false =>
      simp only [State.next, hpc, setThreadAffinityMask, haccepts, Bool.false_eq_true, if_false,
        ne_eq, not_true_eq_false] at hstep
      split at hstep <;> obtain rfl := Option.some.inj hstep <;>
        exact h.refused hc (by simp [hpc]) (by simp) (by simp)
  | reinstating affinity =>
    have haffinity := h.pending c hc affinity hpc
    have haccepts : p.accepts affinity = true := haffinity ▸ h.expected_ok
    simp only [State.next, hpc, setThreadAffinityMask, haccepts, if_true] at hstep
    obtain rfl := Option.some.inj hstep
    refine h.goto (fun _ hm => hm) haccepts h.sets_ok (fun _ _ => haffinity) (by simp)
      (fun d hd _ a ha => h.pending d hd a ha) (fun code a ha => ?_) hc
    obtain ⟨-, ha⟩ := Pc.got.inj ha
    obtain rfl := Option.some.inj ha
    rw [haffinity]
    exact expected_mem s
  | set code | got code cpuset =>
    simp only [State.next, hpc] at hstep
    cases hstep

theorem step (h : Inv p s) {a : Action} (hclear : Clear p s a) (hstep : step p s a = some s') :
    Inv p s' := by
  cases a with
  | setaffinity args opened mask =>
    obtain rfl := Option.some.inj hstep
    refine h.begin ?_ ?_ <;> cases earlyCode args opened <;> simp
  | getaffinity args opened =>
    obtain rfl := Option.some.inj hstep
    refine h.begin ?_ ?_ <;> cases earlyCode args opened <;> simp
  | next c =>
    dsimp only [Affinity.step] at hstep
    split at hstep
    · rename_i hc
      exact h.next hc hclear hstep
    · cases hstep

/-- **Somebody else is in the way**: a query is then about to put back a mask that is not the one
that was set last. -/
theorem disturbed (h : Inv p s) {a : Action} (hclear : ¬ Clear p s a) :
    ∃ s', Affinity.step p s a = some s' ∧ ¬ Undisturbed p s' := by
  have hmask := ne_zero_of_accepts h.mask_ok
  cases a with
  | setaffinity args opened mask => exact absurd trivial hclear
  | getaffinity args opened => exact absurd trivial hclear
  | next c =>
    simp only [Clear, Classical.not_imp, not_and_or, not_forall] at hclear
    obtain ⟨hc, ⟨mask, hpc, haccepts, d, hd, a, ha, hne⟩ | ⟨temporary, hpc, haccepts, hne⟩⟩ :=
      hclear
    · have hdc : d ≠ c := by
        rintro rfl
        rw [hpc] at ha
        cases ha
      refine ⟨_, (if_pos hc).trans (next_setting hmask hpc haccepts), fun hafter => hne ?_⟩
      exact hafter.pending d hd a ((Function.update_of_ne hdc _ _).trans ha)
    · refine ⟨_, (if_pos hc).trans (next_probing hmask hpc haccepts), fun hafter => hne ?_⟩
      exact hafter.pending c hc s.mask (Function.update_self _ _ _)

end Inv

/-- **Affinity queries do not disturb affinity**, in any interleaving of any number of calls:
exactly as long as no mask is set that a query between its two writes will not put back, and no
query begins over a mask that is not the one that was set last. -/
theorem affinity_undisturbed_iff (p : Process) (actions : List Action) :
    Throughout (step p) (Undisturbed p) (State.start p) actions ↔
      EachStep (step p) (Clear p) (State.start p) actions :=
  throughout_iff_eachStep (I := Inv p) (fun _ h => h.toUndisturbed)
    (fun _ _ _ h hclear hstep => h.step hclear hstep) (fun _ _ h hclear => h.disturbed hclear)
    inv_start

/-- A process on two processors, and a thread that may run on both. -/
def twoProcessors : Process where
  accepts m := m ≠ 0 && m &&& 3 == m
  accepts_zero := rfl
  initial := 3
  accepts_initial := rfl

/-- Two queries: the second one begins between the two writes of the first, and ends last. -/
def twoQueries : List Action :=
  [.getaffinity ⟨1, 8, true⟩ (.ok ()), .getaffinity ⟨1, 8, true⟩ (.ok ()), .next 0, .next 1,
    .next 0, .next 1]

/-- The thread is left on one processor, and the second query has reported that. -/
theorem queries_change_affinity :
    ∃ s, exec (step twoProcessors) (State.start twoProcessors) twoQueries = some s ∧
      (∀ c, c < s.calls → s.pcs c = .got 0 (some 3) ∨ s.pcs c = .got 0 (some 1)) ∧ s.sets = [] ∧
      s.mask = 1 ∧ s.pcs 1 = .got 0 (some 1) ∧ ¬ Undisturbed twoProcessors s := by
  refine ⟨_, rfl, by decide, rfl, rfl, rfl, fun h => ?_⟩
  exact absurd (h.reported 1 (by decide) 0 1 rfl) (by decide)

end Affinity
end Wpdk
