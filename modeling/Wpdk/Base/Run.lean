import Mathlib.Data.List.Basic

/-!
# Runs of a partial step function

Every component of this development is a state type with a partial step function
`step : σ → α → Option σ`: the action `a` either cannot be taken in a state, or
takes it to one next state.  A run is a list of actions, so a schedule is data: a
concrete interleaving can be written down and evaluated, and a statement about
every interleaving is a statement about every list.

* `exec`: the state a run ends in, if every one of its actions can be taken.
* `Throughout P`: `P` holds in every state the run passes through, the first and
  the last included.
* `EachStep C`: every action taken along the run meets `C` in the state it is
  taken in.
* `exec_invariant`, `throughout_of_invariant`: what one step preserves, a whole
  run preserves.  The second form lets the step lemma use a condition that only
  the steps of this run meet.
* `throughout_iff_eachStep`, `eachStep_iff_eachStep`: the exact forms, for a property that
  a step breaks as soon as it does not meet the condition.
* `exec_simulation`: two systems that are taken to related states by the same actions;
  `exec_fuel_simulation`: one of them with bounded loops; `exec_map`: what is seen of a run.
-/

namespace Wpdk
namespace Run

variable {σ α : Type*} (step : σ → α → Option σ)

/-- The state reached by taking the actions in turn. -/
def exec : σ → List α → Option σ
  | s, [] => some s
  | s, a :: as => (step s a).bind fun s' => exec s' as

/-- `P` holds in every state that the run passes through. -/
def Throughout (P : σ → Prop) : σ → List α → Prop
  | s, [] => P s
  | s, a :: as => P s ∧ ∀ s', step s a = some s' → Throughout P s' as

/-- Every action of the run meets `C` in the state in which it is taken. -/
def EachStep (C : σ → α → Prop) : σ → List α → Prop
  | _, [] => True
  | s, a :: as => C s a ∧ ∀ s', step s a = some s' → EachStep C s' as

variable {step}

theorem throughout_cons_of_some {P : σ → Prop} {s s' : σ} {a : α} (h : step s a = some s')
    (as : List α) : Throughout step P s (a :: as) ↔ P s ∧ Throughout step P s' as := by
  simp [Throughout, h]

theorem throughout_cons_of_none {P : σ → Prop} {s : σ} {a : α} (h : step s a = none)
    (as : List α) : Throughout step P s (a :: as) ↔ P s := by
  simp [Throughout, h]

theorem eachStep_cons_of_some {C : σ → α → Prop} {s s' : σ} {a : α} (h : step s a = some s')
    (as : List α) : EachStep step C s (a :: as) ↔ C s a ∧ EachStep step C s' as := by
  simp [EachStep, h]

theorem eachStep_cons_of_none {C : σ → α → Prop} {s : σ} {a : α} (h : step s a = none)
    (as : List α) : EachStep step C s (a :: as) ↔ C s a := by
  simp [EachStep, h]

instance decidableThroughout {P : σ → Prop} [DecidablePred P] :
    (s : σ) → (as : List α) → Decidable (Throughout step P s as)
  | s, [] => inferInstanceAs (Decidable (P s))
  | s, a :: as =>
    match h : step s a with
    | none => decidable_of_iff _ (throughout_cons_of_none h as).symm
    | some s' =>
      haveI := decidableThroughout (P := P) s' as
      decidable_of_iff _ (throughout_cons_of_some h as).symm

instance decidableEachStep {C : σ → α → Prop} [∀ s a, Decidable (C s a)] :
    (s : σ) → (as : List α) → Decidable (EachStep step C s as)
  | _, [] => isTrue trivial
  | s, a :: as =>
    match h : step s a with
    | none => decidable_of_iff _ (eachStep_cons_of_none h as).symm
    | some s' =>
      haveI := decidableEachStep (C := C) s' as
      decidable_of_iff _ (eachStep_cons_of_some h as).symm

@[simp] theorem exec_nil (s : σ) : exec step s [] = some s := rfl

theorem exec_cons (s : σ) (a : α) (as : List α) :
    exec step s (a :: as) = (step s a).bind fun s' => exec step s' as := rfl

/-- A run that begins with `a` takes `a` and then runs on. -/
theorem exec_cons_eq_some {s t : σ} {a : α} {as : List α} :
    exec step s (a :: as) = some t ↔ ∃ s', step s a = some s' ∧ exec step s' as = some t := by
  rw [exec_cons, Option.bind_eq_some_iff]

/-- **What a step preserves, a run preserves.** -/
theorem exec_invariant {P : σ → Prop} (hstep : ∀ s a s', P s → step s a = some s' → P s')
    {s t : σ} {as : List α} (hs : P s) (h : exec step s as = some t) : P t := by
  induction as generalizing s with
  | nil =>
    rw [exec_nil] at h
    rwa [← Option.some.inj h]
  | cons a as ih =>
    obtain ⟨s', hss', h'⟩ := exec_cons_eq_some.mp h
    exact ih (hstep s a s' hs hss') h'

/-- The same along a run whose steps meet a condition. -/
theorem exec_invariant_of_eachStep {P : σ → Prop} {C : σ → α → Prop}
    (hstep : ∀ s a s', P s → C s a → step s a = some s' → P s')
    {s t : σ} {as : List α} (hs : P s) (hC : EachStep step C s as)
    (h : exec step s as = some t) : P t := by
  induction as generalizing s with
  | nil =>
    rw [exec_nil] at h
    rwa [← Option.some.inj h]
  | cons a as ih =>
    obtain ⟨s', hss', h'⟩ := exec_cons_eq_some.mp h
    exact ih (hstep s a s' hs hC.1 hss') (hC.2 s' hss') h'

/-- A condition on the actions alone. -/
theorem eachStep_of_forall {C : α → Prop} {as : List α} (h : ∀ a ∈ as, C a) (s : σ) :
    EachStep step (fun _ a => C a) s as := by
  induction as generalizing s with
  | nil => trivial
  | cons a as ih =>
    exact ⟨h a List.mem_cons_self, fun s' _ => ih (fun b hb => h b (List.mem_cons_of_mem a hb)) s'⟩

theorem Throughout.head {P : σ → Prop} {s : σ} {as : List α} (h : Throughout step P s as) :
    P s := by
  cases as with
  | nil => exact h
  | cons a as => exact h.1

/-- An invariant that implies `P` and is kept by the steps meeting `C` gives `P` in
every state of every run whose steps meet `C`. -/
theorem throughout_of_invariant {P I : σ → Prop} {C : σ → α → Prop} (hIP : ∀ s, I s → P s)
    (hstep : ∀ s a s', I s → C s a → step s a = some s' → I s')
    {s : σ} {as : List α} (hs : I s) (hC : EachStep step C s as) : Throughout step P s as := by
  induction as generalizing s with
  | nil => exact hIP s hs
  | cons a as ih =>
    exact ⟨hIP s hs, fun s' hs' => ih (hstep s a s' hs hC.1 hs') (hC.2 s' hs')⟩

/-- The same for what holds of every step. -/
theorem eachStep_of_invariant {I : σ → Prop} {C D : σ → α → Prop}
    (hD : ∀ s a, I s → C s a → D s a)
    (hstep : ∀ s a s', I s → C s a → step s a = some s' → I s')
    {s : σ} {as : List α} (hs : I s) (hC : EachStep step C s as) : EachStep step D s as := by
  induction as generalizing s with
  | nil => trivial
  | cons a as ih =>
    exact ⟨hD s a hs hC.1, fun s' hs' => ih (hstep s a s' hs hC.1 hs') (hC.2 s' hs')⟩

/-- **The exact form.**  When the steps that meet `C` keep an invariant that gives `P`,
and a step that does not meet `C` can be taken only into a state without `P`, a run keeps
`P` throughout exactly when all of its steps meet `C`.  An action that does not meet `C`
has to be one that can be taken, or the run says nothing about it. -/
theorem throughout_iff_eachStep {P I : σ → Prop} {C : σ → α → Prop} (hIP : ∀ s, I s → P s)
    (hstep : ∀ s a s', I s → C s a → step s a = some s' → I s')
    (hbreak : ∀ s a, I s → ¬ C s a → ∃ s', step s a = some s' ∧ ¬ P s')
    {s : σ} {as : List α} (hs : I s) : Throughout step P s as ↔ EachStep step C s as := by
  constructor
  · intro h
    induction as generalizing s with
    | nil => trivial
    | cons a as ih =>
      have hC : C s a := by
        by_contra hC
        obtain ⟨s', hs', hP⟩ := hbreak s a hs hC
        exact hP (h.2 s' hs').head
      exact ⟨hC, fun s' hs' => ih (hstep s a s' hs hC hs') (h.2 s' hs')⟩
  · exact throughout_of_invariant hIP hstep hs

/-- When `P` is known throughout a run, a step lemma may use it in the state after the
step: an invariant kept by the steps into states with `P` holds at the end of the run. -/
theorem exec_invariant_of_throughout {P I : σ → Prop}
    (hstep : ∀ s a s', I s → step s a = some s' → P s' → I s')
    {s t : σ} {as : List α} (hs : I s) (hP : Throughout step P s as)
    (h : exec step s as = some t) : I t := by
  induction as generalizing s with
  | nil =>
    rw [exec_nil] at h
    rwa [← Option.some.inj h]
  | cons a as ih =>
    obtain ⟨s', hss', h'⟩ := exec_cons_eq_some.mp h
    exact ih (hstep s a s' hs hss' (hP.2 s' hss').head) (hP.2 s' hss') h'

/-- What holds of every step then. -/
theorem eachStep_of_throughout {P I : σ → Prop} {C : σ → α → Prop}
    (hstep : ∀ s a s', I s → step s a = some s' → P s' → I s') (hC : ∀ s a, I s → C s a)
    {s : σ} {as : List α} (hs : I s) (hP : Throughout step P s as) : EachStep step C s as := by
  induction as generalizing s with
  | nil => trivial
  | cons a as ih =>
    exact ⟨hC s a hs, fun s' hs' => ih (hstep s a s' hs hs' (hP.2 s' hs').head) (hP.2 s' hs')⟩

/-- **The exact form for what is said of the steps.**  When the steps that meet `C` keep an
invariant under which a step is right exactly if it meets `C`, all steps of a run are right exactly
if all of them meet `C`. -/
theorem eachStep_iff_eachStep {I : σ → Prop} {C D : σ → α → Prop}
    (hstep : ∀ s a s', I s → C s a → step s a = some s' → I s')
    (hiff : ∀ s a, I s → (D s a ↔ C s a)) {s : σ} {as : List α} (hs : I s) :
    EachStep step D s as ↔ EachStep step C s as := by
  induction as generalizing s with
  | nil => exact Iff.rfl
  | cons a as ih =>
    refine ⟨fun h => ?_, fun h => ?_⟩
    · have hC := (hiff s a hs).mp h.1
      exact ⟨hC, fun s' hs' => (ih (hstep s a s' hs hC hs')).mp (h.2 s' hs')⟩
    · exact ⟨(hiff s a hs).mpr h.1, fun s' hs' => (ih (hstep s a s' hs h.1 hs')).mpr (h.2 s' hs')⟩

/-- **Two systems in step.**  If related states take every action to related states, the two runs
of a list of actions end in related states. -/
theorem exec_simulation {τ : Type*} {step' : τ → α → Option τ} {R : σ → τ → Prop}
    (hstep : ∀ s t a, R s t → ∃ s' t', step s a = some s' ∧ step' t a = some t' ∧ R s' t')
    {s : σ} {t : τ} (hR : R s t) (as : List α) :
    ∃ s' t', exec step s as = some s' ∧ exec step' t as = some t' ∧ R s' t' := by
  induction as generalizing s t with
  | nil => exact ⟨s, t, rfl, rfl, hR⟩
  | cons a as ih =>
    obtain ⟨s₁, t₁, hs, ht, hR₁⟩ := hstep s t a hR
    obtain ⟨s', t', hs', ht', hR'⟩ := ih hR₁
    exact ⟨s', t', exec_cons_eq_some.mpr ⟨s₁, hs, hs'⟩, exec_cons_eq_some.mpr ⟨t₁, ht, ht'⟩, hR'⟩

/-- **What is seen of a run.**  If what is seen of a state decides which actions can be taken in it,
and what is seen afterwards, a run is seen as a run. -/
theorem exec_map {τ : Type*} {step' : τ → α → Option τ} {φ : σ → τ}
    (hstep : ∀ s a, (step s a).map φ = step' (φ s) a) (s : σ) (as : List α) :
    (exec step s as).map φ = exec step' (φ s) as := by
  induction as generalizing s with
  | nil => rfl
  | cons a as ih =>
    rw [exec_cons, exec_cons, ← hstep s a]
    cases step s a with
    | none => rfl
    | some s' => exact ih s'

/-- **A run of the code for a run of its model.**  Where the steps of the code have loops with a
bound on their rounds, any bound that is large enough gives the same run. -/
theorem exec_fuel_simulation {τ : Type*} {step : ℕ → σ → α → Option σ} {step' : τ → α → Option τ}
    {R : σ → τ → Prop} {as : List α}
    (hstep : ∀ s t a t', a ∈ as → R s t → step' t a = some t' →
      ∃ n s', (∀ k, n ≤ k → step k s a = some s') ∧ R s' t')
    {s : σ} {t t' : τ} (hR : R s t) (h : exec step' t as = some t') :
    ∃ n s', (∀ k, n ≤ k → exec (step k) s as = some s') ∧ R s' t' := by
  induction as generalizing s t with
  | nil =>
    cases h
    exact ⟨0, s, fun _ _ => rfl, hR⟩
  | cons a as ih =>
    obtain ⟨t₁, ht, h'⟩ := exec_cons_eq_some.mp h
    obtain ⟨n₁, s₁, hs, hR₁⟩ := hstep s t a t₁ List.mem_cons_self hR ht
    obtain ⟨n₂, s', hs', hR'⟩ :=
      ih (fun s t b t' hb => hstep s t b t' (List.mem_cons_of_mem a hb)) hR₁ h'
    refine ⟨max n₁ n₂, s', fun k hk => exec_cons_eq_some.mpr ⟨s₁, hs k ?_, hs' k ?_⟩, hR'⟩
    · exact Nat.le_trans (Nat.le_max_left n₁ n₂) hk
    · exact Nat.le_trans (Nat.le_max_right n₁ n₂) hk

end Run
end Wpdk
