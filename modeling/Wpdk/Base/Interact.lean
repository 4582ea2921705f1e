import Mathlib.Data.List.Basic

/-!
# Programs that call out

A function that calls the operating system is a tree: it has a result, or it makes a call and goes
on with the answer.  What the calls do is not part of the tree.  An environment
`env : σ → C → A → Option σ` says which answers are possible in a state, and what the call does to
the state.

* `Interact C A α`: programs with calls in `C`, answers in `A` and results in `α`; `ask` makes one
  call.
* `run`: the run of a program that is given the answers one after the other.
* `wp`: what holds at the end whatever is answered.  `wp_pure`, `wp_ask_bind`, `wp_map` and
  `wp_mono` take a program apart, and `run_spec` is what `wp` says of the runs.
-/

namespace Wpdk

/-- A program with calls in `C`, answers in `A` and a result in `α`. -/
inductive Interact (C A α : Type) where
  | ret (a : α)
  | call (c : C) (k : A → Interact C A α)

namespace Interact

variable {C A α β σ : Type}

/-- One program after another. -/
def bind : Interact C A α → (α → Interact C A β) → Interact C A β
  | .ret a, f => f a
  | .call c k, f => .call c fun ans => (k ans).bind f

instance : Monad (Interact C A) where
  pure := .ret
  bind := bind

/-- One call. -/
def ask (c : C) : Interact C A A := .call c .ret

/-- The run of a program on a list of answers, from a state of the environment. -/
def run (env : σ → C → A → Option σ) : σ → List A → Interact C A α → Option (α × σ)
  | s, _, .ret a => some (a, s)
  | _, [], .call _ _ => none
  | s, ans :: answers, .call c k => (env s c ans).bind fun s' => run env s' answers (k ans)

/-- `Q` holds of the result and of the state of the environment at the end, whatever is
answered. -/
def wp (env : σ → C → A → Option σ) : Interact C A α → (α → σ → Prop) → σ → Prop
  | .ret a, Q, s => Q a s
  | .call c k, Q, s => ∀ ans s', env s c ans = some s' → wp env (k ans) Q s'

variable {env : σ → C → A → Option σ} {Q Q' : α → σ → Prop} {s : σ}

@[simp] theorem wp_pure (a : α) : wp env (pure a) Q s ↔ Q a s := Iff.rfl

@[simp] theorem wp_ask_bind (c : C) (k : A → Interact C A α) :
    wp env (ask c >>= k) Q s ↔ ∀ ans s', env s c ans = some s' → wp env (k ans) Q s' := Iff.rfl

theorem wp_map (f : α → β) (p : Interact C A α) {Q : β → σ → Prop} :
    wp env (f <$> p) Q s ↔ wp env p (fun a => Q (f a)) s := by
  induction p generalizing s with
  | ret a => exact Iff.rfl
  | call c k ih =>
    exact forall_congr' fun ans => forall_congr' fun s' => imp_congr_right fun _ => ih ans

theorem wp_mono {p : Interact C A α} (h : wp env p Q s) (hQ : ∀ a s', Q a s' → Q' a s') :
    wp env p Q' s := by
  induction p generalizing s with
  | ret a => exact hQ a s h
  | call c k ih => exact fun ans s' hs' => ih ans (h ans s' hs')

/-- **What `wp` says of the runs.** -/
theorem run_spec {p : Interact C A α} {answers : List A} {a : α} {s' : σ} (h : wp env p Q s)
    (hrun : run env s answers p = some (a, s')) : Q a s' := by
  induction p generalizing s answers with
  | ret b =>
    rw [run] at hrun
    obtain ⟨rfl, rfl⟩ := Prod.mk.inj (Option.some.inj hrun)
    exact h
  | call c k ih =>
    cases answers with
    | nil =>
      rw [run] at hrun
      cases hrun
    | cons ans answers =>
      obtain ⟨s₁, hs₁, hrun⟩ := Option.bind_eq_some_iff.mp hrun
      exact ih ans (h ans s₁ hs₁) hrun

end Interact
end Wpdk
