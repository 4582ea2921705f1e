import Mathlib.Data.List.Basic
import Mathlib.Algebra.Order.Group.Nat

/-!
# Transfers in segments

A transfer of several segments is a loop over a primitive that transfers one.  The primitive moves
some part of its segment, and the loop ends at the first segment that was not moved as a whole; or
the primitive fails, moves nothing, and the loop ends with its error.

* `Primitive`: the primitive, on a state that has a position.
* `Primitive.transfer`: the loop.
* `Primitive.completedFrom`: segments that are all moved as a whole; `transferFrom_append` goes on
  behind them, and `exists_of_transferFrom_error` finds them in front of an error.
* `Primitive.transferFrom_count`: what is reported, and how far the position has moved.
* `transfer_sound_iff`: when an error means that nothing was moved.
* `scatter`: what has been moved put into the segments; `flatten_scatter` says that they are filled
  as one buffer would be.
-/

namespace Wpdk

variable {σ ε α : Type}

/-- A transfer of one segment; `call i x s` is the `i`-th call, with the segment `x` in the state
`s`, and answers with what was moved. -/
structure Primitive (σ ε α : Type) where
  call : ℕ → List α → σ → Except ε (List α) × σ
  pos : σ → ℕ
  state_of_error : ∀ {i x s e s'}, call i x s = (.error e, s') → s' = s
  pos_of_ok : ∀ {i x s d s'}, call i x s = (.ok d, s') → pos s' = pos s + d.length
  length_le : ∀ {i x s d s'}, call i x s = (.ok d, s') → d.length ≤ x.length

/-- How a transfer ends: the number that it reports, what has been moved of each segment, and the
state. -/
structure Transferred (σ ε α : Type) where
  ret : Except ε ℕ
  moved : List (List α)
  state : σ

namespace Primitive

variable (P : Primitive σ ε α)

/-- The loop, from the `i`-th call on, with `nbytes` and `moved` so far. -/
def transferFrom : ℕ → List (List α) → σ → ℕ → List (List α) → Transferred σ ε α
  | _, [], s, nbytes, moved => ⟨.ok nbytes, moved, s⟩
  | i, x :: xs, s, nbytes, moved =>
    match P.call i x s with
    | (.error e, s') => ⟨.error e, moved, s'⟩
    | (.ok d, s') =>
      if d.length ≠ x.length then ⟨.ok (nbytes + d.length), moved ++ [d], s'⟩
      else transferFrom (i + 1) xs s' (nbytes + d.length) (moved ++ [d])

/-- The loop. -/
def transfer (xs : List (List α)) (s : σ) : Transferred σ ε α := P.transferFrom 0 xs s 0 []

/-- The state behind segments that are all moved as a whole, from the `i`-th call on, and what was
moved. -/
def completedFrom : ℕ → List (List α) → σ → Option (List (List α) × σ)
  | _, [], s => some ([], s)
  | i, x :: xs, s =>
    match P.call i x s with
    | (.error _, _) => none
    | (.ok d, s') =>
      if d.length = x.length then (completedFrom (i + 1) xs s').map fun r => (d :: r.1, r.2)
      else none

/-! ## Segments moved as a whole -/

section Completed

variable {P} {i n : ℕ} {x : List α} {xs pre ds m : List (List α)} {s s' : σ}

theorem transferFrom_cons_error {e : ε} (h : P.call i x s = (.error e, s')) :
    P.transferFrom i (x :: xs) s n m = ⟨.error e, m, s'⟩ := by
  rw [transferFrom, h]

theorem transferFrom_cons_short {d : List α} (h : P.call i x s = (.ok d, s'))
    (hshort : d.length ≠ x.length) :
    P.transferFrom i (x :: xs) s n m = ⟨.ok (n + d.length), m ++ [d], s'⟩ := by
  rw [transferFrom, h]
  exact if_pos hshort

theorem transferFrom_cons_full {d : List α} (h : P.call i x s = (.ok d, s'))
    (hfull : d.length = x.length) :
    P.transferFrom i (x :: xs) s n m =
      P.transferFrom (i + 1) xs s' (n + d.length) (m ++ [d]) := by
  rw [transferFrom, h]
  exact if_neg (not_not_intro hfull)

/-- One step of `completedFrom`. -/
theorem completedFrom_cons_iff :
    P.completedFrom i (x :: xs) s = some (ds, s') ↔
      ∃ d s₁ ds', P.call i x s = (.ok d, s₁) ∧ d.length = x.length ∧
        P.completedFrom (i + 1) xs s₁ = some (ds', s') ∧ ds = d :: ds' := by
  rw [completedFrom]
  constructor
  · intro h
    rcases hcall : P.call i x s with ⟨e | d, s₁⟩
    · rw [hcall] at h
      cases h
    · rw [hcall] at h
      by_cases hfull : d.length = x.length
      · dsimp only at h
        rw [if_pos hfull] at h
        obtain ⟨⟨ds', s''⟩, hrest, heq⟩ := Option.map_eq_some_iff.mp h
        cases heq
        exact ⟨d, s₁, ds', rfl, hfull, hrest, rfl⟩
      · dsimp only at h
        rw [if_neg hfull] at h
        cases h
  · rintro ⟨d, s₁, ds', hcall, hfull, hrest, rfl⟩
    rw [hcall]
    dsimp only
    rw [if_pos hfull, hrest]
    rfl

theorem length_flatten_of_completedFrom (h : P.completedFrom i pre s = some (ds, s')) :
    ds.flatten.length = pre.flatten.length := by
  induction pre generalizing i s ds with
  | nil =>
    cases h
    rfl
  | cons x xs ih =>
    obtain ⟨d, s₁, ds', -, hfull, hrest, rfl⟩ := completedFrom_cons_iff.mp h
    rw [List.flatten_cons, List.flatten_cons, List.length_append, List.length_append, hfull,
      ih hrest]

/-- The loop goes on behind segments that are moved as a whole. -/
theorem transferFrom_append (h : P.completedFrom i pre s = some (ds, s')) (post : List (List α)) :
    P.transferFrom i (pre ++ post) s n m =
      P.transferFrom (i + pre.length) post s' (n + ds.flatten.length) (m ++ ds) := by
  induction pre generalizing i s ds n m with
  | nil =>
    cases h
    rw [List.nil_append, List.flatten_nil, List.append_nil]
    rfl
  | cons x xs ih =>
    obtain ⟨d, s₁, ds', hcall, hfull, hrest, rfl⟩ := completedFrom_cons_iff.mp h
    rw [List.cons_append, transferFrom_cons_full hcall hfull, ih hrest, List.append_assoc,
      List.flatten_cons, List.length_append, List.length_cons, Nat.add_assoc i,
      Nat.add_comm 1, Nat.add_assoc n]
    rfl

/-- In front of an error there are segments that were moved as a whole. -/
theorem exists_of_transferFrom_error {e : ε} (h : (P.transferFrom i xs s n m).ret = .error e) :
    ∃ pre x post ds s', xs = pre ++ x :: post ∧ P.completedFrom i pre s = some (ds, s') ∧
      (P.call (i + pre.length) x s').1 = .error e ∧
      (P.transferFrom i xs s n m).moved = m ++ ds := by
  induction xs generalizing i s n m with
  | nil => cases h
  | cons x xs ih =>
    rcases hcall : P.call i x s with ⟨e' | d, s₁⟩
    · rw [transferFrom_cons_error hcall] at h ⊢
      obtain rfl := Except.error.inj h
      exact ⟨[], x, xs, [], s, rfl, rfl, congrArg Prod.fst hcall, (List.append_nil m).symm⟩
    · by_cases hfull : d.length = x.length
      · rw [transferFrom_cons_full hcall hfull] at h ⊢
        obtain ⟨pre, y, post, ds, s', rfl, hpre, hfail, hmoved⟩ := ih h
        refine ⟨x :: pre, y, post, d :: ds, s', rfl,
          completedFrom_cons_iff.mpr ⟨d, s₁, ds, hcall, hfull, hpre, rfl⟩, ?_, ?_⟩
        · rw [List.length_cons, ← Nat.add_assoc, Nat.add_right_comm]
          exact hfail
        · rw [hmoved, List.append_assoc]
          rfl
      · rw [transferFrom_cons_short hcall hfull] at h
        cases h

end Completed

/-! ## Counting -/

section Count

theorem length_flatten_concat (m : List (List α)) (d : List α) :
    (m ++ [d]).flatten.length = m.flatten.length + d.length := by
  rw [List.flatten_append, List.length_append, List.flatten_singleton]

/-- **What a run reports and how far it moves the position.**  The counter of the loop is the number
of units moved. -/
theorem transferFrom_count {n : ℕ} {m : List (List α)} (hn : n = m.flatten.length) (i : ℕ)
    (xs : List (List α)) (s : σ) :
    (∀ k, (P.transferFrom i xs s n m).ret = .ok k →
        k = (P.transferFrom i xs s n m).moved.flatten.length) ∧
      P.pos (P.transferFrom i xs s n m).state + m.flatten.length =
        P.pos s + (P.transferFrom i xs s n m).moved.flatten.length := by
  induction xs generalizing i s n m with
  | nil => exact ⟨fun k hk => (Except.ok.inj hk).symm.trans hn, rfl⟩
  | cons x xs ih =>
    rcases hcall : P.call i x s with ⟨e | d, s'⟩
    · rw [transferFrom_cons_error hcall]
      exact ⟨fun k hk => (nomatch hk), by rw [P.state_of_error hcall]⟩
    · have hpos := P.pos_of_ok hcall
      have hlen := length_flatten_concat m d
      by_cases hfull : d.length = x.length
      · rw [transferFrom_cons_full hcall hfull]
        have hn' : n + d.length = (m ++ [d]).flatten.length := by omega
        obtain ⟨hret, hstate⟩ := ih hn' (i + 1) s'
        exact ⟨hret, by omega⟩
      · rw [transferFrom_cons_short hcall hfull]
        refine ⟨fun k hk => ?_, ?_⟩
        · obtain rfl := Except.ok.inj hk
          dsimp only
          omega
        · dsimp only
          omega

end Count

/-! ## Errors after something was moved -/

/-- An error means that nothing was moved, and what was moved is reported. -/
structure Sound (s : σ) (t : Transferred σ ε α) : Prop where
  nothing : ∀ e, t.ret = .error e → t.moved.flatten = [] ∧ P.pos t.state = P.pos s
  reported : t.moved.flatten ≠ [] → t.ret = .ok t.moved.flatten.length

/-- A call fails only if the segments before it are empty. -/
def NoLateFailure (xs : List (List α)) (s : σ) : Prop :=
  ∀ pre x post ds s' e, xs = pre ++ x :: post → P.completedFrom 0 pre s = some (ds, s') →
    (P.call pre.length x s').1 = .error e → pre.flatten = []

theorem transfer_sound_iff (xs : List (List α)) (s : σ) :
    P.Sound s (P.transfer xs s) ↔ P.NoLateFailure xs s := by
  constructor
  · rintro h pre x post ds s' e rfl hpre hfail
    have hlen := length_flatten_of_completedFrom hpre
    rcases hcall : P.call pre.length x s' with ⟨e' | d, s''⟩
    · rw [← Nat.zero_add pre.length] at hcall
      have hrun : P.transfer (pre ++ x :: post) s =
          ⟨.error e', [] ++ ds, s''⟩ :=
        (transferFrom_append hpre (x :: post)).trans (transferFrom_cons_error hcall)
      rw [hrun] at h
      have hnil := (h.nothing e' rfl).1
      rw [List.nil_append] at hnil
      rw [hnil] at hlen
      exact List.length_eq_zero_iff.mp hlen.symm
    · rw [hcall] at hfail
      cases hfail
  · intro h
    have hzero : 0 = ([] : List (List α)).flatten.length := rfl
    obtain ⟨hret, hpos⟩ := P.transferFrom_count hzero 0 xs s
    have hnone : ∀ e, (P.transfer xs s).ret = .error e → (P.transfer xs s).moved.flatten = [] := by
      intro e he
      obtain ⟨pre, x, post, ds, s', hxs, hpre, hfail, hmoved⟩ := exists_of_transferFrom_error he
      rw [Nat.zero_add] at hfail
      have hnil := h pre x post ds s' e hxs hpre hfail
      have hlen := length_flatten_of_completedFrom hpre
      rw [hnil] at hlen
      rw [transfer, hmoved, List.nil_append]
      exact List.length_eq_zero_iff.mp hlen
    refine ⟨fun e he => ⟨hnone e he, ?_⟩, fun hmoved => ?_⟩
    · have hnil := hnone e he
      unfold transfer at hnil ⊢
      rw [hnil] at hpos
      exact hpos
    · cases hcase : (P.transfer xs s).ret with
      | error e => exact absurd (hnone e hcase) hmoved
      | ok k => rw [hret k hcase]; rfl

end Primitive

/-! ## Filling the segments -/

/-- The segments once what was moved has been put at their start. -/
def scatter : List (List α) → List (List α) → List (List α)
  | x :: xs, d :: ds => (d ++ x.drop d.length) :: scatter xs ds
  | xs, _ => xs

namespace Primitive

/-- The segments are filled one after the other, as one buffer would be. -/
theorem flatten_scatter {P : Primitive σ ε α} (i n : ℕ) (xs : List (List α)) (s : σ) :
    ∃ ds, (∀ m, (P.transferFrom i xs s n m).moved = m ++ ds) ∧
      (scatter xs ds).flatten = ds.flatten ++ xs.flatten.drop ds.flatten.length := by
  induction xs generalizing i n s with
  | nil => exact ⟨[], fun m => (List.append_nil m).symm, rfl⟩
  | cons x xs ih =>
    rcases hcall : P.call i x s with ⟨e | d, s'⟩
    · refine ⟨[], fun m => ?_, rfl⟩
      rw [transferFrom_cons_error hcall, List.append_nil]
    · by_cases hfull : d.length = x.length
      · obtain ⟨ds, hmoved, hfilled⟩ := ih (i + 1) (n + d.length) s'
        refine ⟨d :: ds, fun m => ?_, ?_⟩
        · rw [transferFrom_cons_full hcall hfull, hmoved, List.append_assoc]
          rfl
        · rw [scatter, List.flatten_cons, hfilled, hfull, List.drop_length, List.append_nil,
            List.flatten_cons, List.flatten_cons, List.length_append, hfull, List.append_assoc,
            List.drop_length_add_append]
      · refine ⟨[d], fun m => by rw [transferFrom_cons_short hcall hfull], ?_⟩
        have hle := P.length_le hcall
        have hnil : scatter xs [] = xs := by cases xs <;> rfl
        rw [scatter, hnil, List.flatten_singleton, List.flatten_cons, List.flatten_cons,
          List.drop_append_of_le_length hle, List.append_assoc]

end Primitive
end Wpdk
