import Mathlib.Data.List.Basic

/-!
# Cutting a list behind a delimiter

A list is cut behind every occurrence of a delimiter.  Each piece has the delimiter at its end, if
it has it at all; only the last piece may be without.

* `firstPiece`, `pieces`: the first piece, and all of them; `pieces_eq_cons` takes the first off,
  and `pieces_induction` goes on with the rest.
* `flatten_pieces`, `notMem_dropLast_of_mem_pieces`, `getLast?_of_mem_dropLast_pieces`: the pieces
  are a partition of the list at the delimiter.
-/

namespace Wpdk

variable {α : Type} [DecidableEq α]

/-- A list up to the first occurrence of `d`, that included, or all of it if there is none. -/
def firstPiece (d : α) : List α → List α
  | [] => []
  | c :: s => if c = d then [c] else c :: firstPiece d s

/-- The pieces of a list. -/
def pieces (d : α) : List α → List (List α)
  | [] => []
  | c :: s =>
    if c = d then [c] :: pieces d s
    else
      match pieces d s with
      | [] => [[c]]
      | p :: ps => (c :: p) :: ps

variable {d : α} {s : List α}

theorem firstPiece_ne_nil (h : s ≠ []) : firstPiece d s ≠ [] := by
  obtain ⟨c, s, rfl⟩ := List.exists_cons_of_ne_nil h
  rw [firstPiece]
  split <;> exact List.cons_ne_nil _ _

/-- Induction that takes off one piece at a time. -/
@[elab_as_elim]
theorem pieces_induction (d : α) {motive : List α → Prop} (nil : motive [])
    (step : ∀ s, s ≠ [] → motive (s.drop (firstPiece d s).length) → motive s) (s : List α) :
    motive s := by
  by_cases hs : s = []
  · rw [hs]
    exact nil
  · exact step s hs (pieces_induction d nil step _)
termination_by s.length
decreasing_by
  have hpos := List.length_pos_iff.mpr (firstPiece_ne_nil (d := d) hs)
  have hspos := List.length_pos_iff.mpr hs
  rw [List.length_drop]
  omega

/-- The first piece, and the pieces of the rest. -/
theorem pieces_eq_cons (h : s ≠ []) :
    pieces d s = firstPiece d s :: pieces d (s.drop (firstPiece d s).length) := by
  induction s with
  | nil => exact absurd rfl h
  | cons c s ih =>
    rw [pieces, firstPiece]
    by_cases hc : c = d
    · rw [if_pos hc, if_pos hc]
      rfl
    · rw [if_neg hc, if_neg hc, List.length_cons, List.drop_succ_cons]
      cases s with
      | nil => rfl
      | cons b s => rw [ih (List.cons_ne_nil b s)]

theorem pieces_eq_nil_iff : pieces d s = [] ↔ s = [] := by
  constructor
  · intro h
    by_contra hs
    rw [pieces_eq_cons hs] at h
    cases h
  · rintro rfl
    rfl

/-- The pieces read the list. -/
theorem flatten_pieces (d : α) (s : List α) : (pieces d s).flatten = s := by
  induction s with
  | nil => rfl
  | cons c s ih =>
    rw [pieces]
    split
    · rw [List.flatten_cons, ih, List.singleton_append]
    · cases hp : pieces d s with
      | nil =>
        rw [pieces_eq_nil_iff.mp hp]
        rfl
      | cons p ps =>
        rw [hp, List.flatten_cons] at ih
        dsimp only
        rw [List.flatten_cons, List.cons_append, ih]

theorem notMem_dropLast_firstPiece (d : α) (s : List α) : d ∉ (firstPiece d s).dropLast := by
  induction s with
  | nil => exact List.not_mem_nil
  | cons c s ih =>
    rw [firstPiece]
    split
    · exact List.not_mem_nil
    · rename_i hc
      cases hp : firstPiece d s with
      | nil => exact List.not_mem_nil
      | cons b p =>
        rw [hp] at ih
        rw [List.dropLast_cons_cons, List.mem_cons, not_or]
        exact ⟨fun h => hc h.symm, ih⟩

/-- **The delimiter is only at the end of a piece.** -/
theorem notMem_dropLast_of_mem_pieces {p : List α} (hp : p ∈ pieces d s) : d ∉ p.dropLast := by
  induction s using pieces_induction d with
  | nil => cases hp
  | step s hs ih =>
    rw [pieces_eq_cons hs] at hp
    rcases List.mem_cons.mp hp with rfl | hp
    · exact notMem_dropLast_firstPiece d s
    · exact ih hp

/-- The first piece ends with the delimiter if something is left behind it. -/
theorem getLast?_firstPiece (h : s.drop (firstPiece d s).length ≠ []) :
    (firstPiece d s).getLast? = some d := by
  induction s with
  | nil => exact absurd rfl h
  | cons c s ih =>
    rw [firstPiece] at h ⊢
    by_cases hc : c = d
    · rw [if_pos hc, hc]
      rfl
    · rw [if_neg hc] at h ⊢
      rw [List.length_cons, List.drop_succ_cons] at h
      rw [List.getLast?_cons, ih h]
      rfl

/-- **Every piece but the last ends with the delimiter.** -/
theorem getLast?_of_mem_dropLast_pieces {p : List α} (hp : p ∈ (pieces d s).dropLast) :
    p.getLast? = some d := by
  induction s using pieces_induction d with
  | nil => cases hp
  | step s hs ih =>
    rw [pieces_eq_cons hs] at hp
    by_cases hrest : s.drop (firstPiece d s).length = []
    · rw [hrest] at hp
      cases hp
    · obtain ⟨q, qs, hq⟩ := List.exists_cons_of_ne_nil (mt pieces_eq_nil_iff.mp hrest)
      rw [hq, List.dropLast_cons_cons, ← hq] at hp
      rcases List.mem_cons.mp hp with rfl | hp
      · exact getLast?_firstPiece hrest
      · exact ih hp

end Wpdk
