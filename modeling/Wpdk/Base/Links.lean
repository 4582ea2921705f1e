import Mathlib.Data.Fintype.Defs
import Mathlib.Data.List.Induction
import Mathlib.Data.List.Nodup
import Mathlib.Logic.Equiv.Basic
import Mathlib.Logic.Function.Basic
import Wpdk.Base.Run

/-!
# Lists linked through their elements

The elements of a list carry the links, so that an element is in one list at most, and a list is a
head with the address of its first element.  An address of a forward link is a `Cell`: the one in a
head, or the one in an element.  Lists that can be left at any element keep the address of the link
before it, and lists that grow at the end keep the address of the last link; both are cells.

What is said about the links is said about all lists at once, `a : H → List E`: an element whose
links are written must not be in one of the others.  The lemmas for the operations take the new
links as a function and say what it has to be where; in which order the code gets there does not
matter, and the links of an element that is in no list may be anything.

* `ends`: the cell at the end of a chain.
* `Path`, `Back`: the forward links and the links back along a chain, `path_append`, `back_append`.
* `Owned`: no element is in two places.
* `Forward`, `Backward`, `Tails`: the links of all lists, with a lemma for each operation.
* `Op`, `Op.apply`: the operations on lists without links.
* `walk`, `seek`, `walkSafe`: loops over a list; `walk_of_follows`, `seek_of_follows`,
  `walkSafe_invariant`.
-/

namespace Wpdk
namespace Links

open Run

/-- The address of a forward link. -/
inductive Cell (H E : Type*) where
  | head (h : H)
  | elem (e : E)
deriving DecidableEq

variable {H E : Type*}

theorem head_ne_elem {h : H} {e : E} : (.head h : Cell H E) ≠ .elem e := fun heq => nomatch heq

theorem elem_ne_head {h : H} {e : E} : (.elem e : Cell H E) ≠ .head h := fun heq => nomatch heq

theorem elem_ne_elem {e f : E} (h : e ≠ f) : (.elem e : Cell H E) ≠ .elem f :=
  fun heq => h (Cell.elem.inj heq)

theorem head_ne_head {h h' : H} (hne : h ≠ h') : (.head h : Cell H E) ≠ .head h' :=
  fun heq => hne (Cell.head.inj heq)

/-- The cell behind the last element. -/
def ends : Cell H E → List E → Cell H E
  | c, [] => c
  | _, e :: l => ends (.elem e) l

@[simp] theorem ends_nil (c : Cell H E) : ends c [] = c := rfl

@[simp] theorem ends_cons (c : Cell H E) (e : E) (l : List E) : ends c (e :: l) =
  ends (.elem e) l :=
  rfl

@[simp] theorem ends_append (c : Cell H E) (l l' : List E) :
    ends c (l ++ l') = ends (ends c l) l' := by
  induction l generalizing c with
  | nil => rfl
  | cons e l ih => exact ih (.elem e)

theorem ends_concat (c : Cell H E) (l : List E) (e : E) : ends c (l ++ [e]) = .elem e :=
  ends_append c l [e]

/-- The cell at the end is the one at the beginning, or one of an element. -/
theorem ends_cases (c : Cell H E) (l : List E) :
    (l = [] ∧ ends c l = c) ∨ ∃ e ∈ l, ends c l = .elem e := by
  induction l generalizing c with
  | nil => exact Or.inl ⟨rfl, rfl⟩
  | cons e l ih =>
    rcases ih (.elem e) with ⟨-, h⟩ | ⟨f, hf, h⟩
    · exact Or.inr ⟨e, List.mem_cons_self, h⟩
    · exact Or.inr ⟨f, List.mem_cons_of_mem e hf, h⟩

/-- The last link of a list that has an element does not depend on where it begins. -/
theorem ends_of_ne_nil {l : List E} (hl : l ≠ []) (c c' : Cell H E) : ends c l = ends c' l := by
  cases l with
  | nil => exact absurd rfl hl
  | cons e l => rfl

/-- The element that a forward link is in. -/
def containerof : Cell H E → Option E
  | .elem e => some e
  | .head _ => none

theorem containerof_ends (h : H) (l : List E) :
    containerof (ends (.head h) l) = l.getLast? := by
  cases l using List.reverseRecOn with
  | nil => rfl
  | append_singleton l e =>
    rw [ends_append, List.getLast?_concat]
    rfl

theorem ends_eq_head {h g : H} {l : List E} (heq : ends (.head h) l = .head g) : l = [] := by
  rcases ends_cases (.head h : Cell H E) l with ⟨hl, -⟩ | ⟨e, -, hend⟩
  · exact hl
  · exact absurd (hend.symm.trans heq) elem_ne_head

/-! ## One chain -/

/-- The forward links from a cell over the elements to what is behind them. -/
def Path (next : Cell H E → Option E) : Cell H E → List E → Option E → Prop
  | c, [], r => next c = r
  | c, e :: l, r => next c = some e ∧ Path next (.elem e) l r

/-- The links back along a chain. -/
def Back (prev : E → Cell H E) : Cell H E → List E → Prop
  | _, [] => True
  | c, e :: l => prev e = c ∧ Back prev (.elem e) l

section Chain

variable {next next' : Cell H E → Option E} {prev prev' : E → Cell H E} {c c' : Cell H E}
  {l l' : List E} {r r' : Option E}

theorem Path.next_start (h : Path next c l r) : next c = l.head?.or r := by
  cases l with
  | nil => exact h
  | cons e l => exact h.1

theorem Path.next_ends (h : Path next c l r) : next (ends c l) = r := by
  induction l generalizing c with
  | nil => exact h
  | cons e l ih => exact ih h.2

theorem path_append :
    Path next c (l ++ l') r ↔ Path next c l (l'.head?.or r) ∧ Path next (ends c l) l' r := by
  induction l generalizing c with
  | nil => exact ⟨fun h => ⟨h.next_start, h⟩, fun h => h.2⟩
  | cons e l ih =>
    constructor
    · intro h
      exact ⟨⟨h.1, (ih.mp h.2).1⟩, (ih.mp h.2).2⟩
    · intro h
      exact ⟨h.1.1, ih.mpr ⟨h.1.2, h.2⟩⟩

/-- The links of the elements stay, and the chain may be entered from another cell. -/
theorem Path.move (h : Path next c l r) (hstart : next' c' = l.head?.or r)
    (hsame : ∀ e ∈ l, next' (.elem e) = next (.elem e)) : Path next' c' l r := by
  induction l generalizing c c' with
  | nil => exact hstart
  | cons e l ih =>
    refine ⟨hstart, ih h.2 ?_ fun f hf => hsame f (List.mem_cons_of_mem e hf)⟩
    exact (hsame e List.mem_cons_self).trans h.2.next_start

/-- The last link of a chain is written. -/
theorem Path.relink (h : Path next c l r) (hnodup : (c :: l.map Cell.elem).Nodup)
    (hend : next' (ends c l) = r') (hsame : ∀ x, x ≠ ends c l → x ∈ c :: l.map Cell.elem →
      next' x = next x) : Path next' c l r' := by
  induction l generalizing c with
  | nil => exact hend
  | cons e l ih =>
    obtain ⟨hc, hnodup⟩ := List.nodup_cons.mp hnodup
    refine ⟨?_, ih h.2 hnodup hend fun x hx hmem => hsame x hx (List.mem_cons_of_mem c hmem)⟩
    refine (hsame c (fun heq => hc ?_) List.mem_cons_self).trans h.1
    rw [heq, ends_cons]
    rcases ends_cases (.elem e : Cell H E) l with ⟨-, hl⟩ | ⟨f, hf, hl⟩
    · rw [hl]
      exact List.mem_cons_self
    · rw [hl]
      exact List.mem_cons_of_mem _ (List.mem_map_of_mem hf)

theorem back_append : Back prev c (l ++ l') ↔ Back prev c l ∧ Back prev (ends c l) l' := by
  induction l generalizing c with
  | nil => exact ⟨fun h => ⟨trivial, h⟩, fun h => h.2⟩
  | cons e l ih =>
    constructor
    · intro h
      exact ⟨⟨h.1, (ih.mp h.2).1⟩, (ih.mp h.2).2⟩
    · intro h
      exact ⟨h.1.1, ih.mpr ⟨h.1.2, h.2⟩⟩

/-- The link back of the first element may be another one. -/
theorem Back.move (h : Back prev c l) (hstart : ∀ f, l.head? = some f → prev' f = c')
    (hsame : ∀ e ∈ l, l.head? ≠ some e → prev' e = prev e) (hnodup : l.Nodup) :
    Back prev' c' l := by
  induction l generalizing c c' with
  | nil => trivial
  | cons e l ih =>
    obtain ⟨he, hnodup⟩ := List.nodup_cons.mp hnodup
    have htail : ∀ f ∈ l, prev' f = prev f := fun f hf =>
      hsame f (List.mem_cons_of_mem e hf) fun heq => he (Option.some.inj heq ▸ hf)
    refine ⟨hstart e rfl, ih h.2 (fun f hf => ?_) (fun f hf _ => htail f hf) hnodup⟩
    cases l with
    | nil => cases hf
    | cons g l =>
      rw [← Option.some.inj hf]
      exact (htail g List.mem_cons_self).trans h.2.1

theorem Back.congr (h : Back prev c l) (hsame : ∀ e ∈ l, prev' e = prev e) : Back prev' c l := by
  induction l generalizing c with
  | nil => trivial
  | cons e l ih =>
    exact ⟨(hsame e List.mem_cons_self).trans h.1,
      ih h.2 fun f hf => hsame f (List.mem_cons_of_mem e hf)⟩

end Chain

/-! ## All lists -/

/-- No element is in two places. -/
structure Owned (a : H → List E) : Prop where
  nodup : ∀ h, (a h).Nodup
  unique : ∀ {h h' : H} {e : E}, e ∈ a h → e ∈ a h' → h = h'

/-- The cells of a list. -/
def cells (a : H → List E) (h : H) : List (Cell H E) := .head h :: (a h).map .elem

section Owned

variable {a : H → List E} {h h' : H} {c : Cell H E}

theorem elem_mem_cells {e : E} : .elem e ∈ cells a h ↔ e ∈ a h := by
  unfold cells
  constructor
  · intro he
    rcases List.mem_cons.mp he with he | he
    · cases he
    · obtain ⟨f, hf, hfe⟩ := List.mem_map.mp he
      exact Cell.elem.inj hfe ▸ hf
  · exact fun he => List.mem_cons_of_mem _ (List.mem_map_of_mem he)

theorem head_mem_cells : .head h' ∈ cells a h ↔ h' = h := by
  unfold cells
  constructor
  · intro hh
    rcases List.mem_cons.mp hh with hh | hh
    · exact Cell.head.inj hh
    · obtain ⟨f, -, hf⟩ := List.mem_map.mp hh
      cases hf
  · exact fun hh => hh ▸ List.mem_cons_self

theorem Owned.cells_unique (own : Owned a) (hc : c ∈ cells a h) (hc' : c ∈ cells a h') :
    h = h' := by
  cases c with
  | head g => exact (head_mem_cells.mp hc).symm.trans (head_mem_cells.mp hc')
  | elem e => exact own.unique (elem_mem_cells.mp hc) (elem_mem_cells.mp hc')

theorem ends_mem_cells {l l' : List E} (hl : a h = l ++ l') : ends (.head h) l ∈ cells a h := by
  rcases ends_cases (.head h : Cell H E) l with ⟨-, hend⟩ | ⟨e, he, hend⟩
  · rw [hend]
    exact head_mem_cells.mpr rfl
  · rw [hend, elem_mem_cells, hl]
    exact List.mem_append_left _ he

/-- A cell before a split is none of those behind it. -/
theorem Owned.ends_ne_elem (own : Owned a) {l l' : List E} (hl : a h = l ++ l') {e : E}
    (he : e ∈ l') : ends (.head h) l ≠ .elem e := by
  have hnodup := hl ▸ own.nodup h
  rcases ends_cases (.head h : Cell H E) l with ⟨-, hend⟩ | ⟨f, hf, hend⟩
  · rw [hend]
    exact head_ne_elem
  · rw [hend]
    rintro heq
    exact List.disjoint_of_nodup_append hnodup hf (Cell.elem.inj heq ▸ he)

theorem ends_ne_fresh {l l' : List E} (hl : a h = l ++ l') {e : E} (fresh : e ∉ a h) :
    ends (.head h) l ≠ .elem e :=
  fun heq => fresh (elem_mem_cells.mp (heq ▸ ends_mem_cells hl))

theorem nodup_cells {h : H} {l : List E} (hl : l.Nodup) :
    ((.head h : Cell H E) :: l.map Cell.elem).Nodup := by
  refine List.nodup_cons.mpr ⟨fun hmem => ?_, hl.map fun _ _ heq => Cell.elem.inj heq⟩
  obtain ⟨f, -, hf⟩ := List.mem_map.mp hmem
  cases hf

end Owned

/-- The forward links of all lists. -/
def Forward (next : Cell H E → Option E) (a : H → List E) : Prop :=
  ∀ h, Path next (.head h) (a h) none

/-- The links back of all lists. -/
def Backward (prev : E → Cell H E) (a : H → List E) : Prop := ∀ h, Back prev (.head h) (a h)

/-- The last links of all lists. -/
def Tails (last : H → Cell H E) (a : H → List E) : Prop := ∀ h, last h = ends (.head h) (a h)

section Places

variable {a : H → List E} {next : Cell H E → Option E} {prev : E → Cell H E} {h : H} {e : E}
  {l l' : List E}

theorem Forward.next_ends (fwd : Forward next a) (hl : a h = l ++ l') :
    next (ends (.head h) l) = l'.head? := by
  have hnext := (path_append.mp (hl ▸ fwd h)).1.next_ends
  rwa [Option.or_none] at hnext

theorem Forward.next_head (fwd : Forward next a) (h : H) : next (.head h) = (a h).head? :=
  fwd.next_ends (List.nil_append (a h)).symm

theorem Forward.next_elem (fwd : Forward next a) (hl : a h = l ++ e :: l') :
    next (.elem e) = l'.head? := by
  have hnext := fwd.next_ends (hl.trans (List.append_cons l e l'))
  rwa [ends_append] at hnext

theorem Backward.prev_elem (bwd : Backward prev a) (hl : a h = l ++ e :: l') :
    prev e = ends (.head h) l := by
  have hback := bwd h
  rw [hl] at hback
  exact (back_append.mp hback).2.1

end Places

section Operations

variable [DecidableEq H] {a : H → List E} {next next' : Cell H E → Option E}
  {prev prev' : E → Cell H E} {last last' : H → Cell H E} {h h' : H} {e : E} {l l' : List E}

/-- One list is replaced, and the cells of the others stay. -/
theorem Forward.update (fwd : Forward next a) (hpath : Path next' (.head h) l none)
    (hsame : ∀ g, g ≠ h → ∀ c ∈ cells a g, next' c = next c) :
    Forward next' (Function.update a h l) := by
  intro g
  by_cases hg : g = h
  · subst hg
    rwa [Function.update_self]
  · rw [Function.update_of_ne hg]
    refine (fwd g).move ?_ fun f hf => hsame g hg _ (elem_mem_cells.mpr hf)
    exact (hsame g hg _ (head_mem_cells.mpr rfl)).trans (fwd g).next_start

theorem Backward.update (bwd : Backward prev a) (hback : Back prev' (.head h) l)
    (hsame : ∀ g, g ≠ h → ∀ f ∈ a g, prev' f = prev f) :
    Backward prev' (Function.update a h l) := by
  intro g
  by_cases hg : g = h
  · subst hg
    rwa [Function.update_self]
  · rw [Function.update_of_ne hg]
    exact (bwd g).congr (hsame g hg)

theorem Tails.update (tails : Tails last a) (hlast : last' h = ends (.head h) l)
    (hsame : ∀ g, g ≠ h → last' g = last g) : Tails last' (Function.update a h l) := by
  intro g
  by_cases hg : g = h
  · subst hg
    rwa [Function.update_self]
  · rw [Function.update_of_ne hg, hsame g hg]
    exact tails g

theorem Forward.init (fwd : Forward next a) (hhead : next' (.head h) = none)
    (hsame : ∀ c, c ≠ .head h → next' c = next c) : Forward next' (Function.update a h []) :=
  fwd.update hhead fun _ hg c hc => hsame c fun heq => hg (head_mem_cells.mp (heq ▸ hc)).symm

/-- An element is linked in behind a cell. -/
theorem Forward.insert (fwd : Forward next a) (own : Owned a) (hl : a h = l ++ l')
    (fresh : ∀ g, e ∉ a g) (hcell : next' (ends (.head h) l) = some e)
    (helem : next' (.elem e) = l'.head?)
    (hsame : ∀ c, c ≠ ends (.head h) l → c ≠ .elem e → next' c = next c) :
    Forward next' (Function.update a h (l ++ e :: l')) := by
  obtain ⟨hpath, hpath'⟩ := path_append.mp (hl ▸ fwd h)
  have hnodup : l.Nodup := (List.nodup_append.mp (hl ▸ own.nodup h)).1
  refine fwd.update (path_append.mpr ⟨?_, hcell, ?_⟩) fun _ hg c hc => hsame c ?_ ?_
  · refine hpath.relink (nodup_cells hnodup) hcell fun c hc hmem => hsame c hc fun heq => ?_
    subst heq
    rcases List.mem_cons.mp hmem with hmem | hmem
    · cases hmem
    · obtain ⟨f, hf, hfe⟩ := List.mem_map.mp hmem
      exact fresh h (hl ▸ List.mem_append_left l' (Cell.elem.inj hfe ▸ hf))
  · refine hpath'.move (by rw [helem, Option.or_none]) fun f hf => hsame _ ?_ ?_
    · exact (own.ends_ne_elem hl hf).symm
    · exact fun heq => fresh h (hl ▸ List.mem_append_right l (Cell.elem.inj heq ▸ hf))
  · exact fun heq => hg (own.cells_unique hc (heq ▸ ends_mem_cells hl))
  · exact fun heq => fresh _ (elem_mem_cells.mp (heq ▸ hc))

/-- The same for two writes. -/
theorem Forward.link [DecidableEq E] (fwd : Forward next a) (own : Owned a) (hl : a h = l ++ l')
    (fresh : ∀ g, e ∉ a g) :
    Forward (Function.update (Function.update next (.elem e) l'.head?) (ends (.head h) l) (some e))
      (Function.update a h (l ++ e :: l')) := by
  refine fwd.insert own hl fresh (Function.update_self _ _ _) ?_ fun c hc hc' => ?_
  · rw [Function.update_of_ne (ends_ne_fresh hl (fresh h)).symm, Function.update_self]
  · rw [Function.update_of_ne hc, Function.update_of_ne hc']

theorem Backward.insert (bwd : Backward prev a) (own : Owned a) (hl : a h = l ++ l')
    (fresh : ∀ g, e ∉ a g) (helem : prev' e = ends (.head h) l)
    (hnext : ∀ f, l'.head? = some f → prev' f = .elem e)
    (hsame : ∀ x, x ≠ e → l'.head? ≠ some x → prev' x = prev x) :
    Backward prev' (Function.update a h (l ++ e :: l')) := by
  obtain ⟨hback, hback'⟩ := back_append.mp (hl ▸ bwd h)
  have hnodup := hl ▸ own.nodup h
  have hne : ∀ {g x}, x ∈ a g → x ≠ e := fun hx heq => fresh _ (heq ▸ hx)
  refine bwd.update (back_append.mpr ⟨?_, helem, ?_⟩) fun g hg x hx => hsame x
    (hne hx) fun heq => ?_
  · refine hback.congr fun x hx => hsame x (hne (hl ▸ List.mem_append_left l' hx)) fun heq => ?_
    exact List.disjoint_of_nodup_append hnodup hx (List.mem_of_head? heq)
  · refine hback'.move hnext (fun x hx hhead => ?_) (List.nodup_append.mp hnodup).2.1
    exact hsame x (hne (hl ▸ List.mem_append_right l hx)) hhead
  · exact hg (own.unique hx (hl ▸ List.mem_append_right l (List.mem_of_head? heq)))

/-- An element is linked out.  Nothing is said about its own links. -/
theorem Forward.remove (fwd : Forward next a) (own : Owned a) (hl : a h = l ++ e :: l')
    (hcell : next' (ends (.head h) l) = l'.head?)
    (hsame : ∀ c, c ≠ ends (.head h) l → c ≠ .elem e → next' c = next c) :
    Forward next' (Function.update a h (l ++ l')) := by
  obtain ⟨hpath, -, hpath'⟩ := path_append.mp (hl ▸ fwd h)
  have hnodup := hl ▸ own.nodup h
  refine fwd.update (path_append.mpr ⟨?_, ?_⟩) fun _ hg c hc => hsame c ?_ ?_
  · refine hpath.relink (nodup_cells (List.nodup_append.mp hnodup).1) ?_ fun c hc hmem =>
      hsame c hc fun heq => ?_
    · rw [hcell, Option.or_none]
    · subst heq
      rcases List.mem_cons.mp hmem with hmem | hmem
      · cases hmem
      · obtain ⟨f, hf, hfe⟩ := List.mem_map.mp hmem
        exact List.disjoint_of_nodup_append hnodup (Cell.elem.inj hfe ▸ hf) List.mem_cons_self
  · refine hpath'.move (by rw [hcell, Option.or_none]) fun f hf => hsame _ ?_ ?_
    · exact (own.ends_ne_elem hl (List.mem_cons_of_mem e hf)).symm
    · intro heq
      have hcons := (List.nodup_append.mp hnodup).2.1
      exact (List.nodup_cons.mp hcons).1 (Cell.elem.inj heq ▸ hf)
  · exact fun heq => hg (own.cells_unique hc (heq ▸ ends_mem_cells hl))
  · intro heq
    have he : e ∈ a h := hl ▸ List.mem_append_right l List.mem_cons_self
    exact hg (own.unique (elem_mem_cells.mp (heq ▸ hc)) he)

/-- The same for one write. -/
theorem Forward.unlink [DecidableEq E] (fwd : Forward next a) (own : Owned a)
    (hl : a h = l ++ e :: l') :
    Forward (Function.update next (ends (.head h) l) l'.head?)
      (Function.update a h (l ++ l')) :=
  fwd.remove own hl (Function.update_self _ _ _) fun _ hc _ => Function.update_of_ne hc _ _

theorem Backward.remove (bwd : Backward prev a) (own : Owned a) (hl : a h = l ++ e :: l')
    (hnext : ∀ f, l'.head? = some f → prev' f = ends (.head h) l)
    (hsame : ∀ x, x ≠ e → l'.head? ≠ some x → prev' x = prev x) :
    Backward prev' (Function.update a h (l ++ l')) := by
  obtain ⟨hback, -, hback'⟩ := back_append.mp (hl ▸ bwd h)
  have hnodup := hl ▸ own.nodup h
  obtain ⟨he, hnodup'⟩ := List.nodup_cons.mp (List.nodup_append.mp hnodup).2.1
  have hbehind : ∀ {x}, l'.head? = some x → x ∈ e :: l' := fun hx =>
    List.mem_cons_of_mem e (List.mem_of_head? hx)
  refine bwd.update (back_append.mpr ⟨?_, ?_⟩) fun g hg x hx => hsame x ?_ fun heq => ?_
  · refine hback.congr fun x hx => hsame x (fun heq => ?_) fun heq => ?_
    · exact List.disjoint_of_nodup_append hnodup hx (heq ▸ List.mem_cons_self)
    · exact List.disjoint_of_nodup_append hnodup hx (hbehind heq)
  · refine hback'.move hnext (fun x hx hhead => hsame x (fun heq => he (heq ▸ hx)) hhead) hnodup'
  · rintro rfl
    exact hg (own.unique hx (hl ▸ List.mem_append_right l List.mem_cons_self))
  · exact hg (own.unique hx (hl ▸ List.mem_append_right l (hbehind heq)))

/-- The elements of one list are moved behind those of another. -/
theorem Forward.concat (fwd : Forward next a) (own : Owned a) (hne : h ≠ h')
    (hcell : next' (ends (.head h) (a h)) = (a h').head?) (hhead : next' (.head h') = none)
    (hsame : ∀ c, c ≠ ends (.head h) (a h) → c ≠ .head h' → next' c = next c) :
    Forward next' (Function.update (Function.update a h (a h ++ a h')) h' []) := by
  have hend : ends (.head h) (a h) ∈ cells a h := ends_mem_cells (List.append_nil _).symm
  intro g
  by_cases hg' : g = h'
  · subst hg'
    rwa [Function.update_self]
  rw [Function.update_of_ne hg']
  by_cases hg : g = h
  · subst hg
    rw [Function.update_self]
    refine path_append.mpr ⟨?_, ?_⟩
    · refine (fwd g).relink (nodup_cells (own.nodup g)) ?_ fun c hc hmem => hsame c hc fun heq => ?_
      · rw [hcell, Option.or_none]
      · exact hne (head_mem_cells.mp (heq ▸ hmem)).symm
    · refine (fwd h').move (by rw [hcell, Option.or_none]) fun f hf => hsame _ (fun heq => ?_) ?_
      · exact hne (own.cells_unique hend (heq ▸ elem_mem_cells.mpr hf))
      · exact elem_ne_head
  · rw [Function.update_of_ne hg]
    have hcells : ∀ c ∈ cells a g, next' c = next c := fun c hc => hsame c
      (fun heq => hg (own.cells_unique hc (heq ▸ hend)))
      (fun heq => hg' (head_mem_cells.mp (heq ▸ hc)).symm)
    refine (fwd g).move ?_ fun f hf => hcells _ (elem_mem_cells.mpr hf)
    exact (hcells _ (head_mem_cells.mpr rfl)).trans (fwd g).next_start

theorem Backward.concat (bwd : Backward prev a) (own : Owned a) (hne : h ≠ h')
    (hfirst : ∀ f, (a h').head? = some f → prev' f = ends (.head h) (a h))
    (hsame : ∀ x, (a h').head? ≠ some x → prev' x = prev x) :
    Backward prev' (Function.update (Function.update a h (a h ++ a h')) h' []) := by
  have hother : ∀ {g x}, g ≠ h' → x ∈ a g → prev' x = prev x := fun hg hx =>
    hsame _ fun heq => hg (own.unique hx (List.mem_of_head? heq))
  intro g
  by_cases hg' : g = h'
  · subst hg'
    rw [Function.update_self]
    trivial
  rw [Function.update_of_ne hg']
  by_cases hg : g = h
  · subst hg
    rw [Function.update_self]
    refine back_append.mpr ⟨(bwd g).congr fun x hx => hother hne hx, ?_⟩
    exact (bwd h').move hfirst (fun x _ => hsame x) (own.nodup h')
  · rw [Function.update_of_ne hg]
    exact (bwd g).congr fun x hx => hother hg' hx

theorem Tails.concat (tails : Tails last a) (hl : a h' ≠ []) (hlast : last' h = last h')
    (hhead : last' h' = .head h') (hsame : ∀ g, g ≠ h → g ≠ h' → last' g = last g) :
    Tails last' (Function.update (Function.update a h (a h ++ a h')) h' []) := by
  intro g
  by_cases hg' : g = h'
  · subst hg'
    rwa [Function.update_self]
  rw [Function.update_of_ne hg']
  by_cases hg : g = h
  · subst hg
    rw [Function.update_self, ends_append, ends_of_ne_nil hl _ (.head h'), hlast]
    exact tails h'
  · rw [Function.update_of_ne hg, hsame g hg hg']
    exact tails g

/-- Two heads change their lists. -/
theorem Forward.swap (fwd : Forward next a) (hh : next' (.head h) = next (.head h'))
    (hh' : next' (.head h') = next (.head h))
    (hsame : ∀ c, c ≠ .head h → c ≠ .head h' → next' c = next c) :
    Forward next' (Function.update (Function.update a h (a h')) h' (a h)) := by
  have helem : ∀ f, next' (.elem f) = next (.elem f) := fun f =>
    hsame _ elem_ne_head elem_ne_head
  intro g
  by_cases hg' : g = h'
  · subst hg'
    rw [Function.update_self]
    exact (fwd h).move (hh'.trans (fwd h).next_start) fun f _ => helem f
  rw [Function.update_of_ne hg']
  by_cases hg : g = h
  · subst hg
    rw [Function.update_self]
    exact (fwd h').move (hh.trans (fwd h').next_start) fun f _ => helem f
  · rw [Function.update_of_ne hg]
    refine (fwd g).move ?_ fun f _ => helem f
    refine (hsame _ ?_ ?_).trans (fwd g).next_start
    · exact head_ne_head hg
    · exact head_ne_head hg'

theorem Backward.swap (bwd : Backward prev a) (own : Owned a)
    (hfirst : ∀ f, (a h).head? = some f → prev' f = .head h')
    (hfirst' : ∀ f, (a h').head? = some f → prev' f = .head h)
    (hsame : ∀ x, (a h).head? ≠ some x → (a h').head? ≠ some x → prev' x = prev x) :
    Backward prev' (Function.update (Function.update a h (a h')) h' (a h)) := by
  have hrest : ∀ {g x}, x ∈ a g → (a g).head? ≠ some x → prev' x = prev x := by
    intro g x hx hhead
    refine hsame x (fun heq => ?_) fun heq => ?_
    · exact hhead (own.unique (List.mem_of_head? heq) hx ▸ heq)
    · exact hhead (own.unique (List.mem_of_head? heq) hx ▸ heq)
  intro g
  by_cases hg' : g = h'
  · subst hg'
    rw [Function.update_self]
    exact (bwd h).move hfirst (fun x hx hhead => hrest hx hhead) (own.nodup h)
  rw [Function.update_of_ne hg']
  by_cases hg : g = h
  · subst hg
    rw [Function.update_self]
    exact (bwd h').move hfirst' (fun x hx hhead => hrest hx hhead) (own.nodup h')
  · rw [Function.update_of_ne hg]
    refine (bwd g).congr fun x hx => hsame x (fun heq => ?_) fun heq => ?_
    · exact hg (own.unique hx (List.mem_of_head? heq))
    · exact hg' (own.unique hx (List.mem_of_head? heq))

theorem Tails.swap (tails : Tails last a) (hnil : a h' = [] → last' h = .head h)
    (hcons : a h' ≠ [] → last' h = last h') (hnil' : a h = [] → last' h' = .head h')
    (hcons' : a h ≠ [] → last' h' = last h) (hsame : ∀ g, g ≠ h → g ≠ h' → last' g = last g) :
    Tails last' (Function.update (Function.update a h (a h')) h' (a h)) := by
  intro g
  by_cases hg' : g = h'
  · subst hg'
    rw [Function.update_self]
    by_cases hl : a h = []
    · rw [hl]
      exact hnil' hl
    · rw [hcons' hl, ends_of_ne_nil hl _ (.head h)]
      exact tails h
  rw [Function.update_of_ne hg']
  by_cases hg : g = h
  · subst hg
    rw [Function.update_self]
    by_cases hl : a h' = []
    · rw [hl]
      exact hnil hl
    · rw [hcons hl, ends_of_ne_nil hl _ (.head h')]
      exact tails h'
  · rw [Function.update_of_ne hg, hsame g hg hg']
    exact tails g

end Operations

/-! ## Lists without links -/

/-- A list is changed from an element on. -/
def edit [DecidableEq E] (f : E) (g : List E → List E) : List E → List E
  | [] => []
  | x :: l => if x = f then g l else x :: edit f g l

theorem edit_append [DecidableEq E] {f : E} {l : List E} (hf : f ∉ l) (g : List E → List E)
    (l' : List E) : edit f g (l ++ f :: l') = l ++ g l' := by
  induction l with
  | nil => exact if_pos rfl
  | cons x l ih =>
    have hx : x ≠ f := fun heq => hf (heq ▸ List.mem_cons_self)
    have hl : f ∉ l := fun hmem => hf (List.mem_cons_of_mem x hmem)
    exact (if_neg hx).trans (congrArg (x :: ·) (ih hl))

/-- The operations.  `h` is the list of the element that is named, also where the code is not told
which one it is. -/
inductive Op (H E : Type*) where
  | init (h : H)
  | insertHead (h : H) (e : E)
  | insertTail (h : H) (e : E)
  | insertAfter (h : H) (f e : E)
  | insertBefore (h : H) (f e : E)
  | remove (h : H) (e : E)
  | removeHead (h : H)
  | removeAfter (h : H) (f : E)
  | concat (h h' : H)
  | swap (h h' : H)

/-- What an operation does, if it may be called: an element that is put in is in no list, one that
is named is in its list, and a list is not put behind itself. -/
def Op.apply [Fintype H] [DecidableEq H] [DecidableEq E] (a : H → List E) :
    Op H E → Option (H → List E)
  | .init h => some (Function.update a h [])
  | .insertHead h e =>
    if ∀ g, e ∉ a g then some (Function.update a h (e :: a h)) else none
  | .insertTail h e =>
    if ∀ g, e ∉ a g then some (Function.update a h (a h ++ [e])) else none
  | .insertAfter h f e =>
    if f ∈ a h ∧ ∀ g, e ∉ a g then some (Function.update a h (edit f (f :: e :: ·) (a h))) else none
  | .insertBefore h f e =>
    if f ∈ a h ∧ ∀ g, e ∉ a g then some (Function.update a h (edit f (e :: f :: ·) (a h))) else none
  | .remove h e => if e ∈ a h then some (Function.update a h ((a h).erase e)) else none
  | .removeHead h => if a h ≠ [] then some (Function.update a h (a h).tail) else none
  | .removeAfter h f =>
    if f ∈ a h ∧ (a h).getLast? ≠ some f then
      some (Function.update a h (edit f (f :: ·.tail) (a h)))
    else none
  | .concat h h' =>
    if h ≠ h' then some (Function.update (Function.update a h (a h ++ a h')) h' []) else none
  | .swap h h' => some (Function.update (Function.update a h (a h')) h' (a h))

/-- The same with the lists taken apart. -/
inductive Step [DecidableEq H] (a : H → List E) : Op H E → (H → List E) → Prop
  | init (h : H) : Step a (.init h) (Function.update a h [])
  | insertHead (h : H) (e : E) (fresh : ∀ g, e ∉ a g) :
    Step a (.insertHead h e) (Function.update a h (e :: a h))
  | insertTail (h : H) (e : E) (fresh : ∀ g, e ∉ a g) :
    Step a (.insertTail h e) (Function.update a h (a h ++ [e]))
  | insertAfter (h : H) (l : List E) (f e : E) (l' : List E) (hl : a h = l ++ f :: l')
    (fresh : ∀ g, e ∉ a g) : Step a (.insertAfter h f e) (Function.update a h (l ++ f :: e :: l'))
  | insertBefore (h : H) (l : List E) (f e : E) (l' : List E) (hl : a h = l ++ f :: l')
    (fresh : ∀ g, e ∉ a g) : Step a (.insertBefore h f e) (Function.update a h (l ++ e :: f :: l'))
  | remove (h : H) (l : List E) (e : E) (l' : List E) (hl : a h = l ++ e :: l') :
    Step a (.remove h e) (Function.update a h (l ++ l'))
  | removeHead (h : H) (e : E) (l : List E) (hl : a h = e :: l) :
    Step a (.removeHead h) (Function.update a h l)
  | removeAfter (h : H) (l : List E) (f e : E) (l' : List E) (hl : a h = l ++ f :: e :: l') :
    Step a (.removeAfter h f) (Function.update a h (l ++ f :: l'))
  | concat (h h' : H) (hne : h ≠ h') :
    Step a (.concat h h') (Function.update (Function.update a h (a h ++ a h')) h' [])
  | swap (h h' : H) :
    Step a (.swap h h') (Function.update (Function.update a h (a h')) h' (a h))

/-- An element of a list, and what is before and behind it. -/
theorem Owned.split {a : H → List E} (own : Owned a) {h : H} {e : E} (he : e ∈ a h) :
    ∃ l l', a h = l ++ e :: l' ∧ e ∉ l := by
  obtain ⟨l, l', hl⟩ := List.append_of_mem he
  refine ⟨l, l', hl, fun hmem => ?_⟩
  exact List.disjoint_of_nodup_append (hl ▸ own.nodup h) hmem List.mem_cons_self

theorem Op.step_of_apply [Fintype H] [DecidableEq H] [DecidableEq E] {a a' : H → List E}
    (own : Owned a) {op : Op H E} (happly : op.apply a = some a') : Step a op a' := by
  cases op with
  | init h =>
    cases happly
    exact .init h
  | insertHead h e =>
    obtain ⟨fresh, heq⟩ := Option.ite_none_right_eq_some.mp happly
    cases heq
    exact .insertHead h e fresh
  | insertTail h e =>
    obtain ⟨fresh, heq⟩ := Option.ite_none_right_eq_some.mp happly
    cases heq
    exact .insertTail h e fresh
  | insertAfter h f e =>
    obtain ⟨⟨hf, fresh⟩, heq⟩ := Option.ite_none_right_eq_some.mp happly
    obtain ⟨l, l', hl, hmem⟩ := own.split hf
    rw [hl, edit_append hmem] at heq
    cases heq
    exact .insertAfter h l f e l' hl fresh
  | insertBefore h f e =>
    obtain ⟨⟨hf, fresh⟩, heq⟩ := Option.ite_none_right_eq_some.mp happly
    obtain ⟨l, l', hl, hmem⟩ := own.split hf
    rw [hl, edit_append hmem] at heq
    cases heq
    exact .insertBefore h l f e l' hl fresh
  | remove h e =>
    obtain ⟨he, heq⟩ := Option.ite_none_right_eq_some.mp happly
    obtain ⟨l, l', hl, hmem⟩ := own.split he
    rw [hl, List.erase_append_right _ hmem, List.erase_cons_head] at heq
    cases heq
    exact .remove h l e l' hl
  | removeHead h =>
    obtain ⟨hne, heq⟩ := Option.ite_none_right_eq_some.mp happly
    obtain ⟨e, l, hl⟩ := List.exists_cons_of_ne_nil hne
    rw [hl, List.tail_cons] at heq
    cases heq
    exact .removeHead h e l hl
  | removeAfter h f =>
    obtain ⟨⟨hf, hlast⟩, heq⟩ := Option.ite_none_right_eq_some.mp happly
    obtain ⟨l, l', hl, hmem⟩ := own.split hf
    cases l' with
    | nil =>
      rw [hl, List.getLast?_concat] at hlast
      exact absurd rfl hlast
    | cons e l' =>
      rw [hl, edit_append hmem, List.tail_cons] at heq
      cases heq
      exact .removeAfter h l f e l' hl
  | concat h h' =>
    obtain ⟨hne, heq⟩ := Option.ite_none_right_eq_some.mp happly
    cases heq
    exact .concat h h' hne
  | swap h h' =>
    cases happly
    exact .swap h h'

section OwnedStep

variable [DecidableEq H] {a a' : H → List E} {h h' : H} {l : List E}

/-- A list gets elements of its own, in any order, and elements that were in no list. -/
theorem Owned.update (own : Owned a) (hnodup : l.Nodup)
    (hmem : ∀ e ∈ l, e ∈ a h ∨ ∀ g, e ∉ a g) : Owned (Function.update a h l) where
  nodup g := by
    by_cases hg : g = h
    · subst hg
      rwa [Function.update_self]
    · rw [Function.update_of_ne hg]
      exact own.nodup g
  unique {g g' e} he he' := by
    have hold : ∀ x, e ∈ Function.update a h l x → e ∈ a x ∨ x = h ∧ ∀ g, e ∉ a g := by
      intro x hx
      by_cases heq : x = h
      · subst heq
        rw [Function.update_self] at hx
        exact (hmem e hx).imp_right fun hfresh => ⟨rfl, hfresh⟩
      · rw [Function.update_of_ne heq] at hx
        exact Or.inl hx
    rcases hold g he with hg | ⟨hg, hfresh⟩
    · rcases hold g' he' with hg' | ⟨-, hfresh⟩
      · exact own.unique hg hg'
      · exact absurd hg (hfresh g)
    · rcases hold g' he' with hg' | ⟨hg', -⟩
      · exact absurd hg' (hfresh g')
      · exact hg.trans hg'.symm

theorem nodup_insert {l₁ l₂ : List E} {e : E} (hl : (l₁ ++ l₂).Nodup) (he : e ∉ l₁ ++ l₂) :
    (l₁ ++ e :: l₂).Nodup :=
  List.nodup_middle.mpr (List.nodup_cons.mpr ⟨he, hl⟩)

/-- An element that was in no list is put into one. -/
theorem Owned.insert (own : Owned a) {l₁ l₂ : List E} {e : E} (hl : a h = l₁ ++ l₂)
    (fresh : ∀ g, e ∉ a g) : Owned (Function.update a h (l₁ ++ e :: l₂)) := by
  refine own.update (nodup_insert (hl ▸ own.nodup h) (hl ▸ fresh h)) fun x hx => ?_
  rcases List.mem_cons.mp (List.perm_middle.mem_iff.mp hx) with rfl | hx
  · exact Or.inr fresh
  · exact Or.inl (hl ▸ hx)

/-- A part of a list is left. -/
theorem Owned.sublist (own : Owned a) (hl : l.Sublist (a h)) : Owned (Function.update a h l) :=
  own.update ((own.nodup h).sublist hl) fun _ hx => Or.inl (hl.subset hx)

theorem Owned.concat (own : Owned a) (hne : h ≠ h') :
    Owned (Function.update (Function.update a h (a h ++ a h')) h' []) := by
  have hmem : ∀ {g e}, e ∈ Function.update (Function.update a h (a h ++ a h')) h' [] g →
      e ∈ a g ∧ g ≠ h' ∨ g = h ∧ e ∈ a h' := by
    intro g e he
    by_cases hg' : g = h'
    · subst hg'
      rw [Function.update_self] at he
      cases he
    rw [Function.update_of_ne hg'] at he
    by_cases hg : g = h
    · subst hg
      rw [Function.update_self] at he
      exact (List.mem_append.mp he).imp (fun he => ⟨he, hg'⟩) fun he => ⟨rfl, he⟩
    · rw [Function.update_of_ne hg] at he
      exact Or.inl ⟨he, hg'⟩
  constructor
  · intro g
    by_cases hg' : g = h'
    · subst hg'
      rw [Function.update_self]
      exact List.nodup_nil
    rw [Function.update_of_ne hg']
    by_cases hg : g = h
    · subst hg
      rw [Function.update_self]
      exact List.nodup_append'.mpr ⟨own.nodup g, own.nodup h', fun _ he he' =>
        hne (own.unique he he')⟩
    · rw [Function.update_of_ne hg]
      exact own.nodup g
  · intro g g' e he he'
    rcases hmem he with ⟨hg, hgne⟩ | ⟨hg, heh⟩
    · rcases hmem he' with ⟨hg', -⟩ | ⟨-, heh'⟩
      · exact own.unique hg hg'
      · exact absurd (own.unique hg heh') hgne
    · rcases hmem he' with ⟨hg', hgne'⟩ | ⟨hg', -⟩
      · exact absurd (own.unique hg' heh) hgne'
      · exact hg.trans hg'.symm

theorem Owned.swap (own : Owned a) :
    Owned (Function.update (Function.update a h (a h')) h' (a h)) := by
  have hswap : Function.update (Function.update a h (a h')) h' (a h) = a ∘ Equiv.swap h h' := by
    funext g
    by_cases hg' : g = h'
    · subst hg'
      rw [Function.update_self, Function.comp_apply, Equiv.swap_apply_right]
    rw [Function.update_of_ne hg']
    by_cases hg : g = h
    · subst hg
      rw [Function.update_self, Function.comp_apply, Equiv.swap_apply_left]
    · rw [Function.update_of_ne hg, Function.comp_apply, Equiv.swap_apply_of_ne_of_ne hg hg']
  rw [hswap]
  exact ⟨fun g => own.nodup _, fun he he' => (Equiv.swap h h').injective (own.unique he he')⟩

theorem Step.owned {op : Op H E} (hstep : Step a op a') (own : Owned a) : Owned a' := by
  cases hstep with
  | init h => exact own.sublist (List.nil_sublist _)
  | insertHead h e fresh => exact own.insert (List.nil_append _).symm fresh
  | insertTail h e fresh => exact own.insert (List.append_nil _).symm fresh
  | insertAfter h l f e l' hl fresh =>
    rw [List.append_cons]
    exact own.insert (hl.trans (List.append_cons l f l')) fresh
  | insertBefore h l f e l' hl fresh => exact own.insert hl fresh
  | remove h l e l' hl =>
    exact own.sublist (hl ▸ List.Sublist.append_left (List.sublist_cons_self e l') l)
  | removeHead h e l hl => exact own.sublist (hl ▸ List.sublist_cons_self e l)
  | removeAfter h l f e l' hl =>
    refine own.sublist (hl ▸ List.Sublist.append_left ?_ l)
    exact (List.sublist_cons_self e l').cons_cons f
  | concat h h' hne => exact own.concat hne
  | swap h h' => exact own.swap

end OwnedStep

theorem owned_nil : Owned (fun _ : H => ([] : List E)) :=
  ⟨fun _ => List.nodup_nil, fun he => nomatch he⟩

/-! ## Loops over a list -/

/-- A loop that goes from an element to the next until there is none. -/
def walk (next : E → Option E) : ℕ → Option E → Option (List E)
  | 0, _ => none
  | _ + 1, none => some []
  | n + 1, some e => (walk next n (next e)).map (e :: ·)

/-- The elements that such a loop comes to. -/
def Follows (next : E → Option E) : Option E → List E → Prop
  | v, [] => v = none
  | v, e :: l => v = some e ∧ Follows next (next e) l

theorem walk_of_follows {next : E → Option E} {v : Option E} {l : List E} {n : ℕ}
    (h : Follows next v l) (hn : l.length < n) : walk next n v = some l := by
  induction l generalizing v n with
  | nil =>
    obtain ⟨n, rfl⟩ := Nat.exists_eq_add_one_of_ne_zero (Nat.ne_zero_of_lt hn)
    rw [show v = none from h]
    rfl
  | cons e l ih =>
    obtain ⟨n, rfl⟩ := Nat.exists_eq_add_one_of_ne_zero (Nat.ne_zero_of_lt hn)
    rw [h.1, walk, ih h.2 (Nat.lt_of_succ_lt_succ hn)]
    rfl

theorem Path.follows {next : Cell H E → Option E} {c : Cell H E} {l : List E}
    (h : Path next c l none) : Follows (fun e => next (.elem e)) (next c) l := by
  induction l generalizing c with
  | nil => exact h
  | cons e l ih => exact ⟨h.1, ih h.2⟩

theorem Forward.follows {next : Cell H E → Option E} {a : H → List E} (fwd : Forward next a)
    (h : H) :
    Follows (fun e => next (.elem e)) (next (.head h)) (a h) :=
  (fwd h).follows

theorem Forward.follows_from {next : Cell H E → Option E} {a : H → List E} (fwd : Forward next a)
    {h : H} {l l' : List E} {e : E} (hl : a h = l ++ e :: l') :
    Follows (fun e => next (.elem e)) (some e) (e :: l') := by
  have hpath := fwd h
  rw [hl, path_append] at hpath
  exact ⟨rfl, hpath.2.2.follows⟩

/-- A loop that goes on to the first element that is looked for; there must be one. -/
def seek (next : E → Option E) (stop : E → Bool) : ℕ → Option E → Option E
  | 0, _ => none
  | _ + 1, none => none
  | n + 1, some e => if stop e then some e else seek next stop n (next e)

theorem seek_of_follows {next : E → Option E} {stop : E → Bool} {v : Option E} {l l' : List E}
    {e : E}
    {n : ℕ} (h : Follows next v (l ++ e :: l')) (hl : ∀ x ∈ l, stop x = false) (he : stop e = true)
    (hn : l.length < n) : seek next stop n v = some e := by
  induction l generalizing v n with
  | nil =>
    obtain ⟨n, rfl⟩ := Nat.exists_eq_add_one_of_ne_zero (Nat.ne_zero_of_lt hn)
    rw [h.1, seek, if_pos he]
  | cons x l ih =>
    obtain ⟨n, rfl⟩ := Nat.exists_eq_add_one_of_ne_zero (Nat.ne_zero_of_lt hn)
    have hx : ¬ stop x = true := by
      rw [hl x List.mem_cons_self]
      exact Bool.false_ne_true
    rw [h.1, seek, if_neg hx]
    exact ih h.2 (fun y hy => hl y (List.mem_cons_of_mem x hy)) (Nat.lt_of_succ_lt_succ hn)

section Seek

variable {next : Cell H E → Option E} {a : H → List E} {h : H} {l l' : List E} {f e : E} {n : ℕ}

/-- The first element is none of those behind another one. -/
theorem Forward.next_head_ne (fwd : Forward next a) (own : Owned a) (hl : a h = l ++ f :: e :: l') :
    next (.head h) ≠ some e := by
  intro heq
  have hhead : (a h).head? = some e := (fwd.next_head h).symm.trans heq
  have hnodup := own.nodup h
  rw [hl] at hhead hnodup
  cases l with
  | nil =>
    rw [List.nil_append, List.head?_cons, Option.some.injEq] at hhead
    exact (List.nodup_cons.mp hnodup).1 (hhead ▸ List.mem_cons_self)
  | cons x l =>
    rw [List.cons_append, List.head?_cons, Option.some.injEq] at hhead
    refine (List.nodup_cons.mp hnodup).1 (hhead ▸ ?_)
    exact List.mem_append_right l (List.mem_cons_of_mem f List.mem_cons_self)

/-- The element before another one is found. -/
theorem Forward.seek_before [DecidableEq E] (fwd : Forward next a) (own : Owned a)
    (hl : a h = l ++ f :: e :: l') (hn : l.length < n) :
    seek (fun x => next (.elem x)) (fun x => next (.elem x) == some e) n (next (.head h)) =
      some f := by
  have hfollows := fwd.follows h
  rw [hl] at hfollows
  refine seek_of_follows hfollows (fun x hx => ?_) ?_ hn
  · -- what is behind `x` is before `e`
    obtain ⟨l₁, l₂, rfl⟩ := List.append_of_mem hx
    have hsplit : a h = l₁ ++ x :: (l₂ ++ f :: e :: l') := by
      rw [hl, List.append_assoc, List.cons_append]
    have hnodup := (List.nodup_append.mp (hsplit ▸ own.nodup h)).2.1
    rw [beq_eq_false_iff_ne]
    refine fun heq => List.disjoint_of_nodup_append (List.nodup_cons.mp hnodup).2 ?_
      (List.mem_cons_of_mem f List.mem_cons_self)
    have hnext := (fwd.next_elem hsplit).symm.trans heq
    cases l₂ with
    | nil =>
      rw [List.nil_append, List.head?_cons, Option.some.injEq] at hnext
      rw [hnext] at hnodup
      exact absurd List.mem_cons_self (List.nodup_cons.mp (List.nodup_cons.mp hnodup).2).1
    | cons y l₂ =>
      rw [List.cons_append, List.head?_cons, Option.some.injEq] at hnext
      exact hnext ▸ List.mem_cons_self
  · rw [beq_iff_eq]
    exact fwd.next_elem hl

/-- The last element is found. -/
theorem Forward.seek_last (fwd : Forward next a) (hl : a h = l ++ [f]) (hn : l.length < n) :
    seek (fun x => next (.elem x)) (fun x => (next (.elem x)).isNone) n (next (.head h)) =
      some f := by
  have hfollows := fwd.follows h
  rw [hl] at hfollows
  refine seek_of_follows hfollows (fun x hx => ?_) ?_ hn
  · obtain ⟨l₁, l₂, rfl⟩ := List.append_of_mem hx
    have hsplit : a h = l₁ ++ x :: (l₂ ++ [f]) := by
      rw [hl, List.append_assoc, List.cons_append]
    rw [fwd.next_elem hsplit]
    cases l₂ <;> rfl
  · rw [fwd.next_elem hl]
    rfl

end Seek

/-- A loop that reads the next element before its body runs, with the elements it has visited. -/
def walkSafe {σ : Type*} (next : σ → E → Option E) (body : σ → E → σ) :
    ℕ → Option E → σ → Option (List E × σ)
  | 0, _, _ => none
  | _ + 1, none, s => some ([], s)
  | n + 1, some e, s =>
    (walkSafe next body n (next s e) (body s e)).map fun (visited, s') => (e :: visited, s')

/-- **The loop rule**: the invariant speaks of what has been visited and of what is left. -/
theorem walkSafe_invariant {σ : Type*} {next : σ → E → Option E} {body : σ → E → σ}
    (I : List E → List E → σ → Prop)
    (hbody : ∀ past e rest s, I past (e :: rest) s →
      next s e = rest.head? ∧ I (past ++ [e]) rest (body s e))
    {past rest : List E} {s : σ} (h : I past rest s) :
    ∃ s', (∀ n, rest.length < n → walkSafe next body n rest.head? s = some (rest, s')) ∧
      I (past ++ rest) [] s' := by
  induction rest generalizing past s with
  | nil =>
    refine ⟨s, fun n hn => ?_, (List.append_nil past).symm ▸ h⟩
    obtain ⟨n, rfl⟩ := Nat.exists_eq_add_one_of_ne_zero (Nat.ne_zero_of_lt hn)
    rfl
  | cons e rest ih =>
    obtain ⟨hnext, hI⟩ := hbody past e rest s h
    obtain ⟨s', hwalk, hI'⟩ := ih hI
    refine ⟨s', fun n hn => ?_, List.append_cons past e rest ▸ hI'⟩
    obtain ⟨n, rfl⟩ := Nat.exists_eq_add_one_of_ne_zero (Nat.ne_zero_of_lt hn)
    rw [List.head?_cons, walkSafe, hnext, hwalk n (Nat.lt_of_succ_lt_succ hn), Option.map_some]

end Links
end Wpdk
