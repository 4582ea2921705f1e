import Mathlib.Data.List.Induction
import Mathlib.Logic.Function.Basic
import Wpdk.Base.Links

/-!
# Tail queues

`TAILQ_*` of `sys/queue.h`.  A head has `tqh_first` and `tqh_last`, an element has `tqe_next` and
`tqe_prev`.  `tqh_last` and `tqe_prev` are addresses of forward links, and `TAILQ_LAST` and
`TAILQ_PREV` read them as addresses of heads: an element has its link back where a head has
`tqh_last`.  The memory here has the same: `next` is `tqh_first` or `tqe_next`, and `back` is
`tqh_last` or `tqe_prev`, by the cell.

The links of an element that has not been put into a queue are whatever was in memory, and those of
an element that has been taken out are what they were.

* `Memory`, and the macros.
* `Memory.link`, `Memory.unlink`: what the four insertions and the removal come to.
* `Represents`: the links of all queues; `represents_step`: one macro.
* `Reads`: what the macros that only read give; `Represents.reads`.
* `tailq_refines_lists`: any sequence of the macros.
* `tailq_foreach_safe_frees`: a loop whose body takes elements out and frees them.
-/

namespace Wpdk
namespace Queue
namespace Tailq

open Run Links

variable {H E : Type*}

/-- The links of all heads and elements. -/
structure Memory (H E : Type*) where
  next : Cell H E → Option E
  back : Cell H E → Cell H E

section Macros

variable [DecidableEq H] [DecidableEq E] (m : Memory H E)

/-- A forward link is written. -/
def Memory.setNext (c : Cell H E) (v : Option E) : Memory H E :=
  { m with next := Function.update m.next c v }

/-- A link back is written. -/
def Memory.setBack (c : Cell H E) (v : Cell H E) : Memory H E :=
  { m with back := Function.update m.back c v }

/-- Who has the link back to the cell before `v`: the element, or the head if there is none. -/
def behind (h : H) (v : Option E) : Cell H E := v.elim (.head h) .elem

/-- `TAILQ_FIRST`. -/
def first (h : H) : Option E := m.next (.head h)

/-- `TAILQ_EMPTY`. -/
def empty (h : H) : Bool := (first m h).isNone

/-- `TAILQ_NEXT`. -/
def next (e : E) : Option E := m.next (.elem e)

/-- `TAILQ_LAST`; the cell at the end is read as a head. -/
def last (h : H) : Option E := m.next (m.back (m.back (.head h)))

/-- `TAILQ_LAST_FAST`. -/
def lastFast (h : H) : Option E := if empty m h then none else containerof (m.back (.head h))

/-- `TAILQ_PREV`; the cell before the element is read as a head. -/
def prev (e : E) : Option E := m.next (m.back (m.back (.elem e)))

/-- `TAILQ_PREV_FAST`. -/
def prevFast (e : E) (h : H) : Option E :=
  if m.back (.elem e) = .head h then none else containerof (m.back (.elem e))

/-- `TAILQ_INIT`. -/
def init (h : H) : Memory H E := (m.setNext (.head h) none).setBack (.head h) (.head h)

/-- `TAILQ_INSERT_HEAD`. -/
def insertHead (h : H) (e : E) : Memory H E :=
  let m := m.setNext (.elem e) (m.next (.head h))
  let m := m.setBack (behind h (m.next (.elem e))) (.elem e)
  let m := m.setNext (.head h) (some e)
  m.setBack (.elem e) (.head h)

/-- `TAILQ_INSERT_TAIL`. -/
def insertTail (h : H) (e : E) : Memory H E :=
  let m := m.setNext (.elem e) none
  let m := m.setBack (.elem e) (m.back (.head h))
  let m := m.setNext (m.back (.head h)) (some e)
  m.setBack (.head h) (.elem e)

/-- `TAILQ_INSERT_AFTER`. -/
def insertAfter (h : H) (f e : E) : Memory H E :=
  let m := m.setNext (.elem e) (m.next (.elem f))
  let m := m.setBack (behind h (m.next (.elem e))) (.elem e)
  let m := m.setNext (.elem f) (some e)
  m.setBack (.elem e) (.elem f)

/-- `TAILQ_INSERT_BEFORE`. -/
def insertBefore (f e : E) : Memory H E :=
  let m := m.setBack (.elem e) (m.back (.elem f))
  let m := m.setNext (.elem e) (some f)
  let m := m.setNext (m.back (.elem f)) (some e)
  m.setBack (.elem f) (.elem e)

/-- `TAILQ_REMOVE`. -/
def remove (h : H) (e : E) : Memory H E :=
  let m := m.setBack (behind h (m.next (.elem e))) (m.back (.elem e))
  m.setNext (m.back (.elem e)) (m.next (.elem e))

/-- `TAILQ_CONCAT`. -/
def concat (h h' : H) : Memory H E :=
  match m.next (.head h') with
  | none => m
  | some f =>
    let m := m.setNext (m.back (.head h)) (some f)
    let m := m.setBack (.elem f) (m.back (.head h))
    let m := m.setBack (.head h) (m.back (.head h'))
    init m h'

/-- `TAILQ_SWAP`. -/
def swap (h h' : H) : Memory H E :=
  let swapFirst := m.next (.head h)
  let swapLast := m.back (.head h)
  let m := m.setNext (.head h) (m.next (.head h'))
  let m := m.setBack (.head h) (m.back (.head h'))
  let m := m.setNext (.head h') swapFirst
  let m := m.setBack (.head h') swapLast
  let m := m.setBack (behind h (m.next (.head h))) (.head h)
  m.setBack (behind h' (m.next (.head h'))) (.head h')

/-- `TAILQ_FOREACH`, with a bound on the rounds. -/
def foreach (n : ℕ) (h : H) : Option (List E) := walk (next m) n (first m h)

/-- `TAILQ_FOREACH_FROM`. -/
def foreachFrom (n : ℕ) (var : Option E) (h : H) : Option (List E) :=
  walk (next m) n (var.or (first m h))

/-- `TAILQ_FOREACH_REVERSE`. -/
def foreachReverse (n : ℕ) (h : H) : Option (List E) := walk (prev m) n (last m h)

/-- `TAILQ_FOREACH_REVERSE_FROM`. -/
def foreachReverseFrom (n : ℕ) (var : Option E) (h : H) : Option (List E) :=
  walk (prev m) n (var.or (last m h))

/-- `TAILQ_FOREACH_SAFE`, with the elements for which the body is run. -/
def foreachSafe (n : ℕ) (h : H) (body : Memory H E → E → Memory H E) :
    Option (List E × Memory H E) :=
  walkSafe next body n (first m h) m

/-- The macros that write; the two removals that name no element are not available. -/
def step : Op H E → Option (Memory H E)
  | .init h => some (init m h)
  | .insertHead h e => some (insertHead m h e)
  | .insertTail h e => some (insertTail m h e)
  | .insertAfter h f e => some (insertAfter m h f e)
  | .insertBefore _ f e => some (insertBefore m f e)
  | .remove h e => some (remove m h e)
  | .removeHead _ => none
  | .removeAfter _ _ => none
  | .concat h h' => some (concat m h h')
  | .swap h h' => some (swap m h h')

/-- The column of the table of macros. -/
def available : Op H E → Bool
  | .removeHead _ => false
  | .removeAfter _ _ => false
  | _ => true

/-- `TAILQ_HEAD_INITIALIZER`; the links of the elements are not initialised. -/
def Memory.Fresh : Prop := ∀ h, m.next (.head h) = none ∧ m.back (.head h) = .head h

end Macros

/-! ## What the macros come to -/

theorem elem_ne_behind {h : H} {v : Option E} {e : E} (hv : v ≠ some e) :
    (.elem e : Cell H E) ≠ behind h v := by
  cases v with
  | none => exact elem_ne_head
  | some f => exact elem_ne_elem fun heq => hv (congrArg some heq.symm)

theorem head_ne_behind {h g : H} {v : Option E} (hg : g ≠ h) :
    (.head g : Cell H E) ≠ behind h v := by
  cases v with
  | none => exact head_ne_head hg
  | some f => exact head_ne_elem

theorem head_eq_behind {h g : H} {v : Option E} (heq : (.head g : Cell H E) = behind h v) :
    g = h ∧ v = none := by
  cases v with
  | none => exact ⟨Cell.head.inj heq, rfl⟩
  | some f => cases heq

section Forms

variable [DecidableEq H] [DecidableEq E] (m : Memory H E)

/-- An element is linked in between a cell and what is behind it. -/
def Memory.link (h : H) (c : Cell H E) (e : E) (v : Option E) : Memory H E where
  next := Function.update (Function.update m.next (.elem e) v) c (some e)
  back := Function.update (Function.update m.back (behind h v) (.elem e)) (.elem e) c

/-- What is behind a cell is linked to it. -/
def Memory.unlink (h : H) (c : Cell H E) (v : Option E) : Memory H E where
  next := Function.update m.next c v
  back := Function.update m.back (behind h v) c

theorem insertHead_eq_link (h : H) (e : E) :
    insertHead m h e = m.link h (.head h) e (m.next (.head h)) := by
  unfold insertHead Memory.link
  simp only [Memory.setNext, Memory.setBack, Function.update_self]

theorem insertAfter_eq_link (h : H) (f e : E) :
    insertAfter m h f e = m.link h (.elem f) e (m.next (.elem f)) := by
  unfold insertAfter Memory.link
  simp only [Memory.setNext, Memory.setBack, Function.update_self]

theorem insertTail_eq_link (h : H) (e : E) :
    insertTail m h e = m.link h (m.back (.head h)) e none := by
  unfold insertTail Memory.link
  simp only [Memory.setNext, Memory.setBack, Function.update_of_ne head_ne_elem]
  exact congrArg (Memory.mk _) (Function.update_comm head_ne_elem _ _ _).symm

theorem insertBefore_eq_link (h : H) {f e : E} (hne : f ≠ e) :
    insertBefore m f e = m.link h (m.back (.elem f)) e (some f) := by
  unfold insertBefore Memory.link
  simp only [Memory.setNext, Memory.setBack, Function.update_of_ne (elem_ne_elem hne)]
  exact congrArg (Memory.mk _) (Function.update_comm (elem_ne_elem hne) _ _ _).symm

theorem remove_eq_unlink (h : H) {e : E} (hne : m.next (.elem e) ≠ some e) :
    remove m h e = m.unlink h (m.back (.elem e)) (m.next (.elem e)) := by
  unfold remove Memory.unlink
  simp only [Memory.setNext, Memory.setBack]
  rw [Function.update_of_ne (elem_ne_behind hne)]

theorem concat_of_empty {h h' : H} (hf : m.next (.head h') = none) : concat m h h' = m := by
  unfold concat
  rw [hf]

theorem concat_of_first {h h' : H} {f : E} (hf : m.next (.head h') = some f) :
    concat m h h' = {
      next := Function.update (Function.update m.next (m.back (.head h)) (some f)) (.head h') none
      back := Function.update (Function.update (Function.update m.back (.elem f)
        (m.back (.head h))) (.head h) (m.back (.head h'))) (.head h') (.head h') } := by
  unfold concat init
  rw [hf]
  simp only [Memory.setNext, Memory.setBack, Function.update_of_ne head_ne_elem]

end Forms

/-! ## The links of all queues -/

/-- The queues are these lists. -/
structure Represents (m : Memory H E) (a : H → List E) : Prop where
  own : Owned a
  forward : Forward m.next a
  backward : Backward (fun e => m.back (.elem e)) a
  tails : Tails (fun h => m.back (.head h)) a

theorem represents_nil {m : Memory H E} (hm : m.Fresh) : Represents m fun _ => [] where
  own := owned_nil
  forward h := (hm h).1
  backward _ := trivial
  tails h := (hm h).2

section Represents

variable {m m' : Memory H E} {a a' : H → List E} {h : H}

variable [DecidableEq H] [DecidableEq E]

/-- **Linking in.** -/
theorem Represents.link (R : Represents m a) {l l' : List E} {e : E} (hl : a h = l ++ l')
    (fresh : ∀ g, e ∉ a g) :
    Represents (m.link h (ends (.head h) l) e l'.head?) (Function.update a h (l ++ e :: l')) := by
  have hhead : l'.head? ≠ some e := fun heq =>
    fresh h (hl ▸ List.mem_append_right l (List.mem_of_head? heq))
  have hback : ∀ c, c ≠ .elem e → c ≠ behind h l'.head? →
      (m.link h (ends (.head h) l) e l'.head?).back c = m.back c := fun c hc hc' =>
    (Function.update_of_ne hc _ _).trans (Function.update_of_ne hc' _ _)
  have hbehind : ∀ c, c ≠ .elem e → c = behind h l'.head? →
      (m.link h (ends (.head h) l) e l'.head?).back c = .elem e := by
    rintro c hc rfl
    exact (Function.update_of_ne hc _ _).trans (Function.update_self _ _ _)
  refine ⟨R.own.insert hl fresh, R.forward.link R.own hl fresh,
    R.backward.insert R.own hl fresh ?_ ?_ ?_, R.tails.update ?_ ?_⟩
  · exact Function.update_self _ _ _
  · intro f hf
    have hne : f ≠ e := fun heq => hhead (heq ▸ hf)
    exact hbehind _ (elem_ne_elem hne) (by rw [hf]; rfl)
  · exact fun x hx hx' => hback _ (elem_ne_elem hx) (elem_ne_behind hx')
  · cases l' with
    | nil =>
      rw [ends_append]
      exact hbehind _ head_ne_elem rfl
    | cons f l' =>
      rw [hback _ head_ne_elem head_ne_elem, ends_append]
      exact (R.tails h).trans (hl ▸ ends_append _ _ _)
  · exact fun g hg => hback _ head_ne_elem (head_ne_behind hg)

/-- **Linking out.**  The links of the element itself may be anything afterwards. -/
theorem Represents.unlink (R : Represents m a) {l l' : List E} {e : E} (hl : a h = l ++ e :: l')
    (hnext : ∀ c, c ≠ .elem e → m'.next c = (m.unlink h (ends (.head h) l) l'.head?).next c)
    (hback : ∀ c, c ≠ .elem e → m'.back c = (m.unlink h (ends (.head h) l) l'.head?).back c) :
    Represents m' (Function.update a h (l ++ l')) := by
  have hend : ends (.head h) l ≠ .elem e := R.own.ends_ne_elem hl List.mem_cons_self
  have hnodup := (List.nodup_append.mp (hl ▸ R.own.nodup h)).2.1
  have hsame : ∀ c, c ≠ .elem e → c ≠ behind h l'.head? → m'.back c = m.back c := fun c hc hc' =>
    (hback c hc).trans (Function.update_of_ne hc' _ _)
  have hbehind : ∀ c, c ≠ .elem e → c = behind h l'.head? → m'.back c = ends (.head h) l := by
    rintro c hc rfl
    exact (hback _ hc).trans (Function.update_self _ _ _)
  refine ⟨R.own.sublist (hl ▸ List.Sublist.append_left (List.sublist_cons_self e l') l),
    R.forward.remove R.own hl ?_ ?_, R.backward.remove R.own hl ?_ ?_, R.tails.update ?_ ?_⟩
  · exact (hnext _ hend).trans (Function.update_self _ _ _)
  · exact fun c hc hc' => (hnext c hc').trans (Function.update_of_ne hc _ _)
  · intro f hf
    have hne : f ≠ e := fun heq =>
      (List.nodup_cons.mp hnodup).1 (heq ▸ List.mem_of_head? hf)
    exact hbehind _ (elem_ne_elem hne) (by rw [hf]; rfl)
  · exact fun x hx hx' => hsame _ (elem_ne_elem hx) (elem_ne_behind hx')
  · cases l' with
    | nil =>
      rw [List.append_nil]
      exact hbehind _ head_ne_elem rfl
    | cons f l' =>
      rw [hsame _ head_ne_elem head_ne_elem, ends_append]
      exact (R.tails h).trans (hl ▸ ends_append _ _ _)
  · exact fun g hg => hsame _ head_ne_elem (head_ne_behind hg)

theorem Represents.init (R : Represents m a) (h : H) :
    Represents (init m h) (Function.update a h []) where
  own := R.own.sublist (List.nil_sublist _)
  forward := R.forward.init (Function.update_self _ _ _) fun c hc => Function.update_of_ne hc _ _
  backward := by
    refine R.backward.update trivial fun _ _ f _ => ?_
    change Function.update m.back (.head h) (.head h) (.elem f) = _
    exact Function.update_of_ne elem_ne_head _ _
  tails := by
    refine R.tails.update (Function.update_self _ _ _) fun g hg => ?_
    exact Function.update_of_ne (head_ne_head hg) _ _

theorem Represents.concat (R : Represents m a) {h h' : H} (hne : h ≠ h') :
    Represents (concat m h h')
      (Function.update (Function.update a h (a h ++ a h')) h' []) := by
  have hfirst := R.forward.next_head h'
  have hlast : m.back (.head h) = ends (.head h) (a h) := R.tails h
  have hend : ends (.head h) (a h) ∈ cells a h := ends_mem_cells (List.append_nil _).symm
  have hend' : ends (.head h) (a h) ≠ .head h' := fun heq =>
    hne (head_mem_cells.mp (heq ▸ hend)).symm
  cases hl : a h' with
  | nil =>
    -- the macro does nothing, and neither does moving no elements
    rw [concat_of_empty m (hfirst.trans (by rw [hl]; rfl)), List.append_nil,
      Function.update_eq_self, ← hl, Function.update_eq_self]
    exact R
  | cons f l =>
    rw [concat_of_first m (hfirst.trans (by rw [hl]; rfl)), ← hl]
    refine ⟨R.own.concat hne, R.forward.concat R.own hne ?_ (Function.update_self _ _ _) ?_,
      R.backward.concat R.own hne ?_ ?_,
      R.tails.concat (by rw [hl]; exact List.cons_ne_nil f l) ?_ (Function.update_self _ _ _) ?_⟩
    · dsimp only
      rw [Function.update_of_ne hend', hlast, hl]
      exact Function.update_self _ _ _
    · intro c hc hc'
      dsimp only
      rw [Function.update_of_ne hc', hlast, Function.update_of_ne hc]
    · intro x hx
      dsimp only
      rw [hl] at hx
      cases hx
      rw [Function.update_of_ne elem_ne_head, Function.update_of_ne elem_ne_head, hlast]
      exact Function.update_self _ _ _
    · intro x hx
      dsimp only
      have hxf : x ≠ f := fun heq => hx (by rw [heq, hl]; rfl)
      rw [Function.update_of_ne elem_ne_head, Function.update_of_ne elem_ne_head,
        Function.update_of_ne (elem_ne_elem hxf)]
    · dsimp only
      rw [Function.update_of_ne (head_ne_head hne), Function.update_self]
    · intro g hg hg'
      dsimp only
      rw [Function.update_of_ne (head_ne_head hg'), Function.update_of_ne (head_ne_head hg),
        Function.update_of_ne head_ne_elem]

theorem Represents.swap (R : Represents m a) (h h' : H) :
    Represents (swap m h h') (Function.update (Function.update a h (a h')) h' (a h)) := by
  -- the forward links after the exchange, as the two tests read them
  have hnext' : (Tailq.swap m h h').next (.head h') = (a h).head? :=
    (Function.update_self _ _ _).trans (R.forward.next_head h)
  have hnext : (Tailq.swap m h h').next (.head h) = (a h').head? := by
    by_cases hh : h = h'
    · subst hh
      exact hnext'
    · exact (Function.update_of_ne (head_ne_head hh) _ _).trans
        ((Function.update_self _ _ _).trans (R.forward.next_head h'))
  have hback : (Tailq.swap m h h').back =
      Function.update (Function.update (Function.update (Function.update m.back
        (.head h) (m.back (.head h'))) (.head h') (m.back (.head h)))
        (behind h (a h').head?) (.head h)) (behind h' (a h).head?) (.head h') := by
    rw [← hnext, ← hnext']
    rfl
  have hnil : ∀ {l : List E}, l ≠ [] → l.head? ≠ none := fun hl heq =>
    hl (List.head?_eq_none_iff.mp heq)
  refine ⟨R.own.swap, R.forward.swap (hnext.trans (R.forward.next_head h').symm)
    (hnext'.trans (R.forward.next_head h).symm) fun c hc hc' => ?_,
    R.backward.swap R.own ?_ ?_ ?_, R.tails.swap ?_ ?_ ?_ ?_ ?_⟩
  · exact (Function.update_of_ne hc' _ _).trans (Function.update_of_ne hc _ _)
  · intro f hf
    rw [hback, hf]
    exact Function.update_self _ _ _
  · intro f hf
    by_cases hf' : (a h).head? = some f
    · have hh : h = h' := R.own.unique (List.mem_of_head? hf') (List.mem_of_head? hf)
      rw [hback, hf', hh]
      exact Function.update_self _ _ _
    · rw [hback, Function.update_of_ne (elem_ne_behind hf'), hf]
      exact Function.update_self _ _ _
  · intro x hx hx'
    rw [hback, Function.update_of_ne (elem_ne_behind hx),
      Function.update_of_ne (elem_ne_behind hx'),
      Function.update_of_ne elem_ne_head, Function.update_of_ne elem_ne_head]
  · intro hl
    by_cases hh : h = h'
    · subst hh
      rw [hback, hl]
      exact Function.update_self _ _ _
    · rw [hback, Function.update_of_ne (head_ne_behind hh), hl]
      exact Function.update_self _ _ _
  · intro hl
    by_cases hh : h = h'
    · subst hh
      rw [hback, Function.update_of_ne fun heq => hnil hl (head_eq_behind heq).2,
        Function.update_of_ne fun heq => hnil hl (head_eq_behind heq).2, Function.update_self]
    · rw [hback, Function.update_of_ne (head_ne_behind hh),
        Function.update_of_ne fun heq => hnil hl (head_eq_behind heq).2,
        Function.update_of_ne (head_ne_head hh), Function.update_self]
  · intro hl
    rw [hback, hl]
    exact Function.update_self _ _ _
  · intro hl
    rw [hback, Function.update_of_ne fun heq => hnil hl (head_eq_behind heq).2,
      Function.update_of_ne fun heq => ?_, Function.update_self]
    obtain ⟨hh, hv⟩ := head_eq_behind heq
    exact hnil hl (hh ▸ hv)
  · intro g hg hg'
    rw [hback, Function.update_of_ne (head_ne_behind hg'),
      Function.update_of_ne (head_ne_behind hg),
      Function.update_of_ne (head_ne_head hg'), Function.update_of_ne (head_ne_head hg)]

/-- `TAILQ_REMOVE`, and the element may be freed. -/
theorem Represents.remove (R : Represents m a) {l l' : List E} {e : E} (hl : a h = l ++ e :: l')
    (hnext : ∀ c, c ≠ .elem e → m'.next c = (remove m h e).next c)
    (hback : ∀ c, c ≠ .elem e → m'.back c = (remove m h e).back c) :
    Represents m' (Function.update a h (l ++ l')) := by
  have hnodup := (List.nodup_append.mp (hl ▸ R.own.nodup h)).2.1
  have hne : m.next (.elem e) ≠ some e := fun heq =>
    (List.nodup_cons.mp hnodup).1 (List.mem_of_head? ((R.forward.next_elem hl).symm.trans heq))
  have hform := remove_eq_unlink m h hne
  rw [R.backward.prev_elem hl, R.forward.next_elem hl] at hform
  exact R.unlink hl (hform ▸ hnext) (hform ▸ hback)

/-- **One macro.** -/
theorem represents_step {op : Op H E} (R : Represents m a) (hop : Step a op a')
    (hstep : step m op = some m') : Represents m' a' := by
  cases hop with
  | init h =>
    cases hstep
    exact R.init h
  | insertHead h e fresh =>
    cases hstep
    rw [insertHead_eq_link, R.forward.next_head h]
    exact R.link (List.nil_append (a h)).symm fresh
  | insertTail h e fresh =>
    cases hstep
    rw [insertTail_eq_link, show m.back (.head h) = _ from R.tails h]
    exact R.link (List.append_nil (a h)).symm fresh
  | insertAfter h l f e l' hl fresh =>
    cases hstep
    have hlink := R.link (hl.trans (List.append_cons l f l')) fresh
    rw [insertAfter_eq_link, R.forward.next_elem hl]
    rwa [ends_append, List.append_assoc] at hlink
  | insertBefore h l f e l' hl fresh =>
    cases hstep
    have hne : f ≠ e := fun heq => fresh h (heq ▸ hl ▸ List.mem_append_right l List.mem_cons_self)
    rw [insertBefore_eq_link m h hne, R.backward.prev_elem hl]
    exact R.link hl fresh
  | remove h l e l' hl =>
    cases hstep
    exact R.remove hl (fun _ _ => rfl) fun _ _ => rfl
  | removeHead h e l hl => cases hstep
  | removeAfter h l f e l' hl => cases hstep
  | concat h h' hne =>
    cases hstep
    exact R.concat hne
  | swap h h' =>
    cases hstep
    exact R.swap h h'

end Represents

/-! ## What the macros read -/

section Reads

variable {m : Memory H E} {a : H → List E} {h : H}

/-- The element of a cell in a queue: the cell before it points to it. -/
theorem Represents.next_back_ends (R : Represents m a) {l l' : List E} (hl : a h = l ++ l') :
    m.next (m.back (ends (.head h) l)) = l.getLast? := by
  cases l using List.reverseRecOn with
  | nil =>
    -- the head itself: its link back is to the last link, and there is nothing behind that
    have hend := R.forward.next_ends (List.append_nil (a h)).symm
    rw [← R.tails h] at hend
    exact hend
  | append_singleton l e =>
    have hsplit : a h = l ++ e :: l' := hl.trans (List.append_assoc l [e] l')
    rw [ends_append, List.getLast?_concat]
    exact (congrArg m.next (R.backward.prev_elem hsplit)).trans (R.forward.next_ends hsplit)

theorem Represents.last_eq (R : Represents m a) (h : H) : last m h = (a h).getLast? := by
  unfold last
  rw [show m.back (.head h) = _ from R.tails h]
  exact R.next_back_ends (List.append_nil (a h)).symm

theorem Represents.prev_eq (R : Represents m a) {l l' : List E} {e : E} (hl : a h = l ++ e :: l') :
    prev m e = l.getLast? := by
  unfold prev
  rw [R.backward.prev_elem hl]
  exact R.next_back_ends hl

/-- The way back from any place of a queue. -/
theorem Represents.follows_prev (R : Represents m a) {l l' : List E} (hl : a h = l ++ l') :
    Follows (prev m) l.getLast? l.reverse := by
  induction l using List.reverseRecOn generalizing l' with
  | nil => rfl
  | append_singleton l e ih =>
    have hsplit : a h = l ++ e :: l' := hl.trans (List.append_assoc l [e] l')
    rw [List.getLast?_concat, List.reverse_append]
    exact ⟨rfl, R.prev_eq hsplit ▸ ih hsplit⟩

variable [DecidableEq H] [DecidableEq E]

/-- What the macros that only read give for a queue with these elements. -/
structure Reads (m : Memory H E) (h : H) (l : List E) : Prop where
  empty : empty m h = l.isEmpty
  first : first m h = l.head?
  last : last m h = l.getLast?
  lastFast : lastFast m h = l.getLast?
  next : ∀ l₁ e l₂, l = l₁ ++ e :: l₂ → next m e = l₂.head?
  prev : ∀ l₁ e l₂, l = l₁ ++ e :: l₂ → prev m e = l₁.getLast?
  prevFast : ∀ l₁ e l₂, l = l₁ ++ e :: l₂ → prevFast m e h = l₁.getLast?
  foreach : ∀ n, l.length < n → foreach m n h = some l
  foreachReverse : ∀ n, l.length < n → foreachReverse m n h = some l.reverse
  foreachFrom : ∀ l₁ e l₂ n, l = l₁ ++ e :: l₂ → l.length < n →
    foreachFrom m n (some e) h = some (e :: l₂)
  foreachReverseFrom : ∀ l₁ e l₂ n, l = l₁ ++ e :: l₂ → l.length < n →
    foreachReverseFrom m n (some e) h = some (e :: l₁.reverse)

theorem Represents.reads (R : Represents m a) (h : H) : Reads m h (a h) where
  empty := by
    unfold empty first
    rw [R.forward.next_head h]
    cases a h <;> rfl
  first := R.forward.next_head h
  last := R.last_eq h
  lastFast := by
    unfold lastFast empty first
    rw [R.forward.next_head h, show m.back (.head h) = _ from R.tails h, containerof_ends]
    cases a h <;> rfl
  next l₁ e l₂ hl := R.forward.next_elem hl
  prev l₁ e l₂ hl := R.prev_eq hl
  prevFast l₁ e l₂ hl := by
    unfold prevFast
    rw [R.backward.prev_elem hl, containerof_ends]
    by_cases hend : ends (.head h) l₁ = (.head h : Cell H E)
    · rw [if_pos hend, ends_eq_head hend]
      rfl
    · exact if_neg hend
  foreach n hn := walk_of_follows (R.forward.follows h) hn
  foreachReverse n hn := by
    unfold foreachReverse
    rw [R.last_eq h]
    exact walk_of_follows (R.follows_prev (List.append_nil (a h)).symm)
      (by rwa [List.length_reverse])
  foreachFrom l₁ e l₂ n hl hn := by
    rw [hl, List.length_append] at hn
    exact walk_of_follows (R.forward.follows_from hl) (Nat.lt_of_le_of_lt (Nat.le_add_left _ _) hn)
  foreachReverseFrom l₁ e l₂ n hl hn := by
    have hfollows := R.follows_prev (hl.trans (List.append_cons l₁ e l₂))
    rw [List.getLast?_concat, List.reverse_append] at hfollows
    refine walk_of_follows hfollows (Nat.lt_of_le_of_lt ?_ hn)
    rw [hl]
    simp

end Reads

/-! ## A loop that frees -/

section Free

variable [DecidableEq H] [DecidableEq E]

/-- The body of a loop that takes elements out and frees them; `junk` is what is in their memory
afterwards. -/
def freeIf (p : E → Bool) (junk : E → Option E × Cell H E) (h : H) (m : Memory H E) (e : E) :
    Memory H E :=
  if p e then
    ((remove m h e).setNext (.elem e) (junk e).1).setBack (.elem e) (junk e).2
  else m

/-- One round: what has been visited is the part of it that is kept. -/
theorem Represents.freeIf {m : Memory H E} {a : H → List E} {h : H} {p : E → Bool}
    {junk : E → Option E × Cell H E} {past rest : List E} {e : E}
    (R : Represents m (Function.update a h (past.filter (!p ·) ++ e :: rest))) :
    Represents (freeIf p junk h m e)
      (Function.update a h ((past ++ [e]).filter (!p ·) ++ rest)) := by
  unfold Tailq.freeIf
  rw [List.filter_append]
  cases hp : p e with
  | false =>
    have hkeep : [e].filter (!p ·) = [e] := by simp [hp]
    rw [if_neg Bool.false_ne_true, hkeep, List.append_assoc]
    exact R
  | true =>
    have hdrop : [e].filter (!p ·) = [] := by simp [hp]
    rw [if_pos rfl, hdrop, List.append_nil]
    have hremove : Represents
        (((Tailq.remove m h e).setNext (.elem e) (junk e).1).setBack (.elem e) (junk e).2)
        (Function.update (Function.update a h (past.filter (!p ·) ++ e :: rest)) h
          (past.filter (!p ·) ++ rest)) :=
      R.remove (Function.update_self h _ a) (fun c hc => Function.update_of_ne hc _ _)
        fun c hc => Function.update_of_ne hc _ _
    rwa [Function.update_idem] at hremove

end Free

/-! ## Any sequence of the macros -/

section Runs

variable [Fintype H] [DecidableEq H] [DecidableEq E]

theorem represents_run {m : Memory H E} (hm : m.Fresh) {ops : List (Op H E)} {a : H → List E}
    (havail : ∀ op ∈ ops, available op = true)
    (hops : exec Op.apply (fun _ => []) ops = some a) :
    ∃ m', exec step m ops = some m' ∧ Represents m' a := by
  have hstep : ∀ m b op b', op ∈ ops → Represents m b → Op.apply b op = some b' →
      ∃ n : ℕ, ∃ m', (∀ k, n ≤ k → step m op = some m') ∧ Represents m' b' := by
    intro m b op b' hop R happly
    cases hnext : step m op with
    | none =>
      have := havail op hop
      cases op <;> cases hnext <;> cases this
    | some m' =>
      exact ⟨0, m', fun _ _ => rfl, represents_step R (Op.step_of_apply R.own happly) hnext⟩
  have hsim : ∃ n : ℕ, ∃ m', (∀ k, n ≤ k → exec step m ops = some m') ∧ Represents m' a :=
    exec_fuel_simulation hstep (represents_nil hm) hops
  obtain ⟨n, m', hrun, R⟩ := hsim
  exact ⟨m', hrun n (Nat.le_refl n), R⟩

/-- **Tail queues are lists**: after any sequence of the macros in which an element that is put in
is in no queue and one that is named is in the queue that is named, the queues hold the elements of
the corresponding lists, and every macro that reads, in either direction, says so. -/
theorem tailq_refines_lists {m : Memory H E} (hm : m.Fresh) {ops : List (Op H E)} {a : H → List E}
    (havail : ∀ op ∈ ops, available op = true)
    (hops : exec Op.apply (fun _ => []) ops = some a) :
    ∃ m', exec step m ops = some m' ∧ ∀ h, Reads m' h (a h) := by
  obtain ⟨m', hrun, R⟩ := represents_run hm havail hops
  exact ⟨m', hrun, R.reads⟩

/-- Two queues: `5` is put between `4` and `6`, `4` is taken out again, the queues are exchanged and
put together. -/
def someMacros : List (Op Bool ℕ) :=
  [.insertTail true 4, .insertTail true 6, .insertAfter true 4 5, .insertHead false 1,
    .insertBefore false 1 0, .remove true 4, .swap true false, .concat false true]

theorem tailq_refines_lists_some_macros :
    ∃ a, exec Op.apply (fun _ => []) someMacros = some a ∧ a false = [5, 6, 0, 1] ∧
      ∃ m', exec step ⟨fun _ => none, id⟩ someMacros = some m' ∧ ∀ h, Reads m' h (a h) :=
  ⟨_, rfl, rfl, tailq_refines_lists (fun _ => ⟨rfl, rfl⟩) (by decide) rfl⟩

/-- **`TAILQ_FOREACH_SAFE` may free what it visits**: after any sequence of the macros, a loop over
a queue whose body takes out and frees the elements that satisfy `p` visits every element once,
never reads the links of one that has been freed, and leaves the others in their order. -/
theorem tailq_foreach_safe_frees {m : Memory H E} (hm : m.Fresh) {ops : List (Op H E)}
    {a : H → List E} (havail : ∀ op ∈ ops, available op = true)
    (hops : exec Op.apply (fun _ => []) ops = some a) (h : H) (p : E → Bool)
    (junk : E → Option E × Cell H E) :
    ∃ m' m'', exec step m ops = some m' ∧
      (∀ n, (a h).length < n → foreachSafe m' n h (freeIf p junk h) = some (a h, m'')) ∧
      Reads m'' h ((a h).filter (!p ·)) ∧ ∀ g, g ≠ h → Reads m'' g (a g) := by
  obtain ⟨m', hrun, R⟩ := represents_run hm havail hops
  have hstart : Represents m' (Function.update a h (([] : List E).filter (!p ·) ++ a h)) := by
    rw [List.filter_nil, List.nil_append, Function.update_eq_self]
    exact R
  obtain ⟨m'', hloop, R'⟩ := walkSafe_invariant
    (fun past rest s => Represents s (Function.update a h (past.filter (!p ·) ++ rest)))
    (fun past e rest s R => ⟨R.forward.next_elem (Function.update_self h _ a), R.freeIf⟩) hstart
  rw [List.nil_append, List.append_nil] at R'
  refine ⟨m', m'', hrun, fun n hn => ?_, ?_, fun g hg => ?_⟩
  · exact (congrArg (walkSafe next (freeIf p junk h) n · m') (R.forward.next_head h)).trans
      (hloop n hn)
  · have hreads := R'.reads h
    rwa [Function.update_self] at hreads
  · have hreads := R'.reads g
    rwa [Function.update_of_ne hg] at hreads

/-- The even elements are freed; their memory then says that `7` is behind them. -/
theorem tailq_foreach_safe_frees_even :
    ∃ a, exec Op.apply (fun _ => []) someMacros = some a ∧
      ∃ m' m'', exec step ⟨fun _ => none, id⟩ someMacros = some m' ∧
        (∀ n, (a false).length < n →
          foreachSafe m' n false (freeIf (· % 2 == 0) (fun _ => (some 7, .elem 7)) false) =
            some (a false, m'')) ∧
        Reads m'' false ((a false).filter (!· % 2 == 0)) ∧
        ∀ g, g ≠ false → Reads m'' g (a g) :=
  ⟨_, rfl, tailq_foreach_safe_frees (fun _ => ⟨rfl, rfl⟩) (by decide) rfl false _ _⟩

end Runs

end Tailq
end Queue
end Wpdk
