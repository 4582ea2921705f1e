import Mathlib.Logic.Function.Basic
import Wpdk.Base.Links

/-!
# Singly-linked tail queues

`STAILQ_*` of `sys/queue.h`: the forward links, and in each head the address `stqh_last` of the last
of them.  Every macro that can change which link is the last one tests the link it has just written.

* `Memory`, and the macros.
* `Memory.link`, `Memory.unlink`: what the insertions and the removals come to.
* `represents_step`: one macro; `stailq_refines_lists`: any sequence of them.
-/

namespace Wpdk
namespace Queue
namespace Stailq

open Run Links

variable {H E : Type*}

/-- `stqh_first` and `stqe_next`, and `stqh_last`. -/
structure Memory (H E : Type*) where
  next : Cell H E → Option E
  last : H → Cell H E

section Macros

variable [DecidableEq H] [DecidableEq E] (m : Memory H E)

/-- A forward link is written. -/
def Memory.setNext (c : Cell H E) (v : Option E) : Memory H E :=
  { m with next := Function.update m.next c v }

/-- `stqh_last` is written. -/
def Memory.setLast (h : H) (c : Cell H E) : Memory H E :=
  { m with last := Function.update m.last h c }

/-- `stqh_last` is written if a test says so. -/
def Memory.setLastIf (b : Bool) (h : H) (c : Cell H E) : Memory H E :=
  { m with last := if b then Function.update m.last h c else m.last }

/-- `STAILQ_FIRST`. -/
def first (h : H) : Option E := m.next (.head h)

/-- `STAILQ_EMPTY`. -/
def empty (h : H) : Bool := (first m h).isNone

/-- `STAILQ_NEXT`. -/
def next (e : E) : Option E := m.next (.elem e)

/-- `STAILQ_LAST`. -/
def last (h : H) : Option E := if empty m h then none else containerof (m.last h)

/-- `STAILQ_INIT`. -/
def init (h : H) : Memory H E := (m.setNext (.head h) none).setLast h (.head h)

/-- `STAILQ_INSERT_HEAD`. -/
def insertHead (h : H) (e : E) : Memory H E :=
  let m := m.setNext (.elem e) (first m h)
  let m := m.setLastIf (next m e).isNone h (.elem e)
  m.setNext (.head h) (some e)

/-- `STAILQ_INSERT_TAIL`. -/
def insertTail (h : H) (e : E) : Memory H E :=
  let m := m.setNext (.elem e) none
  let m := m.setNext (m.last h) (some e)
  m.setLast h (.elem e)

/-- `STAILQ_INSERT_AFTER`. -/
def insertAfter (h : H) (f e : E) : Memory H E :=
  let m := m.setNext (.elem e) (next m f)
  let m := m.setLastIf (next m e).isNone h (.elem e)
  m.setNext (.elem f) (some e)

/-- `STAILQ_REMOVE_AFTER`. -/
def removeAfter (h : H) (f : E) : Option (Memory H E) :=
  (next m f).map fun e =>
    let m := m.setNext (.elem f) (next m e)
    m.setLastIf (next m f).isNone h (.elem f)

/-- `STAILQ_REMOVE_HEAD`. -/
def removeHead (h : H) : Option (Memory H E) :=
  (first m h).map fun e =>
    let m := m.setNext (.head h) (next m e)
    m.setLastIf (first m h).isNone h (.head h)

/-- `STAILQ_REMOVE`. -/
def remove (n : ℕ) (h : H) (e : E) : Option (Memory H E) :=
  if first m h = some e then removeHead m h
  else (seek (next m) (fun curelm => next m curelm == some e) n (first m h)).bind (removeAfter m h)

/-- `STAILQ_CONCAT`. -/
def concat (h h' : H) : Memory H E :=
  if !empty m h' then
    let m := m.setNext (m.last h) (first m h')
    let m := m.setLast h (m.last h')
    init m h'
  else m

/-- `STAILQ_SWAP`. -/
def swap (h h' : H) : Memory H E :=
  let swapFirst := first m h
  let swapLast := m.last h
  let m := m.setNext (.head h) (first m h')
  let m := m.setLast h (m.last h')
  let m := m.setNext (.head h') swapFirst
  let m := m.setLast h' swapLast
  let m := m.setLastIf (empty m h) h (.head h)
  m.setLastIf (empty m h') h' (.head h')

/-- `STAILQ_FOREACH`, with a bound on the rounds. -/
def foreach (n : ℕ) (h : H) : Option (List E) := walk (next m) n (first m h)

/-- `STAILQ_FOREACH_FROM`. -/
def foreachFrom (n : ℕ) (var : Option E) (h : H) : Option (List E) :=
  walk (next m) n (var.or (first m h))

end Macros

/-- The macros that write. -/
def step [DecidableEq H] [DecidableEq E] (n : ℕ) (m : Memory H E) : Op H E → Option (Memory H E)
  | .init h => some (init m h)
  | .insertHead h e => some (insertHead m h e)
  | .insertTail h e => some (insertTail m h e)
  | .insertAfter h f e => some (insertAfter m h f e)
  | .insertBefore _ _ _ => none
  | .remove h e => remove m n h e
  | .removeHead h => removeHead m h
  | .removeAfter h f => removeAfter m h f
  | .concat h h' => some (concat m h h')
  | .swap h h' => some (swap m h h')

/-- The column of the table of macros. -/
def available : Op H E → Bool
  | .insertBefore _ _ _ => false
  | _ => true

/-- `STAILQ_HEAD_INITIALIZER`; the links of the elements are not initialised. -/
def Memory.Fresh (m : Memory H E) : Prop := ∀ h, m.next (.head h) = none ∧ m.last h = .head h

/-! ## What the macros come to -/

section Forms

variable [DecidableEq H] [DecidableEq E] (m : Memory H E)

/-- An element is linked in between a cell and what is behind it. -/
def Memory.link (h : H) (c : Cell H E) (e : E) (v : Option E) : Memory H E where
  next := Function.update (Function.update m.next (.elem e) v) c (some e)
  last := if v.isNone then Function.update m.last h (.elem e) else m.last

/-- What is behind a cell is linked to it. -/
def Memory.unlink (h : H) (c : Cell H E) (v : Option E) : Memory H E where
  next := Function.update m.next c v
  last := if v.isNone then Function.update m.last h c else m.last

theorem insertHead_eq_link (h : H) (e : E) :
    insertHead m h e = m.link h (.head h) e (first m h) := by
  unfold insertHead Memory.link next
  simp only [Memory.setNext, Memory.setLastIf, Function.update_self]

theorem insertAfter_eq_link (h : H) (f e : E) :
    insertAfter m h f e = m.link h (.elem f) e (next m f) := by
  unfold insertAfter Memory.link next
  simp only [Memory.setNext, Memory.setLastIf, Function.update_self]

theorem insertTail_eq_link (h : H) (e : E) : insertTail m h e = m.link h (m.last h) e none := rfl

theorem removeHead_eq_unlink {h : H} {e : E} (hfirst : first m h = some e) :
    removeHead m h = some (m.unlink h (.head h) (next m e)) := by
  unfold removeHead Memory.unlink
  rw [hfirst, Option.map_some]
  simp only [first, Memory.setNext, Memory.setLastIf, Function.update_self]

theorem removeAfter_eq_unlink (h : H) {f e : E} (hnext : next m f = some e) :
    removeAfter m h f = some (m.unlink h (.elem f) (next m e)) := by
  unfold removeAfter Memory.unlink
  rw [hnext, Option.map_some]
  simp only [next, Memory.setNext, Memory.setLastIf, Function.update_self]
  rfl

end Forms

/-! ## Each macro -/

/-- The queues are these lists. -/
structure Represents (m : Memory H E) (a : H → List E) : Prop where
  own : Owned a
  forward : Forward m.next a
  tails : Tails m.last a

section Represents

variable [DecidableEq H] {m : Memory H E} {a a' : H → List E} {h : H}

/-- The last link after a change behind a cell: it is that cell's if nothing is behind it, and the
one that it was otherwise. -/
theorem Represents.tails_update (R : Represents m a) {l₀ l l' : List E} (c : Cell H E)
    (hl : a h = l₀ ++ l') (hc : c = ends (.head h) l) :
    Tails (if l'.head?.isNone then Function.update m.last h c else m.last)
      (Function.update a h (l ++ l')) := by
  cases l' with
  | nil =>
    refine R.tails.update ?_ fun g hg => Function.update_of_ne hg _ _
    rw [List.append_nil, ← hc]
    exact Function.update_self _ _ _
  | cons f l' =>
    refine R.tails.update ?_ fun g _ => rfl
    rw [ends_append]
    exact (R.tails h).trans (by rw [hl, ends_append]; rfl)

variable [DecidableEq E]

theorem Represents.link (R : Represents m a) {l l' : List E} {e : E} (hl : a h = l ++ l')
    (fresh : ∀ g, e ∉ a g) :
    Represents (m.link h (ends (.head h) l) e l'.head?) (Function.update a h (l ++ e :: l')) where
  own := R.own.insert hl fresh
  forward := R.forward.link R.own hl fresh
  tails := by
    rw [List.append_cons]
    exact R.tails_update (.elem e) hl (ends_concat _ _ _).symm

theorem Represents.unlink (R : Represents m a) {l l' : List E} {e : E} (hl : a h = l ++ e :: l') :
    Represents (m.unlink h (ends (.head h) l) l'.head?) (Function.update a h (l ++ l')) where
  own := (Step.remove h l e l' hl).owned R.own
  forward := R.forward.unlink R.own hl
  tails := R.tails_update _ (hl.trans (List.append_cons l e l')) rfl

theorem remove_eq (R : Represents m a) {l l' : List E} {e : E} (hl : a h = l ++ e :: l') {n : ℕ}
    (hn : l.length ≤ n) :
    remove m n h e = some (m.unlink h (ends (.head h) l) l'.head?) := by
  have hnext : next m e = l'.head? := R.forward.next_elem hl
  unfold remove
  cases l using List.reverseRecOn with
  | nil =>
    have hfirst : first m h = some e := (R.forward.next_head h).trans (by rw [hl]; rfl)
    rw [if_pos hfirst, removeHead_eq_unlink m hfirst, hnext]
    rfl
  | append_singleton l f =>
    have hsplit : a h = l ++ f :: e :: l' := hl.trans (List.append_assoc l [f] _)
    have hfirst : first m h ≠ some e := R.forward.next_head_ne R.own hsplit
    have hseek : seek (next m) (fun curelm => next m curelm == some e) n (first m h) = some f :=
      R.forward.seek_before R.own hsplit (by rwa [List.length_append] at hn)
    rw [if_neg hfirst, hseek, Option.bind_some,
      removeAfter_eq_unlink m h (R.forward.next_elem hsplit), hnext, ends_append]
    rfl

theorem represents_concat (R : Represents m a) {h h' : H} (hne : h ≠ h') :
    Represents (concat m h h')
      (Function.update (Function.update a h (a h ++ a h')) h' []) := by
  have hfirst : first m h' = (a h').head? := R.forward.next_head h'
  unfold concat
  cases hl : a h' with
  | nil =>
    have hempty : empty m h' = true := by
      unfold empty
      rw [hfirst, hl]
      rfl
    rw [hempty, List.append_nil, Function.update_eq_self, ← hl, Function.update_eq_self]
    exact R
  | cons f l =>
    have hempty : empty m h' = false := by
      unfold empty
      rw [hfirst, hl]
      rfl
    have hend : ends (.head h) (a h) ≠ .head h' := fun heq =>
      hne (head_mem_cells.mp (heq ▸ ends_mem_cells (List.append_nil (a h)).symm)).symm
    rw [hempty, ← hl, Bool.not_false, if_pos rfl]
    dsimp only [init, Memory.setNext, Memory.setLast]
    rw [R.tails h, hfirst]
    refine ⟨R.own.concat hne, R.forward.concat R.own hne ?_ (Function.update_self _ _ _) ?_,
      R.tails.concat (by rw [hl]; exact List.cons_ne_nil f l) ?_ (Function.update_self _ _ _) ?_⟩
    · exact (Function.update_of_ne hend _ _).trans (Function.update_self _ _ _)
    · exact fun c hc hc' => (Function.update_of_ne hc' _ _).trans (Function.update_of_ne hc _ _)
    · exact (Function.update_of_ne hne _ _).trans (Function.update_self _ _ _)
    · exact fun g hg hg' => (Function.update_of_ne hg' _ _).trans (Function.update_of_ne hg _ _)

omit [DecidableEq E] in
theorem setLast_apply (b : Bool) (f : H → Cell H E) (h g : H) (c : Cell H E) :
    (if b then Function.update f h c else f) g = if b ∧ g = h then c else f g := by
  cases b with
  | false => simp
  | true => simp [Function.update_apply]

theorem represents_swap (R : Represents m a) (h h' : H) :
    Represents (swap m h h') (Function.update (Function.update a h (a h')) h' (a h)) := by
  have hfirst' : (swap m h h').next (.head h') = (a h).head? :=
    (Function.update_self _ _ _).trans (R.forward.next_head h)
  have hfirst : (swap m h h').next (.head h) = (a h').head? := by
    by_cases hh : h = h'
    · subst hh
      exact hfirst'
    · exact (Function.update_of_ne (head_ne_head hh) _ _).trans
        ((Function.update_self _ _ _).trans (R.forward.next_head h'))
  have hlast : ∀ g, (swap m h h').last g =
      if (a h).head?.isNone ∧ g = h' then .head h' else
        if (a h').head?.isNone ∧ g = h then .head h else
          Function.update (Function.update m.last h (m.last h')) h' (m.last h) g := by
    intro g
    rw [← hfirst, ← hfirst', ← setLast_apply, ← setLast_apply]
    rfl
  have hnone : ∀ {g}, (a g).head?.isNone = true ↔ a g = [] := by
    intro g
    rw [Option.isNone_iff_eq_none, List.head?_eq_none_iff]
  refine ⟨R.own.swap, R.forward.swap (hfirst.trans (R.forward.next_head h').symm)
    (Function.update_self _ _ _) ?_, R.tails.swap ?_ ?_ ?_ ?_ ?_⟩
  · exact fun c hc hc' => (Function.update_of_ne hc' _ _).trans (Function.update_of_ne hc _ _)
  · intro hnil
    by_cases hh : h = h'
    · subst hh
      rw [hlast, if_pos ⟨hnone.mpr hnil, rfl⟩]
    · rw [hlast, if_neg fun heq => hh heq.2, if_pos ⟨hnone.mpr hnil, rfl⟩]
  · intro hcons
    by_cases hh : h = h'
    · subst hh
      rw [hlast, if_neg fun heq => hcons (hnone.mp heq.1), if_neg fun heq => hcons (hnone.mp heq.1),
        Function.update_self]
    · rw [hlast, if_neg fun heq => hh heq.2, if_neg fun heq => hcons (hnone.mp heq.1),
        Function.update_of_ne hh, Function.update_self]
  · intro hnil
    rw [hlast, if_pos ⟨hnone.mpr hnil, rfl⟩]
  · intro hcons
    have hcons' : ¬ ((a h').head?.isNone = true ∧ h' = h) := by
      rintro ⟨hnil, heq⟩
      exact hcons (hnone.mp (heq ▸ hnil))
    rw [hlast, if_neg fun heq => hcons (hnone.mp heq.1), if_neg hcons', Function.update_self]
  · intro g hg hg'
    rw [hlast, if_neg fun heq => hg' heq.2, if_neg fun heq => hg heq.2, Function.update_of_ne hg',
      Function.update_of_ne hg]

/-- **One macro.** -/
theorem represents_step {op : Op H E} (R : Represents m a) (hop : Step a op a')
    (havail : available op = true) :
    ∃ n m', (∀ k, n ≤ k → step k m op = some m') ∧ Represents m' a' := by
  cases hop with
  | init h =>
    refine ⟨0, _, fun _ _ => rfl, R.own.sublist (List.nil_sublist _), ?_, ?_⟩
    · exact R.forward.init (Function.update_self _ _ _) fun c hc => Function.update_of_ne hc _ _
    · exact R.tails.update (Function.update_self _ _ _) fun g hg => Function.update_of_ne hg _ _
  | insertHead h e fresh =>
    refine ⟨0, _, fun _ _ => rfl, ?_⟩
    rw [insertHead_eq_link, show first m h = _ from R.forward.next_head h]
    exact R.link (List.nil_append _).symm fresh
  | insertTail h e fresh =>
    refine ⟨0, _, fun _ _ => rfl, ?_⟩
    rw [insertTail_eq_link, R.tails h]
    exact R.link (List.append_nil _).symm fresh
  | insertAfter h l f e l' hl fresh =>
    refine ⟨0, _, fun _ _ => rfl, ?_⟩
    have hlink := R.link (hl.trans (List.append_cons l f l')) fresh
    rw [insertAfter_eq_link, show next m f = _ from R.forward.next_elem hl]
    rwa [ends_concat, List.append_assoc] at hlink
  | insertBefore h l f e l' hl fresh => cases havail
  | remove h l e l' hl => exact ⟨l.length, _, fun k hk => remove_eq R hl hk, R.unlink hl⟩
  | removeHead h e l hl =>
    have hfirst : first m h = some e := (R.forward.next_head h).trans (by rw [hl]; rfl)
    refine ⟨0, _, fun _ _ => removeHead_eq_unlink m hfirst, ?_⟩
    rw [show next m e = _ from R.forward.next_elem (hl.trans (List.nil_append _).symm)]
    exact R.unlink (hl.trans (List.nil_append _).symm)
  | removeAfter h l f e l' hl =>
    refine ⟨0, _, fun _ _ => removeAfter_eq_unlink m h (R.forward.next_elem hl), ?_⟩
    have hunlink := R.unlink (hl.trans (List.append_cons l f _))
    rw [show next m e = _ from R.forward.next_elem (hl.trans (List.append_cons l f _))]
    rwa [ends_concat, List.append_assoc] at hunlink
  | concat h h' hne => exact ⟨0, _, fun _ _ => rfl, represents_concat R hne⟩
  | swap h h' => exact ⟨0, _, fun _ _ => rfl, represents_swap R h h'⟩

end Represents

/-! ## What the macros read -/

/-- What the macros that only read give for a queue with these elements. -/
structure Reads (m : Memory H E) (h : H) (l : List E) : Prop where
  empty : empty m h = l.isEmpty
  first : first m h = l.head?
  last : last m h = l.getLast?
  next : ∀ l₁ e l₂, l = l₁ ++ e :: l₂ → next m e = l₂.head?
  foreach : ∀ n, l.length < n → foreach m n h = some l
  foreachFrom : ∀ l₁ e l₂ n, l = l₁ ++ e :: l₂ → l.length < n →
    foreachFrom m n (some e) h = some (e :: l₂)

theorem Represents.reads {m : Memory H E} {a : H → List E} (R : Represents m a) (h : H) :
    Reads m h (a h) where
  empty := by
    unfold empty first
    rw [R.forward.next_head h]
    cases a h <;> rfl
  first := R.forward.next_head h
  last := by
    unfold last empty first
    rw [R.forward.next_head h, R.tails h, containerof_ends]
    cases a h <;> rfl
  next l₁ e l₂ hl := R.forward.next_elem hl
  foreach n hn := walk_of_follows (R.forward.follows h) hn
  foreachFrom l₁ e l₂ n hl hn := by
    rw [hl, List.length_append] at hn
    exact walk_of_follows (R.forward.follows_from hl) (Nat.lt_of_le_of_lt (Nat.le_add_left _ _) hn)

/-! ## Any sequence of the macros -/

section Runs

variable [Fintype H] [DecidableEq H] [DecidableEq E] {m : Memory H E} {ops : List (Op H E)}
  {a : H → List E}

/-- **Singly-linked tail queues are lists**: any sequence of the macros in which an element that is
put in is in no queue and one that is named is in the queue that is named comes to an end, and then
the macros that read give the elements of the corresponding lists. -/
theorem stailq_refines_lists (hm : m.Fresh) (havail : ∀ op ∈ ops, available op = true)
    (hops : exec Op.apply (fun _ => []) ops = some a) :
    ∃ n m', (∀ k, n ≤ k → exec (step k) m ops = some m') ∧ ∀ h, Reads m' h (a h) := by
  have hstep : ∀ (s : Memory H E) b op b', op ∈ ops → Represents s b → Op.apply b op = some b' →
      ∃ n s', (∀ k, n ≤ k → step k s op = some s') ∧ Represents s' b' :=
    fun _ _ op _ hop R happly =>
      represents_step R (Op.step_of_apply R.own happly) (havail op hop)
  have hstart : Represents m fun _ => [] := ⟨owned_nil, fun h => (hm h).1, fun h => (hm h).2⟩
  obtain ⟨n, m', hrun, R⟩ := exec_fuel_simulation hstep hstart hops
  exact ⟨n, m', hrun, R.reads⟩

/-- The last element of a queue is taken out, a queue is put behind an empty one, and one more
element is put behind it. -/
def someMacros : List (Op Bool ℕ) :=
  [.insertTail true 4, .insertTail true 5, .insertAfter true 5 6, .remove true 6,
    .concat false true,
    .insertTail false 7, .removeHead false, .swap true false, .insertHead false 1]

theorem stailq_refines_lists_some_macros :
    ∃ a, exec Op.apply (fun _ => []) someMacros = some a ∧ a true = [5, 7] ∧
      ∃ n m', (∀ k, n ≤ k → exec (step k) ⟨fun _ => none, .head⟩ someMacros = some m') ∧
        ∀ h, Reads m' h (a h) :=
  ⟨_, rfl, rfl, stailq_refines_lists (fun _ => ⟨rfl, rfl⟩) (by decide) rfl⟩

end Runs

end Stailq
end Queue
end Wpdk
