import Mathlib.Logic.Function.Basic
import Wpdk.Base.Links

/-!
# Doubly-linked lists

`LIST_*` of `sys/queue.h`: the forward links, and in each element the address `le_prev` of the link
that leads to it.  An element can be taken out, or another one put before it, without the head; the
end of a list is known to nobody, so that `LIST_CONCAT` has to look for it.

* `Memory`, and the macros.
* `Memory.link`, `Memory.unlink`: what the insertions and the removal come to.
* `represents_step`: one macro; `list_refines_lists`: any sequence of them.
-/

namespace Wpdk
namespace Queue
namespace Lists

open Run Links

variable {H E : Type*}

/-- `lh_first` and `le_next`, and `le_prev`. -/
structure Memory (H E : Type*) where
  next : Cell H E → Option E
  prev : E → Cell H E

section Macros

variable [DecidableEq H] [DecidableEq E] (m : Memory H E)

/-- A forward link is written. -/
def Memory.setNext (c : Cell H E) (v : Option E) : Memory H E :=
  { m with next := Function.update m.next c v }

/-- `le_prev` of an element is written. -/
def Memory.setPrev (e : E) (c : Cell H E) : Memory H E :=
  { m with prev := Function.update m.prev e c }

/-- `le_prev` is written if there is an element. -/
def Memory.setPrevIf (v : Option E) (c : Cell H E) : Memory H E :=
  { m with prev := v.elim m.prev fun e => Function.update m.prev e c }

/-- `LIST_FIRST`. -/
def first (h : H) : Option E := m.next (.head h)

/-- `LIST_EMPTY`. -/
def empty (h : H) : Bool := (first m h).isNone

/-- `LIST_NEXT`. -/
def next (e : E) : Option E := m.next (.elem e)

/-- `LIST_PREV`. -/
def prev (e : E) (h : H) : Option E :=
  if m.prev e = .head h then none else containerof (m.prev e)

/-- `LIST_INIT`. -/
def init (h : H) : Memory H E := m.setNext (.head h) none

/-- `LIST_INSERT_HEAD`. -/
def insertHead (h : H) (e : E) : Memory H E :=
  let m := m.setNext (.elem e) (first m h)
  let m := m.setPrevIf (first m h) (.elem e)
  let m := m.setNext (.head h) (some e)
  m.setPrev e (.head h)

/-- `LIST_INSERT_AFTER`. -/
def insertAfter (f e : E) : Memory H E :=
  let m := m.setNext (.elem e) (next m f)
  let m := m.setPrevIf (next m f) (.elem e)
  let m := m.setNext (.elem f) (some e)
  m.setPrev e (.elem f)

/-- `LIST_INSERT_BEFORE`. -/
def insertBefore (f e : E) : Memory H E :=
  let m := m.setPrev e (m.prev f)
  let m := m.setNext (.elem e) (some f)
  let m := m.setNext (m.prev f) (some e)
  m.setPrev f (.elem e)

/-- `LIST_REMOVE`. -/
def remove (e : E) : Memory H E :=
  let m := m.setPrevIf (next m e) (m.prev e)
  m.setNext (m.prev e) (next m e)

/-- `LIST_CONCAT`. -/
def concat (n : ℕ) (h h' : H) : Option (Memory H E) :=
  match first m h with
  | none =>
    let m := m.setNext (.head h) (first m h')
    match first m h with
    | none => some m
    | some _ => some (init (m.setPrevIf (first m h') (.head h)) h')
  | some curelm =>
    match first m h' with
    | none => some m
    | some _ =>
      (seek (next m) (fun curelm => (next m curelm).isNone) n (some curelm)).map fun curelm =>
        let m := m.setNext (.elem curelm) (first m h')
        init (m.setPrevIf (first m h') (.elem curelm)) h'

/-- `LIST_SWAP`. -/
def swap (h h' : H) : Memory H E :=
  let swapTmp := first m h
  let m := m.setNext (.head h) (first m h')
  let m := m.setNext (.head h') swapTmp
  let m := m.setPrevIf (first m h) (.head h)
  m.setPrevIf (first m h') (.head h')

/-- `LIST_FOREACH`, with a bound on the rounds. -/
def foreach (n : ℕ) (h : H) : Option (List E) := walk (next m) n (first m h)

/-- `LIST_FOREACH_FROM`. -/
def foreachFrom (n : ℕ) (var : Option E) (h : H) : Option (List E) :=
  walk (next m) n (var.or (first m h))

end Macros

/-- The macros that write. -/
def step [DecidableEq H] [DecidableEq E] (n : ℕ) (m : Memory H E) : Op H E → Option (Memory H E)
  | .init h => some (init m h)
  | .insertHead h e => some (insertHead m h e)
  | .insertTail _ _ => none
  | .insertAfter _ f e => some (insertAfter m f e)
  | .insertBefore _ f e => some (insertBefore m f e)
  | .remove _ e => some (remove m e)
  | .removeHead _ => none
  | .removeAfter _ _ => none
  | .concat h h' => concat m n h h'
  | .swap h h' => some (swap m h h')

/-- The column of the table of macros. -/
def available : Op H E → Bool
  | .insertTail _ _ => false
  | .removeHead _ => false
  | .removeAfter _ _ => false
  | _ => true

/-- `LIST_HEAD_INITIALIZER`; the links of the elements are not initialised. -/
def Memory.Fresh (m : Memory H E) : Prop := ∀ h, m.next (.head h) = none

/-! ## What the macros come to -/

section Forms

variable [DecidableEq H] [DecidableEq E] (m : Memory H E)

/-- An element is linked in between a cell and what is behind it. -/
def Memory.link (c : Cell H E) (e : E) (v : Option E) : Memory H E :=
  ((m.setNext (.elem e) v).setNext c (some e)).setPrevIf v (.elem e) |>.setPrev e c

/-- What is behind a cell is linked to it. -/
def Memory.unlink (c : Cell H E) (v : Option E) : Memory H E := (m.setNext c v).setPrevIf v c

theorem insertHead_eq_link (h : H) (e : E) :
    insertHead m h e = m.link (.head h) e (first m h) := by
  unfold insertHead Memory.link first
  simp only [Memory.setNext, Memory.setPrev, Memory.setPrevIf, Function.update_of_ne head_ne_elem]

theorem insertAfter_eq_link {f e : E} (hne : f ≠ e) :
    insertAfter m f e = m.link (.elem f) e (next m f) := by
  unfold insertAfter Memory.link next
  simp only [Memory.setNext, Memory.setPrev, Memory.setPrevIf,
    Function.update_of_ne (elem_ne_elem hne)]

theorem insertBefore_eq_link {f e : E} (hne : f ≠ e) :
    insertBefore m f e = m.link (m.prev f) e (some f) := by
  unfold insertBefore Memory.link
  simp only [Memory.setNext, Memory.setPrev, Memory.setPrevIf, Function.update_of_ne hne]
  exact congrArg (Memory.mk _) (Function.update_comm hne _ _ _).symm

omit [DecidableEq H] in
/-- A link back that is not the one written. -/
theorem setPrevIf_of_ne {v : Option E} {x : E} (hv : v ≠ some x) (c : Cell H E) :
    (m.setPrevIf v c).prev x = m.prev x := by
  cases v with
  | none => rfl
  | some f => exact Function.update_of_ne (fun heq => hv (congrArg some heq.symm)) _ _

omit [DecidableEq H] in
theorem setPrevIf_self {v : Option E} {x : E} (hv : v = some x) (c : Cell H E) :
    (m.setPrevIf v c).prev x = c := by
  rw [hv]
  exact Function.update_self _ _ _

theorem remove_eq_unlink {e : E} (hne : next m e ≠ some e) :
    remove m e = m.unlink (m.prev e) (next m e) := by
  have hprev := setPrevIf_of_ne m hne (m.prev e)
  unfold remove Memory.unlink
  dsimp only
  rw [hprev]
  rfl

theorem concat_of_empty (n : ℕ) {h h' : H} (hfirst : first m h' = none) :
    concat m n h h' = some m := by
  unfold concat
  cases hf : first m h with
  | none =>
    have hsame : m.setNext (.head h) (first m h') = m := by
      rw [hfirst, ← hf]
      exact congrArg (Memory.mk · m.prev) (Function.update_eq_self _ _)
    dsimp only
    rw [hsame, hf]
  | some f =>
    dsimp only
    rw [hfirst]

theorem concat_of_first (n : ℕ) {h h' : H} (hne : h ≠ h') {f : E} (hfirst : first m h = none)
    (hfirst' : first m h' = some f) :
    concat m n h h' =
      some (init ((m.setNext (.head h) (first m h')).setPrevIf (first m h') (.head h)) h') := by
  have hsame : first (m.setNext (.head h) (first m h')) h = some f :=
    (Function.update_self _ _ _).trans hfirst'
  have hsame' : first (m.setNext (.head h) (first m h')) h' = first m h' :=
    Function.update_of_ne (head_ne_head hne.symm) _ _
  unfold concat
  rw [hfirst]
  dsimp only
  rw [hsame]
  dsimp only
  rw [hsame']

theorem concat_of_last {n : ℕ} {h h' : H} {f g curelm : E} (hfirst : first m h = some g)
    (hfirst' : first m h' = some f)
    (hseek : seek (next m) (fun e => (next m e).isNone) n (first m h) = some curelm) :
    concat m n h h' =
      some (init ((m.setNext (.elem curelm) (first m h')).setPrevIf (first m h') (.elem curelm))
        h') := by
  have hsame : first (m.setNext (.elem curelm) (first m h')) h' = first m h' :=
    Function.update_of_ne (head_ne_elem (e := curelm)) (first m h') m.next
  rw [hfirst] at hseek
  unfold concat
  rw [hfirst, hfirst']
  dsimp only
  rw [hseek, Option.map_some, ← hfirst', hsame]

end Forms

/-! ## Each macro -/

/-- The lists are these. -/
structure Represents (m : Memory H E) (a : H → List E) : Prop where
  own : Owned a
  forward : Forward m.next a
  backward : Backward m.prev a

section Represents

variable [DecidableEq H] [DecidableEq E] {m : Memory H E} {a a' : H → List E} {h : H}

theorem Represents.link (R : Represents m a) {l l' : List E} {e : E} (hl : a h = l ++ l')
    (fresh : ∀ g, e ∉ a g) :
    Represents (m.link (ends (.head h) l) e l'.head?) (Function.update a h (l ++ e :: l')) := by
  have hhead : l'.head? ≠ some e := fun heq =>
    fresh h (hl ▸ List.mem_append_right l (List.mem_of_head? heq))
  refine ⟨R.own.insert hl fresh, R.forward.link R.own hl fresh,
    R.backward.insert R.own hl fresh (Function.update_self _ _ _) ?_ ?_⟩
  · intro f hf
    have hne : f ≠ e := fun heq => hhead (heq ▸ hf)
    exact (Function.update_of_ne hne _ _).trans (setPrevIf_self _ hf _)
  · intro x hx hx'
    exact (Function.update_of_ne hx _ _).trans (setPrevIf_of_ne _ hx' _)

theorem Represents.unlink (R : Represents m a) {l l' : List E} {e : E} (hl : a h = l ++ e :: l') :
    Represents (m.unlink (ends (.head h) l) l'.head?) (Function.update a h (l ++ l')) where
  own := (Step.remove h l e l' hl).owned R.own
  forward := R.forward.unlink R.own hl
  backward := R.backward.remove R.own hl (fun _ hf => setPrevIf_self _ hf _)
    fun _ _ hx => setPrevIf_of_ne _ hx _

/-- What `LIST_CONCAT` writes, wherever it has found the end. -/
theorem Represents.concat (R : Represents m a) {h h' : H} (hne : h ≠ h') {c : Cell H E}
    (hc : c = ends (.head h) (a h)) :
    Represents (init ((m.setNext c (first m h')).setPrevIf (first m h') c) h')
      (Function.update (Function.update a h (a h ++ a h')) h' []) := by
  subst hc
  have hfirst : first m h' = (a h').head? := R.forward.next_head h'
  have hend : ends (.head h) (a h) ≠ .head h' := fun heq =>
    hne (head_mem_cells.mp (heq ▸ ends_mem_cells (List.append_nil (a h)).symm)).symm
  rw [hfirst]
  refine ⟨R.own.concat hne, R.forward.concat R.own hne ?_ (Function.update_self _ _ _) ?_,
    R.backward.concat R.own hne ?_ ?_⟩
  · exact (Function.update_of_ne hend _ _).trans (Function.update_self _ _ _)
  · exact fun c hc hc' => (Function.update_of_ne hc' _ _).trans (Function.update_of_ne hc _ _)
  · exact fun f hf => setPrevIf_self (m.setNext _ _) hf _
  · exact fun x hx => setPrevIf_of_ne (m.setNext _ _) hx _

theorem represents_concat (R : Represents m a) {h h' : H} (hne : h ≠ h') :
    ∃ n m', (∀ k, n ≤ k → concat m k h h' = some m') ∧
      Represents m' (Function.update (Function.update a h (a h ++ a h')) h' []) := by
  have hfirst : first m h = (a h).head? := R.forward.next_head h
  have hfirst' : first m h' = (a h').head? := R.forward.next_head h'
  cases hl' : a h' with
  | nil =>
    rw [List.append_nil, Function.update_eq_self, ← hl', Function.update_eq_self]
    exact ⟨0, m, fun k _ => concat_of_empty m k (hfirst'.trans (by rw [hl']; rfl)), R⟩
  | cons f l' =>
    rw [hl'] at hfirst'
    rw [← hl']
    cases hl : a h using List.reverseRecOn with
    | nil =>
      refine ⟨0, _, fun k _ => concat_of_first m k hne (hfirst.trans (by rw [hl]; rfl)) hfirst', ?_⟩
      have hconcat := R.concat (c := .head h) hne (by rw [hl]; rfl)
      rwa [hl] at hconcat
    | append_singleton l curelm =>
      have hseek : ∀ k, l.length + 1 ≤ k →
          seek (next m) (fun e => (next m e).isNone) k (first m h) = some curelm :=
        fun k hk => R.forward.seek_last hl hk
      cases hf : first m h with
      | none =>
        rw [hfirst, hl, List.head?_eq_none_iff] at hf
        exact absurd hf (by simp)
      | some g =>
        refine ⟨l.length + 1, _, fun k hk => concat_of_last m hf hfirst' (hseek k hk), ?_⟩
        have hconcat := R.concat (c := .elem curelm) hne (by rw [hl, ends_concat])
        rwa [hl] at hconcat

theorem represents_swap (R : Represents m a) (h h' : H) :
    Represents (swap m h h') (Function.update (Function.update a h (a h')) h' (a h)) := by
  have hfirst' : (swap m h h').next (.head h') = (a h).head? :=
    (Function.update_self _ _ _).trans (R.forward.next_head h)
  have hfirst : (swap m h h').next (.head h) = (a h').head? := by
    by_cases hh : h = h'
    · subst hh
      exact hfirst'
    · exact (Function.update_of_ne (head_ne_head hh) _ _).trans
        ((Function.update_self _ _ _).trans (R.forward.next_head h'))
  have hprev : (swap m h h').prev =
      ((m.setPrevIf (a h').head? (.head h)).setPrevIf (a h).head? (.head h')).prev := by
    rw [← hfirst, ← hfirst']
    rfl
  refine ⟨R.own.swap, R.forward.swap (hfirst.trans (R.forward.next_head h').symm)
    (Function.update_self _ _ _) ?_, R.backward.swap R.own ?_ ?_ ?_⟩
  · exact fun c hc hc' => (Function.update_of_ne hc' _ _).trans (Function.update_of_ne hc _ _)
  · intro f hf
    rw [hprev]
    exact setPrevIf_self _ hf _
  · intro f hf
    rw [hprev]
    by_cases hf' : (a h).head? = some f
    · have hh : h = h' := R.own.unique (List.mem_of_head? hf') (List.mem_of_head? hf)
      rw [setPrevIf_self _ hf' _, hh]
    · rw [setPrevIf_of_ne _ hf' _]
      exact setPrevIf_self _ hf _
  · intro x hx hx'
    rw [hprev, setPrevIf_of_ne _ hx _, setPrevIf_of_ne _ hx' _]

/-- **One macro.** -/
theorem represents_step {op : Op H E} (R : Represents m a) (hop : Step a op a')
    (havail : available op = true) :
    ∃ n m', (∀ k, n ≤ k → step k m op = some m') ∧ Represents m' a' := by
  have hne : ∀ {h l l' f e}, a h = l ++ f :: l' → (∀ g, e ∉ a g) → f ≠ e := fun hl fresh heq =>
    fresh _ (heq ▸ hl ▸ List.mem_append_right _ List.mem_cons_self)
  cases hop with
  | init h =>
    refine ⟨0, _, fun _ _ => rfl, R.own.sublist (List.nil_sublist _), ?_, ?_⟩
    · exact R.forward.init (Function.update_self _ _ _) fun c hc => Function.update_of_ne hc _ _
    · exact R.backward.update trivial fun _ _ _ _ => rfl
  | insertHead h e fresh =>
    refine ⟨0, _, fun _ _ => rfl, ?_⟩
    rw [insertHead_eq_link, show first m h = _ from R.forward.next_head h]
    exact R.link (List.nil_append _).symm fresh
  | insertTail h e fresh => cases havail
  | insertAfter h l f e l' hl fresh =>
    refine ⟨0, _, fun _ _ => rfl, ?_⟩
    have hlink := R.link (hl.trans (List.append_cons l f l')) fresh
    rw [insertAfter_eq_link m (hne hl fresh), show next m f = _ from R.forward.next_elem hl]
    rwa [ends_concat, List.append_assoc] at hlink
  | insertBefore h l f e l' hl fresh =>
    refine ⟨0, _, fun _ _ => rfl, ?_⟩
    rw [insertBefore_eq_link m (hne hl fresh), R.backward.prev_elem hl]
    exact R.link hl fresh
  | remove h l e l' hl =>
    refine ⟨0, _, fun _ _ => rfl, ?_⟩
    have hnext : next m e = l'.head? := R.forward.next_elem hl
    have hnodup := (List.nodup_append.mp (hl ▸ R.own.nodup h)).2.1
    have hself : next m e ≠ some e := fun heq =>
      (List.nodup_cons.mp hnodup).1 (List.mem_of_head? (hnext.symm.trans heq))
    rw [remove_eq_unlink m hself, R.backward.prev_elem hl, hnext]
    exact R.unlink hl
  | removeHead h e l hl => cases havail
  | removeAfter h l f e l' hl => cases havail
  | concat h h' hne => exact represents_concat R hne
  | swap h h' => exact ⟨0, _, fun _ _ => rfl, represents_swap R h h'⟩

end Represents

/-! ## What the macros read -/

section Reads

variable [DecidableEq H] [DecidableEq E]

/-- What the macros that only read give for a list with these elements. -/
structure Reads (m : Memory H E) (h : H) (l : List E) : Prop where
  empty : empty m h = l.isEmpty
  first : first m h = l.head?
  next : ∀ l₁ e l₂, l = l₁ ++ e :: l₂ → next m e = l₂.head?
  prev : ∀ l₁ e l₂, l = l₁ ++ e :: l₂ → prev m e h = l₁.getLast?
  foreach : ∀ n, l.length < n → foreach m n h = some l
  foreachFrom : ∀ l₁ e l₂ n, l = l₁ ++ e :: l₂ → l.length < n →
    foreachFrom m n (some e) h = some (e :: l₂)

theorem Represents.reads {m : Memory H E} {a : H → List E} (R : Represents m a) (h : H) :
    Reads m h (a h) where
  empty := by
    unfold empty first
    rw [R.forward.next_head h]
    cases a h <;> rfl
  first := R.forward.next_head h
  next l₁ e l₂ hl := R.forward.next_elem hl
  prev l₁ e l₂ hl := by
    unfold prev
    rw [R.backward.prev_elem hl, containerof_ends]
    by_cases hend : ends (.head h) l₁ = (.head h : Cell H E)
    · rw [if_pos hend, ends_eq_head hend]
      rfl
    · exact if_neg hend
  foreach n hn := walk_of_follows (R.forward.follows h) hn
  foreachFrom l₁ e l₂ n hl hn := by
    rw [hl, List.length_append] at hn
    exact walk_of_follows (R.forward.follows_from hl) (Nat.lt_of_le_of_lt (Nat.le_add_left _ _) hn)

end Reads

/-! ## Any sequence of the macros -/

section Runs

variable [Fintype H] [DecidableEq H] [DecidableEq E] {m : Memory H E} {ops : List (Op H E)}
  {a : H → List E}

/-- **Doubly-linked lists are lists**: any sequence of the macros in which an element that is put in
is in no list and one that is named is in a list comes to an end, and then the macros that read, in
either direction, give the elements of the corresponding lists. -/
theorem list_refines_lists (hm : m.Fresh) (havail : ∀ op ∈ ops, available op = true)
    (hops : exec Op.apply (fun _ => []) ops = some a) :
    ∃ n m', (∀ k, n ≤ k → exec (step k) m ops = some m') ∧ ∀ h, Reads m' h (a h) := by
  have hstep : ∀ (s : Memory H E) b op b', op ∈ ops → Represents s b → Op.apply b op = some b' →
      ∃ n s', (∀ k, n ≤ k → step k s op = some s') ∧ Represents s' b' :=
    fun _ _ op _ hop R happly =>
      represents_step R (Op.step_of_apply R.own happly) (havail op hop)
  have hstart : Represents m fun _ => [] := ⟨owned_nil, hm, fun _ => trivial⟩
  obtain ⟨n, m', hrun, R⟩ := exec_fuel_simulation hstep hstart hops
  exact ⟨n, m', hrun, R.reads⟩

/-- An element is put before the first one of a list, which is put behind another list, and the
element at the joint is taken out. -/
def someMacros : List (Op Bool ℕ) :=
  [.insertHead true 4, .insertAfter true 4 6, .insertAfter true 4 5, .insertBefore true 4 3,
    .insertHead false 1, .concat false true, .remove false 3, .insertHead true 9, .swap true false]

theorem list_refines_lists_some_macros :
    ∃ a, exec Op.apply (fun _ => []) someMacros = some a ∧ a true = [1, 4, 5, 6] ∧
      ∃ n m', (∀ k, n ≤ k →
          exec (step k) ⟨fun _ => none, fun _ => .elem 0⟩ someMacros = some m') ∧
        ∀ h, Reads m' h (a h) :=
  ⟨_, rfl, rfl, list_refines_lists (fun _ => rfl) (by decide) rfl⟩

end Runs

end Lists
end Queue
end Wpdk
