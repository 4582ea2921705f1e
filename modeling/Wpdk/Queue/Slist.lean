import Mathlib.Logic.Function.Basic
import Wpdk.Base.Links

/-!
# Singly-linked lists

`SLIST_*` of `sys/queue.h`.  There is nothing but the forward links, so that taking an element out
or putting one list behind another has to look for the place.  The loops that do this follow the
links without a test for the end: they are bounded here, and a call that would read the link of no
element gives nothing.

`SLIST_FOREACH_PREVPTR` keeps the address of the link that the element was found in, and
`SLIST_REMOVE_PREVPTR` writes there; together they are a removal that does not look twice.

* `Memory`, and the macros.
* `represents_step`: one macro; `slist_refines_lists`: any sequence of them.
* `slist_remove_prevptr`: the two removals write the same.
-/

namespace Wpdk
namespace Queue
namespace Slist

open Run Links

variable {H E : Type*}

/-- `slh_first` of the heads and `sle_next` of the elements. -/
abbrev Memory (H E : Type*) := Cell H E → Option E

section Macros

variable [DecidableEq H] [DecidableEq E] (m : Memory H E)

/-- `SLIST_FIRST`. -/
def first (h : H) : Option E := m (.head h)

/-- `SLIST_EMPTY`. -/
def empty (h : H) : Bool := (first m h).isNone

/-- `SLIST_NEXT`. -/
def next (e : E) : Option E := m (.elem e)

/-- `SLIST_INIT`. -/
def init (h : H) : Memory H E := Function.update m (.head h) none

/-- `SLIST_INSERT_HEAD`. -/
def insertHead (h : H) (e : E) : Memory H E :=
  let m := Function.update m (.elem e) (first m h)
  Function.update m (.head h) (some e)

/-- `SLIST_INSERT_AFTER`. -/
def insertAfter (f e : E) : Memory H E :=
  let m := Function.update m (.elem e) (next m f)
  Function.update m (.elem f) (some e)

/-- `SLIST_REMOVE_AFTER`. -/
def removeAfter (f : E) : Option (Memory H E) :=
  (next m f).map fun e => Function.update m (.elem f) (next m e)

/-- `SLIST_REMOVE_HEAD`. -/
def removeHead (h : H) : Option (Memory H E) :=
  (first m h).map fun e => Function.update m (.head h) (next m e)

/-- `SLIST_REMOVE`. -/
def remove (n : ℕ) (h : H) (e : E) : Option (Memory H E) :=
  if first m h = some e then removeHead m h
  else (seek (next m) (fun curelm => next m curelm == some e) n (first m h)).bind (removeAfter m)

/-- `SLIST_CONCAT`. -/
def concat (n : ℕ) (h h' : H) : Option (Memory H E) :=
  match first m h with
  | none =>
    let m := Function.update m (.head h) (first m h')
    some (if (first m h).isSome then init m h' else m)
  | some curelm =>
    if (first m h').isSome then
      (seek (next m) (fun curelm => (next m curelm).isNone) n (some curelm)).map fun curelm =>
        init (Function.update m (.elem curelm) (first m h')) h'
    else some m

/-- `SLIST_SWAP`. -/
def swap (h h' : H) : Memory H E :=
  let swapFirst := first m h
  let m := Function.update m (.head h) (first m h')
  Function.update m (.head h') swapFirst

/-- `SLIST_FOREACH`, with a bound on the rounds. -/
def foreach (n : ℕ) (h : H) : Option (List E) := walk (next m) n (first m h)

/-- `SLIST_FOREACH_FROM`. -/
def foreachFrom (n : ℕ) (var : Option E) (h : H) : Option (List E) :=
  walk (next m) n (var.or (first m h))

/-- `SLIST_FOREACH_PREVPTR` up to an element: the address of the link to it. -/
def foreachPrevptr (e : E) : ℕ → Cell H E → Option (Cell H E)
  | 0, _ => none
  | n + 1, varp =>
    match m varp with
    | none => none
    | some var => if var = e then some varp else foreachPrevptr e n (.elem var)

/-- `SLIST_REMOVE_PREVPTR`. -/
def removePrevptr (prevp : Cell H E) (e : E) : Memory H E := Function.update m prevp (next m e)

end Macros

/-- The macros that write. -/
def step [DecidableEq H] [DecidableEq E] (n : ℕ) (m : Memory H E) : Op H E → Option (Memory H E)
  | .init h => some (init m h)
  | .insertHead h e => some (insertHead m h e)
  | .insertTail _ _ => none
  | .insertAfter _ f e => some (insertAfter m f e)
  | .insertBefore _ _ _ => none
  | .remove h e => remove m n h e
  | .removeHead h => removeHead m h
  | .removeAfter _ f => removeAfter m f
  | .concat h h' => concat m n h h'
  | .swap h h' => some (swap m h h')

/-- The column of the table of macros. -/
def available : Op H E → Bool
  | .insertTail _ _ => false
  | .insertBefore _ _ _ => false
  | _ => true

/-- `SLIST_HEAD_INITIALIZER`; the links of the elements are not initialised. -/
def Memory.Fresh (m : Memory H E) : Prop := ∀ h, m (.head h) = none

/-! ## Each macro -/

/-- The lists are these. -/
structure Represents (m : Memory H E) (a : H → List E) : Prop where
  own : Owned a
  forward : Forward m a

section Represents

variable [DecidableEq H] [DecidableEq E] {m : Memory H E} {a a' : H → List E} {h : H}

theorem removeHead_eq (R : Represents m a) {e : E} {l : List E} (hl : a h = e :: l) :
    removeHead m h = some (Function.update m (.head h) l.head?) := by
  have hfirst : first m h = some e := (R.forward.next_head h).trans (by rw [hl]; rfl)
  have hnext : next m e = l.head? := R.forward.next_elem (hl.trans (List.nil_append _).symm)
  unfold removeHead
  rw [hfirst, Option.map_some, hnext]

theorem removeAfter_eq (R : Represents m a) {l l' : List E} {f e : E}
    (hl : a h = l ++ f :: e :: l') :
    removeAfter m f = some (Function.update m (.elem f) l'.head?) := by
  have hnext : next m f = some e := R.forward.next_elem hl
  have hnext' : next m e = l'.head? := R.forward.next_elem (hl.trans (List.append_cons l f _))
  unfold removeAfter
  rw [hnext, Option.map_some, hnext']

theorem remove_eq (R : Represents m a) {l l' : List E} {e : E} (hl : a h = l ++ e :: l') {n : ℕ}
    (hn : l.length ≤ n) : remove m n h e = some
    (Function.update m (ends (.head h) l) l'.head?) := by
  unfold remove
  cases l using List.reverseRecOn with
  | nil =>
    have hfirst : first m h = some e := (R.forward.next_head h).trans (by rw [hl]; rfl)
    rw [if_pos hfirst, removeHead_eq R hl]
    rfl
  | append_singleton l f =>
    have hsplit : a h = l ++ f :: e :: l' := hl.trans (List.append_assoc l [f] _)
    have hfirst : first m h ≠ some e := R.forward.next_head_ne R.own hsplit
    have hseek : seek (next m) (fun curelm => next m curelm == some e) n (first m h) = some f :=
      R.forward.seek_before R.own hsplit (by rwa [List.length_append] at hn)
    rw [if_neg hfirst, hseek, Option.bind_some, removeAfter_eq R hsplit, ends_append]
    rfl

/-- The place is the head of a list that is empty, or the last element. -/
theorem represents_concat (R : Represents m a) {h h' : H} (hne : h ≠ h') :
    ∃ n m', (∀ k, n ≤ k → concat m k h h' = some m') ∧
      Represents m' (Function.update (Function.update a h (a h ++ a h')) h' []) := by
  have hfirst : first m h = (a h).head? := R.forward.next_head h
  have hfirst' : first m h' = (a h').head? := R.forward.next_head h'
  have hwritten : ∀ c, c = ends (.head h) (a h) → Represents
      (Function.update (Function.update m c (first m h')) (.head h') none)
      (Function.update (Function.update a h (a h ++ a h')) h' []) := by
    rintro c rfl
    have hend : ends (.head h) (a h) ≠ .head h' := fun heq =>
      hne (head_mem_cells.mp (heq ▸ ends_mem_cells (List.append_nil (a h)).symm)).symm
    refine ⟨R.own.concat hne, R.forward.concat R.own hne ?_ (Function.update_self _ _ _) ?_⟩
    · rw [Function.update_of_ne hend, Function.update_self, hfirst']
    · intro c hc hc'
      rw [Function.update_of_ne hc', Function.update_of_ne hc]
  cases hl' : a h' with
  | nil =>
    -- nothing changes, also where the macro writes
    rw [hl'] at hfirst'
    rw [List.append_nil, Function.update_eq_self, ← hl', Function.update_eq_self]
    refine ⟨0, m, fun k _ => ?_, R⟩
    unfold concat
    cases hf : first m h with
    | none =>
      have hsame : Function.update m (.head h) (first m h') = m :=
        (congrArg _ (hfirst'.trans hf.symm)).trans (Function.update_eq_self _ _)
      dsimp only
      rw [hsame, hf]
      rfl
    | some f =>
      dsimp only
      rw [hfirst']
      rfl
  | cons f' l' =>
    rw [← hl']
    have hsome : (first m h').isSome = true := by
      rw [hfirst', hl']
      rfl
    cases hl : a h using List.reverseRecOn with
    | nil =>
      refine ⟨0, _, fun k _ => ?_, hl ▸ hwritten (.head h) (by rw [hl]; rfl)⟩
      unfold concat
      rw [hfirst, hl]
      dsimp only [List.head?_nil]
      rw [if_pos]
      · rfl
      · rwa [first, Function.update_self]
    | append_singleton l f =>
      refine ⟨l.length + 1, _, fun k hk => ?_, hl ▸ hwritten (.elem f)
        (by rw [hl, ends_append]; rfl)⟩
      have hseek : seek (next m) (fun curelm => (next m curelm).isNone) k (first m h) = some f :=
        R.forward.seek_last hl hk
      unfold concat
      cases hf : first m h with
      | none =>
        rw [hfirst, hl, List.head?_eq_none_iff] at hf
        exact absurd hf (by simp)
      | some f' =>
        rw [hf] at hseek
        dsimp only
        rw [if_pos hsome, hseek]
        rfl

/-- **One macro.** -/
theorem represents_step {op : Op H E} (R : Represents m a) (hop : Step a op a')
    (havail : available op = true) :
    ∃ n m', (∀ k, n ≤ k → step k m op = some m') ∧ Represents m' a' := by
  have hown := hop.owned R.own
  cases hop with
  | init h =>
    refine ⟨0, _, fun _ _ => rfl, hown, ?_⟩
    exact R.forward.init (Function.update_self _ _ _) fun c hc => Function.update_of_ne hc _ _
  | insertHead h e fresh =>
    refine ⟨0, _, fun _ _ => rfl, hown, ?_⟩
    unfold insertHead first
    rw [R.forward.next_head h]
    exact R.forward.link R.own (List.nil_append _).symm fresh
  | insertTail h e fresh => cases havail
  | insertAfter h l f e l' hl fresh =>
    refine ⟨0, _, fun _ _ => rfl, hown, ?_⟩
    have hlink := R.forward.link R.own (hl.trans (List.append_cons l f l')) fresh
    unfold insertAfter next
    rw [R.forward.next_elem hl]
    rwa [ends_append, List.append_assoc] at hlink
  | insertBefore h l f e l' hl fresh => cases havail
  | remove h l e l' hl =>
    exact ⟨l.length, _, fun k hk => remove_eq R hl hk, hown, R.forward.unlink R.own hl⟩
  | removeHead h e l hl =>
    exact ⟨0, _, fun _ _ => removeHead_eq R hl, hown,
      R.forward.unlink R.own (hl.trans (List.nil_append _).symm)⟩
  | removeAfter h l f e l' hl =>
    have hunlink := R.forward.unlink R.own (hl.trans (List.append_cons l f _))
    rw [ends_append, List.append_assoc] at hunlink
    exact ⟨0, _, fun _ _ => removeAfter_eq R hl, hown, hunlink⟩
  | concat h h' hne => exact represents_concat R hne
  | swap h h' =>
    refine ⟨0, _, fun _ _ => rfl, hown, R.forward.swap ?_ (Function.update_self _ _ _) ?_⟩
    · unfold swap first
      by_cases hh : h = h'
      · subst hh
        rw [Function.update_self]
      · rw [Function.update_of_ne (head_ne_head hh), Function.update_self]
    · exact fun c hc hc' => (Function.update_of_ne hc' _ _).trans (Function.update_of_ne hc _ _)

end Represents

/-! ## What the macros read -/

/-- What the macros that only read give for a list with these elements. -/
structure Reads (m : Memory H E) (h : H) (l : List E) : Prop where
  empty : empty m h = l.isEmpty
  first : first m h = l.head?
  next : ∀ l₁ e l₂, l = l₁ ++ e :: l₂ → next m e = l₂.head?
  foreach : ∀ n, l.length < n → foreach m n h = some l
  foreachFrom : ∀ l₁ e l₂ n, l = l₁ ++ e :: l₂ → l.length < n →
    foreachFrom m n (some e) h = some (e :: l₂)

theorem Represents.reads {m : Memory H E} {a : H → List E} (R : Represents m a) (h : H) :
    Reads m h (a h) where
  empty := by
    unfold empty first
    rw [R.forward.next_head h]
    cases a h <;> rfl
  first := R.forward.next_head h
  next l₁ e l₂ hl := R.forward.next_elem hl
  foreach n hn := walk_of_follows (R.forward.follows h) hn
  foreachFrom l₁ e l₂ n hl hn := by
    rw [hl, List.length_append] at hn
    exact walk_of_follows (R.forward.follows_from hl) (Nat.lt_of_le_of_lt (Nat.le_add_left _ _) hn)

/-! ## Any sequence of the macros -/

section Runs

variable [Fintype H] [DecidableEq H] [DecidableEq E] {m : Memory H E} {ops : List (Op H E)}
  {a : H → List E}

theorem represents_run (hm : m.Fresh) (havail : ∀ op ∈ ops, available op = true)
    (hops : exec Op.apply (fun _ => []) ops = some a) :
    ∃ n m', (∀ k, n ≤ k → exec (step k) m ops = some m') ∧ Represents m' a := by
  have hstep : ∀ (s : Memory H E) b op b', op ∈ ops → Represents s b → Op.apply b op = some b' →
      ∃ n s', (∀ k, n ≤ k → step k s op = some s') ∧ Represents s' b' :=
    fun _ _ op _ hop R happly =>
      represents_step R (Op.step_of_apply R.own happly) (havail op hop)
  exact exec_fuel_simulation hstep ⟨owned_nil, hm⟩ hops

/-- **Singly-linked lists are lists**: any sequence of the macros in which an element that is put in
is in no list and one that is named is in the list that is named comes to an end, and then the
macros that read give the elements of the corresponding lists. -/
theorem slist_refines_lists (hm : m.Fresh) (havail : ∀ op ∈ ops, available op = true)
    (hops : exec Op.apply (fun _ => []) ops = some a) :
    ∃ n m', (∀ k, n ≤ k → exec (step k) m ops = some m') ∧ ∀ h, Reads m' h (a h) := by
  obtain ⟨n, m', hrun, R⟩ := represents_run hm havail hops
  exact ⟨n, m', hrun, R.reads⟩

/-- `5` is put behind `4`, a list is put behind another one, and `4` is taken out from the
middle. -/
def someMacros : List (Op Bool ℕ) :=
  [.insertHead true 4, .insertAfter true 4 5, .insertHead false 2, .insertHead false 1,
    .concat false true, .remove false 4, .insertHead true 7, .removeAfter false 1]

theorem slist_refines_lists_some_macros :
    ∃ a, exec Op.apply (fun _ => []) someMacros = some a ∧ a false = [1, 5] ∧
      ∃ n m', (∀ k, n ≤ k → exec (step k) (fun _ => none) someMacros = some m') ∧
        ∀ h, Reads m' h (a h) :=
  ⟨_, rfl, rfl, slist_refines_lists (fun _ => rfl) (by decide) rfl⟩

end Runs

/-! ## The address of the link -/

section Prevptr

variable [DecidableEq H] [DecidableEq E] {m : Memory H E} {e : E} {l l' : List E}

omit [DecidableEq H] in
theorem foreachPrevptr_of_path {c : Cell H E} {n : ℕ} (h : Path m c (l ++ e :: l') none)
    (he : e ∉ l) (hn : l.length < n) : foreachPrevptr m e n c = some (ends c l) := by
  induction l generalizing c n with
  | nil =>
    obtain ⟨n, rfl⟩ := Nat.exists_eq_add_one_of_ne_zero (Nat.ne_zero_of_lt hn)
    rw [foreachPrevptr, h.1]
    exact if_pos rfl
  | cons x l ih =>
    obtain ⟨n, rfl⟩ := Nat.exists_eq_add_one_of_ne_zero (Nat.ne_zero_of_lt hn)
    have hx : x ≠ e := fun heq => he (heq ▸ List.mem_cons_self)
    rw [foreachPrevptr, h.1]
    exact (if_neg hx).trans
      (ih h.2 (fun hmem => he (List.mem_cons_of_mem x hmem)) (Nat.lt_of_succ_lt_succ hn))

variable [Fintype H] {ops : List (Op H E)} {a : H → List E}

/-- **The two removals write the same**: looking for an element with `SLIST_FOREACH_PREVPTR` and
writing to the address that it was found at is what `SLIST_REMOVE` does. -/
theorem slist_remove_prevptr (hm : m.Fresh) (havail : ∀ op ∈ ops, available op = true)
    (hops : exec Op.apply (fun _ => []) ops = some a) {h : H} {e : E} (he : e ∈ a h) :
    ∃ n m' m'', (∀ k, n ≤ k → exec (step k) m ops = some m' ∧ remove m' k h e = some m'' ∧
        (foreachPrevptr m' e k (.head h)).map (removePrevptr m' · e) = some m'') ∧
      Reads m'' h ((a h).erase e) := by
  obtain ⟨n, m', hrun, R⟩ := represents_run hm havail hops
  obtain ⟨l, l', hl, hmem⟩ := R.own.split he
  have hremoved : Represents (Function.update m' (ends (.head h) l) l'.head?)
      (Function.update a h (l ++ l')) :=
    ⟨(Step.remove h l e l' hl).owned R.own, R.forward.unlink R.own hl⟩
  have hpath := R.forward h
  rw [hl] at hpath
  refine ⟨max n (l.length + 1), m', _, fun k hk => ⟨hrun k ?_, remove_eq R hl ?_, ?_⟩, ?_⟩
  · exact Nat.le_trans (Nat.le_max_left _ _) hk
  · exact Nat.le_trans (Nat.le_trans (Nat.le_succ _) (Nat.le_max_right _ _)) hk
  · rw [foreachPrevptr_of_path hpath hmem (Nat.le_trans (Nat.le_max_right _ _) hk), Option.map_some]
    exact congrArg (fun v => some (Function.update m' _ v)) (R.forward.next_elem hl)
  · have hreads := hremoved.reads h
    rw [hl, List.erase_append_right _ hmem, List.erase_cons_head]
    rwa [Function.update_self] at hreads

theorem slist_remove_prevptr_some_macros :
    ∃ a, exec Op.apply (fun _ => []) someMacros = some a ∧
      ∃ n m' m'', (∀ k, n ≤ k → exec (step k) (fun _ => none) someMacros = some m' ∧
          remove m' k false 5 = some m'' ∧
          (foreachPrevptr m' 5 k (.head false)).map (removePrevptr m' · 5) = some m'') ∧
        Reads m'' false ((a false).erase 5) :=
  ⟨_, rfl, slist_remove_prevptr (fun _ => rfl) (by decide) rfl (by decide)⟩

end Prevptr

end Slist
end Queue
end Wpdk
