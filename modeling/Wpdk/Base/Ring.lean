import Mathlib.Data.List.Basic
import Mathlib.Data.Nat.ModEq
import Mathlib.Logic.Function.Basic

/-!
# A circular buffer and the queue it represents

A ring of `size` slots with a read index `head` and a write index `tail`, both taken
modulo `size`, and no count: the ring is empty when the two indices agree.  So the full
and the empty ring look alike, and only `size - 1` of the slots can be in use.

* `Ring.push`, `Ring.pop?`, `Ring.drain`: the producer's store, the consumer's load, and
  the consumer's loop.  None of them checks for a full ring.
* `Ring.Holds r q`: the ring `r` represents the queue `q`.  The slots from `head` on, in
  order and with wrap-around, are the elements of `q`, and `q` is shorter than `size`.
* `Holds.push`, `Holds.pop?`, `Holds.drain`: the operations refine `q ++ [x]`, `q.tail` and
  `q.splitAt n`.  The first one needs room for one more element.
* `Holds.nextTail_eq_head_iff`: the test that the producer would have to make.
-/

namespace Wpdk

/-- A circular buffer.  The indices stay inside the buffer, which therefore has at least
one slot. -/
structure Ring (α : Type*) where
  size : ℕ
  head : ℕ
  tail : ℕ
  slots : ℕ → α
  head_lt : head < size
  tail_lt : tail < size

namespace Ring

variable {α : Type*}

theorem size_pos (r : Ring α) : 0 < r.size := Nat.lt_of_le_of_lt (Nat.zero_le _) r.head_lt

/-- Store at `tail` and advance it. -/
def push (r : Ring α) (x : α) : Ring α where
  size := r.size
  head := r.head
  tail := (r.tail + 1) % r.size
  slots := Function.update r.slots r.tail x
  head_lt := r.head_lt
  tail_lt := Nat.mod_lt _ r.size_pos

/-- The ring with `head` advanced by one. -/
def advance (r : Ring α) : Ring α where
  size := r.size
  head := (r.head + 1) % r.size
  tail := r.tail
  slots := r.slots
  head_lt := Nat.mod_lt _ r.size_pos
  tail_lt := r.tail_lt

/-- Load from `head` and advance it, unless the indices agree. -/
def pop? (r : Ring α) : Option (α × Ring α) :=
  if r.head = r.tail then none else some (r.slots r.head, r.advance)

/-- Pop at most `n` times, and stop at an empty ring. -/
def drain (r : Ring α) : ℕ → List α × Ring α
  | 0 => ([], r)
  | n + 1 =>
    match r.pop? with
    | none => ([], r)
    | some (x, r') => (x :: (drain r' n).1, (drain r' n).2)

theorem drain_succ_of_none {r : Ring α} (h : r.pop? = none) (n : ℕ) :
    r.drain (n + 1) = ([], r) := by
  rw [drain, h]

theorem drain_succ_of_some {r r' : Ring α} {x : α} (h : r.pop? = some (x, r')) (n : ℕ) :
    r.drain (n + 1) = (x :: (r'.drain n).1, (r'.drain n).2) := by
  rw [drain, h]

/-- The ring represents the queue: its slots from `head` on are the queue, and the queue
leaves at least one slot free. -/
structure Holds (r : Ring α) (q : List α) : Prop where
  length_lt : q.length < r.size
  tail_eq : r.tail = (r.head + q.length) % r.size
  slot_eq : ∀ (i : ℕ) (hi : i < q.length), r.slots ((r.head + i) % r.size) = q[i]

variable {r : Ring α} {q : List α}

/-- Slots at different distances from `head`, both less than `size`, are different. -/
theorem add_mod_ne {h i j n : ℕ} (hij : i < j) (hjn : j < n) : (h + i) % n ≠ (h + j) % n := by
  intro heq
  have hdvd : n ∣ (h + j) - (h + i) := (Nat.modEq_iff_dvd' (by omega)).mp heq
  have hle : n ≤ (h + j) - (h + i) := Nat.le_of_dvd (by omega) hdvd
  omega

/-- **The ring looks empty exactly when it is.** -/
theorem Holds.head_eq_tail_iff (h : r.Holds q) : r.head = r.tail ↔ q = [] := by
  have hself : (r.head + 0) % r.size = r.head := Nat.mod_eq_of_lt r.head_lt
  constructor
  · intro heq
    rw [h.tail_eq] at heq
    by_contra hne
    have hpos : 0 < q.length := List.length_pos_iff.mpr hne
    exact add_mod_ne hpos h.length_lt (hself.trans heq)
  · intro hq
    rw [h.tail_eq, hq]
    exact hself.symm

/-- **The ring is full exactly when one more store would make the indices agree.** -/
theorem Holds.nextTail_eq_head_iff (h : r.Holds q) :
    (r.tail + 1) % r.size = r.head ↔ q.length + 1 = r.size := by
  have hnext : (r.tail + 1) % r.size = (r.head + (q.length + 1)) % r.size := by
    rw [h.tail_eq, Nat.mod_add_mod, Nat.add_assoc]
  have hself : (r.head + 0) % r.size = r.head := Nat.mod_eq_of_lt r.head_lt
  rw [hnext]
  constructor
  · intro heq
    by_contra hne
    have hlt : q.length + 1 < r.size := lt_of_le_of_ne h.length_lt hne
    exact add_mod_ne (Nat.succ_pos _) hlt (hself.trans heq.symm)
  · intro heq
    rw [heq, Nat.add_mod_right]
    exact hself

/-- A ring with room for one more element takes it at the end of the queue. -/
theorem Holds.push (h : r.Holds q) (hroom : q.length + 1 < r.size) (x : α) :
    (r.push x).Holds (q ++ [x]) where
  length_lt := by
    rw [List.length_append, List.length_singleton]
    exact hroom
  tail_eq := by
    rw [List.length_append, List.length_singleton]
    show (r.tail + 1) % r.size = (r.head + (q.length + 1)) % r.size
    rw [h.tail_eq, Nat.mod_add_mod, Nat.add_assoc]
  slot_eq := by
    intro i hi
    rw [List.length_append, List.length_singleton] at hi
    show Function.update r.slots r.tail x ((r.head + i) % r.size) = (q ++ [x])[i]
    rcases Nat.lt_succ_iff_lt_or_eq.mp hi with hlt | heq
    · -- an element stored earlier lies at another distance from `head`
      have hne : (r.head + i) % r.size ≠ r.tail := by
        rw [h.tail_eq]
        exact add_mod_ne hlt h.length_lt
      rw [Function.update_of_ne hne, List.getElem_append_left hlt]
      exact h.slot_eq i hlt
    · subst heq
      rw [← h.tail_eq, Function.update_self, List.getElem_concat_length rfl]

theorem Holds.pop?_nil (h : r.Holds []) : r.pop? = none := by
  rw [pop?, if_pos (h.head_eq_tail_iff.mpr rfl)]

/-- Advancing `head` drops the first element of the queue. -/
theorem Holds.advance {x : α} (h : r.Holds (x :: q)) : r.advance.Holds q where
  length_lt := by
    have hlt := h.length_lt
    rw [List.length_cons] at hlt
    exact Nat.lt_of_succ_lt hlt
  tail_eq := by
    show r.tail = ((r.head + 1) % r.size + q.length) % r.size
    rw [h.tail_eq, Nat.mod_add_mod, List.length_cons, Nat.add_assoc, Nat.add_comm 1]
  slot_eq := by
    intro i hi
    show r.slots (((r.head + 1) % r.size + i) % r.size) = q[i]
    have hnext := h.slot_eq (i + 1) (by rw [List.length_cons]; omega)
    rw [Nat.mod_add_mod, Nat.add_assoc, Nat.add_comm 1]
    rw [hnext, List.getElem_cons_succ]

theorem Holds.pop?_cons {x : α} (h : r.Holds (x :: q)) : r.pop? = some (x, r.advance) := by
  have hne : ¬ r.head = r.tail := by
    rw [h.head_eq_tail_iff]
    exact List.cons_ne_nil x q
  have hx := h.slot_eq 0 (by rw [List.length_cons]; omega)
  rw [Nat.add_zero, Nat.mod_eq_of_lt r.head_lt, List.getElem_cons_zero] at hx
  rw [pop?, if_neg hne, hx]

/-- **The consumer's loop takes a prefix of the queue and leaves the rest.** -/
theorem Holds.drain (h : r.Holds q) (n : ℕ) :
    (r.drain n).1 = q.take n ∧ (r.drain n).2.Holds (q.drop n) := by
  induction n generalizing r q with
  | zero => exact ⟨rfl, h⟩
  | succ n ih =>
    cases q with
    | nil =>
      rw [drain_succ_of_none h.pop?_nil]
      exact ⟨rfl, h⟩
    | cons x q =>
      obtain ⟨htake, hdrop⟩ := ih h.advance
      rw [drain_succ_of_some h.pop?_cons, List.take_succ_cons, List.drop_succ_cons]
      exact ⟨congrArg _ htake, hdrop⟩

end Ring
end Wpdk
