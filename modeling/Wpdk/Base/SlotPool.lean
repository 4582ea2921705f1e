import Mathlib.Data.Nat.Notation
import Mathlib.Logic.Function.Basic

/-!
# Resources behind a table of slots

Threads obtain resources from a supplier, store them in the slots of a shared table, take them
out again and dispose of them.  A resource is known by a *value* --- a handle, an address --- which
the supplier may give out again as soon as the resource behind it has been disposed of, so the
resources are numbered in the order in which they are obtained.

The abstract view is `Pool.place`: every resource is at one place, with a thread, in a slot, or
disposed of.  A pool does not know which value each thread works on; that is a parameter
`held`, read off the state of the threads.  `Owned held p` says that the slots and the threads
have exactly the values of the resources that are placed there, and that disposals are counted
right.

* `obtain`, `claim`, `remove`, `dispose`: the four operations.
* `Owned.obtain`, `Owned.claim`, `Owned.remove`, `Owned.dispose`: each keeps the ownership,
  under the condition that an atomic operation on the table has checked.
* `Owned.slot_unique`, `Owned.place_cases`, `Owned.disposals_le_one`: what ownership gives.
-/

namespace Wpdk

/-- Where a resource is. -/
inductive Place where
  | absent
  | thread (t : ℕ)
  | slot (i : ℕ)
  | disposed
deriving DecidableEq

/-- A table of slots, the resource obtained last under each value, and for each resource its
value, its place and the number of times it was disposed of. -/
structure Pool where
  slots : ℕ → Option ℕ
  latest : ℕ → Option ℕ
  obtained : ℕ
  value : ℕ → ℕ
  place : ℕ → Place
  disposals : ℕ → ℕ

namespace Pool

/-- No resource has been obtained. -/
def empty : Pool := ⟨fun _ => none, fun _ => none, 0, fun _ => 0, fun _ => .absent, fun _ => 0⟩

/-- The value stands for a resource that has not been disposed of. -/
def InUse (p : Pool) (v : ℕ) : Prop := ∃ k, p.latest v = some k ∧ p.disposals k = 0

instance (p : Pool) (v : ℕ) : Decidable (p.InUse v) :=
  match h : p.latest v with
  | none => isFalse (by simp [InUse, h])
  | some k => decidable_of_iff (p.disposals k = 0) (by simp [InUse, h])

/-- The places after the resource known by `v` has moved. -/
def moved (p : Pool) (v : ℕ) (place : Place) : ℕ → Place :=
  match p.latest v with
  | none => p.place
  | some k => Function.update p.place k place

/-- Thread `t` is given a new resource under the value `v`. -/
def obtain (p : Pool) (t v : ℕ) : Pool where
  slots := p.slots
  latest := Function.update p.latest v (some p.obtained)
  obtained := p.obtained + 1
  value := Function.update p.value p.obtained v
  place := Function.update p.place p.obtained (.thread t)
  disposals := p.disposals

/-- The value is written to a slot. -/
def claim (p : Pool) (i v : ℕ) : Pool :=
  { p with slots := Function.update p.slots i (some v), place := p.moved v (.slot i) }

/-- The slot is emptied by thread `t`, which keeps the value. -/
def remove (p : Pool) (t i v : ℕ) : Pool :=
  { p with slots := Function.update p.slots i none, place := p.moved v (.thread t) }

/-- The resource known by the value is disposed of. -/
def dispose (p : Pool) (v : ℕ) : Pool :=
  match p.latest v with
  | none => p
  | some k =>
    { p with
      place := Function.update p.place k .disposed
      disposals := Function.update p.disposals k (p.disposals k + 1) }

/-- **Every resource is at its place**, the threads working on the values `held`. -/
structure Owned (held : ℕ → Option ℕ) (p : Pool) : Prop where
  absent_iff : ∀ k, p.place k = .absent ↔ p.obtained ≤ k
  latest_value : ∀ v k, p.latest v = some k → p.value k = v ∧ k < p.obtained
  latest_of_place : ∀ k, k < p.obtained → p.place k ≠ .disposed →
    p.latest (p.value k) = some k
  slot_holds : ∀ i v, p.slots i = some v → ∃ k, p.latest v = some k ∧ p.place k = .slot i
  thread_holds : ∀ t v, held t = some v → ∃ k, p.latest v = some k ∧ p.place k = .thread t
  of_slot : ∀ k i, p.place k = .slot i → p.slots i = some (p.value k)
  of_thread : ∀ k t, p.place k = .thread t → held t = some (p.value k)
  disposals_eq : ∀ k, p.disposals k = if p.place k = .disposed then 1 else 0

variable {held : ℕ → Option ℕ} {p : Pool}

theorem owned_empty : Owned (fun _ => none) empty := by
  refine ⟨?_, ?_, ?_, ?_, ?_, ?_, ?_, ?_⟩ <;> simp [empty]

/-! ## Maps in which a value occurs once -/

section Occurrences

variable {f : ℕ → Option ℕ} {i v : ℕ}

/-- A value that was nowhere is put in an empty place. -/
theorem update_some_iff (hi : f i = none) (hv : ∀ j, f j ≠ some v) {j w : ℕ} :
    Function.update f i (some v) j = some w ↔ (f j = some w ∧ w ≠ v) ∨ (j = i ∧ w = v) := by
  by_cases hji : j = i
  · subst hji
    simp [hi, eq_comm]
  · have hw : f j = some w → w ≠ v := by
      rintro hj rfl
      exact hv j hj
    rw [Function.update_of_ne hji]
    exact ⟨fun hj => Or.inl ⟨hj, hw hj⟩, fun hj => hj.elim And.left fun hj => absurd hj.1 hji⟩

/-- A value is taken from the one place where it was. -/
theorem update_none_iff (hi : f i = some v) (hv : ∀ j, f j = some v → j = i) {j w : ℕ} :
    Function.update f i none j = some w ↔ f j = some w ∧ w ≠ v := by
  by_cases hji : j = i
  · subst hji
    simp [hi, eq_comm]
  · have hw : f j = some w → w ≠ v := by
      rintro hj rfl
      exact hji (hv j hj)
    rw [Function.update_of_ne hji]
    exact ⟨fun hj => ⟨hj, hw hj⟩, fun hj => hj.1⟩

end Occurrences

/-! ## What ownership gives -/

namespace Owned

/-- A resource that is somewhere has been obtained. -/
theorem lt_obtained (h : Owned held p) {k : ℕ} (hk : p.place k ≠ .absent) : k < p.obtained :=
  Nat.lt_of_not_le fun hge => hk ((h.absent_iff k).mpr hge)

/-- A resource in a slot is the latest one under its value. -/
theorem latest_of_slot (h : Owned held p) {k i : ℕ} (hk : p.place k = .slot i) :
    p.latest (p.value k) = some k :=
  h.latest_of_place k (h.lt_obtained (by simp [hk])) (by simp [hk])

/-- Two resources in one slot are one. -/
theorem slot_unique (h : Owned held p) {k l i : ℕ} (hk : p.place k = .slot i)
    (hl : p.place l = .slot i) : k = l := by
  have hvalue : p.value k = p.value l :=
    Option.some.inj ((h.of_slot k i hk).symm.trans (h.of_slot l i hl))
  have hlatest := h.latest_of_slot hl
  rw [← hvalue, h.latest_of_slot hk] at hlatest
  exact Option.some.inj hlatest

theorem disposals_le_one (h : Owned held p) (k : ℕ) : p.disposals k ≤ 1 := by
  rw [h.disposals_eq k]
  split
  · exact Nat.le_refl 1
  · exact Nat.zero_le 1

/-- A value that is not in use stands for a resource that has been disposed of. -/
theorem disposed_of_not_inUse (h : Owned held p) {v k : ℕ} (hk : p.latest v = some k)
    (hnot : ¬ p.InUse v) : p.place k = .disposed := by
  by_contra hplace
  refine hnot ⟨k, hk, ?_⟩
  rw [h.disposals_eq k, if_neg hplace]

/-- A resource that was obtained is somewhere. -/
theorem place_cases (h : Owned held p) {k : ℕ} (hk : k < p.obtained) :
    (∃ t, p.place k = .thread t ∧ held t = some (p.value k)) ∨
      (∃ i, p.place k = .slot i) ∨ p.disposals k = 1 := by
  cases hplace : p.place k with
  | absent => exact absurd ((h.absent_iff k).mp hplace) (Nat.not_le_of_lt hk)
  | thread t => exact Or.inl ⟨t, rfl, h.of_thread k t hplace⟩
  | slot i => exact Or.inr (Or.inl ⟨i, rfl⟩)
  | disposed => exact Or.inr (Or.inr (by rw [h.disposals_eq k, if_pos hplace]))

/-! ## The operations -/

theorem obtain (h : Owned held p) {t v : ℕ} (ht : held t = none) (hv : ¬ p.InUse v) :
    Owned (Function.update held t (some v)) (p.obtain t v) := by
  -- a resource still at a place is known by another value
  have hother : ∀ w k, p.latest w = some k → p.place k ≠ .disposed → w ≠ v := by
    rintro w k hk hplace rfl
    exact hplace (h.disposed_of_not_inUse hk hv)
  have hnew : p.place p.obtained = .absent := (h.absent_iff _).mpr (Nat.le_refl _)
  refine ⟨fun k => ?_, fun w k hk => ?_, fun k hk hplace => ?_, fun i w hw => ?_,
    fun t' w hw => ?_, fun k i hk => ?_, fun k t' hk => ?_, fun k => ?_⟩
  · show Function.update p.place p.obtained (.thread t) k = .absent ↔ p.obtained + 1 ≤ k
    by_cases hkn : k = p.obtained
    · simp [hkn]
    · rw [Function.update_of_ne hkn, h.absent_iff]
      omega
  · change Function.update p.latest v (some p.obtained) w = some k at hk
    show Function.update p.value p.obtained v k = w ∧ k < p.obtained + 1
    by_cases hwv : w = v
    · subst hwv
      rw [Function.update_self] at hk
      obtain rfl := Option.some.inj hk
      simp
    · rw [Function.update_of_ne hwv] at hk
      obtain ⟨hval, hlt⟩ := h.latest_value w k hk
      rw [Function.update_of_ne (Nat.ne_of_lt hlt)]
      exact ⟨hval, by omega⟩
  · change Function.update p.place p.obtained (.thread t) k ≠ .disposed at hplace
    change k < p.obtained + 1 at hk
    show Function.update p.latest v (some p.obtained) (Function.update p.value p.obtained v k) =
      some k
    by_cases hkn : k = p.obtained
    · simp [hkn]
    · rw [Function.update_of_ne hkn] at hplace
      have hlatest := h.latest_of_place k (by omega) hplace
      rw [Function.update_of_ne hkn, Function.update_of_ne (hother _ k hlatest hplace)]
      exact hlatest
  · obtain ⟨k, hk, hplace⟩ := h.slot_holds i w hw
    have hkn := (h.latest_value w k hk).2
    refine ⟨k, ?_, ?_⟩
    · show Function.update p.latest v (some p.obtained) w = some k
      rw [Function.update_of_ne (hother w k hk (by rw [hplace]; simp))]
      exact hk
    · show Function.update p.place p.obtained (.thread t) k = .slot i
      rw [Function.update_of_ne (Nat.ne_of_lt hkn)]
      exact hplace
  · by_cases htt : t' = t
    · subst htt
      rw [Function.update_self] at hw
      obtain rfl := Option.some.inj hw
      exact ⟨p.obtained, Function.update_self _ _ _, Function.update_self _ _ _⟩
    · rw [Function.update_of_ne htt] at hw
      obtain ⟨k, hk, hplace⟩ := h.thread_holds t' w hw
      have hkn := (h.latest_value w k hk).2
      refine ⟨k, ?_, ?_⟩
      · show Function.update p.latest v (some p.obtained) w = some k
        rw [Function.update_of_ne (hother w k hk (by rw [hplace]; simp))]
        exact hk
      · show Function.update p.place p.obtained (.thread t) k = .thread t'
        rw [Function.update_of_ne (Nat.ne_of_lt hkn)]
        exact hplace
  · change Function.update p.place p.obtained (.thread t) k = .slot i at hk
    show p.slots i = some (Function.update p.value p.obtained v k)
    by_cases hkn : k = p.obtained
    · simp [hkn] at hk
    · rw [Function.update_of_ne hkn] at hk ⊢
      exact h.of_slot k i hk
  · change Function.update p.place p.obtained (.thread t) k = .thread t' at hk
    show Function.update held t (some v) t' = some (Function.update p.value p.obtained v k)
    by_cases hkn : k = p.obtained
    · subst hkn
      rw [Function.update_self] at hk
      obtain rfl := Place.thread.inj hk
      simp
    · rw [Function.update_of_ne hkn] at hk ⊢
      have hheld := h.of_thread k t' hk
      have htt : t' ≠ t := by
        rintro rfl
        rw [ht] at hheld
        cases hheld
      rw [Function.update_of_ne htt]
      exact hheld
  · show p.disposals k =
      if Function.update p.place p.obtained (.thread t) k = .disposed then 1 else 0
    by_cases hkn : k = p.obtained
    · subst hkn
      rw [h.disposals_eq, hnew, Function.update_self]
      rfl
    · rw [Function.update_of_ne hkn]
      exact h.disposals_eq k

/-- Moving the resource known by `v` to another place: it is then the one thing at that place, and
the others are where they were. -/
theorem move (h : Owned held p) {v k : ℕ} (hk : p.latest v = some k)
    (hlive : p.place k ≠ .disposed) (place : Place) (hplace : place ≠ .absent)
    (slots held' : ℕ → Option ℕ) (disposals : ℕ → ℕ)
    (hslots : ∀ i w, slots i = some w ↔ (p.slots i = some w ∧ w ≠ v) ∨ (place = .slot i ∧ w = v))
    (hheld : ∀ t w, held' t = some w ↔ (held t = some w ∧ w ≠ v) ∨ (place = .thread t ∧ w = v))
    (hdisposals : ∀ l, disposals l =
      if l = k then (if place = .disposed then 1 else 0) else p.disposals l) :
    Owned held' { p with
      slots := slots, place := Function.update p.place k place, disposals := disposals } := by
  obtain ⟨hvalue, hlt⟩ := h.latest_value v k hk
  -- a resource known by another value is another one
  have hne : ∀ w l, p.latest w = some l → w ≠ v → l ≠ k := by
    rintro w l hl hwv rfl
    exact hwv ((h.latest_value w l hl).1.symm.trans hvalue)
  have hne' : ∀ l, l < p.obtained → p.place l ≠ .disposed → l ≠ k → p.value l ≠ v := by
    intro l hl hpl hlk hval
    have hlatest := h.latest_of_place l hl hpl
    rw [hval, hk] at hlatest
    exact hlk (Option.some.inj hlatest).symm
  refine ⟨fun l => ?_, h.latest_value, fun l hl hpl => ?_, fun i w hw => ?_, fun t w hw => ?_,
    fun l i hl => ?_, fun l t hl => ?_, fun l => ?_⟩
  · show Function.update p.place k place l = .absent ↔ p.obtained ≤ l
    by_cases hlk : l = k
    · subst hlk
      rw [Function.update_self]
      exact iff_of_false hplace (by omega)
    · rw [Function.update_of_ne hlk]
      exact h.absent_iff l
  · change Function.update p.place k place l ≠ .disposed at hpl
    show p.latest (p.value l) = some l
    by_cases hlk : l = k
    · rw [hlk, hvalue]
      exact hk
    · rw [Function.update_of_ne hlk] at hpl
      exact h.latest_of_place l hl hpl
  · rcases (hslots i w).mp hw with ⟨hw, hwv⟩ | ⟨rfl, rfl⟩
    · obtain ⟨l, hl, hpl⟩ := h.slot_holds i w hw
      exact ⟨l, hl, (Function.update_of_ne (hne w l hl hwv) _ _).trans hpl⟩
    · exact ⟨k, hk, Function.update_self _ _ _⟩
  · rcases (hheld t w).mp hw with ⟨hw, hwv⟩ | ⟨rfl, rfl⟩
    · obtain ⟨l, hl, hpl⟩ := h.thread_holds t w hw
      exact ⟨l, hl, (Function.update_of_ne (hne w l hl hwv) _ _).trans hpl⟩
    · exact ⟨k, hk, Function.update_self _ _ _⟩
  · change Function.update p.place k place l = .slot i at hl
    refine (hslots i _).mpr ?_
    by_cases hlk : l = k
    · subst hlk
      rw [Function.update_self] at hl
      exact Or.inr ⟨hl, hvalue⟩
    · rw [Function.update_of_ne hlk] at hl
      exact Or.inl ⟨h.of_slot l i hl,
        hne' l (h.lt_obtained (by simp [hl])) (by simp [hl]) hlk⟩
  · change Function.update p.place k place l = .thread t at hl
    refine (hheld t _).mpr ?_
    by_cases hlk : l = k
    · subst hlk
      rw [Function.update_self] at hl
      exact Or.inr ⟨hl, hvalue⟩
    · rw [Function.update_of_ne hlk] at hl
      exact Or.inl ⟨h.of_thread l t hl,
        hne' l (h.lt_obtained (by simp [hl])) (by simp [hl]) hlk⟩
  · show disposals l = if Function.update p.place k place l = .disposed then 1 else 0
    rw [hdisposals l]
    by_cases hlk : l = k
    · subst hlk
      rw [if_pos rfl, Function.update_self]
    · rw [if_neg hlk, Function.update_of_ne hlk]
      exact h.disposals_eq l

/-- A value that a thread works on is in no slot and with no other thread. -/
theorem thread_only (h : Owned held p) {t v : ℕ} (ht : held t = some v) :
    ∃ k, p.latest v = some k ∧ p.place k = .thread t ∧ (∀ i, p.slots i ≠ some v) ∧
      ∀ t', held t' = some v → t' = t := by
  obtain ⟨k, hk, hplace⟩ := h.thread_holds t v ht
  refine ⟨k, hk, hplace, fun i hi => ?_, fun t' ht' => ?_⟩
  · obtain ⟨l, hl, hpl⟩ := h.slot_holds i v hi
    obtain rfl := Option.some.inj (hk.symm.trans hl)
    rw [hplace] at hpl
    cases hpl
  · obtain ⟨l, hl, hpl⟩ := h.thread_holds t' v ht'
    obtain rfl := Option.some.inj (hk.symm.trans hl)
    exact Place.thread.inj (hpl.symm.trans hplace)

/-- A value in a slot is in no other slot and with no thread. -/
theorem slot_only (h : Owned held p) {i v : ℕ} (hi : p.slots i = some v) :
    ∃ k, p.latest v = some k ∧ p.place k = .slot i ∧ (∀ j, p.slots j = some v → j = i) ∧
      ∀ t, held t ≠ some v := by
  obtain ⟨k, hk, hplace⟩ := h.slot_holds i v hi
  refine ⟨k, hk, hplace, fun j hj => ?_, fun t ht => ?_⟩
  · obtain ⟨l, hl, hpl⟩ := h.slot_holds j v hj
    obtain rfl := Option.some.inj (hk.symm.trans hl)
    exact Place.slot.inj (hpl.symm.trans hplace)
  · obtain ⟨l, hl, hpl⟩ := h.thread_holds t v ht
    obtain rfl := Option.some.inj (hk.symm.trans hl)
    rw [hplace] at hpl
    cases hpl

/-- A resource that moves without being disposed of. -/
theorem disposals_of_move (h : Owned held p) {k : ℕ} (hk : p.place k ≠ .disposed) {place : Place}
    (hplace : place ≠ .disposed) (l : ℕ) :
    p.disposals l = if l = k then (if place = .disposed then 1 else 0) else p.disposals l := by
  by_cases hlk : l = k
  · subst hlk
    rw [if_pos rfl, if_neg hplace, h.disposals_eq, if_neg hk]
  · rw [if_neg hlk]

/-- An empty slot is claimed for the value that a thread works on. -/
theorem claim (h : Owned held p) {t i v : ℕ} (ht : held t = some v) (hi : p.slots i = none) :
    Owned (Function.update held t none) (p.claim i v) := by
  obtain ⟨k, hk, hplace, hslot, hthread⟩ := h.thread_only ht
  have hlive : p.place k ≠ .disposed := by simp [hplace]
  have hmove := h.move hk hlive (.slot i) (by simp) (Function.update p.slots i (some v))
    (Function.update held t none) p.disposals ?_ ?_ (h.disposals_of_move hlive (by simp))
  · rw [Pool.claim, moved, hk]
    exact hmove
  · intro j w
    rw [update_some_iff hi hslot, Place.slot.injEq, eq_comm (a := i)]
  · intro t' w
    rw [update_none_iff ht hthread]
    simp

/-- The value of a slot is taken by a thread that works on none. -/
theorem remove (h : Owned held p) {t i v : ℕ} (ht : held t = none) (hi : p.slots i = some v) :
    Owned (Function.update held t (some v)) (p.remove t i v) := by
  obtain ⟨k, hk, hplace, hslot, hthread⟩ := h.slot_only hi
  have hlive : p.place k ≠ .disposed := by simp [hplace]
  have hmove := h.move hk hlive (.thread t) (by simp) (Function.update p.slots i none)
    (Function.update held t (some v)) p.disposals ?_ ?_ (h.disposals_of_move hlive (by simp))
  · rw [Pool.remove, moved, hk]
    exact hmove
  · intro j w
    rw [update_none_iff hi hslot]
    simp
  · intro t' w
    rw [update_some_iff ht hthread, Place.thread.injEq, eq_comm (a := t)]

/-- A thread disposes of what it works on. -/
theorem dispose (h : Owned held p) {t v : ℕ} (ht : held t = some v) :
    Owned (Function.update held t none) (p.dispose v) := by
  obtain ⟨k, hk, hplace, hslot, hthread⟩ := h.thread_only ht
  have hlive : p.place k ≠ .disposed := by simp [hplace]
  have hmove := h.move hk hlive .disposed (by simp) p.slots
    (Function.update held t none) (Function.update p.disposals k (p.disposals k + 1)) ?_ ?_ ?_
  · rw [Pool.dispose, hk]
    exact hmove
  · intro j w
    have hw : p.slots j = some w → w ≠ v := by
      rintro hj rfl
      exact hslot j hj
    simp only [reduceCtorEq, false_and, or_false]
    exact ⟨fun hj => ⟨hj, hw hj⟩, fun hj => hj.1⟩
  · intro t' w
    rw [update_none_iff ht hthread]
    simp
  · intro l
    by_cases hlk : l = k
    · subst hlk
      rw [Function.update_self, h.disposals_eq, if_neg hlive]
      simp
    · rw [Function.update_of_ne hlk, if_neg hlk]

/-! ## Disposal is final -/

theorem disposed_obtain (h : Owned held p) {k : ℕ} (hk : p.place k = .disposed) (t v : ℕ) :
    (p.obtain t v).place k = .disposed := by
  have hne : k ≠ p.obtained := by
    rintro rfl
    rw [(h.absent_iff _).mpr (Nat.le_refl _)] at hk
    cases hk
  exact (Function.update_of_ne hne _ _).trans hk

theorem disposed_claim (h : Owned held p) {k t v : ℕ} (hk : p.place k = .disposed)
    (ht : held t = some v) (i : ℕ) : (p.claim i v).place k = .disposed := by
  obtain ⟨l, hl, hplace, -, -⟩ := h.thread_only ht
  have hne : k ≠ l := by
    rintro rfl
    rw [hplace] at hk
    cases hk
  rw [Pool.claim, moved, hl]
  exact (Function.update_of_ne hne _ _).trans hk

theorem disposed_remove (h : Owned held p) {k i v : ℕ} (hk : p.place k = .disposed)
    (hi : p.slots i = some v) (t : ℕ) : (p.remove t i v).place k = .disposed := by
  obtain ⟨l, hl, hplace, -, -⟩ := h.slot_only hi
  have hne : k ≠ l := by
    rintro rfl
    rw [hplace] at hk
    cases hk
  rw [Pool.remove, moved, hl]
  exact (Function.update_of_ne hne _ _).trans hk

end Owned

theorem disposed_dispose {k : ℕ} (hk : p.place k = .disposed) (v : ℕ) :
    (p.dispose v).place k = .disposed := by
  unfold dispose
  split
  · exact hk
  · rename_i l _
    by_cases hkl : k = l
    · subst hkl
      exact Function.update_self _ _ _
    · exact (Function.update_of_ne hkl _ _).trans hk

theorem place_dispose {k v : ℕ} (hk : p.latest v = some k) : (p.dispose v).place k = .disposed := by
  rw [dispose, hk]
  exact Function.update_self _ _ _

end Pool

end Wpdk
