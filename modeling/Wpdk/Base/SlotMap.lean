import Mathlib.Data.Finmap
import Mathlib.Logic.Function.Basic

/-!
# Maps kept in an array of slots

An array of `n` slots, each of them empty or with a key, and a value beside each slot.  If no key
is in two slots, the array stands for a finite map; the value beside an empty slot is what was left
there, and is not in the map.

* `Represents key value n m`: the slots stand for the map `m`.
* `Represents.card_slots`: keys of the map are in as many slots.
* `Represents.card_le`, `Represents.card_eq_iff`: the map has at most `n` keys, and `n` of them
  only if no slot is empty.
* `Represents.insert`, `Represents.erase`: filling an empty slot, and emptying one.
-/

namespace Wpdk

variable {κ α : Type*} [DecidableEq κ]

/-- **The slots below `n` stand for the map `m`.** -/
structure Represents (key : ℕ → Option κ) (value : ℕ → α) (n : ℕ) (m : Finmap fun _ : κ => α) :
    Prop where
  /-- There are no keys outside the array. -/
  lt : ∀ i k, key i = some k → i < n
  /-- No key is in two slots. -/
  distinct : ∀ i j k, key i = some k → key j = some k → i = j
  /-- The map has the keys of the slots, with the values beside them. -/
  lookup_iff : ∀ k v, m.lookup k = some v ↔ ∃ i, key i = some k ∧ value i = v

namespace Represents

variable {key : ℕ → Option κ} {value : ℕ → α} {n : ℕ} {m : Finmap fun _ : κ => α}

theorem empty (value : ℕ → α) (n : ℕ) :
    Represents (fun _ => (none : Option κ)) value n (∅ : Finmap fun _ : κ => α) where
  lt _ _ h := by cases h
  distinct _ _ _ h := by cases h
  lookup_iff k v := by simp

theorem mem_iff (h : Represents key value n m) {k : κ} : k ∈ m ↔ ∃ i, key i = some k := by
  rw [Finmap.mem_iff]
  constructor
  · rintro ⟨v, hv⟩
    obtain ⟨i, hi, -⟩ := (h.lookup_iff k v).mp hv
    exact ⟨i, hi⟩
  · rintro ⟨i, hi⟩
    exact ⟨value i, (h.lookup_iff k _).mpr ⟨i, hi, rfl⟩⟩

/-! ## How many keys there are -/

/-- Keys of the map are in as many slots. -/
theorem card_slots (h : Represents key value n m) {R : Finset κ} (hR : ∀ k ∈ R, k ∈ m) :
    ((Finset.range n).filter fun i => ∃ k ∈ R, key i = some k).card = R.card := by
  have hkey : ∀ i ∈ (Finset.range n).filter fun i => ∃ k ∈ R, key i = some k, (key i).isSome := by
    intro i hi
    obtain ⟨-, k, -, hk⟩ := Finset.mem_filter.mp hi
    exact hk ▸ rfl
  refine Finset.card_bij (fun i hi => (key i).get (hkey i hi)) ?_ ?_ ?_
  · intro i hi
    obtain ⟨-, k, hkR, hk⟩ := Finset.mem_filter.mp hi
    simpa [hk] using hkR
  · intro i hi j hj heq
    have hij : key i = key j := Option.get_inj.mp heq
    obtain ⟨k, hk⟩ := Option.isSome_iff_exists.mp (hkey i hi)
    exact h.distinct i j k hk (hij ▸ hk)
  · intro k hk
    obtain ⟨i, hi⟩ := h.mem_iff.mp (hR k hk)
    refine ⟨i, Finset.mem_filter.mpr ⟨Finset.mem_range.mpr (h.lt i k hi), k, hk, hi⟩, ?_⟩
    simp [hi]

/-- There are as many keys as slots that are not empty. -/
theorem card_keys (h : Represents key value n m) :
    m.keys.card = ((Finset.range n).filter fun i => (key i).isSome).card := by
  rw [← h.card_slots fun k hk => Finmap.mem_keys.mp hk]
  congr 1
  refine Finset.filter_congr fun i _ => ?_
  rw [Option.isSome_iff_exists]
  constructor
  · rintro ⟨k, -, hk⟩
    exact ⟨k, hk⟩
  · rintro ⟨k, hk⟩
    exact ⟨k, Finmap.mem_keys.mpr (h.mem_iff.mpr ⟨i, hk⟩), hk⟩

theorem card_le (h : Represents key value n m) : m.keys.card ≤ n := by
  rw [h.card_keys]
  exact (Finset.card_filter_le _ _).trans_eq (Finset.card_range n)

/-- The map is full when no slot is empty. -/
theorem card_eq_iff (h : Represents key value n m) :
    m.keys.card = n ↔ ∀ i, i < n → key i ≠ none := by
  have hcard := Finset.card_filter_eq_iff (s := Finset.range n) (p := fun i => (key i).isSome)
  rw [Finset.card_range] at hcard
  rw [h.card_keys, hcard]
  simp [Option.isSome_iff_ne_none]

/-! ## The operations -/

/-- A new key is put into an empty slot. -/
theorem insert (h : Represents key value n m) {i : ℕ} (hlt : i < n) (hi : key i = none) {k : κ}
    (hk : k ∉ m) (v : α) :
    Represents (Function.update key i (some k)) (Function.update value i v) n (m.insert k v) := by
  have hold : ∀ j, key j ≠ some k := fun j hj => hk (h.mem_iff.mpr ⟨j, hj⟩)
  refine ⟨fun j k' hj => ?_, fun j j' k' hj hj' => ?_, fun k' v' => ?_⟩
  · by_cases hji : j = i
    · exact hji ▸ hlt
    · rw [Function.update_of_ne hji] at hj
      exact h.lt j k' hj
  · by_cases hji : j = i <;> by_cases hji' : j' = i
    · exact hji.trans hji'.symm
    · subst hji
      rw [Function.update_self] at hj
      rw [Function.update_of_ne hji'] at hj'
      exact absurd (hj'.trans hj.symm) (hold j')
    · subst hji'
      rw [Function.update_self] at hj'
      rw [Function.update_of_ne hji] at hj
      exact absurd (hj.trans hj'.symm) (hold j)
    · rw [Function.update_of_ne hji] at hj
      rw [Function.update_of_ne hji'] at hj'
      exact h.distinct j j' k' hj hj'
  · by_cases hkk : k' = k
    · subst hkk
      rw [Finmap.lookup_insert]
      constructor
      · intro hv
        exact ⟨i, Function.update_self _ _ _, by rw [Function.update_self, Option.some.inj hv]⟩
      · rintro ⟨j, hj, rfl⟩
        by_cases hji : j = i
        · rw [hji, Function.update_self]
        · rw [Function.update_of_ne hji] at hj
          exact absurd hj (hold j)
    · rw [Finmap.lookup_insert_of_ne _ hkk, h.lookup_iff]
      refine exists_congr fun j => ?_
      by_cases hji : j = i
      · subst hji
        simp [hi, Ne.symm hkk]
      · rw [Function.update_of_ne hji, Function.update_of_ne hji]

/-- The slot of a key is emptied. -/
theorem erase (h : Represents key value n m) {i : ℕ} {k : κ} (hi : key i = some k) :
    Represents (Function.update key i none) value n (m.erase k) := by
  have hsub : ∀ j k', Function.update key i none j = some k' → key j = some k' ∧ k' ≠ k := by
    intro j k' hj
    by_cases hji : j = i
    · rw [hji, Function.update_self] at hj
      cases hj
    · rw [Function.update_of_ne hji] at hj
      refine ⟨hj, ?_⟩
      rintro rfl
      exact hji (h.distinct j i k' hj hi)
  refine ⟨fun j k' hj => h.lt j k' (hsub j k' hj).1,
    fun j j' k' hj hj' => h.distinct j j' k' (hsub j k' hj).1 (hsub j' k' hj').1, fun k' v' => ?_⟩
  by_cases hkk : k' = k
  · subst hkk
    rw [Finmap.lookup_erase]
    refine ⟨fun hv => (by cases hv), ?_⟩
    rintro ⟨j, hj, -⟩
    exact absurd rfl (hsub j k' hj).2
  · rw [Finmap.lookup_erase_ne hkk, h.lookup_iff]
    refine exists_congr fun j => ?_
    by_cases hji : j = i
    · subst hji
      simp [hi, Ne.symm hkk]
    · rw [Function.update_of_ne hji]

end Represents

end Wpdk
