import Wpdk.Thread.Lifecycle

/-!
# Looking up a thread

The calls and the threads find a record by the thread id, either in a slot they remember or by a
search below the high-water mark.  Under the invariant a search for an id other than zero finds
the one record of that thread, if it is in the table at all, and reads nothing that has been freed.

* `Consistent.access_visited`: the reads on the way are defined.
* `Consistent.phase_of_id`: what can be found under an id.
* `Consistent.entry_of_slot`: what is there is found, by the search and in the slot.
-/

namespace Wpdk
namespace Thread

namespace State

variable {s : State} {id i r : ℕ} {index : ℤ}

theorem hasId_iff : s.hasId id i = true ↔ ∃ r, s.slot i = some r ∧ (s.records r).id = id := by
  unfold hasId
  cases s.slot i with
  | none => simp
  | some r => simp

theorem exists_slot_of_visited (h : r ∈ s.visited id index) : ∃ i, s.slot i = some r := by
  unfold visited at h
  split at h
  · obtain ⟨i, -, hi⟩ := List.mem_filterMap.mp h
    exact ⟨i, hi⟩
  · exact ⟨index.toNat, by simpa using h⟩

theorem entry_spec (h : s.entry id index = some (i, r)) :
    s.slot i = some r ∧ (s.records r).id = id := by
  unfold entry at h
  dsimp only at h
  split at h
  · split at h
    · rename_i hid
      obtain ⟨r', hr', hpair⟩ := Option.map_eq_some_iff.mp h
      obtain ⟨rfl, rfl⟩ := Prod.mk.inj hpair
      obtain ⟨r'', hr'', hid'⟩ := hasId_iff.mp hid
      obtain rfl := Option.some.inj (hr'.symm.trans hr'')
      exact ⟨hr', hid'⟩
    · cases h
  · cases h

/-- The record is found in the slot that the search, or the remembered index, gives. -/
theorem entry_of_locate (hi : s.slot i = some r) (hid : (s.records r).id = id)
    (hlt : i < maxthreads) (hlocate : s.locate id index = i) : s.entry id index = some (i, r) := by
  unfold entry
  rw [hlocate]
  dsimp only
  rw [if_pos ⟨Int.natCast_nonneg i, Int.ofNat_lt.mpr hlt⟩, Int.toNat_natCast,
    if_pos (hasId_iff.mpr ⟨r, hi, hid⟩), hi]
  rfl

theorem table_isSome_of_slot (hi : s.slot i = some r) : s.table.isSome = true := by
  unfold slot at hi
  cases htable : s.table with
  | none => simp [htable] at hi
  | some table => rfl

end State

namespace Consistent

variable {φ : ℕ → Phase} {s : State} {i r t : ℕ}

/-- Accesses to records that have not been freed are defined. -/
theorem access_eq (h : Consistent φ s) {rs : List ℕ} (hrs : ∀ r ∈ rs, φ r ≠ .freed) :
    s.access rs = s := by
  have hnone : rs.filter (· ∈ s.freed) = [] := by
    rw [List.filter_eq_nil_iff]
    intro r hr hmem
    exact hrs r hr ((h.memory.mem_freed_iff r).mp (of_decide_eq_true hmem))
  unfold State.access
  rw [hnone, List.map_nil, List.append_nil]

theorem access_one (h : Consistent φ s) (hr : φ r ≠ .freed) : s.access [r] = s :=
  h.access_eq (by simpa using hr)

theorem access_visited (h : Consistent φ s) (id : ℕ) (index : ℤ) :
    s.access (s.visited id index) = s := by
  refine h.access_eq fun r hr hfreed => ?_
  obtain ⟨i, hi⟩ := State.exists_slot_of_visited hr
  have := (h.slots.slot i r hi).1
  rw [hfreed] at this
  cases this

/-- A record in the table under an id other than zero is the record of that thread. -/
theorem phase_of_id (h : Consistent φ s) (hi : s.slot i = some r) (hid : (s.records r).id = t)
    (ht : t ≠ 0) : φ r = .joinable t ∨ φ r = .started t := by
  have hlisted := (h.slots.slot i r hi).1
  have hrecord := h.record r
  cases hphase : φ r with
  | creating c =>
    rw [hphase] at hrecord
    exact absurd (hid.symm.trans hrecord) ht
  | filled c | launched c t' =>
    rw [hphase] at hrecord
    exact absurd (hid.symm.trans hrecord.1) ht
  | joinable t' =>
    rw [hphase] at hrecord
    exact Or.inl (congrArg _ (hrecord.1.symm.trans hid))
  | started t' =>
    rw [hphase] at hrecord
    exact Or.inr (congrArg _ (hrecord.1.symm.trans hid))
  | absent | discarding c | orphan t' | releasing t' | removed c | freed =>
    rw [hphase] at hlisted
    cases hlisted

/-- The thread of such a record runs on it, and its handle is the one in the record. -/
theorem known_of_id (h : Consistent φ s) (hi : s.slot i = some r) (hid : (s.records r).id = t)
    (ht : t ≠ 0) : s.handles (s.records r).h = some t ∧ s.WorksOn t r := by
  have hrecord := h.record r
  rcases h.phase_of_id hi hid ht with hphase | hphase <;> rw [hphase] at hrecord <;>
    exact hrecord.2.2

/-- No other record is in the table under the id. -/
theorem slot_of_id (h : Consistent φ s) {j r' : ℕ} (hi : s.slot i = some r)
    (hid : (s.records r).id = t) (hj : s.slot j = some r') (hid' : (s.records r').id = t)
    (ht : t ≠ 0) : j = i := by
  obtain rfl := (h.known_of_id hi hid ht).2.unique (h.known_of_id hj hid' ht).2
  exact h.slots.slot_inj hj hi

/-- What is in the table is found, by the search and by its index. -/
theorem entry_of_slot (h : Consistent φ s) (hi : s.slot i = some r)
    (hid : (s.records r).id = t) (ht : t ≠ 0) {index : ℤ} (hindex : index = -1 ∨ index = i) :
    s.entry t index = some (i, r) := by
  have hlt := (h.slots.slot i r hi).2.2
  refine State.entry_of_locate hi hid (Nat.lt_of_lt_of_le hlt h.slots.hwm_le) ?_
  unfold State.locate
  rcases hindex with rfl | rfl
  · rw [if_pos ⟨rfl, State.table_isSome_of_slot hi⟩]
    have hfound := first_spec (first_lt hlt (State.hasId_iff.mpr ⟨r, hi, hid⟩))
    obtain ⟨r', hj, hid'⟩ := State.hasId_iff.mp hfound
    exact congrArg Nat.cast (h.slot_of_id hi hid hj hid' ht)
  · exact if_neg fun hneg => by omega

end Consistent

end Thread
end Wpdk
