import Mathlib.Data.List.Nodup
import Mathlib.Data.List.Perm.Basic
import Mathlib.Order.Nat

/-!
# Bounded scans of an array

A loop goes through the indices of an array, keeps what it finds at them, and stops when it has
found as much as it is allowed to.  A pass goes round: from a starting index to the end of the
array, and then from the beginning to the starting index.

* `Scan.loop`, `Scan.pass`: the loop, and the two loops of a pass.
* `hits`, `rotation`: what there is to be found, and the order in which a pass goes round.
* `pass_found`: a pass finds the first hits of the rotation.
* `exists_pass_found_iff`: which indices are found by passes from a starting index that moves on
  by one each time and does not go back.
-/

namespace Wpdk

variable {β : Type*}

/-- What a scan has found, with the indices, and all indices that it has looked at. -/
structure Scan (β : Type*) where
  found : List (ℕ × β)
  reads : List ℕ

/-- What there is at the given indices. -/
def hits (f : ℕ → Option β) (order : List ℕ) : List (ℕ × β) :=
  order.filterMap fun i => (f i).map (Prod.mk i)

section Hits

variable {f : ℕ → Option β}

theorem hits_append (l l' : List ℕ) : hits f (l ++ l') = hits f l ++ hits f l' :=
  List.filterMap_append

theorem hits_cons_of_some {i : ℕ} {b : β} (h : f i = some b) (l : List ℕ) :
    hits f (i :: l) = (i, b) :: hits f l := by
  simp [hits, h]

theorem hits_cons_of_none {i : ℕ} (h : f i = none) (l : List ℕ) : hits f (i :: l) = hits f l := by
  simp [hits, h]

theorem mem_hits {i : ℕ} {b : β} {l : List ℕ} : (i, b) ∈ hits f l ↔ i ∈ l ∧ f i = some b := by
  simp only [hits, List.mem_filterMap, Option.map_eq_some_iff, Prod.mk.injEq]
  constructor
  · rintro ⟨j, hj, b', hb', rfl, rfl⟩
    exact ⟨hj, hb'⟩
  · rintro ⟨hi, hb⟩
    exact ⟨i, hi, b, hb, rfl, rfl⟩

theorem map_fst_hits (l : List ℕ) :
    (hits f l).map Prod.fst = l.filter fun i => (f i).isSome := by
  induction l with
  | nil => rfl
  | cons i l ih =>
    cases h : f i with
    | none => rw [hits_cons_of_none h, ih, List.filter_cons_of_neg (by simp [h])]
    | some b =>
      rw [hits_cons_of_some h, List.map_cons, ih, List.filter_cons_of_pos (by simp [h])]

theorem nodup_hits {l : List ℕ} (h : l.Nodup) : ((hits f l).map Prod.fst).Nodup := by
  rw [map_fst_hits]
  exact h.filter _

/-- How many hits there are depends only on where there is something. -/
theorem length_hits_eq_countP {p : ℕ → Bool} {l : List ℕ} (h : ∀ i ∈ l, (f i).isSome = p i) :
    (hits f l).length = l.countP p := by
  rw [← List.length_map (f := Prod.fst), map_fst_hits, ← List.countP_eq_length_filter]
  exact List.countP_congr fun i hi => by rw [h i hi]

theorem length_hits_perm {l l' : List ℕ} (h : l.Perm l') :
    (hits f l).length = (hits f l').length :=
  (h.filterMap _).length_eq

theorem hits_eq_nil {l : List ℕ} (h : ∀ i ∈ l, f i = none) : hits f l = [] := by
  rw [hits, List.filterMap_eq_nil_iff]
  intro i hi
  rw [h i hi]
  rfl

/-- An index is among the first `k` hits if there are fewer than `k` before it. -/
theorem mem_take_hits_iff {l r : List ℕ} {i k : ℕ} {b : β} (h : f i = some b) (hl : i ∉ l) :
    i ∈ ((hits f (l ++ i :: r)).take k).map Prod.fst ↔ (hits f l).length < k := by
  rw [hits_append, hits_cons_of_some h, List.take_append, List.map_append, List.mem_append]
  constructor
  · rintro (hmem | hmem)
    · rw [List.map_take, map_fst_hits] at hmem
      exact absurd (List.mem_of_mem_filter (List.mem_of_mem_take hmem)) hl
    · by_contra hlen
      rw [Nat.sub_eq_zero_of_le (Nat.le_of_not_lt hlen)] at hmem
      simp at hmem
  · intro hlen
    obtain ⟨d, hd⟩ : ∃ d, k - (hits f l).length = d + 1 := ⟨k - (hits f l).length - 1, by omega⟩
    right
    rw [hd, List.take_succ_cons]
    exact List.mem_cons_self

end Hits

/-! ## Loops -/

namespace Scan

variable (f : ℕ → Option β) (limit : ℕ)

/-- Nothing has been looked at. -/
def empty : Scan β := ⟨[], []⟩

/-- The body of the loop. -/
def visit (s : Scan β) (i : ℕ) : Scan β :=
  ⟨s.found ++ (f i).toList.map (Prod.mk i), s.reads ++ [i]⟩

/-- The loop with `k` indices left, from `i` on. -/
def loopFrom : (k i : ℕ) → Scan β → Scan β
  | 0, _, s => s
  | k + 1, i, s => if s.found.length < limit then loopFrom k (i + 1) (s.visit f i) else s

/-- `for (; i < stop && n < limit; i++)`, with `n` the number of things found. -/
def loop (stop i : ℕ) (s : Scan β) : Scan β := loopFrom f limit (stop - i) i s

/-- From `start` to the end, and from the beginning to `start`. -/
def pass (stop start : ℕ) : Scan β := loop f limit start 0 (loop f limit stop start empty)

variable {f limit}

theorem visit_found_of_none {s : Scan β} {i : ℕ} (h : f i = none) :
    (s.visit f i).found = s.found := by
  simp [visit, h]

theorem visit_found_of_some {s : Scan β} {i : ℕ} {b : β} (h : f i = some b) :
    (s.visit f i).found = s.found ++ [(i, b)] := by
  simp [visit, h]

/-- A loop adds the first hits, up to the limit. -/
theorem loopFrom_found (k i : ℕ) (s : Scan β) :
    (loopFrom f limit k i s).found =
      s.found ++ (hits f (List.range' i k)).take (limit - s.found.length) := by
  induction k generalizing i s with
  | zero => simp [loopFrom, hits]
  | succ k ih =>
    rw [loopFrom, List.range'_succ]
    split_ifs with hlen
    · rw [ih]
      cases hf : f i with
      | none => rw [visit_found_of_none hf, hits_cons_of_none hf]
      | some b =>
        obtain ⟨e, he⟩ : ∃ e, limit - s.found.length = e + 1 :=
          ⟨limit - s.found.length - 1, by omega⟩
        have he' : limit - (s.found ++ [(i, b)]).length = e := by
          rw [List.length_append, List.length_singleton]
          omega
        rw [visit_found_of_some hf, hits_cons_of_some hf, he, he', List.take_succ_cons,
          List.append_assoc, List.singleton_append]
    · rw [Nat.sub_eq_zero_of_le (Nat.le_of_not_lt hlen), List.take_zero, List.append_nil]

theorem mem_loopFrom_reads {k i j : ℕ} {s : Scan β} (h : j ∈ (loopFrom f limit k i s).reads) :
    j ∈ s.reads ∨ j < i + k := by
  induction k generalizing i s with
  | zero => exact Or.inl h
  | succ k ih =>
    rw [loopFrom] at h
    split_ifs at h
    · rcases ih h with hj | hj
      · rcases List.mem_append.mp hj with hj | hj
        · exact Or.inl hj
        · rw [List.mem_singleton.mp hj]
          exact Or.inr (by omega)
      · exact Or.inr (by omega)
    · exact Or.inl h

theorem loop_found (stop i : ℕ) (s : Scan β) :
    (loop f limit stop i s).found =
      s.found ++ (hits f (List.range' i (stop - i))).take (limit - s.found.length) :=
  loopFrom_found _ _ _

theorem mem_loop_reads {stop i j : ℕ} {s : Scan β} (h : j ∈ (loop f limit stop i s).reads) :
    j ∈ s.reads ∨ j < max stop i := by
  refine (mem_loopFrom_reads h).imp_right fun hj => ?_
  omega

theorem mem_pass_reads {stop start j : ℕ} (h : j ∈ (pass f limit stop start).reads) :
    j < max stop start := by
  rcases mem_loop_reads h with h | h
  · exact (mem_loop_reads h).resolve_left List.not_mem_nil
  · omega

end Scan

/-! ## Passes -/

/-- The order in which a pass goes round; a start behind the end is one at the beginning. -/
def rotation (stop start : ℕ) : List ℕ :=
  if start ≤ stop then List.range' start (stop - start) ++ List.range start else List.range stop

theorem rotation_perm (stop start : ℕ) : (rotation stop start).Perm (List.range stop) := by
  unfold rotation
  split_ifs with h
  · refine List.perm_append_comm.trans (List.Perm.of_eq ?_)
    rw [List.range_eq_range', List.range_eq_range']
    have := List.range'_append_1 (s := 0) (m := start) (n := stop - start)
    rwa [Nat.zero_add, Nat.add_sub_cancel' h] at this
  · exact List.Perm.refl _

theorem rotation_nodup (stop start : ℕ) : (rotation stop start).Nodup :=
  (rotation_perm stop start).nodup_iff.mpr List.nodup_range

theorem mem_rotation {stop start i : ℕ} : i ∈ rotation stop start ↔ i < stop := by
  rw [(rotation_perm stop start).mem_iff, List.mem_range]

/-- The part of the array behind the end, which a pass from behind the end goes through too. -/
theorem range_eq_append {stop start : ℕ} (h : stop ≤ start) :
    List.range start = List.range stop ++ List.range' stop (start - stop) := by
  rw [List.range_eq_range', List.range_eq_range']
  have := List.range'_append_1 (s := 0) (m := stop) (n := start - stop)
  rw [Nat.zero_add, Nat.add_sub_cancel' h] at this
  exact this.symm

section Pass

variable {f : ℕ → Option β} {limit stop start : ℕ}

/-- **A pass finds the first hits of the rotation.**  A pass that starts behind the end goes on
behind the end; that makes no difference if nothing is there, or if it is allowed no more than
what there is before the end. -/
theorem pass_found (h : (∀ i, stop ≤ i → i < start → f i = none) ∨
      limit ≤ (hits f (List.range stop)).length) :
    (Scan.pass f limit stop start).found = (hits f (rotation stop start)).take limit := by
  unfold Scan.pass rotation
  rw [Scan.loop_found, Scan.loop_found, Nat.sub_zero, ← List.range_eq_range']
  simp only [Scan.empty, List.nil_append, List.length_nil, Nat.sub_zero]
  split_ifs with hle
  · rw [hits_append, List.take_append, List.length_take]
    congr 2
    omega
  · rw [Nat.sub_eq_zero_of_le (by omega), List.range'_zero]
    simp only [hits, List.filterMap_nil, List.take_nil, List.nil_append, List.length_nil,
      Nat.sub_zero]
    rw [range_eq_append (by omega : stop ≤ start), List.filterMap_append]
    rcases h with hnone | hlimit
    · have hnil := hits_eq_nil (f := f) (l := List.range' stop (start - stop)) fun i hi => by
        have := List.mem_range'_1.mp hi
        exact hnone i (by omega) (by omega)
      rw [hits] at hnil
      rw [hnil, List.append_nil]
    · exact List.take_append_of_le_length hlimit

/-- A pass that starts at a hit finds it. -/
theorem mem_pass_of_start {b : β} (hstart : start < stop) (hf : f start = some b)
    (hlimit : 0 < limit) :
    start ∈ ((Scan.pass f limit stop start).found).map Prod.fst := by
  rw [pass_found (Or.inl fun i hi hi' => by omega)]
  obtain ⟨d, hd⟩ : ∃ d, stop - start = d + 1 := ⟨stop - start - 1, by omega⟩
  unfold rotation
  rw [if_pos (Nat.le_of_lt hstart), hd, List.range'_succ, List.cons_append, hits_cons_of_some hf]
  obtain ⟨e, rfl⟩ : ∃ e, limit = e + 1 := ⟨limit - 1, by omega⟩
  rw [List.take_succ_cons]
  exact List.mem_cons_self

/-- A pass that starts behind a hit finds it if there are few enough hits in front of it: those up
to the end, and those before it. -/
theorem mem_pass_of_lt {i : ℕ} {b : β} (hi : i < stop) (hlt : i < start) (hf : f i = some b)
    (h : (∀ i, stop ≤ i → i < start → f i = none) ∨
      limit ≤ (hits f (List.range stop)).length) :
    i ∈ ((Scan.pass f limit stop start).found).map Prod.fst ↔
      (hits f (List.range' start (stop - start))).length + (hits f (List.range i)).length <
        limit := by
  rw [pass_found h]
  unfold rotation
  split_ifs with hle
  · have hsplit : List.range' start (stop - start) ++ List.range start =
        (List.range' start (stop - start) ++ List.range i) ++
          i :: List.range' (i + 1) (start - (i + 1)) := by
      rw [range_eq_append (Nat.le_of_lt hlt), List.append_assoc]
      congr 2
      rw [← List.range'_succ]
      congr 1
      omega
    rw [hsplit, mem_take_hits_iff hf, hits_append, List.length_append]
    · intro hmem
      rcases List.mem_append.mp hmem with hmem | hmem
      · have := List.mem_range'_1.mp hmem
        omega
      · exact absurd (List.mem_range.mp hmem) (Nat.lt_irrefl i)
  · have hsplit : List.range stop =
        List.range i ++ i :: List.range' (i + 1) (stop - (i + 1)) := by
      rw [range_eq_append (Nat.le_of_lt hi), ← List.range'_succ]
      congr 2
      omega
    rw [hsplit, mem_take_hits_iff hf, Nat.sub_eq_zero_of_le (by omega)]
    · simp [hits]
    · intro hmem
      exact absurd (List.mem_range.mp hmem) (Nat.lt_irrefl i)

/-- **Passes from a starting index that moves on and does not go back.**  Of `n` passes, at least
as many as the array is long, one finds a given index with something at it exactly when the first
one does not start behind it, or when few enough such indices are before it.  What is found at an
index may change from pass to pass. -/
theorem exists_pass_found_iff {g : ℕ → ℕ → Option β} {p : ℕ → Bool} {n i : ℕ}
    (hg : ∀ k, k < n → ∀ i, i < stop → (g k i).isSome = p i) (hn : stop ≤ n)
    (hlimit : 0 < limit) (hmany : limit ≤ (List.range stop).countP p) (hi : i < stop)
    (hp : p i = true) :
    (∃ k, k < n ∧ i ∈ ((Scan.pass (g k) limit stop (start + k)).found).map Prod.fst) ↔
      start ≤ i ∨ (List.range i).countP p < limit := by
  have hsome : ∀ k, k < n → ∃ b, g k i = some b := fun k hk =>
    Option.isSome_iff_exists.mp ((hg k hk i hi).trans hp)
  have hcount : ∀ k, k < n → ∀ j, j ≤ stop →
      (hits (g k) (List.range j)).length = (List.range j).countP p := fun k hk j hj =>
    length_hits_eq_countP fun i hi => hg k hk i ((List.mem_range.mp hi).trans_le hj)
  constructor
  · rintro ⟨k, hk, hmem⟩
    obtain ⟨b, hb⟩ := hsome k hk
    by_contra hnot
    rw [mem_pass_of_lt hi (by omega) hb (Or.inr (hcount k hk stop le_rfl ▸ hmany)),
      hcount k hk i hi.le] at hmem
    omega
  · intro h
    by_cases hle : start ≤ i
    · obtain ⟨b, hb⟩ := hsome (i - start) (by omega)
      refine ⟨i - start, by omega, ?_⟩
      rw [Nat.add_sub_cancel' hle]
      exact mem_pass_of_start hi hb hlimit
    · -- the last pass starts at the end or behind it, so only what is before `i` counts
      have hk : n - 1 < n := by omega
      obtain ⟨b, hb⟩ := hsome (n - 1) hk
      refine ⟨n - 1, hk, ?_⟩
      rw [mem_pass_of_lt hi (by omega) hb (Or.inr (hcount (n - 1) hk stop le_rfl ▸ hmany)),
        hcount (n - 1) hk i hi.le, Nat.sub_eq_zero_of_le (show stop ≤ start + (n - 1) by omega)]
      simpa [hits] using h.resolve_left hle

/-- Every index below `n` with something at it has few enough of them before it when there are few
enough below `n`. -/
theorem forall_countP_lt_iff {p : ℕ → Bool} (n : ℕ) :
    (∀ i, i < n → p i = true → (List.range i).countP p < limit) ↔
      (List.range n).countP p ≤ limit := by
  induction n with
  | zero => simp
  | succ n ih =>
    rw [Nat.forall_lt_succ_right, ih, List.range_succ, List.countP_append, List.countP_singleton]
    cases hp : p n with
    | false => simp
    | true =>
      simp only [forall_const, if_true]
      omega

end Pass

end Wpdk
