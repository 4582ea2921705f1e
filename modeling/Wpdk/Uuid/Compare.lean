import Mathlib.Data.Int.Notation
import Wpdk.Uuid.Codec

/-!
# The order of uuids

`wpdk_uuid_compare` decodes both uuids, each with the byte order of its own variant, and compares
the fields of the Windows structures: the three numbers, and then the eight bytes of `Data4`.  These
are the fields in the order in which they are printed.  Every field is printed with a fixed number
of digits, so that the order of the uuids is the order of their texts, and a uuid can be told from
its text.

* `Memcmp`: what is asked of `memcmp`; `uuidCompare`: the function.
* `resultOrder`: what a result says, by its sign.
* `resultOrder_uuidCompare`: it says what the texts say.
* `uuid_compare_total_order`: a total order, and that of the texts.
-/

namespace Wpdk
namespace Uuid

/-- The lexicographic order of byte strings, as unsigned numbers. -/
def compareBytes : List (BitVec 8) → List (BitVec 8) → Ordering :=
  List.compareLex (compareOn BitVec.toNat)

/-- What a result says about the operands. -/
def resultOrder (r : ℤ) : Ordering := if r < 0 then .lt else if 0 < r then .gt else .eq

/-- `memcmp`, on operands of one length: any result of the right sign. -/
structure Memcmp where
  memcmp : List (BitVec 8) → List (BitVec 8) → ℤ
  resultOrder_memcmp : ∀ {s t : List (BitVec 8)}, s.length = t.length →
    resultOrder (memcmp s t) = compareBytes s t

/-- `if (x != y) return (x < y) ? -1 : 1;`, and what comes after it. -/
def compareField {w : ℕ} (x y : BitVec w) (next : ℤ) : ℤ :=
  if x ≠ y then if x.toNat < y.toNat then -1 else 1 else next

/-- `wpdk_uuid_compare`. -/
def uuidCompare (M : Memcmp) (uu1 uu2 : UuidT) : ℤ :=
  let id1 := bytesToUuid uu1
  let id2 := bytesToUuid uu2
  compareField id1.data1 id2.data1 <| compareField id1.data2 id2.data2 <|
    compareField id1.data3 id2.data3 <| M.memcmp id1.data4.toList id2.data4.toList

/-! ## Results -/

/-- The three results are those of a comparison with zero. -/
theorem resultOrder_eq_compare (r : ℤ) : resultOrder r = compare r 0 :=
  (Int.compare_eq_ite_lt r 0).symm

theorem resultOrder_eq_eq_iff {r : ℤ} : resultOrder r = .eq ↔ r = 0 := by
  rw [resultOrder_eq_compare, Int.compare_eq_eq]

theorem resultOrder_eq_lt_iff {r : ℤ} : resultOrder r = .lt ↔ r < 0 := by
  rw [resultOrder_eq_compare, Int.compare_eq_lt]

theorem isLE_resultOrder_iff {r : ℤ} : (resultOrder r).isLE = true ↔ r ≤ 0 := by
  rw [resultOrder_eq_compare, Int.isLE_compare]

/-- A field decides unless it is equal. -/
theorem resultOrder_compareField {w : ℕ} (x y : BitVec w) (next : ℤ) :
    resultOrder (compareField x y next) =
      (compare x.toNat y.toNat).then (resultOrder next) := by
  unfold compareField
  by_cases heq : x = y
  · rw [if_neg (not_not_intro heq), heq, Nat.compare_eq_eq.mpr rfl, Ordering.eq_then]
  · rw [if_pos heq]
    by_cases hlt : x.toNat < y.toNat
    · rw [if_pos hlt, Nat.compare_eq_lt.mpr hlt]
      rfl
    · have hne : x.toNat ≠ y.toNat := fun h => heq (BitVec.eq_of_toNat_eq h)
      rw [if_neg hlt, Nat.compare_eq_gt.mpr (by omega)]
      rfl

/-! ## Texts -/

/-- Bytes are ordered as their digits are. -/
theorem compareText_bytesText {s t : List (BitVec 8)} (h : s.length = t.length) :
    compareText (bytesText false s) (bytesText false t) = compareBytes s t := by
  induction s generalizing t with
  | nil =>
    obtain rfl := List.eq_nil_of_length_eq_zero h.symm
    rfl
  | cons x s ih =>
    cases t with
    | nil => cases h
    | cons y t =>
      have hx : x.toNat < 16 ^ 2 := x.isLt
      have hy : y.toNat < 16 ^ 2 := y.isLt
      have hlength : (formatHex false 2 x.toNat).length = (formatHex false 2 y.toNat).length := by
        rw [length_formatHex false hx, length_formatHex false hy]
      rw [compareBytes, List.compareLex_cons_cons]
      change compareText (formatHex false 2 x.toNat ++ bytesText false s)
        (formatHex false 2 y.toNat ++ bytesText false t) = _
      rw [compareText_append hlength, compareText_formatHex hx hy, ih (Nat.succ.inj h)]
      rfl

/-- Groups of the same lengths are compared one after the other. -/
theorem compareText_uuidText {a b c d e a' b' c' d' e' : List Char} (ha : a.length = a'.length)
    (hb : b.length = b'.length) (hc : c.length = c'.length) (hd : d.length = d'.length) :
    compareText (uuidText a b c d e) (uuidText a' b' c' d' e') =
      (compareText a a').then ((compareText b b').then ((compareText c c').then
        ((compareText d d').then (compareText e e')))) := by
  unfold uuidText
  simp only [List.append_assoc, List.cons_append]
  rw [compareText_append ha, compareText_cons_self, compareText_append hb, compareText_cons_self,
    compareText_append hc, compareText_cons_self, compareText_append hd, compareText_cons_self]

theorem compareText_formatHex_toNat {w : ℕ} (width : ℕ) (hw : 2 ^ w = 16 ^ width) (x y : BitVec w) :
    (formatHex false width x.toNat).length = (formatHex false width y.toNat).length ∧
      compareText (formatHex false width x.toNat) (formatHex false width y.toNat) =
        compare x.toNat y.toNat := by
  have hx : x.toNat < 16 ^ width := hw ▸ x.isLt
  have hy : y.toNat < 16 ^ width := hw ▸ y.isLt
  refine ⟨?_, compareText_formatHex hx hy⟩
  rw [length_formatHex false hx, length_formatHex false hy]

/-- **The result says what the texts say.** -/
theorem resultOrder_uuidCompare (M : Memcmp) (uu1 uu2 : UuidT) :
    resultOrder (uuidCompare M uu1 uu2) =
      compareText (uuidUnparseLower uu1) (uuidUnparseLower uu2) := by
  rw [uuidUnparseLower, uuidUnparseLower, unparseWith_eq, unparseWith_eq]
  unfold uuidCompare
  generalize bytesToUuid uu1 = x
  generalize bytesToUuid uu2 = y
  obtain ⟨hlength1, h1⟩ := compareText_formatHex_toNat 8 (by decide) x.data1 y.data1
  obtain ⟨hlength2, h2⟩ := compareText_formatHex_toNat 4 (by decide) x.data2 y.data2
  obtain ⟨hlength3, h3⟩ := compareText_formatHex_toNat 4 (by decide) x.data3 y.data3
  have htake : (x.data4.toList.take 2).length = (y.data4.toList.take 2).length := by simp
  have hdrop : (x.data4.toList.drop 2).length = (y.data4.toList.drop 2).length := by simp
  have hlength4 : (bytesText false (x.data4.toList.take 2)).length =
      (bytesText false (y.data4.toList.take 2)).length := by
    rw [length_bytesText, length_bytesText, htake]
  -- the two groups of `Data4` are one comparison of eight bytes
  have h4 : compareBytes x.data4.toList y.data4.toList =
      (compareBytes (x.data4.toList.take 2) (y.data4.toList.take 2)).then
        (compareBytes (x.data4.toList.drop 2) (y.data4.toList.drop 2)) := by
    rw [compareBytes, ← compareLex_append htake, List.take_append_drop, List.take_append_drop]
  rw [compareText_uuidText hlength1 hlength2 hlength3 hlength4, h1, h2, h3,
    compareText_bytesText htake, compareText_bytesText hdrop, ← h4, resultOrder_compareField,
    resultOrder_compareField, resultOrder_compareField, M.resultOrder_memcmp (by simp)]

/-- A uuid can be told from its text: it is read back. -/
theorem uuidUnparseLower_inj {uu1 uu2 : UuidT} :
    uuidUnparseLower uu1 = uuidUnparseLower uu2 ↔ uu1 = uu2 := by
  refine ⟨fun h => ?_, congrArg uuidUnparseLower⟩
  have h1 := uuidParse_unparseWith false readsUuid_uuidFromString uu1 uu1
  have h2 := uuidParse_unparseWith false readsUuid_uuidFromString uu2 uu1
  rw [show unparseWith false uu1 = unparseWith false uu2 from h, h2] at h1
  exact (congrArg Prod.snd h1).symm

/-- For all uuids, of whatever variants: the result is zero exactly for the same bytes, its sign is
antisymmetric and transitive, and the sign is that of the comparison of the texts in small letters.
-/
theorem uuid_compare_total_order (M : Memcmp) (a b c : UuidT) :
    (uuidCompare M a b = 0 ↔ a = b) ∧
      resultOrder (uuidCompare M b a) = (resultOrder (uuidCompare M a b)).swap ∧
      (uuidCompare M a b ≤ 0 ∧ uuidCompare M b c ≤ 0 → uuidCompare M a c ≤ 0) ∧
      (uuidCompare M a b < 0 ∧ uuidCompare M b c < 0 → uuidCompare M a c < 0) ∧
      resultOrder (uuidCompare M a b) =
        compareText (uuidUnparseLower a) (uuidUnparseLower b) := by
  refine ⟨?_, ?_, ?_, ?_, resultOrder_uuidCompare M a b⟩
  · rw [← resultOrder_eq_eq_iff, resultOrder_uuidCompare, Std.LawfulEqCmp.compare_eq_iff_eq,
      uuidUnparseLower_inj]
  · rw [resultOrder_uuidCompare, resultOrder_uuidCompare]
    exact Std.OrientedCmp.eq_swap
  · rintro ⟨hab, hbc⟩
    rw [← isLE_resultOrder_iff, resultOrder_uuidCompare] at hab hbc ⊢
    exact Std.TransCmp.isLE_trans hab hbc
  · rintro ⟨hab, hbc⟩
    rw [← resultOrder_eq_lt_iff, resultOrder_uuidCompare] at hab hbc ⊢
    exact Std.TransCmp.lt_trans hab hbc

/-- A `memcmp` that only gives signs. -/
def signMemcmp : Memcmp where
  memcmp s t :=
    match compareBytes s t with
    | .lt => -1
    | .eq => 0
    | .gt => 1
  resultOrder_memcmp := by
    intro s t _
    cases compareBytes s t <;> rfl

/-- The bytes of the fields are turned round for the second uuid only: its first byte is the least
of the three, and still it is in the middle. -/
theorem uuid_compare_mixed_variants :
    let a : UuidT := #v[1, 0, 0, 0, 0, 0, 0, 0, 0x80, 0, 0, 0, 0, 0, 0, 0]
    let b : UuidT := #v[0, 0, 0, 2, 0, 0, 0, 0, 0xc0, 0, 0, 0, 0, 0, 0, 0]
    let c : UuidT := #v[3, 0, 0, 0, 0, 0, 0, 0, 0x80, 0, 0, 0, 0, 0, 0, 0]
    (uuidCompare signMemcmp a b < 0 ∧ uuidCompare signMemcmp b c < 0) ∧
      uuidCompare signMemcmp a c < 0 := by
  intro a b c
  have hsteps : uuidCompare signMemcmp a b < 0 ∧ uuidCompare signMemcmp b c < 0 := by decide
  exact ⟨hsteps, (uuid_compare_total_order signMemcmp a b c).2.2.2.1 hsteps⟩

end Uuid
end Wpdk
