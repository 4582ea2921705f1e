import Mathlib.Tactic.IntervalCases
import Wpdk.Base.Bytes
import Wpdk.Base.Hex

/-!
# The layouts of a uuid

A `uuid_t` is sixteen bytes; Windows has a structure `UUID` with a 32-bit field, two 16-bit fields
and eight bytes.  `uuid.c` goes from one to the other.  The bytes of the three fields are in the
order of the network, or the other way round for variant 2; which of the two it is, is read from
the first of the eight bytes, and these are the same in both layouts.

`wpdk_uuid_unparse_upper` and `wpdk_uuid_unparse_lower` print the fields of the Windows structure in
hexadecimal, in groups of 8, 4, 4, 4 and 12 digits.  `wpdk_uuid_parse` leaves the reading to the
Windows function `UuidFromString`, which is a parameter here: all that is asked of it is that it
reads the digits of these groups, of either case, into the fields (`ReadsUuid`).

* `uuidToBytes`, `bytesToUuid`: the two directions.  `uuidToBytes_bytesToUuid` and
  `bytesToUuid_uuidToBytes`: each undoes the other.
* `uuidUnparseUpper`, `uuidUnparseLower`, `uuidUnparse`, `uuidParse`: the functions on texts.
* `HexFields`, `uuidText`: the form.  `uuidFromString` is a reader for it.
* `readFields_unparse`: the digits that are printed stand for the fields.
* `uuid_codecs_inverse`: what is printed is read back.
-/

namespace Wpdk
namespace Uuid

/-- The Windows structure. -/
@[ext] structure UUID where
  data1 : BitVec 32
  data2 : BitVec 16
  data3 : BitVec 16
  data4 : Vector (BitVec 8) 8
deriving DecidableEq

/-- `uuid_t`. -/
abbrev UuidT := Vector (BitVec 8) 16

/-- `put_uint32`: the four bytes written at `cp`. -/
def putUint32 (v : BitVec 32) (littleEndian : Bool) : Vector (BitVec 8) 4 :=
  if littleEndian then
    #v[v.setWidth 8, (v >>> 8).setWidth 8, (v >>> 16).setWidth 8, (v >>> 24).setWidth 8]
  else #v[(v >>> 24).setWidth 8, (v >>> 16).setWidth 8, (v >>> 8).setWidth 8, v.setWidth 8]

/-- `put_uint16`. -/
def putUint16 (v : BitVec 16) (littleEndian : Bool) : Vector (BitVec 8) 2 :=
  if littleEndian then #v[v.setWidth 8, (v >>> 8).setWidth 8]
  else #v[(v >>> 8).setWidth 8, v.setWidth 8]

/-- `get_uint32`, from the four bytes at `cp`. -/
def getUint32 (cp : Vector (BitVec 8) 4) (littleEndian : Bool) : BitVec 32 :=
  if littleEndian then
    (cp[3].setWidth 32 <<< 24) ||| (cp[2].setWidth 32 <<< 16) ||| (cp[1].setWidth 32 <<< 8) |||
      cp[0].setWidth 32
  else
    (cp[0].setWidth 32 <<< 24) ||| (cp[1].setWidth 32 <<< 16) ||| (cp[2].setWidth 32 <<< 8) |||
      cp[3].setWidth 32

/-- `get_uint16`. -/
def getUint16 (cp : Vector (BitVec 8) 2) (littleEndian : Bool) : BitVec 16 :=
  if littleEndian then (cp[1].setWidth 16 <<< 8) ||| cp[0].setWidth 16
  else (cp[0].setWidth 16 <<< 8) ||| cp[1].setWidth 16

/-- `is_little_endian`: "Variant 2 is little endian". -/
def isLittleEndian (v : BitVec 8) : Bool := v &&& 0xe0 = 0xc0

/-- `uuid_to_bytes`: the bytes at `dest[0]`, `dest[4]`, `dest[6]` and `dest[8]`. -/
def uuidToBytes (src : UUID) : UuidT :=
  let littleEndian := isLittleEndian src.data4[0]
  let d1 := putUint32 src.data1 littleEndian
  let d2 := putUint16 src.data2 littleEndian
  let d3 := putUint16 src.data3 littleEndian
  let d4 := src.data4
  #v[d1[0], d1[1], d1[2], d1[3], d2[0], d2[1], d3[0], d3[1], d4[0], d4[1], d4[2], d4[3], d4[4],
    d4[5], d4[6], d4[7]]

/-- `bytes_to_uuid`. -/
def bytesToUuid (src : UuidT) : UUID :=
  let littleEndian := isLittleEndian src[8]
  { data1 := getUint32 #v[src[0], src[1], src[2], src[3]] littleEndian
    data2 := getUint16 #v[src[4], src[5]] littleEndian
    data3 := getUint16 #v[src[6], src[7]] littleEndian
    data4 := #v[src[8], src[9], src[10], src[11], src[12], src[13], src[14], src[15]] }

/-! ## The fields -/

/-- The bytes of a 32-bit word that is put together from four. -/
theorem byte_word32 (a b c d : BitVec 8) (k : ℕ) :
    byte ((a.setWidth 32 <<< 24) ||| (b.setWidth 32 <<< 16) ||| (c.setWidth 32 <<< 8) |||
      d.setWidth 32) k =
      (if k = 3 then a else 0) ||| (if k = 2 then b else 0) ||| (if k = 1 then c else 0) |||
        (if k = 0 then d else 0) := by
  rw [byte_or, byte_or, byte_or, byte_shiftLeft a (j := 3) (by omega) rfl,
    byte_shiftLeft b (j := 2) (by omega) rfl, byte_shiftLeft c (j := 1) (by omega) rfl,
    byte_setWidth d (by omega)]

theorem byte_word16 (a b : BitVec 8) (k : ℕ) :
    byte ((a.setWidth 16 <<< 8) ||| b.setWidth 16) k =
      (if k = 1 then a else 0) ||| (if k = 0 then b else 0) := by
  rw [byte_or, byte_shiftLeft a (j := 1) (by omega) rfl, byte_setWidth b (by omega)]

theorem putUint32_eq (v : BitVec 32) (littleEndian : Bool) :
    putUint32 v littleEndian =
      if littleEndian then #v[byte v 0, byte v 1, byte v 2, byte v 3]
      else #v[byte v 3, byte v 2, byte v 1, byte v 0] := by
  have hzero : v.setWidth 8 = byte v 0 := by simp [byte]
  rw [putUint32, hzero]
  rfl

theorem putUint16_eq (v : BitVec 16) (littleEndian : Bool) :
    putUint16 v littleEndian =
      if littleEndian then #v[byte v 0, byte v 1] else #v[byte v 1, byte v 0] := by
  have hzero : v.setWidth 8 = byte v 0 := by simp [byte]
  rw [putUint16, hzero]
  rfl

theorem getUint32_putUint32 (v : BitVec 32) (littleEndian : Bool) :
    getUint32 (putUint32 v littleEndian) littleEndian = v := by
  rw [putUint32_eq]
  refine ext_byte fun k hk => ?_
  have hk' : k < 4 := by omega
  cases littleEndian <;> interval_cases k <;> simp [getUint32, byte_word32]

theorem getUint16_putUint16 (v : BitVec 16) (littleEndian : Bool) :
    getUint16 (putUint16 v littleEndian) littleEndian = v := by
  rw [putUint16_eq]
  refine ext_byte fun k hk => ?_
  have hk' : k < 2 := by omega
  cases littleEndian <;> interval_cases k <;> simp [getUint16, byte_word16]

theorem putUint32_getUint32 (a b c d : BitVec 8) (littleEndian : Bool) :
    putUint32 (getUint32 #v[a, b, c, d] littleEndian) littleEndian = #v[a, b, c, d] := by
  rw [putUint32_eq]
  cases littleEndian <;> simp [getUint32, byte_word32]

theorem putUint16_getUint16 (a b : BitVec 8) (littleEndian : Bool) :
    putUint16 (getUint16 #v[a, b] littleEndian) littleEndian = #v[a, b] := by
  rw [putUint16_eq]
  cases littleEndian <;> simp [getUint16, byte_word16]

/-! ## The whole -/

/-- The fields are written one after the other. -/
theorem uuidToBytes_parts {x : UUID} {littleEndian : Bool} {d1 : Vector (BitVec 8) 4}
    {d2 d3 : Vector (BitVec 8) 2} (hvariant : isLittleEndian x.data4[0] = littleEndian)
    (h1 : putUint32 x.data1 littleEndian = d1) (h2 : putUint16 x.data2 littleEndian = d2)
    (h3 : putUint16 x.data3 littleEndian = d3) :
    uuidToBytes x = #v[d1[0], d1[1], d1[2], d1[3], d2[0], d2[1], d3[0], d3[1], x.data4[0],
      x.data4[1], x.data4[2], x.data4[3], x.data4[4], x.data4[5], x.data4[6], x.data4[7]] := by
  subst hvariant h1 h2 h3
  rfl

/-- Bytes are given back as they were, whatever the variant. -/
theorem uuidToBytes_bytesToUuid (u : UuidT) : uuidToBytes (bytesToUuid u) = u := by
  have hvariant : isLittleEndian (bytesToUuid u).data4[0] = isLittleEndian u[8] := rfl
  have h1 : putUint32 (bytesToUuid u).data1 (isLittleEndian u[8]) = #v[u[0], u[1], u[2], u[3]] :=
    putUint32_getUint32 _ _ _ _ _
  have h2 : putUint16 (bytesToUuid u).data2 (isLittleEndian u[8]) = #v[u[4], u[5]] :=
    putUint16_getUint16 _ _ _
  have h3 : putUint16 (bytesToUuid u).data3 (isLittleEndian u[8]) = #v[u[6], u[7]] :=
    putUint16_getUint16 _ _ _
  rw [uuidToBytes_parts hvariant h1 h2 h3]
  ext i hi
  interval_cases i <;> rfl

/-- The fields are read where they were written. -/
theorem bytesToUuid_parts (d1 : Vector (BitVec 8) 4) (d2 d3 : Vector (BitVec 8) 2)
    (d4 : Vector (BitVec 8) 8) :
    bytesToUuid #v[d1[0], d1[1], d1[2], d1[3], d2[0], d2[1], d3[0], d3[1], d4[0], d4[1], d4[2],
      d4[3], d4[4], d4[5], d4[6], d4[7]] =
      ⟨getUint32 d1 (isLittleEndian d4[0]), getUint16 d2 (isLittleEndian d4[0]),
        getUint16 d3 (isLittleEndian d4[0]), d4⟩ := by
  have h1 : #v[d1[0], d1[1], d1[2], d1[3]] = d1 := by
    ext i hi
    interval_cases i <;> rfl
  have h2 : ∀ v : Vector (BitVec 8) 2, #v[v[0], v[1]] = v := by
    intro v
    ext i hi
    interval_cases i <;> rfl
  have h4 : #v[d4[0], d4[1], d4[2], d4[3], d4[4], d4[5], d4[6], d4[7]] = d4 := by
    ext i hi
    interval_cases i <;> rfl
  refine UUID.ext ?_ ?_ ?_ h4
  · exact congrArg (getUint32 · _) h1
  · exact congrArg (getUint16 · _) (h2 d2)
  · exact congrArg (getUint16 · _) (h2 d3)

/-- So is a structure: the two sides read the variant from the same byte. -/
theorem bytesToUuid_uuidToBytes (x : UUID) : bytesToUuid (uuidToBytes x) = x := by
  unfold uuidToBytes
  rw [bytesToUuid_parts, getUint32_putUint32, getUint16_putUint16, getUint16_putUint16]

/-! ## Texts -/

/-- The conversions `%02X%02X`, as many as there are bytes. -/
def bytesText (upper : Bool) (bytes : List (BitVec 8)) : List Char :=
  bytes.flatMap fun b => formatHex upper 2 b.toNat

/-- Five groups of characters with hyphens between them. -/
def uuidText (a b c d e : List Char) : List Char :=
  a ++ '-' :: b ++ '-' :: c ++ '-' :: d ++ '-' :: e

/-- The `sprintf` of the two functions below. -/
def unparseWith (upper : Bool) (uu : UuidT) : List Char :=
  let u := bytesToUuid uu
  uuidText (formatHex upper 8 u.data1.toNat) (formatHex upper 4 u.data2.toNat)
    (formatHex upper 4 u.data3.toNat) (bytesText upper [u.data4[0], u.data4[1]])
    (bytesText upper
      [u.data4[2], u.data4[3], u.data4[4], u.data4[5], u.data4[6], u.data4[7]])

/-- `wpdk_uuid_unparse_upper`. -/
def uuidUnparseUpper (uu : UuidT) : List Char := unparseWith true uu

/-- `wpdk_uuid_unparse_lower`. -/
def uuidUnparseLower (uu : UuidT) : List Char := unparseWith false uu

/-- `wpdk_uuid_unparse`. -/
def uuidUnparse (uu : UuidT) : List Char := uuidUnparseUpper uu

/-- `wpdk_uuid_parse`: the return value, and what is in `uu` after it. -/
def uuidParse (fromString : List Char → Option UUID) (text : List Char) (uu : UuidT) : ℤ × UuidT :=
  match fromString text with
  | some id => (0, uuidToBytes id)
  | none => (-1, uu)

/-! ## The form -/

/-- **The groups are of 8, 4, 4, 4 and 12 digits.** -/
def HexFields (a b c d e : List Char) : Prop :=
  (a.length = 8 ∧ b.length = 4 ∧ c.length = 4 ∧ d.length = 4 ∧ e.length = 12) ∧
    ∀ x ∈ a ++ b ++ c ++ d ++ e, IsHex x

instance (a b c d e : List Char) : Decidable (HexFields a b c d e) :=
  inferInstanceAs (Decidable (_ ∧ _))

/-- The fields that the digits stand for; the last two groups are the eight bytes of `Data4`. -/
def readFields (a b c d e : List Char) : UUID where
  data1 := BitVec.ofNat 32 (readHex a)
  data2 := BitVec.ofNat 16 (readHex b)
  data3 := BitVec.ofNat 16 (readHex c)
  data4 := Vector.ofFn fun i : Fin 8 => BitVec.ofNat 8 (readHex (((d ++ e).drop (2 * i)).take 2))

/-- **What is asked of `UuidFromString`**: it reads the form. -/
def ReadsUuid (fromString : List Char → Option UUID) : Prop :=
  ∀ a b c d e, HexFields a b c d e → fromString (uuidText a b c d e) = some (readFields a b c d e)

/-- A reader of the form, and of nothing else. -/
def uuidFromString (text : List Char) : Option UUID :=
  let a := text.take 8
  let b := (text.drop 9).take 4
  let c := (text.drop 14).take 4
  let d := (text.drop 19).take 4
  let e := text.drop 24
  if HexFields a b c d e ∧ text = uuidText a b c d e then some (readFields a b c d e) else none

theorem length_uuidText {a b c d e : List Char} (h : HexFields a b c d e) :
    (uuidText a b c d e).length = 36 := by
  obtain ⟨⟨ha, hb, hc, hd, he⟩, -⟩ := h
  simp [uuidText, ha, hb, hc, hd, he]

/-- What stands behind a group and its hyphen. -/
theorem drop_group {group rest : List Char} {n : ℕ} (h : group.length = n) :
    (group ++ '-' :: rest).drop (n + 1) = rest := by
  rw [← List.drop_drop, List.drop_left' h]
  rfl

theorem readsUuid_uuidFromString : ReadsUuid uuidFromString := by
  intro a b c d e h
  obtain ⟨ha, hb, hc, hd, -⟩ := h.1
  have htext : uuidText a b c d e = a ++ '-' :: (b ++ '-' :: (c ++ '-' :: (d ++ '-' :: e))) := by
    simp only [uuidText, List.append_assoc, List.cons_append]
  -- what is left behind each of the hyphens
  have h9 : (uuidText a b c d e).drop 9 = b ++ '-' :: (c ++ '-' :: (d ++ '-' :: e)) := by
    rw [htext]
    exact drop_group ha
  have h14 : (uuidText a b c d e).drop 14 = c ++ '-' :: (d ++ '-' :: e) := by
    rw [show 14 = 9 + 5 from rfl, ← List.drop_drop, h9]
    exact drop_group hb
  have h19 : (uuidText a b c d e).drop 19 = d ++ '-' :: e := by
    rw [show 19 = 14 + 5 from rfl, ← List.drop_drop, h14]
    exact drop_group hc
  have h24 : (uuidText a b c d e).drop 24 = e := by
    rw [show 24 = 19 + 5 from rfl, ← List.drop_drop, h19]
    exact drop_group hd
  have h8 : (uuidText a b c d e).take 8 = a := by
    rw [htext]
    exact List.take_left' ha
  unfold uuidFromString
  dsimp only
  rw [h8, h9, h14, h19, h24, List.take_left' hb, List.take_left' hc, List.take_left' hd,
    if_pos ⟨h, rfl⟩]

/-! ## What is printed -/

variable (upper : Bool)

theorem length_bytesText (bytes : List (BitVec 8)) :
    (bytesText upper bytes).length = 2 * bytes.length := by
  induction bytes with
  | nil => rfl
  | cons b bytes ih =>
    have hb : (formatHex upper 2 b.toNat).length = 2 := length_formatHex upper b.isLt
    change (formatHex upper 2 b.toNat ++ bytesText upper bytes).length = 2 * (bytes.length + 1)
    rw [List.length_append, hb, ih]
    omega

/-- The digits of a byte stand at twice its index. -/
theorem take_drop_bytesText (bytes : List (BitVec 8)) {i : ℕ} (hi : i < bytes.length) :
    ((bytesText upper bytes).drop (2 * i)).take 2 = formatHex upper 2 bytes[i].toNat := by
  induction bytes generalizing i with
  | nil => exact absurd hi (Nat.not_lt_zero i)
  | cons b bytes ih =>
    have hb : (formatHex upper 2 b.toNat).length = 2 := length_formatHex upper b.isLt
    change ((formatHex upper 2 b.toNat ++ bytesText upper bytes).drop (2 * i)).take 2 = _
    cases i with
    | zero => exact List.take_left' hb
    | succ i =>
      rw [show 2 * (i + 1) = 2 + 2 * i by omega, ← List.drop_drop, List.drop_left' hb]
      exact ih (Nat.lt_of_succ_lt_succ hi)

theorem hexFields_unparse (u : UUID) :
    HexFields (formatHex upper 8 u.data1.toNat) (formatHex upper 4 u.data2.toNat)
      (formatHex upper 4 u.data3.toNat) (bytesText upper [u.data4[0], u.data4[1]])
      (bytesText upper
        [u.data4[2], u.data4[3], u.data4[4], u.data4[5], u.data4[6], u.data4[7]]) := by
  refine ⟨⟨length_formatHex upper u.data1.isLt, length_formatHex upper u.data2.isLt,
    length_formatHex upper u.data3.isLt, length_bytesText upper _, length_bytesText upper _⟩, ?_⟩
  have hbytes : ∀ (bytes : List (BitVec 8)), ∀ x ∈ bytesText upper bytes, IsHex x := by
    intro bytes x hx
    obtain ⟨b, -, hb⟩ := List.mem_flatMap.mp hx
    exact isHex_of_mem_formatHex upper hb
  intro x hx
  simp only [List.mem_append] at hx
  rcases hx with (((hx | hx) | hx) | hx) | hx
  · exact isHex_of_mem_formatHex upper hx
  · exact isHex_of_mem_formatHex upper hx
  · exact isHex_of_mem_formatHex upper hx
  · exact hbytes _ x hx
  · exact hbytes _ x hx

theorem bytes_data4 (v : Vector (BitVec 8) 8) :
    [v[0], v[1]] = v.toList.take 2 ∧ [v[2], v[3], v[4], v[5], v[6], v[7]] = v.toList.drop 2 := by
  constructor
  · refine List.ext_getElem (by simp) fun i hi hi' => ?_
    have hlt : i < 2 := hi
    rw [List.getElem_take, Vector.getElem_toList]
    interval_cases i <;> rfl
  · refine List.ext_getElem (by simp) fun i hi hi' => ?_
    have hlt : i < 6 := hi
    rw [List.getElem_drop, Vector.getElem_toList]
    interval_cases i <;> rfl

/-- The text in terms of the fields, with the bytes of `Data4` as a list. -/
theorem unparseWith_eq (uu : UuidT) :
    unparseWith upper uu =
      uuidText (formatHex upper 8 (bytesToUuid uu).data1.toNat)
        (formatHex upper 4 (bytesToUuid uu).data2.toNat)
        (formatHex upper 4 (bytesToUuid uu).data3.toNat)
        (bytesText upper ((bytesToUuid uu).data4.toList.take 2))
        (bytesText upper ((bytesToUuid uu).data4.toList.drop 2)) := by
  rw [← (bytes_data4 _).1, ← (bytes_data4 _).2]
  rfl

/-- The digits stand for the fields they were printed from. -/
theorem readFields_unparse (u : UUID) :
    readFields (formatHex upper 8 u.data1.toNat) (formatHex upper 4 u.data2.toNat)
      (formatHex upper 4 u.data3.toNat) (bytesText upper [u.data4[0], u.data4[1]])
      (bytesText upper
        [u.data4[2], u.data4[3], u.data4[4], u.data4[5], u.data4[6], u.data4[7]]) = u := by
  have hfield : ∀ {w width : ℕ} (v : BitVec w),
      BitVec.ofNat w (readHex (formatHex upper width v.toNat)) = v := by
    intro w width v
    rw [readHex_formatHex, BitVec.ofNat_toNat, BitVec.setWidth_eq]
  refine UUID.ext (hfield _) (hfield _) (hfield _) ?_
  have htext : bytesText upper [u.data4[0], u.data4[1]] ++ bytesText upper
      [u.data4[2], u.data4[3], u.data4[4], u.data4[5], u.data4[6], u.data4[7]] =
      bytesText upper u.data4.toList := by
    rw [(bytes_data4 u.data4).1, (bytes_data4 u.data4).2, bytesText, bytesText,
      ← List.flatMap_append, List.take_append_drop]
    rfl
  unfold readFields
  rw [htext]
  ext i hi
  have hlt : i < u.data4.toList.length := by simpa using hi
  rw [Vector.getElem_ofFn, take_drop_bytesText upper _ hlt, Vector.getElem_toList, hfield]

theorem uuidParse_unparseWith {fromString : List Char → Option UUID} (hread : ReadsUuid fromString)
    (u uu : UuidT) : uuidParse fromString (unparseWith upper u) uu = (0, u) := by
  have hparse := hread _ _ _ _ _ (hexFields_unparse upper (bytesToUuid u))
  rw [readFields_unparse] at hparse
  unfold uuidParse unparseWith
  rw [hparse]
  exact congrArg (Prod.mk 0) (uuidToBytes_bytesToUuid u)

/-- **The codecs of a uuid are inverse to each other**: bytes and structure in both directions, and
the text that is printed for a uuid is of the form 8-4-4-4-12 and is read back as the same uuid, for
every variant and in either case. -/
theorem uuid_codecs_inverse (fromString : List Char → Option UUID)
    (hread : ReadsUuid fromString) :
    (∀ u, uuidToBytes (bytesToUuid u) = u) ∧ (∀ x, bytesToUuid (uuidToBytes x) = x) ∧
      ∀ u, ∀ text ∈ [uuidUnparseUpper u, uuidUnparseLower u, uuidUnparse u],
        (text.length = 36 ∧ ∃ a b c d e, HexFields a b c d e ∧ text = uuidText a b c d e) ∧
          ∀ uu, uuidParse fromString text uu = (0, u) := by
  refine ⟨uuidToBytes_bytesToUuid, bytesToUuid_uuidToBytes, fun u text htext => ?_⟩
  obtain ⟨upper, hupper⟩ : ∃ upper, text = unparseWith upper u := by
    simp only [List.mem_cons, List.not_mem_nil, or_false] at htext
    rcases htext with h | h | h
    · exact ⟨true, h⟩
    · exact ⟨false, h⟩
    · exact ⟨true, h⟩
  rw [hupper]
  have hform := hexFields_unparse upper (bytesToUuid u)
  exact ⟨⟨length_uuidText hform, _, _, _, _, _, hform, rfl⟩,
    fun uu => uuidParse_unparseWith upper hread u uu⟩

/-- A uuid of variant 2 --- its ninth byte begins with `110` --- is printed with the bytes of the
first three fields turned round. -/
def littleEndianUuid : UuidT :=
  #v[0x00, 0x11, 0x22, 0x33, 0x44, 0x55, 0x66, 0x77, 0xc8, 0x99, 0xaa, 0xbb, 0xcc, 0xdd, 0xee, 0xff]

theorem uuid_codecs_inverse_littleEndian :
    uuidUnparseUpper littleEndianUuid = "33221100-5544-7766-C899-AABBCCDDEEFF".toList ∧
      uuidParse uuidFromString "33221100-5544-7766-C899-AABBCCDDEEFF".toList
        (Vector.replicate 16 0) = (0, littleEndianUuid) := by
  have htext : uuidUnparseUpper littleEndianUuid =
      "33221100-5544-7766-C899-AABBCCDDEEFF".toList := by decide
  refine ⟨htext, ?_⟩
  rw [← htext]
  exact ((uuid_codecs_inverse uuidFromString readsUuid_uuidFromString).2.2 littleEndianUuid _
    List.mem_cons_self).2 _

end Uuid
end Wpdk
