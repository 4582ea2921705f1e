import Mathlib.Data.List.Basic
import Wpdk.Error

/-!
# Memory

`wpdk_calloc`, `wpdk_malloc`, `wpdk_realloc` and `wpdk_posix_memalign` over the aligned allocator of
the C runtime.  A block is the list of its bytes.

A size of zero is replaced by `sizeof(int)`, so that every block has at least a byte.  For `calloc`
the size that is compared with zero is the product of its arguments as a `size_t`: a product that
does not fit is reduced, and the block that comes back is shorter than the one that was asked for.

* `AlignedAllocator`: the allocator, whose blocks have the size that it was asked for.
* `calloc`, `malloc`, `realloc`, `posixMemalign`: the functions; `AllocCall`: a call of any of them.
* `AllocCall.Sufficient`: what a call that succeeds has to provide.
* `sufficient_iff`: it does, but for a `calloc` whose product does not fit and that succeeds.
-/

namespace Wpdk
namespace Stdlib

/-- A `size_t`. -/
abbrev SizeT := BitVec 64

/-- The bytes of a block. -/
abbrev Block := List UInt8

/-- `_aligned_malloc` and `_aligned_realloc`, by size and alignment.  The contents of a new block
are arbitrary. -/
structure AlignedAllocator where
  alignedMalloc : SizeT → SizeT → Option Block
  length_alignedMalloc : ∀ {size alignment block},
    alignedMalloc size alignment = some block → block.length = size.toNat
  alignedRealloc : Option Block → SizeT → SizeT → Option Block
  length_alignedRealloc : ∀ {ptr size alignment block},
    alignedRealloc ptr size alignment = some block → block.length = size.toNat

/-- `default_alignment`. -/
def defaultAlignment : SizeT := 16

/-- `size ? size : sizeof(int)`. -/
def orInt (size : SizeT) : SizeT := if size ≠ 0 then size else 4

/-- `memset`. -/
def memset (block : Block) (value : UInt8) (size : SizeT) : Block :=
  List.replicate size.toNat value ++ block.drop size.toNat

section Calls

variable (A : AlignedAllocator)

/-- `wpdk_calloc`, with the product taken in a `size_t`. -/
def calloc (nelem elsize : SizeT) : Option Block :=
  match A.alignedMalloc (orInt (nelem * elsize)) defaultAlignment with
  | some cp => some (memset cp 0 (orInt (nelem * elsize)))
  | none => none

/-- `wpdk_malloc`. -/
def malloc (size : SizeT) : Option Block := A.alignedMalloc (orInt size) defaultAlignment

/-- `wpdk_realloc`. -/
def realloc (ptr : Option Block) (size : SizeT) : Option Block :=
  A.alignedRealloc ptr (orInt size) defaultAlignment

/-- `wpdk_posix_memalign`; `memptr` is whether there is a place for the result. -/
def posixMemalign (memptr : Bool) (alignment size : SizeT) : Except Errno Block :=
  if memptr = false ∨ size = 0 then .error .einval
  else
    match A.alignedMalloc (orInt size) alignment with
    | some block => .ok block
    | none => .error .enomem

end Calls

/-- A call of one of the four functions. -/
inductive AllocCall where
  | calloc (nelem elsize : SizeT)
  | malloc (size : SizeT)
  | realloc (ptr : Option Block) (size : SizeT)
  | posixMemalign (memptr : Bool) (alignment size : SizeT)

namespace AllocCall

/-- The block of a call that succeeds. -/
def block (A : AlignedAllocator) : AllocCall → Option Block
  | calloc nelem elsize => Stdlib.calloc A nelem elsize
  | malloc size => Stdlib.malloc A size
  | realloc ptr size => Stdlib.realloc A ptr size
  | posixMemalign memptr alignment size => (Stdlib.posixMemalign A memptr alignment size).toOption

/-- The number of bytes that the caller asks for. -/
def wanted : AllocCall → ℕ
  | calloc nelem elsize => nelem.toNat * elsize.toNat
  | malloc size => size.toNat
  | realloc _ size => size.toNat
  | posixMemalign _ _ size => size.toNat

/-- Whether the bytes asked for are zero. -/
def zeroed : AllocCall → Bool
  | calloc _ _ => true
  | _ => false

/-- **If the call succeeds** then the block has at least the bytes that were asked for and at least
one, and those of a `calloc` are zero. -/
def Sufficient (A : AlignedAllocator) (call : AllocCall) : Prop :=
  ∀ b, call.block A = some b →
    call.wanted ≤ b.length ∧ 1 ≤ b.length ∧
      (call.zeroed = true → ∀ i, i < call.wanted → b[i]? = some 0)

end AllocCall

/-! ## Sizes -/

theorem toNat_orInt (size : SizeT) :
    (orInt size).toNat = if size.toNat = 0 then 4 else size.toNat := by
  unfold orInt
  by_cases h : size = 0
  · subst h
    rfl
  · rw [if_pos h, if_neg]
    exact fun hnat => h (BitVec.eq_of_toNat_eq hnat)

theorem le_toNat_orInt (size : SizeT) : size.toNat ≤ (orInt size).toNat := by
  rw [toNat_orInt]
  split
  · omega
  · exact Nat.le_refl _

theorem one_le_toNat_orInt (size : SizeT) : 1 ≤ (orInt size).toNat := by
  rw [toNat_orInt]
  split
  · decide
  · omega

/-! ## The functions -/

section Specs

variable {A : AlignedAllocator} {nelem elsize size alignment : SizeT} {ptr : Option Block}
  {b : Block} {memptr : Bool}

theorem calloc_eq_none_iff :
    calloc A nelem elsize = none ↔
      A.alignedMalloc (orInt (nelem * elsize)) defaultAlignment = none := by
  unfold calloc
  cases A.alignedMalloc (orInt (nelem * elsize)) defaultAlignment with
  | none => exact iff_of_true rfl rfl
  | some cp => exact iff_of_false (Option.some_ne_none _) (Option.some_ne_none _)

/-- The block of a `calloc` is zero throughout, and as long as the reduced product says. -/
theorem calloc_spec (h : calloc A nelem elsize = some b) :
    b = List.replicate (orInt (nelem * elsize)).toNat 0 := by
  unfold calloc at h
  cases hcp : A.alignedMalloc (orInt (nelem * elsize)) defaultAlignment with
  | none =>
    rw [hcp] at h
    cases h
  | some cp =>
    rw [hcp] at h
    have hdrop : cp.drop (orInt (nelem * elsize)).toNat = [] :=
      List.drop_eq_nil_of_le (Nat.le_of_eq (A.length_alignedMalloc hcp))
    rw [← Option.some.inj h, memset, hdrop, List.append_nil]

theorem malloc_spec (h : malloc A size = some b) : b.length = (orInt size).toNat :=
  A.length_alignedMalloc h

theorem realloc_spec (h : realloc A ptr size = some b) : b.length = (orInt size).toNat :=
  A.length_alignedRealloc h

theorem posixMemalign_spec (h : (posixMemalign A memptr alignment size).toOption = some b) :
    b.length = (orInt size).toNat := by
  unfold posixMemalign at h
  split at h
  · cases h
  · cases hb : A.alignedMalloc (orInt size) alignment with
    | none =>
      rw [hb] at h
      cases h
    | some block =>
      rw [hb] at h
      rw [← Option.some.inj h]
      exact A.length_alignedMalloc hb

/-- A size that is passed on as it is, or replaced if it is zero, is enough. -/
theorem sufficient_of_length {call : AllocCall} (hzeroed : call.zeroed = false)
    (h : ∀ b, call.block A = some b → ∃ size : SizeT, call.wanted = size.toNat ∧
      b.length = (orInt size).toNat) : call.Sufficient A := by
  intro b hb
  obtain ⟨size, hwanted, hlength⟩ := h b hb
  rw [hwanted, hlength]
  exact ⟨le_toNat_orInt size, one_le_toNat_orInt size, fun hz => absurd (hzeroed ▸ hz) (by decide)⟩

/-- **A `calloc` is sufficient** if the product fits or nothing is allocated, and only then: the
reduced product is less than 2 ^ 64. -/
theorem sufficient_calloc_iff :
    (AllocCall.calloc nelem elsize).Sufficient A ↔
      nelem.toNat * elsize.toNat < 18446744073709551616 ∨
        A.alignedMalloc (orInt (nelem * elsize)) defaultAlignment = none := by
  constructor
  · intro h
    cases hb : calloc A nelem elsize with
    | none => exact Or.inr (calloc_eq_none_iff.mp hb)
    | some b =>
      left
      have hle : nelem.toNat * elsize.toNat ≤ b.length := (h b hb).1
      rw [calloc_spec hb, List.length_replicate] at hle
      exact Nat.lt_of_le_of_lt hle (orInt (nelem * elsize)).isLt
  · intro h b hb
    have hfits : nelem.toNat * elsize.toNat < 18446744073709551616 := by
      refine h.resolve_right fun hnone => ?_
      rw [AllocCall.block, calloc_eq_none_iff.mpr hnone] at hb
      cases hb
    have hproduct : (nelem * elsize).toNat = nelem.toNat * elsize.toNat := by
      rw [BitVec.toNat_mul]
      exact Nat.mod_eq_of_lt hfits
    have hle : nelem.toNat * elsize.toNat ≤ (orInt (nelem * elsize)).toNat := by
      rw [← hproduct]
      exact le_toNat_orInt _
    rw [calloc_spec hb, List.length_replicate]
    refine ⟨hle, one_le_toNat_orInt _, fun _ i hi => ?_⟩
    rw [List.getElem?_replicate, if_pos (Nat.lt_of_lt_of_le hi hle)]

end Specs

/-- For every allocator and every call of the four functions: a call that succeeds gets at least
what it has asked for, unless it is a `calloc` whose product does not fit into a `size_t` and the
allocation of what is left of the product succeeds. -/
theorem sufficient_iff (A : AlignedAllocator) (call : AllocCall) :
    call.Sufficient A ↔
      ∀ nelem elsize, call = .calloc nelem elsize →
        nelem.toNat * elsize.toNat < 18446744073709551616 ∨
          A.alignedMalloc (orInt (nelem * elsize)) defaultAlignment = none := by
  cases call with
  | calloc nelem elsize =>
    rw [sufficient_calloc_iff]
    constructor
    · rintro h _ _ heq
      cases heq
      exact h
    · exact fun h => h nelem elsize rfl
  | malloc size =>
    exact iff_of_true (sufficient_of_length rfl fun _ hb => ⟨size, rfl, malloc_spec hb⟩)
      fun _ _ heq => nomatch heq
  | realloc ptr size =>
    exact iff_of_true (sufficient_of_length rfl fun _ hb => ⟨size, rfl, realloc_spec hb⟩)
      fun _ _ heq => nomatch heq
  | posixMemalign memptr alignment size =>
    exact iff_of_true (sufficient_of_length rfl fun _ hb => ⟨size, rfl, posixMemalign_spec hb⟩)
      fun _ _ heq => nomatch heq

/-- An allocator with memory for every request. -/
def plentiful : AlignedAllocator where
  alignedMalloc size _ := some (List.replicate size.toNat 255)
  length_alignedMalloc h := by rw [← Option.some.inj h, List.length_replicate]
  alignedRealloc ptr size _ :=
    some ((ptr.getD []).take size.toNat ++ List.replicate (size.toNat - (ptr.getD []).length) 255)
  length_alignedRealloc h := by
    rw [← Option.some.inj h, List.length_append, List.length_take, List.length_replicate]
    omega

/-- 2 ^ 32 elements of 2 ^ 32 bytes: `calloc` succeeds with a block of four bytes. -/
theorem calloc_product_lost :
    calloc plentiful 4294967296 4294967296 = some [0, 0, 0, 0] ∧
      (AllocCall.calloc 4294967296 4294967296).wanted = 18446744073709551616 ∧
      ¬ (AllocCall.calloc 4294967296 4294967296).Sufficient plentiful := by
  have hcall : calloc plentiful 4294967296 4294967296 = some [0, 0, 0, 0] := by decide
  refine ⟨hcall, rfl, fun h => ?_⟩
  have hle := (h _ hcall).1
  exact absurd hle (by decide)

end Stdlib
end Wpdk
