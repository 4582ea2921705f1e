import Mathlib.Data.Int.Notation
import Mathlib.Logic.Function.Basic
import Wpdk.Stdio.Getdelim

/-!
# The buffer of `getdelim`

The loop of `wpdk_getdelim` once more, this time with the heap: blocks that are allocated and freed,
a `realloc` that may fail, and `*lineptr` and `*n` as variables of the caller that are set at
different times.  The contents of the buffer are left out, and every store is kept with its index
and the size of the block at that time.

The buffer grows if `len + 2 >= *n`, and then it is doubled.  That makes room for two more bytes
because there is always room for the terminator: `len < *n` from the first store on, whatever size
the caller has started with (`Ready`).

* `Heap`: the live blocks, none larger than an object can be.
* `Vars`: the state of a call; `grow`, `growthLoop`, `getdelimVars`: the function.
* `Ready`: the invariant at the head of the loop; `Roomy`: what holds after the test for room.
* `getdelim_growth_sufficient`: stores are inside the block, and the caller is left with the block.
* `ret_eq_getdelim`: a length that is returned is the one that `getdelim` returns.
-/

namespace Wpdk
namespace Stdio

/-- `PTRDIFF_MAX`: no object is larger. -/
def objectMax : ℕ := 9223372036854775807

/-- The sizes of the live blocks, by address. -/
structure Heap where
  live : ℕ → Option ℕ
  live_le : ∀ p n, live p = some n → n ≤ objectMax

/-- The heap without the block at `old`. -/
def Heap.free (heap : Heap) (old : Option ℕ) : Heap where
  live q := if old = some q then none else heap.live q
  live_le := by
    intro q n hq
    split at hq
    · cases hq
    · exact heap.live_le q n hq

/-- The heap with a block of a size at `p`, instead of the old one. -/
def Heap.move (heap : Heap) (old : Option ℕ) (p size : ℕ) (h : size ≤ objectMax) : Heap where
  live := Function.update (heap.free old).live p (some size)
  live_le := by
    intro q n hq
    by_cases hqp : q = p
    · rw [hqp, Function.update_self] at hq
      rw [← Option.some.inj hq]
      exact h
    · rw [Function.update_of_ne hqp] at hq
      exact (heap.free old).live_le q n hq

/-- `realloc` of the C library: `answer` is the address of the new block, or nothing if there is no
memory.  A block that is to have no bytes is freed. -/
def Heap.realloc (heap : Heap) (old : Option ℕ) (size : ℕ) (answer : Option ℕ) :
    Heap × Option ℕ :=
  if old.isSome ∧ size = 0 then (heap.free old, none)
  else
    match answer with
    | none => (heap, none)
    | some p => if h : size ≤ objectMax then (heap.move old p size h, some p) else (heap, none)

/-- A store at an index of a buffer, with the size of the block if there is one. -/
structure Store where
  index : ℕ
  size : Option ℕ

/-- The heap, `*lineptr`, `*n`, the number of reallocations and the stores so far. -/
structure Vars where
  heap : Heap
  lineptr : Option ℕ
  n : ℕ
  reallocs : ℕ
  stores : List Store

/-- The block at a pointer. -/
def Vars.blockSize (v : Vars) (buf : Option ℕ) : Option ℕ := buf.bind v.heap.live

/-- `buf[i] = ...`. -/
def Vars.store (v : Vars) (buf : Option ℕ) (i : ℕ) : Vars :=
  { v with stores := ⟨i, v.blockSize buf⟩ :: v.stores }

/-- `newlen`, a `size_t`. -/
def newLength (v : Vars) (buf : Option ℕ) : ℕ :=
  if buf.isSome ∧ v.n ≠ 0 then v.n * 2 % 18446744073709551616 else bufsiz

section Loop

-- the answers to the reallocations, whether reading ends with the end of the file, and `delim`
variable (answers : ℕ → Option ℕ) (feof : Bool) (delim : ℤ)

/-- The test for room: the variables and the buffer to go on with, or the variables at a return. -/
def grow (v : Vars) (buf : Option ℕ) (len : ℕ) : Except Vars (Vars × Option ℕ) :=
  if buf.isNone ∨ v.n ≤ len + 2 then
    match v.heap.realloc buf (newLength v buf) (answers v.reallocs) with
    | (heap, none) => .error { v with heap := heap, reallocs := v.reallocs + 1 }
    | (heap, some p) =>
      .ok ({ v with
        heap := heap
        lineptr := some p
        n := newLength v buf
        reallocs := v.reallocs + 1 }, some p)
  else .ok (v, buf)

/-- The loop: the variables at the return, and the value, `none` standing for -1. -/
def growthLoop : List UInt8 → Vars → Option ℕ → ℕ → ℤ → Vars × Option ℕ
  | [], v, buf, len, ch =>
    if ch = delim then (v.store buf len, some len)
    else
      match grow answers v buf len with
      | .error v => (v, none)
      | .ok (v, buf) => if feof ∧ len ≠ 0 then (v.store buf len, some len) else (v, none)
  | c :: stream, v, buf, len, ch =>
    if ch = delim then (v.store buf len, some len)
    else
      match grow answers v buf len with
      | .error v => (v, none)
      | .ok (v, buf) => growthLoop stream (v.store buf len) buf (len + 1) c.toNat

end Loop

/-- `*lineptr` and `*n` as the caller passes them: a null pointer and any number, or a block with
its size. -/
structure CallerBuf where
  heap : Heap
  lineptr : Option ℕ
  n : ℕ
  described : ∀ p, lineptr = some p → heap.live p = some n

/-- The variables when the function is called. -/
def CallerBuf.vars (b : CallerBuf) : Vars := ⟨b.heap, b.lineptr, b.n, 0, []⟩

/-- `wpdk_getdelim`. -/
def getdelimVars (answers : ℕ → Option ℕ) (feof : Bool) (delim : ℤ) (b : CallerBuf)
    (stream : List UInt8) : Vars × Option ℕ :=
  growthLoop answers feof delim stream b.vars b.lineptr 0 0

/-! ## What is kept -/

/-- `*lineptr` and `*n` describe the block that is allocated, and every store was inside the block
it was made to. -/
structure Described (v : Vars) : Prop where
  block : ∀ p, v.lineptr = some p → v.heap.live p = some v.n
  inside : ∀ st ∈ v.stores, ∃ size, st.size = some size ∧ st.index < size

/-- At the head of the loop there is room for the terminator once anything was stored. -/
structure Ready (v : Vars) (buf : Option ℕ) (len : ℕ) : Prop extends Described v where
  buf_eq : buf = v.lineptr
  room : len = 0 ∨ buf.isSome = true ∧ len < v.n

/-- After the test there is room for a byte and the terminator. -/
structure Roomy (v : Vars) (buf : Option ℕ) (len : ℕ) : Prop extends Described v where
  buf_eq : buf = v.lineptr
  isSome : buf.isSome = true
  room : len + 2 ≤ v.n

section Steps

variable {answers : ℕ → Option ℕ} {feof : Bool} {delim : ℤ} {v v' : Vars} {buf buf' : Option ℕ}
  {len : ℕ}

/-- A reallocation that is not for nothing: no memory, and the heap is as it was, or a block of the
size. -/
theorem realloc_cases (heap : Heap) {size : ℕ} (old answer : Option ℕ) (hsize : size ≠ 0) :
    heap.realloc old size answer = (heap, none) ∨
      ∃ heap' p, heap.realloc old size answer = (heap', some p) ∧ heap'.live p = some size := by
  unfold Heap.realloc
  rw [if_neg fun h => hsize h.2]
  cases answer with
  | none => exact Or.inl rfl
  | some p =>
    by_cases hmax : size ≤ objectMax
    · exact Or.inr ⟨heap.move old p size hmax, p, dif_pos hmax, Function.update_self _ _ _⟩
    · exact Or.inl (dif_neg hmax)

/-- **Doubling is enough**, and does not overflow: the new length is not zero, and there is room for
two more bytes. -/
theorem newLength_spec (h : Ready v buf len) :
    newLength v buf ≠ 0 ∧ len + 2 ≤ newLength v buf := by
  unfold newLength
  split
  · rename_i hbuf
    obtain ⟨p, hp⟩ := Option.isSome_iff_exists.mp hbuf.1
    have hmax : v.n ≤ objectMax := v.heap.live_le p v.n (h.block p (by rw [← h.buf_eq, hp]))
    have hpos := hbuf.2
    have hroom : len = 0 ∨ len < v.n := h.room.imp_right And.right
    unfold objectMax at hmax
    rw [Nat.mod_eq_of_lt (by omega)]
    omega
  · rename_i hbuf
    have hzero : len = 0 := by
      rcases h.room with hzero | ⟨hsome, hlt⟩
      · exact hzero
      · exact absurd ⟨hsome, by omega⟩ hbuf
    rw [hzero]
    decide

/-- **The test for room**: a failure leaves the block as it was. -/
theorem grow_cases (answers : ℕ → Option ℕ) (h : Ready v buf len) :
    (∃ v', grow answers v buf len = .error v' ∧ Described v') ∨
      ∃ v' buf', grow answers v buf len = .ok (v', buf') ∧ Roomy v' buf' len := by
  unfold grow
  by_cases hgrow : buf.isNone = true ∨ v.n ≤ len + 2
  · rw [if_pos hgrow]
    obtain ⟨hne, hroom⟩ := newLength_spec h
    obtain hre | ⟨heap, p, hre, hlive⟩ := realloc_cases v.heap buf (answers v.reallocs) hne
    · rw [hre]
      exact Or.inl ⟨_, rfl, h.block, h.inside⟩
    · rw [hre]
      refine Or.inr ⟨_, _, rfl, ⟨?_, h.inside⟩, rfl, rfl, hroom⟩
      intro q hq
      obtain rfl := Option.some.inj hq
      exact hlive
  · rw [if_neg hgrow]
    rw [not_or, Option.isNone_iff_eq_none] at hgrow
    exact Or.inr ⟨v, buf, rfl, h.toDescribed, h.buf_eq, Option.isSome_iff_ne_none.mpr hgrow.1,
      by omega⟩

theorem described_store (h : Described v) (hbuf : buf = v.lineptr) (hsome : buf.isSome = true)
    (hlt : len < v.n) : Described (v.store buf len) := by
  refine ⟨h.block, fun st hst => ?_⟩
  rcases List.mem_cons.mp hst with rfl | hold
  · obtain ⟨p, hp⟩ := Option.isSome_iff_exists.mp hsome
    refine ⟨v.n, ?_, hlt⟩
    show buf.bind v.heap.live = some v.n
    rw [hp]
    exact h.block p (by rw [← hbuf, hp])
  · exact h.inside st hold

theorem Roomy.terminate (h : Roomy v buf len) : Described (v.store buf len) := by
  have hroom := h.room
  exact described_store h.toDescribed h.buf_eq h.isSome (by omega)

/-- Storing a byte keeps the invariant. -/
theorem Roomy.store (h : Roomy v buf len) : Ready (v.store buf len) buf (len + 1) := by
  refine ⟨h.terminate, h.buf_eq, Or.inr ⟨h.isSome, ?_⟩⟩
  exact Nat.lt_of_lt_of_le (Nat.lt_succ_self _) h.room

/-- Once anything was stored there is room for the terminator. -/
theorem Ready.terminate (h : Ready v buf len) (hlen : len ≠ 0) : Described (v.store buf len) := by
  obtain ⟨hsome, hlt⟩ := h.room.resolve_left hlen
  exact described_store h.toDescribed h.buf_eq hsome hlt

/-- **The loop.**  The delimiter can only have been read after a store, so that there is room for
the terminator at a return. -/
theorem described_growthLoop (stream : List UInt8) {ch : ℤ} (h : Ready v buf len)
    (hch : ch = delim → len ≠ 0) :
    Described (growthLoop answers feof delim stream v buf len ch).1 := by
  induction stream generalizing v buf len ch with
  | nil =>
    rw [growthLoop]
    by_cases heq : ch = delim
    · rw [if_pos heq]
      exact h.terminate (hch heq)
    · rw [if_neg heq]
      obtain ⟨v', hgrow, hdesc⟩ | ⟨v', buf', hgrow, hroomy⟩ := grow_cases answers h
      · rw [hgrow]
        exact hdesc
      · rw [hgrow]
        dsimp only
        split
        · exact hroomy.terminate
        · exact hroomy.toDescribed
  | cons c stream ih =>
    rw [growthLoop]
    by_cases heq : ch = delim
    · rw [if_pos heq]
      exact h.terminate (hch heq)
    · rw [if_neg heq]
      obtain ⟨v', hgrow, hdesc⟩ | ⟨v', buf', hgrow, hroomy⟩ := grow_cases answers h
      · rw [hgrow]
        exact hdesc
      · rw [hgrow]
        exact ih hroomy.store fun _ => Nat.succ_ne_zero len

end Steps

theorem CallerBuf.ready (b : CallerBuf) : Ready b.vars b.lineptr 0 :=
  ⟨⟨b.described, fun _ hst => nomatch hst⟩, rfl, Or.inl rfl⟩

/-- For every stream, ended or broken off, every delimiter but zero, every buffer of the caller and
every sequence of reallocations, any of which may fail: every store, that of the terminator
included, is inside the block, and at the return `*lineptr` and `*n` describe the block. -/
theorem getdelim_growth_sufficient (answers : ℕ → Option ℕ) (feof : Bool) (delim : ℤ)
    (hdelim : delim ≠ 0) (b : CallerBuf) (stream : List UInt8) :
    Described (getdelimVars answers feof delim b stream).1 :=
  described_growthLoop stream b.ready fun h => absurd h.symm hdelim

/-- A block of one byte at address 8, and nothing else. -/
def oneByte : Heap where
  live p := if p = 8 then some 1 else none
  live_le := by
    intro p n h
    split at h
    · rw [← Option.some.inj h]
      decide
    · cases h

/-- A line of three characters read into one byte, with two reallocations; the third fails. -/
theorem getdelim_growth_one_byte :
    Described (getdelimVars (fun i => if i < 2 then some (i + 16) else none) true 10
      ⟨oneByte, some 8, 1, by rintro p hp; cases hp; rfl⟩ [97, 98, 99, 10]).1 :=
  getdelim_growth_sufficient _ _ _ (by decide) _ _

/-! ## The values that are returned -/

/-- A length that is returned counts what was stored and the first piece of the stream. -/
theorem ret_growthLoop {answers : ℕ → Option ℕ} {feof : Bool} {delim : UInt8} (stream : List UInt8)
    {v : Vars} {buf : Option ℕ} {len k : ℕ} {ch : ℤ} (hch : ch ≠ delim.toNat)
    (h : (growthLoop answers feof delim.toNat stream v buf len ch).2 = some k) :
    k = len + (firstPiece delim stream).length ∧ (len ≠ 0 ∨ stream ≠ []) := by
  induction stream generalizing v buf len ch with
  | nil =>
    rw [growthLoop, if_neg hch] at h
    cases hgrow : grow answers v buf len with
    | error v' =>
      rw [hgrow] at h
      cases h
    | ok out =>
      rw [hgrow] at h
      dsimp only at h
      split at h
      · rename_i hend
        exact ⟨(Option.some.inj h).symm, Or.inl hend.2⟩
      · cases h
  | cons c stream ih =>
    refine ⟨?_, Or.inr (List.cons_ne_nil c stream)⟩
    rw [growthLoop, if_neg hch] at h
    cases hgrow : grow answers v buf len with
    | error v' =>
      rw [hgrow] at h
      cases h
    | ok out =>
      obtain ⟨v', buf'⟩ := out
      rw [hgrow] at h
      dsimp only at h
      rw [firstPiece]
      by_cases hc : c = delim
      · have hret : (growthLoop answers feof delim.toNat stream (v'.store buf' len) buf' (len + 1)
            c.toNat).2 = some (len + 1) := by
          rw [hc]
          cases stream with
          | nil => rw [growthLoop, if_pos rfl]
          | cons d stream => rw [growthLoop, if_pos rfl]
        rw [hret] at h
        rw [if_pos hc]
        exact (Option.some.inj h).symm
      · have hne : (c.toNat : ℤ) ≠ delim.toNat := fun heq =>
          hc (UInt8.toNat_inj.mp (Int.ofNat_inj.mp heq))
        rw [if_neg hc, (ih hne h).1, List.length_cons]
        omega

/-- **The two models of the function agree**: a length that is returned here is returned by
`getdelim`, for every buffer and every allocator. -/
theorem ret_eq_getdelim {answers : ℕ → Option ℕ} {feof : Bool} {delim : UInt8} (hdelim : delim ≠ 0)
    {b : CallerBuf} {stream : List UInt8} {k : ℕ}
    (h : (getdelimVars answers feof delim.toNat b stream).2 = some k) (A : Allocator)
    (buf : LineBuf) :
    (getdelim A delim buf stream).map Outcome.ret = some (some k) := by
  have hch : (0 : ℤ) ≠ delim.toNat := fun heq =>
    hdelim (UInt8.toNat_inj.mp (Int.ofNat_inj.mp heq.symm))
  obtain ⟨hk, hne⟩ := ret_growthLoop stream hch h
  obtain ⟨mem, hcall, -⟩ := getdelim_spec A buf hdelim (hne.resolve_left (absurd rfl ·))
  rw [hcall, hk, Nat.zero_add]
  rfl

end Stdio
end Wpdk
