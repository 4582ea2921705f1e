import Wpdk.Base.Pieces

/-!
# Reading up to a delimiter

`wpdk_getdelim` of `stdio.c`.  The loop reads a character, puts it behind those it has, and ends
when the character was the delimiter; before it reads it makes sure that there is room for the
character and for a terminator.  That the character was the delimiter is tested at the head of the
loop, with a variable that has the value zero before anything was read.

* `LineBuf`, `Allocator`: the buffer of the caller, and `realloc`.
* `getdelim`: the function; it has no value where it writes outside of the buffer.
* `Reads`: calls until the value is -1, and what they have delivered.
* `getdelim_spec`: one call takes the first piece off the stream.
* `getdelim_partitions_iff`: the calls deliver the stream piece by piece exactly if the delimiter
  is not zero.
-/

namespace Wpdk
namespace Stdio

/-- `*lineptr` and `*n`: a null pointer with any number, or allocated memory with its size. -/
inductive LineBuf where
  | null (n : ℕ)
  | allocated (mem : List UInt8)

/-- `*n`. -/
def LineBuf.n : LineBuf → ℕ
  | .null n => n
  | .allocated mem => mem.length

/-- `BUFSIZ`. -/
def bufsiz : ℕ := 512

/-- `realloc`, which keeps what was there and does not say what is behind it. -/
structure Allocator where
  realloc : List UInt8 → ℕ → List UInt8
  length_realloc : ∀ mem n, (realloc mem n).length = n
  take_realloc : ∀ mem n, (realloc mem n).take mem.length = mem.take n

/-- `buf[i] = b`, with no value outside of the allocated memory. -/
def store (mem : List UInt8) (i : ℕ) (b : UInt8) : Option (List UInt8) :=
  if i < mem.length then some (mem.set i b) else none

/-- The memory after the test for room at the head of the loop. -/
def ensureRoom (A : Allocator) (len : ℕ) : LineBuf → List UInt8
  | .null _ => A.realloc [] bufsiz
  | .allocated mem =>
    if mem.length ≤ len + 2 then
      A.realloc mem (if mem.length ≠ 0 then mem.length * 2 else bufsiz)
    else mem

/-- What a call leaves: the value returned, `none` standing for -1, the buffer, and the rest of the
stream. -/
structure Outcome where
  ret : Option ℕ
  buf : LineBuf
  rest : List UInt8

/-- `buf[len] = 0; return len;` -/
def finish (len : ℕ) (stream : List UInt8) : LineBuf → Option Outcome
  | .null _ => none
  | .allocated mem => (store mem len 0).map fun mem => ⟨some len, .allocated mem, stream⟩

/-- The loop, with `len` characters stored and `ch` the last one read. -/
def getdelimLoop (A : Allocator) (delim : UInt8) : List UInt8 → LineBuf → ℕ → UInt8 →
    Option Outcome
  | [], buf, len, ch =>
    if ch = delim then finish len [] buf
    else
      let mem := ensureRoom A len buf
      if len ≠ 0 then finish len [] (.allocated mem) else some ⟨none, .allocated mem, []⟩
  | c :: stream, buf, len, ch =>
    if ch = delim then finish len (c :: stream) buf
    else
      (store (ensureRoom A len buf) len c).bind fun mem =>
        getdelimLoop A delim stream (.allocated mem) (len + 1) c

/-- `wpdk_getdelim`. -/
def getdelim (A : Allocator) (delim : UInt8) (buf : LineBuf) (stream : List UInt8) :
    Option Outcome :=
  getdelimLoop A delim stream buf 0 0

/-- `wpdk_getline`. -/
def getline (A : Allocator) (buf : LineBuf) (stream : List UInt8) : Option Outcome :=
  getdelim A 10 buf stream

/-! ## One call -/

/-- The buffer has `done` at its start, with room for a terminator if that is not empty. -/
def Holds (done : List UInt8) : LineBuf → Prop
  | .null _ => done = []
  | .allocated mem => mem.take done.length = done ∧ (done = [] ∨ done.length < mem.length)

section Call

variable (A : Allocator) {delim : UInt8} {done : List UInt8} {buf : LineBuf}

/-- After the test for room there is room for a character and a terminator, and nothing that was
stored is lost. -/
theorem ensureRoom_spec (h : Holds done buf) :
    (ensureRoom A done.length buf).take done.length = done ∧
      done.length + 2 ≤ (ensureRoom A done.length buf).length := by
  cases buf with
  | null n =>
    rw [ensureRoom, A.length_realloc, show done = [] from h]
    exact ⟨rfl, by decide⟩
  | allocated mem =>
    obtain ⟨htake, hroom⟩ := h
    rw [ensureRoom]
    split
    · rename_i hsmall
      have hle : done.length ≤ mem.length := by
        rcases hroom with rfl | hlt
        · exact Nat.zero_le _
        · exact Nat.le_of_lt hlt
      have hsize : done.length + 2 ≤ if mem.length ≠ 0 then mem.length * 2 else bufsiz := by
        split
        · rcases hroom with rfl | hlt
          · rw [List.length_nil]
            omega
          · omega
        · have hnil : done.length = 0 := by omega
          rw [hnil]
          decide
      refine ⟨?_, by rwa [A.length_realloc]⟩
      -- what was stored lies in the old memory and in the new
      have hkeep := congrArg (List.take done.length)
        (A.take_realloc mem (if mem.length ≠ 0 then mem.length * 2 else bufsiz))
      rwa [List.take_take, List.take_take, Nat.min_eq_left hle, Nat.min_eq_left (by omega),
        htake] at hkeep
    · rename_i hbig
      exact ⟨htake, by omega⟩

theorem take_set_of_le {mem : List UInt8} (b : UInt8) {i n : ℕ} (h : n ≤ i) :
    (mem.set i b).take n = mem.take n := by
  rw [List.take_set, List.set_eq_of_length_le]
  rw [List.length_take]
  exact Nat.le_trans (Nat.min_le_left _ _) h

theorem take_set_succ {mem : List UInt8} (b : UInt8) (htake : mem.take done.length = done)
    (hlt : done.length < mem.length) :
    (mem.set done.length b).take (done ++ [b]).length = done ++ [b] := by
  have hlen : done.length < (mem.set done.length b).length := by rwa [List.length_set]
  rw [List.length_append, List.length_singleton, List.take_succ_eq_append_getElem hlen,
    take_set_of_le b (Nat.le_refl _), htake, List.getElem_set_self]

/-- Ending with `done` in the buffer. -/
theorem finish_spec {mem : List UInt8} (stream : List UInt8) (htake : mem.take done.length = done)
    (hlt : done.length < mem.length) :
    ∃ mem', finish done.length stream (.allocated mem) =
        some ⟨some done.length, .allocated mem', stream⟩ ∧ mem'.take done.length = done := by
  refine ⟨mem.set done.length 0, ?_, by rw [take_set_of_le 0 (Nat.le_refl _), htake]⟩
  rw [finish, store, if_pos hlt, Option.map_some]

/-- The head of the loop. -/
theorem getdelimLoop_of_eq {ch : UInt8} (stream : List UInt8) (buf : LineBuf) (len : ℕ)
    (h : ch = delim) : getdelimLoop A delim stream buf len ch = finish len stream buf := by
  cases stream with
  | nil => rw [getdelimLoop, if_pos h]
  | cons c stream => rw [getdelimLoop, if_pos h]

/-- **The loop** stores the first piece of the stream behind what it has, if there is anything to
store at all. -/
theorem getdelimLoop_spec {ch : UInt8} (stream : List UInt8) (hch : ch ≠ delim)
    (h : Holds done buf) (hne : done ++ stream ≠ []) :
    ∃ mem, getdelimLoop A delim stream buf done.length ch =
        some ⟨some (done ++ firstPiece delim stream).length, .allocated mem,
          stream.drop (firstPiece delim stream).length⟩ ∧
      mem.take (done ++ firstPiece delim stream).length = done ++ firstPiece delim stream := by
  induction stream generalizing done buf ch with
  | nil =>
    obtain ⟨htake, hroom⟩ := ensureRoom_spec A h
    rw [List.append_nil] at hne
    have hlen : done.length ≠ 0 := mt List.length_eq_zero_iff.mp hne
    rw [getdelimLoop, if_neg hch, firstPiece, List.append_nil]
    dsimp only
    rw [if_pos hlen]
    exact finish_spec [] htake (by omega)
  | cons c stream ih =>
    obtain ⟨htake, hroom⟩ := ensureRoom_spec A h
    have hlt : done.length < (ensureRoom A done.length buf).length := by omega
    have hstored := take_set_succ c htake hlt
    have hlen : (done ++ [c]).length <
        ((ensureRoom A done.length buf).set done.length c).length := by
      rw [List.length_append, List.length_singleton, List.length_set]
      omega
    rw [getdelimLoop, if_neg hch, store, if_pos hlt, Option.bind_some,
      ← show (done ++ [c]).length = done.length + 1 from List.length_append, firstPiece]
    by_cases hc : c = delim
    · rw [getdelimLoop_of_eq A stream _ _ hc, if_pos hc]
      exact finish_spec stream hstored hlen
    · have hholds : Holds (done ++ [c])
          (.allocated ((ensureRoom A done.length buf).set done.length c)) :=
        ⟨hstored, Or.inr hlen⟩
      obtain ⟨mem, hmem, hpiece⟩ := ih hc hholds
        (List.append_ne_nil_of_left_ne_nil (List.append_ne_nil_of_right_ne_nil _
          (List.cons_ne_nil c [])) _)
      rw [List.append_assoc, List.singleton_append] at hmem hpiece
      rw [if_neg hc]
      exact ⟨mem, hmem, hpiece⟩

/-- **One call** takes the first piece off the stream. -/
theorem getdelim_spec (buf : LineBuf) {stream : List UInt8} (hdelim : delim ≠ 0)
    (hne : stream ≠ []) :
    ∃ mem, getdelim A delim buf stream =
        some ⟨some (firstPiece delim stream).length, .allocated mem,
          stream.drop (firstPiece delim stream).length⟩ ∧
      mem.take (firstPiece delim stream).length = firstPiece delim stream := by
  have hholds : Holds [] buf := by
    cases buf with
    | null n => rfl
    | allocated mem => exact ⟨rfl, Or.inl rfl⟩
  exact getdelimLoop_spec A stream hdelim.symm hholds hne

/-- A line is read with its newline. -/
theorem getline_spec (buf : LineBuf) {stream : List UInt8} (hne : stream ≠ []) :
    ∃ mem, getline A buf stream =
        some ⟨some (firstPiece 10 stream).length, .allocated mem,
          stream.drop (firstPiece 10 stream).length⟩ ∧
      mem.take (firstPiece 10 stream).length = firstPiece 10 stream :=
  getdelim_spec A buf (by decide) hne

/-- At the end of the stream the value is -1. -/
theorem getdelim_eof (buf : LineBuf) (hdelim : delim ≠ 0) :
    getdelim A delim buf [] = some ⟨none, .allocated (ensureRoom A 0 buf), []⟩ := by
  rw [getdelim, getdelimLoop, if_neg hdelim.symm]
  rfl

end Call

/-! ## Calling until the end -/

/-- Calls until the value is -1.  The list has, for each call before that, the value and the bytes
that are in the buffer up to it. -/
inductive Reads (A : Allocator) (delim : UInt8) :
    LineBuf → List UInt8 → List (ℕ × List UInt8) → Prop
  | eof {buf stream buf' rest} (h : getdelim A delim buf stream = some ⟨none, buf', rest⟩) :
      Reads A delim buf stream []
  | piece {buf stream len mem rest delivered}
      (h : getdelim A delim buf stream = some ⟨some len, .allocated mem, rest⟩)
      (more : Reads A delim (.allocated mem) rest delivered) :
      Reads A delim buf stream ((len, mem.take len) :: delivered)

/-- **The calls partition the stream.** -/
structure Partitions (delim : UInt8) (stream : List UInt8) (delivered : List (ℕ × List UInt8)) :
    Prop where
  concat : (delivered.map Prod.snd).flatten = stream
  length : ∀ p ∈ delivered, p.2.length = p.1
  only_last : ∀ p ∈ delivered, delim ∉ p.2.dropLast
  ended : ∀ p ∈ delivered.dropLast, p.2.getLast? = some delim

section Calls

variable (A : Allocator) {delim : UInt8}

/-- What the calls deliver. -/
def delivery (delim : UInt8) (stream : List UInt8) : List (ℕ × List UInt8) :=
  (pieces delim stream).map fun p => (p.length, p)

theorem delivery_eq_cons {stream : List UInt8} (hne : stream ≠ []) :
    delivery delim stream = ((firstPiece delim stream).length, firstPiece delim stream) ::
      delivery delim (stream.drop (firstPiece delim stream).length) := by
  rw [delivery, pieces_eq_cons hne, List.map_cons]
  rfl

theorem partitions_delivery (delim : UInt8) (stream : List UInt8) :
    Partitions delim stream (delivery delim stream) := by
  refine ⟨?_, fun p hp => ?_, fun p hp => ?_, fun p hp => ?_⟩
  · rw [delivery, List.map_map]
    exact (congrArg List.flatten (List.map_id _)).trans (flatten_pieces delim stream)
  · obtain ⟨q, -, rfl⟩ := List.mem_map.mp hp
    rfl
  · obtain ⟨q, hq, rfl⟩ := List.mem_map.mp hp
    exact notMem_dropLast_of_mem_pieces hq
  · rw [delivery, ← List.map_dropLast] at hp
    obtain ⟨q, hq, rfl⟩ := List.mem_map.mp hp
    exact getLast?_of_mem_dropLast_pieces hq

theorem reads_delivery (buf : LineBuf) (stream : List UInt8) (hdelim : delim ≠ 0) :
    Reads A delim buf stream (delivery delim stream) := by
  induction stream using pieces_induction delim generalizing buf with
  | nil => exact .eof (getdelim_eof A buf hdelim)
  | step stream hne ih =>
    obtain ⟨mem, hcall, hpiece⟩ := getdelim_spec A buf hdelim hne
    have hreads := Reads.piece hcall (ih (.allocated mem))
    rwa [hpiece, ← delivery_eq_cons hne] at hreads

/-- With the delimiter zero, a call reads nothing. -/
theorem getdelim_zero (buf : LineBuf) (stream : List UInt8) :
    getdelim A 0 buf stream = finish 0 stream buf :=
  getdelimLoop_of_eq A stream buf 0 rfl

/-- ... so that the end is never reported. -/
theorem not_reads_zero {buf : LineBuf} {stream : List UInt8} {delivered : List (ℕ × List UInt8)} :
    ¬ Reads A 0 buf stream delivered := by
  intro h
  induction h with
  | eof h =>
    rename_i buf stream buf' rest
    rw [getdelim_zero] at h
    cases buf with
    | null n => cases h
    | allocated mem =>
      obtain ⟨mem', -, hout⟩ := Option.map_eq_some_iff.mp h
      cases hout
  | piece _ _ ih => exact ih

end Calls

/-- For every stream, every delimiter, every buffer and whatever `realloc` leaves in new memory:
calls until the value is -1 come to an end and partition the stream if and only if the delimiter is
not zero. -/
theorem getdelim_partitions_iff (A : Allocator) (delim : UInt8) (buf : LineBuf)
    (stream : List UInt8) :
    (∃ delivered, Reads A delim buf stream delivered ∧ Partitions delim stream delivered) ↔
      delim ≠ 0 := by
  constructor
  · rintro ⟨delivered, hreads, -⟩ rfl
    exact not_reads_zero A hreads
  · intro hdelim
    exact ⟨delivery delim stream, reads_delivery A buf stream hdelim,
      partitions_delivery delim stream⟩

/-- An allocator that clears new memory. -/
def clearing : Allocator where
  realloc mem n := mem.take n ++ List.replicate (n - mem.length) 0
  length_realloc mem n := by
    rw [List.length_append, List.length_take, List.length_replicate]
    omega
  take_realloc mem n := by
    rw [List.take_append, List.take_take, List.length_take]
    rcases Nat.le_total n mem.length with h | h
    · rw [Nat.min_eq_right h, Nat.sub_eq_zero_of_le h]
      simp
    · rw [Nat.min_eq_left h, Nat.min_eq_right h, Nat.sub_self, List.take_zero, List.append_nil,
        List.take_of_length_le (Nat.le_refl _), List.take_of_length_le h]

/-- With the delimiter zero, a call on the stream `1, 0, 2` delivers nothing and leaves the stream
as it is, and a call with a null pointer writes through it. -/
theorem getdelim_zero_stuck :
    getdelim clearing 0 (.allocated [7, 7]) [1, 0, 2] =
        some ⟨some 0, .allocated [0, 7], [1, 0, 2]⟩ ∧
      getdelim clearing 0 (.allocated [0, 7]) [1, 0, 2] =
        some ⟨some 0, .allocated [0, 7], [1, 0, 2]⟩ ∧
      getdelim clearing 0 (.null 0) [1, 0, 2] = none :=
  ⟨rfl, rfl, rfl⟩

end Stdio
end Wpdk
