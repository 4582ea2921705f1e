import Wpdk.Base.Signed
import Wpdk.Base.Transfer
import Wpdk.Error

/-!
# Vectored reads and writes

`wpdk_readv` and `wpdk_writev` of `uio.c` on a file, with the check of their arguments, and
`wpdk_read` and `wpdk_write` of `unistd.c` to compare them with.  A comment in the source says that
the transfer should be atomic and that it is made in segments instead.

The check admits segments of up to `UINT_MAX` bytes, while `_read` and `_write` reject a count above
`INT_MAX`.  An error ends the loop with the value -1, whatever the segments before have moved.

* `checkIovec`: the check.
* `Io`: `_read` or `_write` on some device: a primitive that rejects large counts.
* `readv`, `writev`, `read`, `write`: the functions.
* `File`, `fileRead`, `fileWrite`: a regular file.
* `scatter_gather_contiguous`: on it, segments are read and written as one buffer would be.
* `vector_failure_moved_nothing_iff`: on any device, when -1 means that nothing was moved.
-/

namespace Wpdk
namespace Uio

/-- `UINT_MAX`. -/
def uintMax : ℕ := 4294967295

/-- The memory of a segment; its length is `iov_len`. -/
abbrev Segment := List UInt8

/-- The loop of `wpdk_uio_check_iovec`. -/
def checkLengths : List Segment → ℕ → Bool
  | [], _ => true
  | x :: xs, length =>
    if uintMax < x.length then false
    else if ssizeMax - length < x.length then false
    else checkLengths xs (length + x.length)

/-- The first `iovcnt` segments. -/
def segments (iov : List Segment) (iovcnt : ℤ) : List Segment := iov.take iovcnt.toNat

/-- `wpdk_uio_check_iovec`. -/
def checkIovec (iov : Option (List Segment)) (iovcnt : ℤ) : Bool :=
  match iov with
  | none => false
  | some iov =>
    if iovcnt < 0 ∨ iovMax < iovcnt then false else checkLengths (segments iov iovcnt) 0

/-- `_read` or `_write` on some device. -/
structure Io (σ : Type) extends Primitive σ Errno UInt8 where
  rejects : ∀ {i : ℕ} {x : Segment} {s : σ}, intMax < x.length →
    ∃ e, (call i x s).1 = .error e

/-- What a descriptor is, by its number. -/
inductive FdKind where
  | epoll
  | socket
  | fd
deriving DecidableEq

/-- How a function ends: with an error of its own, in the function for sockets, or with what it got
from the device. -/
inductive Result (α : Type) where
  | posix (e : Errno)
  | socketCall
  | done (a : α)

variable {σ : Type}

/-- The body that `wpdk_readv` and `wpdk_writev` share. -/
def vectored (io : Io σ) (fildes : FdKind) (iov : Option (List Segment)) (iovcnt : ℤ) (s : σ) :
    Result (Transferred σ Errno UInt8) :=
  if !checkIovec iov iovcnt then .posix .einval
  else
    match fildes with
    | .socket => .socketCall
    | .epoll => .posix .ebadf
    | .fd => .done (io.transfer (segments (iov.getD []) iovcnt) s)

/-- `wpdk_readv`, with `_read`. -/
def readv (io : Io σ) := vectored io

/-- `wpdk_writev`, with `_write`. -/
def writev (io : Io σ) := vectored io

/-- The body that `wpdk_read` and `wpdk_write` share. -/
def single (io : Io σ) (fildes : FdKind) (buf : Segment) (s : σ) :
    Result (Except Errno (List UInt8) × σ) :=
  if intMax < buf.length then .posix .einval
  else
    match fildes with
    | .epoll => .posix .ebadf
    | .socket => .socketCall
    | .fd => .done (io.call 0 buf s)

/-- `wpdk_read`, with `_read`. -/
def read (io : Io σ) := single io

/-- `wpdk_write`, with `_write`. -/
def write (io : Io σ) := single io

/-! ## The check -/

theorem checkLengths_of_le {xs : List Segment} {length : ℕ}
    (h : length + xs.flatten.length ≤ intMax) : checkLengths xs length = true := by
  induction xs generalizing length with
  | nil => rfl
  | cons x xs ih =>
    rw [List.flatten_cons, List.length_append] at h
    have hmax : intMax ≤ uintMax ∧ intMax ≤ ssizeMax := by decide
    rw [checkLengths, if_neg (by omega), if_neg (by omega), ih (by omega)]

theorem segments_length (iov : List Segment) : segments iov iov.length = iov := by
  rw [segments, Int.toNat_natCast, List.take_length]

/-- Segments whose lengths add up to at most `INT_MAX` pass the check. -/
theorem checkIovec_of_le {iov : List Segment} (hcount : iov.length ≤ iovMax)
    (htotal : iov.flatten.length ≤ intMax) : checkIovec (some iov) iov.length = true := by
  have hrange : ¬ ((iov.length : ℤ) < 0 ∨ (iovMax : ℤ) < iov.length) := by omega
  rw [checkIovec, if_neg hrange, segments_length]
  exact checkLengths_of_le (by omega)

theorem vectored_fd (io : Io σ) {iov : List Segment} {iovcnt : ℤ}
    (h : checkIovec (some iov) iovcnt = true) (s : σ) :
    vectored io .fd (some iov) iovcnt s = .done (io.transfer (segments iov iovcnt) s) := by
  rw [vectored, h]
  rfl

/-! ## A regular file -/

/-- The content of a file, and the position of the descriptor. -/
structure File where
  content : List UInt8
  pos : ℕ
deriving DecidableEq

/-- Reading at the position. -/
def File.read (f : File) (n : ℕ) : List UInt8 := (f.content.drop f.pos).take n

/-- The file behind what was read. -/
def File.afterRead (f : File) (n : ℕ) : File := { f with pos := f.pos + (f.read n).length }

/-- The file after data have been written at the position; a gap in front of them is filled. -/
def File.write (f : File) (data : List UInt8) : File :=
  if data = [] then f
  else
    { content := (f.content ++ List.replicate (f.pos - f.content.length) 0).take f.pos ++ data ++
        f.content.drop (f.pos + data.length)
      pos := f.pos + data.length }

theorem File.pos_write (f : File) (data : List UInt8) :
    (f.write data).pos = f.pos + data.length := by
  rw [File.write]
  split
  · rename_i hnil
    rw [hnil]
    rfl
  · rfl

/-- A call on a file, with what it moves and the file behind it unless the count is rejected. -/
def fileIo (moved : ℕ → Segment → File → List UInt8) (after : ℕ → Segment → File → File)
    (hpos : ∀ i x f, (after i x f).pos = f.pos + (moved i x f).length)
    (hlen : ∀ i x f, (moved i x f).length ≤ x.length) : Io File where
  call i x f :=
    if intMax < x.length then (.error .einval, f) else (.ok (moved i x f), after i x f)
  pos := File.pos
  state_of_error h := by
    split at h
    · exact (Prod.mk.inj h).2.symm
    · cases (Prod.mk.inj h).1
  pos_of_ok h := by
    split at h
    · cases (Prod.mk.inj h).1
    · obtain ⟨hd, rfl⟩ := Prod.mk.inj h
      rw [← Except.ok.inj hd]
      exact hpos _ _ _
  length_le h := by
    split at h
    · cases (Prod.mk.inj h).1
    · rw [← Except.ok.inj (Prod.mk.inj h).1]
      exact hlen _ _ _
  rejects h := ⟨.einval, by rw [if_pos h]⟩

/-- `_read`: as much as there is. -/
def fileRead : Io File :=
  fileIo (fun _ x f => f.read x.length) (fun _ x f => f.afterRead x.length) (fun _ _ _ => rfl)
    fun _ _ _ => List.length_take_le _ _

/-- `_write`: `limit i` bytes at most in the `i`-th call. -/
def fileWrite (limit : ℕ → ℕ) : Io File :=
  fileIo (fun i x _ => x.take (limit i)) (fun i x f => f.write (x.take (limit i)))
    (fun _ _ f => f.pos_write _) fun _ _ _ => List.length_take_le' _ _

section FileOps

variable (f : File)

/-- Two reads are one. -/
theorem File.read_add (a b : ℕ) : f.read (a + b) = f.read a ++ (f.afterRead a).read b := by
  have hdrop : (f.content.drop f.pos).drop a =
      f.content.drop (f.pos + ((f.content.drop f.pos).take a).length) := by
    rw [List.length_take, ← List.drop_drop]
    rcases Nat.le_total a (f.content.drop f.pos).length with h | h
    · rw [Nat.min_eq_left h]
    · rw [Nat.min_eq_right h, List.drop_eq_nil_of_le h, List.drop_length]
  rw [File.read, List.take_add, hdrop]
  rfl

theorem File.afterRead_add (a b : ℕ) : f.afterRead (a + b) = (f.afterRead a).afterRead b := by
  have hlen := congrArg List.length (f.read_add a b)
  rw [List.length_append] at hlen
  unfold File.afterRead at hlen ⊢
  simp only [hlen, Nat.add_assoc]

/-- Behind a short read there is nothing more. -/
theorem File.read_of_short {a : ℕ} (h : (f.read a).length ≠ a) (b : ℕ) :
    (f.afterRead a).read b = [] := by
  have hshort : (f.content.drop f.pos).length < a := by
    unfold File.read at h
    rw [List.length_take] at h
    omega
  have hend : f.content.length ≤ f.pos + (f.read a).length := by
    rw [File.read, List.length_take, Nat.min_eq_right (Nat.le_of_lt hshort), List.length_drop]
    omega
  rw [File.read, File.afterRead]
  dsimp only
  rw [List.drop_eq_nil_of_le hend, List.take_nil]

theorem File.write_nil : f.write [] = f := if_pos rfl

/-- Two writes are one. -/
theorem File.write_append (a b : List UInt8) : (f.write a).write b = f.write (a ++ b) := by
  by_cases ha : a = []
  · rw [ha, File.write_nil, List.nil_append]
  by_cases hb : b = []
  · rw [hb, File.write_nil, List.append_nil]
  have hab : a ++ b ≠ [] := List.append_ne_nil_of_left_ne_nil ha b
  have hpre : ((f.content ++ List.replicate (f.pos - f.content.length) 0).take f.pos).length =
      f.pos := by
    rw [List.length_take, List.length_append, List.length_replicate]
    omega
  generalize hfront : (f.content ++ List.replicate (f.pos - f.content.length) 0).take f.pos =
    front at hpre
  have hgap : f.pos + a.length - (front ++ a ++ f.content.drop (f.pos + a.length)).length = 0 := by
    rw [List.length_append, List.length_append]
    omega
  have hlen : (front ++ a).length = f.pos + a.length := by rw [List.length_append, hpre]
  -- the second write starts where the first has ended, so that there is no gap
  simp only [File.write, if_neg ha, if_neg hb, if_neg hab, hfront, hgap, List.replicate_zero,
    List.append_nil, File.mk.injEq]
  have htotal : (a ++ b).length = a.length + b.length := List.length_append
  rw [htotal, ← Nat.add_assoc, ← hlen, List.take_left, ← List.append_assoc, ← List.drop_drop,
    List.drop_left, hlen, List.drop_drop]
  exact ⟨rfl, rfl⟩

end FileOps

/-! ## One buffer and many -/

section Contiguous

variable {i n : ℕ} {xs m : List Segment} {f : File}

theorem call_fileRead {x : Segment} (h : x.length ≤ intMax) :
    fileRead.call i x f = (.ok (f.read x.length), f.afterRead x.length) :=
  if_neg (Nat.not_lt.mpr h)

theorem call_fileWrite (limit : ℕ → ℕ) {x : Segment} (h : x.length ≤ intMax) :
    (fileWrite limit).call i x f = (.ok (x.take (limit i)), f.write (x.take (limit i))) :=
  if_neg (Nat.not_lt.mpr h)

/-- **Reading segments is reading their total length at once.** -/
theorem transferFrom_fileRead (h : xs.flatten.length ≤ intMax) :
    (fileRead.transferFrom i xs f n m).ret = .ok (n + (f.read xs.flatten.length).length) ∧
      (fileRead.transferFrom i xs f n m).state = f.afterRead xs.flatten.length ∧
      (fileRead.transferFrom i xs f n m).moved.flatten =
        m.flatten ++ f.read xs.flatten.length := by
  induction xs generalizing i n m f with
  | nil =>
    refine ⟨rfl, ?_, ?_⟩
    · simp [Primitive.transferFrom, File.afterRead, File.read]
    · simp [Primitive.transferFrom, File.read]
  | cons x xs ih =>
    rw [List.flatten_cons, List.length_append] at h ⊢
    have hcall := call_fileRead (i := i) (f := f) (x := x) (by omega)
    rw [f.read_add, f.afterRead_add]
    by_cases hfull : (f.read x.length).length = x.length
    · obtain ⟨hret, hstate, hmoved⟩ := ih (i := i + 1) (n := n + (f.read x.length).length)
        (m := m ++ [f.read x.length]) (f := f.afterRead x.length) (by omega)
      rw [Primitive.transferFrom_cons_full hcall hfull]
      refine ⟨?_, hstate, ?_⟩
      · rw [hret, List.length_append, Nat.add_assoc]
      · rw [hmoved, List.flatten_append, List.flatten_singleton, List.append_assoc]
    · rw [Primitive.transferFrom_cons_short hcall hfull]
      have hrest := f.read_of_short hfull xs.flatten.length
      refine ⟨?_, ?_, ?_⟩
      · rw [hrest, List.append_nil]
      · conv_rhs => rw [File.afterRead, hrest]
        rfl
      · rw [hrest, List.append_nil, List.flatten_append, List.flatten_singleton]

/-- **Writing segments is writing a part of their concatenation at once.** -/
theorem transferFrom_fileWrite (limit : ℕ → ℕ) (h : xs.flatten.length ≤ intMax) :
    ∃ k, k ≤ xs.flatten.length ∧
      ((fileWrite limit).transferFrom i xs f n m).ret = .ok (n + k) ∧
      ((fileWrite limit).transferFrom i xs f n m).state = f.write (xs.flatten.take k) := by
  induction xs generalizing i n m f with
  | nil => exact ⟨0, Nat.le_refl 0, rfl, f.write_nil.symm⟩
  | cons x xs ih =>
    rw [List.flatten_cons, List.length_append] at h ⊢
    have hcall := call_fileWrite (i := i) (f := f) (x := x) limit (by omega)
    by_cases hfull : (x.take (limit i)).length = x.length
    · have hall : x.take (limit i) = x := by
        rw [List.length_take] at hfull
        exact List.take_of_length_le (by omega)
      obtain ⟨k, hk, hret, hstate⟩ := ih (i := i + 1) (n := n + (x.take (limit i)).length)
        (m := m ++ [x.take (limit i)]) (f := f.write (x.take (limit i))) (by omega)
      refine ⟨x.length + k, by omega, ?_, ?_⟩
      · rw [Primitive.transferFrom_cons_full hcall hfull, hret, hfull, Nat.add_assoc]
      · rw [Primitive.transferFrom_cons_full hcall hfull, hstate, hall, File.write_append,
          List.take_length_add_append]
    · refine ⟨(x.take (limit i)).length, ?_, ?_, ?_⟩
      · have hle := List.length_take_le' (limit i) x
        omega
      · rw [Primitive.transferFrom_cons_short hcall hfull]
      · rw [Primitive.transferFrom_cons_short hcall hfull,
          List.take_append_of_le_length (List.length_take_le' _ _), List.length_take,
          ← List.take_eq_take_min]

end Contiguous

/-- For every file, every position in it and every list of at most `IOV_MAX` segments whose lengths
add up to at most `INT_MAX`: `wpdk_readv` returns the same number as one `wpdk_read` into a buffer
of the total length, leaves the file at the same position, and fills the segments as that buffer
would be filled; and `wpdk_writev`, however much of its buffer each call writes, writes the first
bytes of the segments, as many as it returns. -/
theorem scatter_gather_contiguous (f : File) (iov : List Segment) (hcount : iov.length ≤ iovMax)
    (htotal : iov.flatten.length ≤ intMax) :
    (∃ t d f', readv fileRead .fd (some iov) iov.length f = .done t ∧
      read fileRead .fd iov.flatten f = .done (.ok d, f') ∧ t.ret = .ok d.length ∧ t.state = f' ∧
      t.moved.flatten = d ∧
      (scatter iov t.moved).flatten = d ++ iov.flatten.drop d.length) ∧
    ∀ limit : ℕ → ℕ, ∃ t k, writev (fileWrite limit) .fd (some iov) iov.length f = .done t ∧
      t.ret = .ok k ∧ k ≤ iov.flatten.length ∧ t.state = f.write (iov.flatten.take k) := by
  have hrun : ∀ io : Io File, vectored io .fd (some iov) iov.length f =
      .done (io.transfer iov f) := by
    intro io
    rw [vectored_fd io (checkIovec_of_le hcount htotal), segments_length]
  refine ⟨?_, fun limit => ?_⟩
  · obtain ⟨hret, hstate, hmoved⟩ := transferFrom_fileRead (i := 0) (n := 0) (m := []) (f := f)
      htotal
    obtain ⟨ds, hds, hfilled⟩ := Primitive.flatten_scatter (P := fileRead.toPrimitive) 0 0 iov f
    have hds' := hds []
    rw [List.nil_append] at hds'
    rw [List.flatten_nil, List.nil_append] at hmoved
    rw [Nat.zero_add] at hret
    refine ⟨fileRead.transfer iov f, f.read iov.flatten.length, f.afterRead iov.flatten.length,
      hrun fileRead, ?_, hret, hstate, hmoved, ?_⟩
    · rw [read, single, if_neg (Nat.not_lt.mpr htotal), call_fileRead htotal]
    · rw [Primitive.transfer, hds', hfilled, ← hds', hmoved]
  · obtain ⟨k, hk, hret, hstate⟩ := transferFrom_fileWrite (i := 0) (n := 0) (m := []) (f := f)
      limit htotal
    rw [Nat.zero_add] at hret
    exact ⟨(fileWrite limit).transfer iov f, k, hrun (fileWrite limit), hret, hk, hstate⟩

/-- Three segments, one of them empty, of a file with four bytes. -/
theorem scatter_gather_example :
    (∃ t d f', readv fileRead .fd (some [[0, 0], [], [0, 0, 0]]) 3 ⟨[1, 2, 3, 4], 1⟩ = .done t ∧
      read fileRead .fd [0, 0, 0, 0, 0] ⟨[1, 2, 3, 4], 1⟩ = .done (.ok d, f') ∧
      t.ret = .ok d.length ∧ t.state = f' ∧ t.moved.flatten = d ∧
      (scatter [[0, 0], [], [0, 0, 0]] t.moved).flatten = d ++ [0, 0, 0, 0, 0].drop d.length) ∧
    ∀ limit : ℕ → ℕ, ∃ t k,
      writev (fileWrite limit) .fd (some [[0, 0], [], [0, 0, 0]]) 3 ⟨[1, 2, 3, 4], 1⟩ = .done t ∧
      t.ret = .ok k ∧ k ≤ 5 ∧ t.state = (⟨[1, 2, 3, 4], 1⟩ : File).write ([0, 0, 0, 0, 0].take k) :=
  scatter_gather_contiguous ⟨[1, 2, 3, 4], 1⟩ [[0, 0], [], [0, 0, 0]] (by decide) (by decide)

/-! ## Failures -/

/-- Segments that are not too large are written without a failure. -/
theorem noLateFailure_fileWrite (limit : ℕ → ℕ) {xs : List Segment}
    (h : ∀ x ∈ xs, x.length ≤ intMax) (f : File) : (fileWrite limit).NoLateFailure xs f := by
  rintro pre x post ds f' e rfl - hfail
  rw [call_fileWrite limit (h x (by simp))] at hfail
  cases hfail

/-- For every list of segments that passes the check, every device, whatever its calls answer, and
every state of it: `wpdk_readv` and `wpdk_writev` on a file return -1 only if nothing was moved, and
otherwise the number of bytes moved, if and only if no call fails behind a segment that is not
empty. -/
theorem vector_failure_moved_nothing_iff (io : Io σ) (iov : List Segment) (iovcnt : ℤ)
    (haccepted : checkIovec (some iov) iovcnt = true) (s : σ) :
    ((∃ t, readv io .fd (some iov) iovcnt s = .done t ∧ io.Sound s t) ↔
        io.NoLateFailure (segments iov iovcnt) s) ∧
      ((∃ t, writev io .fd (some iov) iovcnt s = .done t ∧ io.Sound s t) ↔
        io.NoLateFailure (segments iov iovcnt) s) := by
  have hvectored : (∃ t, vectored io .fd (some iov) iovcnt s = .done t ∧ io.Sound s t) ↔
      io.NoLateFailure (segments iov iovcnt) s := by
    rw [vectored_fd io haccepted, ← io.transfer_sound_iff]
    constructor
    · rintro ⟨t, ht, hsound⟩
      obtain rfl := Result.done.inj ht
      exact hsound
    · exact fun hsound => ⟨_, rfl, hsound⟩
  exact ⟨hvectored, hvectored⟩

/-- Two small segments are written without a failure. -/
theorem vector_moved_example :
    ∃ t, writev (fileWrite fun _ => 5) .fd (some [[1], [2, 3]]) 2 ⟨[], 0⟩ = .done t ∧
      (fileWrite fun _ => 5).Sound ⟨[], 0⟩ t :=
  (vector_failure_moved_nothing_iff (fileWrite fun _ => 5) [[1], [2, 3]] 2 (by decide)
    ⟨[], 0⟩).2.mpr (noLateFailure_fileWrite _ (by decide) _)

/-- A segment of one byte and a segment of 2147483648 bytes: both pass the check, the first is
written, the second is rejected by `_write`, and the value is -1. -/
theorem writev_fails_after_writing :
    ∃ x : Segment, x.length = 2147483648 ∧ checkIovec (some [[1], x]) 2 = true ∧
      writev (fileWrite fun _ => uintMax) .fd (some [[1], x]) 2 ⟨[], 0⟩ =
        .done ⟨.error .einval, [[1]], ⟨[1], 1⟩⟩ := by
  obtain ⟨x, hx⟩ : ∃ x : Segment, x.length = 2147483648 :=
    ⟨List.replicate 2147483648 0, List.length_replicate⟩
  have haccepted : checkIovec (some [[1], x]) 2 = true := by
    rw [checkIovec, if_neg (by decide), show segments [[1], x] 2 = [[1], x] from rfl, checkLengths,
      if_neg (by decide), if_neg (by decide), checkLengths, hx, if_neg (by decide),
      if_neg (by decide), checkLengths]
  refine ⟨x, hx, haccepted, ?_⟩
  have hsecond : (fileWrite fun _ => uintMax).call 1 x ⟨[1], 1⟩ = (.error .einval, ⟨[1], 1⟩) :=
    if_pos (by rw [hx]; decide)
  have hfirst : (fileWrite fun _ => uintMax).call 0 [1] ⟨[], 0⟩ = (.ok [1], ⟨[1], 1⟩) := rfl
  rw [writev, vectored_fd _ haccepted, Primitive.transfer,
    show segments [[1], x] 2 = [[1], x] from rfl, Primitive.transferFrom_cons_full hfirst rfl,
    Primitive.transferFrom_cons_error hsecond]
  rfl

end Uio
end Wpdk
