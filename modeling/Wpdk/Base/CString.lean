import Mathlib.Data.List.Infix
import Mathlib.Data.List.TakeWhile

/-!
# C strings

A C string is the list of its characters before the terminator; `CString` carries the fact that
no terminator is among them.  What the library functions decide from the characters alone is a
function on strings.  What they read at a given *offset* is stated on the memory behind the
pointer, since an offset may lie past the terminator and the caller of such a function then
sees whatever happens to be there.

* `strcpyS`, `strcatS`: the bounded copies, with `none` for the error return.
* `strncmpEq`: whether `strncmp` returns zero.  It stops at a terminator, so two equal strings
  compare equal for every bound (`strncmpEq_of_length_lt`), and a bound that is the length of
  the second string makes it a test for an initial segment (`strncmpEq_length_iff`).
* `CString.memory`, `byteAt`, `CString.ofMemory`: the bytes behind a pointer to a string, and
  the string that starts at an offset of them.
* `squeeze`: the loop that moves the rest of a string over the first of two slashes as long as
  there are two in a row.
-/

namespace Wpdk

/-- The terminator. -/
def nul : Char := Char.ofNat 0

/-- The content of a C string: no terminator inside. -/
structure CString where
  chars : List Char
  nul_notMem : nul ∉ chars
deriving DecidableEq

namespace CString

@[ext] theorem ext {s t : CString} (h : s.chars = t.chars) : s = t := by
  cases s
  cases t
  cases h
  rfl

/-- `strlen`. -/
def strlen (s : CString) : ℕ := s.chars.length

instance : Append CString where
  append s t := ⟨s.chars ++ t.chars, by
    rw [List.mem_append, not_or]
    exact ⟨s.nul_notMem, t.nul_notMem⟩⟩

@[simp] theorem chars_append (s t : CString) : (s ++ t).chars = s.chars ++ t.chars := rfl

theorem strlen_append (s t : CString) : (s ++ t).strlen = s.strlen + t.strlen :=
  List.length_append

/-- The memory behind a pointer to the string: its characters, the terminator, and what happens
to follow. -/
def memory (s : CString) (after : List Char) : List Char := s.chars ++ nul :: after

/-- The string that starts at an offset. -/
def ofMemory (mem : List Char) (i : ℕ) : CString where
  chars := (mem.drop i).takeWhile (· != nul)
  nul_notMem h := by simpa using List.mem_takeWhile_imp h

/-- A literal. -/
def lit (s : String) : CString := ofMemory s.toList 0

/-- The rest of a string from an offset inside it. -/
def drop (s : CString) (i : ℕ) : CString where
  chars := s.chars.drop i
  nul_notMem h := s.nul_notMem (List.mem_of_mem_drop h)

/-- Cutting a string at an offset. -/
def take (s : CString) (i : ℕ) : CString where
  chars := s.chars.take i
  nul_notMem h := s.nul_notMem (List.mem_of_mem_take h)

end CString

/-- `strcpy_s` into a buffer of `size` bytes. -/
def strcpyS (size : ℕ) (src : CString) : Option CString :=
  if src.strlen < size then some src else none

/-- `strcat_s` onto a string in a buffer of `size` bytes. -/
def strcatS (size : ℕ) (dst src : CString) : Option CString :=
  if dst.strlen + src.strlen < size then some (dst ++ src) else none

/-- `strcpy_s` followed by `strcat_s` succeeds exactly if the whole fits. -/
theorem strcpyS_bind_strcatS (size : ℕ) (s t : CString) :
    ((strcpyS size s).bind fun buf => strcatS size buf t) =
      if s.strlen + t.strlen < size then some (s ++ t) else none := by
  unfold strcpyS
  by_cases hs : s.strlen < size
  · rw [if_pos hs, Option.bind_some, strcatS]
  · rw [if_neg hs, Option.bind_none, if_neg (by omega)]

/-- `strncmp(a, b, n) == 0`. -/
def strncmpEq : List Char → List Char → ℕ → Bool
  | _, _, 0 => true
  | [], [], _ + 1 => true
  | a :: as, b :: bs, n + 1 => a == b && strncmpEq as bs n
  | [], _ :: _, _ + 1 => false
  | _ :: _, [], _ + 1 => false

/-- `strstr`, as an offset. -/
def strstr : List Char → List Char → Option ℕ
  | [], pat => if pat = [] then some 0 else none
  | c :: s, pat => if pat.isPrefixOf (c :: s) then some 0 else (strstr s pat).map (· + 1)

/-- `strchr`, as an offset. -/
def strchr (s : List Char) (c : Char) : Option ℕ := s.findIdx? (· == c)

/-- `strrchr`, as an offset. -/
def strrchr : List Char → Char → Option ℕ
  | [], _ => none
  | a :: s, c =>
    match strrchr s c with
    | some i => some (i + 1)
    | none => if a = c then some 0 else none

/-- The byte at an offset. -/
def byteAt (mem : List Char) (i : ℕ) : Char := mem.getD i nul

/-! ## The first occurrence -/

theorem strchr_eq_none {s : List Char} {c : Char} (h : c ∉ s) : strchr s c = none := by
  rw [strchr, List.findIdx?_eq_none_iff]
  intro a ha
  rw [beq_eq_false_iff_ne]
  rintro rfl
  exact h ha

/-- The first occurrence is behind what has none. -/
theorem strchr_append_cons {s t : List Char} {c : Char} (h : c ∉ s) :
    strchr (s ++ c :: t) c = some s.length := by
  rw [strchr, List.findIdx?_append, show s.findIdx? (· == c) = none from strchr_eq_none h]
  simp [List.findIdx?_cons]

/-! ## The last occurrence -/

theorem strrchr_eq_none_iff {s : List Char} {c : Char} : strrchr s c = none ↔ c ∉ s := by
  induction s with
  | nil => simp [strrchr]
  | cons a s ih =>
    rw [strrchr, List.mem_cons, not_or, ← ih]
    cases strrchr s c with
    | some i => simp
    | none => simp [eq_comm]

/-- The last occurrence is at the start exactly if it is the only one. -/
theorem strrchr_cons_eq_zero_iff {a c : Char} {s : List Char} :
    strrchr (a :: s) c = some 0 ↔ a = c ∧ c ∉ s := by
  rw [strrchr, ← strrchr_eq_none_iff]
  cases strrchr s c with
  | some i => simp
  | none => simp

/-- An occurrence behind the first character moves the last one off the start. -/
theorem strrchr_append_cons_ne_zero {s t : List Char} {c : Char} (hs : s ≠ []) :
    strrchr (s ++ c :: t) c ≠ some 0 := by
  obtain ⟨a, s, rfl⟩ := List.exists_cons_of_ne_nil hs
  rw [List.cons_append, Ne, strrchr_cons_eq_zero_iff]
  simp

/-! ## Comparing with a bound -/

/-- With the length of the second string as the bound, `strncmp` tests for an initial
segment. -/
theorem strncmpEq_length_iff (a b : List Char) : strncmpEq a b b.length = true ↔ b <+: a := by
  induction b generalizing a with
  | nil => simp [strncmpEq]
  | cons b bs ih =>
    cases a with
    | nil => simp [strncmpEq]
    | cons a as =>
      rw [List.length_cons, strncmpEq, Bool.and_eq_true, beq_iff_eq, ih, List.cons_prefix_cons]
      exact and_congr_left' eq_comm

/-- With a larger bound, `strncmp` runs into the terminator and tests for equality. -/
theorem strncmpEq_of_length_lt {a b : List Char} {n : ℕ} (hn : b.length < n) :
    strncmpEq a b n = true ↔ a = b := by
  induction b generalizing a n with
  | nil =>
    obtain ⟨k, rfl⟩ := Nat.exists_eq_succ_of_ne_zero (Nat.ne_of_gt hn)
    cases a <;> simp [strncmpEq]
  | cons b bs ih =>
    obtain ⟨k, rfl⟩ := Nat.exists_eq_succ_of_ne_zero (Nat.ne_zero_of_lt hn)
    rw [List.length_cons] at hn
    cases a with
    | nil => simp [strncmpEq]
    | cons a as =>
      rw [strncmpEq, Bool.and_eq_true, beq_iff_eq, ih (Nat.lt_of_succ_lt_succ hn),
        List.cons_eq_cons]

theorem strncmpEq_comm (a b : List Char) (n : ℕ) : strncmpEq a b n = strncmpEq b a n := by
  induction n generalizing a b with
  | zero => cases a <;> cases b <;> rfl
  | succ n ih =>
    cases a with
    | nil => cases b <;> rfl
    | cons x a =>
      cases b with
      | nil => rfl
      | cons y b =>
        rw [strncmpEq, strncmpEq, ih, Bool.beq_comm]

/-- Only as many characters as the bound says are looked at. -/
theorem strncmpEq_append_left {a : List Char} (t b : List Char) {n : ℕ} (hn : n ≤ a.length) :
    strncmpEq (a ++ t) b n = strncmpEq a b n := by
  induction n generalizing a b with
  | zero => cases a <;> cases b <;> cases t <;> rfl
  | succ n ih =>
    cases a with
    | nil => exact absurd hn (Nat.not_succ_le_zero n)
    | cons x a =>
      cases b with
      | nil => rfl
      | cons y b =>
        rw [List.cons_append, strncmpEq, strncmpEq, ih b (Nat.le_of_succ_le_succ hn)]

/-! ## Reading at an offset -/

theorem byteAt_memory_strlen (s : CString) (after : List Char) :
    byteAt (s.memory after) s.chars.length = nul := by
  simp [byteAt, CString.memory]

/-- The string at an offset inside a string is the rest of it. -/
theorem ofMemory_memory (s : CString) (after : List Char) {i : ℕ} (hi : i ≤ s.chars.length) :
    CString.ofMemory (s.memory after) i = s.drop i := by
  ext1
  show List.takeWhile _ ((s.chars ++ nul :: after).drop i) = s.chars.drop i
  rw [List.drop_append_of_le_length hi, List.takeWhile_append_of_pos]
  · simp
  · intro c hc
    have hne : c ≠ nul := by
      rintro rfl
      exact s.nul_notMem (List.mem_of_mem_drop hc)
    simpa using hne

/-! ## Removing repeated slashes -/

/-- `for (cp = from; (cp = strstr(cp, "//")) != NULL; ) memmove(cp, cp + 1, strlen(cp));` -/
def squeeze : List Char → List Char
  | [] => []
  | [c] => [c]
  | c :: d :: s => if c = '/' ∧ d = '/' then squeeze (d :: s) else c :: squeeze (d :: s)

/-- Two slashes in a row. -/
def doubleSlash : List Char := ['/', '/']

theorem doubleSlash_infix_cons_cons {c d : Char} {s : List Char} :
    doubleSlash <:+: c :: d :: s ↔ (c = '/' ∧ d = '/') ∨ doubleSlash <:+: d :: s := by
  rw [List.infix_cons_iff, doubleSlash, List.cons_prefix_cons, List.cons_prefix_cons]
  simp [eq_comm]

/-- The loop keeps the first character. -/
theorem head?_squeeze (s : List Char) : (squeeze s).head? = s.head? := by
  fun_induction squeeze s with
  | case1 => rfl
  | case2 c => rfl
  | case3 c d s h ih =>
    rw [ih, h.1, h.2]
    rfl
  | case4 c d s h ih => rfl

/-- **The loop leaves no two slashes in a row.** -/
theorem not_doubleSlash_infix_squeeze (s : List Char) : ¬ doubleSlash <:+: squeeze s := by
  fun_induction squeeze s with
  | case1 => decide
  | case2 c => simp [doubleSlash, List.infix_cons_iff]
  | case3 c d s h ih => exact ih
  | case4 c d s h ih =>
    -- the character after `c` in the result is `d`, so the pair would have to be `c`, `d`
    cases hsq : squeeze (d :: s) with
    | nil => simp [doubleSlash, List.infix_cons_iff]
    | cons e t =>
      have hed : e = d := by
        have hhead := head?_squeeze (d :: s)
        rw [hsq] at hhead
        exact Option.some.inj hhead
      rw [hsq, hed] at ih
      rw [doubleSlash_infix_cons_cons, not_or, hed]
      exact ⟨h, ih⟩

theorem squeeze_sublist (s : List Char) : List.Sublist (squeeze s) s := by
  fun_induction squeeze s with
  | case1 => exact List.Sublist.refl _
  | case2 c => exact List.Sublist.refl _
  | case3 c d s h ih => exact ih.cons c
  | case4 c d s h ih => exact ih.cons_cons c

/-- The loop has nothing to do for a string without two slashes in a row. -/
theorem squeeze_eq_self {s : List Char} (h : ¬ doubleSlash <:+: s) : squeeze s = s := by
  fun_induction squeeze s with
  | case1 => rfl
  | case2 c => rfl
  | case3 c d s hcd ih => exact absurd (doubleSlash_infix_cons_cons.mpr (Or.inl hcd)) h
  | case4 c d s hcd ih => rw [ih fun hin => h (doubleSlash_infix_cons_cons.mpr (Or.inr hin))]

/-- A string that the loop changes gets shorter. -/
theorem length_squeeze_lt {s : List Char} (h : squeeze s ≠ s) :
    (squeeze s).length < s.length :=
  lt_of_le_of_ne (squeeze_sublist s).length_le fun heq =>
    h ((squeeze_sublist s).eq_of_length heq)

/-- `squeeze` on a C string. -/
def CString.squeeze (s : CString) : CString where
  chars := Wpdk.squeeze s.chars
  nul_notMem h := s.nul_notMem ((squeeze_sublist s.chars).subset h)

end Wpdk
