import Mathlib.Data.Nat.Bitwise
import Wpdk.Base.CString

/-!
# Matching a file name

`fnmatch.c` compares a name with a pattern.  The loop reads one character of the pattern at a time;
a star calls the function again for what is left of the pattern, at every place that the star may
end at.  Two kinds of star are treated without that: one at the end of the pattern, and one before a
slash if stars do not match slashes.

The pointers into the name are the name from `stringstart` on and the number of characters that have
been passed.  `rangematch` looks at the character behind the next one before it knows that there is
a next one; if the pattern ends there it has read what is behind the terminator.  That character is
a parameter of the model.

* `Flags`: the six flags.
* `readChar`, `rangeLoop`, `rangematch`: a bracket expression.
* `starLoop`, `fnmatchFrom`: the loops; `fnmatch`: the call.
-/

namespace Wpdk
namespace Fnmatch

/-- The flags. -/
structure Flags where
  noescape : Bool
  pathname : Bool
  period : Bool
  leadingDir : Bool
  casefold : Bool
  prefixDirs : Bool
deriving DecidableEq

/-- `FNM_NOESCAPE`, `FNM_PATHNAME`, `FNM_PERIOD`, `FNM_LEADING_DIR`, `FNM_CASEFOLD` and
`FNM_PREFIX_DIRS`, from the lowest bit on. -/
def Flags.ofNat (flags : ℕ) : Flags :=
  ⟨flags.testBit 0, flags.testBit 1, flags.testBit 2, flags.testBit 3, flags.testBit 4,
    flags.testBit 5⟩

/-- `tolower`, if case is to be ignored. -/
def Flags.fold (f : Flags) (c : Char) : Char := if f.casefold then c.toLower else c

/-- Two characters are the same. -/
def Flags.same (f : Flags) (c d : Char) : Bool :=
  c == d || (f.casefold && c.toLower == d.toLower)

/-! ## Bracket expressions -/

/-- A character of a bracket expression, which may be escaped. -/
def readChar (noescape : Bool) : List Char → Option (Char × List Char)
  | [] => none
  | c :: p =>
    if c = '\\' ∧ noescape = false then p.head?.map fun d => (d, p.tail) else some (c, p)

theorem length_readChar {noescape : Bool} {p q : List Char} {c : Char}
    (h : readChar noescape p = some (c, q)) :
    q.length < p.length := by
  cases p with
  | nil => cases h
  | cons d p =>
    rw [readChar] at h
    split at h
    · cases p with
      | nil => cases h
      | cons e p =>
        cases h
        exact Nat.lt_succ_of_lt (Nat.lt_succ_self _)
    · cases h
      exact Nat.lt_succ_self _

/-- `*(pattern + 1)`; `past` is what stands behind the terminator. -/
def charBehind (past : Char) : List Char → Char
  | [] => past
  | [_] => nul
  | _ :: c :: _ => c

/-- A range follows. -/
def isRange (past : Char) (p : List Char) : Bool :=
  p.head? == some '-' && charBehind past p != nul && charBehind past p != ']'

/-- `c <= test && test <= c2`, as unsigned characters. -/
def inRange (lo hi test : Char) : Bool := decide (lo.toNat ≤ test.toNat ∧ test.toNat ≤ hi.toNat)

/-- The loop of `rangematch` up to the closing bracket: `ok`, and what is behind the bracket. -/
def rangeLoop (past : Char) (f : Flags) (test : Char) (ok : Bool) (p : List Char) :
    Option (Bool × List Char) :=
  if p.head? = some ']' then some (ok, p.tail)
  else
    match hlo : readChar f.noescape p with
    | none => none
    | some (c, q) =>
      if isRange past q then
        match hhi : readChar f.noescape q.tail with
        | none => none
        | some (c2, r) => rangeLoop past f test (ok || inRange (f.fold c) (f.fold c2) test) r
      else rangeLoop past f test (ok || f.fold c == test) q
termination_by p.length
decreasing_by
  · have hc := length_readChar hlo
    have hc2 := length_readChar hhi
    rw [List.length_tail] at hc2
    omega
  · exact length_readChar hlo

/-- `*pattern == '!' || *pattern == '^'`. -/
def isNegated (p : List Char) : Bool := p.head? == some '!' || p.head? == some '^'

/-- `rangematch`: what is behind the bracket expression if it matches. -/
def rangematch (past : Char) (f : Flags) (p : List Char) (test : Char) : Option (List Char) :=
  match rangeLoop past f (f.fold test) false (if isNegated p then p.tail else p) with
  | none => none
  | some (ok, q) => if ok = isNegated p then none else some q

theorem length_rangeLoop {past : Char} {f : Flags} {test : Char} {ok ok' : Bool} {p q : List Char}
    (h : rangeLoop past f test ok p = some (ok', q)) : q.length ≤ p.length := by
  fun_induction rangeLoop past f test ok p with
  | case1 ok p hend =>
    cases h
    rw [List.length_tail]
    exact Nat.sub_le _ _
  | case2 ok p hend hlo => cases h
  | case3 ok p hend c q' hlo hrange hhi => cases h
  | case4 ok p hend c q' hlo hrange c2 r hhi ih =>
    have hc := length_readChar hlo
    have hc2 := length_readChar hhi
    rw [List.length_tail] at hc2
    have := ih h
    omega
  | case5 ok p hend c q' hlo hrange ih => exact (ih h).trans (length_readChar hlo).le

theorem length_rangematch {past : Char} {f : Flags} {test : Char} {p q : List Char}
    (h : rangematch past f p test = some q) : q.length ≤ p.length := by
  unfold rangematch at h
  split at h
  · cases h
  · rename_i ok r hloop
    split at h
    · cases h
    · cases h
      refine (length_rangeLoop hloop).trans ?_
      split
      · rw [List.length_tail]
        exact Nat.sub_le _ _
      · exact le_rfl

/-! ## The loop -/

/-- The general case of a star: `matchAt` is tried at every place up to the end, or up to
a slash. -/
def starLoop (pathname : Bool) (matchAt : List Char → Bool) : List Char → Bool
  | [] => false
  | test :: string =>
    if matchAt (test :: string) then true
    else if test = '/' ∧ pathname = true then false
    else starLoop pathname matchAt string

/-- A character that the pattern gives as such, and what is behind it. -/
def literal (noescape : Bool) (c : Char) (p : List Char) : Char × List Char :=
  if c = '\\' ∧ noescape = false then (p.head?.getD '\\', p.tail) else (c, p)

theorem length_literal (noescape : Bool) (c : Char) (p : List Char) :
    (literal noescape c p).2.length ≤ p.length := by
  unfold literal
  split
  · rw [List.length_tail]
    exact Nat.sub_le _ _
  · exact le_rfl

/-- A period that is not to be matched by `?` or `*`: at the start, or behind a slash. -/
def isHidden (f : Flags) (start : List Char) (pos : ℕ) : Bool :=
  (start.drop pos).head? == some '.' && f.period &&
    (pos == 0 || (f.pathname && start[pos - 1]? == some '/'))

/-- `fnmatch` with `stringstart` and the place of `string` behind it. -/
def fnmatchFrom (past : Char) (f : Flags) (pattern start : List Char) (pos : ℕ) : Bool :=
  match pattern with
  | [] => (start.drop pos).isEmpty || (f.leadingDir && (start.drop pos).head? == some '/')
  | '?' :: p =>
    match (start.drop pos).head? with
    | none => false
    | some c =>
      if c = '/' ∧ f.pathname = true then false
      else if isHidden f start pos then false
      else fnmatchFrom past f p start (pos + 1)
  | '*' :: p =>
    -- several stars are one
    let q := p.dropWhile (· == '*')
    if isHidden f start pos then false
    else if q = [] then
      if f.pathname then f.leadingDir || (strchr (start.drop pos) '/').isNone else true
    else if q.head? = some '/' ∧ f.pathname = true then
      match strchr (start.drop pos) '/' with
      | none => false
      | some k => fnmatchFrom past f q start (pos + k)
    else
      starLoop f.pathname (fun string => fnmatchFrom past { f with period := false } q string 0)
        (start.drop pos)
  | '[' :: p =>
    match (start.drop pos).head? with
    | none => false
    | some c =>
      if c = '/' ∧ f.pathname = true then false
      else
        match hrange : rangematch past f p c with
        | none => false
        | some q => fnmatchFrom past f q start (pos + 1)
  | c :: p =>
    match (start.drop pos).head? with
    | none =>
      f.prefixDirs && (((literal f.noescape c p).1 == '/' && pos != 0) ||
        (pos == 1 && start.head? == some '/'))
    | some d =>
      if f.same (literal f.noescape c p).1 d then fnmatchFrom past f
        (literal f.noescape c p).2 start (pos + 1)
      else false
termination_by pattern.length
decreasing_by
  · exact Nat.lt_succ_self _
  · exact Nat.lt_succ_of_le (List.dropWhile_sublist _).length_le
  · exact Nat.lt_succ_of_le (List.dropWhile_sublist _).length_le
  · exact Nat.lt_succ_of_le (length_rangematch hrange)
  · exact Nat.lt_succ_of_le (length_literal f.noescape c p)

/-- `FNM_NOMATCH`. -/
def fnmNomatch : ℕ := 1

/-- `fnmatch`. -/
def fnmatch (past : Char) (pattern string : CString) (flags : ℕ) : ℕ :=
  if fnmatchFrom past (Flags.ofNat flags) pattern.chars string.chars 0 then 0 else fnmNomatch

end Fnmatch
end Wpdk
