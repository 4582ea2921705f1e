import Mathlib.Data.List.Basic
import Wpdk.Base.CString

/-!
# `strcasestr`

`wpdk_strcasestr` goes through the characters of the haystack and compares what starts there with
the needle, ignoring case.  The loop ends at the terminator without a comparison there.  Only an
empty needle could be found at the terminator, and it is found at the first character before that,
if there is one.  What is left is an empty needle in an empty haystack, which is not found.

* `strnicmpEq`, `strcasestrLoop`, `strcasestr`: the comparison, the loop and the function.
* `Occurs`: the needle is in the haystack at an offset; `IsFirst`: what is to be returned.
* `strcasestr_isFirst_iff`: it is returned unless both strings are empty.
-/

namespace Wpdk
namespace Strings

section Search

-- `fold` gives two characters the same value if they are the same but for case
variable (fold : Char → Char)

/-- `_strnicmp(a, b, n) == 0`. -/
def strnicmpEq (a b : List Char) (n : ℕ) : Bool := strncmpEq (a.map fold) (b.map fold) n

/-- The loop, as an offset into the characters that are left. -/
def strcasestrLoop (needle : CString) : List Char → Option ℕ
  | [] => none
  | c :: cs =>
    if strnicmpEq fold (c :: cs) needle.chars needle.strlen then some 0
    else (strcasestrLoop needle cs).map (· + 1)

/-- `wpdk_strcasestr`, as an offset into the haystack. -/
def strcasestr (haystack needle : Option CString) : Option ℕ :=
  match haystack, needle with
  | some h, some n => strcasestrLoop fold n h.chars
  | _, _ => none

/-- The characters at an offset of the haystack are those of the needle, but for case. -/
def Occurs (h n : CString) (i : ℕ) : Prop :=
  i ≤ h.strlen ∧ ((h.chars.drop i).take n.strlen).map fold = n.chars.map fold

instance (h n : CString) (i : ℕ) : Decidable (Occurs fold h n i) :=
  inferInstanceAs (Decidable (_ ∧ _))

/-- The first occurrence, or none if there is none. -/
def IsFirst (h n : CString) : Option ℕ → Prop
  | some i => Occurs fold h n i ∧ ∀ j < i, ¬ Occurs fold h n j
  | none => ∀ i, ¬ Occurs fold h n i

end Search

section Spec

variable {fold : Char → Char} {h n : CString} {i : ℕ}

theorem strnicmpEq_iff {a b : List Char} :
    strnicmpEq fold a b b.length = true ↔ (a.take b.length).map fold = b.map fold := by
  have hlength : (b.map fold).length = b.length := List.length_map fold
  rw [strnicmpEq, ← hlength, strncmpEq_length_iff, List.prefix_iff_eq_take, hlength, List.map_take]
  exact eq_comm

/-- Before the terminator, an occurrence is what the comparison finds. -/
theorem occurs_iff (hi : i < h.strlen) :
    Occurs fold h n i ↔ strnicmpEq fold (h.chars.drop i) n.chars n.strlen = true := by
  rw [CString.strlen, strnicmpEq_iff]
  exact and_iff_right (Nat.le_of_lt hi)

/-- At the terminator there is only the empty needle. -/
theorem occurs_strlen_iff : Occurs fold h n h.strlen ↔ n.strlen = 0 := by
  have hdrop : h.chars.drop h.strlen = [] := List.drop_length
  rw [Occurs, hdrop, List.take_nil, List.map_nil, CString.strlen, CString.strlen,
    List.length_eq_zero_iff]
  constructor
  · rintro ⟨-, hmap⟩
    exact List.map_eq_nil_iff.mp hmap.symm
  · intro hnil
    rw [hnil]
    exact ⟨Nat.le_refl _, rfl⟩

/-- Everything else is found by the loop, and first. -/
theorem strcasestrLoop_spec (fold : Char → Char) (n : CString) (s : List Char) :
    match strcasestrLoop fold n s with
    | some i => i < s.length ∧ strnicmpEq fold (s.drop i) n.chars n.strlen = true ∧
        ∀ j < i, strnicmpEq fold (s.drop j) n.chars n.strlen = false
    | none => ∀ j < s.length, strnicmpEq fold (s.drop j) n.chars n.strlen = false := by
  induction s with
  | nil => exact fun j hj => absurd hj (Nat.not_lt_zero j)
  | cons c cs ih =>
    rw [strcasestrLoop]
    by_cases hhit : strnicmpEq fold (c :: cs) n.chars n.strlen = true
    · rw [if_pos hhit]
      exact ⟨Nat.succ_pos _, hhit, fun j hj => absurd hj (Nat.not_lt_zero j)⟩
    · rw [if_neg hhit]
      rw [Bool.not_eq_true] at hhit
      -- the offsets behind the first character are those of the rest, moved on by one
      cases hloop : strcasestrLoop fold n cs with
      | none =>
        rw [hloop] at ih
        rintro (_ | j) hj
        · exact hhit
        · exact ih j (Nat.lt_of_succ_lt_succ hj)
      | some i =>
        rw [hloop] at ih
        obtain ⟨hlt, hfound, hbefore⟩ := ih
        refine ⟨Nat.succ_lt_succ hlt, hfound, ?_⟩
        rintro (_ | j) hj
        · exact hhit
        · exact hbefore j (Nat.lt_of_succ_lt_succ hj)

/-- A result of the loop is the first occurrence. -/
theorem isFirst_of_some (hloop : strcasestrLoop fold n h.chars = some i) :
    IsFirst fold h n (some i) := by
  have hspec := strcasestrLoop_spec fold n h.chars
  rw [hloop] at hspec
  obtain ⟨hlt, hfound, hbefore⟩ := hspec
  refine ⟨(occurs_iff hlt).mpr hfound, fun j hj hoccurs => ?_⟩
  rw [occurs_iff (Nat.lt_trans hj hlt), hbefore j hj] at hoccurs
  cases hoccurs

/-- Without a result there is an occurrence only at the terminator. -/
theorem eq_strlen_of_none (hloop : strcasestrLoop fold n h.chars = none) (hi : Occurs fold h n i) :
    i = h.strlen := by
  have hspec := strcasestrLoop_spec fold n h.chars
  rw [hloop] at hspec
  rcases Nat.lt_or_eq_of_le hi.1 with hlt | heq
  · rw [occurs_iff hlt, hspec i hlt] at hi
    cases hi
  · exact heq

/-- An empty needle is found at once if there is a character. -/
theorem strcasestrLoop_ne_none (hn : n.strlen = 0) (hh : h.strlen ≠ 0) :
    strcasestrLoop fold n h.chars ≠ none := by
  cases hchars : h.chars with
  | nil => exact absurd (congrArg List.length hchars) hh
  | cons c cs =>
    have hhit : strnicmpEq fold (c :: cs) n.chars n.strlen = true := by
      rw [hn, strnicmpEq, strncmpEq]
    rw [strcasestrLoop, if_pos hhit]
    exact Option.some_ne_none 0

end Spec

/-- For all strings and every way of ignoring case: what is returned is the first occurrence of the
needle, or nothing if there is none, unless both strings are empty; then the needle is there and is
not found. -/
theorem strcasestr_isFirst_iff (fold : Char → Char) (h n : CString) :
    IsFirst fold h n (strcasestr fold (some h) (some n)) ↔ ¬ (h.strlen = 0 ∧ n.strlen = 0) := by
  rw [strcasestr]
  cases hloop : strcasestrLoop fold n h.chars with
  | some i =>
    refine iff_of_true (isFirst_of_some hloop) ?_
    rintro ⟨hh, -⟩
    rw [CString.strlen, List.length_eq_zero_iff] at hh
    rw [hh] at hloop
    cases hloop
  | none =>
    constructor
    · rintro hnone ⟨-, hn⟩
      exact hnone h.strlen (occurs_strlen_iff.mpr hn)
    · intro hne i hi
      rw [eq_strlen_of_none hloop hi, occurs_strlen_iff] at hi
      exact strcasestrLoop_ne_none hi (fun hh => hne ⟨hh, hi⟩) hloop

/-- The empty needle is at offset 0 of the empty haystack, and the result is `NULL`. -/
theorem strcasestr_empty_empty :
    strcasestr Char.toLower (some (.lit "")) (some (.lit "")) = none ∧
      Occurs Char.toLower (.lit "") (.lit "") 0 := by
  decide

example : strcasestr Char.toLower (some (.lit "hELlo-WOrld")) (some (.lit "lo-w")) = some 3 := by
  decide

end Strings
end Wpdk
