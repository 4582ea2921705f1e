import Wpdk.Fnmatch.Pattern

/-!
# What the flags add and take away

`FNM_LEADING_DIR` lets a slash and anything behind it follow a match, and adds nothing else.
`FNM_PERIOD` takes matches away: a period at the start of the string is then not for `?` or `*`.  It
is still for a bracket expression, which does not look at the flag, and for `?` and `*` behind a
slash if a star was tried at several places before, because the flag is not handed on.

* `accepts_leadingDir`: the meaning of a pattern with and without `FNM_LEADING_DIR`.
* `fnmatchFrom_no_period`, `head_token_of_period`: what `FNM_PERIOD` does.
* `fnmatch_leading_dir_iff`, `fnmatch_period_restricts`: the calls.
-/

namespace Wpdk
namespace Fnmatch

/-! ## A slash may follow -/

/-- With `FNM_LEADING_DIR` a pattern matches what is in front of a slash. -/
theorem accepts_leadingDir (f : Flags) (ts : List Token) (s : List Char) :
    Accepts { f with leadingDir := true } ts s ↔
      ∃ u v, s = u ++ v ∧ (v = [] ∨ v.head? = some '/') ∧
        Accepts { f with leadingDir := false } ts u := by
  induction ts generalizing s with
  | nil =>
    constructor
    · rintro (rfl | ⟨-, h⟩)
      · exact ⟨[], [], rfl, Or.inl rfl, Or.inl rfl⟩
      · exact ⟨[], s, rfl, Or.inr h, Or.inl rfl⟩
    · rintro ⟨u, v, rfl, hv, hu | ⟨h, -⟩⟩
      · rw [hu]
        exact hv.imp id fun h => ⟨rfl, h⟩
      · cases h
  | cons t ts ih =>
    cases t with
    | never =>
      refine iff_of_false id ?_
      rintro ⟨u, v, -, -, h⟩
      exact h
    | star =>
      constructor
      · rintro ⟨w, s', rfl, hw, hs'⟩
        obtain ⟨u, v, rfl, hv, hu⟩ := (ih s').mp hs'
        exact ⟨w ++ u, v, (List.append_assoc _ _ _).symm, hv, w, u, rfl, hw, hu⟩
      · rintro ⟨u, v, rfl, hv, w, u', rfl, hw, hu⟩
        exact ⟨w, u' ++ v, List.append_assoc _ _ _, hw, (ih _).mpr ⟨u', v, rfl, hv, hu⟩⟩
    | any =>
      constructor
      · rintro ⟨c, r, rfl, hc, hr⟩
        obtain ⟨u, v, rfl, hv, hu⟩ := (ih r).mp hr
        exact ⟨c :: u, v, rfl, hv, c, u, rfl, hc, hu⟩
      · rintro ⟨u, v, rfl, hv, c, r, rfl, hc, hu⟩
        exact ⟨c, r ++ v, rfl, hc, (ih _).mpr ⟨r, v, rfl, hv, hu⟩⟩
    | set b =>
      constructor
      · rintro ⟨c, r, rfl, hc, hb, hr⟩
        obtain ⟨u, v, rfl, hv, hu⟩ := (ih r).mp hr
        exact ⟨c :: u, v, rfl, hv, c, u, rfl, hc, hb, hu⟩
      · rintro ⟨u, v, rfl, hv, c, r, rfl, hc, hb, hu⟩
        exact ⟨c, r ++ v, rfl, hc, hb, (ih _).mpr ⟨r, v, rfl, hv, hu⟩⟩
    | lit a =>
      constructor
      · rintro ⟨c, r, rfl, hc, hr⟩
        obtain ⟨u, v, rfl, hv, hu⟩ := (ih r).mp hr
        exact ⟨c :: u, v, rfl, hv, c, u, rfl, hc, hu⟩
      · rintro ⟨u, v, rfl, hv, c, r, rfl, hc, hu⟩
        exact ⟨c, r ++ v, rfl, hc, (ih _).mpr ⟨r, v, rfl, hv, hu⟩⟩

/-! ## Leading periods -/

theorem rangematch_period (past : Char) (f : Flags) (p : List Char) (c : Char) :
    rangematch past { f with period := false } p c = rangematch past f p c := by
  rw [rangematch_eq, rangematch_eq]
  rfl

theorem isHidden_no_period (f : Flags) (start : List Char) (pos : ℕ) :
    isHidden { f with period := false } start pos = false :=
  isHidden_of_not_period rfl start pos

theorem fnmatchFrom_set {past : Char} {f : Flags} {p q start : List Char} {pos : ℕ} {c : Char}
    (hc : (start.drop pos).head? = some c) (hbar : ¬ (c = '/' ∧ f.pathname = true))
    (hrange : rangematch past f p c = some q) :
    fnmatchFrom past f ('[' :: p) start pos = fnmatchFrom past f q start (pos + 1) := by
  rw [fnmatchFrom, hc]
  dsimp only
  rw [if_neg hbar]
  split
  · rename_i h
    rw [hrange] at h
    cases h
  · rename_i q' h
    rw [hrange] at h
    cases h
    rfl

theorem fnmatchFrom_lit {past : Char} {f : Flags} {p start : List Char} {pos : ℕ} {c : Char}
    (hany : c ≠ '?') (hstar : c ≠ '*') (hset : c ≠ '[') :
    fnmatchFrom past f (c :: p) start pos =
      match (start.drop pos).head? with
      | none =>
        f.prefixDirs && (((literal f.noescape c p).1 == '/' && pos != 0) ||
          (pos == 1 && start.head? == some '/'))
      | some d =>
        if f.same (literal f.noescape c p).1 d then
          fnmatchFrom past f (literal f.noescape c p).2 start (pos + 1)
        else false :=
  fnmatchFrom.eq_5 past f start pos c p hany hstar hset

/-- **`FNM_PERIOD` only takes matches away.** -/
theorem fnmatchFrom_no_period (past : Char) (f : Flags) (pattern start : List Char) (pos : ℕ)
    (h : fnmatchFrom past f pattern start pos = true) :
    fnmatchFrom past { f with period := false } pattern start pos = true := by
  fun_induction fnmatchFrom past f pattern start pos with
  | case1 f start pos =>
    rw [fnmatchFrom]
    exact h
  | case2 f start pos p hnone => cases h
  | case3 f start pos p c hc hbar => cases h
  | case4 f start pos p c hc hbar hhid => cases h
  | case5 f start pos p c hc hbar hhid ih =>
    rw [fnmatchFrom, hc]
    dsimp only
    rw [if_neg hbar, isHidden_no_period, if_neg Bool.false_ne_true]
    exact ih h
  | case6 f start pos p hhid => cases h
  | case7 f start pos p q hhid hend hpath =>
    rw [fnmatchFrom]
    dsimp only
    rw [isHidden_no_period, if_neg Bool.false_ne_true, if_pos hend, if_pos hpath]
    exact h
  | case8 f start pos p q hhid hend hpath =>
    rw [fnmatchFrom]
    dsimp only
    rw [isHidden_no_period, if_neg Bool.false_ne_true, if_pos hend, if_neg hpath]
  | case9 f start pos p q hhid hend hslash hnone => cases h
  | case10 f start pos p q hhid hend hslash k hk ih =>
    rw [fnmatchFrom]
    dsimp only
    rw [isHidden_no_period, if_neg Bool.false_ne_true, if_neg hend, if_pos hslash, hk]
    exact ih h
  | case11 f start pos p q hhid hend hslash ih =>
    rw [fnmatchFrom]
    dsimp only
    rw [isHidden_no_period, if_neg Bool.false_ne_true, if_neg hend, if_neg hslash]
    exact h
  | case12 f start pos p hnone => cases h
  | case13 f start pos p c hc hbar => cases h
  | case14 f start pos p c hc hbar hrange => cases h
  | case15 f start pos p c hc hbar q hrange ih =>
    have hrange' := (rangematch_period past f p c).trans hrange
    exact (fnmatchFrom_set (f := { f with period := false }) hc hbar hrange').trans (ih h)
  | case16 f start pos c p hany hstar hset hnone =>
    rw [fnmatchFrom_lit hany hstar hset, hnone]
    exact h
  | case17 f start pos c p hany hstar hset d hd hsame ih =>
    rw [fnmatchFrom_lit hany hstar hset, hd]
    exact (if_pos hsame).trans (ih h)
  | case18 f start pos c p hany hstar hset d hd hsame => cases h

/-- A period at the start of the string is matched by itself or by a bracket expression. -/
theorem head_token_of_period {past : Char} {f : Flags} {pattern start : List Char}
    (hperiod : f.period = true) (hdot : start.head? = some '.')
    (h : fnmatchFrom past f pattern start 0 = true) :
    ∃ t ts, tokens f.noescape pattern = t :: ts ∧ t ≠ .any ∧ t ≠ .star := by
  have hhidden : isHidden f start 0 = true := by
    simp [isHidden, hperiod, hdot]
  cases pattern with
  | nil =>
    obtain ⟨l, rfl⟩ := List.head?_eq_some_iff.mp hdot
    rw [fnmatchFrom] at h
    simp at h
  | cons c p =>
    by_cases hany : c = '?'
    · subst hany
      rw [fnmatchFrom, List.drop_zero, hdot] at h
      dsimp only at h
      rw [hhidden, if_pos rfl, ite_self] at h
      cases h
    by_cases hstar : c = '*'
    · subst hstar
      rw [fnmatchFrom, hhidden, if_pos rfl] at h
      cases h
    by_cases hset : c = '['
    · subst hset
      rw [tokens_set]
      cases readBracket f.noescape p with
      | none => exact ⟨_, _, rfl, fun h => (nomatch h), fun h => (nomatch h)⟩
      | some out => exact ⟨_, _, rfl, fun h => (nomatch h), fun h => (nomatch h)⟩
    · exact ⟨_, _, tokens_lit hany hstar hset, fun h => (nomatch h), fun h => (nomatch h)⟩

/-! ## The flags of a call -/

theorem ofNat_or_leadingDir (flags : ℕ) :
    Flags.ofNat (flags ||| 8) = { Flags.ofNat flags with leadingDir := true } := by
  unfold Flags.ofNat
  rw [show (8 : ℕ) = 2 ^ 3 from rfl]
  simp only [Nat.testBit_or, Nat.testBit_two_pow]
  simp

theorem ofNat_or_period (flags : ℕ) :
    Flags.ofNat (flags ||| 4) = { Flags.ofNat flags with period := true } := by
  unfold Flags.ofNat
  rw [show (4 : ℕ) = 2 ^ 2 from rfl]
  simp only [Nat.testBit_or, Nat.testBit_two_pow]
  simp

/-- **A pattern matches a directory in front of a slash** with `FNM_LEADING_DIR` if and only if it
matches it without, if neither `FNM_PERIOD` nor `FNM_PREFIX_DIRS` is given. -/
theorem fnmatch_leading_dir_iff (past : Char) (pattern string : CString) {flags : ℕ}
    (hperiod : flags.testBit 2 = false) (hdir : flags.testBit 3 = false)
    (hdirs : flags.testBit 5 = false) :
    fnmatch past pattern string (flags ||| 8) = 0 ↔
      ∃ dir rest : CString, string = dir ++ rest ∧
        (rest.chars = [] ∨ rest.chars.head? = some '/') ∧ fnmatch past pattern dir flags = 0 := by
  have hf : ({ Flags.ofNat flags with leadingDir := false } : Flags) = Flags.ofNat flags := by
    rw [← hdir]
    rfl
  have hno : ∀ s : List Char, fnmatchFrom past (Flags.ofNat flags) pattern.chars s 0 = true ↔
      Accepts (Flags.ofNat flags) (tokens (flags.testBit 0) pattern.chars) s :=
    fun s => fnmatchFrom_iff_accepts past (Flags.ofNat flags) pattern.chars s 0 hperiod hdirs
  have hiff := fnmatchFrom_iff_accepts past { Flags.ofNat flags with leadingDir := true }
    pattern.chars string.chars 0 hperiod hdirs
  rw [fnmatch_eq_zero_iff, ofNat_or_leadingDir, hiff, accepts_leadingDir, hf]
  constructor
  · rintro ⟨u, v, hstring, hv, hu⟩
    have hnul : ∀ c ∈ string.chars, c ≠ nul := fun c hc h => string.nul_notMem (h ▸ hc)
    rw [List.drop_zero] at hstring
    rw [hstring] at hnul
    refine ⟨⟨u, fun h => hnul nul (List.mem_append_left v h) rfl⟩,
      ⟨v, fun h => hnul nul (List.mem_append_right u h) rfl⟩, CString.ext hstring, hv, ?_⟩
    exact fnmatch_eq_zero_iff.mpr ((hno u).mpr hu)
  · rintro ⟨dir, rest, rfl, hrest, hmatch⟩
    exact ⟨dir.chars, rest.chars, rfl, hrest, (hno _).mp (fnmatch_eq_zero_iff.mp hmatch)⟩

/-- `?` matches a directory of one letter. -/
theorem fnmatch_leading_dir_any :
    fnmatch nul (CString.lit "?") (CString.lit "a/b") (0 ||| 8) = 0 ↔
      ∃ dir rest : CString, CString.lit "a/b" = dir ++ rest ∧
        (rest.chars = [] ∨ rest.chars.head? = some '/') ∧
          fnmatch nul (CString.lit "?") dir 0 = 0 :=
  fnmatch_leading_dir_iff nul _ _ (by decide) (by decide) (by decide)

/-- **`FNM_PERIOD` only takes matches away**, and a period at the start of the string is then
matched by itself or by a bracket expression. -/
theorem fnmatch_period_restricts (past : Char) (pattern string : CString) {flags : ℕ}
    (hperiod : flags.testBit 2 = false) (h : fnmatch past pattern string (flags ||| 4) = 0) :
    fnmatch past pattern string flags = 0 ∧
      (string.chars.head? = some '.' →
        ∃ t ts, tokens (flags.testBit 0) pattern.chars = t :: ts ∧ t ≠ .any ∧ t ≠ .star) := by
  rw [fnmatch_eq_zero_iff, ofNat_or_period] at h
  have hf : ({ Flags.ofNat flags with period := false } : Flags) = Flags.ofNat flags := by
    rw [← hperiod]
    rfl
  refine ⟨fnmatch_eq_zero_iff.mpr ?_, fun hdot => head_token_of_period rfl hdot h⟩
  have hno := fnmatchFrom_no_period past _ _ _ _ h
  rwa [hf] at hno

/-- A hidden file and the pattern that names it. -/
theorem fnmatch_period_restricts_dot :
    fnmatch nul (CString.lit ".a") (CString.lit ".a") 0 = 0 := by
  refine (fnmatch_period_restricts nul _ _ (by decide) (fnmatch_eq_zero_iff.mpr ?_)).1
  have hchars : (CString.lit ".a").chars = ['.', 'a'] := by decide
  rw [hchars, fnmatchFrom_lit (by decide) (by decide) (by decide)]
  simp only [List.drop_zero, List.head?_cons]
  rw [if_pos (by decide)]
  change fnmatchFrom nul _ ['a'] ['.', 'a'] 1 = true
  rw [fnmatchFrom_lit (by decide) (by decide) (by decide)]
  change (if _ then fnmatchFrom nul _ [] ['.', 'a'] 2 else false) = true
  rw [if_pos (by decide), fnmatchFrom]
  rfl

end Fnmatch
end Wpdk
