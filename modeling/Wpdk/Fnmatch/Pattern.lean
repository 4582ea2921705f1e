import Wpdk.Fnmatch.Match

/-!
# What a pattern means

A pattern is read once into tokens: any character, any characters, one of a set, or a character as
such.  What a list of tokens matches is then said without a word about the order in which places are
tried.  The loops of `fnmatch.c` never make tokens: they read a bracket expression again for every
character that they compare it with, they pass over several stars at once, and they look for a slash
or the end of the string instead of trying every place that a star may end at.  All of that makes no
difference.

* `Bracket`, `readBracket`, `rangematch_eq`: bracket expressions.
* `Token`, `tokens`, `Accepts`: the tokens of a pattern and what they match.
* `accepts_star_star`, `accepts_star_nil`, `accepts_star_slash`, `starLoop_iff`: the four ways in
  which stars are treated.
* `fnmatchFrom_iff_accepts`, `fnmatch_iff_accepts`: the loop does what the tokens say.
-/

namespace Wpdk
namespace Fnmatch

/-! ## Bracket expressions -/

/-- A bracket expression: its ranges, where a single character is one, and whether it is negated. -/
structure Bracket where
  negated : Bool
  ranges : List (Char × Char)
deriving DecidableEq

/-- The characters that a bracket expression stands for. -/
def Bracket.accepts (b : Bracket) (f : Flags) (test : Char) : Bool :=
  (b.ranges.any fun r => inRange (f.fold r.1) (f.fold r.2) (f.fold test)) != b.negated

/-- The ranges up to the closing bracket, and what is behind it. -/
def readRanges (noescape : Bool) (p : List Char) : Option (List (Char × Char) × List Char) :=
  if p.head? = some ']' then some ([], p.tail)
  else
    match hlo : readChar noescape p with
    | none => none
    | some (c, q) =>
      if isRange nul q then
        match hhi : readChar noescape q.tail with
        | none => none
        | some (c2, r) => (readRanges noescape r).map fun out => ((c, c2) :: out.1, out.2)
      else (readRanges noescape q).map fun out => ((c, c) :: out.1, out.2)
termination_by p.length
decreasing_by
  · have hc := length_readChar hlo
    have hc2 := length_readChar hhi
    rw [List.length_tail] at hc2
    omega
  · exact length_readChar hlo

/-- A bracket expression, from behind the opening bracket on. -/
def readBracket (noescape : Bool) (p : List Char) : Option (Bracket × List Char) :=
  (readRanges noescape (if isNegated p then p.tail else p)).map fun out =>
    (⟨isNegated p, out.1⟩, out.2)

/-- What is behind the terminator does not matter. -/
theorem isRange_past (past : Char) (p : List Char) : isRange past p = isRange nul p := by
  match p with
  | [] => rfl
  | [_] => rfl
  | _ :: _ :: _ => rfl

theorem inRange_self (c test : Char) : inRange c c test = (c == test) := by
  rw [Bool.eq_iff_iff, beq_iff_eq, inRange, decide_eq_true_iff]
  constructor
  · intro h
    exact Char.toNat_inj.mp (Nat.le_antisymm h.1 h.2)
  · rintro rfl
    exact ⟨le_rfl, le_rfl⟩

section Steps

variable {noescape : Bool} {p q r : List Char} {c c2 : Char}

theorem readRanges_of_none (hend : p.head? ≠ some ']') (hlo : readChar noescape p = none) :
    readRanges noescape p = none := by
  rw [readRanges, if_neg hend]
  split
  · rfl
  · rename_i c q h
    rw [hlo] at h
    cases h

theorem readRanges_single (hend : p.head? ≠ some ']') (hlo : readChar noescape p = some (c, q))
    (hrange : ¬ isRange nul q = true) :
    readRanges noescape p = (readRanges noescape q).map fun out => ((c, c) :: out.1, out.2) := by
  rw [readRanges, if_neg hend]
  split
  · rename_i h
    rw [hlo] at h
    cases h
  · rename_i c' q' h
    rw [hlo] at h
    cases h
    rw [if_neg hrange]

theorem readRanges_open (hend : p.head? ≠ some ']') (hlo : readChar noescape p = some (c, q))
    (hrange : isRange nul q = true) (hhi : readChar noescape q.tail = none) :
      readRanges noescape p = none := by
  rw [readRanges, if_neg hend]
  split
  · rfl
  · rename_i c' q' h
    rw [hlo] at h
    cases h
    rw [if_pos hrange]
    split
    · rfl
    · rename_i c2 r h
      rw [hhi] at h
      cases h

theorem readRanges_range (hend : p.head? ≠ some ']') (hlo : readChar noescape p = some (c, q))
    (hrange : isRange nul q = true) (hhi : readChar noescape q.tail = some (c2, r)) :
    readRanges noescape p = (readRanges noescape r).map fun out => ((c, c2) :: out.1, out.2) := by
  rw [readRanges, if_neg hend]
  split
  · rename_i h
    rw [hlo] at h
    cases h
  · rename_i c' q' h
    rw [hlo] at h
    cases h
    rw [if_pos hrange]
    split
    · rename_i h
      rw [hhi] at h
      cases h
    · rename_i c2' r' h
      rw [hhi] at h
      cases h
      rfl

end Steps

/-- The loop of `rangematch` reads the ranges and tells whether the character is in one of them. -/
theorem rangeLoop_eq (past : Char) (f : Flags) (test : Char) (ok : Bool) (p : List Char) :
    rangeLoop past f test ok p =
      (readRanges f.noescape p).map fun out =>
        (ok || out.1.any fun r => inRange (f.fold r.1) (f.fold r.2) test, out.2) := by
  fun_induction rangeLoop past f test ok p with
  | case1 ok p hend =>
    rw [readRanges, if_pos hend, Option.map_some, List.any_nil, Bool.or_false]
  | case2 ok p hend hlo => rw [readRanges_of_none hend hlo, Option.map_none]
  | case3 ok p hend c q hlo hrange hhi =>
    rw [isRange_past] at hrange
    rw [readRanges_open hend hlo hrange hhi, Option.map_none]
  | case4 ok p hend c q hlo hrange c2 r hhi ih =>
    rw [isRange_past] at hrange
    rw [readRanges_range hend hlo hrange hhi, ih, Option.map_map]
    simp only [Function.comp_def, List.any_cons, Bool.or_assoc]
  | case5 ok p hend c q hlo hrange ih =>
    rw [isRange_past] at hrange
    rw [readRanges_single hend hlo hrange, ih, Option.map_map]
    simp only [Function.comp_def, List.any_cons, inRange_self, Bool.or_assoc]

/-- **`rangematch` reads a bracket expression and tells whether it accepts the character.** -/
theorem rangematch_eq (past : Char) (f : Flags) (p : List Char) (test : Char) :
    rangematch past f p test =
      (readBracket f.noescape p).bind fun out => if out.1.accepts f test then some out.2
        else none := by
  unfold rangematch readBracket Bracket.accepts
  rw [rangeLoop_eq]
  cases readRanges f.noescape (if isNegated p then p.tail else p) with
  | none => rfl
  | some out =>
    simp only [Option.map_some, Option.bind_some, Bool.false_or, bne_iff_ne, ne_eq]
    split <;> rfl

theorem length_readRanges {noescape : Bool} {p q : List Char} {rs : List (Char × Char)}
    (h : readRanges noescape p = some (rs, q)) : q.length ≤ p.length := by
  fun_induction readRanges noescape p generalizing rs with
  | case1 p hend =>
    cases h
    rw [List.length_tail]
    exact Nat.sub_le _ _
  | case2 p hend hlo => cases h
  | case3 p hend c q' hlo hrange hhi => cases h
  | case4 p hend c q' hlo hrange c2 r hhi ih =>
    obtain ⟨out, hout, heq⟩ := Option.map_eq_some_iff.mp h
    cases heq
    have hc := length_readChar hlo
    have hc2 := length_readChar hhi
    rw [List.length_tail] at hc2
    have := ih hout
    omega
  | case5 p hend c q' hlo hrange ih =>
    obtain ⟨out, hout, heq⟩ := Option.map_eq_some_iff.mp h
    cases heq
    exact (ih hout).trans (length_readChar hlo).le

theorem length_readBracket {noescape : Bool} {p q : List Char} {b : Bracket}
    (h : readBracket noescape p = some (b, q)) : q.length ≤ p.length := by
  unfold readBracket at h
  obtain ⟨out, hout, heq⟩ := Option.map_eq_some_iff.mp h
  cases heq
  refine (length_readRanges hout).trans ?_
  split
  · rw [List.length_tail]
    exact Nat.sub_le _ _
  · exact le_rfl

/-! ## Patterns -/

/-- What a pattern is made of. -/
inductive Token where
  | any
  | star
  | set (b : Bracket)
  | lit (c : Char)
  | never
deriving DecidableEq

/-- The tokens of a pattern; a bracket that is not closed matches nothing. -/
def tokens (noescape : Bool) (pattern : List Char) : List Token :=
  match pattern with
  | [] => []
  | '?' :: p => .any :: tokens noescape p
  | '*' :: p => .star :: tokens noescape p
  | '[' :: p =>
    match hset : readBracket noescape p with
    | none => [.never]
    | some (b, q) => .set b :: tokens noescape q
  | c :: p => .lit (literal noescape c p).1 :: tokens noescape (literal noescape c p).2
termination_by pattern.length
decreasing_by
  · exact Nat.lt_succ_self _
  · exact Nat.lt_succ_self _
  · exact Nat.lt_succ_of_le (length_readBracket hset)
  · exact Nat.lt_succ_of_le (length_literal noescape c p)

/-- A slash that only a slash matches. -/
def Flags.barred (f : Flags) (c : Char) : Prop := c = '/' ∧ f.pathname = true

/-- **What a pattern matches.**  A star stands for any characters, without slashes if those are
barred; with `FNM_LEADING_DIR` a slash may follow. -/
def Accepts (f : Flags) : List Token → List Char → Prop
  | [], s => s = [] ∨ (f.leadingDir = true ∧ s.head? = some '/')
  | .any :: ts, s => ∃ c r, s = c :: r ∧ ¬ f.barred c ∧ Accepts f ts r
  | .star :: ts, s => ∃ u v, s = u ++ v ∧ (∀ c ∈ u, ¬ f.barred c) ∧ Accepts f ts v
  | .set b :: ts, s => ∃ c r, s = c :: r ∧ ¬ f.barred c ∧ b.accepts f c = true ∧ Accepts f ts r
  | .lit a :: ts, s => ∃ c r, s = c :: r ∧ f.same a c = true ∧ Accepts f ts r
  | .never :: _, _ => False

section Accepts

variable {f : Flags} {s : List Char} {ts : List Token}

theorem accepts_any_cons {c : Char} {r : List Char} :
    Accepts f (.any :: ts) (c :: r) ↔ ¬ f.barred c ∧ Accepts f ts r := by
  constructor
  · rintro ⟨d, t, h, hbar, ht⟩
    cases h
    exact ⟨hbar, ht⟩
  · exact fun h => ⟨c, r, rfl, h⟩

theorem accepts_set_cons {b : Bracket} {c : Char} {r : List Char} :
    Accepts f (.set b :: ts) (c :: r) ↔
      ¬ f.barred c ∧ b.accepts f c = true ∧ Accepts f ts r := by
  constructor
  · rintro ⟨d, t, h, hbar, hb, ht⟩
    cases h
    exact ⟨hbar, hb, ht⟩
  · exact fun h => ⟨c, r, rfl, h⟩

theorem accepts_lit_cons {a c : Char} {r : List Char} :
    Accepts f (.lit a :: ts) (c :: r) ↔ f.same a c = true ∧ Accepts f ts r := by
  constructor
  · rintro ⟨d, t, h, hsame, ht⟩
    cases h
    exact ⟨hsame, ht⟩
  · exact fun h => ⟨c, r, rfl, h⟩

/-- Only a star and the end match nothing. -/
theorem not_accepts_nil {t : Token} (ht : t ≠ .star) : ¬ Accepts f (t :: ts) [] := by
  cases t with
  | star => exact absurd rfl ht
  | never => exact id
  | any =>
    rintro ⟨c, r, h, -⟩
    cases h
  | set b =>
    rintro ⟨c, r, h, -⟩
    cases h
  | lit a =>
    rintro ⟨c, r, h, -⟩
    cases h

/-- Two stars are one. -/
theorem accepts_star_star : Accepts f (.star :: .star :: ts) s ↔ Accepts f (.star :: ts) s := by
  constructor
  · rintro ⟨u, v, rfl, hu, u', v', rfl, hu', hv⟩
    refine ⟨u ++ u', v', (List.append_assoc _ _ _).symm, fun c hc => ?_, hv⟩
    rcases List.mem_append.mp hc with hc | hc
    · exact hu c hc
    · exact hu' c hc
  · rintro ⟨u, v, rfl, hu, hv⟩
    exact ⟨u, v, rfl, hu, [], v, rfl, fun c hc => absurd hc List.not_mem_nil, hv⟩

/-- Any number of them are. -/
theorem accepts_stars (f : Flags) (p : List Char) (s : List Char) :
    Accepts f (.star :: tokens f.noescape p) s ↔ Accepts f
      (.star :: tokens f.noescape (p.dropWhile (· == '*'))) s := by
  induction p with
  | nil => rfl
  | cons c p ih =>
    by_cases hc : c = '*'
    · subst hc
      have hdrop : ('*' :: p).dropWhile (· == '*') = p.dropWhile (· == '*') := rfl
      rw [tokens, accepts_star_star, hdrop]
      exact ih
    · have hdrop : (c :: p).dropWhile (· == '*') = c :: p :=
        List.dropWhile_cons_of_neg (by rwa [beq_iff_eq])
      rw [hdrop]

/-- A star at the end. -/
theorem accepts_star_nil :
    Accepts f [.star] s ↔ (f.pathname = true → f.leadingDir = true ∨ '/' ∉ s) := by
  constructor
  · rintro ⟨u, v, rfl, hu, hv⟩ hpath
    rcases hv with rfl | ⟨hdir, -⟩
    · refine Or.inr fun hmem => ?_
      rw [List.append_nil] at hmem
      exact hu '/' hmem ⟨rfl, hpath⟩
    · exact Or.inl hdir
  · intro h
    by_cases hslash : f.pathname = true ∧ '/' ∈ s
    · -- up to the first slash
      have hdir : f.leadingDir = true := (h hslash.1).resolve_right (not_not_intro hslash.2)
      obtain ⟨u, r, rfl, hu⟩ := List.eq_append_cons_of_mem hslash.2
      refine ⟨u, '/' :: r, rfl, fun c hc => ?_, Or.inr ⟨hdir, rfl⟩⟩
      rintro ⟨rfl, -⟩
      exact hu hc
    · refine ⟨s, [], (List.append_nil s).symm, fun c hc hbar => ?_, Or.inl rfl⟩
      exact hslash ⟨hbar.2, hbar.1 ▸ hc⟩

theorem same_slash (f : Flags) (c : Char) : f.same '/' c = true ↔ c = '/' := by
  have hlower : ('/' == c.toLower) = true → c = '/' := by
    intro h
    have heq := beq_iff_eq.mp h
    unfold Char.toLower at heq
    split at heq
    · -- a capital letter becomes a letter
      rename_i hcap
      have hval := congrArg (fun d : Char => d.val.toNat) heq
      have hlo := UInt32.le_iff_toNat_le.mp hcap.1
      have hhi := UInt32.le_iff_toNat_le.mp hcap.2
      simp only [UInt32.toNat_add] at hval
      have hA : 'A'.val.toNat = 65 := rfl
      have hZ : 'Z'.val.toNat = 90 := rfl
      have hdiff : ('a'.val - 'A'.val).toNat = 32 := rfl
      have hslash : '/'.val.toNat = 47 := rfl
      omega
    · exact heq.symm
  unfold Flags.same
  rw [Bool.or_eq_true, Bool.and_eq_true, beq_iff_eq]
  constructor
  · rintro (rfl | ⟨-, h⟩)
    · rfl
    · exact hlower h
  · rintro rfl
    exact Or.inl rfl

/-- A star before a slash, if slashes are barred. -/
theorem accepts_star_slash (hpath : f.pathname = true) :
    Accepts f (.star :: .lit '/' :: ts) s ↔
      ∃ k, strchr s '/' = some k ∧ Accepts f (.lit '/' :: ts) (s.drop k) := by
  constructor
  · rintro ⟨u, v, rfl, hu, c, r, rfl, hc, hr⟩
    obtain rfl := (same_slash f c).mp hc
    have hmem : '/' ∉ u := fun h => hu '/' h ⟨rfl, hpath⟩
    refine ⟨u.length, strchr_append_cons hmem, ?_⟩
    rw [List.drop_left]
    exact ⟨'/', r, rfl, hc, hr⟩
  · rintro ⟨k, hk, hv⟩
    have hmem : '/' ∈ s := by
      by_contra h
      rw [strchr_eq_none h] at hk
      cases hk
    obtain ⟨u, r, rfl, hu⟩ := List.eq_append_cons_of_mem hmem
    rw [strchr_append_cons hu] at hk
    cases hk
    rw [List.drop_left] at hv
    refine ⟨u, '/' :: r, rfl, fun c hc => ?_, hv⟩
    rintro ⟨rfl, -⟩
    exact hu hc

/-- The general case of a star. -/
theorem starLoop_iff {pathname : Bool} {matchAt : List Char → Bool} :
    starLoop pathname matchAt s = true ↔
      ∃ u v, s = u ++ v ∧ v ≠ [] ∧ (∀ c ∈ u, ¬ (c = '/' ∧ pathname = true)) ∧ matchAt v = true := by
  induction s with
  | nil =>
    constructor
    · intro h
      cases h
    · rintro ⟨u, v, h, hv, -, -⟩
      exact absurd (List.append_eq_nil_iff.mp h.symm).2 hv
  | cons c s ih =>
    rw [starLoop]
    by_cases hhere : matchAt (c :: s) = true
    · rw [if_pos hhere]
      exact ⟨fun _ => ⟨[], c :: s, rfl, List.cons_ne_nil _ _,
        fun d hd => absurd hd List.not_mem_nil, hhere⟩,
        fun _ => rfl⟩
    rw [if_neg hhere]
    by_cases hbar : c = '/' ∧ pathname = true
    · rw [if_pos hbar]
      constructor
      · intro h
        cases h
      · rintro ⟨u, v, heq, hv, hu, hm⟩
        cases u with
        | nil => exact absurd (heq ▸ hm) hhere
        | cons d u =>
          cases heq
          exact absurd hbar (hu c List.mem_cons_self)
    · rw [if_neg hbar, ih]
      constructor
      · rintro ⟨u, v, rfl, hv, hu, hm⟩
        refine ⟨c :: u, v, rfl, hv, fun d hd => ?_, hm⟩
        rcases List.mem_cons.mp hd with rfl | hd
        · exact hbar
        · exact hu d hd
      · rintro ⟨u, v, heq, hv, hu, hm⟩
        cases u with
        | nil => exact absurd (heq ▸ hm) hhere
        | cons d u =>
          cases heq
          exact ⟨u, v, rfl, hv, fun e he => hu e (List.mem_cons_of_mem c he), hm⟩

end Accepts

theorem isHidden_of_not_period {f : Flags} (hperiod : f.period = false) (start : List Char)
    (pos : ℕ) :
    isHidden f start pos = false := by
  simp [isHidden, hperiod]

/-- What is left of a string that has a next character. -/
theorem drop_eq_cons {start : List Char} {pos : ℕ} {c : Char}
    (h : (start.drop pos).head? = some c) :
    start.drop pos = c :: start.drop (pos + 1) := by
  obtain ⟨l, hl⟩ := List.head?_eq_some_iff.mp h
  rw [← List.drop_drop, hl]
  rfl

theorem tokens_lit {noescape : Bool} {c : Char} {p : List Char} (hany : c ≠ '?') (hstar : c ≠ '*')
    (hset : c ≠ '[') : tokens noescape (c :: p) = .lit (literal noescape c p).1 :: tokens noescape
    (literal noescape c p).2 := by
  rw [tokens] <;> assumption

theorem tokens_set {noescape : Bool} {p : List Char} :
    tokens noescape ('[' :: p) =
      match readBracket noescape p with
      | none => [.never]
      | some (b, q) => .set b :: tokens noescape q := by
  rw [tokens]
  split
  · rename_i h
    rw [h]
  · rename_i b q h
    rw [h]

/-- A bracket expression matches a character or it does not. -/
theorem accepts_bracket_cons (past : Char) {f : Flags} {p r : List Char} {c : Char} :
    Accepts f (tokens f.noescape ('[' :: p)) (c :: r) ↔
      ¬ f.barred c ∧ ∃ q, rangematch past f p c = some q ∧ Accepts f (tokens f.noescape q) r := by
  rw [tokens_set, rangematch_eq]
  cases readBracket f.noescape p with
  | none =>
    refine iff_of_false id ?_
    rintro ⟨-, q, h, -⟩
    cases h
  | some out =>
    rw [Option.bind_some, accepts_set_cons]
    constructor
    · rintro ⟨hbar, hb, hr⟩
      exact ⟨hbar, out.2, if_pos hb, hr⟩
    · rintro ⟨hbar, q, hq, hr⟩
      split at hq
      · cases hq
        exact ⟨hbar, ‹_›, hr⟩
      · cases hq

theorem tokens_slash {noescape : Bool} {q : List Char} (h : q.head? = some '/') :
    ∃ ts, tokens noescape q = .lit '/' :: ts := by
  obtain ⟨p, rfl⟩ := List.head?_eq_some_iff.mp h
  exact ⟨_, tokens_lit (by decide) (by decide) (by decide)⟩

theorem isNone_strchr_iff {s : List Char} {c : Char} : (strchr s c).isNone = true ↔ c ∉ s := by
  rw [Option.isNone_iff_eq_none]
  constructor
  · intro h hmem
    obtain ⟨u, r, rfl, hu⟩ := List.eq_append_cons_of_mem hmem
    rw [strchr_append_cons hu] at h
    cases h
  · exact strchr_eq_none

/-- The first token of what is behind stars. -/
theorem tokens_head {noescape : Bool} {q : List Char} (hne : q ≠ []) (hstar : q.head? ≠ some '*') :
    ∃ t ts, tokens noescape q = t :: ts ∧ t ≠ .star := by
  cases q with
  | nil => exact absurd rfl hne
  | cons c p =>
    by_cases hany : c = '?'
    · subst hany
      rw [tokens]
      exact ⟨_, _, rfl, fun h => nomatch h⟩
    by_cases hset : c = '['
    · subst hset
      rw [tokens_set]
      cases readBracket noescape p with
      | none => exact ⟨_, _, rfl, fun h => nomatch h⟩
      | some out => exact ⟨_, _, rfl, fun h => nomatch h⟩
    · exact ⟨_, _, tokens_lit hany (fun h => hstar (by rw [h]; rfl)) hset, fun h => nomatch h⟩

/-- Behind stars comes something else. -/
theorem head?_dropWhile_star (p : List Char) : (p.dropWhile (· == '*')).head? ≠ some '*' := by
  intro h
  have hnot := List.head?_dropWhile_not (· == '*') p
  rw [h] at hnot
  cases hnot

/-- **The loop accepts what the pattern means**: the shortcuts for stars and the order in which the
places are tried make no difference. -/
theorem fnmatchFrom_iff_accepts (past : Char) (f : Flags) (pattern start : List Char) (pos : ℕ)
    (hperiod : f.period = false) (hdirs : f.prefixDirs = false) :
    fnmatchFrom past f pattern start pos = true ↔ Accepts f (tokens f.noescape pattern)
      (start.drop pos) := by
  have hhidden := isHidden_of_not_period hperiod
  fun_induction fnmatchFrom past f pattern start pos with
  | case1 f start pos =>
    rw [tokens, Accepts, Bool.or_eq_true, Bool.and_eq_true, List.isEmpty_iff, beq_iff_eq]
  | case2 f start pos p hnone =>
    rw [tokens, List.head?_eq_none_iff.mp hnone]
    exact iff_of_false Bool.false_ne_true (not_accepts_nil fun h => nomatch h)
  | case3 f start pos p c hc hbar =>
    rw [tokens, drop_eq_cons hc, accepts_any_cons]
    exact iff_of_false Bool.false_ne_true fun h => h.1 hbar
  | case4 f start pos p c hc hbar hhid => exact absurd (hhid.symm.trans (hhidden _ _)) (by decide)
  | case5 f start pos p c hc hbar hhid ih =>
    rw [tokens, drop_eq_cons hc, accepts_any_cons]
    exact (ih hperiod hdirs hhidden).trans (and_iff_right hbar).symm
  | case6 f start pos p hhid => exact absurd (hhid.symm.trans (hhidden _ _)) (by decide)
  | case7 f start pos p q hhid hend hpath =>
    -- a star at the end of the pattern
    rw [tokens, accepts_stars, show p.dropWhile (· == '*') = [] from hend, tokens, accepts_star_nil,
      Bool.or_eq_true, isNone_strchr_iff]
    exact ⟨fun h _ => h, fun h => h hpath⟩
  | case8 f start pos p q hhid hend hpath =>
    rw [tokens, accepts_stars, show p.dropWhile (· == '*') = [] from hend, tokens, accepts_star_nil]
    exact iff_of_true rfl fun h => absurd h hpath
  | case9 f start pos p q hhid hend hslash hnone =>
    -- a star before a slash
    obtain ⟨ts, htokens⟩ := @tokens_slash f.noescape q hslash.1
    rw [tokens, accepts_stars]
    change _ ↔ Accepts f (.star :: tokens f.noescape q) _
    rw [htokens, accepts_star_slash hslash.2, hnone]
    refine iff_of_false Bool.false_ne_true ?_
    rintro ⟨k, hk, -⟩
    cases hk
  | case10 f start pos p q hhid hend hslash k hk ih =>
    obtain ⟨ts, htokens⟩ := @tokens_slash f.noescape q hslash.1
    have hiff := ih hperiod hdirs hhidden
    rw [htokens, ← List.drop_drop] at hiff
    rw [tokens, accepts_stars]
    change _ ↔ Accepts f (.star :: tokens f.noescape q) _
    rw [htokens, accepts_star_slash hslash.2, hk]
    constructor
    · exact fun h => ⟨k, rfl, hiff.mp h⟩
    · rintro ⟨k', hk', h⟩
      cases hk'
      exact hiff.mpr h
  | case11 f start pos p q hhid hend hslash ih =>
    -- the general case of a star
    obtain ⟨t, ts, htokens, ht⟩ := @tokens_head f.noescape q hend (head?_dropWhile_star p)
    have hf : ({ f with period := false } : Flags) = f := by
      rw [← hperiod]
    have hiff : ∀ v, fnmatchFrom past f q v 0 = true ↔ Accepts f (tokens f.noescape q) v := by
      intro v
      have h := ih v
      rw [hf] at h
      exact h hperiod hdirs hhidden
    rw [tokens, accepts_stars, starLoop_iff, hf]
    constructor
    · rintro ⟨u, v, heq, -, hu, hv⟩
      exact ⟨u, v, heq, hu, (hiff v).mp hv⟩
    · rintro ⟨u, v, heq, hu, hv⟩
      refine ⟨u, v, heq, ?_, hu, (hiff v).mpr hv⟩
      rintro rfl
      change Accepts f (tokens f.noescape q) [] at hv
      rw [htokens] at hv
      exact not_accepts_nil ht hv
  | case12 f start pos p hnone =>
    obtain ⟨t, ts, htokens, ht⟩ := @tokens_head f.noescape
      ('[' :: p) (List.cons_ne_nil _ _) (by simp)
    rw [htokens, List.head?_eq_none_iff.mp hnone]
    exact iff_of_false Bool.false_ne_true (not_accepts_nil ht)
  | case13 f start pos p c hc hbar =>
    rw [drop_eq_cons hc, accepts_bracket_cons past]
    exact iff_of_false Bool.false_ne_true fun h => h.1 hbar
  | case14 f start pos p c hc hbar hrange =>
    rw [drop_eq_cons hc, accepts_bracket_cons past, hrange]
    refine iff_of_false Bool.false_ne_true ?_
    rintro ⟨-, q, hq, -⟩
    cases hq
  | case15 f start pos p c hc hbar q hrange ih =>
    rw [drop_eq_cons hc, accepts_bracket_cons past, hrange]
    constructor
    · exact fun h => ⟨hbar, q, rfl, (ih hperiod hdirs hhidden).mp h⟩
    · rintro ⟨-, q', hq, h⟩
      cases hq
      exact (ih hperiod hdirs hhidden).mpr h
  | case16 f start pos c p hany hstar hset hnone =>
    rw [tokens_lit hany hstar hset, List.head?_eq_none_iff.mp hnone, hdirs, Bool.false_and]
    exact iff_of_false Bool.false_ne_true (not_accepts_nil fun h => nomatch h)
  | case17 f start pos c p hany hstar hset d hd hsame ih =>
    rw [tokens_lit hany hstar hset, drop_eq_cons hd, accepts_lit_cons]
    exact (ih hperiod hdirs hhidden).trans (and_iff_right hsame).symm
  | case18 f start pos c p hany hstar hset d hd hsame =>
    rw [tokens_lit hany hstar hset, drop_eq_cons hd, accepts_lit_cons]
    exact iff_of_false Bool.false_ne_true fun h => hsame h.1

theorem fnmatch_eq_zero_iff {past : Char} {pattern string : CString} {flags : ℕ} :
    fnmatch past pattern string flags = 0 ↔
      fnmatchFrom past (Flags.ofNat flags) pattern.chars string.chars 0 = true := by
  unfold fnmatch
  split
  · exact iff_of_true rfl ‹_›
  · exact iff_of_false (fun h => nomatch h) ‹_›

/-- **What the function returns 0 for.**  For all patterns, strings and flags but the two that look
at what is in front of `string`; what is behind the terminator of the pattern does not matter. -/
theorem fnmatch_iff_accepts (past : Char) (pattern string : CString) {flags : ℕ}
    (hperiod : flags.testBit 2 = false) (hdirs : flags.testBit 5 = false) :
    fnmatch past pattern string flags = 0 ↔
      Accepts (Flags.ofNat flags) (tokens (flags.testBit 0) pattern.chars) string.chars := by
  have hiff := fnmatchFrom_iff_accepts past (Flags.ofNat flags) pattern.chars string.chars 0 hperiod
    hdirs
  exact fnmatch_eq_zero_iff.trans hiff

/-- A star that takes two letters. -/
theorem fnmatch_iff_accepts_star :
    fnmatch nul (CString.lit "*c") (CString.lit "abc") 2 = 0 := by
  refine (fnmatch_iff_accepts nul _ _ (by decide) (by decide)).mpr ?_
  have hpattern : (CString.lit "*c").chars = ['*', 'c'] := by decide
  have hstring : (CString.lit "abc").chars = ['a', 'b', 'c'] := by decide
  rw [hpattern, hstring, tokens, tokens_lit (by decide) (by decide) (by decide)]
  refine ⟨['a', 'b'], ['c'], rfl, ?_, 'c', [], rfl, by decide, ?_⟩
  · intro c hc
    rintro ⟨rfl, -⟩
    exact absurd hc (by decide)
  · change Accepts _ (tokens _ []) []
    rw [tokens]
    exact Or.inl rfl

end Fnmatch
end Wpdk
