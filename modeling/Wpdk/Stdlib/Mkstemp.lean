import Wpdk.Path.Stem

/-!
# Temporary files

`wpdk_mkstemp` of `stdlib.c`.  The path made of the template by `wpdk_copy_path` gets its last six
characters from `_mktemp`, the file is created under the path, and the six characters are put into
the template.  If the file is there already, the template is copied again and the next name tried,
up to 26 times.

`wpdk_copy_path` may return the buffer without having put anything into it: for a name directly
under `/` which does not fit under `/tmp`, or to which no entry applies there.  What is in the
buffer is then what happened to be on the stack, and the file that is created is named by that.
And an entry whose recorded length is larger than the path is found or not by what is behind the
path in memory, once for the template and again for the name that is returned.

* `mktemp`, `tryPath`, `attempt`, `mkstemp`: the function.  `Attempt` has the answers of the
  library for one round of the loop.
* `NamesFile`: the template names the file that was created.
* `Fills`, `Undisturbed`: the buffer is filled, and nothing behind the path has a say.
* `mkstemp_names_file_iff`: for which tables and templates it does, whatever is answered.
-/

namespace Wpdk
namespace Stdlib

open Wpdk.Path

/-- The last six characters of a template. -/
def placeholder : Suffix := ⟨CString.lit "XXXXXX", by decide, by decide⟩

/-- What stands before the last six characters. -/
def stemOf (s : CString) : CString := s.take (s.strlen - 6)

/-- `&s[strlen(s) - 6]`. -/
def lastSix (s : CString) : CString := s.drop (s.strlen - 6)

theorem stemOf_append (s : CString) (u : Suffix) : stemOf (s ++ u.str) = s := by
  ext1
  rw [stemOf, CString.strlen_append, u.strlen_eq, Nat.add_sub_cancel]
  exact List.take_left

theorem lastSix_append (s : CString) (u : Suffix) : lastSix (s ++ u.str) = u.str := by
  ext1
  rw [lastSix, CString.strlen_append, u.strlen_eq, Nat.add_sub_cancel]
  exact List.drop_left

theorem stemOf_append_lastSix (s : CString) : stemOf s ++ lastSix s = s :=
  CString.ext (List.take_append_drop _ _)

/-- The tests on the template. -/
def IsTemplate (t : CString) : Prop :=
  6 ≤ t.strlen ∧ t.strlen < maxPath ∧ lastSix t = placeholder.str

instance (t : CString) : Decidable (IsTemplate t) := inferInstanceAs (Decidable (_ ∧ _ ∧ _))

/-- `_mktemp`: the six characters it has found, or an error, are given. -/
def mktemp (answer : Except Errno Suffix) (path : CString) : Except Errno CString :=
  if lastSix path = placeholder.str then
    match answer with
    | .error e => .error e
    | .ok u => .ok (stemOf path ++ u.str)
  else .error .einval

/-- What one round of the loop meets: the stack, and the answers of `_mktemp` and `_open`. -/
structure Attempt where
  scratch : List Char
  mktemp : Except Errno Suffix
  opened : Except Errno ℕ

/-- The value returned, the template, and the files that have been created and are still there. -/
structure MkstempResult where
  ret : Except Errno ℕ
  template : Option CString
  created : List CString

/-- A round from `_mktemp` on: the result, or the buffer for the next round. -/
def tryPath (t : CString) (a : Attempt) (path : CString) : MkstempResult ⊕ CString :=
  match mktemp a.mktemp path with
  | .error e => .inl ⟨.error e, some t, []⟩
  | .ok path =>
    match a.opened with
    | .ok fd =>
      if 6 ≤ path.strlen ∧ path.strlen < maxPath then
        match strcpyS 7 (lastSix path) with
        | some six => .inl ⟨.ok fd, some (stemOf t ++ six), [path]⟩
        -- `_close` and `_unlink`; the copy has put a terminator into the template
        | none => .inl ⟨.error .einval, some (stemOf t), []⟩
      else .inl ⟨.error .einval, some t, []⟩
    | .error e => if e = .eexist then .inr path else .inl ⟨.error e, some t, []⟩

/-- One round, with `buf` in the buffer. -/
def attempt (map : List Mapping) (t : CString) (after : List Char) (a : Attempt) (buf : CString) :
    MkstempResult ⊕ CString :=
  match (copyPath map maxPath a.scratch (some t) after).content buf with
  | none => .inl ⟨.error .einval, some t, []⟩
  | some path => tryPath t a path

/-- The rounds from the `i`-th on, `n` of them at most. -/
def rounds (map : List Mapping) (t : CString) (after : List Char) (attempts : ℕ → Attempt) :
    ℕ → ℕ → CString → MkstempResult
  | 0, _, _ => ⟨.error .eexist, some t, []⟩
  | n + 1, i, buf =>
    match attempt map t after (attempts i) buf with
    | .inl r => r
    | .inr buf' => rounds map t after attempts n (i + 1) buf'

/-- `wpdk_mkstemp`, with `after` behind the template in memory and `garbage` in the buffer. -/
def mkstemp (map : List Mapping) (after : List Char) (attempts : ℕ → Attempt) (garbage : CString)
    (template : Option CString) : MkstempResult :=
  match template with
  | none => ⟨.error .einval, none, []⟩
  | some t =>
    if IsTemplate t then rounds map t after attempts 26 0 garbage
    else ⟨.error .einval, some t, []⟩

/-! ## The file and its name -/

/-- **The template names the file that was created.**  With a descriptor, only the last six
characters of the template have changed, and `wpdk_get_path` finds the one file created; with an
error, the template is as it was and there is no such file. -/
structure NamesFile (map : List Mapping) (template : Option CString) (r : MkstempResult) :
    Prop where
  named : ∀ fd, r.ret = .ok fd → ∃ t t' path, template = some t ∧ r.template = some t' ∧
    t'.strlen = t.strlen ∧ stemOf t' = stemOf t ∧ r.created = [path] ∧
      ∀ scratch after, (getPathArg map maxPath scratch (some t') after).value t' = some path
  nothing : ∀ e, r.ret = .error e → r.template = template ∧ r.created = []

theorem namesFile_of_error {map : List Mapping} {template : Option CString} {e : Errno} :
    NamesFile map template ⟨.error e, template, []⟩ where
  named _ h := by cases h
  nothing _ _ := ⟨rfl, rfl⟩

/-- `wpdk_copy_path` fills the buffer: the path fits where it belongs, and is not found in the
dead array. -/
def Fills (map : List Mapping) (t : CString) : Prop :=
  (placeOf t).strlen < maxPath ∧ ¬ LeaksLocal map [] t

/-- The entry that applies to a path with `place` before its last six characters makes something of
it that is too long. -/
def NoRoom (map : List Mapping) (place : CString) : Prop :=
  ∃ e, map.find? (stemApplies place) = some e ∧
    maxPath ≤ e.dest.strlen + (place.drop e.len).strlen + 6

/-- What is behind a path with `place` before its last six characters does not decide which file is
created or found. -/
structure Undisturbed (map : List Mapping) (place : CString) : Prop where
  /-- Where there is room for the path, nothing behind it is read, whatever its last characters. -/
  found : ¬ NoRoom map place → ∀ (u : Suffix) (e : Mapping), ¬ Overreads map (place ++ u.str) e
  /-- Where there is none, an entry for which something behind the template is read has no room for
  a slash and six characters. -/
  refused : NoRoom map place → ∀ e, Overreads map (place ++ placeholder.str) e →
    maxPath ≤ e.dest.strlen + 7

section Templates

variable {map : List Mapping} {stem : CString}

theorem isTemplate_iff {t : CString} :
    IsTemplate t ↔ ∃ stem, t = stem ++ placeholder.str ∧ t.strlen < maxPath := by
  constructor
  · rintro ⟨-, hlen, hsix⟩
    refine ⟨stemOf t, ?_, hlen⟩
    rw [← hsix, stemOf_append_lastSix]
  · rintro ⟨stem, rfl, hlen⟩
    refine ⟨?_, hlen, lastSix_append stem placeholder⟩
    rw [CString.strlen_append, placeholder.strlen_eq]
    omega

theorem Fills.strlen_stemPlace (h : Fills map (stem ++ placeholder.str)) :
    (stemPlace stem).strlen + 6 < maxPath := by
  have hfit := h.1
  rwa [placeOf_append_suffix, CString.strlen_append, placeholder.strlen_eq] at hfit

theorem Fills.not_leaksLocal (h : Fills map (stem ++ placeholder.str)) (scratch : List Char) :
    ¬ LeaksLocal map scratch (stem ++ placeholder.str) :=
  fun hleak => h.2 hleak.nil

theorem NoRoom.stemPath_eq_null (h : NoRoom map (stemPlace stem)) :
    stemPath map maxPath stem = .null := by
  obtain ⟨e, hfind, hlong⟩ := h
  have hlook : stemLookup map maxPath (stemPlace stem) = .null := by
    rw [stemLookup, hfind]
    dsimp only
    rw [if_neg (Nat.not_lt.mpr hlong)]
  rw [stemPath, hlook]
  exact ite_self _

/-- Where there is room, the path is found, and is no longer than it may be. -/
theorem exists_value_of_not_noRoom (hlen : (stem ++ placeholder.str).strlen < maxPath)
    (hfills : Fills map (stem ++ placeholder.str)) (hroom : ¬ NoRoom map (stemPlace stem)) :
    ∃ s, (stemPath map maxPath stem).value stem = some s ∧ s.strlen + 6 < maxPath := by
  have hfit := hfills.strlen_stemPlace
  rw [CString.strlen_append, placeholder.strlen_eq] at hlen
  cases hfind : map.find? (stemApplies (stemPlace stem)) with
  | none =>
    -- no entry applies, so that the path is not one directly under `/`
    have hroot : stemRoot stem = false := by
      rw [Bool.eq_false_iff]
      intro hroot
      have hroot' : rootFile (stem ++ placeholder.str) = true :=
        (rootFile_append_suffix stem placeholder).trans hroot
      refine hfills.2 ⟨hroot', ?_, fun e he => ?_⟩
      · rw [tmp_append_suffix hroot', CString.strlen_append, placeholder.strlen_eq]
        exact hfit
      · rw [tmp_append_suffix hroot', applies_append_suffix_nil]
        simpa using List.find?_eq_none.mp hfind e he
    refine ⟨stem, ?_, hlen⟩
    rw [stemPath, if_neg (Nat.not_le.mpr hfit), stemLookup, hfind, hroot]
    rfl
  | some e =>
    have hshort : e.dest.strlen + ((stemPlace stem).drop e.len).strlen + 6 < maxPath :=
      Nat.lt_of_not_le fun hlong => hroom ⟨e, hfind, hlong⟩
    refine ⟨e.dest ++ (stemPlace stem).drop e.len, ?_, ?_⟩
    · rw [stemPath, if_neg (Nat.not_le.mpr hfit), stemLookup, hfind]
      dsimp only
      rw [if_pos hshort]
      rfl
    · rw [CString.strlen_append]
      exact hshort

end Templates

/-! ## The rounds -/

section Rounds

variable {map : List Mapping} {stem : CString} {after : List Char}

theorem mktemp_append (answer : Except Errno Suffix) (s : CString) :
    mktemp answer (s ++ placeholder.str) =
      match answer with
      | .error e => .error e
      | .ok u => .ok (s ++ u.str) := by
  unfold mktemp
  rw [if_pos (lastSix_append s placeholder), stemOf_append]

/-- A round on the path that `wpdk_get_path` finds for the template. -/
theorem namesFile_tryPath {s : CString} {a : Attempt} {r : MkstempResult}
    (hplace : ∀ (u : Suffix) scratch after,
      (getPath map maxPath scratch (stem ++ u.str) after).value (stem ++ u.str) =
        some (s ++ u.str))
    (h : tryPath (stem ++ placeholder.str) a (s ++ placeholder.str) = .inl r) :
    NamesFile map (some (stem ++ placeholder.str)) r := by
  rw [tryPath, mktemp_append] at h
  cases hmk : a.mktemp with
  | error e =>
    rw [hmk] at h
    obtain rfl := Sum.inl.inj h
    exact namesFile_of_error
  | ok u =>
    rw [hmk] at h
    dsimp only at h
    cases hopen : a.opened with
    | error e =>
      rw [hopen] at h
      dsimp only at h
      split_ifs at h
      obtain rfl := Sum.inl.inj h
      exact namesFile_of_error
    | ok fd =>
      rw [hopen, lastSix_append, strcpyS, u.strlen_eq, if_pos (by decide), stemOf_append] at h
      dsimp only at h
      split_ifs at h with hfit
      · obtain rfl := Sum.inl.inj h
        refine ⟨fun fd' _ => ⟨_, _, s ++ u.str, rfl, rfl, ?_, ?_, rfl, hplace u⟩,
          fun e he => by cases he⟩
        · rw [CString.strlen_append, CString.strlen_append, u.strlen_eq, placeholder.strlen_eq]
        · rw [stemOf_append, stemOf_append]
      · obtain rfl := Sum.inl.inj h
        exact namesFile_of_error

/-- A round on a path that does not end like a template fails in `_mktemp`. -/
theorem tryPath_of_lastSix_ne (t : CString) (a : Attempt) {path : CString}
    (h : lastSix path ≠ placeholder.str) :
    tryPath t a path = .inl ⟨.error .einval, some t, []⟩ := by
  have hmk : mktemp a.mktemp path = .error .einval := if_neg h
  rw [tryPath, hmk]

/-- A slash in the last six characters. -/
theorem lastSix_append_ne {s tail : CString} (hhead : tail.chars.head? = some '/')
    (hlen : tail.strlen ≤ 6) : lastSix (s ++ tail) ≠ placeholder.str := by
  intro h
  rw [lastSix, CString.strlen_append, drop_append s tail (by omega)] at h
  refine placeholder.slash_notMem (h ▸ ?_)
  rw [CString.chars_append]
  exact List.mem_append_right _ (List.mem_of_head? hhead)

variable (hlen : (stem ++ placeholder.str).strlen < maxPath)
  (hfills : Fills map (stem ++ placeholder.str))

include hlen hfills

theorem attempt_of_fills (a : Attempt) (buf : CString) :
    attempt map (stem ++ placeholder.str) after a buf =
      tryPath (stem ++ placeholder.str) a
        (((getPath map maxPath a.scratch (stem ++ placeholder.str) after).value
          (stem ++ placeholder.str)).getD (CString.lit "")) := by
  rw [attempt, content_copyPath_of_fits buf hlen hfills.1 (hfills.not_leaksLocal a.scratch)]

/-- Where there is no room for the path, every round fails, whatever is behind the template. -/
theorem attempt_of_noRoom (hroom : NoRoom map (stemPlace stem))
    (hover : ∀ e, Overreads map (stemPlace stem ++ placeholder.str) e →
      maxPath ≤ e.dest.strlen + 7) (a : Attempt) (buf : CString) :
    attempt map (stem ++ placeholder.str) after a buf =
      .inl ⟨.error .einval, some (stem ++ placeholder.str), []⟩ := by
  rw [attempt_of_fills hlen hfills]
  refine tryPath_of_lastSix_ne _ a ?_
  rcases find?_append_suffix_or map (stemPlace stem) placeholder
    (if stemRoot stem then a.scratch else after) with hfind | ⟨e, hfind, hreads⟩
  · rw [value_append_suffix maxPath hfind, hroom.stemPath_eq_null, PathResult.value,
      Option.map_none]
    decide
  · rw [value_of_find? hfills.strlen_stemPlace hfind]
    generalize (if stemRoot stem = true then a.scratch else after) = memory at hfind ⊢
    dsimp only
    split_ifs with hfit
    · refine lastSix_append_ne (head?_ofMemory_of_find? hfind) ?_
      have hlong := hover e hreads
      omega
    · decide

theorem namesFile_attempt (hquiet : Undisturbed map (stemPlace stem)) {a : Attempt} {buf : CString}
    {r : MkstempResult} (h : attempt map (stem ++ placeholder.str) after a buf = .inl r) :
    NamesFile map (some (stem ++ placeholder.str)) r := by
  by_cases hroom : NoRoom map (stemPlace stem)
  · rw [attempt_of_noRoom hlen hfills hroom (hquiet.refused hroom)] at h
    obtain rfl := Sum.inl.inj h
    exact namesFile_of_error
  · obtain ⟨s, hvalue, -⟩ := exists_value_of_not_noRoom hlen hfills hroom
    have hplace (u : Suffix) (scratch after : List Char) :
        (getPath map maxPath scratch (stem ++ u.str) after).value (stem ++ u.str) =
          some (s ++ u.str) := by
      rw [value_append_suffix maxPath (find?_append_suffix u (hquiet.found hroom u) _), hvalue,
        Option.map_some]
    rw [attempt_of_fills hlen hfills, hplace placeholder, Option.getD_some] at h
    exact namesFile_tryPath hplace h

/-- **Every run of the loop**, by induction on the rounds that are left. -/
theorem namesFile_rounds (hquiet : Undisturbed map (stemPlace stem)) (attempts : ℕ → Attempt)
    (n i : ℕ) (buf : CString) :
    NamesFile map (some (stem ++ placeholder.str))
      (rounds map (stem ++ placeholder.str) after attempts n i buf) := by
  induction n generalizing i buf with
  | zero => exact namesFile_of_error
  | succ n ih =>
    rw [rounds]
    cases hround : attempt map (stem ++ placeholder.str) after (attempts i) buf with
    | inl r => exact namesFile_attempt hlen hfills hquiet hround
    | inr buf' => exact ih (i + 1) buf'

end Rounds

/-! ## The other file -/

/-- Answers with which every round succeeds at once. -/
def lucky (scratch : List Char) (u : Suffix) : Attempt := ⟨scratch, .ok u, .ok 3⟩

/-- Six characters that `_mktemp` may find. -/
def foundSix : Suffix := ⟨CString.lit "aaaaaa", by decide, by decide⟩

/-- More than the buffer has room for. -/
def longTail : CString :=
  ⟨List.replicate maxPath 'x', fun h => absurd (List.eq_of_mem_replicate h) (by decide)⟩

section OtherFile

variable {map : List Mapping} {stem : CString} {after : List Char}

theorem tryPath_lucky (scratch : List Char) (u : Suffix) {s : CString}
    (hs : s.strlen + 6 < maxPath) :
    tryPath (stem ++ placeholder.str) (lucky scratch u) (s ++ placeholder.str) =
      .inl ⟨.ok 3, some (stem ++ u.str), [s ++ u.str]⟩ := by
  have hfit : 6 ≤ (s ++ u.str).strlen ∧ (s ++ u.str).strlen < maxPath := by
    rw [CString.strlen_append, u.strlen_eq]
    exact ⟨Nat.le_add_left 6 _, hs⟩
  rw [tryPath, mktemp_append]
  dsimp only [lucky]
  rw [if_pos hfit, lastSix_append, strcpyS, u.strlen_eq, if_pos (by decide), stemOf_append]

/-- Where the path is found, the file is created under it. -/
theorem rounds_lucky {scratch : List Char} (u : Suffix) {s : CString} (n i : ℕ) (buf : CString)
    (hlen : (stem ++ placeholder.str).strlen < maxPath)
    (hfills : Fills map (stem ++ placeholder.str)) (hs : s.strlen + 6 < maxPath)
    (hvalue : (getPath map maxPath scratch (stem ++ placeholder.str) after).value
      (stem ++ placeholder.str) = some (s ++ placeholder.str)) :
    rounds map (stem ++ placeholder.str) after (fun _ => lucky scratch u) (n + 1) i buf =
      ⟨.ok 3, some (stem ++ u.str), [s ++ u.str]⟩ := by
  rw [rounds, attempt_of_fills hlen hfills, show (lucky scratch u).scratch = scratch from rfl,
    hvalue, Option.getD_some, tryPath_lucky scratch u hs]

/-- Where the buffer is not filled, the round works on what is in it. -/
theorem rounds_of_not_fills (u : Suffix) (n i : ℕ)
    (h : maxPath ≤ (placeOf (stem ++ placeholder.str)).strlen ∨
      LeaksLocal map [] (stem ++ placeholder.str)) :
    rounds map (stem ++ placeholder.str) after (fun _ => lucky [] u) (n + 1) i
        (CString.lit "g" ++ placeholder.str) =
      ⟨.ok 3, some (stem ++ u.str), [CString.lit "g" ++ u.str]⟩ := by
  rw [rounds, attempt, show (lucky [] u).scratch = [] from rfl,
    content_copyPath_of_not_fits _ h (append_suffix_ne_nil stem placeholder)]
  dsimp only
  rw [tryPath_lucky [] u (by decide)]

/-- `wpdk_get_path` finds nothing for a template that does not fill the buffer. -/
theorem value_of_not_fills (after : List Char)
    (h : maxPath ≤ (placeOf (stem ++ placeholder.str)).strlen ∨
      LeaksLocal map [] (stem ++ placeholder.str)) :
    (getPath map maxPath [] (stem ++ placeholder.str) after).value (stem ++ placeholder.str) =
      none := by
  rcases getPath_cases map maxPath [] (stem ++ placeholder.str) after with
    ⟨hnil, -⟩ | ⟨-, hget⟩ | ⟨-, hget⟩ | ⟨-, hfit, hkeep, -⟩
  · exact absurd hnil (append_suffix_ne_nil stem placeholder)
  · rw [hget]
    rfl
  · rw [hget]
    rfl
  · rcases h with hlong | hleak
    · exact absurd hfit (Nat.not_lt.mpr hlong)
    · exact absurd hleak hkeep

/-- Another file, if nothing is found for the new template with some memory behind it. -/
theorem not_namesFile {t t' path : CString} (scratch after : List Char)
    (hnone : (getPath map maxPath scratch t' after).value t' = none) :
    ¬ NamesFile map (some t) ⟨.ok 3, some t', [path]⟩ := by
  intro h
  obtain ⟨_, t'', _, -, ht', -, -, -, hplace⟩ := h.named 3 rfl
  obtain rfl := Option.some.inj ht'
  have hsome := hplace scratch after
  rw [getPathArg, hnone] at hsome
  cases hsome

variable (hlen : (stem ++ placeholder.str).strlen < maxPath)
  (hnames : ∀ after attempts garbage, NamesFile map (some (stem ++ placeholder.str))
    (rounds map (stem ++ placeholder.str) after attempts 26 0 garbage))

include hnames

theorem fills_of_namesFile : Fills map (stem ++ placeholder.str) := by
  by_contra hnot
  rw [Fills, not_and_or, Nat.not_lt, not_not] at hnot
  have h := hnames [] (fun _ => lucky [] foundSix) (CString.lit "g" ++ placeholder.str)
  rw [rounds_of_not_fills foundSix 25 0 hnot] at h
  -- nothing is found for the template, so nothing is found with other characters at its end
  have hnone := value_of_not_fills [] hnot
  rw [value_append_suffix_nil, Option.map_eq_none_iff] at hnone
  refine not_namesFile [] [] ?_ h
  rw [value_append_suffix_nil, hnone, Option.map_none]

include hlen

theorem undisturbed_of_namesFile : Undisturbed map (stemPlace stem) := by
  have hfills := fills_of_namesFile hnames
  constructor
  · -- the file is created with nothing behind the template, and not found with something there
    intro hroom u e hover
    obtain ⟨s, hvalue, hs⟩ := exists_value_of_not_noRoom hlen hfills hroom
    have h := hnames [] (fun _ => lucky [] u) (CString.lit "")
    rw [rounds_lucky u 25 0 _ hlen hfills hs
      (by rw [value_append_suffix_nil, hvalue, Option.map_some])] at h
    have hslash : '/' ∉ longTail.chars := fun hin =>
      absurd (List.eq_of_mem_replicate hin) (by decide)
    obtain ⟨memory, hfind, htail⟩ := hover.exists_tail hslash
    refine not_namesFile memory memory ?_ h
    rw [value_of_find?_same hfills.strlen_stemPlace hfind]
    dsimp only
    rw [if_neg]
    rw [CString.strlen, CString.strlen, htail, List.length_cons, longTail, List.length_replicate]
    omega
  · -- the file is created with something behind the template, and not found with nothing there
    intro hroom e hover
    by_contra hshort
    obtain ⟨memory, hfind, htail⟩ := hover.exists_tail placeholder.slash_notMem
    have htail' : CString.ofMemory ((stemPlace stem ++ placeholder.str).memory memory) e.len =
        CString.lit "/" ++ placeholder.str := CString.ext htail
    have h := hnames memory (fun _ => lucky memory foundSix) (CString.lit "")
    rw [rounds_lucky (s := e.dest ++ CString.lit "/") foundSix 25 0 _ hlen hfills] at h
    · refine not_namesFile [] [] ?_ h
      rw [value_append_suffix_nil, hroom.stemPath_eq_null]
      rfl
    · rw [CString.strlen_append, show (CString.lit "/").strlen = 1 from rfl]
      omega
    · rw [value_of_find?_same hfills.strlen_stemPlace hfind, htail']
      dsimp only
      rw [if_pos]
      · exact congrArg some (CString.ext (by simp))
      · rw [CString.strlen_append, placeholder.strlen_eq,
          show (CString.lit "/").strlen = 1 from rfl]
        omega

end OtherFile

/-- For every table and every template, the template names the file that was created, whatever is in
the buffer, in the dead array and behind the template, and however the calls end, if and only if
`wpdk_copy_path` fills the buffer and what is behind the path does not decide which file is
meant. -/
theorem mkstemp_names_file_iff (map : List Mapping) (template : Option CString) :
    (∀ after attempts garbage,
        NamesFile map template (mkstemp map after attempts garbage template)) ↔
      ∀ t, template = some t → IsTemplate t →
        Fills map t ∧ Undisturbed map (stemPlace (stemOf t)) := by
  constructor
  · rintro h t rfl ht
    have hrounds : ∀ after attempts garbage,
        NamesFile map (some t) (rounds map t after attempts 26 0 garbage) := by
      intro after attempts garbage
      have hnames := h after attempts garbage
      rwa [mkstemp, if_pos ht] at hnames
    obtain ⟨stem, rfl, hlen⟩ := isTemplate_iff.mp ht
    rw [stemOf_append]
    exact ⟨fills_of_namesFile hrounds, undisturbed_of_namesFile hlen hrounds⟩
  · intro h after attempts garbage
    cases template with
    | none => exact namesFile_of_error
    | some t =>
      rw [mkstemp]
      by_cases ht : IsTemplate t
      · rw [if_pos ht]
        obtain ⟨hfills, hquiet⟩ := h t rfl ht
        obtain ⟨stem, rfl, hlen⟩ := isTemplate_iff.mp ht
        rw [stemOf_append] at hquiet
        exact namesFile_rounds hlen hfills hquiet attempts 26 0 garbage
      · rw [if_neg ht]
        exact namesFile_of_error

/-- A table with one entry that applies to `/a/XXXXXX`, and has no room for it, behind one that is
recorded as longer than it is, and is for another name. -/
def crowdedTable : List Mapping :=
  [⟨CString.lit "/a/abcdef", CString.lit "C:", 10⟩,
    ⟨CString.lit "/a", ⟨List.replicate 258 'T', fun h => absurd (List.eq_of_mem_replicate h)
      (by decide)⟩, 2⟩]

/-- With `/tmp` mapped, the buffer is filled for the template `/fXXXXXX`, and the template names the
file that is created.  With the crowded table no file is created for `/a/XXXXXX`. -/
theorem mkstemp_names_file_tmp :
    (∀ after attempts garbage,
      NamesFile [⟨CString.lit "/tmp", CString.lit "T", 4⟩] (some (CString.lit "/fXXXXXX"))
        (mkstemp [⟨CString.lit "/tmp", CString.lit "T", 4⟩] after attempts garbage
          (some (CString.lit "/fXXXXXX")))) ∧
    NoRoom crowdedTable (CString.lit "/a/") ∧
    ∀ after attempts garbage, NamesFile crowdedTable (some (CString.lit "/a/XXXXXX"))
      (mkstemp crowdedTable after attempts garbage (some (CString.lit "/a/XXXXXX"))) := by
  have hroom : NoRoom crowdedTable (CString.lit "/a/") :=
    ⟨_, rfl, by decide +kernel⟩
  refine ⟨(mkstemp_names_file_iff _ _).mpr ?_, hroom, (mkstemp_names_file_iff _ _).mpr ?_⟩
  · rintro t ht -
    obtain rfl := Option.some.inj ht
    have hshort (u : Suffix) (e : Mapping) :
        ¬ Overreads [⟨CString.lit "/tmp", CString.lit "T", 4⟩]
          (CString.lit "/tmp/f" ++ u.str) e := by
      rintro ⟨hlen, memory, hfind⟩
      obtain rfl := List.mem_singleton.mp (List.mem_of_find?_eq_some hfind)
      rw [CString.strlen_append, u.strlen_eq] at hlen
      exact absurd hlen (by decide)
    exact ⟨⟨by decide, fun hleak => absurd (hleak.2.2 _ List.mem_cons_self) (by decide)⟩,
      fun _ u e => hshort u e, fun _ e hover => absurd hover (hshort placeholder e)⟩
  · rintro t ht -
    obtain rfl := Option.some.inj ht
    refine ⟨⟨by decide, fun hleak => absurd hleak.1 (by decide)⟩, fun hnot => absurd hroom hnot,
      fun _ e hover => ?_⟩
    obtain ⟨hlen, memory, hfind⟩ := hover
    have happ := List.find?_some hfind
    rcases List.mem_cons.mp (List.mem_of_find?_eq_some hfind) with rfl | hmem
    · rw [applies, Bool.and_eq_true] at happ
      exact absurd happ.1 (by decide)
    · obtain rfl := List.mem_singleton.mp hmem
      exact absurd hlen (by decide)

/-- The template does not name the file.  With an empty table the buffer is not filled for
`/fXXXXXX`: the file is named by what is on the stack, and for the new template `wpdk_get_path`
returns the dead array.  With `/a//XXXXXX` mapped to `C:`, the entry is for `/a/XXXXXX` with the
length 10: with `/qXXXXXX` behind the template in memory the file is `C:/qaaaaaa`, while the new
template stands for `/a/aaaaaa`. -/
theorem mkstemp_names_another_file :
    (¬ Fills [] (CString.lit "/fXXXXXX") ∧
      mkstemp [] [] (fun _ => lucky [] foundSix) (CString.lit "gXXXXXX")
          (some (CString.lit "/fXXXXXX")) =
        ⟨.ok 3, some (CString.lit "/faaaaaa"), [CString.lit "gaaaaaa"]⟩ ∧
      getPath [] maxPath [] (CString.lit "/faaaaaa") [] = .calleeLocal) ∧
    ∃ e : Mapping, addMapping [] ⟨CString.lit "/a//XXXXXX", some (CString.lit "C:"), false⟩
        ⟨true, true, true⟩ = [e] ∧
      mkstemp [e] "/qXXXXXX".toList (fun _ => lucky [] foundSix) (CString.lit "")
          (some (CString.lit "/a/XXXXXX")) =
        ⟨.ok 3, some (CString.lit "/a/aaaaaa"), [CString.lit "C:/qaaaaaa"]⟩ ∧
      getPath [e] maxPath [] (CString.lit "/a/aaaaaa") "/qXXXXXX".toList = .path := by
  have htemplate : CString.lit "/fXXXXXX" = CString.lit "/f" ++ placeholder.str := by decide
  have hleak : LeaksLocal [] [] (CString.lit "/fXXXXXX") :=
    ⟨by decide, by decide, fun e he => absurd he List.not_mem_nil⟩
  refine ⟨⟨fun h => h.2 hleak, ?_, ?_⟩, ⟨CString.lit "/a/XXXXXX", CString.lit "C:", 10⟩,
    by decide, ?_, ?_⟩
  · rw [mkstemp, if_pos (by decide), htemplate,
      show CString.lit "gXXXXXX" = CString.lit "g" ++ placeholder.str by decide,
      rounds_of_not_fills foundSix 25 0 (Or.inr (htemplate ▸ hleak))]
    rfl
  · rw [getPath_of_rootFile (by decide) (by decide)]
    decide
  · have hkeep : ¬ LeaksLocal [⟨CString.lit "/a/XXXXXX", CString.lit "C:", 10⟩] []
        (CString.lit "/a/XXXXXX") := fun h => absurd h.1 (by decide)
    rw [mkstemp, if_pos (by decide), rounds, attempt,
      show (lucky [] foundSix).scratch = [] from rfl,
      content_copyPath_of_fits _ (by decide) (by decide) hkeep,
      getPath_of_not_rootFile (by decide) (by decide) (by decide)]
    rfl
  · rw [getPath_of_not_rootFile (by decide) (by decide) (by decide)]
    decide

end Stdlib
end Wpdk
