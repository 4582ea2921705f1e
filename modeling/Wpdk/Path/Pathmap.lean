import Wpdk.Path.Lookup

/-!
# The variable `WPDKPATHMAP`

`wpdk_add_pathmap` of `fcntl.c` steps through a list of assignments `dir=dest` with semicolons
between them, and calls `wpdk_add_mapping` for each.  The two components are copied into arrays of
`MAX_PATH` bytes by `strncpy_s` and `strcpy_s`; a component that does not fit leaves the empty
string there, and the call is made all the same.  An empty `dir` is a directory that every absolute
path is in.

* `pathmapIteration`, `pathmapLoop`: one iteration, and the loop with a bound on their number;
  `pathmapLoop_eq` says that the loop ends.
* `Assignment`, `render`: the format.
* `addPathmap_render`: the calls made for a list in the format.
* `pathmap_inverts_format_iff`: they are the calls asked for exactly if every component fits.
-/

namespace Wpdk
namespace Path

/-! ## The loop -/

/-- One iteration, for `cp` not null: `none` if it breaks, and otherwise the call that is made and
the next value of `cp`. -/
def pathmapIteration (cp : CString) : Option (MapRequest × Option CString) :=
  match strchr cp.chars '=' with
  | none => none
  | some i =>
    let value := cp.drop (i + 1)
    match strchr value.chars ';' with
    | none => some (⟨copyOrEmpty (cp.take i), some (copyOrEmpty value), false⟩, none)
    | some j =>
      some (⟨copyOrEmpty (cp.take i), some (copyOrEmpty (value.take j)), false⟩,
        some (value.drop (j + 1)))

/-- At most `n` iterations, with the calls made if the loop has ended by then. -/
def pathmapLoop : ℕ → Option CString → Option (List MapRequest)
  | _, none => some []
  | 0, some _ => none
  | n + 1, some cp =>
    match pathmapIteration cp with
    | none => some []
    | some (r, cp') => (pathmapLoop n cp').map (r :: ·)

/-- An iteration breaks with nothing to be done, or makes the first call of what is to be done and
moves `cp` forward. -/
theorem pathmapIteration_cases (cp : CString) :
    (pathmapIteration cp = none ∧ addPathmap cp = []) ∨
      ∃ r cp', pathmapIteration cp = some (r, cp') ∧
        addPathmap cp = r :: cp'.elim [] addPathmap ∧ ∀ c ∈ cp', c.strlen < cp.strlen := by
  rw [addPathmap, pathmapIteration]
  cases hi : strchr cp.chars '=' with
  | none => exact Or.inl ⟨rfl, rfl⟩
  | some i =>
    have hlt : i < cp.chars.length := (List.findIdx?_eq_some_iff_getElem.mp hi).1
    dsimp only
    cases hj : strchr (cp.drop (i + 1)).chars ';' with
    | none => exact Or.inr ⟨_, none, rfl, rfl, fun c hc => by cases hc⟩
    | some j =>
      refine Or.inr ⟨_, some _, rfl, rfl, fun c hc => ?_⟩
      cases hc
      simp only [CString.strlen, CString.drop, List.length_drop]
      omega

theorem addPathmap_of_break {cp : CString} (h : pathmapIteration cp = none) :
    addPathmap cp = [] := by
  rcases pathmapIteration_cases cp with ⟨-, hadd⟩ | ⟨r, cp', hstep, -⟩
  · exact hadd
  · rw [h] at hstep
    cases hstep

theorem addPathmap_of_iteration {cp : CString} {r : MapRequest} {cp' : Option CString}
    (h : pathmapIteration cp = some (r, cp')) :
    addPathmap cp = r :: cp'.elim [] addPathmap := by
  rcases pathmapIteration_cases cp with ⟨hnone, -⟩ | ⟨r', cp'', hstep, hadd, -⟩
  · rw [h] at hnone
    cases hnone
  · rw [h] at hstep
    cases hstep
    exact hadd

/-- **The loop ends**, after at most as many iterations as the string has characters and one
more. -/
theorem pathmapLoop_eq {n : ℕ} {cp : CString} (hn : cp.strlen < n) :
    pathmapLoop n (some cp) = some (addPathmap cp) := by
  induction n generalizing cp with
  | zero => exact absurd hn (Nat.not_lt_zero _)
  | succ n ih =>
    rw [pathmapLoop]
    rcases pathmapIteration_cases cp with ⟨hstep, hadd⟩ | ⟨r, cp', hstep, hadd, hshort⟩
    · rw [hstep, hadd]
    · rw [hstep, hadd]
      dsimp only
      cases cp' with
      | none => cases n <;> rfl
      | some cp' =>
        have hlt := hshort cp' rfl
        rw [ih (by omega)]
        rfl

/-! ## The format -/

/-- A pair that can be written as `dir=dest`. -/
structure Assignment where
  dir : CString
  dest : CString
  dir_ne_nil : dir.chars ≠ []
  equals_notMem_dir : '=' ∉ dir.chars
  semicolon_notMem_dir : ';' ∉ dir.chars
  semicolon_notMem_dest : ';' ∉ dest.chars

namespace Assignment

/-- `dir=dest`. -/
def chars (a : Assignment) : List Char := a.dir.chars ++ '=' :: a.dest.chars

/-- Both components fit an array of `MAX_PATH` bytes. -/
def Fits (a : Assignment) : Prop := a.dir.strlen < maxPath ∧ a.dest.strlen < maxPath

instance (a : Assignment) : Decidable a.Fits := inferInstanceAs (Decidable (_ ∧ _))

/-- The call of `wpdk_add_mapping` that is asked for. -/
def request (a : Assignment) : MapRequest := ⟨a.dir, some a.dest, false⟩

/-- The call that is made. -/
def call (a : Assignment) : MapRequest := ⟨copyOrEmpty a.dir, some (copyOrEmpty a.dest), false⟩

theorem copyOrEmpty_of_lt {s : CString} (h : s.strlen < maxPath) : copyOrEmpty s = s := by
  rw [copyOrEmpty, strcpyS, if_pos h, Option.getD_some]

theorem call_of_fits {a : Assignment} (h : a.Fits) : a.call = a.request := by
  rw [call, request, copyOrEmpty_of_lt h.1, copyOrEmpty_of_lt h.2]

theorem nul_notMem_chars (a : Assignment) : nul ∉ a.chars := by
  rw [chars, List.mem_append, List.mem_cons, not_or, not_or]
  exact ⟨a.dir.nul_notMem, by decide, a.dest.nul_notMem⟩

end Assignment

/-- The assignments with semicolons between them, and one at the end if `trailing`. -/
def renderChars (pairs : List Assignment) (trailing : Bool) : List Char :=
  List.intercalate [';'] (pairs.map Assignment.chars) ++ if trailing then [';'] else []

theorem renderChars_cons_cons (a b : Assignment) (pairs : List Assignment) (trailing : Bool) :
    renderChars (a :: b :: pairs) trailing =
      a.chars ++ ';' :: renderChars (b :: pairs) trailing := by
  simp [renderChars, List.intercalate_cons_cons]

theorem nul_notMem_renderChars (pairs : List Assignment) (trailing : Bool) :
    nul ∉ renderChars pairs trailing := by
  induction pairs with
  | nil => cases trailing <;> decide
  | cons a pairs ih =>
    cases pairs with
    | nil =>
      have ha := a.nul_notMem_chars
      cases trailing with
      | false => simpa [renderChars] using ha
      | true => simpa [renderChars] using ⟨ha, by decide⟩
    | cons b pairs =>
      rw [renderChars_cons_cons, List.mem_append, List.mem_cons, not_or, not_or]
      exact ⟨a.nul_notMem_chars, by decide, ih⟩

/-- The value of `WPDKPATHMAP` for a list of assignments. -/
def render (pairs : List Assignment) (trailing : Bool) : CString :=
  ⟨renderChars pairs trailing, nul_notMem_renderChars pairs trailing⟩

/-! ## The calls that are made -/

section Parse

variable {cp : CString} (a : Assignment)

theorem iteration_of_chars_eq {tail : List Char}
    (h : cp.chars = a.dir.chars ++ '=' :: tail) :
    pathmapIteration cp =
      match strchr tail ';' with
      | none => some (⟨copyOrEmpty a.dir, some (copyOrEmpty (cp.drop (a.dir.strlen + 1))), false⟩,
          none)
      | some j =>
        some (⟨copyOrEmpty a.dir,
            some (copyOrEmpty ((cp.drop (a.dir.strlen + 1)).take j)), false⟩,
          some ((cp.drop (a.dir.strlen + 1)).drop (j + 1))) := by
  have hfound : strchr cp.chars '=' = some a.dir.strlen := by
    rw [h]
    exact strchr_append_cons a.equals_notMem_dir
  have hdir : cp.take a.dir.strlen = a.dir := by
    ext1
    show cp.chars.take a.dir.chars.length = a.dir.chars
    rw [h, List.take_left]
  have htail : (cp.drop (a.dir.strlen + 1)).chars = tail := by
    show cp.chars.drop (a.dir.chars.length + 1) = tail
    rw [h, ← List.drop_drop, List.drop_left, List.drop_one, List.tail_cons]
  rw [pathmapIteration, hfound]
  dsimp only
  rw [hdir, htail]

/-- The last assignment, without a semicolon behind it. -/
theorem addPathmap_last (h : cp.chars = a.chars) : addPathmap cp = [a.call] := by
  have hstep := iteration_of_chars_eq a h
  rw [strchr_eq_none a.semicolon_notMem_dest] at hstep
  have hdest : cp.drop (a.dir.strlen + 1) = a.dest := by
    ext1
    show cp.chars.drop (a.dir.chars.length + 1) = a.dest.chars
    rw [h, Assignment.chars, ← List.drop_drop, List.drop_left, List.drop_one, List.tail_cons]
  rw [addPathmap_of_iteration hstep, hdest]
  rfl

/-- An assignment with a semicolon behind it. -/
theorem addPathmap_next (rest : CString) (h : cp.chars = a.chars ++ ';' :: rest.chars) :
    addPathmap cp = a.call :: addPathmap rest := by
  have hchars : cp.chars = a.dir.chars ++ '=' :: (a.dest.chars ++ ';' :: rest.chars) := by
    rw [h, Assignment.chars, List.append_assoc, List.cons_append]
  have hstep := iteration_of_chars_eq a hchars
  rw [strchr_append_cons a.semicolon_notMem_dest] at hstep
  have hvalue : (cp.drop (a.dir.strlen + 1)).chars = a.dest.chars ++ ';' :: rest.chars := by
    show cp.chars.drop (a.dir.chars.length + 1) = _
    rw [hchars, ← List.drop_drop, List.drop_left, List.drop_one, List.tail_cons]
  have hdest : (cp.drop (a.dir.strlen + 1)).take a.dest.chars.length = a.dest := by
    ext1
    show (cp.drop (a.dir.strlen + 1)).chars.take a.dest.chars.length = a.dest.chars
    rw [hvalue, List.take_left]
  have hrest : (cp.drop (a.dir.strlen + 1)).drop (a.dest.chars.length + 1) = rest := by
    ext1
    show (cp.drop (a.dir.strlen + 1)).chars.drop (a.dest.chars.length + 1) = rest.chars
    rw [hvalue, ← List.drop_drop, List.drop_left, List.drop_one, List.tail_cons]
  rw [addPathmap_of_iteration hstep, hdest, hrest]
  rfl

end Parse

theorem addPathmap_of_no_equals {cp : CString} (h : '=' ∉ cp.chars) : addPathmap cp = [] := by
  refine addPathmap_of_break ?_
  rw [pathmapIteration, strchr_eq_none h]

/-- **The calls made for a list of assignments**: one for each of them, in order. -/
theorem addPathmap_render (pairs : List Assignment) (trailing : Bool) :
    addPathmap (render pairs trailing) = pairs.map Assignment.call := by
  induction pairs with
  | nil =>
    refine addPathmap_of_no_equals ?_
    cases trailing <;> decide
  | cons a pairs ih =>
    cases pairs with
    | nil =>
      cases trailing with
      | false =>
        refine addPathmap_last a ?_
        simp [render, renderChars]
      | true =>
        have hnil : addPathmap (CString.lit "") = [] := addPathmap_of_no_equals (by decide)
        rw [addPathmap_next a (CString.lit ""), hnil]
        · rfl
        · simp [render, renderChars, CString.lit, CString.ofMemory]
    | cons b pairs =>
      rw [addPathmap_next a (render (b :: pairs) trailing), ih]
      · rfl
      · exact renderChars_cons_cons a b pairs trailing

/-! ## The mappings that are installed -/

/-- The table after a list of calls; `fate i` says how the calls that can fail end in the
`i`-th. -/
def addAll (fate : ℕ → Fate) (map : List Mapping) (requests : List MapRequest) : List Mapping :=
  (requests.mapIdx fun i r => (r, fate i)).foldl
    (fun map call => addMapping map call.1 call.2) map

theorem mem_addMapping {map : List Mapping} {r : MapRequest} {f : Fate} {e : Mapping}
    (he : e ∈ addMapping map r f) : e ∈ map ∨ newMapping map r f = .ok e := by
  unfold addMapping at he
  cases hnew : newMapping map r f with
  | error refusal =>
    rw [hnew] at he
    exact Or.inl he
  | ok m =>
    rw [hnew] at he
    rcases mem_insertMapping.mp he with rfl | hin
    · exact Or.inr rfl
    · exact Or.inl hin

/-- Every entry was there before, or comes from one of the calls. -/
theorem mem_foldl_addMapping {calls : List (MapRequest × Fate)} {map : List Mapping} {e : Mapping}
    (he : e ∈ calls.foldl (fun map call => addMapping map call.1 call.2) map) :
    e ∈ map ∨ ∃ call ∈ calls, ∃ map', newMapping map' call.1 call.2 = .ok e := by
  induction calls generalizing map with
  | nil => exact Or.inl he
  | cons call calls ih =>
    rw [List.foldl_cons] at he
    rcases ih he with hin | ⟨call', hcall', hnew⟩
    · rcases mem_addMapping hin with hin | hnew
      · exact Or.inl hin
      · exact Or.inr ⟨call, List.mem_cons_self, map, hnew⟩
    · exact Or.inr ⟨call', List.mem_cons_of_mem _ hcall', hnew⟩

theorem mem_addAll {fate : ℕ → Fate} {map : List Mapping} {requests : List MapRequest}
    {e : Mapping} (he : e ∈ addAll fate map requests) :
    e ∈ map ∨ ∃ r ∈ requests, ∃ map' f, newMapping map' r f = .ok e := by
  rcases mem_foldl_addMapping he with hin | ⟨call, hcall, map', hnew⟩
  · exact Or.inl hin
  · obtain ⟨i, hi, rfl⟩ := List.mem_mapIdx.mp hcall
    exact Or.inr ⟨_, List.getElem_mem hi, map', fate i, hnew⟩

/-- The entry that an assignment asks for. -/
def Assignment.mapping (a : Assignment) : Mapping := ⟨storedDir a.dir, a.dest, a.dir.strlen⟩

/-- A call without the destination prefix stores the destination as it is. -/
theorem Assignment.mapping_of_newMapping {map : List Mapping} {a : Assignment} {f : Fate}
    {m : Mapping} (h : newMapping map a.request f = .ok m) : m = a.mapping := by
  obtain ⟨dest, hdest, hpath, -, hdir, hlen⟩ := newMapping_ok_spec h
  obtain rfl := Option.some.inj hdest
  have hcopy : a.dest = m.dest := by
    rw [destPath_eq, show a.request.pfx = false from rfl] at hpath
    simp only [Bool.false_eq_true, if_false] at hpath
    split_ifs at hpath
    exact Option.some.inj hpath
  obtain ⟨dir, dest, len⟩ := m
  cases hdir
  cases hcopy
  cases hlen
  rfl

/-! ## Inverting the format -/

/-- **The parser inverts its format**: the calls made are those for the assignments that fit, in
order, and what is installed comes from one of those. -/
structure InvertsFormat (pairs : List Assignment) (trailing : Bool) : Prop where
  calls : addPathmap (render pairs trailing) =
    (pairs.filter fun a => a.Fits).map Assignment.request
  installed : ∀ fate map, ∀ e ∈ addAll fate map (addPathmap (render pairs trailing)),
    e ∈ map ∨ ∃ a ∈ pairs, a.Fits ∧ e = a.mapping

theorem invertsFormat_of_fits {pairs : List Assignment} (trailing : Bool)
    (h : ∀ a ∈ pairs, a.Fits) : InvertsFormat pairs trailing := by
  have hcalls : addPathmap (render pairs trailing) = pairs.map Assignment.request := by
    rw [addPathmap_render]
    exact List.map_congr_left fun a ha => Assignment.call_of_fits (h a ha)
  refine ⟨?_, fun fate map e he => ?_⟩
  · rw [hcalls, List.filter_eq_self.mpr fun a ha => decide_eq_true (h a ha)]
  · rw [hcalls] at he
    rcases mem_addAll he with hin | ⟨r, hr, map', f, hnew⟩
    · exact Or.inl hin
    · obtain ⟨a, ha, rfl⟩ := List.mem_map.mp hr
      exact Or.inr ⟨a, ha, h a ha, Assignment.mapping_of_newMapping hnew⟩

/-- For every value of the variable the loop ends; and for every list of assignments, with or
without a semicolon at the end, the parser inverts the format if and only if every component is
shorter than `MAX_PATH`. -/
theorem pathmap_inverts_format_iff (cp : CString) (pairs : List Assignment) (trailing : Bool) :
    (∃ n, pathmapLoop n (some cp) = some (addPathmap cp)) ∧
      (InvertsFormat pairs trailing ↔ ∀ a ∈ pairs, a.Fits) := by
  refine ⟨⟨cp.strlen + 1, pathmapLoop_eq (Nat.lt_succ_self _)⟩, fun h => ?_,
    invertsFormat_of_fits trailing⟩
  -- a call is made for every assignment, so that none may have been left out
  have hlen := congrArg List.length h.calls
  rw [addPathmap_render, List.length_map, List.length_map] at hlen
  intro a ha
  exact of_decide_eq_true (List.length_filter_eq_length_iff.mp hlen.symm a ha)

/-- An assignment of `C:` to a directory of 260 characters. -/
def longAssignment : Assignment where
  dir := ⟨List.replicate 260 'a', by decide⟩
  dest := CString.lit "C:"
  dir_ne_nil := by decide
  equals_notMem_dir := by decide
  semicolon_notMem_dir := by decide
  semicolon_notMem_dest := by decide

/-- The directory does not fit, and `wpdk_add_mapping` is called with an empty one.  The entry that
it makes applies to every absolute path, so that `/etc/x` goes to `C:/etc/x`. -/
theorem pathmap_maps_everything :
    ¬ longAssignment.Fits ∧
      addPathmap (render [longAssignment] false) =
        [⟨CString.lit "", some (CString.lit "C:"), false⟩] ∧
      addAll (fun _ => ⟨true, true, true⟩) [] (addPathmap (render [longAssignment] false)) =
        [⟨CString.lit "", CString.lit "C:", 0⟩] ∧
      (getPath [⟨CString.lit "", CString.lit "C:", 0⟩] 260 [] (CString.lit "/etc/x") []).value
        (CString.lit "/etc/x") = some (CString.lit "C:/etc/x") := by
  have hcall : addPathmap (render [longAssignment] false) =
      [⟨CString.lit "", some (CString.lit "C:"), false⟩] := by
    rw [addPathmap_render]
    decide +kernel
  refine ⟨by decide +kernel, hcall, ?_, ?_⟩
  · rw [hcall]
    decide
  · rw [getPath_of_not_rootFile (by decide) (by decide) (by decide)]
    decide

end Path
end Wpdk
