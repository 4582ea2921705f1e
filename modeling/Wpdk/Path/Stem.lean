import Wpdk.Path.Storage

/-!
# What stands before the last six characters

A temporary file is named in two places: six characters are put at the end of the path that
`wpdk_get_path` has made of a template, and then at the end of the template.  For the two to stand
for the same file, `wpdk_get_path` must not look at these characters.  It looks for a slash at the
recorded length of an entry; the six characters have none, so that an entry applies by what stands
before them.

The exception is an entry whose recorded length is larger than the path.  It compares whole strings,
and then looks behind the terminator, so that it depends on the memory there whether it applies.
Such an entry only matters if the loop comes to it, and then it can be made to apply or not to
apply, and what it makes of the path ends in anything.

* `Suffix`: six characters without a slash.
* `Overreads`: the loop can come to an end at an entry by reading behind the path.
* `stemLookup`, `stemPath`: the result from what stands before the suffix.
* `find?_append_suffix_or`: the entry that is found, by what stands before the suffix or behind it.
* `getPath_append_suffix`, `value_append_suffix`: the result, if nothing behind the path is read.
* `Overreads.exists_tail`: anything without a slash can follow what such an entry makes of the path.
-/

namespace Wpdk
namespace Path

/-- Six characters without a slash. -/
structure Suffix where
  str : CString
  strlen_eq : str.strlen = 6
  slash_notMem : '/' ∉ str.chars

theorem Suffix.ne_nil (u : Suffix) : u.str.chars ≠ [] := by
  intro h
  have hlen := u.strlen_eq
  rw [CString.strlen, h] at hlen
  cases hlen

/-- The same result, with a string put behind what is in the buffer. -/
def PathResult.extend (u : CString) : PathResult → PathResult
  | .null => .null
  | .path => .path
  | .buffer s => .buffer (s ++ u)
  | .calleeLocal => .calleeLocal

/-- Whether an entry applies to a path with `stem` before its suffix. -/
def stemApplies (stem : CString) (e : Mapping) : Bool :=
  e.len < stem.strlen && strncmpEq stem.chars e.dir.chars e.len && byteAt stem.chars e.len == '/'

/-- The loop over the table. -/
def stemLookup (map : List Mapping) (len : ℕ) (stem : CString) : PathResult :=
  match map.find? (stemApplies stem) with
  | none => .path
  | some e =>
    if e.dest.strlen + (stem.drop e.len).strlen + 6 < len then .buffer (e.dest ++ stem.drop e.len)
    else .null

/-- Whether a path with `stem` before its suffix is a name directly under `/`. -/
def stemRoot (stem : CString) : Bool := strrchr stem.chars '/' = some 0

/-- What stands before the suffix once a name directly under `/` is put under `/tmp`. -/
def stemPlace (stem : CString) : CString :=
  if stemRoot stem then CString.lit "/tmp" ++ stem else stem

/-- `wpdk_get_path`. -/
def stemPath (map : List Mapping) (len : ℕ) (stem : CString) : PathResult :=
  if maxPath ≤ (stemPlace stem).strlen + 6 then .null
  else
    match stemLookup map len (stemPlace stem) with
    | .path => if stemRoot stem then .calleeLocal else .path
    | r => r

/-- With some memory behind the path, the first entry that applies is one for which that memory is
read. -/
def Overreads (map : List Mapping) (path : CString) (e : Mapping) : Prop :=
  path.strlen < e.len ∧ ∃ memory, map.find? (applies path memory) = some e

/-! ## The table -/

section Table

variable {map : List Mapping} {stem : CString} {e : Mapping} {len : ℕ}

theorem byteAt_append_memory_of_lt (u : CString) (after : List Char) {i : ℕ}
    (hi : i < stem.strlen) : byteAt ((stem ++ u).memory after) i = byteAt stem.chars i := by
  have hi' : i < stem.chars.length := hi
  simp [byteAt, CString.memory, List.getD_eq_getElem?_getD, List.getElem?_append_left hi']

/-- Behind the stem there is no slash before the terminator. -/
theorem byteAt_append_memory_ne_slash (u : Suffix) (after : List Char) {i : ℕ}
    (hi : stem.strlen ≤ i) (hend : i ≤ (stem ++ u.str).strlen) :
    byteAt ((stem ++ u.str).memory after) i ≠ '/' := by
  rcases Nat.eq_or_lt_of_le hend with rfl | hlt
  · rw [CString.strlen, byteAt_memory_strlen]
    decide
  · intro hslash
    rw [CString.strlen_append] at hlt
    have hi' : stem.chars.length ≤ i := hi
    have hin : i - stem.chars.length < u.str.chars.length := by
      rw [CString.strlen, CString.strlen] at hlt
      omega
    have hbyte : u.str.chars[i - stem.chars.length] = '/' := by
      rw [← hslash, byteAt, CString.memory, CString.chars_append, List.append_assoc,
        List.getD_eq_getElem?_getD, List.getElem?_append_right hi', List.getElem?_append_left hin,
        List.getElem?_eq_getElem hin, Option.getD_some]
    exact u.slash_notMem (hbyte ▸ List.getElem_mem hin)

theorem lt_of_stemApplies (h : stemApplies stem e = true) : e.len < stem.strlen := by
  rw [stemApplies, Bool.and_eq_true, Bool.and_eq_true, decide_eq_true_eq] at h
  exact h.1.1

/-- **An entry applies by what stands before the suffix**, unless it looks behind the path. -/
theorem applies_append_suffix (u : Suffix) (after : List Char)
    (hlen : e.len ≤ (stem ++ u.str).strlen) :
    applies (stem ++ u.str) after e = stemApplies stem e := by
  unfold applies stemApplies
  by_cases hin : e.len < stem.strlen
  · rw [CString.chars_append, strncmpEq_append_left _ _ (Nat.le_of_lt hin),
      byteAt_append_memory_of_lt u.str after hin, decide_eq_true hin, Bool.true_and]
  · rw [decide_eq_false hin, Bool.false_and, Bool.false_and, Bool.and_eq_false_iff]
    right
    rw [beq_eq_false_iff_ne]
    exact byteAt_append_memory_ne_slash u after (Nat.le_of_not_lt hin) hlen

theorem applies_of_stemApplies (u : Suffix) (after : List Char) (h : stemApplies stem e = true) :
    applies (stem ++ u.str) after e = true := by
  rw [applies_append_suffix u after, h]
  have hlt := lt_of_stemApplies h
  rw [CString.strlen_append]
  omega

/-- With nothing behind the path, no entry applies that looks there. -/
theorem applies_append_suffix_nil (u : Suffix) :
    applies (stem ++ u.str) [] e = stemApplies stem e := by
  by_cases hlen : e.len ≤ (stem ++ u.str).strlen
  · exact applies_append_suffix u [] hlen
  · have hbyte : byteAt ((stem ++ u.str).memory []) e.len = nul := by
      have hge : ((stem ++ u.str).memory []).length ≤ e.len := by
        rw [CString.memory, List.length_append, List.length_singleton]
        exact Nat.lt_of_not_le hlen
      rw [byteAt, List.getD_eq_getElem?_getD, List.getElem?_eq_none hge, Option.getD_none]
    have hstem : stemApplies stem e = false := Bool.eq_false_iff.mpr fun h => by
      have hlt := lt_of_stemApplies h
      rw [CString.strlen_append] at hlen
      omega
    rw [hstem, applies, hbyte, Bool.and_eq_false_iff]
    exact Or.inr (by decide)

/-- If only elements that satisfy `p` satisfy `q`, and the first that satisfies `p` satisfies `q`,
it is the first that does. -/
theorem find?_of_imp {α : Type*} {p q : α → Bool} {l : List α} {b : α}
    (himp : ∀ a, q a = true → p a = true) (hfind : l.find? p = some b) (hq : q b = true) :
    l.find? q = some b := by
  obtain ⟨-, before, behind, hl, hbefore⟩ := List.find?_eq_some_iff_append.mp hfind
  refine List.find?_eq_some_iff_append.mpr ⟨hq, before, behind, hl, fun a ha => ?_⟩
  rw [Bool.not_eq_true']
  refine Bool.eq_false_iff.mpr fun hqa => ?_
  have hpa := hbefore a ha
  rw [himp a hqa] at hpa
  cases hpa

/-- **The entry that is found** is decided by what stands before the suffix, or by what is behind
the path. -/
theorem find?_append_suffix_or (map : List Mapping) (stem : CString) (u : Suffix)
    (memory : List Char) :
    map.find? (applies (stem ++ u.str) memory) = map.find? (stemApplies stem) ∨
      ∃ e, map.find? (applies (stem ++ u.str) memory) = some e ∧
        Overreads map (stem ++ u.str) e := by
  cases hfind : map.find? (applies (stem ++ u.str) memory) with
  | none =>
    left
    rw [eq_comm, List.find?_eq_none]
    exact fun e he hstem =>
      List.find?_eq_none.mp hfind e he (applies_of_stemApplies u memory hstem)
  | some e =>
    by_cases hlen : e.len ≤ (stem ++ u.str).strlen
    · left
      have happ := List.find?_some hfind
      rw [applies_append_suffix u memory hlen] at happ
      exact (find?_of_imp (fun _ => applies_of_stemApplies u memory) hfind happ).symm
    · exact Or.inr ⟨e, rfl, Nat.lt_of_not_le hlen, memory, hfind⟩

theorem find?_append_suffix (u : Suffix) (h : ∀ e, ¬ Overreads map (stem ++ u.str) e)
    (memory : List Char) :
    map.find? (applies (stem ++ u.str) memory) = map.find? (stemApplies stem) := by
  rcases find?_append_suffix_or map stem u memory with hfind | ⟨e, -, hover⟩
  · exact hfind
  · exact absurd hover (h e)

theorem find?_append_suffix_nil (map : List Mapping) (stem : CString) (u : Suffix) :
    map.find? (applies (stem ++ u.str) []) = map.find? (stemApplies stem) :=
  List.find?_congr fun _ _ => applies_append_suffix_nil u

theorem drop_append (s t : CString) {i : ℕ} (hi : i ≤ s.strlen) :
    (s ++ t).drop i = s.drop i ++ t :=
  CString.ext (List.drop_append_of_le_length hi)

theorem lookup_append_suffix {u : Suffix} {memory : List Char}
    (hfind : map.find? (applies (stem ++ u.str) memory) = map.find? (stemApplies stem)) :
    lookup map len (stem ++ u.str) memory = (stemLookup map len stem).extend u.str := by
  unfold stemLookup
  cases hstem : map.find? (stemApplies stem) with
  | none =>
    rw [lookup_eq_path_iff.mpr (hfind.trans hstem)]
    rfl
  | some e =>
    have hoff := Nat.le_of_lt (lt_of_stemApplies (List.find?_some hstem))
    have hoff' : e.len ≤ (stem ++ u.str).strlen := by
      rw [CString.strlen_append]
      omega
    rw [lookup_of_find (hfind.trans hstem) hoff', drop_append stem u.str hoff,
      CString.strlen_append, u.strlen_eq, ← Nat.add_assoc]
    dsimp only
    split
    · rw [PathResult.extend]
      exact congrArg PathResult.buffer (CString.ext (by simp))
    · rfl

end Table

/-! ## The path -/

section Path

variable {map : List Mapping} {stem : CString} {len : ℕ}

theorem rootFile_append_suffix (stem : CString) (u : Suffix) :
    rootFile (stem ++ u.str) = stemRoot stem := by
  rw [Bool.eq_iff_iff, rootFile_iff, stemRoot, decide_eq_true_eq, CString.chars_append]
  cases stem.chars with
  | nil =>
    refine iff_of_false ?_ (by simp [strrchr])
    rintro ⟨name, hname, -⟩
    rw [List.nil_append] at hname
    exact u.slash_notMem (by rw [hname]; exact List.mem_cons_self)
  | cons c rest =>
    rw [strrchr_cons_eq_zero_iff, List.cons_append]
    constructor
    · rintro ⟨name, hname, -, hslash⟩
      obtain ⟨rfl, rfl⟩ := List.cons_eq_cons.mp hname
      exact ⟨rfl, fun hin => hslash (List.mem_append_left _ hin)⟩
    · rintro ⟨rfl, hslash⟩
      refine ⟨rest ++ u.str.chars, rfl, List.append_ne_nil_of_right_ne_nil _ u.ne_nil, ?_⟩
      rw [List.mem_append, not_or]
      exact ⟨hslash, u.slash_notMem⟩

theorem placeOf_append_suffix (stem : CString) (u : Suffix) :
    placeOf (stem ++ u.str) = stemPlace stem ++ u.str := by
  rw [placeOf, stemPlace, rootFile_append_suffix]
  split
  · exact CString.ext (by simp)
  · rfl

/-- A name directly under `/`, put under `/tmp`. -/
theorem tmp_append_suffix {u : Suffix} (hroot : rootFile (stem ++ u.str) = true) :
    CString.lit "/tmp" ++ (stem ++ u.str) = stemPlace stem ++ u.str := by
  rw [← placeOf_append_suffix, placeOf, if_pos hroot]

theorem append_suffix_ne_nil (stem : CString) (u : Suffix) : (stem ++ u.str).chars ≠ [] :=
  List.append_ne_nil_of_right_ne_nil _ u.ne_nil

/-- **What `wpdk_get_path` makes of a path does not depend on its last six characters**, except
that they are at the end of what it puts into the buffer, if no memory behind the path is read. -/
theorem getPath_append_suffix {u : Suffix} {scratch after : List Char}
    (hfind : map.find?
        (applies (stemPlace stem ++ u.str) (if stemRoot stem then scratch else after))
      = map.find? (stemApplies (stemPlace stem))) :
    getPath map len scratch (stem ++ u.str) after = (stemPath map len stem).extend u.str := by
  have hplace := placeOf_append_suffix stem u
  have hroot := rootFile_append_suffix stem u
  have hlen : (placeOf (stem ++ u.str)).strlen = (stemPlace stem).strlen + 6 := by
    rw [hplace, CString.strlen_append, u.strlen_eq]
  have hlook : lookup map len (stemPlace stem ++ u.str) (if stemRoot stem then scratch else after) =
      (stemLookup map len (stemPlace stem)).extend u.str := lookup_append_suffix hfind
  unfold stemPath
  rcases getPath_cases map len scratch (stem ++ u.str) after with
    ⟨hnil, -⟩ | ⟨hlong, hget⟩ | ⟨hleak, hget⟩ | ⟨-, hfit, hkeep, hget⟩
  · exact absurd hnil (append_suffix_ne_nil stem u)
  · rw [hlen] at hlong
    rw [hget, if_pos hlong]
    rfl
  · obtain ⟨htrue, hfit, hnone⟩ := hleak
    rw [tmp_append_suffix htrue] at hfit hnone
    rw [CString.strlen_append, u.strlen_eq] at hfit
    rw [hroot] at htrue
    have hpath : stemLookup map len (stemPlace stem) = .path := by
      have hempty : map.find? (stemApplies (stemPlace stem)) = none := by
        rw [← hfind, if_pos htrue, List.find?_eq_none]
        exact fun e he => by simp [hnone e he]
      rw [stemLookup, hempty]
    rw [hget, if_neg (Nat.not_le.mpr hfit), hpath, htrue]
    rfl
  · rw [hlen] at hfit
    rw [hget, hplace, hroot, hlook, if_neg (Nat.not_le.mpr hfit)]
    cases hstem : stemLookup map len (stemPlace stem) with
    | path =>
      cases htrue : stemRoot stem with
      | false => rfl
      | true =>
        -- no entry applies to a name directly under `/`: this is the local array
        rw [hstem, htrue, if_pos rfl] at hlook
        rw [htrue] at hroot
        refine absurd ⟨hroot, ?_, fun e he => ?_⟩ hkeep
        · rw [tmp_append_suffix hroot, CString.strlen_append, u.strlen_eq]
          exact hfit
        · rw [tmp_append_suffix hroot]
          simpa using List.find?_eq_none.mp (lookup_eq_path_iff.mp hlook) e he
    | null => rfl
    | buffer s => rfl
    | calleeLocal => rfl

/-- The string that the caller finds ends with the suffix, and has something before it that does
not depend on the suffix. -/
theorem value_append_suffix {u : Suffix} {scratch after : List Char} (len : ℕ)
    (hfind : map.find?
        (applies (stemPlace stem ++ u.str) (if stemRoot stem then scratch else after))
      = map.find? (stemApplies (stemPlace stem))) :
    (getPath map len scratch (stem ++ u.str) after).value (stem ++ u.str) =
      ((stemPath map len stem).value stem).map (· ++ u.str) := by
  rw [getPath_append_suffix hfind]
  cases stemPath map len stem with
  | null => rfl
  | path => rfl
  | buffer s => rfl
  | calleeLocal => rfl

theorem value_append_suffix_nil (map : List Mapping) (len : ℕ) (stem : CString) (u : Suffix) :
    (getPath map len [] (stem ++ u.str) []).value (stem ++ u.str) =
      ((stemPath map len stem).value stem).map (· ++ u.str) := by
  refine value_append_suffix len ?_
  rw [ite_self]
  exact find?_append_suffix_nil map (stemPlace stem) u

/-- What is in the local array can only keep it from being returned. -/
theorem LeaksLocal.nil {u : Suffix} {scratch : List Char}
    (h : LeaksLocal map scratch (stem ++ u.str)) : LeaksLocal map [] (stem ++ u.str) := by
  obtain ⟨hroot, hfit, hnone⟩ := h
  refine ⟨hroot, hfit, fun e he => ?_⟩
  have he' := hnone e he
  rw [tmp_append_suffix hroot] at he' ⊢
  rw [applies_append_suffix_nil]
  refine Bool.eq_false_iff.mpr fun hstem => ?_
  rw [applies_of_stemApplies u scratch hstem] at he'
  cases he'

/-- What the caller finds, by the entry that is found. -/
theorem value_of_find? {u : Suffix} {scratch after : List Char} {e : Mapping}
    (hfit : (stemPlace stem).strlen + 6 < maxPath)
    (hfind : map.find?
        (applies (stemPlace stem ++ u.str) (if stemRoot stem then scratch else after))
      = some e) :
    (getPath map len scratch (stem ++ u.str) after).value (stem ++ u.str) =
      let tail := CString.ofMemory ((stemPlace stem ++ u.str).memory
        (if stemRoot stem then scratch else after)) e.len
      if e.dest.strlen + tail.strlen < len then some (e.dest ++ tail) else none := by
  rw [← rootFile_append_suffix stem u, ← placeOf_append_suffix] at hfind ⊢
  rcases getPath_cases map len scratch (stem ++ u.str) after with
    ⟨hnil, -⟩ | ⟨hlong, -⟩ | ⟨hleak, -⟩ | ⟨-, -, -, hget⟩
  · exact absurd hnil (append_suffix_ne_nil stem u)
  · rw [placeOf_append_suffix, CString.strlen_append, u.strlen_eq] at hlong
    exact absurd hfit (Nat.not_lt.mpr hlong)
  · rw [if_pos hleak.1, placeOf, if_pos hleak.1] at hfind
    have hmem := List.mem_of_find?_eq_some hfind
    have happ := List.find?_some hfind
    rw [hleak.2.2 e hmem] at happ
    cases happ
  · rw [hget, lookup_of_find? hfind, apply_ite (PathResult.value (stem ++ u.str))]
    rfl

/-- The same if the memory is the same for both kinds of path. -/
theorem value_of_find?_same {u : Suffix} {memory : List Char} {e : Mapping}
    (hfit : (stemPlace stem).strlen + 6 < maxPath)
    (hfind : map.find? (applies (stemPlace stem ++ u.str) memory) = some e) :
    (getPath map len memory (stem ++ u.str) memory).value (stem ++ u.str) =
      let tail := CString.ofMemory ((stemPlace stem ++ u.str).memory memory) e.len
      if e.dest.strlen + tail.strlen < len then some (e.dest ++ tail) else none := by
  rw [value_of_find? hfit (by rw [ite_self]; exact hfind), ite_self]

end Path

/-! ## Reading behind the path -/

section Overreads

variable {map : List Mapping} {path : CString} {e : Mapping}

theorem byteAt_memory_of_le (s : CString) (after after' : List Char) {i : ℕ} (hi : i ≤ s.strlen) :
    byteAt (s.memory after) i = byteAt (s.memory after') i := by
  rcases Nat.eq_or_lt_of_le hi with rfl | hlt
  · rw [CString.strlen, byteAt_memory_strlen, byteAt_memory_strlen]
  · have hlt' : i < s.chars.length := hlt
    simp [byteAt, CString.memory, List.getD_eq_getElem?_getD, List.getElem?_append_left hlt']

/-- What is behind the terminator. -/
theorem drop_memory (s : CString) (after : List Char) (i : ℕ) :
    (s.memory after).drop (s.strlen + 1 + i) = after.drop i := by
  have hlen : s.strlen + 1 + i = (s.chars ++ [nul]).length + i := by
    rw [List.length_append, List.length_singleton, CString.strlen]
  rw [CString.memory, List.append_cons, hlen, List.drop_length_add_append]

theorem byteAt_memory_behind (s : CString) (after : List Char) (i : ℕ) :
    byteAt (s.memory after) (s.strlen + 1 + i) = byteAt after i := by
  have hdrop := congrArg List.head? (drop_memory s after i)
  rw [List.head?_drop, List.head?_drop] at hdrop
  rw [byteAt, byteAt, List.getD_eq_getElem?_getD, List.getD_eq_getElem?_getD, hdrop]

/-- Memory that is cut at `k`, with a slash and something without one put there, has no slash that
was not there before, apart from this one. -/
theorem byteAt_take_append_slash {memory w : List Char} {i k : ℕ} (hk : k < memory.length)
    (hw : '/' ∉ w) (h : byteAt (memory.take k ++ '/' :: w) i = '/') :
    byteAt memory i = '/' ∨ i = k := by
  have hlen : (memory.take k).length = k := List.length_take_of_le (Nat.le_of_lt hk)
  rcases Nat.lt_trichotomy i k with hlt | heq | hgt
  · left
    rw [← h, byteAt, byteAt, List.getD_eq_getElem?_getD, List.getD_eq_getElem?_getD,
      List.getElem?_append_left (by omega), List.getElem?_take_of_lt hlt]
  · exact Or.inr heq
  · exfalso
    obtain ⟨j, rfl⟩ := Nat.exists_eq_add_of_lt hgt
    rw [byteAt, List.getD_eq_getElem?_getD, List.getElem?_append_right (by omega), hlen,
      show k + j + 1 - k = j + 1 by omega, List.getElem?_cons_succ] at h
    cases hj : w[j]? with
    | none =>
      rw [hj] at h
      exact absurd h (by decide)
    | some c =>
      rw [hj, Option.getD_some] at h
      exact hw (h ▸ List.mem_of_getElem? hj)

/-- **Anything without a slash can follow** what is made of the path by an entry for which the
memory behind the path is read. -/
theorem Overreads.exists_tail (h : Overreads map path e) {w : CString} (hw : '/' ∉ w.chars) :
    ∃ memory, map.find? (applies path memory) = some e ∧
      (CString.ofMemory (path.memory memory) e.len).chars = '/' :: w.chars := by
  obtain ⟨hlen, memory, hfind⟩ := h
  obtain ⟨k, hk⟩ : ∃ k, e.len = path.strlen + 1 + k := Nat.exists_eq_add_of_le hlen
  have happ := List.find?_some hfind
  rw [applies, Bool.and_eq_true, beq_iff_eq, hk, byteAt_memory_behind] at happ
  obtain ⟨hsame, hslash⟩ := happ
  have hin : k < memory.length := by
    by_contra hout
    rw [byteAt, List.getD_eq_getElem?_getD, List.getElem?_eq_none (Nat.le_of_not_lt hout)] at hslash
    exact absurd hslash (by decide)
  have hcut : (memory.take k).length = k := List.length_take_of_le (Nat.le_of_lt hin)
  refine ⟨memory.take k ++ '/' :: w.chars, find?_of_imp (fun e' happ' => ?_) hfind ?_, ?_⟩
  · -- an entry that applies now has applied before
    rw [applies, Bool.and_eq_true, beq_iff_eq] at happ' ⊢
    refine ⟨happ'.1, ?_⟩
    by_cases hle : e'.len ≤ path.strlen
    · rw [byteAt_memory_of_le path memory _ hle]
      exact happ'.2
    · obtain ⟨i, hi⟩ : ∃ i, e'.len = path.strlen + 1 + i :=
        Nat.exists_eq_add_of_le (Nat.lt_of_not_le hle)
      rw [hi, byteAt_memory_behind] at happ' ⊢
      rcases byteAt_take_append_slash hin hw happ'.2 with hbyte | rfl
      · exact hbyte
      · exact hslash
  · rw [applies, Bool.and_eq_true, beq_iff_eq, hk, byteAt_memory_behind]
    refine ⟨hsame, ?_⟩
    rw [byteAt, List.getD_eq_getElem?_getD, List.getElem?_append_right (Nat.le_of_eq hcut), hcut,
      Nat.sub_self, List.getElem?_cons_zero, Option.getD_some]
  · have hdrop : (memory.take k ++ '/' :: w.chars).drop k = '/' :: w.chars := by
      rw [List.drop_append_of_le_length (Nat.le_of_eq hcut.symm),
        List.drop_of_length_le (Nat.le_of_eq hcut), List.nil_append]
    have hnul : ∀ c ∈ w.chars, (c != nul) = true := fun c hc =>
      bne_iff_ne.mpr fun hc' => w.nul_notMem (hc' ▸ hc)
    change ((path.memory _).drop e.len).takeWhile (· != nul) = _
    rw [hk, drop_memory, hdrop, List.takeWhile_cons, if_pos (by decide),
      List.takeWhile_eq_self_iff.mpr hnul]

/-- Whatever entry is found, a slash follows its destination in what is made of the path. -/
theorem head?_ofMemory_of_find? {memory : List Char}
    (hfind : map.find? (applies path memory) = some e) :
    (CString.ofMemory (path.memory memory) e.len).chars.head? = some '/' := by
  have happ := List.find?_some hfind
  rw [applies, Bool.and_eq_true, beq_iff_eq] at happ
  have hbyte := happ.2
  rw [byteAt, List.getD_eq_getElem?_getD, ← List.head?_drop] at hbyte
  change (((path.memory memory).drop e.len).takeWhile (· != nul)).head? = _
  cases hdrop : (path.memory memory).drop e.len with
  | nil =>
    rw [hdrop] at hbyte
    exact absurd hbyte (by decide)
  | cons c rest =>
    rw [hdrop, List.head?_cons, Option.getD_some] at hbyte
    rw [hbyte, List.takeWhile_cons, if_pos (by decide), List.head?_cons]

end Overreads
end Path
end Wpdk
