import Wpdk.Path.Lookup

/-!
# The longest directory

`wpdk_get_path` takes the first entry of the table that applies to a path.  The table is kept with
the longest directories first, and directories of the same length that a path begins with are the
same directory, so the first entry is the one with the longest directory.  `strncmp` is bounded by
the recorded length; with a slash required behind it, an entry applies exactly when the path is
inside the directory.

For a name directly under `/`, the path is put under `/tmp` in a local array and looked up again.
What comes back is the result for that path, unless no entry applies to it: then it is the local
array, which is gone by then.

* `Begins`, `Longest`, `moved`: the directory that a path should be taken out of, and what
  becomes of it.
* `Ordered`: the tables that the statement is about.
* `picksLongest_lookup`: the first match is the longest match.
* `getPath_follows_rules_iff`: when both rules are followed.
-/

namespace Wpdk
namespace Path

/-- The path begins with the directory and a slash behind it. -/
def Begins (path dir : CString) : Prop := ∃ rest, path.chars = dir.chars ++ '/' :: rest

/-- A table with different directories, their lengths, and the longest of them first. -/
structure Ordered (map : List Mapping) : Prop where
  distinct : (map.map Mapping.dir).Nodup
  len_eq : ∀ e ∈ map, e.len = e.dir.strlen
  sorted : Sorted map

/-- The entry with the longest directory that the path begins with. -/
structure Longest (map : List Mapping) (path : CString) (e : Mapping) : Prop where
  mem : e ∈ map
  begins : Begins path e.dir
  longest : ∀ e' ∈ map, Begins path e'.dir → e'.dir.strlen ≤ e.dir.strlen

/-- The destination, followed by the rest of the path behind the directory. -/
def moved (path : CString) (e : Mapping) : CString := e.dest ++ path.drop e.dir.strlen

/-- **The result for a path is that of the longest directory.** -/
structure PicksLongest (map : List Mapping) (len : ℕ) (path : CString) (r : PathResult) :
    Prop where
  mapped : ∀ e, Longest map path e → (moved path e).strlen < len → r = .buffer (moved path e)
  unchanged : (∀ e ∈ map, ¬ Begins path e.dir) → r = .path
  null_iff : r = .null ↔ ∃ e, Longest map path e ∧ len ≤ (moved path e).strlen

/-! ## First match and longest match -/

section Match

variable {map : List Mapping} {path : CString} {after : List Char} {len : ℕ} {e e' : Mapping}

theorem applies_iff_begins (hlen : e.len = e.dir.strlen) :
    applies path after e = true ↔ Begins path e.dir := by
  rw [applies_iff hlen.ge]
  constructor
  · rintro (⟨-, hbegins⟩ | ⟨hlt, -⟩)
    · exact hbegins
    · omega
  · exact fun hbegins => Or.inl ⟨hlen, hbegins⟩

theorem Begins.strlen_lt {dir : CString} (h : Begins path dir) : dir.strlen < path.strlen := by
  obtain ⟨rest, hrest⟩ := h
  rw [CString.strlen, CString.strlen, hrest, List.length_append, List.length_cons]
  omega

/-- A path begins with at most one directory of each length. -/
theorem Begins.dir_eq {dir dir' : CString} (h : Begins path dir) (h' : Begins path dir')
    (hlen : dir.strlen = dir'.strlen) : dir = dir' := by
  obtain ⟨rest, hrest⟩ := h
  obtain ⟨rest', hrest'⟩ := h'
  exact CString.ext (List.append_inj_left (hrest.symm.trans hrest') hlen)

theorem Longest.unique (hmap : Ordered map) (h : Longest map path e) (h' : Longest map path e') :
    e = e' := by
  have hlen : e.dir.strlen = e'.dir.strlen :=
    le_antisymm (h'.longest e h.mem h.begins) (h.longest e' h'.mem h'.begins)
  exact List.inj_on_of_nodup_map hmap.distinct h.mem h'.mem (h.begins.dir_eq h'.begins hlen)

/-- **The first match is the longest match.** -/
theorem longest_of_find (hmap : Ordered map) (hfind : map.find? (applies path after) = some e) :
    Longest map path e := by
  obtain ⟨happ, front, back, rfl, hfront⟩ := List.find?_eq_some_iff_append.mp hfind
  have hmem : e ∈ front ++ e :: back := List.mem_append_right _ List.mem_cons_self
  refine ⟨hmem, (applies_iff_begins (hmap.len_eq e hmem)).mp happ, fun e' he' hbegins => ?_⟩
  rcases List.mem_append.mp he' with hin | hin
  · -- entries before the match do not apply
    have hnot := hfront e' hin
    rw [(applies_iff_begins (hmap.len_eq e' he')).mpr hbegins] at hnot
    exact absurd hnot (by decide)
  · rcases List.mem_cons.mp hin with rfl | hin
    · exact le_rfl
    · have hsorted := (List.pairwise_append.mp hmap.sorted).2.1
      exact (List.pairwise_cons.mp hsorted).1 e' hin

theorem find_eq_none_iff (hmap : Ordered map) :
    map.find? (applies path after) = none ↔ ∀ e ∈ map, ¬ Begins path e.dir := by
  rw [List.find?_eq_none]
  refine forall₂_congr fun e he => ?_
  rw [applies_iff_begins (hmap.len_eq e he)]

/-- A path comes back unchanged if no entry applies. -/
theorem lookup_eq_path_iff :
    lookup map len path after = .path ↔ map.find? (applies path after) = none := by
  unfold lookup
  cases map.find? (applies path after) with
  | none => exact iff_of_true rfl rfl
  | some e =>
    refine iff_of_false (fun h => ?_) (Option.some_ne_none e)
    dsimp only at h
    split at h <;> cases h

/-- With the lengths of the directories, what is in memory behind the path makes no difference. -/
theorem lookup_after (hmap : Ordered map) (after after' : List Char) :
    lookup map len path after = lookup map len path after' := by
  have hsame : map.find? (applies path after) = map.find? (applies path after') := by
    refine List.find?_congr fun e he => ?_
    rw [Bool.eq_iff_iff, applies_iff_begins (hmap.len_eq e he),
      applies_iff_begins (hmap.len_eq e he)]
  cases hfind : map.find? (applies path after') with
  | none => rw [lookup_eq_path_iff.mpr hfind, lookup_eq_path_iff.mpr (hsame.trans hfind)]
  | some e =>
    have hlongest := longest_of_find hmap hfind
    have hoff : e.len ≤ path.strlen :=
      hmap.len_eq e hlongest.mem ▸ hlongest.begins.strlen_lt.le
    rw [lookup_of_find hfind hoff, lookup_of_find (hsame.trans hfind) hoff]

theorem picksLongest_lookup (hmap : Ordered map) :
    PicksLongest map len path (lookup map len path after) := by
  cases hfind : map.find? (applies path after) with
  | none =>
    have hnone := (find_eq_none_iff hmap).mp hfind
    rw [lookup, hfind]
    refine ⟨fun e he => absurd he.begins (hnone e he.mem), fun _ => rfl, ?_⟩
    constructor
    · intro h
      cases h
    · rintro ⟨e, he, -⟩
      exact absurd he.begins (hnone e he.mem)
  | some e =>
    have hlongest := longest_of_find hmap hfind
    have hlen := hmap.len_eq e hlongest.mem
    have hoff : e.len ≤ path.strlen := hlen ▸ hlongest.begins.strlen_lt.le
    have hlook : lookup map len path after =
        if (moved path e).strlen < len then .buffer (moved path e) else .null := by
      rw [lookup_of_find hfind hoff, hlen, ← CString.strlen_append]
      rfl
    rw [hlook]
    refine ⟨fun e' he' hfit => ?_, fun hnone => absurd hlongest.begins (hnone e hlongest.mem), ?_⟩
    · obtain rfl := he'.unique hmap hlongest
      exact if_pos hfit
    · constructor
      · intro hnull
        refine ⟨e, hlongest, Nat.le_of_not_lt fun hfit => ?_⟩
        rw [if_pos hfit] at hnull
        cases hnull
      · rintro ⟨e', he', hlong⟩
        obtain rfl := he'.unique hmap hlongest
        exact if_neg (Nat.not_lt.mpr hlong)

end Match

/-! ## The two rules -/

section Rules

variable {map : List Mapping} {len : ℕ} {path : CString} {scratch after : List Char}

theorem ne_nil_of_rootFile (hroot : rootFile path = true) : path.chars ≠ [] := by
  obtain ⟨name, hname, -⟩ := rootFile_iff.mp hroot
  rw [hname]
  exact List.cons_ne_nil _ _

theorem getPath_of_nil (hnil : path.chars = []) : getPath map len scratch path after = .path := by
  rw [getPath, if_pos hnil]

theorem getPath_of_long (hlong : maxPath ≤ path.strlen) :
    getPath map len scratch path after = .null := by
  have hne : path.chars ≠ [] := fun hnil => by
    rw [CString.strlen, hnil] at hlong
    exact absurd hlong (by decide)
  rw [getPath, if_neg hne, if_pos hlong]

/-- A name that does not fit under `/tmp`. -/
theorem getPath_of_rootFile_long (hroot : rootFile path = true) (hlen : path.strlen < maxPath)
    (hlong : maxPath ≤ (CString.lit "/tmp" ++ path).strlen) :
    getPath map len scratch path after = .null := by
  have hremap : remapRootFile path = none := by
    rw [remapRootFile, strcpyS_bind_strcatS, ← CString.strlen_append,
      if_neg (Nat.not_lt.mpr hlong)]
  rw [getPath, if_neg (ne_nil_of_rootFile hroot), if_neg (Nat.not_le_of_lt hlen), dif_pos hroot]
  split
  · rfl
  · rename_i buf hbuf
    rw [hremap] at hbuf
    cases hbuf

theorem getPath_tmp (hroot : rootFile path = true)
    (hlen : (CString.lit "/tmp" ++ path).strlen < maxPath) :
    getPath map len scratch (CString.lit "/tmp" ++ path) after =
      lookup map len (CString.lit "/tmp" ++ path) after :=
  getPath_of_not_rootFile (by simp [CString.lit, CString.ofMemory, ne_nil_of_rootFile hroot]) hlen
    (rootFile_tmp hroot)

end Rules

/-- **Both rules are followed.**  A path that is not directly under `/` is taken out of the
longest directory, and a name directly under `/` has the result that it has under `/tmp`. -/
def FollowsRules (map : List Mapping) (len : ℕ) (scratch : List Char) (path : CString)
    (after : List Char) : Prop :=
  (rootFile path = false → PicksLongest map len path (getPath map len scratch path after)) ∧
    (rootFile path = true → ∀ scratch' after',
      (getPath map len scratch path after).value path =
        (getPath map len scratch' (CString.lit "/tmp" ++ path) after').value
          (CString.lit "/tmp" ++ path))

/-- A name directly under `/` that fits under `/tmp` and is in no directory of the table there. -/
def Unmapped (map : List Mapping) (path : CString) : Prop :=
  rootFile path = true ∧ (CString.lit "/tmp" ++ path).strlen < maxPath ∧
    ∀ e ∈ map, ¬ Begins (CString.lit "/tmp" ++ path) e.dir

/-- For every table in order and every path that is short enough, the rules are followed if and
only if the path is not such a name. -/
theorem getPath_follows_rules_iff (map : List Mapping) (hmap : Ordered map) (len : ℕ)
    (path : CString) (hlen : path.strlen < maxPath) (scratch after : List Char) :
    FollowsRules map len scratch path after ↔ ¬ Unmapped map path := by
  cases hroot : rootFile path with
  | false =>
    refine iff_of_true ⟨fun _ => ?_, fun h => absurd h (by rw [hroot]; decide)⟩
      fun h => absurd h.1 (by rw [hroot]; decide)
    by_cases hne : path.chars = []
    · have hnone : ∀ e : Mapping, ¬ Begins path e.dir := fun e hbegins => by
        have := hbegins.strlen_lt
        rw [CString.strlen, CString.strlen, hne] at this
        exact absurd this (Nat.not_lt_zero _)
      rw [getPath_of_nil hne]
      refine ⟨fun e he => absurd he.begins (hnone e), fun _ => rfl, ?_⟩
      refine iff_of_false (by decide) ?_
      rintro ⟨e, he, -⟩
      exact hnone e he.begins
    · rw [getPath_of_not_rootFile hne hlen hroot]
      exact picksLongest_lookup hmap
  | true =>
    have hrules : FollowsRules map len scratch path after ↔ ∀ scratch' after',
        (getPath map len scratch path after).value path =
          (getPath map len scratch' (CString.lit "/tmp" ++ path) after').value
            (CString.lit "/tmp" ++ path) :=
      ⟨fun h => h.2 hroot, fun h => ⟨fun h' => absurd h' (by rw [hroot]; decide), fun _ => h⟩⟩
    rw [hrules]
    by_cases hfit : (CString.lit "/tmp" ++ path).strlen < maxPath
    swap
    · refine iff_of_true (fun scratch' after' => ?_) fun h => hfit h.2.1
      rw [getPath_of_rootFile_long hroot hlen (Nat.le_of_not_lt hfit),
        getPath_of_long (Nat.le_of_not_lt hfit)]
      rfl
    rw [getPath_of_rootFile hroot hfit]
    by_cases hnone : ∀ e ∈ map, ¬ Begins (CString.lit "/tmp" ++ path) e.dir
    · -- the result is the local array, which is gone
      refine iff_of_false (fun h => ?_) fun h => h ⟨hroot, hfit, hnone⟩
      have hvalue := h [] []
      rw [getPath_tmp hroot hfit, (picksLongest_lookup hmap).unchanged hnone,
        (picksLongest_lookup hmap).unchanged hnone] at hvalue
      cases hvalue
    · refine iff_of_true (fun scratch' after' => ?_) fun h => hnone h.2.2
      rw [getPath_tmp hroot hfit, lookup_after hmap after' scratch]
      cases hlook : lookup map len (CString.lit "/tmp" ++ path) scratch with
      | path => exact absurd ((find_eq_none_iff hmap).mp (lookup_eq_path_iff.mp hlook)) hnone
      | null => rfl
      | buffer s => rfl
      | calleeLocal => rfl

/-- A table with a directory inside another. -/
def nestedTable : List Mapping :=
  [⟨CString.lit "/tmp/deep", CString.lit "D", 9⟩, ⟨CString.lit "/tmp", CString.lit "T", 4⟩]

theorem ordered_nestedTable : Ordered nestedTable where
  distinct := by decide
  len_eq := by decide
  sorted := by unfold Sorted; decide

/-- A path inside the inner directory. -/
theorem getPath_follows_rules_nested :
    FollowsRules nestedTable 260 [] (CString.lit "/tmp/deep/x") [] :=
  (getPath_follows_rules_iff nestedTable ordered_nestedTable 260 (CString.lit "/tmp/deep/x")
    (by decide) [] []).mpr fun h => absurd h.1 (by decide)

/-- Without a directory for it, `/x` is answered with the local array and not with `/tmp/x`, which
is the answer for `/tmp/x`. -/
theorem getPath_root_file_unmapped :
    Ordered [] ∧ Unmapped [] (CString.lit "/x") ∧
      getPath [] 260 [] (CString.lit "/x") [] = .calleeLocal ∧
      (getPath [] 260 [] (CString.lit "/tmp/x") []).value (CString.lit "/tmp/x") =
        some (CString.lit "/tmp/x") := by
  refine ⟨⟨by decide, by decide, List.Pairwise.nil⟩, ⟨by decide, by decide, by simp⟩, ?_, ?_⟩
  · rw [getPath_of_rootFile (by decide) (by decide)]
    decide
  · rw [getPath_of_not_rootFile (by decide) (by decide) (by decide)]
    decide

end Path
end Wpdk
