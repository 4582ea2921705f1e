import Mathlib.Data.List.Pairwise
import Mathlib.Data.List.Nodup
import Wpdk.Base.CString
import Wpdk.Base.Run

/-!
# The table of path mappings

`wpdk_add_mapping` of `fcntl.c` and the table it fills.  Its three views of the directory it is
given are kept apart: the duplicate check compares the stored directories with the string as it
was passed, `len` is the length of that string, and what is stored, and sorted by, is the string
with repeated slashes removed and with `/` turned into the empty string.

* `newMapping`: the tests, in the order of the source, up to the entry that is to be stored.
* `insertMapping`: the insertion before the first entry with a shorter directory.
* `PathMap`: the table together with the mappings accepted so far, in the order of acceptance;
  the code does not have the second field.
* `TableInv`: the representation invariant, and `tableInv_iff_normal`: along a run of calls it
  holds throughout exactly when every call that is accepted passes a directory in the form in
  which it would be stored.
* `sorted_addMapping`, `len_addMapping`: what the table keeps without any such condition.
-/

namespace Wpdk
namespace Path

open Run

/-- `MAX_PATH`. -/
def maxPath : ℕ := 260

/-- The number of entries of `map`. -/
def mapSize : ℕ := 20

/-- An entry of `map`. -/
structure Mapping where
  dir : CString
  dest : CString
  len : ℕ
deriving DecidableEq

/-- The arguments of `wpdk_add_mapping`; a null `dest` is `none`. -/
structure MapRequest where
  dir : CString
  dest : Option CString
  pfx : Bool
deriving DecidableEq

/-- How the calls that can fail end during one `wpdk_add_mapping`: the two allocations and
`_access`. -/
structure Fate where
  pathCopied : Bool
  accessible : Bool
  fromCopied : Bool
deriving DecidableEq

/-- Why `wpdk_add_mapping` stores nothing. -/
inductive Refusal where
  | noDest
  | tooMany
  | present
  | unable
  | missing
deriving DecidableEq

/-- The directory as it is stored: repeated slashes removed, and `/` as the empty string. -/
def storedDir (dir : CString) : CString :=
  if dir.squeeze.chars = ['/'] then ⟨[], List.not_mem_nil⟩ else dir.squeeze

/-- The destination: `dest`, with `dir` after it for a mapping into a tree of its own. -/
def destPath (dest : CString) (r : MapRequest) : Option CString :=
  (strcpyS maxPath dest).bind fun buf => if r.pfx then strcatS maxPath buf r.dir else some buf

/-- `wpdk_add_mapping` up to the insertion. -/
def newMapping (map : List Mapping) (r : MapRequest) (f : Fate) : Except Refusal Mapping :=
  match r.dest with
  | none => .error .noDest
  | some dest =>
    if mapSize ≤ map.length then .error .tooMany
    else if ∃ e ∈ map, e.dir = r.dir then .error .present
    else
      match destPath dest r with
      | none => .error .unable
      | some path =>
        if !f.pathCopied then .error .unable
        else if !f.accessible then .error .missing
        else if !f.fromCopied then .error .unable
        else .ok ⟨storedDir r.dir, path, r.dir.strlen⟩

/-- The insertion, "longest match first": before the first entry with a shorter directory. -/
def insertMapping (m : Mapping) : List Mapping → List Mapping
  | [] => [m]
  | e :: es => if e.dir.strlen < m.dir.strlen then m :: e :: es else e :: insertMapping m es

/-- `wpdk_add_mapping`. -/
def addMapping (map : List Mapping) (r : MapRequest) (f : Fate) : List Mapping :=
  match newMapping map r f with
  | .error _ => map
  | .ok m => insertMapping m map

/-! ## What is stored -/

/-- The tests that a call has to pass: a destination that fits its buffer, room in the table, no
entry stored under the string that was passed, and success of the calls that can fail. -/
structure Accepts (map : List Mapping) (r : MapRequest) (f : Fate) : Prop where
  dest : ∃ dest, r.dest = some dest ∧
    dest.strlen + (if r.pfx then r.dir.strlen else 0) < maxPath
  room : map.length < mapSize
  fresh : ∀ e ∈ map, e.dir ≠ r.dir
  pathCopied : f.pathCopied = true
  accessible : f.accessible = true
  fromCopied : f.fromCopied = true

theorem destPath_eq (dest : CString) (r : MapRequest) :
    destPath dest r =
      if dest.strlen + (if r.pfx then r.dir.strlen else 0) < maxPath then
        some (if r.pfx then dest ++ r.dir else dest)
      else none := by
  unfold destPath
  cases r.pfx with
  | true => exact strcpyS_bind_strcatS maxPath dest r.dir
  | false =>
    simp only [Bool.false_eq_true, if_false, Nat.add_zero, strcpyS]
    split <;> rfl

/-- A call that stores an entry has passed the tests, with this destination. -/
theorem newMapping_ok_spec {map : List Mapping} {r : MapRequest} {f : Fate} {m : Mapping}
    (h : newMapping map r f = .ok m) :
    ∃ dest, r.dest = some dest ∧ destPath dest r = some m.dest ∧ Accepts map r f ∧
      m.dir = storedDir r.dir ∧ m.len = r.dir.strlen := by
  unfold newMapping at h
  -- each test that fails ends the call with an error
  iterate 7
    split at h
    · cases h
  rename_i dest hdest hfull hpresent _ path hpath hcopied haccess hfrom
  obtain rfl := Except.ok.inj h
  refine ⟨dest, hdest, hpath, ⟨⟨dest, hdest, ?_⟩, Nat.lt_of_not_le hfull,
    fun e he heq => hpresent ⟨e, he, heq⟩, ?_, ?_, ?_⟩, rfl, rfl⟩
  · rw [destPath_eq] at hpath
    by_contra hlong
    rw [if_neg hlong] at hpath
    cases hpath
  · simpa using hcopied
  · simpa using haccess
  · simpa using hfrom

theorem newMapping_ok {map : List Mapping} {r : MapRequest} {f : Fate} {m : Mapping}
    (h : newMapping map r f = .ok m) :
    Accepts map r f ∧ m.dir = storedDir r.dir ∧ m.len = r.dir.strlen := by
  obtain ⟨-, -, -, hspec⟩ := newMapping_ok_spec h
  exact hspec

/-- A call that passes the tests stores an entry. -/
theorem Accepts.exists_newMapping {map : List Mapping} {r : MapRequest} {f : Fate}
    (h : Accepts map r f) : ∃ m, newMapping map r f = .ok m := by
  obtain ⟨⟨dest, hdest, hfit⟩, hroom, hfresh, hcopied, haccess, hfrom⟩ := h
  have hpresent : ¬ ∃ e ∈ map, e.dir = r.dir := fun ⟨e, he, heq⟩ => hfresh e he heq
  have hpath := destPath_eq dest r
  rw [if_pos hfit] at hpath
  refine ⟨⟨storedDir r.dir, if r.pfx then dest ++ r.dir else dest, r.dir.strlen⟩, ?_⟩
  simp only [newMapping, hdest, hpath, if_neg (Nat.not_le_of_lt hroom), if_neg hpresent, hcopied,
    haccess, hfrom]
  rfl

/-- A directory in the form in which it is stored. -/
def Normal (dir : CString) : Prop := ¬ doubleSlash <:+: dir.chars ∧ dir.chars ≠ ['/']

instance (dir : CString) : Decidable (Normal dir) :=
  inferInstanceAs (Decidable (_ ∧ _))

theorem not_doubleSlash_infix_storedDir (dir : CString) :
    ¬ doubleSlash <:+: (storedDir dir).chars := by
  unfold storedDir
  split
  · decide
  · exact not_doubleSlash_infix_squeeze dir.chars

theorem storedDir_eq_or (dir : CString) :
    storedDir dir = dir ∧ Normal dir ∨ (storedDir dir).strlen < dir.strlen ∧ ¬ Normal dir := by
  unfold storedDir
  by_cases hsq : squeeze dir.chars = dir.chars
  · have hno := not_doubleSlash_infix_squeeze dir.chars
    rw [hsq] at hno
    have hself : dir.squeeze = dir := CString.ext hsq
    rw [hself]
    by_cases hroot : dir.chars = ['/']
    · rw [if_pos hroot]
      refine Or.inr ⟨?_, fun hn => hn.2 hroot⟩
      simp [CString.strlen, hroot]
    · rw [if_neg hroot]
      exact Or.inl ⟨rfl, hno, hroot⟩
  · have hlt := length_squeeze_lt hsq
    have hdouble : ¬ Normal dir := fun hn => hsq (squeeze_eq_self hn.1)
    refine Or.inr ⟨?_, hdouble⟩
    split
    · exact Nat.zero_lt_of_lt hlt
    · exact hlt

theorem storedDir_of_normal {dir : CString} (h : Normal dir) : storedDir dir = dir := by
  rcases storedDir_eq_or dir with ⟨heq, -⟩ | ⟨-, hn⟩
  · exact heq
  · exact absurd h hn

theorem strlen_storedDir_lt {dir : CString} (h : ¬ Normal dir) :
    (storedDir dir).strlen < dir.strlen := by
  rcases storedDir_eq_or dir with ⟨-, hn⟩ | ⟨hlt, -⟩
  · exact absurd hn h
  · exact hlt

theorem strlen_storedDir_le (dir : CString) : (storedDir dir).strlen ≤ dir.strlen := by
  rcases storedDir_eq_or dir with ⟨heq, -⟩ | ⟨hlt, -⟩
  · rw [heq]
  · exact hlt.le

/-! ## The insertion -/

theorem mem_insertMapping {m e : Mapping} {map : List Mapping} :
    e ∈ insertMapping m map ↔ e = m ∨ e ∈ map := by
  induction map with
  | nil => simp [insertMapping]
  | cons a es ih =>
    rw [insertMapping]
    split
    · exact List.mem_cons
    · rw [List.mem_cons, ih, List.mem_cons]
      exact or_left_comm

theorem length_insertMapping (m : Mapping) (map : List Mapping) :
    (insertMapping m map).length = map.length + 1 := by
  induction map with
  | nil => rfl
  | cons a es ih =>
    rw [insertMapping]
    split
    · rfl
    · rw [List.length_cons, ih, List.length_cons]

/-- Longest directory first. -/
def Sorted (map : List Mapping) : Prop :=
  map.Pairwise fun a b => b.dir.strlen ≤ a.dir.strlen

theorem Sorted.insertMapping {map : List Mapping} (h : Sorted map) (m : Mapping) :
    Sorted (insertMapping m map) := by
  induction map with
  | nil => exact List.pairwise_singleton _ _
  | cons a es ih =>
    obtain ⟨ha, hes⟩ := List.pairwise_cons.mp h
    rw [Path.insertMapping]
    split
    · rename_i hlt
      refine List.pairwise_cons.mpr ⟨fun b hb => ?_, h⟩
      rcases List.mem_cons.mp hb with rfl | hb
      · exact hlt.le
      · exact (ha b hb).trans hlt.le
    · rename_i hge
      refine List.pairwise_cons.mpr ⟨fun b hb => ?_, ih hes⟩
      rcases mem_insertMapping.mp hb with rfl | hb
      · exact Nat.le_of_not_lt hge
      · exact ha b hb

theorem nodup_dirs_insertMapping {m : Mapping} {map : List Mapping}
    (h : (map.map Mapping.dir).Nodup) (hm : ∀ e ∈ map, e.dir ≠ m.dir) :
    ((insertMapping m map).map Mapping.dir).Nodup := by
  induction map with
  | nil => exact List.nodup_singleton _
  | cons a es ih =>
    rw [List.map_cons, List.nodup_cons] at h
    have hes : ∀ e ∈ es, e.dir ≠ m.dir := fun e he => hm e (List.mem_cons_of_mem a he)
    rw [insertMapping]
    split
    · rw [List.map_cons, List.nodup_cons, List.map_cons, List.nodup_cons]
      refine ⟨fun hin => ?_, h⟩
      rw [← List.map_cons, List.mem_map] at hin
      obtain ⟨e, he, heq⟩ := hin
      exact hm e he heq
    · rw [List.map_cons, List.nodup_cons]
      refine ⟨fun hin => ?_, ih h.2 hes⟩
      obtain ⟨e, he, heq⟩ := List.mem_map.mp hin
      rcases mem_insertMapping.mp he with rfl | he
      · exact hm a List.mem_cons_self heq.symm
      · exact h.1 (List.mem_map.mpr ⟨e, he, heq⟩)

/-- The entry stored for a directory. -/
def entryFor (dir : CString) (map : List Mapping) : Option Mapping :=
  map.find? fun e => e.dir = dir

theorem entryFor_cons (dir : CString) (m : Mapping) (map : List Mapping) :
    entryFor dir (m :: map) = if m.dir = dir then some m else entryFor dir map := by
  rw [entryFor, List.find?_cons]
  by_cases h : m.dir = dir <;> simp [h, entryFor]

theorem entryFor_concat (dir : CString) (m : Mapping) (map : List Mapping) :
    entryFor dir (map ++ [m]) =
      (entryFor dir map).or (if m.dir = dir then some m else none) := by
  rw [entryFor, List.find?_append]
  by_cases h : m.dir = dir <;> simp [h, entryFor]

/-- The new entry goes behind the ones of its own length, so it is found only for a directory
without an entry. -/
theorem entryFor_insertMapping (dir : CString) (m : Mapping) {map : List Mapping}
    (hsorted : Sorted map) :
    entryFor dir (insertMapping m map) = entryFor dir (map ++ [m]) := by
  induction map with
  | nil => rfl
  | cons a es ih =>
    obtain ⟨ha, hes⟩ := List.pairwise_cons.mp hsorted
    rw [insertMapping]
    split
    · rename_i hlt
      rw [entryFor_cons, entryFor_concat]
      by_cases hm : m.dir = dir
      · -- every entry behind the insertion point has a shorter directory than `m`
        have hnone : entryFor dir (a :: es) = none := by
          rw [entryFor, List.find?_eq_none]
          intro e he heq
          have hdir : e.dir = m.dir := (of_decide_eq_true heq).trans hm.symm
          have hle : e.dir.strlen ≤ a.dir.strlen := by
            rcases List.mem_cons.mp he with rfl | he
            · exact le_rfl
            · exact ha e he
          rw [hdir] at hle
          omega
        rw [if_pos hm, hnone, Option.none_or, if_pos hm]
      · rw [if_neg hm, if_neg hm, Option.or_none]
    · rw [entryFor_cons, List.cons_append, entryFor_cons, ih hes]

/-! ## The table along a run of calls -/

/-- The table, and the mappings accepted so far. -/
structure PathMap where
  entries : List Mapping
  accepted : List Mapping
deriving DecidableEq

/-- One call of `wpdk_add_mapping`. -/
def PathMap.add (s : PathMap) (call : MapRequest × Fate) : PathMap where
  entries := addMapping s.entries call.1 call.2
  accepted :=
    match newMapping s.entries call.1 call.2 with
    | .error _ => s.accepted
    | .ok m => s.accepted ++ [m]

/-- A call returns in every state. -/
def PathMap.step (s : PathMap) (call : MapRequest × Fate) : Option PathMap := some (s.add call)

/-- No call has been made. -/
def PathMap.empty : PathMap := ⟨[], []⟩

/-- **The representation invariant of the table.** -/
structure TableInv (s : PathMap) : Prop where
  /-- There are at most `mapSize` entries. -/
  bounded : s.entries.length ≤ mapSize
  /-- No stored directory has two slashes in a row. -/
  squeezed : ∀ e ∈ s.entries, ¬ doubleSlash <:+: e.dir.chars
  /-- The entries are ordered by non-increasing length. -/
  sorted : Sorted s.entries
  /-- The stored directories are pairwise distinct ... -/
  distinct : (s.entries.map Mapping.dir).Nodup
  /-- ... with the first mapping accepted for a directory kept. -/
  firstKept : ∀ dir, entryFor dir s.entries = entryFor dir s.accepted
  /-- The recorded length is that of the stored directory. -/
  len_eq : ∀ e ∈ s.entries, e.len = e.dir.strlen

theorem tableInv_empty : TableInv PathMap.empty where
  bounded := Nat.zero_le _
  squeezed := by simp [PathMap.empty]
  sorted := List.Pairwise.nil
  distinct := List.nodup_nil
  firstKept _ := rfl
  len_eq := by simp [PathMap.empty]

/-- The condition on a call: if it passes the tests, the directory is passed as it is stored. -/
def StoresNormal (s : PathMap) (call : MapRequest × Fate) : Prop :=
  Accepts s.entries call.1 call.2 → Normal call.1.dir

theorem PathMap.add_of_error {s : PathMap} {call : MapRequest × Fate} {r : Refusal}
    (h : newMapping s.entries call.1 call.2 = .error r) : s.add call = s := by
  simp [PathMap.add, addMapping, h]

theorem PathMap.add_of_ok {s : PathMap} {call : MapRequest × Fate} {m : Mapping}
    (h : newMapping s.entries call.1 call.2 = .ok m) :
    s.add call = ⟨insertMapping m s.entries, s.accepted ++ [m]⟩ := by
  simp [PathMap.add, addMapping, h]

theorem TableInv.add {s : PathMap} (h : TableInv s) {call : MapRequest × Fate}
    (hnormal : StoresNormal s call) : TableInv (s.add call) := by
  cases hnew : newMapping s.entries call.1 call.2 with
  | error r =>
    rw [PathMap.add_of_error hnew]
    exact h
  | ok m =>
    obtain ⟨haccepts, hdir, hlen⟩ := newMapping_ok hnew
    have hstored : storedDir call.1.dir = call.1.dir := storedDir_of_normal (hnormal haccepts)
    rw [PathMap.add_of_ok hnew]
    refine ⟨?_, fun e he => ?_, h.sorted.insertMapping m, ?_, fun dir => ?_, fun e he => ?_⟩
    · rw [length_insertMapping]
      exact haccepts.room
    · rcases mem_insertMapping.mp he with rfl | he
      · rw [hdir]
        exact not_doubleSlash_infix_storedDir _
      · exact h.squeezed e he
    · refine nodup_dirs_insertMapping h.distinct fun e he => ?_
      rw [hdir, hstored]
      exact haccepts.fresh e he
    · rw [entryFor_insertMapping dir m h.sorted, entryFor_concat, entryFor_concat,
        h.firstKept dir]
    · rcases mem_insertMapping.mp he with rfl | he
      · rw [hlen, hdir, hstored]
      · exact h.len_eq e he

/-- A directory that is changed on its way into the table leaves an entry whose recorded length
is too large. -/
theorem not_tableInv_add {s : PathMap} {call : MapRequest × Fate}
    (h : ¬ StoresNormal s call) : ¬ TableInv (s.add call) := by
  intro hinv
  obtain ⟨haccepts, hnormal⟩ := Classical.not_imp.mp h
  obtain ⟨m, hnew⟩ := haccepts.exists_newMapping
  obtain ⟨-, hdir, hlen⟩ := newMapping_ok hnew
  rw [PathMap.add_of_ok hnew] at hinv
  have heq := hinv.len_eq m (mem_insertMapping.mpr (Or.inl rfl))
  rw [hlen, hdir] at heq
  have hlt := strlen_storedDir_lt hnormal
  omega

/-- **The invariant along a run.**  Whatever the calls are and however the existence checks and
the allocations end, the invariant holds after every call exactly when each call that passes the
tests is given a directory that has no two slashes in a row and is not `/`. -/
theorem tableInv_iff_normal (calls : List (MapRequest × Fate)) :
    Throughout PathMap.step TableInv PathMap.empty calls ↔
      EachStep PathMap.step StoresNormal PathMap.empty calls := by
  refine throughout_iff_eachStep (I := TableInv) (fun _ h => h) ?_ ?_ tableInv_empty
  · intro s call s' h hnormal hstep
    obtain rfl := Option.some.inj hstep
    exact h.add hnormal
  · intro s call _ hnormal
    exact ⟨_, rfl, not_tableInv_add hnormal⟩

/-- **The invariant is lost.**  `/tmp` is mapped, and then `//tmp`, as `WPDKPATHMAP` can ask for:
the duplicate check compares `/tmp` with `//tmp`, so the table gets a second entry for `/tmp`,
with the length of `//tmp`. -/
theorem tableInv_lost_by_double_slash :
    ∃ tmp : CString, tmp.chars = ['/', 't', 'm', 'p'] ∧
    ∃ tmp' : CString, tmp'.chars = '/' :: tmp.chars ∧
    ∃ a b : CString, a ≠ b ∧
    ∃ s, exec PathMap.step PathMap.empty
        [(⟨tmp, some a, false⟩, ⟨true, true, true⟩),
          (⟨tmp', some b, false⟩, ⟨true, true, true⟩)] = some s ∧
      s.entries = [⟨tmp, a, 4⟩, ⟨tmp, b, 5⟩] ∧ ¬ TableInv s := by
  refine ⟨⟨['/', 't', 'm', 'p'], by decide⟩, rfl, ⟨['/', '/', 't', 'm', 'p'], by decide⟩, rfl,
    ⟨['A'], by decide⟩, ⟨['B'], by decide⟩, by decide, _, rfl, by decide, fun h => ?_⟩
  exact absurd h.distinct (by decide)

/-! ## What holds of every table -/

/-- The table is sorted whatever the directories are: the insertion compares stored lengths. -/
theorem sorted_addMapping {map : List Mapping} (h : Sorted map) (r : MapRequest) (f : Fate) :
    Sorted (addMapping map r f) := by
  unfold addMapping
  split
  · exact h
  · exact h.insertMapping _

/-- The recorded length is never too small. -/
theorem len_addMapping {map : List Mapping} (h : ∀ e ∈ map, e.dir.strlen ≤ e.len)
    (r : MapRequest) (f : Fate) : ∀ e ∈ addMapping map r f, e.dir.strlen ≤ e.len := by
  unfold addMapping
  split
  · exact h
  · rename_i m hnew
    obtain ⟨-, hdir, hlen⟩ := newMapping_ok hnew
    intro e he
    rcases mem_insertMapping.mp he with rfl | he
    · rw [hdir, hlen]
      exact strlen_storedDir_le _
    · exact h e he

end Path
end Wpdk
