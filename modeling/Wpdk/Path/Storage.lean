import Wpdk.Dirent.Stream
import Wpdk.Path.Longest
import Wpdk.Socket.Calls

/-!
# Where the path is kept

`wpdk_get_path` returns a null pointer, its argument, or the buffer of the caller with the mapped
path in it.  For a name directly under `/` it looks up a path in a local array of
`wpdk_remap_root_file`, and when no entry of the table applies to that path it returns it, although
the array is gone.

`wpdk_copy_path` is to leave the path in the buffer in any case, and to return a null pointer if it
cannot.  It copies when `wpdk_get_path` has returned the argument, and takes it that the buffer has
been filled otherwise; that the result is a null pointer is not looked at again.  Its callers test
for a null pointer and go on with what is in the buffer.

* `getPathArg`, `bufferAfter`, `copyPath`: the two functions on a pointer that may be null, and
  what they leave in the buffer.
* `getPath_cases`, `getPath_caller_owned_iff`: what is returned, and when it is a dead array.
* `PathCaller.goesOn`: what `wpdk_bind`, `wpdk_connect`, `wpdk_opendir` and `wpdk_mkstemp` go on
  with.
* `Placed`: the paths that can be put into the buffer.
* `copyPath_reports_iff`: failures are reported exactly for those, that is when there is none.
-/

namespace Wpdk
namespace Path

/-! ## The pointer that is returned -/

/-- `wpdk_get_path` on a pointer that may be null. -/
def getPathArg (map : List Mapping) (len : ℕ) (scratch : List Char) (path : Option CString)
    (after : List Char) : PathResult :=
  match path with
  | none => .null
  | some p => getPath map len scratch p after

/-- **Only storage of the caller is returned**; a string in the buffer has room for its
terminator. -/
def CallerOwned (len : ℕ) : PathResult → Prop
  | .null => True
  | .path => True
  | .buffer s => s.strlen < len
  | .calleeLocal => False

/-- A name directly under `/` that fits under `/tmp` and to which no entry applies there. -/
def LeaksLocal (map : List Mapping) (scratch : List Char) (path : CString) : Prop :=
  rootFile path = true ∧ (CString.lit "/tmp" ++ path).strlen < maxPath ∧
    ∀ e ∈ map, applies (CString.lit "/tmp" ++ path) scratch e = false

section Lookup

variable {map : List Mapping} {len : ℕ} {path : CString} {scratch after : List Char}

theorem callerOwned_lookup : CallerOwned len (lookup map len path after) := by
  unfold lookup
  split
  · trivial
  · rw [strcpyS_bind_strcatS, ← CString.strlen_append]
    split
    · trivial
    · rename_i s hs
      split_ifs at hs with hfit
      rwa [← Option.some.inj hs]

/-- The ways in which `wpdk_get_path` ends. -/
theorem getPath_cases (map : List Mapping) (len : ℕ) (scratch : List Char) (path : CString)
    (after : List Char) :
    (path.chars = [] ∧ getPath map len scratch path after = .path) ∨
      (maxPath ≤ (placeOf path).strlen ∧ getPath map len scratch path after = .null) ∨
      (LeaksLocal map scratch path ∧ getPath map len scratch path after = .calleeLocal) ∨
      (path.chars ≠ [] ∧ (placeOf path).strlen < maxPath ∧ ¬ LeaksLocal map scratch path ∧
        getPath map len scratch path after =
          lookup map len (placeOf path) (if rootFile path then scratch else after)) := by
  by_cases hnil : path.chars = []
  · exact Or.inl ⟨hnil, getPath_of_nil hnil⟩
  right
  unfold placeOf
  cases hroot : rootFile path with
  | false =>
    simp only [Bool.false_eq_true, if_false]
    by_cases hlong : maxPath ≤ path.strlen
    · exact Or.inl ⟨hlong, getPath_of_long hlong⟩
    · refine Or.inr (Or.inr ⟨hnil, Nat.lt_of_not_le hlong, fun h => ?_, ?_⟩)
      · rw [h.1] at hroot
        cases hroot
      · exact getPath_of_not_rootFile hnil (Nat.lt_of_not_le hlong) hroot
  | true =>
    simp only [if_true]
    by_cases hlong : maxPath ≤ (CString.lit "/tmp" ++ path).strlen
    · refine Or.inl ⟨hlong, ?_⟩
      by_cases hlen : path.strlen < maxPath
      · exact getPath_of_rootFile_long hroot hlen hlong
      · exact getPath_of_long (Nat.le_of_not_lt hlen)
    · right
      have hfit := Nat.lt_of_not_le hlong
      rw [getPath_of_rootFile hroot hfit]
      by_cases hnone : ∀ e ∈ map, applies (CString.lit "/tmp" ++ path) scratch e = false
      · have hpath : lookup map len (CString.lit "/tmp" ++ path) scratch = .path :=
          lookup_eq_path_iff.mpr (List.find?_eq_none.mpr fun e he => by simp [hnone e he])
        exact Or.inl ⟨⟨hroot, hfit, hnone⟩, by rw [hpath]⟩
      · refine Or.inr ⟨hnil, hfit, fun h => hnone h.2.2, ?_⟩
        cases hlook : lookup map len (CString.lit "/tmp" ++ path) scratch with
        | path =>
          refine absurd (fun e he => ?_) hnone
          simpa using List.find?_eq_none.mp (lookup_eq_path_iff.mp hlook) e he
        | null => rfl
        | buffer s => rfl
        | calleeLocal => rfl

end Lookup

/-- **Who owns the result.**  For every table, path and buffer, the result is storage of the caller
if and only if the path is not a name directly under `/` to which no entry applies. -/
theorem getPath_caller_owned_iff (map : List Mapping) (len : ℕ) (scratch : List Char)
    (path : Option CString) (after : List Char) :
    CallerOwned len (getPathArg map len scratch path after) ↔
      ∀ p, path = some p → ¬ LeaksLocal map scratch p := by
  cases path with
  | none => exact iff_of_true trivial fun p h => by cases h
  | some p =>
    have hsome : (∀ q, some p = some q → ¬ LeaksLocal map scratch q) ↔
        ¬ LeaksLocal map scratch p :=
      ⟨fun h => h p rfl, fun h q hq => Option.some.inj hq ▸ h⟩
    rw [hsome, getPathArg]
    rcases getPath_cases map len scratch p after with
      ⟨hnil, hget⟩ | ⟨hlong, hget⟩ | ⟨hleak, hget⟩ | ⟨-, -, hkeep, hget⟩
    · rw [hget]
      exact iff_of_true trivial fun h => ne_nil_of_rootFile h.1 hnil
    · rw [hget]
      refine iff_of_true trivial fun h => ?_
      rw [placeOf, if_pos h.1] at hlong
      exact absurd h.2.1 (Nat.not_lt.mpr hlong)
    · rw [hget]
      exact iff_of_false id fun h => h hleak
    · rw [hget]
      exact iff_of_true callerOwned_lookup hkeep

/-- An environment in which nothing is set. -/
def bareEnv : MapEnv where
  pathmap := none
  systemDrive := none
  currentDirectory := none
  msystemPrefix := none
  tmp := none
  fate _ := ⟨true, true, true⟩

/-- With nothing in the environment there is no entry for `/tmp`, and `/x` is answered with the
local array. -/
theorem getPath_leaks_local :
    initMap bareEnv = [] ∧ LeaksLocal (initMap bareEnv) [] (CString.lit "/x") ∧
      getPathArg (initMap bareEnv) 260 [] (some (CString.lit "/x")) [] = .calleeLocal := by
  have hmap : initMap bareEnv = [] := by decide
  rw [hmap]
  refine ⟨rfl, ⟨by decide, by decide, by simp⟩, ?_⟩
  rw [getPathArg, getPath_of_rootFile (by decide) (by decide)]
  decide

/-! ## The buffer -/

/-- What a function has done to the buffer: a bounded copy that fails leaves an empty string. -/
inductive BufferState where
  | untouched
  | emptied
  | holds (s : CString)
deriving DecidableEq

/-- The buffer after the loop over the table. -/
def lookupBuffer (map : List Mapping) (len : ℕ) (path : CString) (after : List Char) :
    BufferState :=
  match map.find? (applies path after) with
  | none => .untouched
  | some e =>
    match (strcpyS len e.dest).bind fun buf =>
        strcatS len buf (CString.ofMemory (path.memory after) e.len) with
    | none => .emptied
    | some s => .holds s

/-- The buffer after `wpdk_get_path`. -/
def bufferAfter (map : List Mapping) (len : ℕ) (scratch : List Char) (path : CString)
    (after : List Char) : BufferState :=
  if path.chars = [] ∨ maxPath ≤ path.strlen then .untouched
  else if rootFile path then
    match remapRootFile path with
    | none => .untouched
    | some buf => lookupBuffer map len buf scratch
  else lookupBuffer map len path after

/-- What `wpdk_copy_path` returns: a null pointer, or the buffer. -/
inductive CopyResult where
  | null
  | buffer (b : BufferState)
deriving DecidableEq

/-- `wpdk_copy_path`. -/
def copyPath (map : List Mapping) (len : ℕ) (scratch : List Char) (path : Option CString)
    (after : List Char) : CopyResult :=
  match path with
  | none => .buffer .untouched
  | some p =>
    match getPath map len scratch p after with
    | .path =>
      match strcpyS len p with
      | none => .null
      | some s => .buffer (.holds s)
    | _ => .buffer (bufferAfter map len scratch p after)

/-- The buffer after the loop over the table, by what is returned. -/
theorem lookupBuffer_eq (map : List Mapping) (len : ℕ) (path : CString) (after : List Char) :
    lookupBuffer map len path after =
      match lookup map len path after with
      | .null => .emptied
      | .buffer s => .holds s
      | _ => .untouched := by
  unfold lookup lookupBuffer
  cases map.find? (applies path after) with
  | none => rfl
  | some e =>
    dsimp only
    cases (strcpyS len e.dest).bind fun buf =>
        strcatS len buf (CString.ofMemory (path.memory after) e.len) with
    | none => rfl
    | some s => rfl

theorem remapRootFile_of_fits {path : CString}
    (hfit : (CString.lit "/tmp" ++ path).strlen < maxPath) :
    remapRootFile path = some (CString.lit "/tmp" ++ path) := by
  rw [remapRootFile, strcpyS_bind_strcatS, ← CString.strlen_append, if_pos hfit]

/-- A path that does not fit where it belongs is not looked up. -/
theorem bufferAfter_of_long {map : List Mapping} {len : ℕ} {scratch after : List Char}
    {path : CString} (hlong : maxPath ≤ (placeOf path).strlen) :
    bufferAfter map len scratch path after = .untouched := by
  unfold bufferAfter
  unfold placeOf at hlong
  cases hroot : rootFile path with
  | false =>
    rw [hroot] at hlong
    exact if_pos (Or.inr hlong)
  | true =>
    rw [hroot, if_pos rfl] at hlong
    have hremap : remapRootFile path = none := by
      rw [remapRootFile, strcpyS_bind_strcatS, ← CString.strlen_append,
        if_neg (Nat.not_lt.mpr hlong)]
    rw [if_pos rfl, hremap]
    split <;> rfl

/-- The buffer is that of the loop over the table. -/
theorem bufferAfter_of_fits {map : List Mapping} {len : ℕ} {scratch after : List Char}
    {path : CString} (hne : path.chars ≠ []) (hfit : (placeOf path).strlen < maxPath) :
    bufferAfter map len scratch path after =
      lookupBuffer map len (placeOf path) (if rootFile path then scratch else after) := by
  unfold bufferAfter
  unfold placeOf at hfit ⊢
  cases hroot : rootFile path with
  | false =>
    rw [hroot] at hfit
    simp only [Bool.false_eq_true, if_false] at hfit ⊢
    exact if_neg (not_or.mpr ⟨hne, Nat.not_le.mpr hfit⟩)
  | true =>
    rw [hroot] at hfit
    simp only [if_true] at hfit ⊢
    have hshort : ¬ maxPath ≤ path.strlen := by
      rw [CString.strlen_append] at hfit
      omega
    rw [if_neg (not_or.mpr ⟨hne, hshort⟩), remapRootFile_of_fits hfit]

/-- The string that `wpdk_get_path` returns in the buffer is in the buffer. -/
theorem bufferAfter_of_buffer {map : List Mapping} {len : ℕ} {scratch after : List Char}
    {path s : CString} (h : getPath map len scratch path after = .buffer s) :
    bufferAfter map len scratch path after = .holds s := by
  rcases getPath_cases map len scratch path after with
    ⟨-, hget⟩ | ⟨-, hget⟩ | ⟨-, hget⟩ | ⟨hne, hfit, -, hget⟩
  · rw [hget] at h
    cases h
  · rw [hget] at h
    cases h
  · rw [hget] at h
    cases h
  · rw [hget] at h
    rw [bufferAfter_of_fits hne hfit, lookupBuffer_eq, h]

/-! ## The callers -/

/-- What a caller finds in the buffer; `garbage` is what was there before. -/
def CopyResult.content (garbage : CString) : CopyResult → Option CString
  | .null => none
  | .buffer .untouched => some garbage
  | .buffer .emptied => some (CString.lit "")
  | .buffer (.holds s) => some s

section Content

variable {map : List Mapping} {len : ℕ} {scratch after : List Char} {p : CString}

/-- A path that is looked up leaves its place in the buffer, or the empty string if that does not
fit. -/
theorem content_copyPath_of_fits (garbage : CString) (hlen : p.strlen < len)
    (hfit : (placeOf p).strlen < maxPath) (hkeep : ¬ LeaksLocal map scratch p) :
    (copyPath map len scratch (some p) after).content garbage =
      some (((getPath map len scratch p after).value p).getD (CString.lit "")) := by
  rw [copyPath]
  rcases getPath_cases map len scratch p after with
    ⟨-, hget⟩ | ⟨hlong, -⟩ | ⟨hleak, -⟩ | ⟨hne, -, -, hget⟩
  · rw [hget]
    simp only [strcpyS, if_pos hlen]
    rfl
  · exact absurd hfit (Nat.not_lt.mpr hlong)
  · exact absurd hleak hkeep
  · rw [bufferAfter_of_fits hne hfit, lookupBuffer_eq, ← hget]
    cases hcase : getPath map len scratch p after with
    | path =>
      simp only [strcpyS, if_pos hlen]
      rfl
    | null => rfl
    | buffer s => rfl
    | calleeLocal =>
      have howned : CallerOwned len (lookup map len (placeOf p)
          (if rootFile p then scratch else after)) := callerOwned_lookup
      rw [← hget, hcase] at howned
      exact howned.elim

/-- A path that is not looked up, or that is found in the dead array, leaves the buffer as it
was. -/
theorem content_copyPath_of_not_fits (garbage : CString)
    (h : maxPath ≤ (placeOf p).strlen ∨ LeaksLocal map scratch p) (hne : p.chars ≠ []) :
    (copyPath map len scratch (some p) after).content garbage = some garbage := by
  rw [copyPath]
  rcases getPath_cases map len scratch p after with
    ⟨hnil, -⟩ | ⟨hlong, hget⟩ | ⟨hleak, hget⟩ | ⟨-, hfit, hkeep, -⟩
  · exact absurd hnil hne
  · rw [hget, bufferAfter_of_long hlong]
    rfl
  · have hplace : placeOf p = CString.lit "/tmp" ++ p := if_pos hleak.1
    have hlook : lookup map len (placeOf p) (if rootFile p then scratch else after) = .path := by
      rw [hplace, if_pos hleak.1, lookup_eq_path_iff, List.find?_eq_none]
      exact fun e he => by simp [hleak.2.2 e he]
    rw [hget, bufferAfter_of_fits hne (by rw [hplace]; exact hleak.2.1), lookupBuffer_eq, hlook]
    rfl
  · rcases h with hlong | hleak
    · exact absurd hfit (Nat.not_lt.mpr hlong)
    · exact absurd hleak hkeep

end Content

/-- `wpdk_mkstemp` up to `_mktemp`. -/
def mkstempPath (copyPath : CString → Option CString) (template : Option CString) :
    Except Errno CString :=
  match template with
  | none => .error .einval
  | some t =>
    if t.strlen < 6 ∨ maxPath ≤ t.strlen ∨ t.drop (t.strlen - 6) ≠ CString.lit "XXXXXX" then
      .error .einval
    else
      match copyPath t with
      | none => .error .einval
      | some path => .ok path

/-- The functions that call `wpdk_copy_path`. -/
inductive PathCaller where
  | bind
  | connect
  | opendir
  | mkstemp
deriving DecidableEq

/-- The size of the buffer. -/
def PathCaller.size : PathCaller → ℕ
  | .bind => Socket.sunPathSize
  | .connect => Socket.sunPathSize
  | .opendir => maxPath - 2
  | .mkstemp => maxPath

/-- The path that a caller goes on with, if it does. -/
def PathCaller.goesOn (c : PathCaller) (copy : ℕ → CString → Option CString) (path : CString) :
    Option CString :=
  match c with
  | .bind | .connect =>
    match Socket.mapAddress copy (.unix path) Socket.sizeofUn with
    | .ok (.unix mapped, _) => some mapped
    | _ => none
  | .opendir =>
    match Dirent.dirSpec (copy c.size) (some path) true with
    | .ok spec => some spec
    | .error _ => none
  | .mkstemp =>
    match mkstempPath (copy c.size) (some path) with
    | .ok mapped => some mapped
    | .error _ => none

/-- The address that `wpdk_bind` and `wpdk_connect` pass on has what is in the buffer. -/
theorem copy_of_mapAddress {copy : ℕ → CString → Option CString} {path mapped : CString}
    (h : (match Socket.mapAddress copy (.unix path) Socket.sizeofUn with
      | .ok (.unix mapped, _) => some mapped
      | _ => none) = some mapped) :
    copy Socket.sunPathSize path = some mapped := by
  rw [Socket.mapAddress, if_neg (lt_irrefl _)] at h
  cases hcopy : copy Socket.sunPathSize path with
  | none =>
    rw [hcopy] at h
    cases h
  | some q =>
    rw [hcopy] at h
    exact h

/-- A caller goes on only with what is in the buffer. -/
theorem PathCaller.copy_of_goesOn {c : PathCaller} {copy : ℕ → CString → Option CString}
    {path mapped : CString} (h : c.goesOn copy path = some mapped) :
    copy c.size path = some mapped := by
  cases c with
  | bind => exact copy_of_mapAddress h
  | connect => exact copy_of_mapAddress h
  | opendir =>
    cases hcopy : copy PathCaller.opendir.size path with
    | none =>
      simp only [goesOn, Dirent.dirSpec, hcopy] at h
      split_ifs at h
    | some q =>
      simp only [goesOn, Dirent.dirSpec, hcopy] at h
      split_ifs at h
      exact h
  | mkstemp =>
    cases hcopy : copy PathCaller.mkstemp.size path with
    | none =>
      simp only [goesOn, mkstempPath, hcopy] at h
      split_ifs at h
    | some q =>
      simp only [goesOn, mkstempPath, hcopy] at h
      split_ifs at h
      exact h

/-! ## Reporting failures -/

/-- **Every failure is reported.**  A null pointer is returned exactly when `wpdk_get_path` fails
or the path it returns does not fit; otherwise the buffer holds the string that `wpdk_get_path`
stands for; and a caller with a buffer of this size goes on only with that string. -/
structure CopyReports (map : List Mapping) (len : ℕ) (scratch : List Char)
    (path : Option CString) (after : List Char) : Prop where
  null_iff : copyPath map len scratch path after = .null ↔
    getPathArg map len scratch path after = .null ∨
      getPathArg map len scratch path after = .path ∧ ∃ p, path = some p ∧ len ≤ p.strlen
  filled : ∀ b, copyPath map len scratch path after = .buffer b →
    ∃ p s, path = some p ∧ b = .holds s ∧
      (getPathArg map len scratch path after).value p = some s
  callers : ∀ c : PathCaller, c.size = len → ∀ p, path = some p → ∀ garbage mapped,
    c.goesOn (fun len q => (copyPath map len scratch (some q) after).content garbage) p =
        some mapped →
      (getPathArg map len scratch path after).value p = some mapped

section Reports

variable {map : List Mapping} {len : ℕ} {scratch after : List Char} {p s : CString}

/-- The buffer holds the string that `wpdk_get_path` stands for. -/
theorem CopyReports.of_holds
    (hcopy : copyPath map len scratch (some p) after = .buffer (.holds s))
    (hfit : ¬ (getPath map len scratch p after = .path ∧ len ≤ p.strlen))
    (hvalue : (getPath map len scratch p after).value p = some s) :
    CopyReports map len scratch (some p) after where
  null_iff := by
    rw [hcopy]
    refine iff_of_false CopyResult.noConfusion ?_
    rintro (hnull | ⟨hpath, q, hq, hlong⟩)
    · rw [show getPath map len scratch p after = .null from hnull] at hvalue
      cases hvalue
    · exact hfit ⟨hpath, Option.some.inj hq ▸ hlong⟩
  filled b hb := by
    rw [hcopy] at hb
    exact ⟨p, s, rfl, (CopyResult.buffer.inj hb).symm, hvalue⟩
  callers c hsize q hq garbage mapped hgoes := by
    obtain rfl := Option.some.inj hq
    have hcontent := PathCaller.copy_of_goesOn hgoes
    rw [hsize, hcopy] at hcontent
    exact hvalue.trans hcontent

/-- The path is returned as it is and does not fit. -/
theorem CopyReports.of_null (hcopy : copyPath map len scratch (some p) after = .null)
    (hpath : getPath map len scratch p after = .path) (hlong : len ≤ p.strlen) :
    CopyReports map len scratch (some p) after where
  null_iff := iff_of_true hcopy (Or.inr ⟨hpath, p, rfl, hlong⟩)
  filled b hb := by
    rw [hcopy] at hb
    cases hb
  callers c hsize q hq garbage mapped hgoes := by
    obtain rfl := Option.some.inj hq
    have hcontent := PathCaller.copy_of_goesOn hgoes
    rw [hsize, hcopy] at hcontent
    cases hcontent

end Reports

/-- `wpdk_get_path` has returned its argument or the buffer. -/
def Resolved (r : PathResult) : Prop := r ≠ .null ∧ r ≠ .calleeLocal

/-- What follows the path that is looked up: the string behind the argument, or what is in the local
array of `wpdk_remap_root_file`. -/
def behindPlace (scratch after : List Char) (p : CString) : List Char :=
  if rootFile p then scratch else after

/-- **The path can be put into the buffer**: it is short enough where it belongs; a name directly
under `/` is mapped there; and what the first entry that applies makes of it fits.  Nothing is
looked up for the empty path. -/
structure Placed (map : List Mapping) (len : ℕ) (scratch after : List Char) (p : CString) :
    Prop where
  short : (placeOf p).strlen < maxPath
  mapped : rootFile p = true → ∃ e ∈ map, applies (placeOf p) scratch e = true
  fits : p.chars ≠ [] →
    ∀ e, map.find? (applies (placeOf p) (behindPlace scratch after p)) = some e →
    e.dest.strlen +
      (CString.ofMemory ((placeOf p).memory (behindPlace scratch after p)) e.len).strlen < len

section Resolved

variable {map : List Mapping} {len : ℕ} {scratch after : List Char} {p : CString}

/-- The loop over the table fails if and only if the first entry that applies has no room. -/
theorem lookup_ne_null_iff {path : CString} :
    lookup map len path after ≠ .null ↔ ∀ e, map.find? (applies path after) = some e →
      e.dest.strlen + (CString.ofMemory (path.memory after) e.len).strlen < len := by
  unfold lookup
  cases map.find? (applies path after) with
  | none => simp
  | some e =>
    simp only [strcpyS_bind_strcatS, Option.some.injEq, forall_eq']
    by_cases hfit : e.dest.strlen + (CString.ofMemory (path.memory after) e.len).strlen < len
    · simp [hfit]
    · simp [hfit]

theorem not_leaksLocal_iff (hshort : (placeOf p).strlen < maxPath) :
    ¬ LeaksLocal map scratch p ↔
      (rootFile p = true → ∃ e ∈ map, applies (placeOf p) scratch e = true) := by
  constructor
  · intro hkeep hroot
    have hplace : placeOf p = CString.lit "/tmp" ++ p := if_pos hroot
    rw [hplace] at hshort ⊢
    by_contra hnone
    refine hkeep ⟨hroot, hshort, fun e he => Bool.eq_false_iff.mpr fun happ => ?_⟩
    exact hnone ⟨e, he, happ⟩
  · rintro hmapped ⟨hroot, -, hnone⟩
    obtain ⟨e, he, happ⟩ := hmapped hroot
    rw [show placeOf p = CString.lit "/tmp" ++ p from if_pos hroot, hnone e he] at happ
    cases happ

/-- **When `wpdk_get_path` succeeds**, in terms of the path and the table. -/
theorem resolved_iff_placed :
    Resolved (getPath map len scratch p after) ↔ Placed map len scratch after p := by
  rcases getPath_cases map len scratch p after with
    ⟨hnil, hget⟩ | ⟨hlong, hget⟩ | ⟨hleak, hget⟩ | ⟨hne, hshort, hkeep, hget⟩
  · have hroot : rootFile p = false := Bool.eq_false_iff.mpr fun h => ne_nil_of_rootFile h hnil
    have hplace : placeOf p = p := if_neg (by rw [hroot]; decide)
    have hzero : p.strlen = 0 := by rw [CString.strlen, hnil, List.length_nil]
    rw [hget]
    refine iff_of_true ⟨?_, ?_⟩ ⟨?_, fun h => ?_, fun h => absurd hnil h⟩
    · decide
    · decide
    · rw [hplace, hzero]
      decide
    · rw [hroot] at h
      cases h
  · rw [hget]
    exact iff_of_false (fun h => h.1 rfl) fun h => absurd h.short (Nat.not_lt.mpr hlong)
  · rw [hget]
    refine iff_of_false (fun h => h.2 rfl) fun h => ?_
    exact (not_leaksLocal_iff h.short).mpr h.mapped hleak
  · have howned : lookup map len (placeOf p) (behindPlace scratch after p) ≠ .calleeLocal := by
      intro hlocal
      have h : CallerOwned len (lookup map len (placeOf p) (behindPlace scratch after p)) :=
        callerOwned_lookup
      rwa [hlocal] at h
    rw [hget]
    constructor
    · rintro ⟨hnull, -⟩
      exact ⟨hshort, (not_leaksLocal_iff hshort).mp hkeep, fun _ => lookup_ne_null_iff.mp hnull⟩
    · exact fun h => ⟨lookup_ne_null_iff.mpr (h.fits hne), howned⟩

/-- Every failure is reported exactly if there is none. -/
theorem copyReports_iff_resolved (path : Option CString) :
    CopyReports map len scratch path after ↔
      Resolved (getPathArg map len scratch path after) := by
  constructor
  · intro h
    constructor
    · intro hnull
      have hcopy := h.null_iff.mpr (Or.inl hnull)
      cases path with
      | none => cases hcopy
      | some p =>
        rw [copyPath, show getPath map len scratch p after = .null from hnull] at hcopy
        cases hcopy
    · intro hlocal
      cases path with
      | none => cases hlocal
      | some p =>
        have hget : getPath map len scratch p after = .calleeLocal := hlocal
        obtain ⟨q, s, -, -, hvalue⟩ := h.filled (bufferAfter map len scratch p after)
          (by rw [copyPath, hget])
        rw [hlocal] at hvalue
        cases hvalue
  · rintro ⟨hnull, hlocal⟩
    cases path with
    | none => exact absurd rfl hnull
    | some p =>
      cases hget : getPath map len scratch p after with
      | null => exact absurd hget hnull
      | calleeLocal => exact absurd hget hlocal
      | buffer s =>
        refine CopyReports.of_holds (s := s) ?_ ?_ (by rw [hget]; rfl)
        · rw [copyPath, hget]
          exact congrArg CopyResult.buffer (bufferAfter_of_buffer hget)
        · rintro ⟨hpath, -⟩
          rw [hget] at hpath
          cases hpath
      | path =>
        by_cases hfit : p.strlen < len
        · refine CopyReports.of_holds (s := p) ?_ (fun h => absurd hfit (Nat.not_lt.mpr h.2))
            (by rw [hget]; rfl)
          rw [copyPath, hget]
          simp only [strcpyS, if_pos hfit]
        · refine CopyReports.of_null ?_ hget (Nat.le_of_not_lt hfit)
          rw [copyPath, hget]
          simp only [strcpyS, if_neg hfit]

end Resolved

/-- For every table, path and buffer, every failure is reported if and only if the path is not a
null pointer and can be put into the buffer: it is below `PATH_MAX` where it belongs, it is mapped
if it is a name directly under `/`, and the result of the first entry that applies fits. -/
theorem copyPath_reports_iff (map : List Mapping) (len : ℕ) (scratch : List Char)
    (path : Option CString) (after : List Char) :
    CopyReports map len scratch path after ↔
      ∃ p, path = some p ∧ Placed map len scratch after p := by
  rw [copyReports_iff_resolved]
  cases path with
  | none =>
    refine iff_of_false (fun h => h.1 rfl) ?_
    rintro ⟨p, hp, -⟩
    cases hp
  | some p =>
    rw [getPathArg, resolved_iff_placed]
    constructor
    · exact fun h => ⟨p, rfl, h⟩
    · rintro ⟨q, hq, h⟩
      rwa [Option.some.inj hq]

/-- A table in which `/tmp` has a destination of 120 characters. -/
def longTable : List Mapping :=
  [⟨CString.lit "/tmp", ⟨List.replicate 120 'T', by decide⟩, 4⟩]

/-- The mapped path of `/tmp/s` does not fit the 108 bytes of a socket address, so that
`wpdk_get_path` fails.  `wpdk_copy_path` returns the buffer, and `wpdk_bind` goes on with an empty
name; for a null pointer the buffer comes back untouched. -/
theorem copyPath_hides_failure :
    getPathArg longTable 108 [] (some (CString.lit "/tmp/s")) [] = .null ∧
      copyPath longTable 108 [] (some (CString.lit "/tmp/s")) [] = .buffer .emptied ∧
      PathCaller.bind.goesOn
        (fun len q => (copyPath longTable len [] (some q) []).content (CString.lit "garbage"))
        (CString.lit "/tmp/s") = some (CString.lit "") ∧
      copyPath longTable 108 [] none [] = .buffer .untouched := by
  have hget : getPath longTable 108 [] (CString.lit "/tmp/s") [] = .null := by
    rw [getPath_of_not_rootFile (by decide) (by decide) (by decide)]
    decide +kernel
  have hcopy : copyPath longTable 108 [] (some (CString.lit "/tmp/s")) [] = .buffer .emptied := by
    rw [copyPath, hget]
    decide +kernel
  refine ⟨hget, hcopy, ?_, rfl⟩
  simp only [PathCaller.goesOn, Socket.mapAddress, if_neg (lt_irrefl Socket.sizeofUn)]
  rw [show Socket.sunPathSize = 108 from rfl, hcopy]
  rfl

end Path
end Wpdk
