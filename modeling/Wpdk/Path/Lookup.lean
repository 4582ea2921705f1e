import Mathlib.Data.List.Find
import Wpdk.Path.Mapping

/-!
# Looking up a path

`wpdk_init_map`, which fills the table from the environment, and `wpdk_get_path`, which every
function taking a file name passes the name through.  There are two rules.  A name directly
under `/` stands for the same name under `/tmp`; any other path is rewritten by the first entry
of the table whose directory it begins with, a slash being required behind it.

An offset into the path is an offset into memory here: `len` is the length of the directory
before repeated slashes were removed from it, so `path[map[i].len]` may lie behind the
terminator, and the outcome then depends on what follows the string in the caller's buffer.

* `initRequests`, `initMap`: the calls of `wpdk_add_mapping` in their order, and their table.
* `remapRootFile`, `lookup`, `getPath`: the two rules.
* `placeOf`: the path that a name stands for under the first rule alone.
* `getPath_child`: a file in a directory goes where the directory goes, for a directory at
  `placeOf p` that is not itself mapped.
* `getPath_splits_directories`: it does not for a directory directly under `/`, nor for one that
  is mapped.
-/

namespace Wpdk
namespace Path

/-! ## Filling the table -/

/-- What `wpdk_init_map` reads: the environment variables, the current directory (`none` if
`GetCurrentDirectory` fails), and how the calls that can fail end in its `i`-th call of
`wpdk_add_mapping`. -/
structure MapEnv where
  pathmap : Option CString
  systemDrive : Option CString
  currentDirectory : Option CString
  msystemPrefix : Option CString
  tmp : Option CString
  fate : ℕ → Fate

/-- A copy that does not fit leaves the empty string. -/
def copyOrEmpty (s : CString) : CString := (strcpyS maxPath s).getD (CString.lit "")

/-- `wpdk_add_pathmap`: a list of assignments separated by semicolons. -/
def addPathmap (cp : CString) : List MapRequest :=
  match _h : strchr cp.chars '=' with
  | none => []
  | some i =>
    let value := cp.drop (i + 1)
    match strchr value.chars ';' with
    | none => [⟨copyOrEmpty (cp.take i), some (copyOrEmpty value), false⟩]
    | some j =>
      ⟨copyOrEmpty (cp.take i), some (copyOrEmpty (value.take j)), false⟩ ::
        addPathmap (value.drop (j + 1))
termination_by cp.strlen
decreasing_by
  have hi : i < cp.chars.length := (List.findIdx?_eq_some_iff_getElem.mp _h).1
  simp only [CString.strlen, CString.drop, List.length_drop]
  omega

/-- `wpdk_add_system_drive`: the drive letter as a directory under `pfx`. -/
def addSystemDrive (env : MapEnv) (pfx : CString) : List MapRequest :=
  match env.systemDrive with
  | none => []
  | some cp =>
    [⟨CString.ofMemory (pfx.chars ++ ['/', (byteAt (cp.memory []) 0).toLower]) 0, some cp, false⟩]

/-- The beginning of a current directory inside WSL. -/
def wslRoot : CString := CString.lit "\\\\wsl$\\"

/-- `wpdk_add_wsl_paths`, with `none` for its return value 0. -/
def addWslPaths (env : MapEnv) : Option (List MapRequest) :=
  match env.currentDirectory with
  | none => none
  | some path =>
    if maxPath ≤ path.strlen then none
    else if !strncmpEq path.chars wslRoot.chars 7 then none
    else
      match strchr (path.drop 7).chars '\\' with
      | none => none
      | some i =>
        some (⟨CString.lit "/home", some (path.take (7 + i)), true⟩ ::
          addSystemDrive env (CString.lit "/mnt"))

/-- The MSYS2 directory of a path into it. -/
def msysRoot (path : CString) : Option CString :=
  match strstr path.chars (CString.lit "\\tmp").chars with
  | some i => some (path.take i)
  | none => (strstr path.chars (CString.lit "/usr").chars).map path.take

/-- `wpdk_add_msys_paths`. -/
def addMsysPaths (env : MapEnv) (dir : Option CString) : List MapRequest :=
  match dir with
  | none => []
  | some dir =>
    if strstr dir.chars (CString.lit "msys").chars = none then []
    else
      match (strcpyS maxPath dir).bind msysRoot with
      | none => []
      | some path =>
        [⟨CString.lit "/tmp", some path, true⟩, ⟨CString.lit "/var/tmp", some path, true⟩,
          ⟨CString.lit "/home", some path, true⟩] ++ addSystemDrive env (CString.lit "")

/-- The calls of `wpdk_add_mapping` made by `wpdk_init_map`. -/
def initRequests (env : MapEnv) : List MapRequest :=
  (env.pathmap.elim [] addPathmap) ++
    (match addWslPaths env with
      | some requests => requests
      | none => addMsysPaths env env.msystemPrefix ++ addMsysPaths env env.tmp) ++
    [⟨CString.lit "/tmp", env.tmp, false⟩, ⟨CString.lit "/var/tmp", env.tmp, false⟩]

/-- `wpdk_init_map`. -/
def initMap (env : MapEnv) : List Mapping :=
  ((initRequests env).mapIdx fun i r => (r, env.fate i)).foldl
    (fun map call => addMapping map call.1 call.2) []

/-! ## Looking up -/

/-- What `wpdk_get_path` returns: a null pointer, its argument `path`, its argument `buffer`
with a string in it, or a pointer into a local array of a callee that has returned. -/
inductive PathResult where
  | null
  | path
  | buffer (s : CString)
  | calleeLocal
deriving DecidableEq

/-- The string that the caller finds, for a call with the given path. -/
def PathResult.value (path : CString) : PathResult → Option CString
  | .null => none
  | .path => some path
  | .buffer s => some s
  | .calleeLocal => none

/-- `strrchr(path, '/') == path && path[1] != '\0'`. -/
def rootFile (path : CString) : Bool :=
  strrchr path.chars '/' = some 0 && byteAt (path.memory []) 1 != nul

/-- `wpdk_remap_root_file` up to its call of `wpdk_get_path`. -/
def remapRootFile (path : CString) : Option CString :=
  (strcpyS maxPath (CString.lit "/tmp")).bind fun buf => strcatS maxPath buf path

/-- Whether an entry applies: `strncmp(path, map[i].dir, map[i].len) == 0 &&
path[map[i].len] == '/'`. -/
def applies (path : CString) (after : List Char) (e : Mapping) : Bool :=
  strncmpEq path.chars e.dir.chars e.len && byteAt (path.memory after) e.len == '/'

/-- The loop over the table. -/
def lookup (map : List Mapping) (len : ℕ) (path : CString) (after : List Char) : PathResult :=
  match map.find? (applies path after) with
  | none => .path
  | some e =>
    match (strcpyS len e.dest).bind fun buf =>
        strcatS len buf (CString.ofMemory (path.memory after) e.len) with
    | none => .null
    | some s => .buffer s

theorem chars_of_remapRootFile {path buf : CString} (h : remapRootFile path = some buf) :
    buf = CString.lit "/tmp" ++ path := by
  rw [remapRootFile, strcpyS_bind_strcatS] at h
  split at h
  · exact (Option.some.inj h).symm
  · cases h

theorem rootFile_iff {path : CString} :
    rootFile path = true ↔ ∃ name, path.chars = '/' :: name ∧ name ≠ [] ∧ '/' ∉ name := by
  rw [rootFile, Bool.and_eq_true, decide_eq_true_eq, bne_iff_ne]
  cases hchars : path.chars with
  | nil => simp [strrchr]
  | cons a name =>
    rw [strrchr_cons_eq_zero_iff]
    cases name with
    | nil => simp [byteAt, CString.memory, hchars]
    | cons b name =>
      have hb : b ≠ nul := fun h => path.nul_notMem (by rw [hchars, h]; simp)
      simp [byteAt, CString.memory, hchars, hb]

/-- Under `/tmp` a name is not directly under `/` any more. -/
theorem rootFile_tmp {path : CString} (hroot : rootFile path = true) :
    rootFile (CString.lit "/tmp" ++ path) = false := by
  obtain ⟨name, hname, -⟩ := rootFile_iff.mp hroot
  rw [rootFile, CString.chars_append, hname,
    decide_eq_false (strrchr_append_cons_ne_zero (by decide)), Bool.false_and]

theorem rootFile_of_remapRootFile {path buf : CString} (hroot : rootFile path = true)
    (h : remapRootFile path = some buf) : rootFile buf = false := by
  rw [chars_of_remapRootFile h]
  exact rootFile_tmp hroot

/-- `wpdk_get_path` on the table `map`, with a buffer of `len` bytes.  `after` is what follows
the path in memory, `scratch` what follows the string in the local array of
`wpdk_remap_root_file`. -/
def getPath (map : List Mapping) (len : ℕ) (scratch : List Char) (path : CString)
    (after : List Char) : PathResult :=
  if path.chars = [] then .path
  else if maxPath ≤ path.strlen then .null
  else if _hroot : rootFile path = true then
    match _hbuf : remapRootFile path with
    | none => .null
    | some buf =>
      -- a path returned unchanged is the local array
      match getPath map len scratch buf scratch with
      | .path => .calleeLocal
      | r => r
  else lookup map len path after
termination_by if rootFile path = true then 1 else 0
decreasing_by
  rw [rootFile_of_remapRootFile _hroot _hbuf, _hroot]
  decide

theorem getPath_of_not_rootFile {map : List Mapping} {len : ℕ} {scratch after : List Char}
    {path : CString} (hne : path.chars ≠ []) (hlen : path.strlen < maxPath)
    (hroot : rootFile path = false) :
    getPath map len scratch path after = lookup map len path after := by
  rw [getPath, if_neg hne, if_neg (Nat.not_le_of_lt hlen), dif_neg (by rw [hroot]; decide)]

/-- A name directly under `/` is looked up under `/tmp`. -/
theorem getPath_of_rootFile {map : List Mapping} {len : ℕ} {scratch after : List Char}
    {path : CString} (hroot : rootFile path = true)
    (hlen : (CString.lit "/tmp" ++ path).strlen < maxPath) :
    getPath map len scratch path after =
      match lookup map len (CString.lit "/tmp" ++ path) scratch with
      | .path => .calleeLocal
      | r => r := by
  have hremap : remapRootFile path = some (CString.lit "/tmp" ++ path) := by
    rw [remapRootFile, strcpyS_bind_strcatS, ← CString.strlen_append, if_pos hlen]
  have hne : path.chars ≠ [] := by
    obtain ⟨name, hname, -⟩ := rootFile_iff.mp hroot
    rw [hname]
    exact List.cons_ne_nil _ _
  have hshort : path.strlen < maxPath := by
    rw [CString.strlen_append] at hlen
    omega
  rw [getPath, if_neg hne, if_neg (Nat.not_le_of_lt hshort), dif_pos hroot]
  split
  · rename_i hnone
    rw [hremap] at hnone
    cases hnone
  · rename_i buf hbuf
    obtain rfl := Option.some.inj (hremap.symm.trans hbuf)
    rw [getPath_of_not_rootFile _ hlen (rootFile_of_remapRootFile hroot hremap)]
    rw [CString.chars_append]
    exact List.append_ne_nil_of_left_ne_nil (by decide) _

/-! ## Directories and the files in them -/

/-- The path of a file in a directory. -/
def child (p c : CString) : CString := p ++ CString.lit "/" ++ c

theorem chars_child (p c : CString) : (child p c).chars = p.chars ++ '/' :: c.chars := by
  rw [child, CString.chars_append, CString.chars_append, List.append_assoc]
  rfl

/-- When an entry applies.  A recorded length that is too large makes `strncmp` compare whole
strings, and the byte that is looked at lies behind the terminator. -/
theorem applies_iff {path : CString} {after : List Char} {e : Mapping}
    (hlen : e.dir.strlen ≤ e.len) :
    applies path after e = true ↔
      (e.len = e.dir.strlen ∧ ∃ rest, path.chars = e.dir.chars ++ '/' :: rest) ∨
        (e.dir.strlen < e.len ∧ path = e.dir ∧ byteAt (path.memory after) e.len = '/') := by
  rw [applies, Bool.and_eq_true, beq_iff_eq]
  rcases Nat.eq_or_lt_of_le hlen with heq | hlt
  · rw [← heq, CString.strlen, strncmpEq_length_iff]
    simp only [lt_irrefl, false_and, or_false, true_and]
    constructor
    · rintro ⟨⟨rest, hrest⟩, hbyte⟩
      cases rest with
      | nil =>
        -- the byte behind the whole path is the terminator
        rw [List.append_nil] at hrest
        rw [hrest, byteAt_memory_strlen] at hbyte
        exact absurd hbyte (by decide)
      | cons b rest =>
        have hb : b = '/' := by
          simpa [byteAt, CString.memory, ← hrest] using hbyte
        rw [hb] at hrest
        exact ⟨rest, hrest.symm⟩
    · rintro ⟨rest, hrest⟩
      refine ⟨⟨_, hrest.symm⟩, ?_⟩
      simp [byteAt, CString.memory, hrest]
  · have hne : e.len ≠ e.dir.strlen := Nat.ne_of_gt hlt
    rw [strncmpEq_of_length_lt hlt]
    simp only [hne, hlt, false_and, false_or, true_and]
    exact and_congr_left' ⟨CString.ext, congrArg CString.chars⟩

/-- An entry applies to a file exactly if it applies to the directory of the file, as long as it
is not an entry for that directory. -/
theorem applies_child_iff {p c : CString} {after after' : List Char} {e : Mapping}
    (hlen : e.dir.strlen ≤ e.len) (hc : '/' ∉ c.chars) (hdir : e.dir ≠ p)
    (hchild : e.dir = child p c → e.len = e.dir.strlen) :
    applies (child p c) after e = true ↔ applies p after' e = true := by
  rw [applies_iff hlen, applies_iff hlen, chars_child]
  constructor
  · rintro (⟨hexact, rest, hrest⟩ | ⟨hlt, heq, -⟩)
    · left
      refine ⟨hexact, ?_⟩
      rcases List.append_eq_append_iff.mp hrest with ⟨t, ht, htail⟩ | ⟨t, ht, htail⟩
      · -- the directory of the entry ends behind the last slash, or at it
        cases t with
        | nil =>
          rw [List.append_nil] at ht
          exact absurd (CString.ext ht) hdir
        | cons b t =>
          rw [List.cons_append, List.cons_eq_cons] at htail
          exact absurd (by rw [htail.2]; simp) hc
      · cases t with
        | nil =>
          rw [List.append_nil] at ht
          exact absurd (CString.ext ht.symm) hdir
        | cons b t =>
          rw [List.cons_append, List.cons_eq_cons] at htail
          exact ⟨t, by rw [ht, htail.1]⟩
    · exact absurd (hchild heq.symm) (Nat.ne_of_gt hlt)
  · rintro (⟨hexact, rest, hrest⟩ | ⟨-, heq, -⟩)
    · exact Or.inl ⟨hexact, rest ++ '/' :: c.chars, by rw [hrest]; simp⟩
    · exact absurd heq.symm hdir

theorem child_drop (p c : CString) {i : ℕ} (hi : i ≤ p.strlen) :
    (child p c).drop i = child (p.drop i) c := by
  ext1
  rw [chars_child]
  show (child p c).chars.drop i = p.chars.drop i ++ _
  rw [chars_child, List.drop_append_of_le_length hi]

theorem append_child (s p c : CString) : s ++ child p c = child (s ++ p) c := by
  ext1
  simp [chars_child]

/-- What the loop gives for a path to which `e` is the first entry to apply. -/
theorem lookup_of_find? {map : List Mapping} {len : ℕ} {path : CString} {after : List Char}
    {e : Mapping} (hfind : map.find? (applies path after) = some e) :
    lookup map len path after =
      if e.dest.strlen + (CString.ofMemory (path.memory after) e.len).strlen < len then
        .buffer (e.dest ++ CString.ofMemory (path.memory after) e.len)
      else .null := by
  rw [lookup, hfind]
  dsimp only
  rw [strcpyS_bind_strcatS]
  split <;> rename_i h <;> split at h <;> simp_all

theorem lookup_of_find {map : List Mapping} {len : ℕ} {path : CString} {after : List Char}
    {e : Mapping} (hfind : map.find? (applies path after) = some e)
    (hoff : e.len ≤ path.strlen) :
    lookup map len path after =
      if e.dest.strlen + (path.drop e.len).strlen < len then .buffer (e.dest ++ path.drop e.len)
      else .null := by
  rw [lookup_of_find? hfind, ofMemory_memory path after hoff]

/-- **A file goes where its directory goes**, through the table. -/
theorem lookup_child {map : List Mapping} (hmap : ∀ e ∈ map, e.dir.strlen ≤ e.len) {len : ℕ}
    {p c : CString} {after after' : List Char} (hc : '/' ∉ c.chars)
    (hdir : ∀ e ∈ map, e.dir ≠ p)
    (hchild : ∀ e ∈ map, e.dir = child p c → e.len = e.dir.strlen)
    (hfit : lookup map len (child p c) after ≠ .null) :
    (lookup map len (child p c) after).value (child p c) =
      ((lookup map len p after').value p).map fun place => child place c := by
  have hsame : map.find? (applies (child p c) after) = map.find? (applies p after') := by
    refine List.find?_congr fun e he => ?_
    rw [Bool.eq_iff_iff]
    exact applies_child_iff (hmap e he) hc (hdir e he) (hchild e he)
  cases hfind : map.find? (applies p after') with
  | none =>
    rw [lookup, lookup, hsame, hfind]
    rfl
  | some e =>
    have he := List.mem_of_find?_eq_some hfind
    have happ := List.find?_some hfind
    rw [hfind] at hsame
    -- the entry applies with its exact length, and ends inside the directory
    have hoff : e.len ≤ p.strlen := by
      rcases (applies_iff (hmap e he)).mp happ with ⟨hexact, rest, hrest⟩ | ⟨-, heq, -⟩
      · rw [hexact, CString.strlen, CString.strlen, hrest, List.length_append]
        omega
      · exact absurd heq.symm (hdir e he)
    have hoff' : e.len ≤ (child p c).strlen := by
      rw [CString.strlen, chars_child, List.length_append]
      exact hoff.trans (Nat.le_add_right _ _)
    rw [lookup_of_find hsame hoff', child_drop p c hoff] at hfit ⊢
    rw [lookup_of_find hfind hoff]
    have hroom : e.dest.strlen + (child (p.drop e.len) c).strlen < len := by
      by_contra hno
      exact hfit (if_neg hno)
    have hroom' : e.dest.strlen + (p.drop e.len).strlen < len := by
      have hle : (p.drop e.len).strlen ≤ (child (p.drop e.len) c).strlen := by
        rw [CString.strlen, CString.strlen, chars_child, List.length_append]
        exact Nat.le_add_right _ _
      omega
    rw [if_pos hroom, if_pos hroom', append_child]
    rfl

/-- Every table that `wpdk_init_map` builds records lengths that are large enough. -/
theorem len_initMap (env : MapEnv) : ∀ e ∈ initMap env, e.dir.strlen ≤ e.len := by
  rw [initMap]
  generalize (initRequests env).mapIdx (fun i r => (r, env.fate i)) = calls
  suffices h : ∀ map : List Mapping, (∀ e ∈ map, e.dir.strlen ≤ e.len) →
      ∀ e ∈ calls.foldl (fun map call => addMapping map call.1 call.2) map,
        e.dir.strlen ≤ e.len from
    h [] (by simp)
  induction calls with
  | nil => exact fun map h => h
  | cons call calls ih => exact fun map h => ih _ (len_addMapping h call.1 call.2)

/-- The path that a name stands for by the rule for names directly under `/`. -/
def placeOf (p : CString) : CString := if rootFile p then CString.lit "/tmp" ++ p else p

theorem rootFile_child {p c : CString} (hp : p.chars ≠ []) : rootFile (child p c) = false := by
  rw [rootFile, chars_child, decide_eq_false (strrchr_append_cons_ne_zero hp), Bool.false_and]

theorem strlen_lt_strlen_child (p c : CString) : p.strlen < (child p c).strlen := by
  rw [CString.strlen, CString.strlen, chars_child, List.length_append, List.length_cons]
  omega

/-- With `/tmp` mapped, a name directly under `/` is never answered with the local array. -/
theorem lookup_tmp_ne_path {map : List Mapping} (len : ℕ) {p : CString} (after : List Char)
    (htmp : ∃ e ∈ map, e.dir = CString.lit "/tmp" ∧ e.len = 4) (hroot : rootFile p = true) :
    lookup map len (CString.lit "/tmp" ++ p) after ≠ .path := by
  obtain ⟨e, he, hdir, hlen⟩ := htmp
  obtain ⟨name, hname, -⟩ := rootFile_iff.mp hroot
  have happ : applies (CString.lit "/tmp" ++ p) after e = true := by
    have hexact : e.len = e.dir.strlen := by
      rw [hlen, hdir]
      decide
    refine (applies_iff hexact.ge).mpr (Or.inl ⟨hexact, name, ?_⟩)
    rw [CString.chars_append, hname, hdir]
  have hsome : (map.find? (applies (CString.lit "/tmp" ++ p) after)).isSome :=
    List.find?_isSome.mpr ⟨e, he, happ⟩
  obtain ⟨e', hfind⟩ := Option.isSome_iff_exists.mp hsome
  rw [lookup, hfind]
  dsimp only
  split <;> simp

/-- What `wpdk_get_path` finds for a name is what the table gives for the path it stands for. -/
theorem value_getPath {map : List Mapping} {len : ℕ} {scratch after : List Char} {p : CString}
    (htmp : ∃ e ∈ map, e.dir = CString.lit "/tmp" ∧ e.len = 4) (hp : p.chars ≠ [])
    (hlen : (placeOf p).strlen < maxPath) :
    (getPath map len scratch p after).value p =
      (lookup map len (placeOf p) (if rootFile p then scratch else after)).value
        (placeOf p) := by
  unfold placeOf at hlen ⊢
  cases hroot : rootFile p with
  | false =>
    rw [hroot] at hlen
    rw [getPath_of_not_rootFile hp hlen hroot]
    rfl
  | true =>
    rw [hroot] at hlen
    rw [getPath_of_rootFile hroot hlen, if_pos rfl, if_pos rfl]
    have hne := lookup_tmp_ne_path len scratch htmp hroot
    cases hlook : lookup map len (CString.lit "/tmp" ++ p) scratch with
    | path => exact absurd hlook hne
    | null => rfl
    | buffer s => rfl
    | calleeLocal => rfl

/-- **A file goes where its directory goes.**  Take a table built by `wpdk_init_map` with `/tmp`
mapped, a path `p`, and a name `c` without a slash.  The file `c` in the directory that `p`
stands for --- `/tmp/p` for a `p` directly under `/`, and `p` itself otherwise --- is found at
the place of `p` with `/c` behind it, as long as the strings fit, that directory is not itself
a directory of the table, and the file is not a directory of the table whose recorded length is
wrong. -/
theorem getPath_child (env : MapEnv) (len : ℕ) (p c : CString)
    (after after' scratch scratch' : List Char)
    (htmp : ∃ e ∈ initMap env, e.dir = CString.lit "/tmp" ∧ e.len = 4)
    (hp : p.chars ≠ []) (hc : '/' ∉ c.chars)
    (hdir : ∀ e ∈ initMap env, e.dir ≠ placeOf p)
    (hchild : ∀ e ∈ initMap env, e.dir = child (placeOf p) c → e.len = e.dir.strlen)
    (hfit : getPath (initMap env) len scratch (child (placeOf p) c) after ≠ .null) :
    (getPath (initMap env) len scratch (child (placeOf p) c) after).value (child (placeOf p) c) =
      ((getPath (initMap env) len scratch' p after').value p).map
        fun place => child place c := by
  have hplace : (placeOf p).chars ≠ [] := by
    unfold placeOf
    split
    · rw [CString.chars_append]
      exact List.append_ne_nil_of_left_ne_nil (by decide) _
    · exact hp
  have hne : (child (placeOf p) c).chars ≠ [] := by simp [chars_child]
  have hshort : (child (placeOf p) c).strlen < maxPath := by
    by_contra hlong
    rw [getPath, if_neg hne, if_pos (Nat.le_of_not_lt hlong)] at hfit
    exact hfit rfl
  have hlen : (placeOf p).strlen < maxPath := (strlen_lt_strlen_child _ _).trans hshort
  rw [getPath_of_not_rootFile hne hshort (rootFile_child hplace)] at hfit ⊢
  rw [value_getPath htmp hp hlen]
  exact lookup_child (len_initMap env) hc hdir hchild hfit

/-- An environment in which only `TMP` is set, every check and allocation succeeding. -/
def tmpOnly (tmp : CString) : MapEnv where
  pathmap := none
  systemDrive := none
  currentDirectory := none
  msystemPrefix := none
  tmp := some tmp
  fate _ := ⟨true, true, true⟩

/-- With `TMP=T`, the file `x` of the directory `/tmp/foo` is found at `T/foo/x`, which is where
`/foo` goes. -/
theorem getPath_child_foo :
    (getPath (initMap (tmpOnly (CString.lit "T"))) 260 [] (CString.lit "/tmp/foo/x") []).value
        (CString.lit "/tmp/foo/x") = some (CString.lit "T/foo/x") ∧
      ((getPath (initMap (tmpOnly (CString.lit "T"))) 260 [] (CString.lit "/foo") []).value
        (CString.lit "/foo")).map (fun place => child place (CString.lit "x")) =
          some (CString.lit "T/foo/x") := by
  have hplace : child (placeOf (CString.lit "/foo")) (CString.lit "x") =
      CString.lit "/tmp/foo/x" := by decide
  have hlook : getPath (initMap (tmpOnly (CString.lit "T"))) 260 [] (CString.lit "/tmp/foo/x") [] =
      .buffer (CString.lit "T/foo/x") := by
    rw [getPath_of_not_rootFile (by decide) (by decide) (by decide)]
    decide
  have hlaw := getPath_child (tmpOnly (CString.lit "T")) 260 (CString.lit "/foo")
    (CString.lit "x") [] [] [] [] (by decide) (by decide) (by decide) (by decide) (by decide)
    (by rw [hplace, hlook]; decide)
  rw [hplace, hlook] at hlaw
  rw [hlook]
  exact ⟨rfl, hlaw.symm⟩

/-- **A directory and its files are taken apart.**  With `TMP=T`, the directory `/foo` goes to
`T/foo` while the file `/foo/x` in it stays where it is; and the mapped directory `/var/tmp`
stays where it is while the file `/var/tmp/x` in it goes to `T/x`. -/
theorem getPath_splits_directories :
    (∃ e ∈ initMap (tmpOnly (CString.lit "T")), e.dir = CString.lit "/tmp" ∧ e.len = 4) ∧
    ((getPath (initMap (tmpOnly (CString.lit "T"))) 260 [] (CString.lit "/foo") []).value
        (CString.lit "/foo") = some (CString.lit "T/foo") ∧
      (getPath (initMap (tmpOnly (CString.lit "T"))) 260 [] (CString.lit "/foo/x") []).value
        (CString.lit "/foo/x") = some (CString.lit "/foo/x")) ∧
    ((getPath (initMap (tmpOnly (CString.lit "T"))) 260 [] (CString.lit "/var/tmp") []).value
        (CString.lit "/var/tmp") = some (CString.lit "/var/tmp") ∧
      (getPath (initMap (tmpOnly (CString.lit "T"))) 260 [] (CString.lit "/var/tmp/x") []).value
        (CString.lit "/var/tmp/x") = some (CString.lit "T/x")) := by
  refine ⟨by decide, ⟨?_, ?_⟩, ?_, ?_⟩
  · rw [getPath_of_rootFile (by decide) (by decide)]
    decide
  · rw [getPath_of_not_rootFile (by decide) (by decide) (by decide)]
    decide
  · rw [getPath_of_not_rootFile (by decide) (by decide) (by decide)]
    decide
  · rw [getPath_of_not_rootFile (by decide) (by decide) (by decide)]
    decide

end Path
end Wpdk
