import Mathlib.Logic.Function.Basic
import Wpdk.Dirent.Stream

/-!
# Reading a directory

`_findfirst` starts an enumeration and returns its first entry with it; the others come from
`_findnext`.  A stream keeps the first entry until it is read, and the flag `first` says that it has
not been.  `wpdk_rewinddir` starts another enumeration, or leaves the stream without one.

Over all that is a simple thing: a listing, or none, and how many entries have been read (`Pass`).
The proof is that a stream represents a pass after every call (`Represents`).  The flag is set
exactly if nothing has been read, and from then on the enumeration has what is left of the listing.

* `Found`, `Listing`: what the system enumerates; `Finds`: its enumerations, by find handle.
* `Stream.read`, `Stream.rewind`: `wpdk_readdir` and `wpdk_rewinddir` over them.
* `Pass`: a pass through a listing; `Represents.step`: calls keep the stream and the pass together.
* `readdir_enumerates`: what `wpdk_readdir` returns after any calls.
-/

namespace Wpdk
namespace Dirent

/-- An entry in a `struct _finddata_t`, whose name is an array of `pathMax` characters. -/
structure Found where
  info : FindData
  name_lt : info.name.strlen < pathMax

/-- What an enumeration goes through. -/
structure Listing where
  first : Found
  rest : List Found

/-- All the entries, in the order of the enumeration. -/
def Listing.entries (l : Listing) : List Found := l.first :: l.rest

/-- The entries that are left in every enumeration, and the number of calls of `_findnext`. -/
structure Finds where
  left : ℤ → Option (List Found)
  nexts : ℕ

namespace Finds

variable (f : Finds)

/-- `_findnext`. -/
def findnext (h : ℤ) : Finds × NextAnswer :=
  match f.left h with
  | some (e :: rest) => (⟨Function.update f.left h (some rest), f.nexts + 1⟩, ⟨some e.info, 0⟩)
  | some [] => (⟨f.left, f.nexts + 1⟩, ⟨none, Errno.enoent.code⟩)
  | none => (⟨f.left, f.nexts + 1⟩, ⟨none, Errno.einval.code⟩)

/-- `_findclose`. -/
def findclose (h : ℤ) : Finds := { f with left := Function.update f.left h none }

/-- `_findfirst`, which has returned the first entry. -/
def findfirst (h : ℤ) (l : Listing) : Finds :=
  { f with left := Function.update f.left h (some l.rest) }

end Finds

/-- The answer of `_findfirst`. -/
inductive FindAnswer where
  | found (h : ℤ) (h_ne : h ≠ invalid) (l : Listing)
  | failed (error : ℕ)

/-- A stream, with what is below it. -/
structure Stream where
  rt : Runtime
  dirp : Dir
  finds : Finds

namespace Stream

/-- The call of `_findnext` in `wpdk_readdir`, if there is one. -/
def next (s : Stream) : Finds × NextAnswer :=
  if s.dirp.h ≠ invalid ∧ s.dirp.first = false then s.finds.findnext s.dirp.h
  else (s.finds, ⟨none, 0⟩)

/-- `wpdk_readdir`. -/
def read (s : Stream) : Stream × Option DirEntry :=
  let out := readdir s.rt s.dirp s.next.2
  (⟨out.1, out.2.1, s.next.1⟩, out.2.2)

/-- The enumerations after `wpdk_rewinddir` has closed its own. -/
def closed (s : Stream) : Finds :=
  if s.dirp.h ≠ invalid then s.finds.findclose s.dirp.h else s.finds

/-- `wpdk_rewinddir`. -/
def rewind (s : Stream) : FindAnswer → Stream
  | .found h _ l =>
    let out := rewinddir s.rt s.dirp h l.first.info
    ⟨out.1, out.2, s.closed.findfirst h l⟩
  | .failed error =>
    let out := rewinddir s.rt s.dirp invalid s.dirp.info
    ⟨out.1.setErrno error, out.2, s.closed⟩

end Stream

/-- A call on a stream. -/
inductive Call where
  | readdir
  | rewinddir (answer : FindAnswer)

/-- The stream after a call. -/
def Stream.step (s : Stream) : Call → Stream
  | .readdir => s.read.1
  | .rewinddir answer => s.rewind answer

/-- The stream of a `wpdk_opendir` that succeeds, where the listing is what `_findfirst` has found.
-/
def Stream.opened (copyPath : CString → Option CString) (rt : Runtime) (finds : Finds)
    (dirname : Option CString) (ans : OpenAnswers) (l : Listing) : Option Stream :=
  match opendir copyPath rt dirname { ans with info := l.first.info } with
  | (rt, some dirp) => some ⟨rt, dirp, finds.findfirst ans.find l⟩
  | (_, none) => none

/-! ## Passes -/

/-- The listing of the last `_findfirst`, if it has succeeded, and the calls of `wpdk_readdir` since
then. -/
structure Pass where
  listing : Option Listing
  reads : ℕ

/-- The pass after a call. -/
def Pass.step (p : Pass) : Call → Pass
  | .readdir => { p with reads := p.reads + 1 }
  | .rewinddir (.found _ _ l) => ⟨some l, 0⟩
  | .rewinddir (.failed _) => ⟨none, 0⟩

/-- The entry that a program sees. -/
def Found.dirEntry (e : Found) : DirEntry where
  ino := 0
  type := if e.info.attrib &&& subdir ≠ 0 then dtDir else dtReg
  name := e.info.name

/-- **The stream is as far as the pass.** -/
def Represents (s : Stream) : Pass → Prop
  | ⟨none, _⟩ => s.dirp.h = invalid
  | ⟨some l, 0⟩ =>
    s.dirp.h ≠ invalid ∧ s.dirp.first = true ∧ s.dirp.info = l.first.info ∧
      s.finds.left s.dirp.h = some l.rest
  | ⟨some l, k + 1⟩ =>
    s.dirp.h ≠ invalid ∧ s.dirp.first = false ∧ s.finds.left s.dirp.h = some (l.rest.drop k)

/-! ## One call -/

section Read

variable {s : Stream}

/-- The name fits the structure that is returned. -/
theorem Found.take_name (e : Found) : e.info.name.take pathMax = e.info.name :=
  CString.ext (List.take_of_length_le (Nat.le_of_lt e.name_lt))

/-- What `wpdk_readdir` does with an entry, wherever it is from. -/
theorem readdir_found {r : Runtime} {dirp : Dir} {ans : NextAnswer} {e : Found}
    (h : dirp.h ≠ invalid)
    (hinfo : (if dirp.first then some dirp.info else ans.info) = some e.info) :
    readdir r dirp ans =
      (r, { dirp with first := false, info := e.info, entry := e.dirEntry }, some e.dirEntry) := by
  rw [readdir, if_neg h, hinfo]
  dsimp only
  rw [e.take_name]
  rfl

/-- A stream without an enumeration does not call `_findnext`. -/
theorem read_of_invalid (h : s.dirp.h = invalid) :
    s.read = (⟨s.rt.setErrno Errno.ebadf.code, s.dirp, s.finds⟩, none) := by
  have hnext : s.next = (s.finds, ⟨none, 0⟩) := if_neg fun hc => hc.1 h
  rw [Stream.read, hnext, readdir, if_pos h]

/-- The entry that was kept. -/
theorem read_of_first {e : Found} (h : s.dirp.h ≠ invalid) (hfirst : s.dirp.first = true)
    (hinfo : s.dirp.info = e.info) :
    s.read = (⟨s.rt, { s.dirp with first := false, info := e.info, entry := e.dirEntry }, s.finds⟩,
      some e.dirEntry) := by
  have hnext : s.next = (s.finds, ⟨none, 0⟩) := by
    refine if_neg fun hc => ?_
    rw [hfirst] at hc
    exact absurd hc.2 (by decide)
  rw [Stream.read, hnext, readdir_found h]
  rw [hfirst, hinfo]
  rfl

/-- An entry from `_findnext`. -/
theorem read_of_next {e : Found} {rest : List Found} (h : s.dirp.h ≠ invalid)
    (hfirst : s.dirp.first = false) (hleft : s.finds.left s.dirp.h = some (e :: rest)) :
    s.read = (⟨s.rt, { s.dirp with first := false, info := e.info, entry := e.dirEntry },
      ⟨Function.update s.finds.left s.dirp.h (some rest), s.finds.nexts + 1⟩⟩,
        some e.dirEntry) := by
  have hnext : s.next = (⟨Function.update s.finds.left s.dirp.h (some rest), s.finds.nexts + 1⟩,
      ⟨some e.info, 0⟩) := by
    rw [Stream.next, if_pos ⟨h, hfirst⟩, Finds.findnext, hleft]
  rw [Stream.read, hnext, readdir_found h]
  rw [hfirst]
  rfl

/-- The end: the `ENOENT` of `_findnext` is taken back. -/
theorem read_of_end (h : s.dirp.h ≠ invalid) (hfirst : s.dirp.first = false)
    (hleft : s.finds.left s.dirp.h = some []) :
    s.read = (⟨s.rt, s.dirp, ⟨s.finds.left, s.finds.nexts + 1⟩⟩, none) := by
  have hnext : s.next = (⟨s.finds.left, s.finds.nexts + 1⟩, ⟨none, Errno.enoent.code⟩) := by
    rw [Stream.next, if_pos ⟨h, hfirst⟩, Finds.findnext, hleft]
  rw [Stream.read, hnext, readdir, if_neg h, hfirst]
  rfl

end Read

/-! ## Runs -/

section Runs

variable {s : Stream} {p : Pass}

theorem Represents.read (h : Represents s p) : Represents s.read.1 (p.step .readdir) := by
  obtain ⟨listing, reads⟩ := p
  cases listing with
  | none =>
    rw [read_of_invalid h]
    exact h
  | some l =>
    cases reads with
    | zero =>
      obtain ⟨hh, hfirst, hinfo, hleft⟩ := h
      rw [read_of_first hh hfirst hinfo]
      exact ⟨hh, rfl, hleft⟩
    | succ k =>
      obtain ⟨hh, hfirst, hleft⟩ := h
      -- what is left after the next entry, or still nothing
      have htail : l.rest.drop (k + 1) = (l.rest.drop k).tail := List.tail_drop.symm
      cases hdrop : l.rest.drop k with
      | nil =>
        rw [hdrop] at hleft
        rw [read_of_end hh hfirst hleft]
        refine ⟨hh, hfirst, ?_⟩
        rw [htail, hdrop]
        exact hleft
      | cons e rest =>
        rw [hdrop] at hleft
        rw [read_of_next hh hfirst hleft]
        refine ⟨hh, rfl, ?_⟩
        rw [htail, hdrop]
        exact Function.update_self ..

theorem Represents.rewind (answer : FindAnswer) :
    Represents (s.rewind answer) (p.step (.rewinddir answer)) := by
  cases answer with
  | failed error => rfl
  | found h h_ne l =>
    refine ⟨h_ne, rfl, ?_, Function.update_self ..⟩
    exact if_neg h_ne

/-- **A call keeps the stream and the pass together.** -/
theorem Represents.step (h : Represents s p) (call : Call) :
    Represents (s.step call) (p.step call) := by
  cases call with
  | readdir => exact h.read
  | rewinddir answer => exact Represents.rewind answer

theorem Represents.run (h : Represents s p) (calls : List Call) :
    Represents (calls.foldl Stream.step s) (calls.foldl Pass.step p) := by
  induction calls generalizing s p with
  | nil => exact h
  | cons call calls ih => exact ih (h.step call)

/-- An open stream is at the start of its listing. -/
theorem represents_opened {copyPath : CString → Option CString} {rt : Runtime} {finds : Finds}
    {dirname : Option CString} {ans : OpenAnswers} {l : Listing}
    (h : Stream.opened copyPath rt finds dirname ans l = some s) : Represents s ⟨some l, 0⟩ := by
  unfold Stream.opened opendir at h
  cases hspec : dirSpec copyPath dirname ans.mem with
  | error e =>
    simp only [hspec] at h
    cases h
  | ok spec =>
    simp only [hspec, openStream] at h
    by_cases hfile : ans.file = invalid
    · rw [if_pos hfile] at h
      cases h
    · rw [if_neg hfile] at h
      by_cases hfd : ans.fd = invalid
      · rw [if_pos hfd] at h
        cases h
      · rw [if_neg hfd] at h
        by_cases hfind : ans.find = invalid
        · rw [if_pos hfind] at h
          cases h
        · rw [if_neg hfind] at h
          obtain rfl := Option.some.inj h
          exact ⟨hfind, rfl, rfl, Function.update_self ..⟩

/-- What a stream returns that is as far as a pass. -/
theorem Represents.read_eq {l : Listing} {k : ℕ} (h : Represents s ⟨some l, k⟩) :
    s.read.2 = (l.entries[k]?).map Found.dirEntry ∧ s.read.1.rt.errno = s.rt.errno := by
  cases k with
  | zero =>
    obtain ⟨hh, hfirst, hinfo, -⟩ := h
    rw [read_of_first hh hfirst hinfo]
    exact ⟨rfl, rfl⟩
  | succ k =>
    obtain ⟨hh, hfirst, hleft⟩ := h
    have hget : l.entries[k + 1]? = (l.rest.drop k).head? := by
      rw [List.head?_drop]
      rfl
    rw [hget]
    cases hdrop : l.rest.drop k with
    | nil =>
      rw [hdrop] at hleft
      rw [read_of_end hh hfirst hleft]
      exact ⟨rfl, rfl⟩
    | cons e rest =>
      rw [hdrop] at hleft
      rw [read_of_next hh hfirst hleft]
      exact ⟨rfl, rfl⟩

end Runs

/-- For every listing, every `wpdk_opendir` that succeeds and all calls after it, with any listings
and any failures at the rewinds: with `k` calls of `wpdk_readdir` since the last successful
`_findfirst`, the next one returns the entry at index `k` of its listing, or a null pointer behind
the end, and leaves `errno` alone; after a `_findfirst` that has failed it fails with `EBADF` and
the enumerations are as before. -/
theorem readdir_enumerates (copyPath : CString → Option CString) (rt : Runtime) (finds : Finds)
    (dirname : Option CString) (ans : OpenAnswers) (l₀ : Listing) (s₀ : Stream)
    (hopen : Stream.opened copyPath rt finds dirname ans l₀ = some s₀) (calls : List Call) :
    let s := calls.foldl Stream.step s₀
    match calls.foldl Pass.step ⟨some l₀, 0⟩ with
    | ⟨some l, k⟩ =>
      s.read.2 = (l.entries[k]?).map Found.dirEntry ∧ s.read.1.rt.errno = s.rt.errno
    | ⟨none, _⟩ =>
      s.read.2 = none ∧ s.read.1.rt.errno = Errno.ebadf.code ∧ s.read.1.finds = s.finds := by
  intro s
  have hrun : Represents s (calls.foldl Pass.step ⟨some l₀, 0⟩) :=
    (represents_opened hopen).run calls
  generalize calls.foldl Pass.step ⟨some l₀, 0⟩ = p at hrun ⊢
  obtain ⟨listing, k⟩ := p
  cases listing with
  | some l => exact hrun.read_eq
  | none =>
    rw [read_of_invalid hrun]
    exact ⟨rfl, rfl, rfl⟩

/-- Two entries. -/
def twoEntries : Listing where
  first := ⟨⟨CString.lit ".", 0x10⟩, by decide⟩
  rest := [⟨⟨CString.lit "a", 0x20⟩, by decide⟩]

/-- `wpdk_opendir("d")` with find handle 5. -/
def openAnswers : OpenAnswers where
  mem := true
  file := 8
  fileError := .errorSuccess
  fd := 3
  fdError := 0
  find := 5
  findError := 0
  info := twoEntries.first.info

/-- The second call returns the second entry. -/
theorem readdir_enumerates_second :
    ∃ s₀, Stream.opened some ⟨0, fun _ => invalid, ⟨0, 0⟩, ⟨0, 0⟩, ⟨0, 0⟩⟩ ⟨fun _ => none, 0⟩
        (some (CString.lit "d")) openAnswers twoEntries = some s₀ ∧
      (s₀.step .readdir).read.2 = some ⟨0, dtReg, CString.lit "a"⟩ := by
  have hopen : ∃ s₀, Stream.opened some ⟨0, fun _ => invalid, ⟨0, 0⟩, ⟨0, 0⟩, ⟨0, 0⟩⟩
      ⟨fun _ => none, 0⟩ (some (CString.lit "d")) openAnswers twoEntries = some s₀ := ⟨_, rfl⟩
  obtain ⟨s₀, hs₀⟩ := hopen
  exact ⟨s₀, hs₀, (readdir_enumerates some _ _ _ openAnswers twoEntries s₀ hs₀ [.readdir]).1⟩

end Dirent
end Wpdk
