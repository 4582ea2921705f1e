import Mathlib.Algebra.Order.Group.Multiset
import Wpdk.Base.CString
import Wpdk.Base.Ledger
import Wpdk.Base.Run
import Wpdk.Error

/-!
# Directory streams

A stream of `wpdk_opendir` owns an open descriptor, with an OS handle under it, and a find handle.
They are obtained one after the other, each may be refused, and `wpdk_closedir` gives back those of
a stream that is only half built as well as those of a finished one.  `wpdk_rewinddir` replaces the
find handle, and may end without one.

* `Runtime`: what the C runtime and Windows have handed out and what they were asked to close.
* `opendir`, `closedir`, `readdir`, `rewinddir`: the functions of the source.  What the system
  answers is an argument.
* `Settled`: what has been handed out has been closed, or is owed by the open streams.
* `streams_balance_iff`: a run is balanced throughout exactly if no `wpdk_opendir` gets its OS
  handle and is then refused the descriptor.  There `wpdk_closedir` finds the find handle zero, as
  `calloc` has left it, and not `-1`, and passes it to `_findclose`.
-/

namespace Wpdk
namespace Dirent

open Run

/-- `struct _finddata_t`, as far as it is used. -/
structure FindData where
  name : CString
  attrib : ℕ

/-- `struct dirent`. -/
structure DirEntry where
  ino : ℕ
  type : ℕ
  name : CString

/-- `DT_REG`. -/
def dtReg : ℕ := 1

/-- `DT_DIR`. -/
def dtDir : ℕ := 2

/-- `_A_SUBDIR`. -/
def subdir : ℕ := 0x10

/-- `PATH_MAX`, `MAX_PATH` and `_MAX_PATH`. -/
def pathMax : ℕ := 260

/-- `struct _DIR`. -/
structure Dir where
  h : ℤ
  fd : ℤ
  first : Bool
  info : FindData
  entry : DirEntry
  spec : CString

/-- The structure as `calloc` makes it. -/
def Dir.zero : Dir where
  h := 0
  fd := 0
  first := false
  info := ⟨CString.lit "", 0⟩
  entry := ⟨0, 0, CString.lit ""⟩
  spec := CString.lit ""

/-- `INVALID_HANDLE_VALUE`, and what `_open_osfhandle` and `_findfirst` return when they fail. -/
def invalid : ℤ := -1

/-! ## The runtime -/

/-- Values of one kind: those that were returned by a call that opens something, and those that
were passed to the call that closes it. -/
structure Account where
  obtained : Multiset ℤ
  closed : Multiset ℤ

/-- A result of a call that opens something, as a set: a failure is nothing. -/
def held (v : ℤ) : Multiset ℤ := if v = invalid then 0 else {v}

@[simp] theorem held_invalid : held invalid = 0 := rfl

theorem held_of_ne {v : ℤ} (h : v ≠ invalid) : held v = {v} := if_neg h

/-- A call that opens something has returned `v`. -/
def Account.obtain (a : Account) (v : ℤ) : Account := { a with obtained := held v + a.obtained }

/-- The call that closes something was given `v`. -/
def Account.close (a : Account) (v : ℤ) : Account := { a with closed := v ::ₘ a.closed }

/-- `errno`, the OS handle under every descriptor (`INVALID_HANDLE_VALUE` under one that is not
open), and the accounts of OS handles, descriptors and find handles. -/
structure Runtime where
  errno : ℕ
  osfhnd : ℤ → ℤ
  handles : Account
  fds : Account
  finds : Account

namespace Runtime

/-- `_set_errno`. -/
def setErrno (r : Runtime) (error : ℕ) : Runtime := { r with errno := error }

/-- `CreateFile`, with its result. -/
def createFile (r : Runtime) (h : ℤ) : Runtime := { r with handles := r.handles.obtain h }

theorem createFile_invalid (r : Runtime) : r.createFile invalid = r := by
  rw [createFile, Account.obtain, held_invalid, zero_add]

/-- `CloseHandle`. -/
def closeHandle (r : Runtime) (h : ℤ) : Runtime := { r with handles := r.handles.close h }

/-- `_open_osfhandle`, with its result: the descriptor owns the handle from now on. -/
def openOsfhandle (r : Runtime) (h fd : ℤ) : Runtime :=
  if fd = invalid then r
  else { r with fds := r.fds.obtain fd, osfhnd := Function.update r.osfhnd fd h }

/-- `_close`, which closes the handle under the descriptor too. -/
def close (r : Runtime) (fd : ℤ) : Runtime :=
  { r with
    fds := r.fds.close fd
    handles := { r.handles with closed := held (r.osfhnd fd) + r.handles.closed }
    osfhnd := Function.update r.osfhnd fd invalid }

/-- `_findfirst`, with its result. -/
def findfirst (r : Runtime) (h : ℤ) : Runtime := { r with finds := r.finds.obtain h }

/-- `_findclose`. -/
def findclose (r : Runtime) (h : ℤ) : Runtime := { r with finds := r.finds.close h }

end Runtime

/-! ## The functions -/

/-- What the system answers to a `wpdk_opendir`: whether there is memory, and the results of
`CreateFile`, `_open_osfhandle` and `_findfirst` with the errors that go with a failure. -/
structure OpenAnswers where
  mem : Bool
  file : ℤ
  fileError : WinError
  fd : ℤ
  fdError : ℕ
  find : ℤ
  findError : ℕ
  info : FindData

/-- The answer of `_findnext`, with the error of a failure. -/
structure NextAnswer where
  info : Option FindData
  error : ℕ

/-- `wpdk_closedir`. -/
def closedir (r : Runtime) : Option Dir → Runtime × ℤ
  | none => (r.setErrno Errno.ebadf.code, -1)
  | some dirp =>
    let r := if dirp.fd ≠ invalid then r.close dirp.fd else r
    let r := if dirp.h ≠ invalid then r.findclose dirp.h else r
    (r, 0)

/-- The path with `*` or `\*` behind it.  On an empty path, the text is put from the byte before it
on, which is zero. -/
def findSpec (spec : CString) : CString :=
  match spec.chars.getLast? with
  | none => CString.lit "*"
  | some c => if c = '/' ∨ c = '\\' then spec ++ CString.lit "*" else spec ++ CString.lit "\\*"

/-- `wpdk_opendir` from `CreateFile` on. -/
def openStream (r : Runtime) (spec : CString) (ans : OpenAnswers) : Runtime × Option Dir :=
  let r := r.createFile ans.file
  if ans.file = invalid then (r.setErrno (convertToPosix ans.fileError), none)
  else
    let r := r.openOsfhandle ans.file ans.fd
    let dirp := { Dir.zero with spec := spec, fd := ans.fd }
    if ans.fd = invalid then
      ((closedir (r.closeHandle ans.file) (some dirp)).1.setErrno ans.fdError, none)
    else
      let r := r.findfirst ans.find
      let dirp := { dirp with spec := findSpec spec, h := ans.find, info := ans.info }
      if ans.find = invalid then ((closedir r (some dirp)).1.setErrno ans.findError, none)
      else (r, some { dirp with first := true })

/-- `wpdk_readdir` of a stream. -/
def readdir (r : Runtime) (dirp : Dir) (ans : NextAnswer) : Runtime × Dir × Option DirEntry :=
  if dirp.h = invalid then (r.setErrno Errno.ebadf.code, dirp, none)
  else
    match if dirp.first then some dirp.info else ans.info with
    | none =>
      (r.setErrno (if ans.error = Errno.enoent.code then r.errno else ans.error), dirp, none)
    | some info =>
      let entry : DirEntry :=
        { ino := 0
          type := if info.attrib &&& subdir ≠ 0 then dtDir else dtReg
          name := info.name.take pathMax }
      (r, { dirp with first := false, info := info, entry := entry }, some entry)

/-- `wpdk_rewinddir` of a stream, with the result of `_findfirst`. -/
def rewinddir (r : Runtime) (dirp : Dir) (h : ℤ) (info : FindData) : Runtime × Dir :=
  let r := if dirp.h ≠ invalid then r.findclose dirp.h else r
  (r.findfirst h,
    { dirp with h := h, info := if h = invalid then dirp.info else info, first := true })

section Path

-- What `wpdk_copy_path` puts into the buffer `spec`, if it does not fail.
variable (copyPath : CString → Option CString)

/-- `wpdk_opendir` up to `CreateFile`. -/
def dirSpec (dirname : Option CString) (mem : Bool) : Except Errno CString :=
  match dirname with
  | none => .error .einval
  | some dirname =>
    if dirname.chars = [] then .error .einval
    else if pathMax ≤ dirname.strlen + 2 then .error .enametoolong
    else if mem = false then .error .enomem
    else
      match copyPath dirname with
      | none => .error .enametoolong
      | some spec => .ok spec

/-- `wpdk_opendir`. -/
def opendir (r : Runtime) (dirname : Option CString) (ans : OpenAnswers) : Runtime × Option Dir :=
  match dirSpec copyPath dirname ans.mem with
  | .error e => (r.setErrno e.code, none)
  | .ok spec => openStream r spec ans

/-! ## Runs -/

/-- The streams are numbered in the order of the calls of `wpdk_opendir`; a call that has returned
null has no stream, and a stream that has been closed is gone. -/
structure State where
  rt : Runtime
  opened : ℕ
  dirs : ℕ → Option Dir

/-- No stream has been opened. -/
def State.start : State where
  rt := ⟨0, fun _ => invalid, ⟨0, 0⟩, ⟨0, 0⟩, ⟨0, 0⟩⟩
  opened := 0
  dirs := fun _ => none

/-- A call, with a null pointer or a stream, and what the system answers to it. -/
inductive Action where
  | opendir (dirname : Option CString) (ans : OpenAnswers)
  | closedir (dirp : Option ℕ)
  | readdir (dirp : Option ℕ) (ans : NextAnswer)
  | rewinddir (dirp : Option ℕ) (h : ℤ) (info : FindData)

/-- The open stream with a number. -/
def State.stream (s : State) (j : ℕ) : Option Dir := if j < s.opened then s.dirs j else none

/-- One call.  `_open_osfhandle` returns a descriptor that is not open, and the program passes null
or an open stream. -/
def step (s : State) : Action → Option State
  | .opendir dirname ans =>
    if ans.fd = invalid ∨ s.rt.osfhnd ans.fd = invalid then
      let (rt, dirp) := opendir copyPath s.rt dirname ans
      some ⟨rt, s.opened + 1, Function.update s.dirs s.opened dirp⟩
    else none
  | .closedir none => some { s with rt := (closedir s.rt none).1 }
  | .closedir (some j) =>
    (s.stream j).map fun dirp =>
      { s with rt := (closedir s.rt (some dirp)).1, dirs := Function.update s.dirs j none }
  | .readdir none _ => some { s with rt := s.rt.setErrno Errno.ebadf.code }
  | .readdir (some j) ans =>
    (s.stream j).map fun dirp =>
      let (rt, dirp, _) := readdir s.rt dirp ans
      { s with rt := rt, dirs := Function.update s.dirs j (some dirp) }
  | .rewinddir none _ _ => some s
  | .rewinddir (some j) h info =>
    (s.stream j).map fun dirp =>
      let (rt, dirp) := rewinddir s.rt dirp h info
      { s with rt := rt, dirs := Function.update s.dirs j (some dirp) }

end Path

/-! ## What is owed -/

/-- The descriptor of a stream. -/
def fdOf : Option Dir → Multiset ℤ
  | none => 0
  | some dirp => held dirp.fd

/-- The find handle of a stream. -/
def findOf : Option Dir → Multiset ℤ
  | none => 0
  | some dirp => held dirp.h

/-- Everything that was obtained has been closed, once, or is owed: the descriptors `owedFds` with
the handles under them, and the find handles `owedFinds`. -/
structure Owes (r : Runtime) (owedFds owedFinds : Multiset ℤ) : Prop where
  handles : r.handles.obtained = r.handles.closed + owedFds.map r.osfhnd
  fds : r.fds.obtained = r.fds.closed + owedFds
  finds : r.finds.obtained = r.finds.closed + owedFinds

/-- The same, with descriptors that are open and different. -/
structure Settled (r : Runtime) (owedFds owedFinds : Multiset ℤ) : Prop extends
    Owes r owedFds owedFinds where
  nodup : owedFds.Nodup
  isOpen : ∀ fd ∈ owedFds, r.osfhnd fd ≠ invalid

theorem update_of_notMem {f : ℤ → ℤ} {fd : ℤ} {fds : Multiset ℤ} (h : fd ∉ fds) (w : ℤ) :
    ∀ v ∈ fds, Function.update f fd w v = f v := by
  intro v hv
  refine Function.update_of_ne ?_ _ _
  rintro rfl
  exact h hv

/-- Nothing has been closed that had not been obtained, nor more often. -/
theorem Owes.closed_le {r : Runtime} {fds finds : Multiset ℤ} (h : Owes r fds finds) :
    r.handles.closed ≤ r.handles.obtained ∧ r.fds.closed ≤ r.fds.obtained ∧
      r.finds.closed ≤ r.finds.obtained :=
  ⟨h.handles ▸ Multiset.le_add_right _ _, h.fds ▸ Multiset.le_add_right _ _,
    h.finds ▸ Multiset.le_add_right _ _⟩

/-- **The handles balance**: what has not been closed belongs to the open streams, and what has
been closed had been obtained. -/
structure Balanced (s : State) : Prop where
  owes : Owes s.rt (total fdOf s.dirs s.opened) (total findOf s.dirs s.opened)
  closed_le : s.rt.handles.closed ≤ s.rt.handles.obtained ∧
    s.rt.fds.closed ≤ s.rt.fds.obtained ∧ s.rt.finds.closed ≤ s.rt.finds.obtained

/-- What a run keeps. -/
def Inv (s : State) : Prop :=
  Settled s.rt (total fdOf s.dirs s.opened) (total findOf s.dirs s.opened)

theorem inv_start : Inv State.start where
  handles := rfl
  fds := rfl
  finds := rfl
  nodup := Multiset.nodup_zero
  isOpen fd h := absurd h (Multiset.notMem_zero fd)

namespace Settled

variable {r : Runtime} {fds finds : Multiset ℤ}

theorem setErrno (h : Settled r fds finds) (e : ℕ) : Settled (r.setErrno e) fds finds where
  handles := h.handles
  fds := h.fds
  finds := h.finds
  nodup := h.nodup
  isOpen := h.isOpen

/-- A handle and the descriptor over it. -/
theorem openOsfhandle (h : Settled r fds finds) {file fd : ℤ} (hfile : file ≠ invalid)
    (hfd : fd ≠ invalid) (hfree : r.osfhnd fd = invalid) :
    Settled ((r.createFile file).openOsfhandle file fd) (fd ::ₘ fds) finds := by
  have hnew : fd ∉ fds := fun hmem => h.isOpen fd hmem hfree
  have hother := update_of_notMem (f := r.osfhnd) hnew file
  rw [Runtime.openOsfhandle, if_neg hfd]
  refine ⟨⟨?_, ?_, h.finds⟩, Multiset.nodup_cons.mpr ⟨hnew, h.nodup⟩, ?_⟩
  · dsimp only [Runtime.createFile, Account.obtain]
    rw [h.handles, held_of_ne hfile, Multiset.map_cons, Function.update_self,
      Multiset.map_congr rfl hother, Multiset.singleton_add, Multiset.add_cons]
  · dsimp only [Runtime.createFile, Account.obtain]
    rw [h.fds, held_of_ne hfd, Multiset.singleton_add, Multiset.add_cons]
  · intro v hv
    dsimp only [Runtime.createFile]
    rcases Multiset.mem_cons.mp hv with rfl | hv
    · rwa [Function.update_self]
    · rw [hother v hv]
      exact h.isOpen v hv

theorem close {fd : ℤ} (h : Settled r (fd ::ₘ fds) finds) : Settled (r.close fd) fds finds := by
  obtain ⟨hnew, hnodup⟩ := Multiset.nodup_cons.mp h.nodup
  have hother := update_of_notMem (f := r.osfhnd) hnew invalid
  refine ⟨⟨?_, ?_, h.finds⟩, hnodup, ?_⟩
  · dsimp only [Runtime.close]
    rw [h.handles, held_of_ne (h.isOpen fd (Multiset.mem_cons_self fd fds)), Multiset.map_cons,
      Multiset.map_congr rfl hother, Multiset.singleton_add, Multiset.add_cons,
      Multiset.cons_add]
  · dsimp only [Runtime.close, Account.close]
    rw [h.fds, Multiset.add_cons, Multiset.cons_add]
  · intro v hv
    dsimp only [Runtime.close]
    rw [hother v hv]
    exact h.isOpen v (Multiset.mem_cons_of_mem hv)

theorem findfirst (h : Settled r fds finds) (v : ℤ) :
    Settled (r.findfirst v) fds (held v + finds) where
  handles := h.handles
  fds := h.fds
  finds := by
    dsimp only [Runtime.findfirst, Account.obtain]
    rw [h.finds, add_left_comm]
  nodup := h.nodup
  isOpen := h.isOpen

theorem findclose {v : ℤ} (h : Settled r fds (v ::ₘ finds)) :
    Settled (r.findclose v) fds finds where
  handles := h.handles
  fds := h.fds
  finds := by
    dsimp only [Runtime.findclose, Account.close]
    rw [h.finds, Multiset.add_cons, Multiset.cons_add]
  nodup := h.nodup
  isOpen := h.isOpen

/-- The descriptor, if there is one. -/
theorem close_held {fd : ℤ} (h : Settled r (held fd + fds) finds) :
    Settled (if fd ≠ invalid then r.close fd else r) fds finds := by
  by_cases hfd : fd = invalid
  · rwa [if_neg (not_not.mpr hfd), ← zero_add fds, ← held_invalid, ← hfd]
  · rw [held_of_ne hfd, Multiset.singleton_add] at h
    rw [if_pos hfd]
    exact h.close

/-- The find handle, if there is one. -/
theorem findclose_held {v : ℤ} (h : Settled r fds (held v + finds)) :
    Settled (if v ≠ invalid then r.findclose v else r) fds finds := by
  by_cases hv : v = invalid
  · rwa [if_neg (not_not.mpr hv), ← zero_add finds, ← held_invalid, ← hv]
  · rw [held_of_ne hv, Multiset.singleton_add] at h
    rw [if_pos hv]
    exact h.findclose

/-- **`wpdk_closedir` gives back what the stream has.** -/
theorem closedir {dirp : Dir} (h : Settled r (held dirp.fd + fds) (held dirp.h + finds)) :
    Settled (closedir r (some dirp)).1 fds finds :=
  h.close_held.findclose_held

theorem rewinddir {dirp : Dir} (h : Settled r fds (held dirp.h + finds)) (v : ℤ)
    (info : FindData) : Settled (rewinddir r dirp v info).1 fds (held v + finds) :=
  h.findclose_held.findfirst v

theorem readdir (h : Settled r fds finds) (dirp : Dir) (ans : NextAnswer) :
    Settled (readdir r dirp ans).1 fds finds := by
  unfold Dirent.readdir
  split
  · exact h.setErrno _
  · split
    · exact h.setErrno _
    · exact h

/-- **What `wpdk_opendir` obtains belongs to the stream that it returns**, unless it has got a
handle and no descriptor. -/
theorem openStream (h : Settled r fds finds) {spec : CString} {ans : OpenAnswers}
    (hfree : ans.fd = invalid ∨ r.osfhnd ans.fd = invalid)
    (hbuilt : ans.file ≠ invalid → ans.fd ≠ invalid) :
    Settled (openStream r spec ans).1 (fdOf (openStream r spec ans).2 + fds)
      (findOf (openStream r spec ans).2 + finds) := by
  unfold Dirent.openStream
  by_cases hfile : ans.file = invalid
  · rw [if_pos hfile, hfile, Runtime.createFile_invalid]
    simp only [fdOf, findOf, zero_add]
    exact h.setErrno _
  · have hfd : ans.fd ≠ invalid := hbuilt hfile
    have hopen := (h.openOsfhandle hfile hfd (hfree.resolve_left hfd)).findfirst ans.find
    rw [← Multiset.singleton_add, ← held_of_ne hfd] at hopen
    rw [if_neg hfile, if_neg hfd]
    by_cases hfind : ans.find = invalid
    · rw [if_pos hfind]
      simp only [fdOf, findOf, zero_add]
      exact (Settled.closedir hopen).setErrno _
    · rw [if_neg hfind]
      exact hopen

end Settled

section Path

variable {copyPath : CString → Option CString}

/-- A `wpdk_opendir` that gets its handle and is refused the descriptor. -/
def HalfBuilt (copyPath : CString → Option CString) : Action → Prop
  | .opendir dirname ans =>
    (∃ spec, dirSpec copyPath dirname ans.mem = .ok spec) ∧ ans.file ≠ invalid ∧ ans.fd = invalid
  | .closedir _ | .readdir _ _ | .rewinddir _ _ _ => False

theorem Settled.opendir {r : Runtime} {fds finds : Multiset ℤ} (h : Settled r fds finds)
    {dirname : Option CString} {ans : OpenAnswers}
    (hfree : ans.fd = invalid ∨ r.osfhnd ans.fd = invalid)
    (hbuilt : ¬ HalfBuilt copyPath (.opendir dirname ans)) :
    Settled (opendir copyPath r dirname ans).1 (fdOf (opendir copyPath r dirname ans).2 + fds)
      (findOf (opendir copyPath r dirname ans).2 + finds) := by
  unfold Dirent.opendir
  cases hspec : dirSpec copyPath dirname ans.mem with
  | error e =>
    simp only [fdOf, findOf, zero_add]
    exact h.setErrno _
  | ok spec =>
    exact h.openStream hfree fun hfile hfd => hbuilt ⟨⟨spec, hspec⟩, hfile, hfd⟩

theorem State.stream_eq_some {s : State} {j : ℕ} {dirp : Dir} (h : s.stream j = some dirp) :
    j < s.opened ∧ s.dirs j = some dirp := by
  unfold State.stream at h
  split at h
  · exact ⟨‹_›, h⟩
  · cases h

theorem readdir_kept (r : Runtime) (dirp : Dir) (ans : NextAnswer) :
    (readdir r dirp ans).2.1.fd = dirp.fd ∧ (readdir r dirp ans).2.1.h = dirp.h := by
  unfold readdir
  split
  · exact ⟨rfl, rfl⟩
  · split <;> exact ⟨rfl, rfl⟩

/-- **A call keeps the account.** -/
theorem Inv.step {s s' : State} {a : Action} (h : Inv s) (hbuilt : ¬ HalfBuilt copyPath a)
    (hstep : step copyPath s a = some s') : Inv s' := by
  cases a with
  | opendir dirname ans =>
    dsimp only [Dirent.step] at hstep
    split at hstep
    · rename_i hfree
      obtain rfl := Option.some.inj hstep
      dsimp only [Inv]
      rw [total_push, total_push, add_comm, add_comm (total findOf _ _)]
      exact Settled.opendir h hfree hbuilt
    · cases hstep
  | closedir dirp =>
    cases dirp with
    | none =>
      obtain rfl := Option.some.inj hstep
      exact h.setErrno _
    | some j =>
      obtain ⟨dirp, hstream, rfl⟩ := Option.map_eq_some_iff.mp hstep
      obtain ⟨hj, hdirp⟩ := State.stream_eq_some hstream
      dsimp only [Inv] at h ⊢
      rw [total_split (g := fdOf) (z := none) hj rfl, total_split (g := findOf) (z := none) hj rfl,
        hdirp] at h
      exact Settled.closedir h
  | readdir dirp ans =>
    cases dirp with
    | none =>
      obtain rfl := Option.some.inj hstep
      exact h.setErrno _
    | some j =>
      obtain ⟨dirp, hstream, rfl⟩ := Option.map_eq_some_iff.mp hstep
      obtain ⟨hj, hdirp⟩ := State.stream_eq_some hstream
      have hkept := readdir_kept s.rt dirp ans
      dsimp only [Inv] at h ⊢
      rw [total_update_same fdOf s.dirs (by rw [hdirp, fdOf, fdOf, hkept.1]),
        total_update_same findOf s.dirs (by rw [hdirp, findOf, findOf, hkept.2])]
      exact h.readdir dirp ans
  | rewinddir dirp v info =>
    cases dirp with
    | none =>
      obtain rfl := Option.some.inj hstep
      exact h
    | some j =>
      obtain ⟨dirp, hstream, rfl⟩ := Option.map_eq_some_iff.mp hstep
      obtain ⟨hj, hdirp⟩ := State.stream_eq_some hstream
      dsimp only [Inv] at h ⊢
      rw [total_update_same fdOf s.dirs (by rw [hdirp]; rfl),
        total_update_split (z := none) hj rfl]
      rw [total_split (g := findOf) (z := none) hj rfl, hdirp] at h
      exact Settled.rewinddir h v info

/-- The half-built stream: `_findclose` is called with zero. -/
theorem opendir_of_halfBuilt {r : Runtime} {dirname : Option CString} {ans : OpenAnswers}
    (h : HalfBuilt copyPath (.opendir dirname ans)) :
    (opendir copyPath r dirname ans).1.finds = r.finds.close 0 ∧
      (opendir copyPath r dirname ans).2 = none := by
  obtain ⟨⟨spec, hspec⟩, hfile, hfd⟩ := h
  unfold opendir
  rw [hspec]
  simp only [openStream, if_neg hfile, Runtime.openOsfhandle, closedir, hfd]
  exact ⟨rfl, rfl⟩

/-- After it the find handles do not balance. -/
theorem not_balanced_of_halfBuilt {s : State} {a : Action} (h : Inv s)
    (hbuilt : HalfBuilt copyPath a) : ∃ s', step copyPath s a = some s' ∧ ¬ Balanced s' := by
  cases a with
  | opendir dirname ans =>
    obtain ⟨hfinds, hnone⟩ := opendir_of_halfBuilt (r := s.rt) hbuilt
    refine ⟨_, if_pos (Or.inl hbuilt.2.2), fun hbalanced => ?_⟩
    have hafter : (opendir copyPath s.rt dirname ans).1.finds.obtained =
        (opendir copyPath s.rt dirname ans).1.finds.closed + total findOf
          (Function.update s.dirs s.opened (opendir copyPath s.rt dirname ans).2) (s.opened + 1) :=
      hbalanced.owes.finds
    rw [hfinds, hnone, total_push] at hafter
    dsimp only [Account.close, findOf] at hafter
    rw [h.finds, add_zero, Multiset.cons_add] at hafter
    exact (Multiset.lt_cons_self _ 0).ne hafter
  | closedir _ => exact hbuilt.elim
  | readdir _ _ => exact hbuilt.elim
  | rewinddir _ _ _ => exact hbuilt.elim

/-- **Directory streams balance their handles.**  Along every run of calls on any number of streams,
with any failures, everything obtained is closed once or belongs to an open stream, in every
state: exactly as long as no `wpdk_opendir` is refused the descriptor for its handle. -/
theorem streams_balance_iff (copyPath : CString → Option CString) (actions : List Action) :
    Throughout (step copyPath) Balanced State.start actions ↔
      EachStep (step copyPath) (fun _ a => ¬ HalfBuilt copyPath a) State.start actions :=
  throughout_iff_eachStep (I := Inv) (fun _ h => ⟨h.toOwes, h.closed_le⟩)
    (fun _ _ _ h hC hstep => h.step hC hstep)
    (fun _ _ h hC => not_balanced_of_halfBuilt h (not_not.mp hC)) inv_start

/-- One `wpdk_opendir("d")`: `CreateFile` returns a handle, and all descriptors are in use. -/
def refusedDescriptor : Action :=
  .opendir (some (CString.lit "d"))
    { mem := true, file := 8, fileError := .errorSuccess, fd := -1, fdError := Errno.emfile.code,
      find := -1, findError := 0, info := Dir.zero.info }

/-- Zero is passed to `_findclose`, and no find handle has been obtained. -/
theorem opendir_closes_zero :
    ∃ s, exec (step some) State.start [refusedDescriptor] = some s ∧ ¬ Balanced s ∧
      s.rt.finds.closed = {0} ∧ s.rt.finds.obtained = 0 := by
  refine ⟨_, rfl, fun h => ?_, rfl, rfl⟩
  exact absurd (congrArg Multiset.card h.owes.finds) (by decide)

end Path

end Dirent
end Wpdk
