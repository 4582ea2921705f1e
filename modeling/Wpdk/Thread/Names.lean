import Wpdk.Base.Calls
import Wpdk.Thread.Codes

/-!
# Names of threads

Windows keeps a description of every thread, in 16-bit characters.  `wpdk_pthread_setname_np` puts
the characters of a name into an array of 32 of them, one for one, which extends the sign of a
`char`; `wpdk_pthread_getname_np` takes the low byte of each again.  A description that does not
fill the buffer of the caller is terminated, and one that does is cut off without a terminator and
reported with `ERANGE`.  The same descriptions are open to everybody else in the process.

* `Text`, `Wide`: strings before their terminators, of bytes and of 16-bit characters.
* `setname`, `getname`, `setName`, `getName`: the four functions, on the descriptions.
* `Call`, `call`: a call of one of them, or of `SetThreadDescription` by someone else.
* `Call.Renames`: the call gives a thread another name.
* `ret_setname`, `ret_getname`: the return values are those of `Wpdk.Thread.Codes`, where a
  name is its length.
* `thread_name_read_back`: a name that was set is what is read, whatever happens in between to
  other threads, and whoever fails.
-/

namespace Wpdk
namespace Pthread
namespace Names

/-- A `char`. -/
abbrev Byte := BitVec 8

/-- A `wchar_t`. -/
abbrev Wchar := BitVec 16

/-- `buf[i] = name[i]`, where `char` is signed. -/
def widen (c : Byte) : Wchar := c.signExtend 16

/-- `(char)str[i]`. -/
def narrow (w : Wchar) : Byte := w.setWidth 8

/-- The characters of a string before its terminator. -/
structure Text where
  bytes : List Byte
  zero_notMem : 0#8 ∉ bytes

/-- The same for a description. -/
structure Wide where
  chars : List Wchar
  zero_notMem : 0#16 ∉ chars

theorem narrow_widen (c : Byte) : narrow (widen c) = c := by
  ext i hi
  have hlt : i < 16 := by omega
  rw [narrow, widen, BitVec.getElem_setWidth, BitVec.getLsbD_eq_getElem hlt,
    BitVec.getElem_signExtend, dif_pos hi]

theorem widen_ne_zero {c : Byte} (h : c ≠ 0#8) : widen c ≠ 0#16 := by
  intro hwiden
  refine h ?_
  rw [← narrow_widen c, hwiden]
  rfl

/-- The array after the loop: as many characters as it has room for. -/
def Text.widened (name : Text) (size : ℕ) : Wide where
  chars := (name.bytes.take size).map widen
  zero_notMem h := by
    obtain ⟨c, hc, hzero⟩ := List.mem_map.mp h
    have hne : c ≠ 0#8 := fun heq => name.zero_notMem (heq ▸ List.mem_of_mem_take hc)
    exact widen_ne_zero hne hzero

/-- What `GetProcAddress` has found. -/
structure Kernel where
  setThreadDescription : Bool
  getThreadDescription : Bool

/-- How `OpenThread` ends, and whether the function for the description succeeds. -/
structure Answer where
  opened : Except WinError Unit
  succeeded : Bool

/-- The descriptions of the threads. -/
abbrev Descriptions := ℕ → Wide

/-- The size of the array `buf`. -/
def bufSize : ℕ := 32

section Functions

variable (k : Kernel) (d : Descriptions)

/-- `wpdk_pthread_setname_np`. -/
def setname (thread : ℕ) (name : Option Text) (a : Answer) : ℕ × Descriptions :=
  match name with
  | none => (Errno.einval.code, d)
  | some name =>
    if thread = 0 then (Errno.einval.code, d)
    else if k.setThreadDescription = false then (Errno.enosys.code, d)
    else if (name.widened bufSize).chars.length = 0 then (Errno.einval.code, d)
    else if (name.widened bufSize).chars.length = bufSize then (Errno.erange.code, d)
    else
      match a.opened with
      | .error e => (convertToPosix e, d)
      | .ok _ =>
        if a.succeeded then (0, Function.update d thread (name.widened bufSize))
        else (Errno.einval.code, d)

/-- What the loop of `wpdk_pthread_getname_np` and the terminator behind it leave in a buffer. -/
def copied (str : Wide) (name : List Byte) : ℕ × List Byte :=
  let front := (str.chars.take name.length).map narrow
  if front.length < name.length then (0, front ++ 0#8 :: name.drop (front.length + 1))
  else (Errno.erange.code, front ++ name.drop front.length)

/-- `wpdk_pthread_getname_np`, with the contents of the buffer of `len` characters before and after
it; `none` is a null pointer. -/
def getname (thread : ℕ) (name : Option (List Byte)) (a : Answer) : ℕ × Option (List Byte) :=
  match name with
  | none => (Errno.einval.code, none)
  | some name =>
    if thread = 0 ∨ name.length < 1 then (Errno.einval.code, some name)
    else if k.getThreadDescription = false then (Errno.enosys.code, some name)
    else
      match a.opened with
      | .error e => (convertToPosix e, some name)
      | .ok _ =>
        if a.succeeded then
          ((copied (d thread) name).1, some (copied (d thread) name).2)
        else (Errno.einval.code, some name)

/-- `wpdk_pthread_set_name_np`. -/
def setName (thread : ℕ) (name : Option Text) (a : Answer) : Descriptions :=
  (setname k d thread name a).2

/-- `wpdk_pthread_get_name_np`: an error empties the buffer. -/
def getName (thread : ℕ) (name : Option (List Byte)) (a : Answer) : Option (List Byte) :=
  let out := getname k d thread name a
  if out.1 ≠ 0 then
    out.2.map fun name => if 0 < name.length then name.set 0 0#8 else name
  else out.2

end Functions

/-- A call, or somebody else's use of `SetThreadDescription`. -/
inductive Call where
  | setname (thread : ℕ) (name : Option Text) (a : Answer)
  | getname (thread : ℕ) (name : Option (List Byte)) (a : Answer)
  | setName (thread : ℕ) (name : Option Text) (a : Answer)
  | getName (thread : ℕ) (name : Option (List Byte)) (a : Answer)
  | describe (thread : ℕ) (str : Wide)

/-- The return value, if there is one, and the buffer, if there is one. -/
structure Reply where
  ret : Option ℕ
  buffer : Option (List Byte)

/-- The call, with the descriptions after it. -/
def call (k : Kernel) (d : Descriptions) : Call → Reply × Descriptions
  | .setname thread name a =>
    (⟨some (setname k d thread name a).1, none⟩, (setname k d thread name a).2)
  | .getname thread name a =>
    (⟨some (getname k d thread name a).1, (getname k d thread name a).2⟩, d)
  | .setName thread name a => (⟨none, none⟩, setName k d thread name a)
  | .getName thread name a => (⟨none, getName k d thread name a⟩, d)
  | .describe thread str => (⟨none, none⟩, Function.update d thread str)

/-! ## What a call changes -/

/-- The call gets as far as the description, and `SetThreadDescription` succeeds. -/
structure Accepted (k : Kernel) (thread : ℕ) (name : Text) (a : Answer) : Prop where
  thread : thread ≠ 0
  available : k.setThreadDescription = true
  nonempty : 0 < name.bytes.length
  short : name.bytes.length < bufSize
  opened : a.opened = .ok ()
  succeeded : a.succeeded = true

section Setname

variable {k : Kernel} {d : Descriptions} {thread : ℕ} {name : Text} {a : Answer}

theorem chars_widened (name : Text) (size : ℕ) :
    (name.widened size).chars = (name.bytes.take size).map widen := rfl

theorem length_widened (name : Text) (size : ℕ) :
    (name.widened size).chars.length = min size name.bytes.length := by
  rw [chars_widened, List.length_map, List.length_take]

/-- A name that fits is all there. -/
theorem narrow_widened {size : ℕ} (h : name.bytes.length ≤ size) :
    (name.widened size).chars.map narrow = name.bytes := by
  rw [chars_widened, List.take_of_length_le h, List.map_map]
  exact List.map_id'' narrow_widen _

theorem setname_of_accepted (h : Accepted k thread name a) :
    setname k d thread (some name) a =
      (0, Function.update d thread (name.widened bufSize)) := by
  have hlength := length_widened name bufSize
  have hshort := h.short
  have hnonempty := h.nonempty
  have hne : (name.widened bufSize).chars.length ≠ 0 := by omega
  have hlt : (name.widened bufSize).chars.length ≠ bufSize := by omega
  simp only [setname, if_neg h.thread, h.available, if_neg hne, if_neg hlt, h.opened, h.succeeded,
    Bool.true_eq_false, if_false, if_true]

/-- **A call that is not accepted changes nothing**: each of the tests has a return of its own. -/
theorem setname_of_not_accepted (h : ¬ Accepted k thread name a) :
    (setname k d thread (some name) a).2 = d := by
  have hlength := length_widened name bufSize
  rw [setname]
  by_cases hthread : thread = 0
  · rw [if_pos hthread]
  rw [if_neg hthread]
  by_cases havail : k.setThreadDescription = false
  · rw [if_pos havail]
  rw [if_neg havail]
  by_cases hzero : (name.widened bufSize).chars.length = 0
  · rw [if_pos hzero]
  rw [if_neg hzero]
  by_cases hfull : (name.widened bufSize).chars.length = bufSize
  · rw [if_pos hfull]
  rw [if_neg hfull]
  cases hopened : a.opened with
  | error e => rfl
  | ok u =>
    cases hsucceeded : a.succeeded with
    | false => rfl
    | true =>
      rw [Bool.not_eq_false] at havail
      exact absurd ⟨hthread, havail, by omega, by omega, hopened, hsucceeded⟩ h

end Setname

/-- The call gives thread `t` a description. -/
def Call.Renames (k : Kernel) (t : ℕ) : Call → Prop
  | .setname thread (some name) a | .setName thread (some name) a =>
    thread = t ∧ Accepted k thread name a
  | .describe thread _ => thread = t
  | _ => False

/-- A call leaves the descriptions of the other threads alone. -/
theorem call_of_not_renames {k : Kernel} {d : Descriptions} {t : ℕ} {c : Call}
    (h : ¬ c.Renames k t) : (call k d c).2 t = d t := by
  have hset : ∀ thread name a, ¬ (thread = t ∧ Accepted k thread name a) →
      (setname k d thread (some name) a).2 t = d t := by
    intro thread name a hnot
    by_cases hacc : Accepted k thread name a
    · rw [setname_of_accepted hacc]
      exact Function.update_of_ne (fun heq => hnot ⟨heq.symm, hacc⟩) _ _
    · rw [setname_of_not_accepted hacc]
  cases c with
  | setname thread name a =>
    cases name with
    | none => rfl
    | some name => exact hset thread name a h
  | getname thread name a => rfl
  | setName thread name a =>
    cases name with
    | none => rfl
    | some name => exact hset thread name a h
  | getName thread name a => rfl
  | describe thread str => exact Function.update_of_ne (fun heq => h heq.symm) _ _

/-! ## The return values -/

section Codes

variable {k : Kernel} {d : Descriptions} {thread : ℕ} {a : Answer} {c : CString}

/-- **`wpdk_pthread_setname_np` returns what it returns in `pthreadSetname`**, for a name of as many
characters, and gives the thread its name if it takes effect there. -/
theorem ret_setname {name : Text} (hlen : c.strlen = name.bytes.length) :
    let o := pthreadSetname thread (some c) k.setThreadDescription a.opened a.succeeded
    o.ret = (setname k d thread (some name) a).1 ∧
      (setname k d thread (some name) a).2 =
        if o.effect then Function.update d thread (name.widened bufSize) else d := by
  have hsame : (c.chars.take nameSize).length = (name.widened bufSize).chars.length := by
    rw [length_widened, List.length_take]
    exact congrArg (min nameSize) hlen
  unfold pthreadSetname setname
  dsimp only
  rw [hsame, show nameSize = bufSize from rfl]
  by_cases hthread : thread = 0
  · rw [if_pos hthread, if_pos hthread]
    exact ⟨rfl, rfl⟩
  rw [if_neg hthread, if_neg hthread]
  by_cases havail : k.setThreadDescription = false
  · rw [if_pos havail, if_pos havail]
    exact ⟨rfl, rfl⟩
  rw [if_neg havail, if_neg havail]
  by_cases hzero : (name.widened bufSize).chars.length = 0
  · rw [if_pos hzero, if_pos hzero]
    exact ⟨rfl, rfl⟩
  rw [if_neg hzero, if_neg hzero]
  by_cases hfull : (name.widened bufSize).chars.length = bufSize
  · rw [if_pos hfull, if_pos hfull]
    exact ⟨rfl, rfl⟩
  rw [if_neg hfull, if_neg hfull]
  cases a.opened with
  | error e => exact ⟨rfl, rfl⟩
  | ok u =>
    cases a.succeeded with
    | false => exact ⟨rfl, rfl⟩
    | true => exact ⟨rfl, rfl⟩

/-- **`wpdk_pthread_getname_np` returns what it returns in `pthreadGetname`**, for a description of
as many characters. -/
theorem ret_getname {name : List Byte} (hlen : c.strlen = (d thread).chars.length) :
    (pthreadGetname thread true name.length k.getThreadDescription a.opened
        (if a.succeeded then some c else none)).ret =
      (getname k d thread (some name) a).1 := by
  have hargs : (thread = 0 ∨ true = false ∨ name.length < 1) ↔
      (thread = 0 ∨ name.length < 1) := by simp
  have hsame : (c.chars.take name.length).length =
      (((d thread).chars.take name.length).map narrow).length := by
    rw [List.length_map, List.length_take, List.length_take]
    exact congrArg (min name.length) hlen
  unfold pthreadGetname getname
  dsimp only
  rw [if_congr hargs rfl rfl]
  split_ifs with hbad havail hsucceeded
  · rfl
  · rfl
  · cases a.opened with
    | error e => rfl
    | ok u =>
      dsimp only [copied]
      rw [hsame]
      split_ifs <;> rfl
  · cases a.opened with
    | error e => rfl
    | ok u => rfl

end Codes

/-! ## Reading a name back -/

/-- What the buffer holds depends on the low bytes only. -/
theorem copied_eq (str : Wide) (name : List Byte) :
    copied str name =
      if str.chars.length < name.length then
        (0, str.chars.map narrow ++ 0#8 :: name.drop (str.chars.length + 1))
      else (Errno.erange.code, (str.chars.map narrow).take name.length) := by
  unfold copied
  dsimp only
  rw [List.length_map, List.length_take]
  by_cases h : str.chars.length < name.length
  · rw [if_pos h, Nat.min_eq_right (Nat.le_of_lt h), if_pos h,
      List.take_of_length_le (Nat.le_of_lt h)]
  · have hle : name.length ≤ str.chars.length := Nat.le_of_not_lt h
    rw [if_neg h, Nat.min_eq_left hle, if_neg (Nat.lt_irrefl _), List.drop_length, List.append_nil,
      List.map_take]

/-- **A name is read back**: after a `wpdk_pthread_setname_np` that was accepted and any calls that
give the thread no other name, failed ones for this thread and any for others, a
`wpdk_pthread_getname_np` finds the name in the buffer, terminated, or as much of it as there is
room for, with `ERANGE`. -/
theorem thread_name_read_back {k : Kernel} {d : Descriptions} {t : ℕ} {name : Text} {a : Answer}
    (hset : Accepted k t name a) {cs : List Call} (hcs : ∀ c ∈ cs, ¬ c.Renames k t)
    (hget : k.getThreadDescription = true) {buf : List Byte} (hbuf : buf ≠ []) {b : Answer}
    (hopened : b.opened = .ok ()) (hsucceeded : b.succeeded = true) :
    getname k (replies (call k) (setname k d t (some name) a).2 cs).2 t (some buf) b =
      if name.bytes.length < buf.length then
        (0, some (name.bytes ++ 0#8 :: buf.drop (name.bytes.length + 1)))
      else (Errno.erange.code, some (name.bytes.take buf.length)) := by
  have hkept : (replies (call k) (setname k d t (some name) a).2 cs).2 t =
      name.widened bufSize := by
    refine replies_invariant (P := fun d : Descriptions => d t = name.widened bufSize)
      (fun d c hc hd => (call_of_not_renames (hcs c hc)).trans hd) ?_
    rw [setname_of_accepted hset]
    exact Function.update_self _ _ _
  have hnarrow := narrow_widened (Nat.le_of_lt hset.short)
  have hlength : (name.widened bufSize).chars.length = name.bytes.length := by
    rw [← hnarrow, List.length_map]
  have hargs : ¬ (t = 0 ∨ buf.length < 1) := by
    have hpos := List.length_pos_of_ne_nil hbuf
    have hthread := hset.thread
    omega
  have hread : getname k (replies (call k) (setname k d t (some name) a).2 cs).2 t (some buf) b =
      ((copied (name.widened bufSize) buf).1, some (copied (name.widened bufSize) buf).2) := by
    simp only [getname, if_neg hargs, hget, hopened, hsucceeded, hkept, Bool.true_eq_false,
      if_false, if_true]
  rw [hread, copied_eq, hlength, hnarrow]
  split <;> rfl

/-- Thread `7` is called `é`, which is two bytes with the sign set, and another thread is renamed
before the name is read. -/
theorem thread_name_read_back_signed :
    getname ⟨true, true⟩
        (replies (call ⟨true, true⟩)
          (setname ⟨true, true⟩ (fun _ => ⟨[], by decide⟩) 7 (some ⟨[0xC3#8, 0xA9#8], by decide⟩)
            ⟨.ok (), true⟩).2
          [.describe 8 ⟨[0x41#16], by decide⟩, .setname 7 none ⟨.ok (), true⟩]).2
        7 (some [1#8, 1#8, 1#8, 1#8]) ⟨.ok (), true⟩ =
      (0, some [0xC3#8, 0xA9#8, 0#8, 1#8]) :=
  thread_name_read_back ⟨by decide, rfl, by decide, by decide, rfl, rfl⟩
    (fun c hc => by
      rcases List.mem_cons.mp hc with rfl | hc
      · exact fun h : 8 = 7 => absurd h (by decide)
      · rw [List.mem_singleton.mp hc]
        exact fun h => h)
    rfl (List.cons_ne_nil _ _) rfl rfl

end Names
end Pthread
end Wpdk
