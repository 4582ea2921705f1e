import Mathlib.Data.List.Count
import Mathlib.Data.Nat.Notation
import Mathlib.Logic.Function.Basic

/-!
# Byte-range locks

A lock manager for one file, with locks that belong to an owner and cover a range of bytes.  An
exclusive lock is granted on a range that no lock touches, whoever owns it; a shared one on a
range that no *other* owner has locked exclusively, so that shared locks of one owner may stack.
An unlock has to name the range exactly, and gives back an exclusive lock on it before a shared
one.

* `FileLock.Blocks`, `Blocked`: when a lock that is held stands in the way of a request.
* `lockFile`, `unlockFile`: the two operations, both without waiting; `unlockFile_of_mem` is the
  unlock of a lock that stands alone on its range.
* `Compatible`: exclusive locks exclude the locks of others.  The manager keeps it.
* `HeldBy`: the manager holds what every owner is said to hold.
-/

namespace Wpdk

/-- A lock on the bytes `first, ..., first + len - 1`. -/
structure FileLock (ι : Type*) where
  owner : ι
  exclusive : Bool
  first : ℕ
  len : ℕ
deriving DecidableEq

namespace FileLock

variable {ι : Type*}

/-- The two ranges have a byte in common. -/
def Overlaps (a b : FileLock ι) : Prop :=
  a.first < b.first + b.len ∧ b.first < a.first + a.len

instance (a b : FileLock ι) : Decidable (a.Overlaps b) := inferInstanceAs (Decidable (_ ∧ _))

/-- A lock that is held stands in the way of a request. -/
def Blocks (held request : FileLock ι) : Prop :=
  held.Overlaps request ∧
    (request.exclusive = true ∨ (held.exclusive = true ∧ held.owner ≠ request.owner))

instance [DecidableEq ι] (held request : FileLock ι) : Decidable (held.Blocks request) :=
  inferInstanceAs (Decidable (_ ∧ _))

end FileLock

variable {ι : Type*} [DecidableEq ι]

/-- Some lock stands in the way. -/
def Blocked (locks : List (FileLock ι)) (request : FileLock ι) : Prop :=
  ∃ l ∈ locks, l.Blocks request

instance (locks : List (FileLock ι)) (request : FileLock ι) : Decidable (Blocked locks request) :=
  inferInstanceAs (Decidable (∃ l ∈ locks, l.Blocks request))

/-- Taking a lock, with `none` for the refusal. -/
def lockFile (locks : List (FileLock ι)) (request : FileLock ι) : Option (List (FileLock ι)) :=
  if Blocked locks request then none else some (request :: locks)

/-- Giving a lock back, with `none` if there is none on exactly this range. -/
def unlockFile (locks : List (FileLock ι)) (owner : ι) (first len : ℕ) :
    Option (List (FileLock ι)) :=
  if ⟨owner, true, first, len⟩ ∈ locks then some (locks.erase ⟨owner, true, first, len⟩)
  else if ⟨owner, false, first, len⟩ ∈ locks then
    some (locks.erase ⟨owner, false, first, len⟩)
  else none

theorem lockFile_of_blocked {locks : List (FileLock ι)} {request : FileLock ι}
    (h : Blocked locks request) : lockFile locks request = none := if_pos h

theorem lockFile_of_not_blocked {locks : List (FileLock ι)} {request : FileLock ι}
    (h : ¬ Blocked locks request) : lockFile locks request = some (request :: locks) := if_neg h

/-- The unlock of a lock that is the only one of its owner on its range. -/
theorem unlockFile_of_mem {locks : List (FileLock ι)} {l : FileLock ι} (hl : l ∈ locks)
    (hshared : l.exclusive = false → ⟨l.owner, true, l.first, l.len⟩ ∉ locks) :
    unlockFile locks l.owner l.first l.len = some (locks.erase l) := by
  obtain ⟨owner, exclusive, first, len⟩ := l
  cases exclusive with
  | true => exact if_pos hl
  | false =>
    rw [unlockFile, if_neg (hshared rfl)]
    exact if_pos hl

theorem unlockFile_of_notMem {locks : List (FileLock ι)} {owner : ι} {first len : ℕ}
    (h : ∀ exclusive, ⟨owner, exclusive, first, len⟩ ∉ locks) :
    unlockFile locks owner first len = none := by
  rw [unlockFile, if_neg (h true), if_neg (h false)]

/-! ## Exclusion -/

/-- An exclusive lock has no byte in common with a lock of another owner. -/
def Compatible (locks : List (FileLock ι)) : Prop :=
  ∀ a ∈ locks, ∀ b ∈ locks, a.exclusive = true → a.Overlaps b → a.owner = b.owner

omit [DecidableEq ι] in
theorem FileLock.Overlaps.symm {a b : FileLock ι} (h : a.Overlaps b) : b.Overlaps a := ⟨h.2, h.1⟩

/-- **A lock that is granted excludes the others as it should.** -/
theorem Compatible.lock {locks : List (FileLock ι)} (h : Compatible locks) {r : FileLock ι}
    (hfree : ¬ Blocked locks r) : Compatible (r :: locks) := by
  intro a ha b hb hexclusive hoverlaps
  rcases List.mem_cons.mp ha with rfl | hold
  · rcases List.mem_cons.mp hb with rfl | hold
    · rfl
    · exact absurd ⟨b, hold, hoverlaps.symm, Or.inl hexclusive⟩ hfree
  · rcases List.mem_cons.mp hb with rfl | hold'
    · by_contra howner
      exact hfree ⟨a, hold, hoverlaps, Or.inr ⟨hexclusive, howner⟩⟩
    · exact h a hold b hold' hexclusive hoverlaps

theorem Compatible.erase {locks : List (FileLock ι)} (h : Compatible locks) (l : FileLock ι) :
    Compatible (locks.erase l) := fun a ha b hb =>
  h a (List.mem_of_mem_erase ha) b (List.mem_of_mem_erase hb)

/-! ## Owners -/

/-- The manager holds the locks that every owner is said to hold, and no others. -/
def HeldBy (own : ι → List (FileLock ι)) (locks : List (FileLock ι)) : Prop :=
  ∀ l, locks.count l = (own l.owner).count l

namespace HeldBy

variable {own : ι → List (FileLock ι)} {locks : List (FileLock ι)} {i : ι} {a : FileLock ι}

theorem mem_iff (h : HeldBy own locks) : a ∈ locks ↔ a ∈ own a.owner := by
  rw [← List.count_pos_iff, h a, List.count_pos_iff]

/-- A step of one owner has to keep its own account only. -/
theorem update (h : HeldBy own locks) {locks' mine : List (FileLock ι)}
    (hown : ∀ l, l.owner = i → locks'.count l = mine.count l)
    (hrest : ∀ l, l.owner ≠ i → locks'.count l = locks.count l) :
    HeldBy (Function.update own i mine) locks' := by
  intro l
  by_cases hi : l.owner = i
  · rw [hown l hi, hi, Function.update_self]
  · rw [hrest l hi, h l, Function.update_of_ne hi]

theorem lock (h : HeldBy own locks) (ha : a.owner = i) :
    HeldBy (Function.update own i (a :: own i)) (a :: locks) := by
  refine h.update (fun l hl => ?_) (fun l hl => ?_)
  · rw [List.count_cons, List.count_cons, h l, hl]
  · have hne : a ≠ l := by
      rintro rfl
      exact hl ha
    rw [List.count_cons_of_ne hne]

theorem unlock (h : HeldBy own locks) (ha : a.owner = i) :
    HeldBy (Function.update own i ((own i).erase a)) (locks.erase a) := by
  refine h.update (fun l hl => ?_) (fun l hl => ?_)
  · rw [List.count_erase, List.count_erase, h l, hl]
  · have hne : l ≠ a := by
      rintro rfl
      exact hl ha
    rw [List.count_erase_of_ne hne]

end HeldBy

end Wpdk
