import Mathlib.Logic.Function.Basic
import Wpdk.Base.RangeLock
import Wpdk.Base.Run

/-!
# Lock probes

`fcntl(F_GETLK)` and `lockf(F_TEST)` find out whether a range is locked by locking it: they call
`wpdk_lockfile` without waiting and, if that succeeds, call it again to unlock.  Without waiting,
`wpdk_lockfile` takes a guard lock around its own `LockFileEx`, because "checking if a region is
locked involves changing the state".  The unlock of a probe that has succeeded comes after the
guard has been given back.

Clients are processes with a handle of their own, each running one call: a probe, or a lock
request that does not wait.  Any number of them interleave, one call of the lock manager at a
time, and any locks may be held by others.

* `Pc`, `step`: the calls of the lock manager made by `wpdk_lockfile` and its callers.
* `ownLocks`, `Accounts`: what a client holds is a function of where it is.
* `GuardExclusive`: at most one client is between its guard lock and its guard unlock.
* `Real`, `Invisible`: a client is refused only where a lock that somebody asked for is in the
  way.
* `invisible_iff_window`: along a run, probes are invisible exactly when no client tries its
  range while a probe on it has given back the guard and not yet the range.
-/

namespace Wpdk
namespace Lockfile

open Run

/-! ## Ranges -/

/-- `INT64_MAX`. -/
def int64Max : ℕ := 9223372036854775807

/-- `LOCKFILE_MAX`. -/
def lockfileMax : ℕ := (int64Max - 1) / 2

/-- `LOCKFILE_GUARD`. -/
def lockfileGuard : ℕ := int64Max - lockfileMax

/-- A range inside the lock window. -/
structure LockRange where
  start : ℕ
  nbytes : ℕ
  nbytes_pos : 0 < nbytes
  inWindow : start + nbytes ≤ lockfileMax

/-- The owner of a lock: one of the clients, or somebody else. -/
inductive Owner where
  | client (i : ℕ)
  | other (k : ℕ)
deriving DecidableEq

/-- The lock that `wpdk_lockfile` asks for: locks are moved out of the way of the data. -/
def windowLock (i : ℕ) (exclusive : Bool) (start nbytes : ℕ) : FileLock Owner :=
  ⟨.client i, exclusive, lockfileMax + start, nbytes⟩

/-- `wpdk_lockfile(F_WRLCK, fildes, LOCKFILE_GUARD, 1, false)`. -/
def guardLock (i : ℕ) : FileLock Owner := windowLock i true lockfileGuard 1

/-! ## Clients -/

/-- `fcntl` with `F_GETLK` or `F_SETLK` for a write (exclusive) or read lock, and `lockf` with
`F_TEST` or `F_TLOCK`. -/
inductive Call where
  | getlk (exclusive : Bool)
  | test
  | setlk (exclusive : Bool)
  | tlock
deriving DecidableEq

/-- The mode in which the call locks its range. -/
def Call.exclusive : Call → Bool
  | .getlk exclusive => exclusive
  | .test => true
  | .setlk exclusive => exclusive
  | .tlock => true

/-- Whether the call unlocks the range again. -/
def Call.probe : Call → Bool
  | .getlk _ => true
  | .test => true
  | .setlk _ => false
  | .tlock => false

/-- A call and the range it is made on. -/
structure Client where
  call : Call
  range : LockRange

/-- The lock that a client tries to take on its range. -/
def Client.rangeLock (c : Client) (i : ℕ) : FileLock Owner :=
  windowLock i c.call.exclusive c.range.start c.range.nbytes

/-- The next call of a client to the lock manager; `taken` is the outcome of `LockFileEx` on the
range.  A call that is done has granted its request or reported its range as unlocked if it has
taken the range. -/
inductive Pc where
  | guard
  | range
  | unguard (taken : Bool)
  | release
  | done (taken : Bool)
deriving DecidableEq

/-- The locks on the file, and where the clients are. -/
structure LockState where
  locks : List (FileLock Owner)
  pcs : ℕ → Pc

/-- Client `i` goes on, with the locks as they are then. -/
def LockState.goto (s : LockState) (i : ℕ) (locks : List (FileLock Owner)) (pc : Pc) :
    LockState :=
  ⟨locks, Function.update s.pcs i pc⟩

variable (clients : ℕ → Client)

/-- One call of client `i` to the lock manager.  The guard lock is waited for; the result of an
unlock is not looked at. -/
def step (s : LockState) (i : ℕ) : Option LockState :=
  match s.pcs i with
  | .guard => (lockFile s.locks (guardLock i)).map fun locks => s.goto i locks .range
  | .range =>
    match lockFile s.locks ((clients i).rangeLock i) with
    | none => some (s.goto i s.locks (.unguard false))
    | some locks => some (s.goto i locks (.unguard true))
  | .unguard taken =>
    some (s.goto i
      ((unlockFile s.locks (.client i) (guardLock i).first (guardLock i).len).getD s.locks)
      (if taken && (clients i).call.probe then .release else .done taken))
  | .release =>
    some (s.goto i
      ((unlockFile s.locks (.client i) ((clients i).rangeLock i).first
        ((clients i).rangeLock i).len).getD s.locks)
      (.done true))
  | .done _ => none

/-- The locks of others. -/
def foreignLocks (foreign : List (FileLock ℕ)) : List (FileLock Owner) :=
  foreign.map fun l => ⟨.other l.owner, l.exclusive, l.first, l.len⟩

/-- No client has begun. -/
def start (foreign : List (FileLock ℕ)) : LockState := ⟨foreignLocks foreign, fun _ => .guard⟩

/-! ## What a client holds -/

/-- The locks of a client, as a function of where it is. -/
def ownLocks (i : ℕ) (c : Client) : Pc → List (FileLock Owner)
  | .guard => []
  | .range => [guardLock i]
  | .unguard taken => if taken then [c.rangeLock i, guardLock i] else [guardLock i]
  | .release => [c.rangeLock i]
  | .done taken => if taken && !c.call.probe then [c.rangeLock i] else []

/-- Between the guard lock and the guard unlock. -/
def Pc.holdsGuard : Pc → Bool
  | .range => true
  | .unguard _ => true
  | .guard => false
  | .release => false
  | .done _ => false

/-- From taking the range on, to the end for a request. -/
def Pc.holdsRange (c : Client) : Pc → Bool
  | .guard => false
  | .range => false
  | .unguard taken => taken
  | .release => true
  | .done taken => taken && !c.call.probe

theorem mem_ownLocks_iff {i : ℕ} {c : Client} {pc : Pc} {l : FileLock Owner} :
    l ∈ ownLocks i c pc ↔
      (pc.holdsGuard = true ∧ l = guardLock i) ∨
        (pc.holdsRange c = true ∧ l = c.rangeLock i) := by
  cases pc with
  | guard => simp [ownLocks, Pc.holdsGuard, Pc.holdsRange]
  | range => simp [ownLocks, Pc.holdsGuard, Pc.holdsRange]
  | unguard taken => cases taken <;> simp [ownLocks, Pc.holdsGuard, Pc.holdsRange, or_comm]
  | release => simp [ownLocks, Pc.holdsGuard, Pc.holdsRange]
  | done taken =>
    cases taken <;> cases hprobe : c.call.probe <;>
      simp [ownLocks, Pc.holdsGuard, Pc.holdsRange, hprobe]

theorem owner_of_mem_ownLocks {i : ℕ} {c : Client} {pc : Pc} {l : FileLock Owner}
    (h : l ∈ ownLocks i c pc) : l.owner = .client i := by
  rcases mem_ownLocks_iff.mp h with ⟨-, rfl⟩ | ⟨-, rfl⟩ <;> rfl

/-- How often a lock is to be held. -/
def expected (foreign : List (FileLock ℕ)) (pcs : ℕ → Pc) (l : FileLock Owner) : ℕ :=
  match l.owner with
  | .client i => (ownLocks i (clients i) (pcs i)).count l
  | .other _ => (foreignLocks foreign).count l

/-- **The manager holds the locks of others and what the clients hold, and nothing else.** -/
def Accounts (foreign : List (FileLock ℕ)) (s : LockState) : Prop :=
  ∀ l, s.locks.count l = expected clients foreign s.pcs l

variable {clients} {foreign : List (FileLock ℕ)}

theorem accounts_start : Accounts clients foreign (start foreign) := by
  intro l
  unfold expected start
  cases howner : l.owner with
  | client i =>
    refine List.count_eq_zero.mpr fun hl => ?_
    obtain ⟨l', -, rfl⟩ := List.mem_map.mp hl
    cases howner
  | other k => rfl

/-- Who holds what: the locks of others are nobody's in particular. -/
def owned (clients : ℕ → Client) (foreign : List (FileLock ℕ)) (pcs : ℕ → Pc) :
    Owner → List (FileLock Owner)
  | .client i => ownLocks i (clients i) (pcs i)
  | .other _ => foreignLocks foreign

theorem accounts_iff_heldBy {s : LockState} :
    Accounts clients foreign s ↔ HeldBy (owned clients foreign s.pcs) s.locks := by
  refine forall_congr' fun l => ?_
  unfold expected owned
  cases l.owner with
  | client i => exact Iff.rfl
  | other k => exact Iff.rfl

theorem owned_goto (s : LockState) (i : ℕ) (locks : List (FileLock Owner)) (pc : Pc) :
    owned clients foreign (s.goto i locks pc).pcs =
      Function.update (owned clients foreign s.pcs) (.client i) (ownLocks i (clients i) pc) := by
  funext o
  cases o with
  | other k => rfl
  | client j =>
    by_cases hji : j = i
    · subst hji
      simp [owned, LockState.goto]
    · simp [owned, LockState.goto, hji]

/-- A lock is held by a client at the place where the client holds it. -/
theorem Accounts.mem_iff {s : LockState} (h : Accounts clients foreign s) {l : FileLock Owner} :
    l ∈ s.locks ↔ l ∈ foreignLocks foreign ∨ ∃ i, l ∈ ownLocks i (clients i) (s.pcs i) := by
  have hforeign : l ∈ foreignLocks foreign → ∃ k, l.owner = .other k := by
    intro hl
    obtain ⟨l', -, rfl⟩ := List.mem_map.mp hl
    exact ⟨_, rfl⟩
  rw [(accounts_iff_heldBy.mp h).mem_iff]
  cases howner : l.owner with
  | client i =>
    constructor
    · exact fun hl => Or.inr ⟨i, hl⟩
    · rintro (hl | ⟨j, hl⟩)
      · obtain ⟨k, hk⟩ := hforeign hl
        rw [howner] at hk
        cases hk
      · have hj := owner_of_mem_ownLocks hl
        rw [howner] at hj
        cases hj
        exact hl
  | other k =>
    constructor
    · exact Or.inl
    · rintro (hl | ⟨j, hl⟩)
      · exact hl
      · have hj := owner_of_mem_ownLocks hl
        rw [howner] at hj
        cases hj

theorem Accounts.count_own {s : LockState} (h : Accounts clients foreign s) {i : ℕ}
    {l : FileLock Owner} (hl : l.owner = .client i) :
    s.locks.count l = (ownLocks i (clients i) (s.pcs i)).count l := by
  rw [h l, expected, hl]

/-- Taking a lock. -/
theorem Accounts.lock {s : LockState} (h : Accounts clients foreign s) {i : ℕ} {pc : Pc}
    {a : FileLock Owner} (ha : a.owner = .client i)
    (hpc : ownLocks i (clients i) pc = a :: ownLocks i (clients i) (s.pcs i)) :
    Accounts clients foreign (s.goto i (a :: s.locks) pc) := by
  rw [accounts_iff_heldBy, owned_goto, hpc]
  exact (accounts_iff_heldBy.mp h).lock ha

/-- Giving a lock back. -/
theorem Accounts.unlock {s : LockState} (h : Accounts clients foreign s) {i : ℕ} {pc : Pc}
    {a : FileLock Owner} (ha : a.owner = .client i)
    (hpc : ownLocks i (clients i) pc = (ownLocks i (clients i) (s.pcs i)).erase a) :
    Accounts clients foreign (s.goto i (s.locks.erase a) pc) := by
  rw [accounts_iff_heldBy, owned_goto, hpc]
  exact (accounts_iff_heldBy.mp h).unlock ha

/-- Moving on without touching the locks. -/
theorem Accounts.same {s : LockState} (h : Accounts clients foreign s) {i : ℕ} {pc : Pc}
    (hpc : ownLocks i (clients i) pc = ownLocks i (clients i) (s.pcs i)) :
    Accounts clients foreign (s.goto i s.locks pc) := by
  have hsame : Function.update (owned clients foreign s.pcs) (.client i)
      (ownLocks i (clients i) (s.pcs i)) = owned clients foreign s.pcs :=
    Function.update_eq_self (.client i) (owned clients foreign s.pcs)
  rw [accounts_iff_heldBy, owned_goto, hpc, hsame]
  exact accounts_iff_heldBy.mp h

/-! ## The guard -/

/-- The guard byte lies behind the lock window. -/
theorem not_overlaps_guardLock (i j : ℕ) (c : Client) :
    ¬ (guardLock j).Overlaps (c.rangeLock i) := by
  rintro ⟨hlt, -⟩
  have hwin := c.range.inWindow
  change lockfileMax + lockfileGuard < lockfileMax + c.range.start + c.range.nbytes at hlt
  have hguard : lockfileMax < lockfileGuard := by decide
  omega

theorem rangeLock_ne_guardLock (i j : ℕ) (c : Client) : c.rangeLock i ≠ guardLock j := by
  intro heq
  have hfirst : lockfileMax + c.range.start = lockfileMax + lockfileGuard :=
    congrArg FileLock.first heq
  have hwin := c.range.inWindow
  have hguard : lockfileMax < lockfileGuard := by decide
  omega

theorem guardLock_blocks (i j : ℕ) : (guardLock j).Blocks (guardLock i) := by
  refine ⟨⟨?_, ?_⟩, Or.inl rfl⟩ <;>
  · show lockfileMax + lockfileGuard < lockfileMax + lockfileGuard + 1
    omega

/-- **At most one client holds the guard.** -/
def GuardExclusive (s : LockState) : Prop :=
  ∀ i j, (s.pcs i).holdsGuard = true → (s.pcs j).holdsGuard = true → i = j

/-- Every step of a client but the first keeps the guard, or gives it back. -/
theorem GuardExclusive.goto {s : LockState} (h : GuardExclusive s) {i : ℕ}
    {locks : List (FileLock Owner)} {pc : Pc}
    (hpc : pc.holdsGuard = true → (s.pcs i).holdsGuard = true) :
    GuardExclusive (s.goto i locks pc) := by
  have hheld : ∀ j, ((s.goto i locks pc).pcs j).holdsGuard = true →
      (s.pcs j).holdsGuard = true := by
    intro j hj
    by_cases hji : j = i
    · subst hji
      exact hpc (by simpa [LockState.goto] using hj)
    · simpa [LockState.goto, hji] using hj
  exact fun j k hj hk => h j k (hheld j hj) (hheld k hk)

/-- The first one takes it when nobody has it. -/
theorem GuardExclusive.enter {s : LockState} (hacc : Accounts clients foreign s) {i : ℕ}
    {locks : List (FileLock Owner)} {pc : Pc} (hfree : ¬ Blocked s.locks (guardLock i)) :
    GuardExclusive (s.goto i locks pc) := by
  have hnone : ∀ j, (s.pcs j).holdsGuard = false := by
    intro j
    cases hj : (s.pcs j).holdsGuard with
    | false => rfl
    | true =>
      have hmem : guardLock j ∈ s.locks :=
        hacc.mem_iff.mpr (Or.inr ⟨j, mem_ownLocks_iff.mpr (Or.inl ⟨hj, rfl⟩)⟩)
      exact absurd ⟨_, hmem, guardLock_blocks i j⟩ hfree
  have honly : ∀ j, ((s.goto i locks pc).pcs j).holdsGuard = true → j = i := by
    intro j hj
    by_contra hji
    have hj' : (s.pcs j).holdsGuard = true := by simpa [LockState.goto, hji] using hj
    rw [hnone j] at hj'
    cases hj'
  exact fun j k hj hk => (honly j hj).trans (honly k hk).symm

/-! ## Locks that somebody asked for -/

variable (clients foreign) in
/-- The lock of a request that has been granted, or of somebody else. -/
def Real (s : LockState) (l : FileLock Owner) : Prop :=
  l ∈ foreignLocks foreign ∨
    ∃ j, (clients j).call.probe = false ∧ (s.pcs j).holdsRange (clients j) = true ∧
      l = (clients j).rangeLock j

/-- The range was found locked. -/
def Pc.refused : Pc → Bool
  | .unguard taken => !taken
  | .done taken => !taken
  | .guard => false
  | .range => false
  | .release => false

variable (clients foreign) in
/-- A lock that somebody asked for stands in the way of client `i`. -/
def RealBlocks (s : LockState) (i : ℕ) : Prop :=
  ∃ l, Real clients foreign s l ∧ l.Blocks ((clients i).rangeLock i)

variable (clients foreign) in
/-- **Probes are invisible**: a request is refused, and a probe reports a lock, only if a lock that
somebody asked for is in the way. -/
def Invisible (s : LockState) : Prop :=
  ∀ i, (s.pcs i).refused = true → RealBlocks clients foreign s i

variable (clients foreign) in
/-- The condition on a step: a client that tries its range does not meet a probe that has given
back the guard but not yet the range, except where it would be refused anyway. -/
def WindowClear (s : LockState) (i : ℕ) : Prop :=
  s.pcs i = .range →
    ∀ j, s.pcs j = .release → ((clients j).rangeLock j).Blocks ((clients i).rangeLock i) →
      RealBlocks clients foreign s i

/-- A granted request stays granted. -/
theorem Real.goto {s : LockState} {l : FileLock Owner} (h : Real clients foreign s l) {i : ℕ}
    {locks : List (FileLock Owner)} {pc : Pc}
    (hpc : (clients i).call.probe = false → (s.pcs i).holdsRange (clients i) = true →
      pc.holdsRange (clients i) = true) :
    Real clients foreign (s.goto i locks pc) l := by
  rcases h with hl | ⟨j, hprobe, hj, rfl⟩
  · exact Or.inl hl
  · refine Or.inr ⟨j, hprobe, ?_, rfl⟩
    by_cases hji : j = i
    · subst hji
      simpa [LockState.goto] using hpc hprobe hj
    · simpa [LockState.goto, hji] using hj

/-- A client that moves on leaves the refusals of the others justified. -/
theorem Invisible.goto {s : LockState} (h : Invisible clients foreign s) {i : ℕ}
    {locks : List (FileLock Owner)} {pc : Pc}
    (hpc : (clients i).call.probe = false → (s.pcs i).holdsRange (clients i) = true →
      pc.holdsRange (clients i) = true)
    (hrefused : pc.refused = true → RealBlocks clients foreign s i) :
    Invisible clients foreign (s.goto i locks pc) := by
  intro j hj
  have hblocks : RealBlocks clients foreign s j := by
    by_cases hji : j = i
    · subst hji
      exact hrefused (by simpa [LockState.goto] using hj)
    · exact h j (by simpa [LockState.goto, hji] using hj)
  obtain ⟨l, hl, hbl⟩ := hblocks
  exact ⟨l, hl.goto hpc, hbl⟩

/-- **What a client that tries its range can meet**: a lock that somebody asked for, or the one of
a probe that has given back the guard.  It cannot meet a probe under the guard, since it has the
guard itself. -/
theorem blocked_range_iff {s : LockState} (hacc : Accounts clients foreign s)
    (hguard : GuardExclusive s) {i : ℕ} (hi : s.pcs i = .range) :
    Blocked s.locks ((clients i).rangeLock i) ↔
      RealBlocks clients foreign s i ∨
        ∃ j, s.pcs j = .release ∧
          ((clients j).rangeLock j).Blocks ((clients i).rangeLock i) := by
  constructor
  · rintro ⟨l, hl, hblocks⟩
    rcases hacc.mem_iff.mp hl with hforeign | ⟨j, hj⟩
    · exact Or.inl ⟨l, Or.inl hforeign, hblocks⟩
    rcases mem_ownLocks_iff.mp hj with ⟨-, rfl⟩ | ⟨hrange, rfl⟩
    · exact absurd hblocks.1 (not_overlaps_guardLock i j (clients i))
    cases hprobe : (clients j).call.probe with
    | false => exact Or.inl ⟨_, Or.inr ⟨j, hprobe, hrange, rfl⟩, hblocks⟩
    | true =>
      refine Or.inr ⟨j, ?_, hblocks⟩
      cases hpc : s.pcs j with
      | release => rfl
      | guard => rw [hpc] at hrange; cases hrange
      | range => rw [hpc] at hrange; cases hrange
      | done taken =>
        rw [hpc] at hrange
        simp [Pc.holdsRange, hprobe] at hrange
      | unguard taken =>
        have hji : j = i := hguard j i (by rw [hpc]; rfl) (by rw [hi]; rfl)
        rw [hji, hi] at hpc
        cases hpc
  · rintro (⟨l, hreal, hblocks⟩ | ⟨j, hj, hblocks⟩)
    · refine ⟨l, hacc.mem_iff.mpr ?_, hblocks⟩
      rcases hreal with hl | ⟨j, -, hj, rfl⟩
      · exact Or.inl hl
      · exact Or.inr ⟨j, mem_ownLocks_iff.mpr (Or.inr ⟨hj, rfl⟩)⟩
    · refine ⟨_, hacc.mem_iff.mpr (Or.inr ⟨j, mem_ownLocks_iff.mpr (Or.inr ⟨?_, rfl⟩)⟩), hblocks⟩
      rw [hj]
      rfl

/-! ## Steps -/

variable (clients foreign) in
/-- What a run keeps as long as the window is clear. -/
structure Inv (s : LockState) : Prop where
  accounts : Accounts clients foreign s
  guard : GuardExclusive s
  invisible : Invisible clients foreign s
  /-- Only a probe unlocks its range. -/
  releases : ∀ i, s.pcs i = .release → (clients i).call.probe = true

theorem releases_goto {s : LockState} (h : ∀ i, s.pcs i = .release → (clients i).call.probe = true)
    {i : ℕ} {locks : List (FileLock Owner)} {pc : Pc}
    (hpc : pc = .release → (clients i).call.probe = true) :
    ∀ j, (s.goto i locks pc).pcs j = .release → (clients j).call.probe = true := by
  intro j hj
  by_cases hji : j = i
  · subst hji
    exact hpc (by simpa [LockState.goto] using hj)
  · exact h j (by simpa [LockState.goto, hji] using hj)

/-- An unlock of a lock that the client holds removes it. -/
theorem Accounts.unlockFile_eq {s : LockState} (h : Accounts clients foreign s) {i : ℕ}
    {a : FileLock Owner} (ha : a ∈ ownLocks i (clients i) (s.pcs i)) :
    (unlockFile s.locks (.client i) a.first a.len).getD s.locks = s.locks.erase a := by
  have howner := owner_of_mem_ownLocks ha
  have hmem : a ∈ s.locks := h.mem_iff.mpr (Or.inr ⟨i, ha⟩)
  have honly : a.exclusive = false → ⟨a.owner, true, a.first, a.len⟩ ∉ s.locks := by
    intro hshared hother
    have hown : ⟨a.owner, true, a.first, a.len⟩ ∈ ownLocks i (clients i) (s.pcs i) := by
      rw [← List.count_pos_iff] at hother ⊢
      rwa [← h.count_own (l := ⟨a.owner, true, a.first, a.len⟩) howner]
    -- the guard lock is exclusive, and the range is locked in one mode
    rcases mem_ownLocks_iff.mp ha with ⟨-, rfl⟩ | ⟨-, rfl⟩
    · cases hshared
    · rcases mem_ownLocks_iff.mp hown with ⟨-, heq⟩ | ⟨-, heq⟩
      · have hfirst := congrArg FileLock.first heq
        have hwin := (clients i).range.inWindow
        have hg : lockfileMax < lockfileGuard := by decide
        change lockfileMax + (clients i).range.start = lockfileMax + lockfileGuard at hfirst
        omega
      · have hex := congrArg FileLock.exclusive heq
        rw [hshared] at hex
        cases hex
  have hunlock := unlockFile_of_mem hmem honly
  rw [howner] at hunlock
  rw [hunlock]
  rfl

theorem Inv.step {s s' : LockState} {i : ℕ} (h : Inv clients foreign s)
    (hclear : WindowClear clients foreign s i) (hstep : step clients s i = some s') :
    Inv clients foreign s' := by
  cases hpc : s.pcs i with
  | guard =>
    simp only [Lockfile.step, hpc] at hstep
    by_cases hblocked : Blocked s.locks (guardLock i)
    · rw [lockFile_of_blocked hblocked] at hstep
      cases hstep
    · rw [lockFile_of_not_blocked hblocked] at hstep
      obtain rfl := Option.some.inj hstep
      refine ⟨h.accounts.lock rfl (by rw [hpc]; rfl), .enter h.accounts hblocked,
        h.invisible.goto (fun _ hr => ?_) (fun hr => by cases hr),
        releases_goto h.releases (fun hr => by cases hr)⟩
      rw [hpc] at hr
      cases hr
  | range =>
    simp only [Lockfile.step, hpc] at hstep
    by_cases hblocked : Blocked s.locks ((clients i).rangeLock i)
    · rw [lockFile_of_blocked hblocked] at hstep
      obtain rfl := Option.some.inj hstep
      refine ⟨h.accounts.same (by rw [hpc]; rfl), h.guard.goto (fun _ => by rw [hpc]; rfl),
        h.invisible.goto (fun _ hr => ?_) (fun _ => ?_),
        releases_goto h.releases (fun hr => by cases hr)⟩
      · rw [hpc] at hr
        cases hr
      · rcases (blocked_range_iff h.accounts h.guard hpc).mp hblocked with hreal | ⟨j, hj, hbl⟩
        · exact hreal
        · exact hclear hpc j hj hbl
    · rw [lockFile_of_not_blocked hblocked] at hstep
      obtain rfl := Option.some.inj hstep
      exact ⟨h.accounts.lock rfl (by rw [hpc]; rfl), h.guard.goto (fun _ => by rw [hpc]; rfl),
        h.invisible.goto (fun _ _ => rfl) (fun hr => by cases hr),
        releases_goto h.releases (fun hr => by cases hr)⟩
  | unguard taken =>
    simp only [Lockfile.step, hpc] at hstep
    have hown : guardLock i ∈ ownLocks i (clients i) (s.pcs i) :=
      mem_ownLocks_iff.mpr (Or.inl ⟨by rw [hpc]; rfl, rfl⟩)
    rw [h.accounts.unlockFile_eq hown] at hstep
    obtain rfl := Option.some.inj hstep
    have hne := rangeLock_ne_guardLock i i (clients i)
    refine ⟨h.accounts.unlock rfl ?_, h.guard.goto (fun hg => ?_),
      h.invisible.goto (fun hprobe hr => ?_) (fun hr => ?_),
      releases_goto h.releases (fun hr => ?_)⟩
    · rw [hpc]
      cases taken <;> cases hprobe : (clients i).call.probe <;> simp [ownLocks, hprobe, hne]
    · rw [hpc]
      rfl
    · rw [hpc] at hr
      simpa [hprobe, Pc.holdsRange] using hr
    · refine h.invisible i ?_
      rw [hpc]
      cases taken with
      | false => rfl
      | true => cases hprobe : (clients i).call.probe <;> simp [hprobe, Pc.refused] at hr
    · by_contra hprobe
      simp [hprobe] at hr
  | release =>
    simp only [Lockfile.step, hpc] at hstep
    have hown : (clients i).rangeLock i ∈ ownLocks i (clients i) (s.pcs i) :=
      mem_ownLocks_iff.mpr (Or.inr ⟨by rw [hpc]; rfl, rfl⟩)
    rw [h.accounts.unlockFile_eq hown] at hstep
    obtain rfl := Option.some.inj hstep
    have hprobe := h.releases i hpc
    refine ⟨h.accounts.unlock rfl ?_, h.guard.goto (fun hg => by cases hg),
      h.invisible.goto (fun hnot => ?_) (fun hr => by cases hr),
      releases_goto h.releases (fun hr => by cases hr)⟩
    · rw [hpc]
      simp [ownLocks, hprobe]
    · rw [hprobe] at hnot
      cases hnot
  | done taken =>
    simp only [Lockfile.step, hpc] at hstep
    cases hstep

theorem inv_start : Inv clients foreign (start foreign) where
  accounts := accounts_start
  guard := fun _ _ h => by cases h
  invisible := fun _ h => by cases h
  releases := fun _ h => by cases h

/-- A client that tries its range in the window of a probe is refused for nothing. -/
theorem not_invisible_of_window {s : LockState} {i : ℕ} (h : Inv clients foreign s)
    (hwindow : ¬ WindowClear clients foreign s i) :
    ∃ s', step clients s i = some s' ∧ ¬ Invisible clients foreign s' := by
  simp only [WindowClear, Classical.not_imp, not_forall] at hwindow
  obtain ⟨hpc, j, hj, hblocks, hnot⟩ := hwindow
  have hblocked := (blocked_range_iff h.accounts h.guard hpc).mpr (Or.inr ⟨j, hj, hblocks⟩)
  refine ⟨s.goto i s.locks (.unguard false), ?_, fun hinv => hnot ?_⟩
  · simp only [Lockfile.step, hpc, lockFile_of_blocked hblocked]
  · obtain ⟨l, hreal, hbl⟩ := hinv i (by simp [LockState.goto, Pc.refused])
    refine ⟨l, ?_, hbl⟩
    rcases hreal with hl | ⟨k, hprobe, hk, rfl⟩
    · exact Or.inl hl
    · refine Or.inr ⟨k, hprobe, ?_, rfl⟩
      by_cases hki : k = i
      · subst hki
        simp [LockState.goto, Pc.holdsRange] at hk
      · simpa [LockState.goto, hki] using hk

/-- **When probes are invisible.**  For any clients, any locks held by others and any interleaving
of the calls to the lock manager: no request is refused and no probe reports a lock unless a lock
that somebody asked for is in the way, at every point of the run, exactly when no client tries a
range while a probe in its way stands between the guard unlock inside `wpdk_lockfile` and its own
later unlock --- except where the client would be refused anyway. -/
theorem invisible_iff_window (clients : ℕ → Client) (foreign : List (FileLock ℕ))
    (schedule : List ℕ) :
    Throughout (step clients) (Invisible clients foreign) (start foreign) schedule ↔
      EachStep (step clients) (WindowClear clients foreign) (start foreign) schedule :=
  throughout_iff_eachStep (I := Inv clients foreign) (fun _ h => h.invisible)
    (fun _ _ _ h hclear hstep => h.step hclear hstep)
    (fun _ _ h hwindow => not_invisible_of_window h hwindow) inv_start

/-- The first byte of the window. -/
def firstByte : LockRange := ⟨0, 1, by decide, by decide⟩

/-- Client 0 runs `fcntl(F_GETLK)` for a write lock on the first byte, every other client
`fcntl(F_SETLK)` for one. -/
def probeAndRequests (i : ℕ) : Client := ⟨if i = 0 then .getlk true else .setlk true, firstByte⟩

/-- **A probe is seen.**  Nobody holds a lock.  The probe takes the guard and the byte and gives
the guard back; then the request takes the guard and is refused the byte. -/
theorem probe_refuses_request :
    ∃ s, exec (step probeAndRequests) (start []) [0, 0, 0, 1, 1] = some s ∧
      (s.pcs 1).refused = true ∧ ¬ Invisible probeAndRequests [] s := by
  refine ⟨_, rfl, rfl, fun h => ?_⟩
  obtain ⟨l, hl | ⟨j, hprobe, hj, -⟩, -⟩ := h 1 rfl
  · cases hl
  · -- the only client that holds the byte is the probe
    match j with
    | 0 => cases hprobe
    | 1 => cases hj
    | _ + 2 => cases hj

end Lockfile
end Wpdk
