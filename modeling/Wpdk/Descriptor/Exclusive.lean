import Wpdk.Base.Run
import Wpdk.Descriptor.Epoll
import Wpdk.Descriptor.Socket

/-!
# Descriptors own what they name

The two descriptor tables together, with any number of threads creating and closing sockets and
epoll instances in any interleaving.

* `Descriptors.step`: a step on one of the tables.
* `Table.ClosesOnce`: of the closes of a descriptor, as long as its slot is not filled again, one
  takes the resource out and the others fail with `EBADF`.
* `descriptors_exclusive`: in every state of every run the tables are exclusive, and over every
  further stretch of the run every descriptor is closed once.
-/

namespace Wpdk
namespace Descriptor

open Run

/-- Both tables. -/
structure Descriptors where
  sockets : Table SocketInfo
  epolls : Table ℤ

/-- A step on one of the tables. -/
inductive DescriptorAction where
  | socket (a : SocketAction)
  | epoll (a : EpollAction)

namespace Descriptors

/-- Neither table has been used. -/
def start : Descriptors := ⟨socketStart, epollStart⟩

/-- One step. -/
def step (s : Descriptors) : DescriptorAction → Option Descriptors
  | .socket a => (socketStep s.sockets a).map fun sockets => { s with sockets := sockets }
  | .epoll a => (epollStep s.epolls a).map fun epolls => { s with epolls := epolls }

/-- Ownership in both tables. -/
def Inv (s : Descriptors) : Prop :=
  s.sockets.Inv maxsockets ∧ s.epolls.Inv maxepolls

/-- A step is a step on one table, and leaves the other alone. -/
theorem step_cases {s s' : Descriptors} {a : DescriptorAction} (h : s.Inv)
    (hstep : s.step a = some s') :
    (s.sockets.Micro maxsockets s'.sockets ∧ s'.epolls = s.epolls) ∨
      (s.epolls.Micro maxepolls s'.epolls ∧ s'.sockets = s.sockets) := by
  cases a with
  | socket a =>
    obtain ⟨sockets, hsockets, rfl⟩ := Option.map_eq_some_iff.mp hstep
    exact Or.inl ⟨micro_of_socketStep h.1 hsockets, rfl⟩
  | epoll a =>
    obtain ⟨epolls, hepolls, rfl⟩ := Option.map_eq_some_iff.mp hstep
    exact Or.inr ⟨micro_of_epollStep h.2 hepolls, rfl⟩

theorem Inv.step {s s' : Descriptors} {a : DescriptorAction} (h : s.Inv)
    (hstep : s.step a = some s') : s'.Inv := by
  rcases step_cases h hstep with ⟨hmicro, hsame⟩ | ⟨hmicro, hsame⟩
  · exact ⟨h.1.micro hmicro, by rw [hsame]; exact h.2⟩
  · exact ⟨by rw [hsame]; exact h.1, h.2.micro hmicro⟩

theorem inv_of_exec {actions : List DescriptorAction} {s : Descriptors}
    (h : exec step start actions = some s) : s.Inv :=
  exec_invariant (P := Inv) (fun _ _ _ h hstep => h.step hstep)
    ⟨inv_socketStart, inv_epollStart⟩ h

end Descriptors

/-- **A descriptor is closed once.**  From a state with a resource in slot `i`, in which no close
of the slot is under way, to a later one up to which the slot has not been filled again: either no
close of it has ended, or one has taken the resource out and all the others have failed with
`EBADF`. -/
def Table.ClosesOnce {δ : Type} (s s' : Table δ) : Prop :=
  ∀ i v, s.pool.slots i = some v → (∀ t w, s.pcs t ≠ .take i w) → s'.claims i = s.claims i →
    (s'.pool.slots i = some v ∧ s'.closes i = s.closes i) ∨
      (s'.pool.slots i = none ∧
        ∃ m, s'.closes i = s.closes i ++ none :: List.replicate m (some .ebadf))

namespace Table

variable {δ : Type} {s s' : Table δ}

theorem segment_start {i v : ℕ} (hi : s.pool.slots i = some v)
    (hquiet : ∀ t w, s.pcs t ≠ .take i w) : Segment i v (s.claims i) (s.closes i) s :=
  ⟨Nat.le_refl _, fun _ => Or.inl ⟨hi, rfl, fun t w hw => absurd hw (hquiet t w)⟩⟩

theorem closesOnce_of_segment
    (h : ∀ i v, s.pool.slots i = some v → (∀ t w, s.pcs t ≠ .take i w) →
      Segment i v (s.claims i) (s.closes i) s') : s.ClosesOnce s' := by
  intro i v hi hquiet hclaims
  rcases (h i v hi hquiet).2 hclaims with ⟨hv, hlog, -⟩ | hremoved
  · exact Or.inl ⟨hv, hlog⟩
  · exact Or.inr hremoved

end Table

namespace Descriptors

/-- A segment of a slot of either table lasts as long as the run. -/
theorem segments_of_exec {s s' : Descriptors} (h : s.Inv) {actions : List DescriptorAction}
    (hexec : exec step s actions = some s') {i v c : ℕ} {log : List (Option Errno)} :
    (s.sockets.Segment i v c log → s'.sockets.Segment i v c log) ∧
      (s.epolls.Segment i v c log → s'.epolls.Segment i v c log) := by
  constructor
  · intro hseg
    refine (exec_invariant (P := fun s => s.Inv ∧ s.sockets.Segment i v c log) ?_ ⟨h, hseg⟩
      hexec).2
    rintro r a r' ⟨hinv, hr⟩ hstep
    refine ⟨hinv.step hstep, ?_⟩
    rcases step_cases hinv hstep with ⟨hmicro, -⟩ | ⟨-, hsame⟩
    · exact hr.micro hinv.1 hmicro
    · rw [hsame]
      exact hr
  · intro hseg
    refine (exec_invariant (P := fun s => s.Inv ∧ s.epolls.Segment i v c log) ?_ ⟨h, hseg⟩
      hexec).2
    rintro r a r' ⟨hinv, hr⟩ hstep
    refine ⟨hinv.step hstep, ?_⟩
    rcases step_cases hinv hstep with ⟨-, hsame⟩ | ⟨hmicro, -⟩
    · rw [hsame]
      exact hr
    · exact hr.micro hinv.2 hmicro

end Descriptors

/-- **Exclusive ownership.**  In every state that is reached by any interleaving of the creation
and the closing of sockets and epoll instances, however the system answers: no two live descriptors
name one slot, a live descriptor maps to the handle or structure it was allocated for, and every
one of these is disposed of at most once, and once when its allocation has failed or its
descriptor has been closed.  Over every further stretch of the run, one close of a descriptor
removes it and the others fail with `EBADF`, as long as its slot is not filled again. -/
theorem descriptors_exclusive (actions : List DescriptorAction) {s : Descriptors}
    (h : exec Descriptors.step Descriptors.start actions = some s) :
    (s.sockets.Exclusive maxsockets ∧ s.epolls.Exclusive maxepolls) ∧
      ∀ (actions' : List DescriptorAction) {s' : Descriptors},
        exec Descriptors.step s actions' = some s' →
          s.sockets.ClosesOnce s'.sockets ∧ s.epolls.ClosesOnce s'.epolls := by
  have hinv := Descriptors.inv_of_exec h
  refine ⟨⟨hinv.1.exclusive, hinv.2.exclusive⟩, fun _ _ hexec => ⟨?_, ?_⟩⟩
  · exact Table.closesOnce_of_segment fun i v hi hquiet =>
      (Descriptors.segments_of_exec hinv hexec).1 (Table.segment_start hi hquiet)
  · exact Table.closesOnce_of_segment fun i v hi hquiet =>
      (Descriptors.segments_of_exec hinv hexec).2 (Table.segment_start hi hquiet)

/-- Thread 0 creates a socket with the handle 7. -/
def createOne : List DescriptorAction :=
  [.socket (.socket 0 ⟨2, 0⟩ true), .socket (.next 0 ⟨some 7, true⟩),
    .socket (.next 0 ⟨none, true⟩), .socket (.next 0 ⟨none, true⟩),
    .socket (.next 0 ⟨none, true⟩), .socket (.next 0 ⟨none, true⟩)]

/-- Threads 1 and 2 both close it; each reads the slot before either has taken the handle out. -/
def closeTwice : List DescriptorAction :=
  [.socket (.close 1 socketbase), .socket (.close 2 socketbase),
    .socket (.next 1 ⟨none, true⟩), .socket (.next 2 ⟨none, true⟩),
    .socket (.next 1 ⟨none, true⟩), .socket (.next 2 ⟨none, true⟩),
    .socket (.next 1 ⟨none, true⟩), .socket (.next 1 ⟨none, true⟩)]

/-- Of the two closes one removes the socket, which is closed once. -/
theorem descriptors_exclusive_closeTwice :
    ∃ s s', exec Descriptors.step Descriptors.start createOne = some s ∧
      exec Descriptors.step s closeTwice = some s' ∧
      s.sockets.Exclusive maxsockets ∧ s.sockets.ClosesOnce s'.sockets ∧
      s.sockets.pool.slots 0 = some 7 ∧ s'.sockets.closes 0 = [none, some .ebadf] ∧
      s'.sockets.ended = [0] ∧ s'.sockets.pool.disposals 0 = 1 :=
  ⟨_, _, rfl, rfl, (descriptors_exclusive createOne rfl).1.1,
    ((descriptors_exclusive createOne rfl).2 closeTwice rfl).1, rfl, rfl, rfl, rfl⟩

end Descriptor
end Wpdk
