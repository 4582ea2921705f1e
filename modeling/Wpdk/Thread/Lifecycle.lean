import Wpdk.Thread.Table

/-!
# The life of a thread record

A record is at every moment in one phase of its life, and the phase says who has it: the call or
the thread that will take the next step with it, and nobody else.  The phases are not in the
code.  What the code has are the fields of the record, the slots of the table and the places where
calls and threads are, and `Consistent` says how these agree with the phases.

The two ways on are the point of the design.  A record that is detached before its thread has
picked up the start routine is left to the thread (`orphan`); one that is detached later belongs to
the call that took it out of the table (`removed`).  So it has one owner whatever the order.

* `Phase`, `Phase.ByCall`, `Phase.ByThread`: the phases, and the moves between them.
* `Phase.Kept`: what a move leaves of the things that a call that does not make it relies on.
* `Consistent`: the invariant.
* `Consistent.ofCall`, `Consistent.ofThread`, `Consistent.goto`: how a step of a call or of a
  thread keeps it, given what it does to the one record it works on.
-/

namespace Wpdk
namespace Thread

/-- The phases of a record.

It is not allocated yet (`absent`); call `c` has listed it (`creating`), has written the start
routine to it (`filled`), and has a suspended thread `t` for it (`launched`); or `c` has given up
on it, or found no slot, and is about to free it (`discarding`).  With the id of thread `t` in it,
it is in the table and `t` has not come to it (`joinable`), or `t` has (`started`).  Out of the
table, it waits for `t` to come to it (`orphan`), or `t` is about to free it (`releasing`), or call
`c`, which has taken it out, is (`removed`); and in the end it is `freed`. -/
inductive Phase where
  | absent
  | creating (c : ℕ)
  | filled (c : ℕ)
  | launched (c t : ℕ)
  | discarding (c : ℕ)
  | joinable (t : ℕ)
  | started (t : ℕ)
  | orphan (t : ℕ)
  | releasing (t : ℕ)
  | removed (c : ℕ)
  | freed
deriving DecidableEq

namespace Phase

/-- The record is in the table. -/
def listed : Phase → Bool
  | .creating _ | .filled _ | .launched _ _ | .joinable _ | .started _ => true
  | .absent | .discarding _ | .orphan _ | .releasing _ | .removed _ | .freed => false

/-- The call that has the record in its hands. -/
def owner : Phase → Option ℕ
  | .creating c | .filled c | .launched c _ | .discarding c | .removed c => some c
  | .absent | .joinable _ | .started _ | .orphan _ | .releasing _ | .freed => none

/-- The thread whose record it is. -/
def thread : Phase → Option ℕ
  | .launched _ t | .joinable t | .started t | .orphan t | .releasing t => some t
  | .absent | .creating _ | .filled _ | .discarding _ | .removed _ | .freed => none

/-- The creation of the thread is past `wpdk_set_thread_info`. -/
def registered : Phase → Bool
  | .joinable _ | .started _ | .orphan _ | .releasing _ | .removed _ | .freed => true
  | .absent | .creating _ | .filled _ | .launched _ _ | .discarding _ => false

/-- The record is out of the table, and left to thread `t` if it is not freed. -/
def Out (t : ℕ) (p : Phase) : Prop := p = .orphan t ∨ p = .releasing t ∨ p = .freed

/-- The record was taken out of the table after its thread had come to it. -/
def Past (p : Phase) : Prop := p = .freed ∨ ∃ c, p = .removed c

/-- The moves that call `c` makes. -/
inductive ByCall (c : ℕ) : Phase → Phase → Prop where
  | allocate : ByCall c .absent (.creating c)
  | overflow : ByCall c .absent (.discarding c)
  | fill : ByCall c (.creating c) (.filled c)
  | launch (t : ℕ) : ByCall c (.filled c) (.launched c t)
  | fail : ByCall c (.filled c) (.discarding c)
  | register (t : ℕ) : ByCall c (.launched c t) (.joinable t)
  | registerDetached (t : ℕ) : ByCall c (.launched c t) (.orphan t)
  | discard : ByCall c (.discarding c) .freed
  | leave (t : ℕ) : ByCall c (.joinable t) (.orphan t)
  | remove (t : ℕ) : ByCall c (.started t) (.removed c)
  | release : ByCall c (.removed c) .freed

/-- The moves that thread `t` makes. -/
inductive ByThread (t : ℕ) : Phase → Phase → Prop where
  | start : ByThread t (.joinable t) (.started t)
  | startOrphan : ByThread t (.orphan t) (.releasing t)
  | release : ByThread t (.releasing t) .freed

/-- What call `d` relies on in the phase of a record, when the phase was `p` and is `p'`. -/
structure Kept (d : ℕ) (p p' : Phase) : Prop where
  owner : p.owner = some d → p' = p
  out : ∀ t, p.Out t → p'.Out t
  freed : p = .freed → p' = .freed
  registered : p.registered = true → p'.registered = true

variable {c d t : ℕ} {p p' : Phase}

theorem Kept.refl (d : ℕ) (p : Phase) : Kept d p p :=
  ⟨fun _ => rfl, fun _ h => h, fun h => h, fun h => h⟩

/-- Moving one record, of which enough is left, leaves enough of every record. -/
theorem Kept.update {φ : ℕ → Phase} {r : ℕ} (h : Kept d (φ r) p) (r' : ℕ) :
    Kept d (φ r') (Function.update φ r p r') := by
  by_cases hrr : r' = r
  · subst hrr
    rw [Function.update_self]
    exact h
  · rw [Function.update_of_ne hrr]
    exact Kept.refl d (φ r')

theorem ByCall.kept (h : ByCall c p p') (hdc : d ≠ c) : Kept d p p' := by
  cases h <;> constructor <;> simp [Phase.owner, Phase.Out, Phase.registered, Ne.symm hdc]

theorem ByThread.kept (h : ByThread t p p') (d : ℕ) : Kept d p p' := by
  cases h <;> constructor <;> simp [Phase.owner, Phase.Out, Phase.registered]

end Phase

/-! ## What holds of the parties -/

/-- The thread whose record the call has taken out of the table. -/
def Ret.taken : Ret → Option ℕ
  | .joined t _ true _ _ => some t
  | .detached t true _ => some t
  | .joined _ _ false _ _ | .detached _ false _ | .createFailed _ _ | .created _ => none

/-- The same for a call that may still be under way. -/
def Pc.taken : Pc → Option ℕ
  | .closing _ _ _ ret => ret.taken
  | .returned ret => ret.taken
  | .idle | .allocated _ _ | .filled _ _ | .begun _ _ _ | .registered _ _ _ | .discard _ _
  | .waiting _ _ _ _ | .waited _ _ _ _ => none

namespace State

/-- Thread `t` was created to run on the record `r`. -/
def WorksOn (s : State) (t r : ℕ) : Prop := ∃ th, s.threads t = some th ∧ th.record = r

/-- Thread `t` has ended, having returned `v` or given it to `pthread_exit`. -/
def EndedWith (s : State) (t v : ℕ) : Prop := ∃ th, s.threads t = some th ∧ th.pc = .terminated v

/-- What a join returns: if it succeeds, it has taken the record out, and delivers the value of the
thread. -/
def RetOk (s : State) : Ret → Prop
  | .joined t value found code out =>
    code = 0 → found = true ∧ ∃ v, s.EndedWith t v ∧ (value = true → out = some v)
  | .createFailed _ _ | .created _ | .detached _ _ _ => True

/-- What is in a record. -/
def RecordOk (s : State) (r : ℕ) (contents : Record) : Phase → Prop
  | .creating _ => contents.id = 0
  | .filled _ => contents.id = 0 ∧ contents.start ≠ 0
  | .launched _ t => contents.id = 0 ∧ contents.start ≠ 0 ∧ s.WorksOn t r
  | .joinable t =>
    contents.id = t ∧ contents.start ≠ 0 ∧ s.handles contents.h = some t ∧ s.WorksOn t r
  | .started t =>
    contents.id = t ∧ contents.start = 0 ∧ s.handles contents.h = some t ∧ s.WorksOn t r
  | .orphan _ => contents.index = -1
  | .absent | .discarding _ | .releasing _ | .removed _ | .freed => True

/-- What is known where call `c` is. -/
def CallOk (φ : ℕ → Phase) (s : State) (c : ℕ) : Pc → Prop
  | .idle => True
  | .allocated r args => φ r = .creating c ∧ args.start ≠ 0
  | .filled r _ => φ r = .filled c
  | .begun r args (.ok id h) =>
    φ r = .launched c id ∧ h ≠ 0 ∧ s.handles h = some id ∧
      ∃ th, s.threads id = some th ∧ th.record = r ∧ th.detached = args.detached
  | .begun r _ (.failed _ _) => φ r = .filled c
  | .registered _ id h => s.handles h = some id ∧ ∃ r, s.WorksOn id r ∧ (φ r).registered = true
  | .discard r _ => φ r = .discarding c
  | .waiting t h _ _ => t ≠ 0 ∧ s.handles h = some t
  | .waited t _ _ rc => t ≠ 0 ∧ (rc ≠ .failed → ∃ v, s.EndedWith t v)
  | .closing r _ start ret =>
    s.RetOk ret ∧ ∃ t, ret.taken = some t ∧ s.WorksOn t r ∧
      if start = 0 then φ r = .removed c else (φ r).Out t
  | .returned ret =>
    s.RetOk ret ∧ (∀ t, ret.taken = some t → ∃ r, s.WorksOn t r ∧ (φ r).Out t) ∧
      ∀ r e, ret = .createFailed (some r) e → φ r = .freed

end State

/-- What is known where a thread is, of the record it runs on: `p` is its phase.  A thread that
was created detached has its record for itself. -/
def ThreadOk (p : Phase) (contents : Record) (t : ℕ) (th : OsThread) : Prop :=
  t ≠ 0 ∧ (th.detached = true → p ≠ .joinable t ∧ p ≠ .started t ∧ ∀ c, p ≠ .removed c) ∧
    match th.pc with
    | .suspended => (∃ c, p = .launched c t) ∨ p = .joinable t ∨ p = .orphan t
    | .resumed => p = .joinable t ∨ p = .orphan t
    | .starting info =>
      (info.index = -1 ∧ p = .releasing t) ∨
        (info.index ≠ -1 ∧ (p = .started t ∧ contents.index = info.index ∨ p.Past))
    | .running info => p = .started t ∧ contents.index = info.index ∨ p.Past
    | .left v => p = .started t ∧ contents.result = v ∨ p.Past
    | .terminated v => p = .started t ∧ contents.result = v ∨ p.Past

/-- The records that are allocated and freed. -/
structure Memory (φ : ℕ → Phase) (s : State) : Prop where
  absent_iff : ∀ r, φ r = .absent ↔ s.allocated ≤ r
  mem_freed_iff : ∀ r, r ∈ s.freed ↔ φ r = .freed
  freed_nodup : s.freed.Nodup
  no_fault : s.faults = []

/-- The records that are in the table. -/
structure Slots (φ : ℕ → Phase) (s : State) : Prop where
  hwm_le : s.hwmthreads ≤ maxthreads
  slot : ∀ i r, s.slot i = some r →
    (φ r).listed = true ∧ (s.records r).index = i ∧ i < s.hwmthreads
  listed : ∀ r, (φ r).listed = true → ∃ i, s.slot i = some r

/-- **The state agrees with the phases.** -/
structure Consistent (φ : ℕ → Phase) (s : State) : Prop where
  memory : Memory φ s
  slots : Slots φ s
  record : ∀ r, s.RecordOk r (s.records r) (φ r)
  call : ∀ c, s.CallOk φ c (s.calls c)
  thread : ∀ t th, s.threads t = some th → ThreadOk (φ th.record) (s.records th.record) t th
  /-- A record is taken out of the table by one call. -/
  taken_unique : ∀ c d t, (s.calls c).taken = some t → (s.calls d).taken = some t → c = d

theorem consistent_start : Consistent (fun _ => .absent) State.start where
  memory := ⟨by simp [State.start], by simp [State.start], List.nodup_nil, rfl⟩
  slots := ⟨Nat.zero_le _, by simp [State.start, State.slot], by simp [Phase.listed]⟩
  record := by simp [State.RecordOk]
  call := by simp [State.start, State.CallOk]
  thread := by simp [State.start]
  taken_unique := by simp [State.start, Pc.taken]

/-! ## What a step leaves -/

/-- Threads and handles stay: no step changes the record of a thread, or what it ended with. -/
structure State.Extends (s s' : State) : Prop where
  threads : ∀ t th, s.threads t = some th → ∃ th', s'.threads t = some th' ∧
    th'.record = th.record ∧ th'.detached = th.detached ∧
      ∀ v, th.pc = .terminated v → th'.pc = .terminated v
  handles : ∀ h t, s.handles h = some t → s'.handles h = some t

namespace State

variable {s s' : State} {φ φ' : ℕ → Phase} {t r v : ℕ}

theorem extends_of_eq (hthreads : s'.threads = s.threads) (hhandles : s'.handles = s.handles) :
    Extends s s' := by
  refine ⟨fun t th ht => ⟨th, ?_, rfl, rfl, fun _ hv => hv⟩, fun h t ht => ?_⟩
  · rw [hthreads]
    exact ht
  · rw [hhandles]
    exact ht

/-- A thread that has not ended moves on. -/
theorem extends_of_update {detached : Bool} {pc pc' : ThreadPc}
    (ht : s.threads t = some ⟨r, detached, pc⟩) (hpc : ∀ v, pc ≠ .terminated v)
    (hthreads : s'.threads = Function.update s.threads t (some ⟨r, detached, pc'⟩))
    (hhandles : s'.handles = s.handles) : Extends s s' := by
  refine ⟨fun t' th ht' => ?_, fun h t ht => by rw [hhandles]; exact ht⟩
  rw [hthreads]
  by_cases htt : t' = t
  · subst htt
    obtain rfl := Option.some.inj (ht.symm.trans ht')
    exact ⟨_, Function.update_self _ _ _, rfl, rfl, fun v hv => absurd hv (hpc v)⟩
  · exact ⟨th, by rw [Function.update_of_ne htt]; exact ht', rfl, rfl, fun _ hv => hv⟩

theorem WorksOn.mono (h : s.WorksOn t r) (hext : Extends s s') : s'.WorksOn t r := by
  obtain ⟨th, hth, hr⟩ := h
  obtain ⟨th', hth', hr', -, -⟩ := hext.threads t th hth
  exact ⟨th', hth', hr'.trans hr⟩

theorem WorksOn.unique {r' : ℕ} (h : s.WorksOn t r) (h' : s.WorksOn t r') : r = r' := by
  obtain ⟨th, hth, rfl⟩ := h
  obtain ⟨th', hth', rfl⟩ := h'
  rw [Option.some.inj (hth.symm.trans hth')]

theorem EndedWith.mono (h : s.EndedWith t v) (hext : Extends s s') : s'.EndedWith t v := by
  obtain ⟨th, hth, hpc⟩ := h
  obtain ⟨th', hth', -, -, hpc'⟩ := hext.threads t th hth
  exact ⟨th', hth', hpc' v hpc⟩

theorem RetOk.mono {ret : Ret} (h : s.RetOk ret) (hext : Extends s s') : s'.RetOk ret := by
  cases ret with
  | joined t value found code out =>
    intro hcode
    obtain ⟨hfound, v, hv, hout⟩ := h hcode
    exact ⟨hfound, v, hv.mono hext, hout⟩
  | createFailed r e => trivial
  | created id => trivial
  | detached t found code => trivial

theorem RecordOk.mono {contents : Record} {p : Phase} (h : s.RecordOk r contents p)
    (hext : Extends s s') : s'.RecordOk r contents p := by
  cases p with
  | launched c t => exact ⟨h.1, h.2.1, h.2.2.mono hext⟩
  | joinable t => exact ⟨h.1, h.2.1, hext.handles _ _ h.2.2.1, h.2.2.2.mono hext⟩
  | started t => exact ⟨h.1, h.2.1, hext.handles _ _ h.2.2.1, h.2.2.2.mono hext⟩
  | _ => exact h

/-- What call `d` knows, it still knows after a step of somebody else. -/
theorem CallOk.mono {d : ℕ} {pc : Pc} (h : s.CallOk φ d pc) (hext : Extends s s')
    (hkept : ∀ r, (φ r).Kept d (φ' r)) : s'.CallOk φ' d pc := by
  -- a record in the hands of `d` is in the same phase
  have hown : ∀ {r p}, φ r = p → p.owner = some d → φ' r = p := by
    rintro r _ rfl hp
    exact (hkept r).owner hp
  cases pc with
  | idle => trivial
  | allocated r args => exact ⟨hown h.1 rfl, h.2⟩
  | filled r args => exact hown h rfl
  | begun r args b =>
    cases b with
    | ok id hd =>
      obtain ⟨hr, hne, hhandle, th, hth, hrecord, hdetached⟩ := h
      obtain ⟨th', hth', hrecord', hdetached', -⟩ := hext.threads id th hth
      exact ⟨hown hr rfl, hne, hext.handles _ _ hhandle, th', hth', hrecord'.trans hrecord,
        hdetached'.trans hdetached⟩
    | failed id e => exact hown h rfl
  | registered args id hd =>
    obtain ⟨hhandle, r, hr, hreg⟩ := h
    exact ⟨hext.handles _ _ hhandle, r, hr.mono hext, (hkept r).registered hreg⟩
  | discard r e => exact hown h rfl
  | waiting t hd index value => exact ⟨h.1, hext.handles _ _ h.2⟩
  | waited t index value rc =>
    refine ⟨h.1, fun hrc => ?_⟩
    obtain ⟨v, hv⟩ := h.2 hrc
    exact ⟨v, hv.mono hext⟩
  | closing r hd start ret =>
    obtain ⟨hret, t, ht, hr, hphase⟩ := h
    refine ⟨hret.mono hext, t, ht, hr.mono hext, ?_⟩
    split
    · rename_i hstart
      rw [if_pos hstart] at hphase
      exact hown hphase rfl
    · rename_i hstart
      rw [if_neg hstart] at hphase
      exact (hkept r).out t hphase
  | returned ret =>
    refine ⟨h.1.mono hext, fun t ht => ?_, fun r e hr => (hkept r).freed (h.2.2 r e hr)⟩
    obtain ⟨r, hr, hout⟩ := h.2.1 t ht
    exact ⟨r, hr.mono hext, (hkept r).out t hout⟩

/-- A record that a call has taken out is not in the table. -/
theorem CallOk.not_listed {c : ℕ} {pc : Pc} (h : s.CallOk φ c pc) (ht : pc.taken = some t) :
    ∃ r, s.WorksOn t r ∧ (φ r).listed = false := by
  have hout : ∀ {r}, (φ r).Out t → (φ r).listed = false := by
    rintro r (hr | hr | hr) <;> rw [hr] <;> rfl
  cases pc with
  | closing r hd start ret =>
    obtain ⟨-, t', ht', hr, hphase⟩ := h
    obtain rfl := Option.some.inj (ht'.symm.trans ht)
    refine ⟨r, hr, ?_⟩
    split at hphase
    · rw [hphase]
      rfl
    · exact hout hphase
  | returned ret =>
    obtain ⟨r, hr, hphase⟩ := h.2.1 t ht
    exact ⟨r, hr, hout hphase⟩
  | _ => cases ht

end State

namespace ThreadOk

variable {p p' : Phase} {contents contents' : Record} {c t t' : ℕ} {th : OsThread}

/-- The record of a thread is in a phase of that thread, or was taken out of the table. -/
theorem thread_or_past (h : ThreadOk p contents t th) : p.thread = some t ∨ p.Past := by
  obtain ⟨-, -, h⟩ := h
  cases hpc : th.pc with
  | suspended =>
    rw [hpc] at h
    rcases h with ⟨c, rfl⟩ | rfl | rfl <;> exact Or.inl rfl
  | resumed =>
    rw [hpc] at h
    rcases h with rfl | rfl <;> exact Or.inl rfl
  | starting info =>
    rw [hpc] at h
    rcases h with ⟨-, rfl⟩ | ⟨-, ⟨rfl, -⟩ | hpast⟩
    · exact Or.inl rfl
    · exact Or.inl rfl
    · exact Or.inr hpast
  | running info | left v | terminated v =>
    rw [hpc] at h
    rcases h with ⟨rfl, -⟩ | hpast
    · exact Or.inl rfl
    · exact Or.inr hpast

/-- A thread that has a record in its phase is the thread of that record. -/
theorem eq_of_thread (h : ThreadOk p contents t' th) (hp : p.thread = some t) : t' = t := by
  rcases h.thread_or_past with hthread | rfl | ⟨c, rfl⟩
  · exact Option.some.inj (hthread.symm.trans hp)
  · cases hp
  · cases hp

/-- A thread that has not come to its record yet. -/
theorem pc_of_waiting (h : ThreadOk p contents t th)
    (hp : (∃ c, p = .launched c t) ∨ p = .joinable t) :
    th.pc = .suspended ∨ th.pc = .resumed ∧ p = .joinable t := by
  obtain ⟨-, -, h⟩ := h
  have hnot : ¬ (p = .started t ∨ p = .releasing t ∨ p.Past) := by
    rcases hp with ⟨c, rfl⟩ | rfl <;> simp [Phase.Past]
  cases hpc : th.pc with
  | suspended => exact Or.inl rfl
  | resumed =>
    rw [hpc] at h
    rcases h with hjoinable | rfl
    · exact Or.inr ⟨rfl, hjoinable⟩
    · rcases hp with ⟨c, hp⟩ | hp <;> cases hp
  | starting info =>
    rw [hpc] at h
    rcases h with ⟨-, hp⟩ | ⟨-, ⟨hp, -⟩ | hp⟩
    · exact absurd (Or.inr (Or.inl hp)) hnot
    · exact absurd (Or.inl hp) hnot
    · exact absurd (Or.inr (Or.inr hp)) hnot
  | running info | left v | terminated v =>
    rw [hpc] at h
    rcases h with ⟨hp, -⟩ | hp
    · exact absurd (Or.inl hp) hnot
    · exact absurd (Or.inr (Or.inr hp)) hnot

/-- The record is left to a thread that has not come to it. -/
theorem of_orphan (hne : t ≠ 0) (hpc : th.pc = .suspended ∨ th.pc = .resumed) :
    ThreadOk (.orphan t) contents t th := by
  refine ⟨hne, fun _ => ⟨nofun, nofun, nofun⟩, ?_⟩
  rcases hpc with hpc | hpc
  · rw [hpc]
    exact Or.inr (Or.inr rfl)
  · rw [hpc]
    exact Or.inr rfl

/-- A thread that has come to its record does without it. -/
theorem of_past (h : ThreadOk p contents t th) (hp : p = .started t ∨ p.Past) (hp' : p'.Past)
    (hremoved : th.detached = true → ∀ c, p' ≠ .removed c) : ThreadOk p' contents' t th := by
  obtain ⟨hne, -, h⟩ := h
  have hout : ¬ ((∃ c, p = .launched c t) ∨ p = .joinable t ∨ p = .orphan t ∨
      p = .releasing t) := by
    rcases hp with rfl | rfl | ⟨c, rfl⟩ <;> simp
  refine ⟨hne, fun hdetached => ⟨?_, ?_, hremoved hdetached⟩, ?_⟩
  · rcases hp' with rfl | ⟨c, rfl⟩ <;> nofun
  · rcases hp' with rfl | ⟨c, rfl⟩ <;> nofun
  · cases hpc : th.pc with
    | suspended =>
      rw [hpc] at h
      exact absurd (h.imp_right (Or.imp_right Or.inl)) hout
    | resumed =>
      rw [hpc] at h
      exact absurd (Or.inr (h.imp_right Or.inl)) hout
    | starting info =>
      rw [hpc] at h
      rcases h with ⟨-, hreleasing⟩ | ⟨hindex, -⟩
      · exact absurd (Or.inr (Or.inr (Or.inr hreleasing))) hout
      · exact Or.inr ⟨hindex, Or.inr hp'⟩
    | running info | left v | terminated v => exact Or.inr hp'

/-- A thread goes along with the moves of a call on its record. -/
theorem byCall (h : ThreadOk p contents t th) (hmove : p.ByCall c p')
    (hdetached : ∀ t', p' = .joinable t' → th.detached = false) : ThreadOk p' contents' t th := by
  cases hmove with
  | allocate | overflow | fill | launch | fail | discard =>
    -- a record without a thread
    rcases h.thread_or_past with hthread | hpast | ⟨d, hpast⟩
    · cases hthread
    · cases hpast
    · cases hpast
  | register t' =>
    obtain rfl := h.eq_of_thread rfl
    refine ⟨h.1, fun htrue => ?_, ?_⟩
    · rw [hdetached t rfl] at htrue
      cases htrue
    · rcases h.pc_of_waiting (Or.inl ⟨c, rfl⟩) with hpc | ⟨-, hp⟩
      · rw [hpc]
        exact Or.inr (Or.inl rfl)
      · cases hp
  | registerDetached t' =>
    obtain rfl := h.eq_of_thread rfl
    exact of_orphan h.1 ((h.pc_of_waiting (Or.inl ⟨c, rfl⟩)).imp_right And.left)
  | leave t' =>
    obtain rfl := h.eq_of_thread rfl
    exact of_orphan h.1 ((h.pc_of_waiting (Or.inr rfl)).imp_right And.left)
  | remove t' =>
    obtain rfl := h.eq_of_thread rfl
    refine h.of_past (Or.inl rfl) (Or.inr ⟨c, rfl⟩) fun htrue => ?_
    exact absurd rfl (h.2.1 htrue).2.1
  | release => exact h.of_past (Or.inr (Or.inr ⟨c, rfl⟩)) (Or.inl rfl) fun _ => nofun

end ThreadOk

section Frames

variable {φ : ℕ → Phase} {s s' : State} {r : ℕ} {p : Phase}

/-- A record changes its phase, and is neither allocated nor freed by that. -/
theorem Memory.move (h : Memory φ s) (hr : φ r ≠ .absent ∧ φ r ≠ .freed)
    (hp : p ≠ .absent ∧ p ≠ .freed) (hallocated : s'.allocated = s.allocated)
    (hfreed : s'.freed = s.freed) (hfaults : s'.faults = s.faults) :
    Memory (Function.update φ r p) s' := by
  refine ⟨fun r' => ?_, fun r' => ?_, by rw [hfreed]; exact h.freed_nodup,
    by rw [hfaults]; exact h.no_fault⟩
  · rw [hallocated, ← h.absent_iff]
    by_cases hrr : r' = r
    · subst hrr
      simp [hr.1, hp.1]
    · rw [Function.update_of_ne hrr]
  · rw [hfreed, h.mem_freed_iff]
    by_cases hrr : r' = r
    · subst hrr
      simp [hr.2, hp.2]
    · rw [Function.update_of_ne hrr]

/-- A record is freed that was not freed before. -/
theorem Memory.free (h : Memory φ s) (hr : φ r ≠ .absent ∧ φ r ≠ .freed)
    (hallocated : s'.allocated = s.allocated) (hfreed : s'.freed = s.freed ++ [r])
    (hfaults : s'.faults = s.faults) : Memory (Function.update φ r .freed) s' := by
  have hnot : r ∉ s.freed := fun hmem => hr.2 ((h.mem_freed_iff r).mp hmem)
  refine ⟨fun r' => ?_, fun r' => ?_, ?_, by rw [hfaults]; exact h.no_fault⟩
  · rw [hallocated, ← h.absent_iff]
    by_cases hrr : r' = r
    · subst hrr
      simp [hr.1]
    · rw [Function.update_of_ne hrr]
  · rw [hfreed, List.mem_append, h.mem_freed_iff, List.mem_singleton]
    by_cases hrr : r' = r
    · subst hrr
      simp
    · rw [Function.update_of_ne hrr]
      simp [hrr]
  · rw [hfreed, List.nodup_append]
    refine ⟨h.freed_nodup, by simp, ?_⟩
    rintro a ha b hb rfl
    rw [List.mem_singleton] at hb
    exact hnot (hb ▸ ha)

/-- The next record is allocated. -/
theorem Memory.allocate (h : Memory φ s) (hp : p ≠ .absent ∧ p ≠ .freed)
    (hallocated : s'.allocated = s.allocated + 1) (hfreed : s'.freed = s.freed)
    (hfaults : s'.faults = s.faults) : Memory (Function.update φ s.allocated p) s' := by
  refine ⟨fun r' => ?_, fun r' => ?_, by rw [hfreed]; exact h.freed_nodup,
    by rw [hfaults]; exact h.no_fault⟩
  · rw [hallocated]
    by_cases hrr : r' = s.allocated
    · subst hrr
      simp [hp.1]
    · rw [Function.update_of_ne hrr, h.absent_iff]
      omega
  · rw [hfreed, h.mem_freed_iff]
    by_cases hrr : r' = s.allocated
    · subst hrr
      simp [hp.2, (h.absent_iff s.allocated).mpr (Nat.le_refl _)]
    · rw [Function.update_of_ne hrr]

/-- A record in the table stays there, one that is not in it stays out of it. -/
theorem Slots.keep (h : Slots φ s) (hp : p.listed = (φ r).listed) (hslot : s'.slot = s.slot)
    (hhwm : s'.hwmthreads = s.hwmthreads)
    (hindex : ∀ r', (φ r').listed = true → (s'.records r').index = (s.records r').index) :
    Slots (Function.update φ r p) s' := by
  have hlisted : ∀ r', (Function.update φ r p r').listed = (φ r').listed := by
    intro r'
    by_cases hrr : r' = r
    · subst hrr
      rw [Function.update_self, hp]
    · rw [Function.update_of_ne hrr]
  refine ⟨by rw [hhwm]; exact h.hwm_le, fun i r' hi => ?_, fun r' hr' => ?_⟩
  · rw [hslot] at hi
    obtain ⟨hl, hidx, hlt⟩ := h.slot i r' hi
    exact ⟨(hlisted r').trans hl, (hindex r' hl).trans hidx, by rw [hhwm]; exact hlt⟩
  · rw [hlisted] at hr'
    rw [hslot]
    exact h.listed r' hr'

/-- A slot has one record, and a record one slot. -/
theorem Slots.slot_inj (h : Slots φ s) {i j : ℕ} (hi : s.slot i = some r) (hj : s.slot j = some r) :
    i = j := by
  have := (h.slot i r hi).2.1.symm.trans (h.slot j r hj).2.1
  exact Int.ofNat.inj this

/-- A record is taken out of the table. -/
theorem Slots.clear (h : Slots φ s) {i : ℕ} (hi : s.slot i = some r) (hp : p.listed = false)
    (hslot : s'.slot = Function.update s.slot i none) (hhwm : s'.hwmthreads = s.hwmthreads)
    (hrecords : ∀ r', r' ≠ r → s'.records r' = s.records r') :
    Slots (Function.update φ r p) s' := by
  refine ⟨by rw [hhwm]; exact h.hwm_le, fun j r' hj => ?_, fun r' hr' => ?_⟩
  · rw [hslot] at hj
    have hji : j ≠ i := by
      rintro rfl
      simp at hj
    rw [Function.update_of_ne hji] at hj
    have hrr : r' ≠ r := by
      rintro rfl
      exact hji (h.slot_inj hj hi)
    rw [Function.update_of_ne hrr, hrecords r' hrr, hhwm]
    exact h.slot j r' hj
  · have hrr : r' ≠ r := by
      rintro rfl
      rw [Function.update_self, hp] at hr'
      cases hr'
    rw [Function.update_of_ne hrr] at hr'
    obtain ⟨j, hj⟩ := h.listed r' hr'
    refine ⟨j, ?_⟩
    have hji : j ≠ i := by
      rintro rfl
      exact hrr (Option.some.inj (hj.symm.trans hi))
    rw [hslot, Function.update_of_ne hji]
    exact hj

/-- A new record is put in an empty slot, and the high-water mark is moved if need be. -/
theorem Slots.place (h : Slots φ s) {i : ℕ} (hi : s.slot i = none) (hlt : i < maxthreads)
    (hr : (φ r).listed = false) (hp : p.listed = true)
    (hslot : s'.slot = Function.update s.slot i (some r))
    (hhwm : s'.hwmthreads = if i ≥ s.hwmthreads then i + 1 else s.hwmthreads)
    (hindex : (s'.records r).index = i)
    (hrecords : ∀ r', r' ≠ r → s'.records r' = s.records r') :
    Slots (Function.update φ r p) s' := by
  have hle := h.hwm_le
  have hmark : s.hwmthreads ≤ s'.hwmthreads ∧ i < s'.hwmthreads ∧ s'.hwmthreads ≤ maxthreads := by
    rw [hhwm]
    split <;> omega
  refine ⟨hmark.2.2, fun j r' hj => ?_, fun r' hr' => ?_⟩
  · rw [hslot] at hj
    by_cases hji : j = i
    · subst hji
      rw [Function.update_self] at hj
      obtain rfl := Option.some.inj hj
      rw [Function.update_self]
      exact ⟨hp, hindex, hmark.2.1⟩
    · rw [Function.update_of_ne hji] at hj
      obtain ⟨hl, hidx, hj'⟩ := h.slot j r' hj
      have hrr : r' ≠ r := by
        rintro rfl
        rw [hr] at hl
        cases hl
      rw [Function.update_of_ne hrr, hrecords r' hrr]
      exact ⟨hl, hidx, by omega⟩
  · rw [hslot]
    by_cases hrr : r' = r
    · subst hrr
      exact ⟨i, Function.update_self _ _ _⟩
    · rw [Function.update_of_ne hrr] at hr'
      obtain ⟨j, hj⟩ := h.listed r' hr'
      have hji : j ≠ i := by
        rintro rfl
        rw [hi] at hj
        cases hj
      exact ⟨j, by rw [Function.update_of_ne hji]; exact hj⟩

end Frames

/-! ## Steps -/

namespace Consistent

variable {φ : ℕ → Phase} {s s' : State}

/-- The invariant does not depend on which handles are closed, nor on whether there is a table
as long as nothing is in it. -/
theorem of_eq (h : Consistent φ s) (hslot : s'.slot = s.slot) (hhwm : s'.hwmthreads = s.hwmthreads)
    (hrecords : s'.records = s.records) (hallocated : s'.allocated = s.allocated)
    (hfreed : s'.freed = s.freed) (hfaults : s'.faults = s.faults)
    (hthreads : s'.threads = s.threads) (hhandles : s'.handles = s.handles)
    (hcalls : s'.calls = s.calls) : Consistent φ s' := by
  have hext := State.extends_of_eq hthreads hhandles
  refine ⟨⟨?_, ?_, ?_, ?_⟩, ⟨?_, ?_, ?_⟩, fun r => ?_, fun c => ?_, ?_, ?_⟩
  · rw [hallocated]
    exact h.memory.absent_iff
  · rw [hfreed]
    exact h.memory.mem_freed_iff
  · rw [hfreed]
    exact h.memory.freed_nodup
  · rw [hfaults]
    exact h.memory.no_fault
  · rw [hhwm]
    exact h.slots.hwm_le
  · rw [hslot, hrecords, hhwm]
    exact h.slots.slot
  · rw [hslot]
    exact h.slots.listed
  · rw [hrecords]
    exact (h.record r).mono hext
  · rw [hcalls]
    exact (h.call c).mono hext fun r => Phase.Kept.refl c (φ r)
  · rw [hthreads, hrecords]
    exact h.thread
  · rw [hcalls]
    exact h.taken_unique

/-- What is known of every call is known of `c` at `pc`, and of the others from before. -/
theorem taken_update (h : Consistent φ s) {c : ℕ} {pc : Pc}
    (hcalls : s'.calls = Function.update s.calls c pc)
    (htaken : ∀ t d, pc.taken = some t → d ≠ c → (s.calls d).taken ≠ some t) :
    ∀ d e t, (s'.calls d).taken = some t → (s'.calls e).taken = some t → d = e := by
  intro d e t hd he
  rw [hcalls] at hd he
  by_cases hdc : d = c
  · by_cases hec : e = c
    · rw [hdc, hec]
    · rw [hdc, Function.update_self] at hd
      rw [Function.update_of_ne hec] at he
      exact absurd he (htaken t e hd hec)
  · rw [Function.update_of_ne hdc] at hd
    by_cases hec : e = c
    · rw [hec, Function.update_self] at he
      exact absurd hd (htaken t d he hdc)
    · rw [Function.update_of_ne hec] at he
      exact h.taken_unique d e t hd he

/-- A call goes on, and changes nothing that anybody else can see. -/
theorem goto (h : Consistent φ s) {c : ℕ} {pc : Pc} (hcall : s.CallOk φ c pc)
    (htaken : pc.taken = none ∨ pc.taken = (s.calls c).taken) : Consistent φ (s.goto c pc) where
  memory := ⟨h.memory.absent_iff, h.memory.mem_freed_iff, h.memory.freed_nodup, h.memory.no_fault⟩
  slots := ⟨h.slots.hwm_le, h.slots.slot, h.slots.listed⟩
  record := h.record
  call d := by
    show s.CallOk φ d (Function.update s.calls c pc d)
    by_cases hdc : d = c
    · subst hdc
      rw [Function.update_self]
      exact hcall
    · rw [Function.update_of_ne hdc]
      exact h.call d
  thread := h.thread
  taken_unique := by
    refine h.taken_update rfl fun t d ht hdc hd => ?_
    rcases htaken with hnone | hsame
    · rw [hnone] at ht
      cases ht
    · rw [hsame] at ht
      exact hdc (h.taken_unique d c t hd ht)

/-- The records after one of them was moved. -/
theorem recordOk_update (h : Consistent φ s) {r : ℕ} {p : Phase} (hext : s.Extends s')
    (hrecords : ∀ r', r' ≠ r → s'.records r' = s.records r')
    (hrecord : s'.RecordOk r (s'.records r) p) (r' : ℕ) :
    s'.RecordOk r' (s'.records r') (Function.update φ r p r') := by
  by_cases hrr : r' = r
  · subst hrr
    rw [Function.update_self]
    exact hrecord
  · rw [Function.update_of_ne hrr, hrecords r' hrr]
    exact (h.record r').mono hext

/-- **A step of a call** that moves one record. -/
theorem ofCall (h : Consistent φ s) {c r : ℕ} {p : Phase} {pc : Pc} (hmove : (φ r).ByCall c p)
    (hcalls : s'.calls = Function.update s.calls c pc) (hext : s.Extends s')
    (hrecords : ∀ r', r' ≠ r → s'.records r' = s.records r')
    (hmemory : Memory (Function.update φ r p) s') (hslots : Slots (Function.update φ r p) s')
    (hrecord : s'.RecordOk r (s'.records r) p)
    (hcall : s'.CallOk (Function.update φ r p) c pc)
    (hthreads : ∀ t th, s'.threads t = some th →
      s.threads t = some th ∨ (th.record = r ∧ ThreadOk p (s'.records r) t th))
    (hdetached : ∀ t th t', s.threads t = some th → th.record = r → p = .joinable t' →
      th.detached = false)
    (htaken : ∀ t d, pc.taken = some t → d ≠ c → (s.calls d).taken ≠ some t) :
    Consistent (Function.update φ r p) s' := by
  refine ⟨hmemory, hslots, h.recordOk_update hext hrecords hrecord, fun d => ?_,
    fun t th ht => ?_, h.taken_update hcalls htaken⟩
  · rw [hcalls]
    by_cases hdc : d = c
    · subst hdc
      rw [Function.update_self]
      exact hcall
    · rw [Function.update_of_ne hdc]
      exact (h.call d).mono hext (hmove.kept hdc).update
  · rcases hthreads t th ht with hold | ⟨rfl, hnew⟩
    · by_cases hrr : th.record = r
      · subst hrr
        rw [Function.update_self]
        exact (h.thread t th hold).byCall hmove (hdetached t th · hold rfl)
      · rw [Function.update_of_ne hrr, hrecords _ hrr]
        exact h.thread t th hold
    · rw [Function.update_self]
      exact hnew

/-- **A step of a thread**, which moves its own record or leaves it in its phase. -/
theorem ofThread (h : Consistent φ s) {t r : ℕ} {detached : Bool} {pc pc' : ThreadPc} {p : Phase}
    (ht : s.threads t = some ⟨r, detached, pc⟩) (hpc : ∀ v, pc ≠ .terminated v)
    (hthreads : s'.threads = Function.update s.threads t (some ⟨r, detached, pc'⟩))
    (hhandles : s'.handles = s.handles) (hcalls : s'.calls = s.calls)
    (hrecords : ∀ r', r' ≠ r → s'.records r' = s.records r')
    (hmove : p = φ r ∨ (φ r).ByThread t p)
    (hown : (φ r).thread = some t ∨ (p = φ r ∧ s'.records r = s.records r))
    (hmemory : Memory (Function.update φ r p) s') (hslots : Slots (Function.update φ r p) s')
    (hrecord : s'.RecordOk r (s'.records r) p)
    (hthread : ThreadOk p (s'.records r) t ⟨r, detached, pc'⟩) :
    Consistent (Function.update φ r p) s' := by
  have hext := State.extends_of_update ht hpc hthreads hhandles
  refine ⟨hmemory, hslots, h.recordOk_update hext hrecords hrecord, fun d => ?_,
    fun t' th ht' => ?_, ?_⟩
  · rw [hcalls]
    have hkept : (φ r).Kept d p := by
      rcases hmove with rfl | hmove
      · exact Phase.Kept.refl d _
      · exact hmove.kept d
    exact (h.call d).mono hext hkept.update
  · rw [hthreads] at ht'
    by_cases htt : t' = t
    · subst htt
      rw [Function.update_self] at ht'
      obtain rfl := Option.some.inj ht'
      rw [Function.update_self]
      exact hthread
    · rw [Function.update_of_ne htt] at ht'
      have hold := h.thread t' th ht'
      by_cases hrr : th.record = r
      · rw [hrr] at hold ⊢
        rw [Function.update_self]
        rcases hown with hown | ⟨rfl, hsame⟩
        · exact absurd (hold.eq_of_thread hown) htt
        · rw [hsame]
          exact hold
      · rw [Function.update_of_ne hrr, hrecords _ hrr]
        exact hold
  · rw [hcalls]
    exact h.taken_unique

end Consistent

end Thread
end Wpdk
