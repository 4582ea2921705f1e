import Wpdk.Thread.Lookup

/-!
# Creating a thread

The steps of `pthread_create` keep the invariant.  The record is in the table from the first step
on, under the id zero, and in the hands of the call until `wpdk_set_thread_info` either gives it to
the thread, or takes it out of the table for the call to free.

One theorem for each step: `Consistent.pthreadCreate`, `Consistent.fill`, `Consistent.beginThread`,
`Consistent.setInfo_ok`, `Consistent.setInfo_failed`, `Consistent.finishCreate`,
`Consistent.discard`.
-/

namespace Wpdk
namespace Thread

namespace State

variable {s : State} {i r : ℕ}

/-- The slots of the table that `wpdk_allocate_thread` goes on with, an old or a new one. -/
theorem slot_of_or {table : ℕ → Option ℕ} {tableOk : Bool}
    (h : s.table.or (if tableOk then some fun _ => none else none) = some table) :
    s.slot = table := by
  funext i
  unfold slot
  cases htable : s.table with
  | none =>
    rw [htable, Option.none_or] at h
    split at h
    · obtain rfl := Option.some.inj h
      rfl
    · cases h
  | some old =>
    rw [htable, Option.some_or] at h
    obtain rfl := Option.some.inj h
    rfl

theorem slot_clear (hi : s.slot i = some r) : (s.clear i).slot = Function.update s.slot i none := by
  funext j
  unfold slot clear
  cases htable : s.table with
  | none =>
    unfold slot at hi
    simp [htable] at hi
  | some table =>
    by_cases hji : j = i
    · subst hji
      simp
    · simp [hji]

theorem index_update {records : ℕ → Record} {contents : Record}
    (hindex : contents.index = (records r).index) (r' : ℕ) :
    (Function.update records r contents r').index = (records r').index := by
  by_cases hrr : r' = r
  · subst hrr
    rw [Function.update_self, hindex]
  · rw [Function.update_of_ne hrr]

theorem clearAt_natCast (hi : i < maxthreads) : s.clearAt i = s.clear i := by
  unfold clearAt
  rw [if_pos ⟨Int.natCast_nonneg i, Int.ofNat_lt.mpr hi⟩, Int.toNat_natCast]

end State

namespace Consistent

variable {φ : ℕ → Phase} {s s' : State} {c r : ℕ} {args : CreateArgs}

/-- A creation that fails before it has a record. -/
theorem failEarly (h : Consistent φ s) (c : ℕ) (e : Errno) :
    Consistent φ (s.goto c (.returned (.createFailed none e))) :=
  h.goto ⟨trivial, by simp [Ret.taken], by simp⟩ (Or.inl rfl)

/-- The record after the last one is a new one. -/
theorem absent_allocated (h : Consistent φ s) : φ s.allocated = .absent :=
  (h.memory.absent_iff _).mpr (Nat.le_refl _)

theorem place (h : Consistent φ s) (hstart : args.start ≠ 0) {i : ℕ} (hi : s.slot i = none)
    (hlt : i < maxthreads) (hslot : s'.slot = Function.update s.slot i (some s.allocated))
    (hhwm : s'.hwmthreads = if i ≥ s.hwmthreads then i + 1 else s.hwmthreads)
    (hrecords : s'.records = Function.update s.records s.allocated { Record.zero with index := i })
    (hallocated : s'.allocated = s.allocated + 1) (hfreed : s'.freed = s.freed)
    (hfaults : s'.faults = s.faults) (hthreads : s'.threads = s.threads)
    (hhandles : s'.handles = s.handles)
    (hcalls : s'.calls = Function.update s.calls c (.allocated s.allocated args)) :
    Consistent (Function.update φ s.allocated (.creating c)) s' := by
  have hnew := h.absent_allocated
  have hother : ∀ r', r' ≠ s.allocated → s'.records r' = s.records r' := fun r' hr' => by
    rw [hrecords, Function.update_of_ne hr']
  refine h.ofCall (by rw [hnew]; exact .allocate) hcalls (State.extends_of_eq hthreads hhandles)
    hother (h.memory.allocate (by simp) hallocated hfreed hfaults) ?_ ?_ ?_ ?_ (by simp) ?_
  · refine h.slots.place hi hlt (by rw [hnew]; rfl) rfl hslot hhwm ?_ hother
    rw [hrecords, Function.update_self]
  · rw [hrecords, Function.update_self]
    rfl
  · exact ⟨Function.update_self _ _ _, hstart⟩
  · intro t th ht
    rw [hthreads] at ht
    exact Or.inl ht
  · simp [Pc.taken]

theorem overflow (h : Consistent φ s) (hslot : s'.slot = s.slot)
    (hhwm : s'.hwmthreads = s.hwmthreads)
    (hrecords : ∀ r', r' ≠ s.allocated → s'.records r' = s.records r')
    (hallocated : s'.allocated = s.allocated + 1) (hfreed : s'.freed = s.freed)
    (hfaults : s'.faults = s.faults) (hthreads : s'.threads = s.threads)
    (hhandles : s'.handles = s.handles)
    (hcalls : s'.calls = Function.update s.calls c (.discard s.allocated .emfile)) :
    Consistent (Function.update φ s.allocated (.discarding c)) s' := by
  have hnew := h.absent_allocated
  refine h.ofCall (by rw [hnew]; exact .overflow) hcalls (State.extends_of_eq hthreads hhandles)
    hrecords (h.memory.allocate (by simp) hallocated hfreed hfaults) ?_ trivial
    (Function.update_self _ _ _) (fun t th ht => Or.inl (by rw [← hthreads]; exact ht)) (by simp)
    (by simp [Pc.taken])
  refine h.slots.keep (by rw [hnew]; rfl) hslot hhwm fun r' hr' => ?_
  have hrr : r' ≠ s.allocated := by
    rintro rfl
    rw [hnew] at hr'
    cases hr'
  rw [hrecords r' hrr]

/-- **The first step.** -/
theorem pthreadCreate (h : Consistent φ s) (c : ℕ) (args : CreateArgs) (tableOk recordOk : Bool) :
    ∃ φ', Consistent φ' (s.pthreadCreate c args tableOk recordOk) := by
  unfold State.pthreadCreate
  split
  · exact ⟨φ, h.failEarly c .einval⟩
  · rename_i hargs
    have hstart : args.start ≠ 0 := fun hzero => hargs (Or.inr hzero)
    unfold State.allocateThread
    cases htable : s.table.or (if tableOk then some fun _ => none else none) with
    | none => exact ⟨φ, h.failEarly c .enomem⟩
    | some table =>
      have hslot := State.slot_of_or htable
      dsimp only
      cases recordOk with
      | false =>
        have htable' : Consistent φ { s with table := some table } :=
          h.of_eq hslot.symm rfl rfl rfl rfl rfl rfl rfl rfl
        exact ⟨φ, htable'.failEarly c .enomem⟩
      | true =>
        rw [if_pos rfl]
        by_cases hlt : first (fun i => (table i).isNone) maxthreads < maxthreads
        · rw [if_pos hlt]
          refine ⟨_, h.place hstart ?_ hlt ?_ rfl rfl rfl rfl rfl rfl rfl rfl⟩
          · rw [hslot]
            exact Option.isNone_iff_eq_none.mp (first_spec hlt)
          · rw [hslot]
            rfl
        · rw [if_neg hlt]
          refine ⟨_, h.overflow hslot.symm rfl (fun r' hr' => ?_) rfl rfl rfl rfl rfl rfl⟩
          exact Function.update_of_ne hr' _ _

/-- The record is written, and stays where it is in the table. -/
theorem rewrite (h : Consistent φ s) {contents : Record} {p : Phase} {pc : Pc}
    (hmove : (φ r).ByCall c p) (hphase : φ r ≠ .absent ∧ φ r ≠ .freed)
    (hp : p ≠ .absent ∧ p ≠ .freed) (hlisted : p.listed = (φ r).listed)
    (hindex : contents.index = (s.records r).index) (hrecord : s.RecordOk r contents p)
    (hcall : s.CallOk (Function.update φ r p) c pc)
    (hdetached : ∀ t th t', s.threads t = some th → th.record = r → p = .joinable t' →
      th.detached = false) (htaken : pc.taken = none) :
    Consistent (Function.update φ r p) ((s.setRecord r contents).goto c pc) := by
  refine h.ofCall hmove rfl (State.extends_of_eq rfl rfl)
    (fun r' hr' => Function.update_of_ne hr' _ _) (h.memory.move hphase hp rfl rfl rfl)
    (h.slots.keep hlisted rfl rfl fun r' _ => ?_) ?_ hcall (fun t th ht => Or.inl ht) hdetached
    (by simp [htaken])
  · exact State.index_update hindex r'
  · show s.RecordOk r (Function.update s.records r contents r) p
    rw [Function.update_self]
    exact hrecord

/-- The record is written, and its slot is emptied. -/
theorem unlist (h : Consistent φ s) {i : ℕ} (hi : s.slot i = some r) {contents : Record}
    {p : Phase} {pc : Pc} (hmove : (φ r).ByCall c p) (hp : p ≠ .absent ∧ p ≠ .freed)
    (hlisted : p.listed = false) (hrecord : s.RecordOk r contents p)
    (hcall : s.CallOk (Function.update φ r p) c pc)
    (htaken : ∀ t d, pc.taken = some t → d ≠ c → (s.calls d).taken ≠ some t) :
    Consistent (Function.update φ r p) (((s.setRecord r contents).clear i).goto c pc) := by
  have hphase : φ r ≠ .absent ∧ φ r ≠ .freed := by
    have := (h.slots.slot i r hi).1
    constructor <;> intro heq <;> rw [heq] at this <;> cases this
  refine h.ofCall hmove rfl (State.extends_of_eq rfl rfl)
    (fun r' hr' => Function.update_of_ne hr' _ _) (h.memory.move hphase hp rfl rfl rfl)
    (h.slots.clear hi hlisted (State.slot_clear hi) rfl
      fun r' hr' => Function.update_of_ne hr' _ _) ?_ hcall (fun t th ht => Or.inl ht) ?_ htaken
  · show s.RecordOk r (Function.update s.records r contents r) p
    rw [Function.update_self]
    exact hrecord
  · rintro t th t' - - rfl
    cases hlisted

/-- The start routine and its argument are written. -/
theorem fill (h : Consistent φ s) (hc : s.calls c = .allocated r args) :
    ∃ φ', Consistent φ' ((s.access [r]).setRecord r
      { s.records r with start := args.start, arg := args.arg } |>.goto c (.filled r args)) := by
  have hcall := h.call c
  rw [hc] at hcall
  obtain ⟨hphase, hstart⟩ := hcall
  have hrecord := h.record r
  rw [hphase] at hrecord
  rw [h.access_one (by simp [hphase])]
  exact ⟨_, h.rewrite (p := .filled c) (by rw [hphase]; exact .fill) (by simp [hphase]) (by simp)
    (by rw [hphase]; rfl) rfl ⟨hrecord, hstart⟩ (Function.update_self _ _ _) (by simp) rfl⟩

/-- `_beginthreadex`. -/
theorem beginThread (h : Consistent φ s) (hc : s.calls c = .filled r args) {b : Begun}
    (hstep : s.beginThread c r args b = some s') : ∃ φ', Consistent φ' s' := by
  have hcall := h.call c
  rw [hc] at hcall
  change φ r = .filled c at hcall
  cases b with
  | failed id e =>
    obtain rfl := Option.some.inj hstep
    exact ⟨φ, h.goto hcall (Or.inl rfl)⟩
  | ok id hd =>
    unfold State.beginThread at hstep
    dsimp only at hstep
    split at hstep
    · rename_i hnew
      obtain ⟨hid, hne, hthread, hhandle⟩ := hnew
      obtain rfl := Option.some.inj hstep
      have hrecord := h.record r
      rw [hcall] at hrecord
      -- nothing is known yet under the new id and the new handle
      have hext : s.Extends ({ s with handles := Function.update s.handles hd (some id) }.setThread
          id ⟨r, args.detached, .suspended⟩ |>.goto c (.begun r args (.ok id hd))) := by
        refine ⟨fun t th ht => ⟨th, ?_, rfl, rfl, fun _ hv => hv⟩, fun hd' t ht => ?_⟩
        · have htt : t ≠ id := by
            rintro rfl
            rw [hthread] at ht
            cases ht
          exact (Function.update_of_ne htt _ _).trans ht
        · have hhd : hd' ≠ hd := by
            rintro rfl
            rw [hhandle] at ht
            cases ht
          exact (Function.update_of_ne hhd _ _).trans ht
      refine ⟨_, h.ofCall (r := r) (p := .launched c id) (by rw [hcall]; exact .launch id) rfl hext
        (fun _ _ => rfl) (h.memory.move (by simp [hcall]) (by simp) rfl rfl rfl)
        (h.slots.keep (by rw [hcall]; rfl) rfl rfl fun _ _ => rfl) ?_ ?_ (fun t th ht => ?_)
        (by simp) (by simp [Pc.taken])⟩
      · exact ⟨hrecord.1, hrecord.2, _, Function.update_self _ _ _, rfl⟩
      · exact ⟨Function.update_self _ _ _, hne, Function.update_self _ _ _, _,
          Function.update_self _ _ _, rfl, rfl⟩
      · change Function.update s.threads id (some ⟨r, args.detached, .suspended⟩) t = some th at ht
        by_cases htt : t = id
        · subst htt
          rw [Function.update_self] at ht
          obtain rfl := Option.some.inj ht
          exact Or.inr ⟨rfl, hid, by simp, Or.inl ⟨c, rfl⟩⟩
        · rw [Function.update_of_ne htt] at ht
          exact Or.inl ht
    · cases hstep

/-- `wpdk_set_thread_info` where it takes the record out of the table. -/
theorem setThreadInfo_zero (h : Consistent φ s) {i : ℕ} (hi : s.slot i = some r) (id : ℕ) {hd : ℕ}
    {detached : Bool} (hzero : (if detached then 0 else hd) = 0) :
    s.setThreadInfo r id hd detached =
      (s.setRecord r { s.records r with id := id, h := 0, index := -1 }).clear i := by
  obtain ⟨hlisted, hindex, hlt⟩ := h.slots.slot i r hi
  have hfreed : φ r ≠ .freed := by
    intro heq
    rw [heq] at hlisted
    cases hlisted
  unfold State.setThreadInfo
  dsimp only
  rw [hzero, if_pos rfl, h.access_one hfreed, hindex,
    State.clearAt_natCast (Nat.lt_of_lt_of_le hlt h.slots.hwm_le)]

/-- The thread is there: it is listed under its id, or left to itself if it is detached. -/
theorem setInfo_ok (h : Consistent φ s) {id hd : ℕ} (hc : s.calls c = .begun r args (.ok id hd)) :
    ∃ φ', Consistent φ'
      ((s.setThreadInfo r id hd args.detached).goto c (.registered args id hd)) := by
  have hcall := h.call c
  rw [hc] at hcall
  obtain ⟨hphase, hne, hhandle, th, hth, hrecord, hdetached⟩ := hcall
  have hcontents := h.record r
  rw [hphase] at hcontents
  have hcall' : ∀ p : Phase, p.registered = true →
      s.CallOk (Function.update φ r p) c (.registered args id hd) := fun p hp =>
    ⟨hhandle, r, hcontents.2.2, by rw [Function.update_self]; exact hp⟩
  cases hargs : args.detached with
  | true =>
    obtain ⟨i, hi⟩ := h.slots.listed r (by rw [hphase]; rfl)
    rw [h.setThreadInfo_zero hi id rfl]
    exact ⟨_, h.unlist hi (p := .orphan id) (by rw [hphase]; exact .registerDetached id) (by simp)
      rfl rfl (hcall' _ rfl) (by simp [Pc.taken])⟩
  | false =>
    unfold State.setThreadInfo
    simp only [Bool.false_eq_true, if_false]
    rw [if_neg hne, h.access_one (by simp [hphase])]
    refine ⟨_, h.rewrite (p := .joinable id) (by rw [hphase]; exact .register id) (by simp [hphase])
      (by simp) (by rw [hphase]; rfl) rfl ⟨rfl, hcontents.2.1, hhandle, hcontents.2.2⟩
      (hcall' _ rfl) (fun t th' t' ht hr' _ => ?_) rfl⟩
    -- the one thread on this record is the new one
    have hthread := h.thread t th' ht
    rw [hr', hphase] at hthread
    obtain rfl := hthread.eq_of_thread rfl
    obtain rfl := Option.some.inj (hth.symm.trans ht)
    exact hdetached.trans hargs

/-- The thread could not be created. -/
theorem setInfo_failed (h : Consistent φ s) {id : ℕ} {e : Errno}
    (hc : s.calls c = .begun r args (.failed id e)) :
    ∃ φ', Consistent φ' ((s.setThreadInfo r id 0 args.detached).goto c (.discard r e)) := by
  have hphase := h.call c
  rw [hc] at hphase
  change φ r = .filled c at hphase
  obtain ⟨i, hi⟩ := h.slots.listed r (by rw [hphase]; rfl)
  rw [h.setThreadInfo_zero hi id (by simp)]
  exact ⟨_, h.unlist hi (p := .discarding c) (by rw [hphase]; exact .fail) (by simp) rfl trivial
    (Function.update_self _ _ _) (by simp [Pc.taken])⟩

/-- A thread moves on and leaves its record in the phase it is in. -/
theorem setThread (h : Consistent φ s) {t : ℕ} {detached : Bool} {pc pc' : ThreadPc}
    (ht : s.threads t = some ⟨r, detached, pc⟩) (hpc : ∀ v, pc ≠ .terminated v)
    (hthread : ThreadOk (φ r) (s.records r) t ⟨r, detached, pc'⟩) :
    Consistent φ (s.setThread t ⟨r, detached, pc'⟩) := by
  have hmoved : Consistent (Function.update φ r (φ r)) (s.setThread t ⟨r, detached, pc'⟩) := by
    refine h.ofThread ht hpc rfl rfl rfl (fun _ _ => rfl) (Or.inl rfl) (Or.inr ⟨rfl, rfl⟩) ?_ ?_
      ((h.record r).mono (State.extends_of_update ht hpc rfl rfl)) hthread
    · rw [Function.update_eq_self]
      exact ⟨h.memory.1, h.memory.2, h.memory.3, h.memory.4⟩
    · rw [Function.update_eq_self]
      exact ⟨h.slots.1, h.slots.2, h.slots.3⟩
  rwa [Function.update_eq_self] at hmoved

theorem resumeThread (h : Consistent φ s) {id hd : ℕ} (hhandle : s.handles hd = some id)
    (hr : s.WorksOn id r) (hregistered : (φ r).registered = true) :
    Consistent φ (s.resumeThread hd) := by
  obtain ⟨⟨r', detached, pc⟩, hth, rfl⟩ := hr
  unfold State.resumeThread
  rw [hhandle]
  dsimp only
  rw [hth]
  cases pc with
  | suspended =>
    obtain ⟨hne, hkept, hphase⟩ := h.thread id _ hth
    refine h.setThread hth (by simp) ⟨hne, hkept, ?_⟩
    rcases hphase with ⟨c, hlaunched⟩ | hphase
    · rw [hlaunched] at hregistered
      cases hregistered
    · exact hphase
  | resumed | starting info | running info | left v | terminated v => exact h

/-- The last step of a creation that succeeds. -/
theorem finishCreate (h : Consistent φ s) {id hd : ℕ} (hc : s.calls c = .registered args id hd)
    (ok : Bool) : Consistent φ (s.finishCreate c args id hd ok) := by
  have hcall := h.call c
  rw [hc] at hcall
  obtain ⟨hhandle, r, hr, hregistered⟩ := hcall
  have hresumed : Consistent φ (if ok then s.resumeThread hd else s) := by
    split
    · exact h.resumeThread hhandle hr hregistered
    · exact h
  have hclosed : Consistent φ (if args.detached then
      (if ok then s.resumeThread hd else s).closeHandle hd
      else if ok then s.resumeThread hd else s) := by
    split
    · exact hresumed.of_eq rfl rfl rfl rfl rfl rfl rfl rfl rfl
    · exact hresumed
  exact hclosed.goto ⟨trivial, by simp [Ret.taken], by simp⟩ (Or.inl rfl)

/-- The record of a creation that has failed is freed. -/
theorem discard (h : Consistent φ s) {e : Errno} (hc : s.calls c = .discard r e) :
    ∃ φ', Consistent φ' ((s.free r).goto c (.returned (.createFailed (some r) e))) := by
  have hphase := h.call c
  rw [hc] at hphase
  change φ r = .discarding c at hphase
  refine ⟨_, h.ofCall (r := r) (p := .freed) (by rw [hphase]; exact .discard) rfl
    (State.extends_of_eq rfl rfl) (fun _ _ => rfl) (h.memory.free (by simp [hphase]) rfl rfl rfl)
    (h.slots.keep (by rw [hphase]; rfl) rfl rfl fun _ _ => rfl) trivial
    ⟨trivial, by simp [Ret.taken], fun r' e' heq => ?_⟩ (fun t th ht => Or.inl ht) (by simp)
    (by simp [Pc.taken, Ret.taken])⟩
  cases heq
  exact Function.update_self _ _ _

end Consistent

end Thread
end Wpdk
