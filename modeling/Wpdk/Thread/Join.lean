import Wpdk.Thread.Create

/-!
# Running, joining and detaching a thread

The steps of a thread, of `pthread_join` and of `pthread_detach` keep the invariant.  A thread comes
to its record either before or after a call has taken it out of the table, and in each case one of
the two finds that the record is its own to free.

* `Consistent.starting`, `Consistent.enter`, `Consistent.leave`, `Consistent.terminate`: the thread.
* `Consistent.pthreadJoin`, `Consistent.wait`: a join up to the end of the thread.
* `Consistent.takeOut`, `Consistent.release`: what a join and a detach share.
-/

namespace Wpdk
namespace Thread

namespace Consistent

variable {φ : ℕ → Phase} {s s' : State} {c t : ℕ}

/-! ## The thread -/

/-- A thread writes to its record, and leaves it where it is. -/
theorem threadRewrite (h : Consistent φ s) {r : ℕ} {detached : Bool} {pc pc' : ThreadPc}
    (ht : s.threads t = some ⟨r, detached, pc⟩) (hpc : ∀ v, pc ≠ .terminated v)
    {contents : Record} {p : Phase} (hthread : (φ r).thread = some t)
    (hmove : p = φ r ∨ (φ r).ByThread t p) (hp : p ≠ .absent ∧ p ≠ .freed)
    (hlisted : p.listed = (φ r).listed) (hindex : contents.index = (s.records r).index)
    (hrecord : s.RecordOk r contents p) (hok : ThreadOk p contents t ⟨r, detached, pc'⟩) :
    Consistent (Function.update φ r p)
      ((s.setRecord r contents).setThread t ⟨r, detached, pc'⟩) := by
  have hphase : φ r ≠ .absent ∧ φ r ≠ .freed := by
    constructor <;> intro heq <;> rw [heq] at hthread <;> cases hthread
  have hcontents : Function.update s.records r contents r = contents := Function.update_self _ _ _
  refine h.ofThread ht hpc rfl rfl rfl (fun r' hr' => Function.update_of_ne hr' _ _) hmove
    (Or.inl hthread) (h.memory.move hphase hp rfl rfl rfl)
    (h.slots.keep hlisted rfl rfl fun r' _ => State.index_update hindex r') ?_ ?_
  · show State.RecordOk _ _ (Function.update s.records r contents r) p
    rw [hcontents]
    exact hrecord.mono (State.extends_of_update ht hpc rfl rfl)
  · show ThreadOk p (Function.update s.records r contents r) t ⟨r, detached, pc'⟩
    rw [hcontents]
    exact hok

/-- The thread copies its record and clears the start routine.  If the record is in the table, it
stays there for a join; if it is not, it is now for the thread to free. -/
theorem starting (h : Consistent φ s) {r : ℕ} {detached : Bool}
    (ht : s.threads t = some ⟨r, detached, .resumed⟩) :
    ∃ φ', Consistent φ' ((s.threadStarting r).setThread t
      ⟨r, detached, .starting (s.records r)⟩) := by
  obtain ⟨hne, hkept, hphase⟩ := h.thread t _ ht
  have hrecord := h.record r
  unfold State.threadStarting
  dsimp only at hkept hphase
  rcases hphase with hphase | hphase
  · rw [hphase] at hrecord hkept
    rw [h.access_one (by simp [hphase])]
    obtain ⟨i, hi⟩ := h.slots.listed r (by rw [hphase]; rfl)
    have hindex := (h.slots.slot i r hi).2.1
    refine ⟨_, h.threadRewrite (p := .started t) ht (by simp) (by rw [hphase]; rfl)
      (Or.inr ?_) (by simp) (by rw [hphase]; rfl) rfl ⟨hrecord.1, rfl, hrecord.2.2⟩
      ⟨hne, fun hd => absurd rfl (hkept hd).1, Or.inr ⟨?_, Or.inl ⟨rfl, rfl⟩⟩⟩⟩
    · rw [hphase]
      exact .start
    · rw [hindex]
      omega
  · rw [hphase] at hrecord
    rw [h.access_one (by simp [hphase])]
    refine ⟨_, h.threadRewrite (p := .releasing t) ht (by simp) (by rw [hphase]; rfl)
      (Or.inr ?_) (by simp) (by rw [hphase]; rfl) rfl trivial
      ⟨hne, by simp, Or.inl ⟨hrecord, rfl⟩⟩⟩
    rw [hphase]
    exact .startOrphan

/-- The thread frees the record if nobody else will, and calls the start routine. -/
theorem enter (h : Consistent φ s) {r : ℕ} {detached : Bool} {info : Record}
    (ht : s.threads t = some ⟨r, detached, .starting info⟩) :
    ∃ φ', Consistent φ' (s.enterThread t ⟨r, detached, .starting info⟩ info) := by
  obtain ⟨hne, hkept, hphase⟩ := h.thread t _ ht
  dsimp only at hkept hphase
  unfold State.enterThread
  rcases hphase with ⟨hindex, hphase⟩ | ⟨hindex, hphase⟩
  · dsimp only
    rw [if_pos hindex]
    refine ⟨_, h.ofThread (p := .freed) ht (by simp) rfl rfl rfl (fun _ _ => rfl)
      (Or.inr ?_) (Or.inl (by rw [hphase]; rfl)) (h.memory.free (by simp [hphase]) rfl rfl rfl)
      (h.slots.keep (by rw [hphase]; rfl) rfl rfl fun _ _ => rfl) trivial
      ⟨hne, by simp, Or.inr (Or.inl rfl)⟩⟩
    rw [hphase]
    exact .release
  · dsimp only
    rw [if_neg hindex]
    exact ⟨φ, h.setThread ht (by simp) ⟨hne, hkept, hphase⟩⟩

/-- The thread leaves its result in the record, if that is in the table. -/
theorem leave (h : Consistent φ s) {r : ℕ} {detached : Bool} {info : Record}
    (ht : s.threads t = some ⟨r, detached, .running info⟩) (value : ℕ) (how : Ending) :
    ∃ φ', Consistent φ' ((s.threadDone t (how.index info) value).setThread t
      ⟨r, detached, .left value⟩) := by
  obtain ⟨hne, hkept, hphase⟩ := h.thread t _ ht
  dsimp only at hkept hphase
  have hrecord := h.record r
  unfold State.threadDone
  rw [h.access_visited]
  rcases hphase with ⟨hphase, hsame⟩ | hpast
  · rw [hphase] at hrecord hkept
    obtain ⟨i, hi⟩ := h.slots.listed r (by rw [hphase]; rfl)
    have hindex : how.index info = -1 ∨ how.index info = i := by
      cases how with
      | byReturn => exact Or.inr (hsame.symm.trans (h.slots.slot i r hi).2.1)
      | byExit => exact Or.inl rfl
    rw [h.entry_of_slot hi hrecord.1 hne hindex]
    exact ⟨_, h.threadRewrite (p := .started t) ht (by simp) (by rw [hphase]; rfl)
      (Or.inl hphase.symm) (by simp) (by rw [hphase]) rfl hrecord
      ⟨hne, hkept, Or.inl ⟨rfl, rfl⟩⟩⟩
  · -- a record found under the id of the thread would be its own, and in the table
    have hnone : s.entry t (how.index info) = none := by
      cases hentry : s.entry t (how.index info) with
      | none => rfl
      | some found =>
        obtain ⟨hi, hid⟩ := State.entry_spec (i := found.1) (r := found.2) hentry
        have hlisted := (h.slots.slot _ _ hi).1
        obtain rfl := (h.known_of_id hi hid hne).2.unique ⟨_, ht, rfl⟩
        rcases hpast with hpast | ⟨c, hpast⟩ <;> rw [hpast] at hlisted <;> cases hlisted
    rw [hnone]
    exact ⟨φ, h.setThread ht (by simp) ⟨hne, hkept, Or.inr hpast⟩⟩

theorem terminate (h : Consistent φ s) {r : ℕ} {detached : Bool} {value : ℕ}
    (ht : s.threads t = some ⟨r, detached, .left value⟩) :
    Consistent φ (s.setThread t ⟨r, detached, .terminated value⟩) := by
  obtain ⟨hne, hkept, hphase⟩ := h.thread t _ ht
  exact h.setThread ht (by simp) ⟨hne, hkept, hphase⟩

/-! ## The calls -/

/-- A join looks up the handle of the thread. -/
theorem pthreadJoin (h : Consistent φ s) (c self t : ℕ) (value : Bool) :
    Consistent φ (s.pthreadJoin c self t value) := by
  have heinval : Consistent φ
      (s.goto c (.returned (.joined t value false Errno.einval.code none))) := by
    have hpos := Errno.code_pos .einval
    exact h.goto ⟨fun hcode => absurd hcode (by omega), by simp [Ret.taken], by simp⟩ (Or.inl rfl)
  unfold State.pthreadJoin State.getThreadInfo
  dsimp only
  split
  · exact heinval
  · rename_i hargs
    have ht : t ≠ 0 := fun hzero => hargs (Or.inl hzero)
    rw [h.access_visited]
    by_cases hlt : s.search t < s.hwmthreads
    · obtain ⟨r, hr, hid⟩ := State.hasId_iff.mp (first_spec hlt)
      change s.slot (s.search t) = some r at hr
      rw [if_pos hlt, hr]
      exact h.goto ⟨ht, (h.known_of_id hr hid ht).1⟩ (Or.inl rfl)
    · rw [if_neg hlt]
      exact heinval

theorem ended_spec {hd : ℕ} (hhandle : s.handles hd = some t) (hended : s.ended hd = true) :
    ∃ v, s.EndedWith t v := by
  unfold State.ended at hended
  rw [hhandle, Option.bind_some] at hended
  split at hended
  · rename_i r detached v hth
    exact ⟨v, _, hth, rfl⟩
  · cases hended

/-- The wait of a join fails, or the thread has ended. -/
theorem wait (h : Consistent φ s) {hd index : ℕ} {value : Bool}
    (hc : s.calls c = .waiting t hd index value) {rc : WaitResult}
    (hrc : rc = .failed ∨ s.ended hd = true) :
    Consistent φ (s.goto c (.waited t index value rc)) := by
  have hcall := h.call c
  rw [hc] at hcall
  obtain ⟨hne, hhandle⟩ := hcall
  refine h.goto ⟨hne, fun hfailed => ?_⟩ (Or.inl rfl)
  rcases hrc with hrc | hended
  · exact absurd hrc hfailed
  · exact ended_spec hhandle hended

/-- **The record is taken out of the table**, by a call that looks for a thread other than zero.
If the thread has not come to it yet, it is left to the thread. -/
theorem takeOut (h : Consistent φ s) (ht : t ≠ 0) (index : ℤ) (ret : Option Record → Ret)
    (hnone : s.RetOk (ret none) ∧ (ret none).taken = none ∧
      ∀ r e, ret none ≠ .createFailed (some r) e)
    (hsome : ∀ i r, s.slot i = some r → (s.records r).id = t →
      s.RetOk (ret (some (s.records r))) ∧ (ret (some (s.records r))).taken = some t) :
    ∃ φ', Consistent φ' (s.takeOut c t index ret) := by
  unfold State.takeOut State.detachThread
  rw [h.access_visited]
  cases hentry : s.entry t index with
  | none =>
    obtain ⟨hret, htaken, hnot⟩ := hnone
    exact ⟨φ, h.goto ⟨hret, by simp [htaken], fun r e heq => absurd heq (hnot r e)⟩ (Or.inl htaken)⟩
  | some found =>
    obtain ⟨i, r⟩ := found
    obtain ⟨hi, hid⟩ := State.entry_spec hentry
    obtain ⟨hret, htaken⟩ := hsome i r hi hid
    obtain ⟨-, hworks⟩ := h.known_of_id hi hid ht
    have hrecord := h.record r
    -- nobody else has taken it out, for it is in the table
    have hothers : ∀ t' d, (Pc.closing r (s.records r).h (s.records r).start
        (ret (some (s.records r)))).taken = some t' → d ≠ c → (s.calls d).taken ≠ some t' := by
      intro t' d ht' _ hd
      obtain rfl := Option.some.inj (htaken.symm.trans ht')
      obtain ⟨r', hr', hunlisted⟩ := (h.call d).not_listed hd
      obtain rfl := hworks.unique hr'
      rw [(h.slots.slot i r hi).1] at hunlisted
      cases hunlisted
    rcases h.phase_of_id hi hid ht with hphase | hphase
    · rw [hphase] at hrecord
      refine ⟨_, h.unlist hi (p := .orphan t) (by rw [hphase]; exact .leave t) (by simp) rfl rfl
        ⟨hret, t, htaken, hworks, ?_⟩ hothers⟩
      rw [if_neg hrecord.2.1, Function.update_self]
      exact Or.inl rfl
    · rw [hphase] at hrecord
      refine ⟨_, h.unlist hi (p := .removed c) (by rw [hphase]; exact .remove t) (by simp) rfl
        trivial ⟨hret, t, htaken, hworks, ?_⟩ hothers⟩
      rw [if_pos hrecord.2.1, Function.update_self]

/-- The handle is closed, and the record is freed if the thread has come to it before. -/
theorem release (h : Consistent φ s) {r hd start : ℕ} {ret : Ret}
    (hc : s.calls c = .closing r hd start ret) :
    ∃ φ', Consistent φ' (s.release c r hd start ret) := by
  have hclosed : Consistent φ (if hd ≠ 0 then s.closeHandle hd else s) := by
    split
    · exact h.of_eq rfl rfl rfl rfl rfl rfl rfl rfl rfl
    · exact h
  have hc' : (if hd ≠ 0 then s.closeHandle hd else s).calls c = .closing r hd start ret := by
    split <;> exact hc
  unfold State.release
  generalize (if hd ≠ 0 then s.closeHandle hd else s) = s at hclosed hc'
  have hcall := hclosed.call c
  rw [hc'] at hcall
  obtain ⟨hret, t, htaken, hworks, hphase⟩ := hcall
  have hnot : ∀ r e, ret ≠ .createFailed (some r) e := by
    rintro r e rfl
    cases htaken
  -- no other call has taken out the record of this thread
  have hunique : ∀ t' d, ret.taken = some t' → d ≠ c → (s.calls d).taken ≠ some t' :=
    fun t' d ht' hdc hd => hdc (hclosed.taken_unique d c t' hd (by rw [hc']; exact ht'))
  dsimp only
  split at hphase
  · rename_i hstart
    rw [if_pos hstart]
    refine ⟨_, hclosed.ofCall (r := r) (p := .freed) (by rw [hphase]; exact .release) rfl
      (State.extends_of_eq rfl rfl) (fun _ _ => rfl)
      (hclosed.memory.free (by simp [hphase]) rfl rfl rfl)
      (hclosed.slots.keep (by rw [hphase]; rfl) rfl rfl fun _ _ => rfl) trivial
      ⟨hret, fun t' ht' => ?_, fun r e heq => absurd heq (hnot r e)⟩ (fun t th ht => Or.inl ht)
      (by simp) hunique⟩
    obtain rfl := Option.some.inj (htaken.symm.trans ht')
    exact ⟨r, hworks, by rw [Function.update_self]; exact Or.inr (Or.inr rfl)⟩
  · rename_i hstart
    rw [if_neg hstart]
    refine ⟨φ, hclosed.goto ⟨hret, fun t' ht' => ?_, fun r e heq => absurd heq (hnot r e)⟩
      (Or.inr (by rw [hc']; rfl))⟩
    obtain rfl := Option.some.inj (htaken.symm.trans ht')
    exact ⟨r, hworks, hphase⟩

end Consistent

end Thread
end Wpdk
