import Mathlib.Logic.Function.Basic
import Mathlib.Data.Int.Notation
import Mathlib.Data.List.Basic
import Wpdk.Base.Run
import Wpdk.Error

/-!
# Signal dispositions

`signal.c` delivers `SIGINT` and `SIGTERM` by two routes.  A `raise` goes through the C runtime,
which has a handler of its own for every signal, resets it before it calls it, and does nothing
for `SIG_IGN`.  A signal from another process sets an event, and the worker thread waiting for
it calls `wpdk_signal_handler` directly.  What a signal does is therefore kept twice: in the
table `wpdk_signals`, and in what is registered with the runtime.

* `SigState`: the two entries for one signal; `signalHandler` and `raise` are the two routes, each
  returning the new entries and what the delivery did.
* `sigaction`, `signal`: the calls that install an action.  The table is written before the
  runtime has accepted the registration, and stays written if it does not.
* `Disposition`: what the last successful call asked for, with the effect of a delivery and the
  disposition after it.  This is the abstract machine; `Realises` says that the entries for a
  signal behave as a disposition does, whichever route the next delivery takes.
* `realised_iff_sound`: along a run, the disposition installed last is realised throughout exactly
  when every step is `Sound`.
* `ignored_signal_terminates`: a step that is not sound, and what comes of it.
-/

namespace Wpdk
namespace Signal

open Run

/-! ## Actions and dispositions -/

/-- A value of `sa_handler`, the addresses of functions being numbered. -/
inductive Handler where
  | dfl
  | ign
  | fn (f : ℕ)
deriving DecidableEq

/-- `struct sigaction`, with the two flags that have a meaning.  The mask is never read. -/
structure SigAction where
  handler : Handler
  siginfo : Bool
  resethand : Bool
deriving DecidableEq

/-- `wpdk_sig_default`, which is also what the table holds at the start. -/
def sigDefault : SigAction := ⟨.dfl, false, false⟩

/-- What a delivery does: nothing, `exit(3)`, a call of a user function with or without the
`SA_SIGINFO` arguments, or a jump through the value of `SIG_DFL` or `SIG_IGN`. -/
inductive Effect where
  | ignored
  | exit
  | call (f : ℕ) (info : Bool)
  | wild
deriving DecidableEq

/-- The end of `wpdk_signal_handler`, for the action it has read. -/
def SigAction.invoke (act : SigAction) : Effect :=
  if act.siginfo then
    match act.handler with
    | .fn f => .call f true
    | .dfl => .wild
    | .ign => .wild
  else
    match act.handler with
    | .ign => .ignored
    | .dfl => .exit
    | .fn f => .call f false

/-- What a successful call installs. -/
inductive Disposition where
  | default
  | ignore
  | user (f : ℕ) (info once : Bool)
deriving DecidableEq

/-- The disposition that an action asks for. -/
def SigAction.disposition (act : SigAction) : Disposition :=
  match act.handler with
  | .dfl => .default
  | .ign => .ignore
  | .fn f => .user f act.siginfo act.resethand

/-- The effect of a delivery. -/
def Disposition.effect : Disposition → Effect
  | .default => .exit
  | .ignore => .ignored
  | .user f info _ => .call f info

/-- The disposition after a delivery: a function installed for one call is gone. -/
def Disposition.next : Disposition → Disposition
  | .default => .default
  | .ignore => .ignore
  | .user f info once => if once then .default else .user f info once

/-- `SA_SIGINFO` comes with a function. -/
def SigAction.Plain (act : SigAction) : Prop := act.siginfo = true → ∃ f, act.handler = .fn f

theorem SigAction.invoke_eq_effect_iff {act : SigAction} :
    act.invoke = act.disposition.effect ↔ act.Plain := by
  obtain ⟨handler, siginfo, resethand⟩ := act
  cases handler <;> cases siginfo <;>
    simp [SigAction.invoke, SigAction.disposition, Disposition.effect, SigAction.Plain]

/-- An action that behaves as a disposition asks for it, up to how often. -/
theorem SigAction.plain_of_invoke {act : SigAction} {d : Disposition}
    (h : act.invoke = d.effect) (honce : ∀ f info once, d = .user f info once →
      act.resethand = once) : act.Plain ∧ act.disposition = d := by
  obtain ⟨handler, siginfo, resethand⟩ := act
  cases d with
  | default =>
    cases handler <;> cases siginfo <;>
      simp_all [SigAction.invoke, SigAction.disposition, Disposition.effect, SigAction.Plain]
  | ignore =>
    cases handler <;> cases siginfo <;>
      simp_all [SigAction.invoke, SigAction.disposition, Disposition.effect, SigAction.Plain]
  | user f info once =>
    have hreset : resethand = once := honce f info once rfl
    cases handler <;> cases siginfo <;>
      simp_all [SigAction.invoke, SigAction.disposition, Disposition.effect, SigAction.Plain]

/-! ## The two routes -/

/-- What the C runtime calls for a signal. -/
inductive Registered where
  | dfl
  | ign
  | wpdkHandler
deriving DecidableEq

/-- The two entries for one signal. -/
structure SigState where
  action : SigAction
  registered : Registered
deriving DecidableEq

/-- `wpdk_signal_handler` for a valid signal.  `reinstated` is the success of its `signal` call,
which it does not make for a one-shot action. -/
def signalHandler (s : SigState) (reinstated : Bool) : SigState × Effect :=
  let act := s.action
  if act.resethand then ({ s with action := sigDefault }, act.invoke)
  else if reinstated then ({ s with registered := .wpdkHandler }, act.invoke)
  else (s, act.invoke)

/-- `raise`: the runtime resets its handler before it calls it. -/
def raise (s : SigState) (reinstated : Bool) : SigState × Effect :=
  match s.registered with
  | .dfl => (s, .exit)
  | .ign => (s, .ignored)
  | .wpdkHandler => signalHandler { s with registered := .dfl } reinstated

theorem snd_signalHandler (s : SigState) (reinstated : Bool) :
    (signalHandler s reinstated).2 = s.action.invoke := by
  unfold signalHandler
  dsimp only
  split
  · rfl
  · split <;> rfl

/-- **The entries for a signal realise a disposition**: the next delivery has its effect by either
route, and a function is reset after the call if and only if it was installed for one call. -/
structure Realises (s : SigState) (d : Disposition) : Prop where
  byWorker : ∀ reinstated, (signalHandler s reinstated).2 = d.effect
  byRaise : ∀ reinstated, (raise s reinstated).2 = d.effect
  once : ∀ f info once, d = .user f info once → s.action.resethand = once

/-- What the runtime may have registered under a disposition.  The handler of `signal.c` looks the
action up, so it serves for all of them. -/
def Registered.Suits : Registered → Disposition → Prop
  | .wpdkHandler, _ => True
  | .dfl, d => d = .default
  | .ign, d => d = .ignore

theorem effect_eq_exit_iff {d : Disposition} : Effect.exit = d.effect ↔ d = .default := by
  cases d <;> simp [Disposition.effect]

theorem effect_eq_ignored_iff {d : Disposition} : Effect.ignored = d.effect ↔ d = .ignore := by
  cases d <;> simp [Disposition.effect]

theorem realises_iff {s : SigState} {d : Disposition} :
    Realises s d ↔ s.action.Plain ∧ s.action.disposition = d ∧ s.registered.Suits d := by
  obtain ⟨act, reg⟩ := s
  constructor
  · rintro ⟨hworker, hraise, honce⟩
    have hinvoke : act.invoke = d.effect := by
      rw [← hworker true, snd_signalHandler]
    obtain ⟨hplain, hdisp⟩ := SigAction.plain_of_invoke hinvoke honce
    refine ⟨hplain, hdisp, ?_⟩
    cases reg with
    | dfl => exact effect_eq_exit_iff.mp (hraise true)
    | ign => exact effect_eq_ignored_iff.mp (hraise true)
    | wpdkHandler => trivial
  · rintro ⟨hplain, rfl, hsuits⟩
    have hinvoke := SigAction.invoke_eq_effect_iff.mpr hplain
    refine ⟨fun r => ?_, fun r => ?_, fun f info once hd => ?_⟩
    · rw [snd_signalHandler]
      exact hinvoke
    · cases reg with
      | dfl => exact effect_eq_exit_iff.mpr hsuits
      | ign => exact effect_eq_ignored_iff.mpr hsuits
      | wpdkHandler =>
        show (signalHandler _ r).2 = _
        rw [snd_signalHandler]
        exact hinvoke
    · obtain ⟨handler, siginfo, resethand⟩ := act
      cases handler <;> simp_all [SigAction.disposition]

/-- `SIG_IGN` for one delivery only, as `wpdk_signal` installs it. -/
def SigAction.IgnoresOnce (act : SigAction) : Prop := act.handler = .ign ∧ act.resethand = true

instance (act : SigAction) : Decidable act.IgnoresOnce := inferInstanceAs (Decidable (_ ∧ _))

/-- A call of `wpdk_signal_handler` keeps the entries in step with the disposition, unless it
finds `SIG_IGN` for one delivery only. -/
theorem Realises.signalHandler {s : SigState} {d : Disposition} (h : Realises s d)
    (hign : ¬ s.action.IgnoresOnce) (reinstated : Bool) :
    Realises (signalHandler s reinstated).1 d.next := by
  obtain ⟨hplain, rfl, hsuits⟩ := realises_iff.mp h
  obtain ⟨⟨handler, siginfo, resethand⟩, reg⟩ := s
  rw [realises_iff]
  cases handler with
  | ign =>
    cases resethand with
    | true => exact absurd ⟨rfl, rfl⟩ hign
    | false => cases reinstated <;> exact ⟨hplain, rfl, by first | exact hsuits | trivial⟩
  | dfl =>
    cases resethand with
    | true => exact ⟨by simp [Signal.signalHandler, sigDefault, SigAction.Plain], rfl, hsuits⟩
    | false => cases reinstated <;> exact ⟨hplain, rfl, by first | exact hsuits | trivial⟩
  | fn f =>
    have hreg : reg = .wpdkHandler := by
      cases reg <;> simp_all [Registered.Suits, SigAction.disposition]
    subst hreg
    cases resethand with
    | true => exact ⟨by simp [Signal.signalHandler, sigDefault, SigAction.Plain], rfl, trivial⟩
    | false => cases reinstated <;> exact ⟨hplain, rfl, trivial⟩

/-- The one-shot `SIG_IGN` that is found is forgotten. -/
theorem not_realises_signalHandler {s : SigState} {d : Disposition} (h : Realises s d)
    (hign : s.action.IgnoresOnce) (reinstated : Bool) :
    ¬ Realises (signalHandler s reinstated).1 d.next := by
  obtain ⟨hplain, rfl, -⟩ := realises_iff.mp h
  obtain ⟨⟨handler, siginfo, resethand⟩, reg⟩ := s
  obtain ⟨rfl, rfl⟩ := hign
  rw [realises_iff]
  rintro ⟨-, hdisp, -⟩
  cases hdisp

/-- What a `raise` that reaches `wpdk_signal_handler` asks of it: an action that is not reset has
to be registered again, since the runtime has dropped it. -/
def SigState.RaiseKeeps (s : SigState) (reinstated : Bool) : Prop :=
  s.registered = .wpdkHandler →
    ¬ s.action.IgnoresOnce ∧
      (s.action.resethand = true ∨ s.action.handler = .dfl ∨ reinstated = true)

theorem Realises.raise {s : SigState} {d : Disposition} (h : Realises s d) {reinstated : Bool}
    (hkeeps : s.RaiseKeeps reinstated) : Realises (raise s reinstated).1 d.next := by
  obtain ⟨hplain, rfl, hsuits⟩ := realises_iff.mp h
  obtain ⟨⟨handler, siginfo, resethand⟩, reg⟩ := s
  cases reg with
  | dfl =>
    have hd : (SigAction.mk handler siginfo resethand).disposition = .default := hsuits
    rw [hd] at h ⊢
    exact h
  | ign =>
    have hd : (SigAction.mk handler siginfo resethand).disposition = .ignore := hsuits
    rw [hd] at h ⊢
    exact h
  | wpdkHandler =>
    obtain ⟨hign, hagain⟩ := hkeeps rfl
    rw [realises_iff]
    cases resethand with
    | true =>
      refine ⟨by simp [Signal.raise, Signal.signalHandler, sigDefault, SigAction.Plain], ?_, ?_⟩
      · cases handler with
        | ign => exact absurd ⟨rfl, rfl⟩ hign
        | dfl => rfl
        | fn f => rfl
      · cases handler with
        | ign => exact absurd ⟨rfl, rfl⟩ hign
        | dfl => rfl
        | fn f => rfl
    | false =>
      cases reinstated with
      | true =>
        refine ⟨hplain, ?_, trivial⟩
        cases handler <;> rfl
      | false =>
        have hdfl : handler = .dfl := by simpa using hagain
        subst hdfl
        exact ⟨hplain, rfl, rfl⟩

theorem not_realises_raise {s : SigState} {d : Disposition} (h : Realises s d)
    {reinstated : Bool} (hkeeps : ¬ s.RaiseKeeps reinstated) :
    ¬ Realises (raise s reinstated).1 d.next := by
  obtain ⟨hreg, hlost⟩ := Classical.not_imp.mp hkeeps
  obtain ⟨hplain, rfl, -⟩ := realises_iff.mp h
  obtain ⟨⟨handler, siginfo, resethand⟩, reg⟩ := s
  obtain rfl : reg = .wpdkHandler := hreg
  rw [realises_iff]
  rintro ⟨-, hdisp, hsuits⟩
  cases resethand with
  | true =>
    have hign : handler = .ign := by simpa [SigAction.IgnoresOnce] using hlost
    subst hign
    cases hdisp
  | false =>
    obtain ⟨hdfl, hnot⟩ : handler ≠ .dfl ∧ reinstated = false := by
      simpa [SigAction.IgnoresOnce] using hlost
    subst hnot
    -- the runtime is left with `SIG_DFL`
    cases handler with
    | dfl => exact hdfl rfl
    | ign => cases hsuits
    | fn f => cases hsuits

/-! ## The process -/

/-- `NSIG`. -/
def nsig : ℤ := 23

/-- `SIGINT`. -/
def sigint : ℤ := 2

/-- `SIGILL`. -/
def sigill : ℤ := 4

/-- `SIGFPE`. -/
def sigfpe : ℤ := 8

/-- `SIGSEGV`. -/
def sigsegv : ℤ := 11

/-- `SIGTERM`. -/
def sigterm : ℤ := 15

/-- `SIGABRT`. -/
def sigabrt : ℤ := 22

/-- The cases of the `switch` in `wpdk_sigaction`. -/
def crtSignals : List ℤ := [sigabrt, sigfpe, sigill, sigint, sigsegv, sigterm]

/-- `wpdk_siglist`. -/
def siglist : List ℤ := [sigint, sigterm]

/-- The signal state of a process.  `worker` is empty before the first call has created the
worker, and then holds the signals the worker waits for.  The code does not have `installed`. -/
structure Process where
  sigs : ℤ → SigState
  worker : Option (List ℤ)
  running : Bool
  installed : ℤ → Disposition

/-- The process before the first call. -/
def Process.start : Process := ⟨fun _ => ⟨sigDefault, .dfl⟩, none, true, fun _ => .default⟩

/-- How the calls that can fail end during one `wpdk_sigaction`: the registration with the runtime
and, on the first call, the creation of the worker and of its events. -/
structure Outcome where
  accepted : Bool
  workerCreated : Bool
  eventCreated : ℤ → Bool

/-- `InitOnceExecuteOnce` with `wpdk_signal_init`. -/
def Process.signalInit (p : Process) (o : Outcome) : Process :=
  match p.worker with
  | some _ => p
  | none =>
    { p with worker := some (if o.workerCreated then siglist.filter o.eventCreated else []) }

/-- What `wpdk_sigaction` registers for a handler. -/
def Handler.registered : Handler → Registered
  | .dfl => .dfl
  | .ign => .ign
  | .fn _ => .wpdkHandler

/-- `wpdk_sigaction` returns an error for an invalid signal, or its return value together with
`*oact`. -/
def sigaction (p : Process) (sig : ℤ) (act : Option SigAction) (o : Outcome) :
    Process × Except Errno (ℤ × SigAction) :=
  if sig < 1 ∨ nsig ≤ sig then (p, .error .einval)
  else
    let p := p.signalInit o
    let s := p.sigs sig
    match act with
    | none => (p, .ok (0, s.action))
    | some act =>
      -- the table is written first
      let written := { p with sigs := Function.update p.sigs sig { s with action := act } }
      if sig ∈ crtSignals then
        if o.accepted then
          ({ p with sigs := Function.update p.sigs sig ⟨act, act.handler.registered⟩ },
            .ok (0, s.action))
        else (written, .ok (-1, s.action))
      else (written, .ok (0, s.action))

/-- The action that `wpdk_signal` installs. -/
def signalAction (handler : Handler) : SigAction := ⟨handler, false, true⟩

/-- `wpdk_signal`, with `none` for `SIG_ERR`. -/
def signal (p : Process) (sig : ℤ) (handler : Handler) (o : Outcome) : Process × Option Handler :=
  match sigaction p sig (some (signalAction handler)) o with
  | (p, .ok (0, oact)) => (p, some oact.handler)
  | (p, _) => (p, none)

/-- Whether the return value of `wpdk_sigaction` is 0. -/
def succeeded : Except Errno (ℤ × SigAction) → Bool
  | .ok (rc, _) => rc == 0
  | .error _ => false

/-- Keeping the record of what was installed. -/
def Process.record (p : Process) (sig : ℤ) (act : SigAction) (success : Bool) : Process :=
  if success then { p with installed := Function.update p.installed sig act.disposition } else p

/-- A delivery changes the entries of its signal, and may be the last. -/
def Process.deliver (p : Process) (sig : ℤ) (r : SigState × Effect) : Process where
  sigs := Function.update p.sigs sig r.1
  worker := p.worker
  running := decide (r.2 ≠ .exit ∧ r.2 ≠ .wild)
  installed := Function.update p.installed sig (p.installed sig).next

/-- A call, or a delivery by `raise` or by the worker. -/
inductive SigStep where
  | sigaction (sig : ℤ) (act : Option SigAction) (o : Outcome)
  | signal (sig : ℤ) (handler : Handler) (o : Outcome)
  | raise (sig : ℤ) (reinstated : Bool)
  | worker (sig : ℤ) (reinstated : Bool)

/-- One call or one delivery. -/
def Process.step (p : Process) : SigStep → Option Process
  | .sigaction sig act o =>
    if p.running then
      let r := Signal.sigaction p sig act o
      match act with
      | none => some r.1
      | some act => some (r.1.record sig act (succeeded r.2))
    else none
  | .signal sig handler o =>
    if p.running then
      let r := Signal.signal p sig handler o
      some (r.1.record sig (signalAction handler) r.2.isSome)
    else none
  | .raise sig reinstated =>
    if p.running ∧ sig ∈ siglist then
      some (p.deliver sig (Signal.raise (p.sigs sig) reinstated))
    else none
  | .worker sig reinstated =>
    if p.running ∧ sig ∈ p.worker.getD [] then
      some (p.deliver sig (signalHandler (p.sigs sig) reinstated))
    else none

/-- **Both routes realise the disposition installed last**, for the signals that have two. -/
def Process.Realised (p : Process) : Prop :=
  ∀ sig ∈ siglist, Realises (p.sigs sig) (p.installed sig)

/-- The condition on installing an action: `SA_SIGINFO` comes with a function, and a call that
fails asks for what is installed already. -/
def Process.Installs (p : Process) (sig : ℤ) (act : SigAction) (o : Outcome) : Prop :=
  sig ∈ siglist → act.Plain ∧ (o.accepted = true ∨ act.disposition = p.installed sig)

/-- The condition on a step that can be taken. -/
def Process.Sound (p : Process) (a : SigStep) : Prop :=
  p.running = true →
    match a with
    | .sigaction _ none _ => True
    | .sigaction sig (some act) o => p.Installs sig act o
    | .signal sig handler o => p.Installs sig (signalAction handler) o
    | .raise sig reinstated => sig ∈ siglist → (p.sigs sig).RaiseKeeps reinstated
    | .worker sig _ =>
      sig ∈ p.worker.getD [] → sig ∈ siglist → ¬ (p.sigs sig).action.IgnoresOnce

/-! ## Installing an action -/

/-- A call that installs an action, with the record of it. -/
def Process.install (p : Process) (sig : ℤ) (act : SigAction) (o : Outcome) : Process :=
  (sigaction p sig (some act) o).1.record sig act (succeeded (sigaction p sig (some act) o).2)

theorem step_sigaction_some {p : Process} (hrun : p.running = true) (sig : ℤ) (act : SigAction)
    (o : Outcome) : p.step (.sigaction sig (some act) o) = some (p.install sig act o) := by
  simp [Process.step, hrun, Process.install]

/-- `wpdk_signal` is `wpdk_sigaction` with its own action. -/
theorem step_signal {p : Process} (hrun : p.running = true) (sig : ℤ) (handler : Handler)
    (o : Outcome) :
    p.step (.signal sig handler o) = some (p.install sig (signalAction handler) o) := by
  have hsame : (signal p sig handler o).1 = (sigaction p sig (some (signalAction handler)) o).1 ∧
      (signal p sig handler o).2.isSome =
        succeeded (sigaction p sig (some (signalAction handler)) o).2 := by
    unfold signal
    rcases sigaction p sig (some (signalAction handler)) o with ⟨p', (_ | ⟨rc, oact⟩)⟩
    · exact ⟨rfl, rfl⟩
    · by_cases hrc : rc = 0
      · subst hrc
        exact ⟨rfl, rfl⟩
      · simp [succeeded, hrc]
  simp only [Process.step, hrun, if_true, Process.install, hsame.1, hsame.2]

@[simp] theorem signalInit_sigs (p : Process) (o : Outcome) : (p.signalInit o).sigs = p.sigs := by
  unfold Process.signalInit
  split <;> rfl

@[simp] theorem signalInit_installed (p : Process) (o : Outcome) :
    (p.signalInit o).installed = p.installed := by
  unfold Process.signalInit
  split <;> rfl

@[simp] theorem sigaction_installed (p : Process) (sig : ℤ) (act : Option SigAction)
    (o : Outcome) : (sigaction p sig act o).1.installed = p.installed := by
  unfold sigaction
  split
  · rfl
  · cases act with
    | none => exact signalInit_installed p o
    | some act =>
      dsimp only
      split
      · split <;> exact signalInit_installed p o
      · exact signalInit_installed p o

/-- A call leaves the entries of the other signals alone. -/
theorem sigaction_sigs_of_ne (p : Process) {sig sig' : ℤ} (h : sig' ≠ sig)
    (act : Option SigAction) (o : Outcome) :
    (sigaction p sig act o).1.sigs sig' = p.sigs sig' := by
  unfold sigaction
  split
  · rfl
  · cases act with
    | none => simp
    | some act =>
      dsimp only
      split
      · split <;> simp [h]
      · simp [h]

theorem sigaction_none_sigs (p : Process) (sig : ℤ) (o : Outcome) :
    (sigaction p sig none o).1.sigs = p.sigs := by
  unfold sigaction
  split
  · rfl
  · exact signalInit_sigs p o

/-- A call for `SIGINT` or `SIGTERM`: the table is written, the registration follows if the runtime
accepts it. -/
theorem sigaction_of_mem (p : Process) {sig : ℤ} (hsig : sig ∈ siglist) (act : SigAction)
    (o : Outcome) :
    (sigaction p sig (some act) o).1.sigs sig =
        ⟨act, if o.accepted then act.handler.registered else (p.sigs sig).registered⟩ ∧
      succeeded (sigaction p sig (some act) o).2 = o.accepted := by
  have hvalid : ¬ (sig < 1 ∨ nsig ≤ sig) := by
    rcases List.mem_cons.mp hsig with rfl | h
    · decide
    · obtain rfl := List.mem_singleton.mp h
      decide
  have hcrt : sig ∈ crtSignals := by
    rcases List.mem_cons.mp hsig with rfl | h
    · decide
    · obtain rfl := List.mem_singleton.mp h
      decide
  unfold sigaction
  rw [if_neg hvalid]
  dsimp only
  rw [if_pos hcrt]
  cases o.accepted <;> simp [succeeded]

/-- The entries and the record of a signal of the list after a call for it. -/
theorem install_of_mem (p : Process) {sig : ℤ} (hsig : sig ∈ siglist) (act : SigAction)
    (o : Outcome) :
    (p.install sig act o).sigs sig =
        ⟨act, if o.accepted then act.handler.registered else (p.sigs sig).registered⟩ ∧
      (p.install sig act o).installed sig =
        if o.accepted then act.disposition else p.installed sig := by
  obtain ⟨hsigs, hsucc⟩ := sigaction_of_mem p hsig act o
  unfold Process.install Process.record
  rw [hsucc]
  cases hacc : o.accepted with
  | true =>
    rw [hacc] at hsigs
    exact ⟨hsigs, by simp⟩
  | false =>
    rw [hacc] at hsigs
    exact ⟨hsigs, by simp⟩

theorem install_of_ne (p : Process) {sig sig' : ℤ} (h : sig' ≠ sig) (act : SigAction)
    (o : Outcome) :
    (p.install sig act o).sigs sig' = p.sigs sig' ∧
      (p.install sig act o).installed sig' = p.installed sig' := by
  unfold Process.install Process.record
  split <;> simp [h, sigaction_sigs_of_ne]

theorem Handler.registered_suits (act : SigAction) :
    act.handler.registered.Suits act.disposition := by
  obtain ⟨handler, siginfo, resethand⟩ := act
  cases handler with
  | dfl => rfl
  | ign => rfl
  | fn f => trivial

theorem realised_install_iff {p : Process} (h : p.Realised) (sig : ℤ) (act : SigAction)
    (o : Outcome) : (p.install sig act o).Realised ↔ p.Installs sig act o := by
  constructor
  · intro hnew hsig
    have hreal := hnew sig hsig
    rw [(install_of_mem p hsig act o).1, (install_of_mem p hsig act o).2, realises_iff] at hreal
    obtain ⟨hplain, hdisp, -⟩ := hreal
    refine ⟨hplain, ?_⟩
    cases hacc : o.accepted with
    | true => exact Or.inl rfl
    | false =>
      rw [hacc] at hdisp
      exact Or.inr hdisp
  · intro hinst sig' hsig'
    by_cases heq : sig' = sig
    · subst heq
      obtain ⟨hplain, hok⟩ := hinst hsig'
      rw [(install_of_mem p hsig' act o).1, (install_of_mem p hsig' act o).2, realises_iff]
      cases hacc : o.accepted with
      | true => exact ⟨hplain, rfl, Handler.registered_suits act⟩
      | false =>
        rw [hacc] at hok
        have hdisp : act.disposition = p.installed sig' := by simpa using hok
        exact ⟨hplain, hdisp, (realises_iff.mp (h sig' hsig')).2.2⟩
    · rw [(install_of_ne p heq act o).1, (install_of_ne p heq act o).2]
      exact h sig' hsig'

/-! ## Delivering -/

theorem realised_deliver_iff {p : Process} (h : p.Realised) (sig : ℤ) (r : SigState × Effect) :
    (p.deliver sig r).Realised ↔ (sig ∈ siglist → Realises r.1 (p.installed sig).next) := by
  constructor
  · intro hnew hsig
    simpa [Process.deliver] using hnew sig hsig
  · intro hreal sig' hsig'
    by_cases heq : sig' = sig
    · subst heq
      simpa [Process.deliver] using hreal hsig'
    · simpa [Process.deliver, heq] using h sig' hsig'

/-! ## Runs -/

theorem realised_start : Process.start.Realised := fun _ _ =>
  realises_iff.mpr ⟨by simp [SigAction.Plain, Process.start, sigDefault], rfl, rfl⟩

theorem not_step_of_not_running {p p' : Process} {a : SigStep} (hrun : p.running ≠ true) :
    p.step a ≠ some p' := by
  cases a <;> simp [Process.step, hrun]

/-- **One step.**  A step of a process whose dispositions are realised keeps them realised exactly
if it is sound. -/
theorem realised_step_iff {p p' : Process} {a : SigStep} (h : p.Realised)
    (hstep : p.step a = some p') : p'.Realised ↔ p.Sound a := by
  have hrun : p.running = true := by
    by_contra hrun
    exact not_step_of_not_running hrun hstep
  cases a with
  | sigaction sig act o =>
    cases act with
    | none =>
      have hp' : (sigaction p sig none o).1 = p' := by
        simpa [Process.step, hrun] using hstep
      refine iff_of_true (fun sig' hsig' => ?_) (fun _ => trivial)
      rw [← hp', sigaction_none_sigs, sigaction_installed]
      exact h sig' hsig'
    | some act =>
      rw [step_sigaction_some hrun] at hstep
      obtain rfl := Option.some.inj hstep
      rw [realised_install_iff h]
      exact ⟨fun hinst _ => hinst, fun hsound => hsound hrun⟩
  | signal sig handler o =>
    rw [step_signal hrun] at hstep
    obtain rfl := Option.some.inj hstep
    rw [realised_install_iff h]
    exact ⟨fun hinst _ => hinst, fun hsound => hsound hrun⟩
  | raise sig reinstated =>
    simp only [Process.step, hrun, true_and, Option.ite_none_right_eq_some] at hstep
    obtain ⟨hsig, hp'⟩ := hstep
    obtain rfl := Option.some.inj hp'
    rw [realised_deliver_iff h]
    constructor
    · intro hreal _ _
      by_contra hkeeps
      exact not_realises_raise (h sig hsig) hkeeps (hreal hsig)
    · intro hsound _
      exact (h sig hsig).raise (hsound hrun hsig)
  | worker sig reinstated =>
    simp only [Process.step, hrun, true_and, Option.ite_none_right_eq_some] at hstep
    obtain ⟨hwaits, hp'⟩ := hstep
    obtain rfl := Option.some.inj hp'
    rw [realised_deliver_iff h]
    constructor
    · intro hreal _ _ hsig hign
      exact not_realises_signalHandler (h sig hsig) hign reinstated (hreal hsig)
    · intro hsound hsig
      exact (h sig hsig).signalHandler (hsound hrun hwaits hsig) reinstated

/-- A step that is not sound can be taken. -/
theorem exists_step_of_not_sound {p : Process} {a : SigStep} (h : ¬ p.Sound a) :
    ∃ p', p.step a = some p' := by
  obtain ⟨hrun, hnot⟩ := Classical.not_imp.mp h
  cases a with
  | sigaction sig act o =>
    cases act with
    | none => exact absurd trivial hnot
    | some act => exact ⟨_, step_sigaction_some hrun sig act o⟩
  | signal sig handler o => exact ⟨_, step_signal hrun sig handler o⟩
  | raise sig reinstated =>
    obtain ⟨hsig, -⟩ := Classical.not_imp.mp hnot
    exact ⟨_, if_pos ⟨hrun, hsig⟩⟩
  | worker sig reinstated =>
    obtain ⟨hwaits, -⟩ := Classical.not_imp.mp hnot
    exact ⟨_, if_pos ⟨hrun, hwaits⟩⟩

/-- **When the two routes agree.**  Along a run of calls and deliveries, however the calls end, the
entries for `SIGINT` and `SIGTERM` realise the disposition installed by the last successful call
throughout --- a delivery has its effect by either route, and only a function installed for one
call is reset, when it is called --- exactly when every step is sound: no call asks for `SIG_DFL`
or `SIG_IGN` with `SA_SIGINFO`, a call that fails asks for what is installed already, no delivery
reaches `wpdk_signal_handler` while the action is a one-shot `SIG_IGN`, and an action that is to
stay is registered again after a `raise`. -/
theorem realised_iff_sound (steps : List SigStep) :
    Throughout Process.step Process.Realised Process.start steps ↔
      EachStep Process.step Process.Sound Process.start steps := by
  refine throughout_iff_eachStep (I := Process.Realised) (fun _ h => h) ?_ ?_ realised_start
  · intro p a p' h hsound hstep
    exact (realised_step_iff h hstep).mpr hsound
  · intro p a h hsound
    obtain ⟨p', hstep⟩ := exists_step_of_not_sound hsound
    exact ⟨p', hstep, fun hreal => hsound ((realised_step_iff h hstep).mp hreal)⟩

/-- **An ignored signal terminates the process.**  `wpdk_signal(SIGINT, SIG_IGN)` succeeds, and
`SIGINT` arrives twice through the worker.  The first delivery is ignored, but finds the
`SA_RESETHAND` that `wpdk_signal` always sets and writes the default action to the table; the
second one exits. -/
theorem ignored_signal_terminates :
    ∃ p p', exec Process.step Process.start
        [.signal sigint .ign ⟨true, true, fun _ => true⟩, .worker sigint true] = some p ∧
      p.installed sigint = .ignore ∧ (signalHandler (p.sigs sigint) true).2 = .exit ∧
      p.step (.worker sigint true) = some p' ∧ p'.running = false :=
  ⟨_, _, rfl, rfl, rfl, rfl, rfl⟩

end Signal
end Wpdk
