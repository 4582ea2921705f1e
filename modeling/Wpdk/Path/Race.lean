import Wpdk.Base.Ledger
import Wpdk.Base.Once
import Wpdk.Path.Lookup

/-!
# Looking up paths while the table is filled

Every thread that names a file calls `wpdk_get_path`, and the first of them fills the table.  The
function reads `map_init` without the lock, and the loop over the table takes no lock at all: while
`wpdk_init_map` moves entries to insert one of them, nothing but the flag keeps another thread from
reading them.  A name directly under `/` is looked up by a second call from within the first, which
tests the flag again.

A step is one read of `map_init`, one call on the lock, one `wpdk_add_mapping`, or one iteration of
the loop over the table.

* `Args`, `Pc`: a call and where it is.
* `step`: the calls, numbered in the order in which they begin.
* `promise`: what a call will return when the table is complete.  No step changes it.
* `get_path_races_agree`: every call returns what it returns on the complete table.
* `get_path_calls_return`: no call waits for ever.
-/

namespace Wpdk
namespace Path
namespace Race

open Run Once

/-- The arguments of a call, with what follows the path in memory, and what follows the string in
the local array of `wpdk_remap_root_file`. -/
structure Args where
  path : CString
  after : List Char
  len : ℕ
  scratch : List Char

/-- Where a call of `wpdk_get_path` is: on its way through `if (!map_init) wpdk_init_map()`, or
about to look at entry `i`.  `inner` says that it is made by `wpdk_remap_root_file`. -/
inductive Pc where
  | init (a : Args) (inner : Bool) (p : Phase)
  | scan (a : Args) (inner : Bool) (i : ℕ)
  | returned (r : PathResult)

/-- What the outer call returns: the path that the inner one was given is a local array. -/
def leave (inner : Bool) : PathResult → PathResult
  | .path => if inner then .calleeLocal else .path
  | r => r

/-- The beginning of `wpdk_get_path`, up to its first read of `map_init`. -/
def enter (a : Args) (inner : Bool) : Pc :=
  if a.path.chars = [] then .returned (leave inner .path)
  else if maxPath ≤ a.path.strlen then .returned .null
  else .init a inner .test

/-- What follows `if (!map_init) wpdk_init_map()`. -/
def proceed (a : Args) (inner : Bool) : Pc :=
  if rootFile a.path then
    match remapRootFile a.path with
    | none => .returned .null
    | some buf => enter { a with path := buf, after := a.scratch } true
  else .scan a inner 0

/-- The body of the loop for an entry that applies. -/
def rewritten (a : Args) (e : Mapping) : PathResult :=
  match (strcpyS a.len e.dest).bind fun buf =>
      strcatS a.len buf (CString.ofMemory (a.path.memory a.after) e.len) with
  | none => .null
  | some s => .buffer s

/-- One iteration of the loop over the table. -/
def scanned (map : List Mapping) (a : Args) (inner : Bool) (i : ℕ) : Pc :=
  match map[i]? with
  | none => .returned (leave inner .path)
  | some e => if applies a.path a.after e then .returned (rewritten a e) else .scan a inner (i + 1)

/-- The call goes on: with the initialisation, or behind it. -/
def resume (a : Args) (inner : Bool) : Option Phase → Pc
  | some p => .init a inner p
  | none => proceed a inner

/-- The calls of `wpdk_add_mapping` in `wpdk_init_map`. -/
def plan (env : MapEnv) : Plan (List Mapping) (MapRequest × Fate) where
  blank := []
  jobs := (initRequests env).mapIdx fun i r => (r, env.fate i)
  act map call := addMapping map call.1 call.2

/-- `map`, `map_init` and `map_lock`, and the calls with the arguments that they were given. -/
structure State where
  shared : Shared (List Mapping)
  calls : ℕ
  args : ℕ → Args
  pcs : ℕ → Pc

namespace State

/-- No call has been made. -/
def start (env : MapEnv) : State where
  shared := ⟨(plan env).blank, false, none⟩
  calls := 0
  args := fun _ => ⟨CString.lit "", [], 0, []⟩
  pcs := fun _ => .returned .null

/-- A new call, up to its first read of `map_init`. -/
def begin (s : State) (a : Args) : State :=
  { s with
    calls := s.calls + 1
    args := Function.update s.args s.calls a
    pcs := Function.update s.pcs s.calls (enter a false) }

/-- Call `c` is at `pc`. -/
def goto (s : State) (c : ℕ) (pc : Pc) : State := { s with pcs := Function.update s.pcs c pc }

/-- The next step of call `c`. -/
def next (env : MapEnv) (s : State) (c : ℕ) : Option State :=
  match s.pcs c with
  | .init a inner p =>
    (advance (plan env) c s.shared p).map fun out =>
      { s with shared := out.1 }.goto c (resume a inner out.2)
  | .scan a inner i => some (s.goto c (scanned s.shared.value a inner i))
  | .returned _ => none

end State

/-- A call begins, or goes on. -/
inductive Action where
  | begin (a : Args)
  | next (c : ℕ)

/-- One step of a run. -/
def step (env : MapEnv) (s : State) : Action → Option State
  | .begin a => some (s.begin a)
  | .next c => if c < s.calls then s.next env c else none

/-! ## What a call will return -/

/-- What the call returns on a table that does not change. -/
def answer (map : List Mapping) (a : Args) (inner : Bool) : PathResult :=
  leave inner (getPath map a.len a.scratch a.path a.after)

/-- The same from where the call is. -/
def promise (map : List Mapping) : Pc → PathResult
  | .init a inner _ => answer map a inner
  | .scan a inner i => leave inner (lookup (map.drop i) a.len a.path a.after)
  | .returned r => r

section Promise

variable {map : List Mapping} {a : Args} {inner : Bool} {e : Mapping} {i : ℕ}

theorem leave_of_ne {r : PathResult} (h : r ≠ .path) : leave inner r = r := by
  cases r with
  | path => exact absurd rfl h
  | null | buffer _ | calleeLocal => rfl

theorem rewritten_ne_path : rewritten a e ≠ .path := by
  unfold rewritten
  split <;> exact fun h => nomatch h

theorem lookup_nil : lookup [] a.len a.path a.after = .path := rfl

theorem lookup_cons (map : List Mapping) :
    lookup (e :: map) a.len a.path a.after =
      if applies a.path a.after e then rewritten a e else lookup map a.len a.path a.after := by
  cases happlies : applies a.path a.after e with
  | true =>
    rw [lookup, List.find?_cons_of_pos happlies]
    rfl
  | false =>
    rw [lookup, List.find?_cons_of_neg (by rw [happlies]; decide)]
    rfl

/-- **The local tests decide what `wpdk_get_path` decides with them.** -/
theorem promise_enter (map : List Mapping) (a : Args) (inner : Bool) :
    promise map (enter a inner) = answer map a inner := by
  unfold enter answer
  by_cases hnil : a.path.chars = []
  · rw [if_pos hnil, getPath, if_pos hnil]
    rfl
  · rw [if_neg hnil]
    by_cases hlong : maxPath ≤ a.path.strlen
    · rw [if_pos hlong, getPath, if_neg hnil, if_pos hlong]
      rfl
    · rw [if_neg hlong]
      rfl

/-- The call has passed the local tests. -/
def Args.Passes (a : Args) : Prop := a.path.chars ≠ [] ∧ a.path.strlen < maxPath

theorem promise_proceed (map : List Mapping) (inner : Bool) (ha : a.Passes) :
    promise map (proceed a inner) = answer map a inner := by
  unfold proceed
  cases hroot : rootFile a.path with
  | false => exact congrArg (leave inner) (getPath_of_not_rootFile ha.1 ha.2 hroot).symm
  | true =>
    cases hbuf : remapRootFile a.path with
    | none =>
      have hnull : getPath map a.len a.scratch a.path a.after = .null := by
        rw [getPath, if_neg ha.1, if_neg (Nat.not_le_of_lt ha.2), dif_pos hroot]
        split
        · rfl
        · rename_i buf hsome
          rw [hbuf] at hsome
          cases hsome
      rw [answer, hnull]
      rfl
    | some buf =>
      have hinner : getPath map a.len a.scratch a.path a.after =
          leave true (getPath map a.len a.scratch buf a.scratch) := by
        rw [getPath, if_neg ha.1, if_neg (Nat.not_le_of_lt ha.2), dif_pos hroot]
        split
        · rename_i hnone
          rw [hbuf] at hnone
          cases hnone
        · rename_i buf' hsome
          obtain rfl := Option.some.inj (hbuf.symm.trans hsome)
          cases getPath map a.len a.scratch buf a.scratch <;> rfl
      have hne : leave true (getPath map a.len a.scratch buf a.scratch) ≠ .path := by
        cases getPath map a.len a.scratch buf a.scratch <;> exact fun h => nomatch h
      refine (promise_enter map _ true).trans ?_
      rw [answer, answer, hinner, leave_of_ne hne]

theorem scanned_of_none {i : ℕ} (hentry : map[i]? = none) :
    scanned map a inner i = .returned (leave inner .path) := by
  rw [scanned, hentry]

theorem scanned_of_applies {i : ℕ} (hentry : map[i]? = some e)
    (happlies : applies a.path a.after e = true) :
    scanned map a inner i = .returned (rewritten a e) := by
  rw [scanned, hentry]
  exact if_pos happlies

theorem scanned_of_not_applies {i : ℕ} (hentry : map[i]? = some e)
    (happlies : applies a.path a.after e = false) :
    scanned map a inner i = .scan a inner (i + 1) := by
  rw [scanned, hentry]
  exact if_neg (by rw [happlies]; decide)

/-- **An iteration of the loop.** -/
theorem promise_scanned (map : List Mapping) (a : Args) (inner : Bool) (i : ℕ) :
    promise map (scanned map a inner i) = promise map (.scan a inner i) := by
  cases hentry : map[i]? with
  | none =>
    have hrest : map.drop i = [] := List.drop_of_length_le (List.getElem?_eq_none_iff.mp hentry)
    rw [scanned_of_none hentry, promise, promise, hrest, lookup_nil]
  | some e =>
    obtain ⟨hi, hget⟩ := List.getElem?_eq_some_iff.mp hentry
    have hrest : map.drop i = e :: map.drop (i + 1) := by
      rw [List.drop_eq_getElem_cons hi, hget]
    cases happlies : applies a.path a.after e with
    | true =>
      rw [scanned_of_applies hentry happlies, promise, promise, hrest, lookup_cons,
        if_pos happlies, leave_of_ne rewritten_ne_path]
    | false =>
      rw [scanned_of_not_applies hentry happlies, promise, promise, hrest, lookup_cons,
        if_neg (by rw [happlies]; decide)]

theorem promise_resume (map : List Mapping) (inner : Bool) (ha : a.Passes) (p : Option Phase) :
    promise map (resume a inner p) = answer map a inner := by
  cases p with
  | none => exact promise_proceed map inner ha
  | some p => rfl

end Promise

/-! ## What a run keeps -/

/-- Where the call is in the initialisation. -/
def Pc.phase : Pc → Option Phase
  | .init _ _ p => some p
  | .scan _ _ _ | .returned _ => none

/-- Only calls with proper arguments come to the table, and only when it is complete. -/
def Pc.Ok (ready : Bool) : Pc → Prop
  | .init a _ _ => a.Passes
  | .scan _ _ _ => ready = true
  | .returned _ => True

section Ok

variable {a : Args} {inner ready : Bool} {pc : Pc}

theorem Pc.Ok.mono {ready' : Bool} (h : pc.Ok ready) (hready : ready = true → ready' = true) :
    pc.Ok ready' := by
  cases pc with
  | init a inner p => exact h
  | scan a inner i => exact hready h
  | returned r => trivial

theorem enter_cases (a : Args) (inner : Bool) :
    (∃ r, enter a inner = .returned r) ∨ a.Passes ∧ enter a inner = .init a inner .test := by
  unfold enter
  by_cases hnil : a.path.chars = []
  · rw [if_pos hnil]
    exact Or.inl ⟨_, rfl⟩
  · rw [if_neg hnil]
    by_cases hlong : maxPath ≤ a.path.strlen
    · rw [if_pos hlong]
      exact Or.inl ⟨_, rfl⟩
    · rw [if_neg hlong]
      exact Or.inr ⟨⟨hnil, Nat.lt_of_not_le hlong⟩, rfl⟩

theorem ok_enter (a : Args) (inner : Bool) : (enter a inner).Ok ready := by
  obtain ⟨r, hr⟩ | ⟨ha, henter⟩ := enter_cases a inner
  · rw [hr]
    trivial
  · rw [henter]
    exact ha

theorem not_holds_enter (a : Args) (inner : Bool) :
    (enter a inner).phase.any Phase.holds = false := by
  obtain ⟨r, hr⟩ | ⟨-, henter⟩ := enter_cases a inner
  · rw [hr]
    rfl
  · rw [henter]
    rfl

/-- A call that is through with the initialisation returns, begins again, or reads the table. -/
theorem proceed_cases (a : Args) (inner : Bool) :
    proceed a inner = .returned .null ∨
    (∃ buf, rootFile a.path = true ∧ remapRootFile a.path = some buf ∧
      proceed a inner = enter { a with path := buf, after := a.scratch } true) ∨
    rootFile a.path = false ∧ proceed a inner = .scan a inner 0 := by
  unfold proceed
  cases hroot : rootFile a.path with
  | false => exact Or.inr (Or.inr ⟨rfl, rfl⟩)
  | true =>
    cases hbuf : remapRootFile a.path with
    | none => exact Or.inl rfl
    | some buf => exact Or.inr (Or.inl ⟨buf, rfl, rfl, rfl⟩)

theorem ok_proceed (a : Args) (inner : Bool) : (proceed a inner).Ok true := by
  obtain h | ⟨buf, -, -, h⟩ | ⟨-, h⟩ := proceed_cases a inner
  · rw [h]
    trivial
  · rw [h]
    exact ok_enter _ _
  · rw [h]
    rfl

theorem not_holds_proceed (a : Args) (inner : Bool) :
    (proceed a inner).phase.any Phase.holds = false := by
  obtain h | ⟨buf, -, -, h⟩ | ⟨-, h⟩ := proceed_cases a inner
  · rw [h]
    rfl
  · rw [h]
    exact not_holds_enter _ _
  · rw [h]
    rfl

end Ok

theorem scanned_cases (map : List Mapping) (a : Args) (inner : Bool) (i : ℕ) :
    (∃ r, scanned map a inner i = .returned r) ∨
      i < map.length ∧ scanned map a inner i = .scan a inner (i + 1) := by
  cases hentry : map[i]? with
  | none => exact Or.inl ⟨_, scanned_of_none hentry⟩
  | some e =>
    cases happlies : applies a.path a.after e with
    | true => exact Or.inl ⟨_, scanned_of_applies hentry happlies⟩
    | false =>
      exact Or.inr ⟨(List.getElem?_eq_some_iff.mp hentry).1,
        scanned_of_not_applies hentry happlies⟩

/-- What a step of a call can be. -/
theorem next_cases {env : MapEnv} {s s' : State} {c : ℕ} (h : s.next env c = some s') :
    (∃ a inner p x p', s.pcs c = .init a inner p ∧
      advance (plan env) c s.shared p = some (x, p') ∧
        s' = { s with shared := x }.goto c (resume a inner p')) ∨
    (∃ a inner i, s.pcs c = .scan a inner i ∧
      s' = s.goto c (scanned s.shared.value a inner i)) := by
  unfold State.next at h
  cases hpc : s.pcs c with
  | init a inner p =>
    rw [hpc] at h
    obtain ⟨⟨x, p'⟩, hout, rfl⟩ := Option.map_eq_some_iff.mp h
    exact Or.inl ⟨a, inner, p, x, p', rfl, hout, rfl⟩
  | scan a inner i =>
    rw [hpc] at h
    exact Or.inr ⟨a, inner, i, rfl, (Option.some.inj h).symm⟩
  | returned r =>
    rw [hpc] at h
    cases h

/-- What a run keeps. -/
structure Inv (env : MapEnv) (s : State) : Prop where
  once : Once.Inv (plan env) s.shared fun c => (s.pcs c).phase
  ok : ∀ c, (s.pcs c).Ok s.shared.ready
  idle : ∀ c, s.calls ≤ c → (s.pcs c).phase = none
  promises : ∀ c, c < s.calls →
    promise (initMap env) (s.pcs c) = answer (initMap env) (s.args c) false

theorem inv_start (env : MapEnv) : Inv env (State.start env) where
  once := Once.inv_start (plan env)
  ok _ := trivial
  idle _ _ := rfl
  promises c hc := absurd hc (Nat.not_lt_zero c)

theorem phase_update (pcs : ℕ → Pc) (c : ℕ) (pc : Pc) :
    (fun d => (Function.update pcs c pc d).phase) =
      Function.update (fun d => (pcs d).phase) c pc.phase :=
  Function.comp_update Pc.phase pcs c pc

namespace Inv

variable {env : MapEnv} {s s' : State} {c : ℕ}

/-- The table is complete when the flag is set. -/
theorem value_of_ready (h : Inv env s) (hready : s.shared.ready = true) :
    s.shared.value = initMap env :=
  h.once.value_of_ready hready

/-- A step of one call. -/
theorem goto (h : Inv env s) (hc : c < s.calls) {x : Shared (List Mapping)} {pc : Pc}
    (honce : Once.Inv (plan env) x (Function.update (fun d => (s.pcs d).phase) c pc.phase))
    (hready : s.shared.ready = true → x.ready = true) (hok : pc.Ok x.ready)
    (hpromise : promise (initMap env) pc = promise (initMap env) (s.pcs c)) :
    Inv env ({ s with shared := x }.goto c pc) where
  once := by
    rw [← phase_update] at honce
    exact honce
  ok d := by
    dsimp only [State.goto]
    by_cases hd : d = c
    · rw [hd, Function.update_self]
      exact hok
    · rw [Function.update_of_ne hd]
      exact (h.ok d).mono hready
  idle d hd := by
    have hne : d ≠ c := fun heq => absurd hc (Nat.not_lt_of_le (heq ▸ hd))
    exact (congrArg Pc.phase (Function.update_of_ne hne pc s.pcs)).trans (h.idle d hd)
  promises d hd := by
    by_cases hdc : d = c
    · subst hdc
      exact (congrArg (promise _) (Function.update_self d pc s.pcs)).trans
        (hpromise.trans (h.promises d hd))
    · exact (congrArg (promise _) (Function.update_of_ne hdc pc s.pcs)).trans (h.promises d hd)

/-- **A step of a call.** -/
theorem next (h : Inv env s) (hc : c < s.calls) (hstep : s.next env c = some s') : Inv env s' := by
  have hok := h.ok c
  obtain ⟨a, inner, p, x, p', hpc, hadv, rfl⟩ | ⟨a, inner, i, hpc, rfl⟩ := next_cases hstep
  · have hphase : (s.pcs c).phase = some p := by rw [hpc]; rfl
    rw [hpc] at hok
    have hpromise : promise (initMap env) (resume a inner p') =
        promise (initMap env) (s.pcs c) := by
      rw [promise_resume _ inner hok, hpc]
      rfl
    have honce := h.once.advance hphase hadv
    refine h.goto hc ?_ (fun hready => ready_advance hready hadv) ?_ hpromise
    · cases p' with
      | some q => exact honce
      | none =>
        -- the thread has given the lock back, and may begin again
        have hfree := honce.release (c := c) (by rw [Function.update_self]; rfl)
          (not_holds_proceed a inner)
        rwa [Function.update_idem] at hfree
    · cases p' with
      | some q => exact hok
      | none =>
        rw [h.once.ready_of_advance hphase hadv]
        exact ok_proceed a inner
  · rw [hpc] at hok
    have hvalue := h.value_of_ready hok
    have hphase : (s.pcs c).phase = none := by rw [hpc]; rfl
    have hpromise : promise (initMap env) (scanned s.shared.value a inner i) =
        promise (initMap env) (s.pcs c) := by
      rw [hvalue, promise_scanned, hpc]
    refine h.goto (x := s.shared) hc ?_ id ?_ hpromise
    · refine h.once.release (by rw [hphase]; rfl) ?_
      obtain ⟨r, hr⟩ | ⟨-, hr⟩ := scanned_cases s.shared.value a inner i <;> rw [hr] <;> rfl
    · obtain ⟨r, hr⟩ | ⟨-, hr⟩ := scanned_cases s.shared.value a inner i
      · rw [hr]
        trivial
      · rw [hr]
        exact hok

/-- A call begins. -/
theorem begin (h : Inv env s) (a : Args) : Inv env (s.begin a) where
  once := by
    have honce := h.once.release (c := s.calls) (by rw [h.idle _ (Nat.le_refl _)]; rfl)
      (not_holds_enter a false)
    rw [← phase_update] at honce
    exact honce
  ok d := by
    dsimp only [State.begin]
    by_cases hd : d = s.calls
    · rw [hd, Function.update_self]
      exact ok_enter a false
    · rw [Function.update_of_ne hd]
      exact h.ok d
  idle d hd := by
    dsimp only [State.begin] at hd ⊢
    rw [Function.update_of_ne (Nat.ne_of_gt hd)]
    exact h.idle d (Nat.le_of_succ_le hd)
  promises d hd := by
    dsimp only [State.begin] at hd ⊢
    by_cases hdc : d = s.calls
    · rw [hdc, Function.update_self, Function.update_self, promise_enter]
    · rw [Function.update_of_ne hdc, Function.update_of_ne hdc]
      exact h.promises d (Nat.lt_of_le_of_ne (Nat.le_of_lt_succ hd) hdc)

theorem step (h : Inv env s) {a : Action} (hstep : step env s a = some s') : Inv env s' := by
  cases a with
  | begin a =>
    obtain rfl := Option.some.inj hstep
    exact h.begin a
  | next c =>
    by_cases hc : c < s.calls
    · rw [Race.step, if_pos hc] at hstep
      exact h.next hc hstep
    · rw [Race.step, if_neg hc] at hstep
      cases hstep

end Inv

variable {env : MapEnv} {s : State} {actions : List Action}

theorem inv_run (h : exec (step env) (State.start env) actions = some s) : Inv env s :=
  exec_invariant (fun _ _ _ hinv hstep => hinv.step hstep) (inv_start env) h

/-- **Every call gets the same answer as if it were alone**: in every interleaving of any number of
calls, what a call returns is what `wpdk_get_path` returns on the complete table, whoever fills it
and whenever; and the table is complete as soon as `map_init` is set. -/
theorem get_path_races_agree (h : exec (step env) (State.start env) actions = some s) :
    (∀ c r, c < s.calls → s.pcs c = .returned r →
      r = getPath (initMap env) (s.args c).len (s.args c).scratch (s.args c).path
        (s.args c).after) ∧
      (s.shared.ready = true → s.shared.value = initMap env) := by
  have hinv := inv_run h
  refine ⟨fun c r hc hpc => ?_, hinv.value_of_ready⟩
  have hpromise := hinv.promises c hc
  rw [hpc, promise, answer] at hpromise
  rw [hpromise]
  cases getPath (initMap env) (s.args c).len (s.args c).scratch (s.args c).path (s.args c).after <;>
    rfl

/-- Two calls find the flag clear; the second one, for a name directly under `/`, gets the lock when
the table is complete. -/
def twoLookups : List Action :=
  [.begin ⟨CString.lit "/tmp/x", [], 260, []⟩, .begin ⟨CString.lit "/f", [], 260, []⟩,
    .next 0, .next 0, .next 1, .next 0, .next 0, .next 0, .next 0, .next 0,
    .next 1, .next 0, .next 0, .next 1, .next 1, .next 1, .next 1, .next 1]

theorem get_path_races_agree_two :
    ∃ s, exec (step (tmpOnly (CString.lit "T"))) (State.start (tmpOnly (CString.lit "T")))
        twoLookups = some s ∧ s.calls = 2 ∧
      s.pcs 0 = .returned (.buffer (CString.lit "T/x")) ∧
      s.pcs 1 = .returned (.buffer (CString.lit "T/f")) ∧
      (∀ c r, c < s.calls → s.pcs c = .returned r →
        r = getPath (initMap (tmpOnly (CString.lit "T"))) (s.args c).len (s.args c).scratch
          (s.args c).path (s.args c).after) ∧
      s.shared.value = initMap (tmpOnly (CString.lit "T")) :=
  ⟨_, rfl, rfl, rfl, rfl, (@get_path_races_agree _ _ twoLookups rfl).1,
    (@get_path_races_agree _ _ twoLookups rfl).2 rfl⟩

/-! ## The end of a run -/

/-- A bound for the steps of a call behind the initialisation: a name directly under `/` goes
through all of it once more. -/
def behind (env : MapEnv) (a : Args) : ℕ :=
  if rootFile a.path then (plan env).weight (some .test) + (initMap env).length + 2
  else (initMap env).length + 1

/-- A bound for the steps that a call has to take. -/
def weight (env : MapEnv) : Pc → ℕ
  | .init a _ p => (plan env).weight (some p) + behind env a
  | .scan _ _ i => (initMap env).length - i + 1
  | .returned _ => 0

theorem behind_le (env : MapEnv) (a : Args) :
    behind env a ≤ (plan env).weight (some .test) + (initMap env).length + 2 := by
  unfold behind
  split <;> omega

theorem weight_enter_le (env : MapEnv) (a : Args) (inner : Bool) :
    weight env (enter a inner) ≤ (plan env).weight (some .test) + behind env a := by
  obtain ⟨r, hr⟩ | ⟨-, henter⟩ := enter_cases a inner
  · rw [hr]
    exact Nat.zero_le _
  · rw [henter]
    exact Nat.le_of_eq rfl

theorem weight_proceed_le (env : MapEnv) (a : Args) (inner : Bool) :
    weight env (proceed a inner) ≤ behind env a := by
  obtain h | ⟨buf, hroot, hbuf, h⟩ | ⟨hroot, h⟩ := proceed_cases a inner
  · rw [h]
    exact Nat.zero_le _
  · have hle := weight_enter_le env { a with path := buf, after := a.scratch } true
    rw [behind, if_neg (by rw [rootFile_of_remapRootFile hroot hbuf]; decide)] at hle
    rw [h, behind, if_pos hroot]
    omega
  · rw [h, behind, if_neg (by rw [hroot]; decide)]
    exact Nat.le_of_eq rfl

theorem weight_resume_le (env : MapEnv) (a : Args) (inner : Bool) (p : Option Phase) :
    weight env (resume a inner p) ≤ (plan env).weight p + behind env a := by
  cases p with
  | some p => exact Nat.le_of_eq rfl
  | none => exact Nat.le_trans (weight_proceed_le env a inner) (Nat.le_add_left _ _)

/-- **A step brings a call nearer to its end.** -/
theorem weight_next_lt (h : Inv env s) {s' : State} {c : ℕ} (hstep : s.next env c = some s') :
    ∃ x pc, s' = { s with shared := x }.goto c pc ∧ weight env pc < weight env (s.pcs c) := by
  have hok := h.ok c
  obtain ⟨a, inner, p, x, p', hpc, hadv, rfl⟩ | ⟨a, inner, i, hpc, rfl⟩ := next_cases hstep
  · have hle := weight_resume_le env a inner p'
    have hlt := weight_advance_lt hadv
    refine ⟨x, resume a inner p', rfl, ?_⟩
    rw [hpc, weight]
    omega
  · rw [hpc] at hok
    have hvalue := h.value_of_ready hok
    refine ⟨s.shared, _, rfl, ?_⟩
    rw [hpc]
    obtain ⟨r, hr⟩ | ⟨hi, hr⟩ := scanned_cases s.shared.value a inner i
    · rw [hr]
      exact Nat.succ_pos _
    · rw [hvalue] at hi
      rw [hr, weight, weight]
      omega

/-- What a call costs, with its beginning. -/
def price (env : MapEnv) : ℕ :=
  2 * (initRequests env).length + (initMap env).length + 13

theorem weight_begin_lt (env : MapEnv) (a : Args) : weight env (enter a false) < price env := by
  have hle := weight_enter_le env a false
  have hbehind := behind_le env a
  have htest : (plan env).weight (some .test) = (initRequests env).length + 5 :=
    congrArg (· + 5) List.length_mapIdx
  rw [price]
  omega

/-- Along a run, every step is paid for by the beginning of a call. -/
theorem length_run_le (h : exec (step env) (State.start env) actions = some s) :
    actions.length + total (weight env) s.pcs s.calls ≤ s.calls * price env := by
  have hstep : ∀ (s : State) (a : Action) (s' : State), Inv env s → step env s a = some s' →
      Inv env s' ∧ total (weight env) s'.pcs s'.calls + s.calls * price env + 1 ≤
        total (weight env) s.pcs s.calls + s'.calls * price env := by
    intro s a s' hinv hstep
    refine ⟨hinv.step hstep, ?_⟩
    cases a with
    | begin a =>
      obtain rfl := Option.some.inj hstep
      have hprice := weight_begin_lt env a
      have hpush := total_push (weight env) s.pcs s.calls (enter a false)
      dsimp only [State.begin]
      rw [hpush, Nat.succ_mul]
      omega
    | next c =>
      by_cases hc : c < s.calls
      · rw [step, if_pos hc] at hstep
        obtain ⟨x, pc, rfl, hlt⟩ := weight_next_lt hinv hstep
        have hupdate := total_update (weight env) s.pcs hc pc
        dsimp only [State.goto]
        omega
      · rw [step, if_neg hc] at hstep
        cases hstep
  have hrun := length_le_of_exec hstep (inv_start env) h
  dsimp only [State.start] at hrun
  rw [total_zero] at hrun
  omega

/-- A call that has not returned waits for another one at most. -/
theorem exists_next (h : Inv env s) {c : ℕ} (hc : c < s.calls)
    (hpc : ∀ r, s.pcs c ≠ .returned r) : ∃ d, (step env s (.next d)).isSome = true := by
  cases hpcs : s.pcs c with
  | init a inner p =>
    obtain ⟨d, q, hd, hsome⟩ := h.once.exists_advance (c := c) (p := p) (by rw [hpcs]; rfl)
    have hlt : d < s.calls := by
      refine Nat.lt_of_not_le fun hle => ?_
      rw [h.idle d hle] at hd
      cases hd
    refine ⟨d, ?_⟩
    rw [step, if_pos hlt, State.next]
    cases hpd : s.pcs d with
    | init a' inner' q' =>
      rw [hpd] at hd
      obtain rfl := Option.some.inj hd
      exact Option.isSome_map.trans hsome
    | scan a' inner' i =>
      rw [hpd] at hd
      cases hd
    | returned r =>
      rw [hpd] at hd
      cases hd
  | scan a inner i =>
    refine ⟨c, ?_⟩
    rw [step, if_pos hc, State.next, hpcs]
    rfl
  | returned r => exact absurd hpcs (hpc r)

/-- **All calls return**, under every scheduler: a run has a number of steps that the number of its
calls bounds, and one that cannot go on has left no call behind, at the lock or anywhere else. -/
theorem get_path_calls_return (h : exec (step env) (State.start env) actions = some s) :
    actions.length ≤ s.calls * (2 * (initRequests env).length + (initMap env).length + 13) ∧
      ((∀ d, step env s (.next d) = none) → ∀ c, c < s.calls → ∃ r, s.pcs c = .returned r) := by
  refine ⟨Nat.le_trans (Nat.le_add_right _ _) (length_run_le h), fun hstuck c hc => ?_⟩
  by_contra hno
  obtain ⟨d, hd⟩ := exists_next (inv_run h) hc fun r hr => hno ⟨r, hr⟩
  rw [hstuck d] at hd
  cases hd

/-- A run of two calls that cannot go on. -/
theorem get_path_calls_return_two :
    ∃ s, exec (step (tmpOnly (CString.lit "T"))) (State.start (tmpOnly (CString.lit "T")))
        twoLookups = some s ∧ s.calls = 2 ∧
      (∀ d, step (tmpOnly (CString.lit "T")) s (.next d) = none) ∧
      ∀ c, c < s.calls → ∃ r, s.pcs c = .returned r := by
  obtain ⟨s, hrun, hcalls, h0, h1⟩ : ∃ s, exec (step (tmpOnly (CString.lit "T")))
      (State.start (tmpOnly (CString.lit "T"))) twoLookups = some s ∧ s.calls = 2 ∧
      s.pcs 0 = .returned (.buffer (CString.lit "T/x")) ∧
      s.pcs 1 = .returned (.buffer (CString.lit "T/f")) := ⟨_, rfl, rfl, rfl, rfl⟩
  have hstuck : ∀ d, step (tmpOnly (CString.lit "T")) s (.next d) = none := by
    intro d
    rw [step, State.next, hcalls]
    match d with
    | 0 => rw [h0, ite_self]
    | 1 => rw [h1, ite_self]
    | d + 2 => exact if_neg (Nat.not_lt.mpr (Nat.le_add_left 2 d))
  exact ⟨s, hrun, hcalls, hstuck, (get_path_calls_return hrun).2 hstuck⟩

end Race
end Path
end Wpdk
