import Wpdk.Getopt.Handling

/-!
# Options on a list

What the calls are for is said more simply without an argument vector: go through a list, take what
belongs to options, put operands aside, and at the end put them in front of what is left.  There is
no index of a block and nothing is exchanged.

The argument vector represents such a list.  As long as no operand was met, what was taken is what
is in front of `optind`.  Operands that were met stand behind it, and options that were found later
stand behind those, up to the moment in which the next operand is met and the blocks are exchanged.

* `Parse`, `Parse.call`: the list and a call on it.
* `Represents`: the argument vector of a list, in its three forms.
* `Represents.skip`, `Represents.finish`, `Represents.foundOption`, `Represents.finishMarked`,
  `Represents.take`, `Represents.handle`: what the parts of a call do to it.
* `represents_call`: a call on the argument vector does what the call on the list does.
-/

namespace Wpdk
namespace Getopt

/-- The arguments that were used up, the operands that were put aside, and the cursor at the first
of the arguments that are left. -/
structure Parse where
  taken : List CString
  skipped : List CString
  cur : Cursor

namespace Parse

/-- The arguments that a cursor has used up are taken. -/
def advance (p : Parse) (c : Cursor) : Parse where
  taken := p.taken ++ c.nargv.take c.optind
  skipped := p.skipped
  cur := { c with nargv := c.nargv.drop c.optind, optind := 0 }

/-- An option is handled. -/
def handle (options : List Char) (longs : Option (List LongOption)) (longOnly : Bool) (p : Parse) :
    Parse × ℤ :=
  let out := nextOption options longs longOnly p.cur
  (p.advance out.1, out.2)

/-- The operands that were put aside are put in front of the arguments that are left. -/
def close (p : Parse) : Parse :=
  ⟨p.taken, [], { p.cur with nargv := p.skipped ++ p.cur.nargv, place := emsg }⟩

/-- An operand is put aside. -/
def skip (p : Parse) (arg : CString) (rest : List CString) : Parse :=
  ⟨p.taken, p.skipped ++ [arg], { p.cur with nargv := rest, place := emsg }⟩

/-- An argument is taken. -/
def take (p : Parse) (arg : CString) (rest : List CString) : Parse :=
  ⟨p.taken ++ [arg], p.skipped, { p.cur with nargv := rest, place := emsg }⟩

/-- The next option, with the arguments that are left. -/
def scan (m : Mode) (longs : Option (List LongOption)) (longOnly : Bool) :
    List CString → Parse → Parse × ℤ
  | [], p => (p.close, -1)
  | arg :: rest, p =>
    if isOperand m.options arg then
      if m.allArgs then
        ({ p.take arg rest with
          cur := { (p.take arg rest).cur with optarg := some arg.chars } }, inorder)
      else if m.permute = false then ({ p with cur := p.cur.goTo emsg }, -1)
      else scan m longs longOnly rest (p.skip arg rest)
    else if arg.chars = ['-', '-'] then ((p.take arg rest).close, -1)
    else
      handle m.options longs longOnly
        { p with cur := p.cur.goTo ⟨arg.chars, if arg.strlen = 1 then 0 else 1⟩ }

/-- The next option, or the next letter. -/
def proceed (m : Mode) (longs : Option (List LongOption)) (longOnly : Bool) (p : Parse) :
    Parse × ℤ :=
  if p.cur.place.chars = [] then p.scan m longs longOnly p.cur.nargv
  else p.handle m.options longs longOnly

/-- `optarg = NULL`. -/
def begin (p : Parse) : Parse := { p with cur := { p.cur with optarg := none } }

/-- A call. -/
def call (m : Mode) (longs : Option (List LongOption)) (longOnly : Bool) (p : Parse) : Parse × ℤ :=
  p.begin.proceed m longs longOnly

end Parse

/-! ## The argument vector -/

/-- **The argument vector is a list of arguments**: those that were taken, with the operands that
were put aside among them, and those that are left.  Nothing was put aside, or the operands are the
last that were met, or there were options behind them. -/
inductive Represents (options : List Char) (posix : Option Bool) : State → Parse → Prop where
  | plain {taken : List CString} {c : Cursor} (h0 : c.optind = 0) :
    Represents options posix ⟨c.shift taken, none, none, posix⟩ ⟨taken, [], c⟩
  | skipping {taken skipped : List CString} {c : Cursor} (h0 : c.optind = 0)
    (hplace : c.place.chars = []) (hskipped : skipped ≠ []) :
    Represents options posix ⟨c.shift (taken ++ skipped), some taken.length, none, posix⟩
      ⟨taken, skipped, c⟩
  | behind {old skipped new : List CString} {c : Cursor} (h0 : c.optind = 0)
    (hskipped : skipped ≠ [])
    (hopt : ∃ arg rest, new ++ c.nargv = arg :: rest ∧ isOperand options arg = false) :
    Represents options posix
      ⟨c.shift (old ++ skipped ++ new), some old.length, some (old.length + skipped.length), posix⟩
      ⟨old ++ new, skipped, c⟩

section Steps

variable {options : List Char} {posix : Option Bool} {s : State} {p : Parse}

theorem Represents.optind_eq_zero (h : Represents options posix s p) : p.cur.optind = 0 := by
  cases h <;> assumption

/-- What is left of the argument vector. -/
theorem Represents.drop_eq (h : Represents options posix s p) :
    s.nargv.drop s.optind = p.cur.nargv ∧ s.nargv.length - s.optind = p.cur.nargv.length := by
  have hshift : ∀ (pre : List CString) (c : Cursor), c.optind = 0 →
      (c.shift pre).nargv.drop (c.shift pre).optind = c.nargv ∧
        (c.shift pre).nargv.length - (c.shift pre).optind = c.nargv.length := by
    intro pre c h0
    have hind : (c.shift pre).optind = pre.length := by
      change pre.length + c.optind = _
      rw [h0, Nat.add_zero]
    have hargv : (c.shift pre).nargv = pre ++ c.nargv := rfl
    rw [hind, hargv, List.drop_left, List.length_append, Nat.add_sub_cancel_left]
    exact ⟨rfl, rfl⟩
  cases h with
  | plain h0 => exact hshift _ _ h0
  | skipping h0 hplace hskipped => exact hshift _ _ h0
  | behind h0 hskipped hopt => exact hshift _ _ h0

/-- The operands that were skipped and the options behind them change places. -/
theorem permute_behind (old : List CString) {skipped new : List CString} (rest : List CString)
    (hskipped : skipped ≠ []) (hnew : new ≠ []) :
    permuteArgs old.length (old.length + skipped.length) ((old ++ skipped ++ new).length)
      (old ++ skipped ++ new ++ rest) = old ++ new ++ skipped ++ rest := by
  rw [List.length_append, List.length_append]
  exact permuteArgs_append old rest hskipped hnew

theorem Represents.skip (h : Represents options posix s p) {arg : CString} {rest : List CString}
    (hrest : p.cur.nargv = arg :: rest) (hopnd : isOperand options arg = true) :
    Represents options posix s.skip (p.skip arg rest) := by
  cases h with
  | plain h0 =>
    rename_i taken c
    dsimp only at hrest
    have hs : State.skip ⟨c.shift taken, none, none, posix⟩ =
        ⟨({ c with nargv := rest, place := emsg } : Cursor).shift (taken ++ [arg]),
          some taken.length, none, posix⟩ := by
      simp [State.skip, Cursor.shift, h0, hrest]
    rw [hs]
    exact .skipping h0 rfl (List.cons_ne_nil _ _)
  | skipping h0 hplace hskipped =>
    rename_i taken skipped c
    dsimp only at hrest
    have hs : State.skip ⟨c.shift (taken ++ skipped), some taken.length, none, posix⟩ =
        ⟨({ c with nargv := rest, place := emsg } : Cursor).shift (taken ++ (skipped ++ [arg])),
          some taken.length, none, posix⟩ := by
      simp [State.skip, Cursor.shift, h0, hrest, Nat.add_assoc]
    rw [hs]
    exact .skipping h0 rfl (List.append_ne_nil_of_right_ne_nil _ (List.cons_ne_nil _ _))
  | behind h0 hskipped hopt =>
    rename_i old skipped new c
    dsimp only at hrest
    -- the first argument behind the operands is an option, so that it is not this one
    have hnew : new ≠ [] := by
      rintro rfl
      obtain ⟨a, l, ha, hno⟩ := hopt
      rw [List.nil_append, hrest] at ha
      cases ha
      rw [hopnd] at hno
      cases hno
    have hs : State.skip ⟨c.shift (old ++ skipped ++ new), some old.length,
          some (old.length + skipped.length), posix⟩ =
        ⟨({ c with nargv := rest, place := emsg } : Cursor).shift
            (old ++ new ++ (skipped ++ [arg])), some (old ++ new).length, none, posix⟩ := by
      have hperm := permute_behind old c.nargv hskipped hnew
      simp only [State.skip, Cursor.shift, h0, Nat.add_zero]
      rw [hperm, hrest]
      simp
      omega
    rw [hs]
    exact .skipping h0 rfl (List.append_ne_nil_of_right_ne_nil _ (List.cons_ne_nil _ _))

theorem Represents.finish (h : Represents options posix s p) (hrest : p.cur.nargv = []) :
    Represents options posix s.finish p.close := by
  cases h with
  | plain h0 =>
    rename_i taken c
    dsimp only at hrest
    have hs : State.finish ⟨c.shift taken, none, none, posix⟩ =
        ⟨({ c with nargv := [] ++ c.nargv, place := emsg } : Cursor).shift taken, none,
          none, posix⟩ :=
      rfl
    rw [hs]
    exact .plain h0
  | skipping h0 hplace hskipped =>
    rename_i taken skipped c
    dsimp only at hrest
    have hs : State.finish ⟨c.shift (taken ++ skipped), some taken.length, none, posix⟩ =
        ⟨({ c with nargv := skipped ++ c.nargv, place := emsg } : Cursor).shift taken, none, none,
          posix⟩ := by
      simp [State.finish, State.reset, Cursor.shift, h0, hrest]
    rw [hs]
    exact .plain h0
  | behind h0 hskipped hopt =>
    rename_i old skipped new c
    dsimp only at hrest
    have hnew : new ≠ [] := by
      rintro rfl
      obtain ⟨a, l, ha, -⟩ := hopt
      rw [hrest] at ha
      cases ha
    have hs : State.finish ⟨c.shift (old ++ skipped ++ new), some old.length,
          some (old.length + skipped.length), posix⟩ =
        ⟨({ c with nargv := skipped ++ c.nargv, place := emsg } : Cursor).shift (old ++ new), none,
          none, posix⟩ := by
      have hperm := permute_behind old c.nargv hskipped hnew
      simp only [State.finish, State.exchange, State.reset, Cursor.shift, h0, Nat.add_zero]
      rw [hperm]
      simp
      omega
    rw [hs]
    exact .plain h0

/-- An option is found. -/
theorem Represents.foundOption (h : Represents options posix s p) {arg : CString}
    {rest : List CString}
    (hrest : p.cur.nargv = arg :: rest) (hopt : isOperand options arg = false) (place : Place) :
    Represents options posix { s.foundOption with place := place }
      { p with cur := p.cur.goTo place } := by
  cases h with
  | plain h0 =>
    rename_i taken c
    exact .plain (c := c.goTo place) h0
  | skipping h0 hplace hskipped =>
    rename_i taken skipped c
    have hs : ({ State.foundOption ⟨c.shift (taken ++ skipped), some taken.length, none, posix⟩ with
          place := place } : State) =
        ⟨(c.goTo place).shift (taken ++ skipped ++ []), some taken.length,
          some (taken.length + skipped.length), posix⟩ := by
      simp [State.foundOption, Cursor.shift, Cursor.goTo, h0]
    rw [hs]
    have hbehind := @Represents.behind options posix taken skipped [] (c.goTo place) h0 hskipped
      ⟨arg, rest, hrest, hopt⟩
    rwa [List.append_nil taken] at hbehind
  | behind h0 hskipped hopt' =>
    rename_i old skipped new c
    exact .behind (c := c.goTo place) h0 hskipped hopt'

/-- The arguments that a cursor has used up, put in front of those that are left. -/
theorem shift_advance (pre : List CString) {c : Cursor} (hle : c.optind ≤ c.nargv.length) :
    c.shift pre =
      ({ c with nargv := c.nargv.drop c.optind, optind := 0 } : Cursor).shift
        (pre ++ c.nargv.take c.optind) := by
  simp only [Cursor.shift, List.append_assoc, List.take_append_drop, List.length_append,
    List.length_take, Nat.min_eq_left hle, Nat.add_zero]

/-- An option is handled. -/
theorem Represents.handle (h : Represents options posix s p) (hplace : p.cur.place.chars ≠ [])
    {longs : Option (List LongOption)} {longOnly : Bool}
    (hnargv : (nextOption options longs longOnly p.cur).1.nargv = p.cur.nargv)
    (hle : (nextOption options longs longOnly p.cur).1.optind ≤ p.cur.nargv.length) :
    Represents options posix (s.handle options longs longOnly).1
        (p.handle options longs longOnly).1 ∧
      (s.handle options longs longOnly).2 = (p.handle options longs longOnly).2 := by
  cases h with
  | plain h0 =>
    rename_i taken c
    dsimp only at hnargv hle
    unfold State.handle
    dsimp only
    rw [nextOption_shift]
    refine ⟨?_, rfl⟩
    dsimp only [shiftOut]
    rw [shift_advance _ (hnargv ▸ hle)]
    exact .plain rfl
  | skipping h0 hempty hskipped => exact absurd hempty hplace
  | behind h0 hskipped hopt =>
    rename_i old skipped new c
    dsimp only at hnargv hle
    unfold State.handle
    dsimp only
    rw [nextOption_shift]
    refine ⟨?_, rfl⟩
    dsimp only [shiftOut]
    rw [shift_advance _ (hnargv ▸ hle), List.append_assoc (old ++ skipped)]
    unfold Parse.handle Parse.advance
    dsimp only
    rw [List.append_assoc old new]
    generalize nextOption options longs longOnly c = out at hnargv
    refine .behind (c := { out.1 with nargv := out.1.nargv.drop out.1.optind, optind := 0 }) rfl
      hskipped ?_
    rwa [List.append_assoc, List.take_append_drop, hnargv]

/-- Operands that were skipped have an end once an option is found. -/
theorem nonoptEnd_foundOption (s : State) :
    s.foundOption.nonoptEnd = none → s.foundOption.nonoptStart = none := by
  unfold State.foundOption
  cases hfirst : s.nonoptStart with
  | none => exact fun _ => hfirst
  | some first =>
    cases hlast : s.nonoptEnd with
    | none => exact fun h => nomatch h
    | some last =>
      intro h
      rw [hlast] at h
      cases h

/-- `--` is found. -/
theorem Represents.finishMarked (h : Represents options posix s p) {arg : CString}
    {rest : List CString}
    (hrest : p.cur.nargv = arg :: rest) (hopt : isOperand options arg = false) :
    Represents options posix s.foundOption.finishMarked (p.take arg rest).close := by
  have hend := nonoptEnd_foundOption s
  have h' := h.foundOption hrest hopt emsg
  have hs : s.foundOption.finishMarked =
      ({ s.foundOption with place := emsg } : State).finishMarked :=
    rfl
  have hp : (p.take arg rest).close =
      (({ p with cur := p.cur.goTo emsg } : Parse).take arg rest).close := rfl
  rw [hs, hp]
  have hrest' : ({ p with cur := p.cur.goTo emsg } : Parse).cur.nargv = arg :: rest := hrest
  have hend' : ({ s.foundOption with place := emsg } : State).nonoptEnd = none →
      ({ s.foundOption with place := emsg } : State).nonoptStart = none := hend
  generalize ({ s.foundOption with place := emsg } : State) = s' at h' hend'
  generalize ({ p with cur := p.cur.goTo emsg } : Parse) = p' at h' hrest'
  clear hs hp hend h hrest
  cases h' with
  | plain h0 =>
    rename_i taken c
    dsimp only at hrest'
    have hs : State.finishMarked ⟨c.shift taken, none, none, posix⟩ =
        ⟨({ c with nargv := [] ++ rest, place := emsg } : Cursor).shift (taken ++ [arg]), none,
          none,
          posix⟩ := by
      simp [State.finishMarked, State.exchange, State.reset, Cursor.shift, h0, hrest']
    rw [hs]
    exact .plain h0
  | skipping h0 hplace hskipped => cases hend' rfl
  | behind h0 hskipped hopt' =>
    rename_i old skipped new c
    dsimp only at hrest'
    have hs : State.finishMarked ⟨c.shift (old ++ skipped ++ new), some old.length,
          some (old.length + skipped.length), posix⟩ =
        ⟨({ c with nargv := skipped ++ rest, place := emsg } : Cursor).shift
          (old ++ new ++ [arg]), none, none, posix⟩ := by
      have hnew : new ++ [arg] ≠ [] :=
        List.append_ne_nil_of_right_ne_nil _ (List.cons_ne_nil _ _)
      have hperm := permute_behind old rest hskipped hnew
      have hind : (old ++ skipped ++ (new ++ [arg])).length =
          (old ++ skipped ++ new).length + 1 := by
        simp [Nat.add_assoc]
      have hargv : old ++ skipped ++ (new ++ [arg]) ++ rest =
          old ++ skipped ++ new ++ arg :: rest := by
        simp
      rw [hind, hargv] at hperm
      simp only [State.finishMarked, State.exchange, State.reset, Cursor.shift, h0, Nat.add_zero,
        hrest', hperm]
      simp
      omega
    rw [hs]
    exact .plain h0

/-- An operand is taken as an argument, if none were skipped. -/
theorem Represents.take (h : Represents options posix s p) {arg : CString} {rest : List CString}
    (hrest : p.cur.nargv = arg :: rest) (hskipped : p.skipped = []) (optarg : Option (List Char)) :
    Represents options posix { s with place := emsg, optarg := optarg, optind := s.optind + 1 }
      { p.take arg rest with cur := { (p.take arg rest).cur with optarg := optarg } } := by
  cases h with
  | plain h0 =>
    rename_i taken c
    dsimp only at hrest
    have hs : ({ (⟨c.shift taken, none, none, posix⟩ : State) with
          place := emsg, optarg := optarg, optind := (c.shift taken).optind + 1 } : State) =
        ⟨({ c with nargv := rest, place := emsg, optarg := optarg } : Cursor).shift
          (taken ++ [arg]),
          none, none, posix⟩ := by
      simp [Cursor.shift, h0, hrest]
    rw [hs]
    exact .plain h0
  | skipping h0 hplace hne => exact absurd hskipped hne
  | behind h0 hne hopt => exact absurd hskipped hne

/-- What a call begins with does not touch the arguments. -/
theorem Represents.begin (h : Represents options posix s p) (posixlyCorrect : Bool) :
    Represents options (some posixlyCorrect) (s.begin posixlyCorrect) p.begin := by
  cases h with
  | plain h0 =>
    rename_i taken c
    exact .plain (c := { c with optarg := none }) h0
  | skipping h0 hplace hskipped =>
    rename_i taken skipped c
    exact .skipping (c := { c with optarg := none }) h0 hplace hskipped
  | behind h0 hskipped hopt =>
    rename_i old skipped new c
    exact .behind (c := { c with optarg := none }) h0 hskipped hopt

theorem Represents.goTo_emsg (h : Represents options posix s p) :
    Represents options posix { s with place := emsg } { p with cur := p.cur.goTo emsg } := by
  cases h with
  | plain h0 =>
    rename_i taken c
    exact .plain (c := c.goTo emsg) h0
  | skipping h0 hplace hskipped =>
    rename_i taken skipped c
    exact .skipping (c := c.goTo emsg) h0 rfl hskipped
  | behind h0 hskipped hopt =>
    rename_i old skipped new c
    exact .behind (c := c.goTo emsg) h0 hskipped hopt

end Steps

/-! ## Calls -/

section Calls

variable {posix : Option Bool} {m : Mode} {longs : Option (List LongOption)} {longOnly : Bool}

/-- The letters that are left to read are in the first of the arguments that are left. -/
def Parse.Reads (options : List Char) (p : Parse) : Prop :=
  p.cur.place.chars ≠ [] →
    ∃ arg rest, p.cur.nargv = arg :: rest ∧ p.cur.place.text = arg.chars ∧
      isOperand options arg = false ∧ arg.chars ≠ ['-', '-']

theorem Represents.handled {s : State} {p : Parse} (hproper : Proper m.options longs)
    (h : Represents m.options posix s p) (hplace : p.cur.place.chars ≠ [])
    (hreads : p.Reads m.options) :
    Represents m.options posix (s.handle m.options longs longOnly).1
        (p.handle m.options longs longOnly).1 ∧
      (s.handle m.options longs longOnly).2 = (p.handle m.options longs longOnly).2 := by
  obtain ⟨arg, rest, hrest, -, -, -⟩ := hreads hplace
  have h0 := h.optind_eq_zero
  have hlt : p.cur.optind < p.cur.nargv.length := by
    rw [h0, hrest]
    exact Nat.succ_pos _
  cases handled_nextOption hproper longOnly hplace hlt with
  | letter nargv optind place left rc => exact h.handle hplace nargv (by omega)
  | consumed hc place => exact h.handle hplace hc.nargv hc.le
  | stuck nargv optind place last unlisted rc => exact h.handle hplace nargv (by omega)

/-- There is a letter to read in an option. -/
theorem chars_optionPlace {options : List Char} {arg : CString}
    (hopt : isOperand options arg = false) :
    (⟨arg.chars, if arg.strlen = 1 then 0 else 1⟩ : Place).chars ≠ [] := by
  unfold Place.chars
  cases hchars : arg.chars with
  | nil =>
    rw [isOperand, hchars] at hopt
    cases hopt
  | cons c left =>
    by_cases hone : arg.strlen = 1
    · rw [if_pos hone]
      exact List.cons_ne_nil _ _
    · rw [if_neg hone]
      rintro rfl
      exact hone (by rw [CString.strlen, hchars]; rfl)

/-- **The first part of a call.** -/
theorem represents_scanArgs {s : State} {p : Parse} (hproper : Proper m.options longs)
    (h : Represents m.options posix s p) (hall : m.allArgs = true → p.skipped = [])
    (rest : List CString)
    (hrest : p.cur.nargv = rest) :
    Represents m.options posix
        ((scanArgs m.options m.permute m.allArgs rest.length s).result m.options longs longOnly).1
        (p.scan m longs longOnly rest).1 ∧
      ((scanArgs m.options m.permute m.allArgs rest.length s).result m.options longs longOnly).2 =
        (p.scan m longs longOnly rest).2 := by
  induction rest generalizing s p with
  | nil => exact ⟨h.finish hrest, rfl⟩
  | cons arg rest ih =>
    have harg : s.nargv[s.optind]? = some arg := by
      have hdrop := h.drop_eq.1
      rw [hrest] at hdrop
      rw [← Nat.add_zero s.optind, ← List.getElem?_drop, hdrop]
      rfl
    rw [List.length_cons, scanArgs, Parse.scan, harg]
    dsimp only
    by_cases hopnd : isOperand m.options arg = true
    · rw [if_pos hopnd, if_pos hopnd]
      by_cases hallArgs : m.allArgs = true
      · rw [if_pos hallArgs, if_pos hallArgs]
        exact ⟨h.take hrest (hall hallArgs) _, rfl⟩
      rw [if_neg hallArgs, if_neg hallArgs]
      by_cases hperm : m.permute = false
      · rw [if_pos hperm, if_pos hperm]
        exact ⟨h.goTo_emsg, rfl⟩
      rw [if_neg hperm, if_neg hperm]
      exact ih (h.skip hrest hopnd) (fun htrue => absurd htrue hallArgs) rfl
    rw [if_neg hopnd, if_neg hopnd]
    rw [Bool.not_eq_true] at hopnd
    by_cases hmarked : arg.chars = ['-', '-']
    · rw [if_pos hmarked, if_pos hmarked]
      exact ⟨h.finishMarked hrest hopnd, rfl⟩
    rw [if_neg hmarked, if_neg hmarked]
    exact (h.foundOption hrest hopnd _).handled hproper (chars_optionPlace hopnd) fun _ =>
      ⟨arg, rest, hrest, rfl, hopnd, hmarked⟩

/-- What holds of a list between calls. -/
structure Parse.Ok (m : Mode) (p : Parse) : Prop where
  optind : p.cur.optind = 0
  taken : p.taken ≠ []
  reads : p.Reads m.options
  skipped : m.permute = false ∨ m.allArgs = true → p.skipped = []

theorem represents_proceed {s : State} {p : Parse} (hproper : Proper m.options longs)
    (h : Represents m.options posix s p) (hok : p.Ok m) :
    Represents m.options posix (s.proceed m longs longOnly false).1 (p.proceed m longs longOnly).1 ∧
      (s.proceed m longs longOnly false).2 = (p.proceed m longs longOnly).2 := by
  have hplace : s.place = p.cur.place := by
    cases h <;> rfl
  unfold State.proceed Parse.proceed
  rw [hplace, h.drop_eq.2]
  by_cases hempty : p.cur.place.chars = []
  · rw [if_pos (Or.inr hempty), if_pos hempty]
    exact represents_scanArgs hproper h (fun hall => hok.skipped (Or.inr hall)) _ rfl
  · have hne : ¬ (false = true ∨ p.cur.place.chars = []) := by
      rintro (hfalse | hnil)
      · cases hfalse
      · exact hempty hnil
    rw [if_neg hne, if_neg hempty]
    exact h.handled hproper hempty hok.reads

theorem Represents.optind_ne_zero {s : State} {p : Parse} (h : Represents m.options posix s p)
    (htaken : p.taken ≠ []) : s.optind ≠ 0 := by
  intro hzero
  cases h with
  | plain h0 =>
    exact htaken (List.eq_nil_of_length_eq_zero (Nat.eq_zero_of_add_eq_zero_right hzero))
  | skipping h0 hplace hskipped =>
    have hpre := List.eq_nil_of_length_eq_zero (Nat.eq_zero_of_add_eq_zero_right hzero)
    exact hskipped (List.append_eq_nil_iff.mp hpre).2
  | behind h0 hskipped hopt =>
    have hpre := List.eq_nil_of_length_eq_zero (Nat.eq_zero_of_add_eq_zero_right hzero)
    exact hskipped (List.append_eq_nil_iff.mp (List.append_eq_nil_iff.mp hpre).1).2

theorem Parse.Ok.begin {p : Parse} (h : p.Ok m) : p.begin.Ok m :=
  ⟨h.optind, h.taken, h.reads, h.skipped⟩

/-- **A call does on the argument vector what it does on the list.** -/
theorem represents_call (longOnly : Bool) {env b : Bool} {opts : CString} {s : State} {p : Parse}
    (hproper : Proper (mode b opts).options longs) (hposix : posix.getD env = b)
    (h : Represents (mode b opts).options posix s p) (hok : p.Ok (mode b opts)) :
    Represents (mode b opts).options (some b) (getoptInternal env (some opts) longs longOnly s).1
        (p.call (mode b opts) longs longOnly).1 ∧
      (getoptInternal env (some opts) longs longOnly s).2 =
        (p.call (mode b opts) longs longOnly).2 := by
  have hposix' : s.posixlyCorrect.getD env = b := by
    rw [← hposix]
    cases h <;> rfl
  unfold getoptInternal
  dsimp only
  rw [hposix', if_neg (h.optind_ne_zero hok.taken)]
  exact represents_proceed hproper (h.begin b) hok.begin

end Calls

end Getopt
end Wpdk
