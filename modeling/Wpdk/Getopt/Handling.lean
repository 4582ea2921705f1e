import Wpdk.Getopt.Options

/-!
# What an option can do

The second part of a call handles one option.  Two things about it are enough for everything else.
It looks only at the arguments from `optind` on, so that it does the same whatever stands in front
of them.  And there are three things that it can come to: letters of the same argument are left, or
arguments have been used up, or a hyphen at the end of an argument stops it.

The second is true only if no option has the value -1: that value means that the option has not been
found, and the call would go on with what is left of an argument that has been used up.

* `Cursor.shift`: arguments in front; `nextOption_shift`: they make no difference.
* `Proper`: no option has the value -1.
* `Handled`: the three things; `handled_nextOption`: there is nothing else.
-/

namespace Wpdk
namespace Getopt

/-! ## Arguments in front -/

/-- The same with arguments in front. -/
def Cursor.shift (pre : List CString) (c : Cursor) : Cursor :=
  { c with nargv := pre ++ c.nargv, optind := pre.length + c.optind }

/-- A result with arguments in front. -/
def shiftOut (pre : List CString) (out : Cursor × ℤ) : Cursor × ℤ := (out.1.shift pre, out.2)

section Shift

variable (options : List Char) (pre : List CString)

theorem getElem?_shift (c : Cursor) (i : ℕ) :
    (c.shift pre).nargv[pre.length + i]? = c.nargv[i]? := by
  change (pre ++ c.nargv)[pre.length + i]? = _
  rw [List.getElem?_append_right (Nat.le_add_right _ _), Nat.add_sub_cancel_left]

theorem shiftOut_ite {p : Prop} [Decidable p] (a b : Cursor × ℤ) :
    shiftOut pre (if p then a else b) = if p then shiftOut pre a else shiftOut pre b := by
  split <;> rfl

theorem longArg_shift (c : Cursor) (o : LongOption) (equal : Option (List Char)) :
    (c.shift pre).longArg o equal = (c.longArg o equal).shift pre := by
  unfold Cursor.longArg
  cases o.hasArg with
  | noArgument => rfl
  | requiredArgument =>
    cases equal with
    | none =>
      have harg : (c.shift pre).nargv[(c.shift pre).optind]? = c.nargv[c.optind]? :=
        getElem?_shift pre c c.optind
      dsimp only
      rw [harg]
      rfl
    | some arg => rfl
  | optionalArgument =>
    cases equal with
    | none => rfl
    | some arg => rfl

theorem store_shift (c : Cursor) (i : ℕ) (o : LongOption) :
    (c.shift pre).store i o = shiftOut pre (c.store i o) := by
  unfold Cursor.store
  cases o.flag with
  | none => rfl
  | some flag => rfl

theorem optind_le_longArg (c : Cursor) (o : LongOption) (equal : Option (List Char)) :
    c.optind ≤ (c.longArg o equal).optind := by
  unfold Cursor.longArg
  cases o.hasArg <;> cases equal <;> simp

theorem foundLong_shift (i : ℕ) (o : LongOption) (equal : Option (List Char)) {c : Cursor}
    (hc : 0 < c.optind) :
    foundLong options i o equal (c.shift pre) = shiftOut pre (foundLong options i o equal c) := by
  unfold foundLong
  rw [longArg_shift, shiftOut_ite, shiftOut_ite, store_shift]
  have hpos := optind_le_longArg c o equal
  generalize c.longArg o equal = c' at hpos
  have hback : pre.length + c'.optind - 1 = pre.length + (c'.optind - 1) := by omega
  have hset : ({ c'.shift pre with optopt := o.optopt, optind := (c'.shift pre).optind - 1 } :
      Cursor) =
      { c' with optopt := o.optopt, optind := c'.optind - 1 }.shift pre := by
    simp only [Cursor.shift, hback]
  rw [hset]
  rfl

/-- Long options look only at the arguments from `optind` on. -/
theorem parseLongOptions_shift (longs : List LongOption) (shortToo : Bool) (c : Cursor) :
    parseLongOptions options longs shortToo (c.shift pre) =
      shiftOut pre (parseLongOptions options longs shortToo c) := by
  unfold parseLongOptions
  have hplace : (c.shift pre).place = c.place := rfl
  rw [hplace]
  dsimp only
  cases findLong c.place.chars ((strchr c.place.chars '=').getD c.place.chars.length) shortToo longs
    0 none with
  | ambiguous => rfl
  | unknown =>
    cases shortToo with
    | false => rfl
    | true => rfl
  | found i o => exact foundLong_shift options pre i o _ (c := c.nextArg) (Nat.succ_pos c.optind)

theorem atEnd_shift (c : Cursor) : (c.shift pre).atEnd = c.atEnd.shift pre := by
  unfold Cursor.atEnd
  have hplace : (c.shift pre).place = c.place := rfl
  rw [hplace]
  split <;> rfl

theorem longAfterW_shift (longs : List LongOption) (c : Cursor) :
    longAfterW options longs (c.shift pre) = shiftOut pre (longAfterW options longs c) := by
  unfold longAfterW
  have hplace : (c.shift pre).place = c.place := rfl
  have hlength : (c.shift pre).nargv.length ≤ (c.shift pre).optind + 1 ↔
      c.nargv.length ≤ c.optind + 1 := by
    change (pre ++ c.nargv).length ≤ pre.length + c.optind + 1 ↔ _
    rw [List.length_append]
    omega
  rw [hplace, shiftOut_ite]
  simp only [hlength]
  have hnext : (if c.place.chars = [] then (c.shift pre).nextArg else c.shift pre) =
      (if c.place.chars = [] then c.nextArg else c).shift pre := by
    split <;> rfl
  rw [hnext]
  generalize (if c.place.chars = [] then c.nextArg else c) = c'
  have harg : (c'.shift pre).nargv[(c'.shift pre).optind]? = c'.nargv[c'.optind]? :=
    getElem?_shift pre c' c'.optind
  rw [harg]
  have hgo : ∀ p, (c'.shift pre).goTo p = (c'.goTo p).shift pre := fun _ => rfl
  rw [hgo, parseLongOptions_shift]
  rfl

theorem letterArg_shift (optchar : Char) (optional : Bool) (c : Cursor) :
    letterArg options optchar optional (c.shift pre) =
      shiftOut pre (letterArg options optchar optional c) := by
  unfold letterArg
  have hplace : (c.shift pre).place = c.place := rfl
  have harg : (c.shift pre).nargv[(c.shift pre).optind + 1]? = c.nargv[c.optind + 1]? :=
    getElem?_shift pre c (c.optind + 1)
  rw [hplace, harg, shiftOut_ite, shiftOut_ite]
  cases c.nargv[c.optind + 1]? with
  | none => rfl
  | some arg => rfl

theorem handleLetter_shift (longs : Option (List LongOption)) (optchar : Char)
    (oli : Option (List Char)) (c : Cursor) :
    handleLetter options longs optchar oli (c.shift pre) =
      shiftOut pre (handleLetter options longs optchar oli c) := by
  unfold handleLetter
  have hplace : (c.shift pre).place = c.place := rfl
  rw [hplace, atEnd_shift]
  cases oli with
  | none =>
    dsimp only
    rw [shiftOut_ite]
    rfl
  | some oli =>
    dsimp only
    rw [shiftOut_ite]
    split
    · rfl
    · split
      · rw [shiftOut_ite, longAfterW_shift]
        rfl
      · exact letterArg_shift options pre optchar _ c
      · rfl

theorem shortOption_shift (longs : Option (List LongOption)) (c : Cursor) :
    shortOption options longs (c.shift pre) = shiftOut pre (shortOption options longs c) := by
  unfold shortOption
  have hplace : (c.shift pre).place = c.place := rfl
  rw [hplace]
  cases c.place.chars with
  | nil => rfl
  | cons optchar left =>
    exact handleLetter_shift options pre longs optchar _ (c.goTo c.place.next)

/-- **The handling of an option looks only at the arguments from `optind` on.** -/
theorem nextOption_shift (longs : Option (List LongOption)) (longOnly : Bool) (c : Cursor) :
    nextOption options longs longOnly (c.shift pre) =
      shiftOut pre (nextOption options longs longOnly c) := by
  unfold nextOption
  have hplace : (c.shift pre).place = c.place := rfl
  have hgo : ∀ p, (c.shift pre).goTo p = (c.goTo p).shift pre := fun _ => rfl
  rw [hplace]
  cases longs with
  | none => exact shortOption_shift options pre none c
  | some longs =>
    cases c.place.chars with
    | nil => exact shortOption_shift options pre (some longs) c
    | cons first left =>
      dsimp only
      rw [shiftOut_ite, shiftOut_ite, hgo, parseLongOptions_shift, shortOption_shift]
      have hshort := fun c => shortOption_shift options pre (some longs) c
      dsimp only [shiftOut]
      rw [hshort]
      rfl

end Shift

/-! ## What an option can do -/

/-- No option has the value -1, which stands for the end. -/
structure Proper (options : List Char) (longs : Option (List LongOption)) : Prop where
  letter : ∀ c ∈ options, charInt c ≠ -1
  long : ∀ l, longs = some l → ∀ o ∈ l, o.flag = none → o.val ≠ -1

/-- Arguments were used up, and no more than there are. -/
structure Consumed (c : Cursor) (out : Cursor × ℤ) : Prop where
  nargv : out.1.nargv = c.nargv
  lt : c.optind < out.1.optind
  le : out.1.optind ≤ c.nargv.length
  rc : out.2 ≠ -1

theorem badch_ne : badch ≠ -1 := by decide

theorem badarg_ne (options : List Char) : badarg options ≠ -1 := by
  unfold badarg
  split <;> decide

theorem Consumed.goTo {c : Cursor} {out : Cursor × ℤ} (h : Consumed c out) (p : Place) :
    Consumed c (out.1.goTo p, out.2) := ⟨h.nargv, h.lt, h.le, h.rc⟩

section Spec

variable {options : List Char}

theorem mem_of_findLong {current : List Char} {len : ℕ} {shortToo : Bool} {longs : List LongOption}
    {i j : ℕ} {o : LongOption} {matched : Option (ℕ × LongOption)} {P : LongOption → Prop}
    (hlongs : ∀ o ∈ longs, P o) (hmatched : ∀ q, matched = some q → P q.2)
    (h : findLong current len shortToo longs i matched = .found j o) : P o := by
  induction longs generalizing i matched with
  | nil =>
    cases matched with
    | none => cases h
    | some q =>
      cases h
      exact hmatched q rfl
  | cons a longs ih =>
    have ha := hlongs a List.mem_cons_self
    have hrest : ∀ o ∈ longs, P o := fun o ho => hlongs o (List.mem_cons_of_mem a ho)
    rw [findLong] at h
    by_cases hcmp : strncmpEq current a.name.chars len = false
    · rw [if_pos hcmp] at h
      exact ih hrest hmatched h
    rw [if_neg hcmp] at h
    by_cases hexact : a.name.strlen = len
    · rw [if_pos hexact] at h
      cases h
      exact ha
    rw [if_neg hexact] at h
    by_cases hshort : shortToo = true ∧ len = 1
    · rw [if_pos hshort] at h
      exact ih hrest hmatched h
    rw [if_neg hshort] at h
    by_cases hsecond : matched.isSome = true
    · rw [if_pos hsecond] at h
      cases h
    · rw [if_neg hsecond] at h
      refine ih hrest (fun q hq => ?_) h
      cases hq
      exact ha

theorem consumed_store {c c' : Cursor} {i : ℕ} {o : LongOption} (hval : o.flag = none → o.val ≠ -1)
    (hnargv : c'.nargv = c.nargv) (hlt : c.optind < c'.optind) (hle : c'.optind ≤ c.nargv.length) :
    Consumed c (c'.store i o) := by
  unfold Cursor.store
  cases hflag : o.flag with
  | none => exact ⟨hnargv, hlt, hle, hval hflag⟩
  | some flag => exact ⟨hnargv, hlt, hle, (by decide : (0 : ℤ) ≠ -1)⟩

theorem consumed_foundLong {c : Cursor} {i : ℕ} {o : LongOption} (equal : Option (List Char))
    (hval : o.flag = none → o.val ≠ -1) (hc : c.optind < c.nargv.length) :
    Consumed c (foundLong options i o equal c.nextArg) := by
  have hlt : c.optind < c.optind + 1 := Nat.lt_succ_self _
  obtain ⟨name, hasArg, flag, val⟩ := o
  cases hasArg with
  | noArgument =>
    cases equal with
    | none => exact consumed_store hval rfl hlt hc
    | some arg => exact ⟨rfl, hlt, hc, badarg_ne options⟩
  | optionalArgument =>
    cases equal with
    | none => exact consumed_store hval rfl hlt hc
    | some arg => exact consumed_store hval rfl hlt hc
  | requiredArgument =>
    cases equal with
    | some arg => exact consumed_store hval rfl hlt hc
    | none =>
      have harg : (c.nextArg.longArg ⟨name, .requiredArgument, flag, val⟩ none).optarg =
          c.nargv[c.optind + 1]?.map CString.chars := rfl
      rw [foundLong, if_neg (by simp)]
      by_cases hnext : c.optind + 1 < c.nargv.length
      · rw [if_neg (by rw [harg, List.getElem?_eq_getElem hnext]; simp)]
        exact consumed_store hval rfl (Nat.lt_succ_of_lt hlt) hnext
      · -- the index is moved behind the end and back again
        rw [if_pos ⟨rfl, by rw [harg, List.getElem?_eq_none (by omega)]; rfl⟩]
        exact ⟨rfl, hlt, hc, badarg_ne options⟩

/-- A long option uses up arguments, unless it may also be a letter and is not found. -/
theorem parseLongOptions_spec (options : List Char) {longs : List LongOption} (shortToo : Bool)
    {c : Cursor}
    (hval : ∀ o ∈ longs, o.flag = none → o.val ≠ -1) (hc : c.optind < c.nargv.length) :
    (shortToo = true ∧ parseLongOptions options longs shortToo c = (c, -1)) ∨
      Consumed c (parseLongOptions options longs shortToo c) := by
  unfold parseLongOptions
  dsimp only
  generalize (strchr c.place.chars '=').map (fun k => c.place.chars.drop (k + 1)) = equal
  cases hfind : findLong c.place.chars ((strchr c.place.chars '=').getD c.place.chars.length)
    shortToo longs 0 none with
  | ambiguous => exact Or.inr ⟨rfl, Nat.lt_succ_self _, hc, badch_ne⟩
  | unknown =>
    cases shortToo with
    | true => exact Or.inl ⟨rfl, rfl⟩
    | false => exact Or.inr ⟨rfl, Nat.lt_succ_self _, hc, badch_ne⟩
  | found i o =>
    have ho : o.flag = none → o.val ≠ -1 :=
      mem_of_findLong hval (fun q hq => by cases hq) hfind
    exact Or.inr (consumed_foundLong equal ho hc)

theorem consumed_longAfterW (options : List Char) {longs : List LongOption} {c : Cursor}
    (hval : ∀ o ∈ longs, o.flag = none → o.val ≠ -1) (hc : c.optind < c.nargv.length) :
    Consumed c (longAfterW options longs c) := by
  unfold longAfterW
  by_cases hlast : c.place.chars = [] ∧ c.nargv.length ≤ c.optind + 1
  · rw [if_pos hlast]
    exact ⟨rfl, Nat.lt_succ_self _, hc, badarg_ne options⟩
  rw [if_neg hlast]
  by_cases hend : c.place.chars = []
  · rw [if_pos hend]
    have hnext : c.nextArg.optind < c.nargv.length := by
      have : ¬ c.nargv.length ≤ c.optind + 1 := fun h => hlast ⟨hend, h⟩
      change c.optind + 1 < c.nargv.length
      omega
    rcases parseLongOptions_spec options false
      (c := c.nextArg.goTo ⟨(c.nextArg.nargv[c.nextArg.optind]?.map CString.chars).getD [], 0⟩)
      hval hnext with ⟨hshort, -⟩ | h
    · cases hshort
    · exact ⟨h.nargv, Nat.lt_of_succ_lt h.lt, h.le, h.rc⟩
  · rw [if_neg hend]
    rcases parseLongOptions_spec options false
      (c := c.goTo ⟨(c.nargv[c.optind]?.map CString.chars).getD [], 0⟩) hval hc with ⟨hshort, -⟩ | h
    · cases hshort
    · exact ⟨h.nargv, h.lt, h.le, h.rc⟩

/-- What the handling of an option comes to: some letters are left, or arguments were used up, or it
is stuck at a hyphen that ends its argument. -/
inductive Handled (options : List Char) (c : Cursor) (out : Cursor × ℤ) : Prop where
  | letter (nargv : out.1.nargv = c.nargv) (optind : out.1.optind = c.optind)
    (place : out.1.place = c.place.next) (left : c.place.next.chars ≠ []) (rc : out.2 ≠ -1)
  | consumed (h : Consumed c out) (place : out.1.place.chars = [])
  | stuck (nargv : out.1.nargv = c.nargv) (optind : out.1.optind = c.optind)
    (place : out.1.place = c.place.next) (last : c.place.chars = ['-'])
    (unlisted : strchr options '-' = none) (rc : out.2 = -1)

theorem Handled.nargv {c : Cursor} {out : Cursor × ℤ} (h : Handled options c out) :
    out.1.nargv = c.nargv := by
  cases h with
  | letter nargv optind place left rc => exact nargv
  | consumed hc place => exact hc.nargv
  | stuck nargv optind place last unlisted rc => exact nargv

/-- A letter is done with. -/
theorem handled_atEnd {c : Cursor} {e : ℤ} {rc : ℤ} (hrc : rc ≠ -1)
    (hc : c.optind < c.nargv.length) {out : Cursor × ℤ}
    (hout : out = ((c.goTo c.place.next).atEnd, rc) ∨
      out = ((c.goTo c.place.next).atEnd.complain e, rc)) : Handled options c out := by
  unfold Cursor.atEnd at hout
  by_cases hend : c.place.next.chars = []
  · rw [if_pos (show (c.goTo c.place.next).place.chars = [] from hend)] at hout
    rcases hout with rfl | rfl
    · exact .consumed ⟨rfl, Nat.lt_succ_self _, hc, hrc⟩ hend
    · exact .consumed ⟨rfl, Nat.lt_succ_self _, hc, hrc⟩ hend
  · rw [if_neg (show (c.goTo c.place.next).place.chars ≠ [] from hend)] at hout
    rcases hout with rfl | rfl
    · exact .letter rfl rfl rfl hend hrc
    · exact .letter rfl rfl rfl hend hrc

theorem consumed_letterArg (options : List Char) {optchar : Char} (optional : Bool) {c : Cursor}
    (hrc : charInt optchar ≠ -1) (hc : c.optind < c.nargv.length) :
    Consumed c (letterArg options optchar optional c) ∧
      (letterArg options optchar optional c).1.place = emsg := by
  unfold letterArg
  by_cases hleft : c.place.chars ≠ []
  · rw [if_pos hleft]
    exact ⟨⟨rfl, Nat.lt_succ_self _, hc, hrc⟩, rfl⟩
  rw [if_neg hleft]
  cases optional with
  | true => exact ⟨⟨rfl, Nat.lt_succ_self _, hc, hrc⟩, rfl⟩
  | false =>
    rw [if_neg Bool.false_ne_true]
    cases hnext : c.nargv[c.optind + 1]? with
    | none => exact ⟨⟨rfl, Nat.lt_succ_self _, hc, badarg_ne options⟩, rfl⟩
    | some arg =>
      have hlt : c.optind + 1 < c.nargv.length := (List.getElem?_eq_some_iff.mp hnext).1
      exact ⟨⟨rfl, Nat.lt_succ_of_lt (Nat.lt_succ_self _), hlt, hrc⟩, rfl⟩

theorem place_longAfterW (longs : List LongOption) (c : Cursor) :
    (longAfterW options longs c).1.place = emsg := by
  unfold longAfterW
  split <;> rfl

theorem handled_handleLetter {longs : Option (List LongOption)} (hproper : Proper options longs)
    {optchar : Char} {left : List Char} {c : Cursor} (hplace : c.place.chars = optchar :: left)
    (hc : c.optind < c.nargv.length) :
    Handled options c (handleLetter options longs optchar
      ((strchr options optchar).map fun k => options.drop k) (c.goTo c.place.next)) := by
  have hnext : c.place.next.chars = left := by
    unfold Place.next Place.chars at *
    rw [← List.drop_drop, hplace]
    rfl
  have hgo : (c.goTo c.place.next).place.chars = left := hnext
  unfold handleLetter
  rw [hgo]
  cases hfind : strchr options optchar with
  | none =>
    dsimp only [Option.map_none]
    by_cases hstuck : optchar = '-' ∧ left = []
    · rw [if_pos hstuck]
      obtain ⟨rfl, rfl⟩ := hstuck
      exact .stuck rfl rfl rfl hplace hfind rfl
    · rw [if_neg hstuck]
      exact handled_atEnd badch_ne hc (Or.inr rfl)
  | some k =>
    have hmem : optchar ∈ options := by
      obtain ⟨hk, hget, -⟩ := List.findIdx?_eq_some_iff_getElem.mp hfind
      rw [← beq_iff_eq.mp hget]
      exact List.getElem_mem hk
    have hrc := hproper.letter optchar hmem
    dsimp only [Option.map_some]
    by_cases hbad : optchar = ':' ∨ (optchar = '-' ∧ left ≠ [])
    · rw [if_pos hbad]
      exact handled_atEnd badch_ne hc (Or.inr rfl)
    rw [if_neg hbad]
    split
    · rename_i longs' rest heq
      by_cases hW : optchar = 'W'
      · rw [if_pos hW]
        have h := consumed_longAfterW options (c := c.goTo c.place.next)
          (hproper.long longs' rfl) hc
        exact .consumed ⟨h.nargv, h.lt, h.le, h.rc⟩ (by rw [place_longAfterW]; rfl)
      · rw [if_neg hW]
        exact handled_atEnd (e := 0) hrc hc (Or.inl rfl)
    · rename_i behind heq
      obtain ⟨h, hemsg⟩ := consumed_letterArg options (behind.head? == some ':')
        (c := c.goTo c.place.next) hrc hc
      exact .consumed ⟨h.nargv, h.lt, h.le, h.rc⟩ (by rw [hemsg]; rfl)
    · exact handled_atEnd (e := 0) hrc hc (Or.inl rfl)

theorem handled_shortOption {longs : Option (List LongOption)} (hproper : Proper options longs)
    {c : Cursor} (hplace : c.place.chars ≠ []) (hc : c.optind < c.nargv.length) :
    Handled options c (shortOption options longs c) := by
  unfold shortOption
  cases hchars : c.place.chars with
  | nil => exact absurd hchars hplace
  | cons optchar left => exact handled_handleLetter hproper hchars hc

/-- **What the handling of an option can do.** -/
theorem handled_nextOption {longs : Option (List LongOption)} (hproper : Proper options longs)
    (longOnly : Bool) {c : Cursor} (hplace : c.place.chars ≠ []) (hc : c.optind < c.nargv.length) :
    Handled options c (nextOption options longs longOnly c) := by
  unfold nextOption
  cases longs with
  | none => exact handled_shortOption hproper hplace hc
  | some longs =>
    cases hchars : c.place.chars with
    | nil => exact absurd hchars hplace
    | cons first left =>
      dsimp only
      by_cases hlong : c.place.off ≠ 0 ∧ (first = '-' ∨ longOnly = true)
      · rw [if_pos hlong]
        rcases parseLongOptions_spec options
          (first != '-' && first != ':' && (strchr options first).isSome)
          (c := c.goTo (if first = '-' then c.place.next else c.place)) (hproper.long longs rfl) hc
          with ⟨hshort, hout⟩ | h
        · -- it may be a letter, so that it is not a hyphen and `place` has not moved
          have hne : first ≠ '-' := by
            rintro rfl
            cases hshort
          have hsame : c.goTo (if first = '-' then c.place.next else c.place) = c := by
            rw [if_neg hne]
            rfl
          rw [hout, if_neg (not_not_intro rfl), hsame]
          exact handled_shortOption hproper hplace hc
        · rw [if_pos h.rc]
          exact .consumed ⟨h.nargv, h.lt, h.le, h.rc⟩ rfl
      · rw [if_neg hlong]
        exact handled_shortOption hproper hplace hc

end Spec

end Getopt
end Wpdk
