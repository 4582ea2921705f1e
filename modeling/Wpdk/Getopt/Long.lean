import Wpdk.Getopt.Options

/-!
# Long names

`parse_long_options` compares the text up to the `=` with every name of its table.  It goes on with
the first name that is the text, or else with the only one that begins with it; but it gives up as
soon as it has met two names that begin with the text, even if the text itself comes behind them.

* `lookupName`: what is found, in terms of the names alone.
* `findLong_eq_settle`: that is what the loop finds; `parse_long_options_by_name`: and what is done
  with it.
-/

namespace Wpdk
namespace Getopt

/-- `strncmp` with as many characters as the first string may have. -/
theorem strncmpEq_eq_isPrefixOf {a b : List Char} {n : ℕ} (hn : n ≤ a.length) :
    strncmpEq a b n = (a.take n).isPrefixOf b := by
  have hlength : (a.take n).length = n := List.length_take_of_le hn
  have hcut : strncmpEq a b n = strncmpEq (a.take n) b n := by
    conv_lhs => rw [← List.take_append_drop n a]
    exact strncmpEq_append_left _ _ hlength.ge
  have hiff := strncmpEq_length_iff b (a.take n)
  rw [hlength, strncmpEq_comm, ← hcut] at hiff
  rw [Bool.eq_iff_iff, hiff, List.isPrefixOf_iff_prefix]

/-- A name that `name` may stand for; a single letter stands for none if it may be an option. -/
def abbreviates (name : List Char) (shortToo : Bool) (o : LongOption) : Bool :=
  name.isPrefixOf o.name.chars && !(shortToo && name.length == 1)

/-- What comes of the names that are abbreviated and the one that is given in full. -/
def settle : List (LongOption × ℕ) → Option (LongOption × ℕ) → Lookup
  | _ :: _ :: _, _ => .ambiguous
  | _, some (o, i) => .found i o
  | [(o, i)], none => .found i o
  | [], none => .unknown

/-- The names that `name` abbreviates, up to the first that is given in full. -/
def abbreviated (name : List Char) (shortToo : Bool) (longs : List (LongOption × ℕ)) :
    List (LongOption × ℕ) :=
  (longs.takeWhile fun o => o.1.name.chars != name).filter fun o => abbreviates name shortToo o.1

/-- What `name` stands for. -/
def lookupName (name : List Char) (shortToo : Bool) (longs : List (LongOption × ℕ)) : Lookup :=
  settle (abbreviated name shortToo longs) (longs.find? fun o => o.1.name.chars == name)

section Loop

variable {current : List Char} {len : ℕ}

/-- The loop, with a name that was met before. -/
theorem findLong_eq_settle (hlen : len ≤ current.length) (shortToo : Bool) (longs : List LongOption)
    (i : ℕ) (matched : Option (ℕ × LongOption)) :
    findLong current len shortToo longs i matched =
      settle (matched.toList.map Prod.swap ++ abbreviated (current.take len) shortToo
        (longs.zipIdx i))
        ((longs.zipIdx i).find? fun o => o.1.name.chars == current.take len) := by
  have hlength : (current.take len).length = len := List.length_take_of_le hlen
  generalize hname : current.take len = name at hlength
  induction longs generalizing i matched with
  | nil =>
    rcases matched with _ | ⟨j, o⟩
    · rfl
    · rfl
  | cons o longs ih =>
    rw [findLong, strncmpEq_eq_isPrefixOf hlen, hname, List.zipIdx_cons, List.find?_cons]
    unfold abbreviated at ih ⊢
    by_cases hexact : o.name.chars = name
    · -- the text is this name
      have hpfx : name.isPrefixOf o.name.chars = true := by
        rw [hexact]
        exact List.isPrefixOf_iff_prefix.mpr (List.prefix_refl _)
      have hstrlen : o.name.strlen = len := by rw [CString.strlen, hexact, hlength]
      rw [if_neg (by rw [hpfx]; decide), if_pos hstrlen]
      simp only [List.takeWhile_cons, hexact, bne_self_eq_false, Bool.false_eq_true, if_false,
        List.filter_nil, List.append_nil, beq_self_eq_true]
      rcases matched with _ | ⟨j, o'⟩
      · rfl
      · rfl
    · have hne : (o.name.chars != name) = true := bne_iff_ne.mpr hexact
      have hne' : (o.name.chars == name) = false := beq_eq_false_iff_ne.mpr hexact
      simp only [List.takeWhile_cons, hne, if_true, hne']
      by_cases hpfx : name.isPrefixOf o.name.chars = true
      · have hstrlen : o.name.strlen ≠ len := by
          intro h
          have hpre := List.isPrefixOf_iff_prefix.mp hpfx
          exact hexact (hpre.eq_of_length (by rw [hlength, ← h]; rfl)).symm
        rw [if_neg (by rw [hpfx]; decide), if_neg hstrlen]
        by_cases hshort : shortToo = true ∧ len = 1
        · have hno : abbreviates name shortToo o = false := by
            simp [abbreviates, hshort.1, hlength, hshort.2]
          rw [if_pos hshort, ih, List.filter_cons_of_neg (by rw [hno]; decide)]
        · have hyes : abbreviates name shortToo o = true := by
            simp only [abbreviates, hpfx, hlength, Bool.true_and, Bool.not_eq_true',
              Bool.and_eq_false_iff, beq_eq_false_iff_ne]
            rcases not_and_or.mp hshort with h | h
            · exact Or.inl (Bool.eq_false_iff.mpr h)
            · exact Or.inr h
          rw [if_neg hshort, List.filter_cons_of_pos (by rw [hyes])]
          rcases matched with _ | ⟨j, o'⟩
          · rw [if_neg (by decide), ih]
            rfl
          · rfl
      · have hno : abbreviates name shortToo o = false := by
          rw [Bool.not_eq_true] at hpfx
          simp [abbreviates, hpfx]
        rw [Bool.not_eq_true] at hpfx
        rw [if_pos hpfx, ih, List.filter_cons_of_neg (by rw [hno]; decide)]

end Loop

/-- The text up to the `=`. -/
theorem take_strchr (s : List Char) (c : Char) :
    s.take ((strchr s c).getD s.length) = s.takeWhile (· != c) := by
  rw [strchr, ← List.findIdx_eq_getD_findIdx?, List.takeWhile_eq_take_findIdx_not]
  simp only [bne, Bool.not_not]

/-- **Which option a text stands for**, for every text and every table: `parse_long_options` goes on
with what the names alone say.  Two abbreviations are ambiguous unless the full name stands before
the second one, whatever the entries are. -/
theorem parse_long_options_by_name (options : List Char) (longs : List LongOption) (shortToo : Bool)
    (c : Cursor) :
    parseLongOptions options longs shortToo c =
      match lookupName (c.place.chars.takeWhile (· != '=')) shortToo longs.zipIdx with
      | .ambiguous => (c.nextArg.complain 0, badch)
      | .unknown => if shortToo then (c, -1) else (c.nextArg.complain 0, badch)
      | .found i o =>
        foundLong options i o
          ((strchr c.place.chars '=').map fun k => c.place.chars.drop (k + 1)) c.nextArg := by
  have hlen : (strchr c.place.chars '=').getD c.place.chars.length ≤ c.place.chars.length := by
    rw [strchr, ← List.findIdx_eq_getD_findIdx?]
    exact List.findIdx_le_length
  have hfind := findLong_eq_settle hlen shortToo longs 0 none
  rw [take_strchr] at hfind
  unfold parseLongOptions
  dsimp only
  rw [hfind]
  rfl

/-- A name that is given in full is not found behind two that begin with it. -/
example (a b o : LongOption) (ha : a.name = CString.lit "verbose")
    (hb : b.name = CString.lit "version")
    (ho : o.name = CString.lit "ver") :
    lookupName ['v', 'e', 'r'] false ([a, b, o].zipIdx) = .ambiguous ∧
      lookupName ['v', 'e', 'r'] false ([a, o, b].zipIdx) = .found 1 o := by
  have ha' : a.name.chars = ['v', 'e', 'r', 'b', 'o', 's', 'e'] := by rw [ha]; decide
  have hb' : b.name.chars = ['v', 'e', 'r', 's', 'i', 'o', 'n'] := by rw [hb]; decide
  have ho' : o.name.chars = ['v', 'e', 'r'] := by rw [ho]; decide
  constructor
  · simp [lookupName, abbreviated, abbreviates, settle, ha', hb', ho']
  · simp [lookupName, abbreviated, abbreviates, settle, ha', ho']

end Getopt
end Wpdk
