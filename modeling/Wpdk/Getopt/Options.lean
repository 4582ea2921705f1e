import Mathlib.Data.Int.Notation
import Mathlib.Logic.Function.Basic
import Wpdk.Base.CString
import Wpdk.Getopt.Permute

/-!
# Command-line options

`getopt.c` goes through an argument vector, one option for a call.  Its state is in static
variables: the index of the next argument, a pointer to the next letter of the argument that is
being read, and the two ends of the block of operands that were skipped.  If operands are to be
moved behind the options, such a block is exchanged with the options found behind it as soon as the
next operand is met (`permuteArgs`).

What a call does falls into two parts.  The first looks for the argument to go on with and keeps the
accounts of the operands; the second handles one option, a letter or a long name, and knows nothing
of operands.

* `LongOption`, `findLong`, `parseLongOptions`: long options.
* `Cursor`: what the second part works on; `shortOption`, `nextOption`: that part.
* `State`, `scanArgs`: the first part.
* `getoptInternal`, `getopt`, `getoptLong`, `getoptLongOnly`: the calls.

The messages are left out: the macro `warnx` throws them away.
-/

namespace Wpdk
namespace Getopt

/-- The values of `has_arg`. -/
inductive HasArg where
  | noArgument
  | requiredArgument
  | optionalArgument
deriving DecidableEq

/-- `struct option`; `flag` is the address of a variable of the program. -/
structure LongOption where
  name : CString
  hasArg : HasArg
  flag : Option ℕ
  val : ℤ

/-- A pointer into a string. -/
structure Place where
  text : List Char
  off : ℕ
deriving DecidableEq

/-- The characters that are left. -/
def Place.chars (p : Place) : List Char := p.text.drop p.off

/-- `place++`. -/
def Place.next (p : Place) : Place := ⟨p.text, p.off + 1⟩

/-- `EMSG`. -/
def emsg : Place := ⟨[], 0⟩

/-- A character as an `int`; `char` is signed. -/
def charInt (c : Char) : ℤ := if c.toNat < 128 then c.toNat else c.toNat - 256

/-- `BADCH`. -/
def badch : ℤ := charInt '?'

/-- `BADARG`. -/
def badarg (options : List Char) : ℤ :=
  if options.head? = some ':' then charInt ':' else charInt '?'

/-- `INORDER`. -/
def inorder : ℤ := 1

/-- What the handling of an option works on: the arguments and the index of the next one, `optarg`,
`optopt` and `place`, the value stored at `idx`, and the variables of the program. -/
structure Cursor where
  nargv : List CString
  optind : ℕ
  optarg : Option (List Char)
  optopt : ℤ
  place : Place
  idx : Option ℕ
  vars : ℕ → ℤ

/-- `optind++`. -/
def Cursor.nextArg (c : Cursor) : Cursor := { c with optind := c.optind + 1 }

/-- `optopt = e`. -/
def Cursor.complain (c : Cursor) (e : ℤ) : Cursor := { c with optopt := e }

/-- `place = p`. -/
def Cursor.goTo (c : Cursor) (p : Place) : Cursor := { c with place := p }

/-! ## Long options -/

/-- What comes of the search for a name. -/
inductive Lookup where
  | ambiguous
  | found (i : ℕ) (o : LongOption)
  | unknown

/-- What is known of a match when the table is at its end. -/
def Lookup.ofMatch : Option (ℕ × LongOption) → Lookup
  | none => unknown
  | some (i, o) => found i o

/-- The loop over the table: `len` characters are compared, and an abbreviation is kept until an
exact match or a second abbreviation is found. -/
def findLong (current : List Char) (len : ℕ) (shortToo : Bool) :
    List LongOption → ℕ → Option (ℕ × LongOption) → Lookup
  | [], _, matched => .ofMatch matched
  | o :: os, i, matched =>
    if strncmpEq current o.name.chars len = false then
      findLong current len shortToo os (i + 1) matched
    else if o.name.strlen = len then .found i o
    else if shortToo = true ∧ len = 1 then findLong current len shortToo os (i + 1) matched
    else if matched.isSome then .ambiguous
    else findLong current len shortToo os (i + 1) (some (i, o))

/-- `optopt` after an error with a long option. -/
def LongOption.optopt (o : LongOption) : ℤ :=
  match o.flag with
  | none => o.val
  | some _ => 0

/-- The argument of a long option: behind the `=`, or the next argument. -/
def Cursor.longArg (c : Cursor) (o : LongOption) (equal : Option (List Char)) : Cursor :=
  match o.hasArg, equal with
  | .noArgument, _ => c
  | .requiredArgument, none =>
    { c with optarg := c.nargv[c.optind]?.map CString.chars, optind := c.optind + 1 }
  | .optionalArgument, none => c
  | _, some arg => { c with optarg := some arg }

/-- The end of `parse_long_options`. -/
def Cursor.store (c : Cursor) (i : ℕ) (o : LongOption) : Cursor × ℤ :=
  match o.flag with
  | some flag => ({ c with idx := some i, vars := Function.update c.vars flag o.val }, 0)
  | none => ({ c with idx := some i }, o.val)

/-- `parse_long_options` for an option that is found. -/
def foundLong (options : List Char) (i : ℕ) (o : LongOption) (equal : Option (List Char))
    (c : Cursor) : Cursor × ℤ :=
  if o.hasArg = .noArgument ∧ equal.isSome then (c.complain o.optopt, badarg options)
  else if o.hasArg = .requiredArgument ∧ (c.longArg o equal).optarg = none then
    -- there was no next argument, and `optind` is set back
    ({ c.longArg o equal with
      optopt := o.optopt
      optind := (c.longArg o equal).optind - 1 }, badarg options)
  else (c.longArg o equal).store i o

/-- `parse_long_options`. -/
def parseLongOptions (options : List Char) (longOptions : List LongOption) (shortToo : Bool)
    (c : Cursor) : Cursor × ℤ :=
  let current := c.place.chars
  let equal := (strchr current '=').map fun k => current.drop (k + 1)
  let len := (strchr current '=').getD current.length
  match findLong current len shortToo longOptions 0 none with
  | .ambiguous => (c.nextArg.complain 0, badch)
  | .unknown => if shortToo then (c, -1) else (c.nextArg.complain 0, badch)
  | .found i o => foundLong options i o equal c.nextArg

/-! ## One option -/

/-- `-W long-option`, with `place` behind the letter. -/
def longAfterW (options : List Char) (longOptions : List LongOption) (c : Cursor) : Cursor × ℤ :=
  if c.place.chars = [] ∧ c.nargv.length ≤ c.optind + 1 then
    ((c.nextArg.goTo emsg).complain (charInt 'W'), badarg options)
  else
    let c := if c.place.chars = [] then c.nextArg else c
    let text := (c.nargv[c.optind]?.map CString.chars).getD []
    let out := parseLongOptions options longOptions false (c.goTo ⟨text, 0⟩)
    (out.1.goTo emsg, out.2)

/-- A letter that takes an argument; `optional` if there are two colons behind it. -/
def letterArg (options : List Char) (optchar : Char) (optional : Bool) (c : Cursor) : Cursor × ℤ :=
  if c.place.chars ≠ [] then
    ({ c.nextArg.goTo emsg with optarg := some c.place.chars }, charInt optchar)
  else if optional then ({ c.nextArg.goTo emsg with optarg := none }, charInt optchar)
  else
    match c.nargv[c.optind + 1]? with
    | none =>
      ({ (c.nextArg.goTo emsg).complain (charInt optchar) with optarg := none }, badarg options)
    | some arg => ({ c.nextArg.nextArg.goTo emsg with optarg := some arg.chars }, charInt optchar)

/-- `if (!*place) ++optind`. -/
def Cursor.atEnd (c : Cursor) : Cursor := if c.place.chars = [] then c.nextArg else c

/-- What is done with the letter `optchar`, when `place` is behind it; `oli` is what stands in
`options` from this letter on. -/
def handleLetter (options : List Char) (longOptions : Option (List LongOption)) (optchar : Char)
    (oli : Option (List Char)) (c : Cursor) : Cursor × ℤ :=
  match oli with
  | none =>
    if optchar = '-' ∧ c.place.chars = [] then (c, -1)
    else (c.atEnd.complain (charInt optchar), badch)
  | some oli =>
    if optchar = ':' ∨ (optchar = '-' ∧ c.place.chars ≠ []) then
      (c.atEnd.complain (charInt optchar), badch)
    else
      match longOptions, oli.drop 1 with
      | some longOptions, ';' :: _ =>
        if optchar = 'W' then longAfterW options longOptions c else (c.atEnd, charInt optchar)
      | _, ':' :: behind => letterArg options optchar (behind.head? == some ':') c
      | _, _ => (c.atEnd, charInt optchar)

/-- The letters, from `optchar = (int)*place++` on.  With no letter left the source reads the
terminator and goes on behind the text.  That happens only if a long option has the value -1, which
`nextOption` takes for no match after the argument is used up; there is nothing behind the text
here, and the call ends. -/
def shortOption (options : List Char) (longOptions : Option (List LongOption)) (c : Cursor) :
    Cursor × ℤ :=
  match c.place.chars with
  | [] => (c, -1)
  | optchar :: _ =>
    handleLetter options longOptions optchar ((strchr options optchar).map fun k => options.drop k)
      (c.goTo c.place.next)

/-- The second part of `getopt_internal`. -/
def nextOption (options : List Char) (longOptions : Option (List LongOption)) (longOnly : Bool)
    (c : Cursor) : Cursor × ℤ :=
  match longOptions, c.place.chars with
  | some longs, first :: _ =>
    -- `place` is at the start of the argument only if that is a single hyphen
    if c.place.off ≠ 0 ∧ (first = '-' ∨ longOnly = true) then
      let shortToo := first != '-' && first != ':' && (strchr options first).isSome
      let place := if first = '-' then c.place.next else c.place
      let out := parseLongOptions options longs shortToo (c.goTo place)
      if out.2 ≠ -1 then (out.1.goTo emsg, out.2) else shortOption options longOptions out.1
    else shortOption options longOptions c
  | _, _ => shortOption options longOptions c

/-! ## Finding the next option -/

/-- All the static variables. -/
structure State extends Cursor where
  nonoptStart : Option ℕ
  nonoptEnd : Option ℕ
  posixlyCorrect : Option Bool

/-- An argument that is not an option: `-` is one only if there is an option `-`. -/
def isOperand (options : List Char) (arg : CString) : Bool :=
  arg.chars.head? != some '-' || (arg.chars.drop 1 == [] && (strchr options '-').isNone)

/-- What the first part comes to: a return, or an option to handle. -/
inductive Scanned where
  | ret (s : State) (rc : ℤ)
  | option (s : State)

namespace State

/-- The exchange at the end: the operands that were skipped go behind the options. -/
def exchange (s : State) : State :=
  match s.nonoptStart, s.nonoptEnd with
  | some first, some last =>
    { s with
      nargv := permuteArgs first last s.optind s.nargv
      optind := s.optind - (last - first) }
  | _, _ => s

/-- `nonopt_start = nonopt_end = -1`. -/
def reset (s : State) : State := { s with nonoptStart := none, nonoptEnd := none }

/-- The end of the argument vector. -/
def finish (s : State) : State :=
  match s.nonoptStart, s.nonoptEnd with
  | some first, none => { s with place := emsg, optind := first }.reset
  | _, _ => { s.exchange with place := emsg }.reset

/-- `--`. -/
def finishMarked (s : State) : State :=
  ({ s with optind := s.optind + 1, place := emsg }.exchange).reset

/-- Skipping an operand. -/
def skip (s : State) : State :=
  match s.nonoptStart, s.nonoptEnd with
  | none, _ => { s with place := emsg, nonoptStart := some s.optind, optind := s.optind + 1 }
  | some first, some last =>
    { s with
      place := emsg
      nargv := permuteArgs first last s.optind s.nargv
      nonoptStart := some (s.optind - (last - first))
      nonoptEnd := none
      optind := s.optind + 1 }
  | some _, none => { s with place := emsg, optind := s.optind + 1 }

/-- An option that is found behind operands ends their block. -/
def foundOption (s : State) : State :=
  match s.nonoptStart, s.nonoptEnd with
  | some _, none => { s with nonoptEnd := some s.optind }
  | _, _ => s

end State

/-- The first part of `getopt_internal`, from the label `start` on, with as many arguments to go as
the first number says. -/
def scanArgs (options : List Char) (permute allArgs : Bool) : ℕ → State → Scanned
  | 0, s => .ret s.finish (-1)
  | n + 1, s =>
    match s.nargv[s.optind]? with
    | none => .ret s.finish (-1)
    | some arg =>
      if isOperand options arg then
        if allArgs then
          .ret { s with place := emsg, optarg := some arg.chars, optind := s.optind + 1 } inorder
        else if permute = false then .ret { s with place := emsg } (-1)
        else scanArgs options permute allArgs n s.skip
      else if arg.chars = ['-', '-'] then .ret s.foundOption.finishMarked (-1)
      else
        -- a single hyphen is read from its start, anything else from behind the hyphen
        .option { s.foundOption with place := ⟨arg.chars, if arg.strlen = 1 then 0 else 1⟩ }

/-! ## The calls -/

/-- How the options are to be treated, from the first character of `options`. -/
structure Mode where
  permute : Bool
  allArgs : Bool
  options : List Char

/-- The flags after `POSIXLY_CORRECT` and the first character of `options` were looked at. -/
def mode (posixlyCorrect : Bool) (options : CString) : Mode where
  permute := posixlyCorrect && options.chars.head? != some '+'
  allArgs := posixlyCorrect && options.chars.head? == some '-'
  options :=
    if options.chars.head? = some '+' ∨ options.chars.head? = some '-' then options.chars.drop 1
    else options.chars

/-- The second part, on the static variables. -/
def State.handle (options : List Char) (longOptions : Option (List LongOption)) (longOnly : Bool)
    (s : State) : State × ℤ :=
  let out := nextOption options longOptions longOnly s.toCursor
  ({ s with toCursor := out.1 }, out.2)

/-- What follows the first part. -/
def Scanned.result (options : List Char) (longOptions : Option (List LongOption))
    (longOnly : Bool) : Scanned → State × ℤ
  | .ret s rc => (s, rc)
  | .option s => s.handle options longOptions longOnly

/-- Both parts; `optreset` makes the call start with a new argument. -/
def State.proceed (m : Mode) (longOptions : Option (List LongOption)) (longOnly optreset : Bool)
    (s : State) : State × ℤ :=
  if optreset = true ∨ s.place.chars = [] then
    (scanArgs m.options m.permute m.allArgs (s.nargv.length - s.optind) s).result m.options
      longOptions longOnly
  else s.handle m.options longOptions longOnly

/-- `posixly_correct` is set at the first call; `optarg = NULL`. -/
def State.begin (posixlyCorrect : Bool) (s : State) : State :=
  { s with optarg := none, posixlyCorrect := some posixlyCorrect }

/-- `getopt_internal`, where `env` says that `POSIXLY_CORRECT` is in the environment. -/
def getoptInternal (env : Bool) (options : Option CString) (longOptions : Option (List LongOption))
    (longOnly : Bool) (s : State) : State × ℤ :=
  match options with
  | none => (s, -1)
  | some options =>
    let posixlyCorrect := s.posixlyCorrect.getD env
    let m := mode posixlyCorrect options
    if s.optind = 0 then
      ({ s.begin posixlyCorrect with optind := 1 }.reset).proceed m longOptions longOnly true
    else (s.begin posixlyCorrect).proceed m longOptions longOnly false

end Getopt
end Wpdk
