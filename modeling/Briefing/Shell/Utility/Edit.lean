import Briefing.Shell.Regex
import Briefing.Shell.Utility.Basic

/-!
# Editing line by line

The utility `sed` does the commands of a script on every line of its input and prints what becomes
of it.
-/

namespace Briefing.Shell.Utility

/-- A line of `sed`: whether it is printed, and whether it is the last one read. -/
structure Edited where
  text : List Char
  deleted : Bool
  printed : Nat
  quits : Bool

/-- The parts of a substitution between its separators. -/
def splitSubstitution (separator : Char) : List Char → List Char × List Char
  | [] => ([], [])
  | '\\' :: c :: s =>
    let (t, r) := splitSubstitution separator s
    (if c = separator then c :: t else '\\' :: c :: t, r)
  | c :: s =>
    if c = separator then ([], s)
    else
      let (t, r) := splitSubstitution separator s
      (c :: t, r)

/-- Which lines a command of `sed` is for. -/
inductive Address
  | every
  | number (n : Nat)
  | lastLine
  | matching (r : Regex)

/-- The address at the start of a command, and the rest. -/
def readAddress (extended : Bool) (s : List Char) : Address × List Char :=
  match s with
  | '$' :: s => (.lastLine, s)
  | '/' :: s =>
    let (pattern, s) := splitSubstitution '/' s
    (.matching (Regex.ofText extended pattern), s)
  | s =>
    let digits := s.takeWhile Char.isDigit
    match Text.readNat? 10 digits with
    | some n => (.number n, s.drop digits.length)
    | none => (.every, s)

/-- Whether an address is one for a line; `number` is that of the line. -/
def Address.covers (a : Address) (number : Nat) (isLast : Bool) (line : List Char) : Bool :=
  match a with
  | every => true
  | .number n => n = number
  | lastLine => isLast
  | matching r => (r.find true line).isSome

/-- Whether a line lies between those of two addresses; only numbers are counted on. -/
def coversBetween (first last : Address) (number : Nat) (isLast : Bool) (line : List Char) : Bool :=
  match first, last with
  | .number a, .number b => a ≤ number && (number ≤ b || number = a)
  | .number a, .lastLine => a ≤ number
  | a, _ => a.covers number isLast line

/-- Does the commands of `sed` on a line; `number` is that of the line. -/
def edit (extended : Bool) (number : Nat) (isLast : Bool) : Nat → List Char → Edited → Edited
  | 0, _, e | _, [], e => e
  | fuel + 1, c :: s, e =>
    let skip := fun (s : List Char) => s.dropWhile fun c => c ≠ ';' && c ≠ '\n'
    if c = ';' || c = '\n' || c = ' ' then edit extended number isLast fuel s e
    else
      let (first, s) := readAddress extended (c :: s)
      let (chosen, s) : Bool × List Char := match s with
        | ',' :: s =>
          let (last, s) := readAddress extended s
          (coversBetween first last number isLast e.text, s)
        | s => (first.covers number isLast e.text, s)
      let (chosen, s) : Bool × List Char := match s with
        | '!' :: s => (!chosen, s)
        | s => (chosen, s)
      match s with
      | 's' :: separator :: s =>
        let (pattern, s) := splitSubstitution separator s
        let (replacement, s) := splitSubstitution separator s
        let flags := s.takeWhile fun c => c ≠ ';' && c ≠ '\n'
        let nth := (Text.readNat? 10 (flags.filter Char.isDigit)).getD 1
        let e := if !chosen then e else
          match (Regex.ofText extended pattern).substitute replacement (flags.contains 'g')
              (e.text.length + 2) nth true e.text with
          | some text =>
            { e with text, printed := if flags.contains 'p' then e.printed + 1 else e.printed }
          | none => e
        edit extended number isLast fuel (skip s) e
      | 'd' :: s =>
        if chosen then { e with deleted := true } else edit extended number isLast fuel (skip s) e
      | 'p' :: s =>
        let e := if chosen then { e with printed := e.printed + 1 } else e
        edit extended number isLast fuel (skip s) e
      | 'q' :: s =>
        if chosen then { e with quits := true } else edit extended number isLast fuel (skip s) e
      | s => edit extended number isLast fuel (skip s) e

/-- What `sed` prints for lines from a number on. -/
def editLines (extended silent : Bool) (script : List Char) (number : Nat) :
    List (List Char) → List (List Char)
  | [] => []
  | line :: lines =>
    let e := edit extended number lines.isEmpty (script.length + 1) script ⟨line, false, 0, false⟩
    let times := if e.deleted then 0 else e.printed + (if silent then 0 else 1)
    List.replicate times e.text ++
      if e.quits then [] else editLines extended silent script (number + 1) lines

def sed : Utility := fun r =>
  let (options, operands) := splitOptions ['e'] r.arguments
  let scripts := options.filterMap fun (c, script) => if c = 'e' then some script else none
  let (script, operands) := if scripts.isEmpty then (operands.headD "", operands.tail)
    else ("\n".intercalate scripts, operands)
  let extended := given options 'E' || given options 'r'
  let edited := fun (bytes : ByteArray) =>
    ofLines (editLines extended (given options 'n') script.toList 1 (linesIn bytes))
  let (found, errors) := sources r operands fun operand => "sed: can't read " ++ operand
  if given options 'i' then
    -- Every file is edited in its place.
    let write := fun (d : Disk) (file : String × ByteArray) =>
      (d.write file.1 (edited file.2)).toOption.getD d
    let d := found.foldl write r.disk
    { complains r errors (if errors.isEmpty then 0 else 2) with disk := d }
  else
    let bytes := found.foldl (fun all (_, bytes) => all ++ bytes) ByteArray.empty
    filters r operands (edited bytes) errors (if errors.isEmpty then 0 else 2)

end Briefing.Shell.Utility
