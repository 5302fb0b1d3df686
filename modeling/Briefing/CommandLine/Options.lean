import Briefing.Text.Digit

/-!
# Options on a command line

An option has a long name, perhaps a letter, and perhaps a value. The value stands in the same
argument or in the next one, unless that looks like an option. Behind `--` nothing is an option.
-/

namespace Briefing.CommandLine

/-- What an option takes. -/
inductive Takes
  | nothing
  | text
  /-- A path, which is not empty. -/
  | path
  /-- A number of seconds below 2^64. -/
  | seconds
  /-- Nothing: it asks what the program is, and everything else is idle. -/
  | help
  | version
  deriving DecidableEq, Repr

/-- An option. Only one that repeats may be given more than once. -/
structure Flag where
  long : String
  short : Option Char
  takes : Takes
  repeats : Bool
  deriving DecidableEq, Repr

/-- Why a command line is not carried out. -/
inductive Refusal
  | usage
  | help
  | version
  deriving DecidableEq, Repr

/-- What a command line gives: options with their values, operands, and a command with the
arguments behind it. -/
structure Given where
  values : List (String × String)
  operands : List String
  command : Option (String × List String)

namespace Given

/-- The value of an option. -/
def value? (g : Given) (long : String) : Option String := g.values.lookup long

/-- All values of an option, in order. -/
def allValues (g : Given) (long : String) : List String :=
  g.values.filterMap fun (name, value) => if name = long then some value else none

/-- Whether an option is given. -/
def has (g : Given) (long : String) : Bool := (g.value? long).isSome

end Given

/-- The number of seconds that a text stands for. -/
def seconds? (s : String) : Option Nat :=
  let digits := match s.toList with
    | '+' :: digits => digits
    | digits => digits
  (Text.readNat? 10 digits).filter (· < Nat.pow 2 64)

/-- Whether an option takes a value. -/
def Flag.takesValue (f : Flag) : Bool := f.takes = .text || f.takes = .path || f.takes = .seconds

/-- Whether a text is a value for an option. -/
def Flag.admits (f : Flag) (value : String) : Bool :=
  match f.takes with
  | .path => !value.isEmpty
  | .seconds => (seconds? value).isSome
  | _ => true

/-- What may stand on a command line: options, commands, and a number of operands. -/
structure Grammar where
  flags : List Flag
  commands : List String
  operands : Nat

namespace Grammar

variable (grammar : Grammar)

/-- The given options with one more. -/
def add (f : Flag) (value : String) (g : Given) : Except Refusal Given :=
  match f.takes with
  | .help => .error .help
  | .version => .error .version
  | _ =>
    if !f.admits value || (g.has f.long && !f.repeats) then .error .usage
    else .ok { g with values := g.values ++ [(f.long, value)] }

/-- The letters of an argument: options, the last of which may take the rest as its value, or the
next argument if nothing is left. -/
def addLetters (g : Given) : List Char → Except Refusal (Given × Option Flag)
  | [] => .ok (g, none)
  | c :: rest =>
    match grammar.flags.find? fun f => f.short = some c with
    | none => .error .usage
    | some f =>
      if f.takesValue then
        match rest with
        | [] => .ok (g, some f)
        | '=' :: value => (add f (String.ofList value) g).map (·, none)
        | value => (add f (String.ofList value) g).map (·, none)
      else do
        addLetters (← add f "" g) rest

/-- An argument that starts with two hyphens: an option, perhaps with its value. -/
def addLong (g : Given) (text : List Char) : Except Refusal (Given × Option Flag) :=
  let name := text.takeWhile (· ≠ '=')
  match grammar.flags.find? fun f => f.long.toList = name with
  | none => .error .usage
  | some f =>
    match text.drop name.length with
    | [] => if f.takesValue then .ok (g, some f) else (add f "" g).map (·, none)
    | _ :: value =>
      if f.takesValue then (add f (String.ofList value) g).map (·, none) else .error .usage

/-- An operand, if there is a place for one. -/
def addOperand (g : Given) (argument : String) : Except Refusal Given :=
  if g.operands.length < grammar.operands then
    .ok { g with operands := g.operands ++ [argument] }
  else .error .usage

/-- Reads arguments. `pending` is the option whose value is to come, and `plain` tells whether
`--` was read. -/
def readFrom (plain : Bool) (pending : Option Flag) (g : Given) :
    List String → Except Refusal Given
  | [] => if pending.isSome then .error .usage else .ok g
  | argument :: rest => do
    let options := fun (read : Except Refusal (Given × Option Flag)) => do
      if pending.isSome then throw .usage
      let (g, pending) ← read
      readFrom plain pending g rest
    if plain then readFrom plain pending (← grammar.addOperand g argument) rest
    else if pending.isNone && grammar.commands.contains argument then
      return { g with command := some (argument, rest) }
    else
      match argument.toList with
      | ['-', '-'] => readFrom true pending g rest
      | '-' :: '-' :: text => options (grammar.addLong g text)
      | '-' :: c :: letters => options (grammar.addLetters g (c :: letters))
      | _ =>
        match pending with
        | some f => readFrom plain none (← add f argument g) rest
        | none => readFrom plain none (← grammar.addOperand g argument) rest

/-- What a command line gives. -/
def read (arguments : List String) : Except Refusal Given :=
  grammar.readFrom false none ⟨[], [], none⟩ arguments

end Grammar

end Briefing.CommandLine
