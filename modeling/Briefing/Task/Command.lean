import Briefing.Table
import Briefing.Task.Escape
import Briefing.Text.White

/-!
# Commands

A command has a name and arguments, each positional or named. Its canonical text starts with a
slash; a value that a task text would not read back as it is stands between double quotes.

A command binds parameters: the number of each argument to its value, or to its canonical text if
it is named; each key to its value; and `ARGUMENTS` to all arguments as written canonically. Of two
bindings of one name the later wins.
-/

namespace Briefing

/-- Parameters by name. -/
abbrev Params := Table String

namespace Task

/-- An argument of a command, positional when it has no key. -/
structure Argument where
  key : Option String
  value : String
  deriving DecidableEq, Repr

/-- Whether a value can stand in a task text without quotes. -/
def isPlain (value : List Char) : Bool :=
  !value.isEmpty && !value.any fun c =>
    Text.isWhite c || Text.isControl c || isQuote c || c = '=' || c = '/' || c = '\\'

/-- A character of a value between double quotes. -/
def escapeChar (c : Char) : List Char :=
  if c = '"' || c = '\\' then ['\\', c]
  else if c = '\n' then ['\\', 'n']
  else if c = '\t' then ['\\', 't']
  else if c = '\r' then ['\\', 'r']
  else [c]

/-- A value as it stands in a task text. -/
def renderValue (value : List Char) : List Char :=
  if isPlain value then value else '"' :: value.flatMap escapeChar ++ ['"']

/-- An argument's canonical text. -/
def Argument.render (argument : Argument) : String :=
  let value := String.ofList (renderValue argument.value.toList)
  match argument.key with
  | some key => key ++ "=" ++ value
  | none => value

/-- A command of a task text. -/
structure Command where
  name : String
  arguments : List Argument
  /-- The text of a command found within a line; none if it opened its line. -/
  source : Option String
  deriving DecidableEq, Repr

namespace Command

/-- The canonical texts of the arguments, with blanks between them. -/
def renderArguments (command : Command) : String :=
  " ".intercalate (command.arguments.map Argument.render)

/-- The canonical text of a command, without the break that ends it. -/
def render (command : Command) : String :=
  "/" ++ command.name ++ String.join (command.arguments.map fun a => " " ++ a.render)

/-- The `n`-th argument, counted from one. -/
def argument? (command : Command) (n : Nat) : Option Argument :=
  if n = 0 then none else command.arguments[n - 1]?

/-- The bindings that the argument at position `n` makes. -/
def bindings (n : Nat) (argument : Argument) : List (String × String) :=
  match argument.key with
  | some key => [(Text.decimal n, argument.render), (key, argument.value)]
  | none => [(Text.decimal n, argument.value)]

/-- The name under which a command binds all its arguments. -/
def argumentsKey : String := "ARGUMENTS"

/-- The parameters that a command binds for its template. -/
def params (command : Command) : Params :=
  Table.ofList
    ((command.arguments.zipIdx 1).flatMap (fun (a, n) => bindings n a) ++
      [(argumentsKey, command.renderArguments)])

end Command

end Task

end Briefing
