import Briefing.Shell.Utility.Edit
import Briefing.Shell.Utility.Files
import Briefing.Shell.Utility.Filter
import Briefing.Shell.Utility.Test

/-!
# The utilities by name

All utilities with their names, and where a machine has them.
-/

namespace Briefing.Shell.Utility

/-- The milliseconds that a number of seconds, perhaps with a fraction and a unit, stands for. -/
def milliseconds? (s : List Char) : Option Nat :=
  let (digits, unit) := match s.reverse with
    | 's' :: r => (r.reverse, 1)
    | 'm' :: r => (r.reverse, 60)
    | 'h' :: r => (r.reverse, 3600)
    | _ => (s, 1)
  match digits.splitOn '.' with
  | [whole] => (Text.readNat? 10 whole).map (· * 1000 * unit)
  | [whole, fraction] => do
    let seconds ← Text.readDigits? 10 0 whole
    let thousandths ← Text.readNat? 10 ((fraction ++ ['0', '0', '0']).take 3)
    return (seconds * 1000 + thousandths) * unit
  | _ => none

def sleep : Utility := fun r =>
  if r.arguments.isEmpty then misused r "sleep" "missing operand"
  else
    match r.arguments.mapM fun a => milliseconds? a.toList with
    | some times => { ends r 0 with pause := times.foldl (· + ·) 0 }
    | none =>
      let odd := r.arguments.filter fun a => (milliseconds? a.toList).isNone
      misused r "sleep" ("\nsleep: ".intercalate
        (odd.map fun a => "invalid time interval '" ++ a ++ "'"))

def seq : Utility := fun r =>
  let (separator, arguments) := match r.arguments with
    | "-s" :: separator :: arguments => (separator.toList, arguments)
    | first :: arguments =>
      match "-s".toList.isPrefixOf? first.toList with
      | some separator => (separator, arguments)
      | none => (['\n'], first :: arguments)
    | [] => (['\n'], [])
  let odd := arguments.find? fun a => !(readInteger a.toList).2.isEmpty
  let numbers := arguments.map fun a => (readInteger a.toList).1
  match odd, numbers with
  | some a, _ => misused r "seq" ("invalid floating point argument: '" ++ a ++ "'")
  | none, [] => misused r "seq" "missing operand"
  | none, [last] => writes r (line separator 1 1 last)
  | none, [first, last] => writes r (line separator first 1 last)
  | none, first :: step :: last :: _ => writes r (line separator first step last)
where
  line (separator : List Char) (first step last : Int) : ByteArray :=
    let count := if step = 0 then 0 else ((last - first) / step + 1).toNat
    let items := (List.range count).map fun (i : Nat) => integerText (first + step * (i : Int))
    ofLines (if items.isEmpty then [] else [separator.intercalate items])

/-- Writes a line over and over, as often as is ever read. -/
def yes : Utility := fun r =>
  let line := if r.arguments.isEmpty then "y" else " ".intercalate r.arguments
  writes r (ofLines (List.replicate 100000 line.toList))

def env : Utility := fun r =>
  writes r (ofLines (r.environment.map fun (k, v) => (k ++ "=" ++ v).toList))

def printenv : Utility := fun r =>
  match r.arguments with
  | [] => env r
  | name :: _ =>
    match r.environment.lookup name with
    | some value => writes r (value ++ "\n").toUTF8
    | none => ends r 1

def echoes : Utility := fun r => { ends r 0 with output := ofBytes (echo r.arguments) }

def printfs : Utility := fun r =>
  let printed := printf r.arguments
  let errors := String.join (printed.errors.map fun e => "printf: " ++ e ++ "\n")
  { ends r printed.status with output := ofBytes printed.bytes, errors }

/-- Utilities that the shell has itself. -/
def builtin : List (String × Utility) :=
  [("echo", echoes), ("printf", printfs), ("true", fun r => ends r 0), (":", fun r => ends r 0),
    ("false", fun r => ends r 1), ("test", test), ("[", bracket), ("pwd", pwd)]

/-- Utilities that are programs. -/
def programs : List (String × Utility) :=
  [("cat", cat), ("head", head), ("tail", tail), ("wc", wc), ("tr", tr), ("sed", sed),
    ("grep", grep), ("sort", sort), ("uniq", uniq), ("cut", cut), ("ls", ls), ("mkdir", mkdir),
    ("rm", rm), ("rmdir", rmdir), ("touch", touch), ("chmod", chmod), ("mv", mv), ("cp", cp),
    ("ln", ln), ("basename", basename), ("dirname", dirname), ("readlink", readlink),
    ("realpath", fun r => readlink { r with arguments := "-f" :: r.arguments }), ("tee", tee),
    ("sleep", sleep), ("seq", seq), ("yes", yes), ("env", env), ("printenv", printenv)] ++
  builtin.filter fun (name, _) => name ≠ ":"

/-- The directories in which a machine has its programs. -/
def programDirectories : List String := ["/bin", "/usr/bin"]

/-- The program that a path names. -/
def ofPath? (path : String) : Option Utility :=
  programs.findSome? fun (name, utility) =>
    if programDirectories.any (fun directory => path = directory ++ "/" ++ name) then some utility
    else none

/-- The path of the utility that runs a program with more variables. -/
def isEnvironment (path : String) : Bool :=
  programDirectories.any fun directory => path = directory ++ "/env"

/-- The names of shells. -/
def shells : List String := ["sh", "dash", "bash"]

/-- Paths of shells. -/
def isShell (path : String) : Bool :=
  shells.any fun name =>
    programDirectories.any fun directory => path = directory ++ "/" ++ name

end Briefing.Shell.Utility
