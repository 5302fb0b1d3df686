import Briefing.Shell.Script
import Briefing.Shell.Signal
import Briefing.Shell.Utility.Table
import Briefing.Table

/-!
# The state of a shell

A shell has variables, arguments, functions and a place for each of its streams. What it writes is
gathered in buffers, of which the first is its own output and the second its own errors. A shell
may have only so much time.
-/

namespace Briefing.Shell

/-- Where what is written to a stream goes. -/
inductive Sink
  | buffer (n : Nat)
  | file (location : Location)
  | nowhere

/-- Why a command does not go on. -/
inductive Stop
  | exit (status : Nat)
  | killed (signal : Nat)
  | timedOut
  /-- The end of a function. -/
  | returned (status : Nat)
  /-- The end of a loop, or of one of its rounds, and how many loops are left. -/
  | leaveLoop (depth : Nat)
  | nextRound (depth : Nat)

/-- What a shell can be told to do differently. -/
structure Settings where
  /-- A command that fails ends the shell. -/
  onFailure : Bool := false
  /-- A parameter has to be set. -/
  onUnset : Bool := false
  /-- Commands are shown on the stream for errors before they run. -/
  traced : Bool := false
  /-- Words do not stand for the files that match them. -/
  literal : Bool := false
  /-- What is assigned is seen by programs. -/
  exportsAll : Bool := false

structure State where
  disk : Disk
  vars : Table String
  exported : StringSet
  arguments : List String
  /-- What the shell calls itself. -/
  name : String
  functions : Table Command
  /-- Within a function, what variables are to be when it ends. -/
  hidden : Option (List (String × Option String))
  /-- The variables that keep their values. -/
  fixed : StringSet
  /-- The scripts to run when signals come, and the one under 0 to run at the end. -/
  traps : List (Nat × List Char)
  /-- How many loops are being run, one within the other. -/
  loops : Nat
  status : Nat
  /-- The status of the last script whose output was put into a word. -/
  inner : Option Nat
  settings : Settings
  /-- Whether a failure of the command at hand is tested. -/
  tested : Bool
  input : ByteArray
  buffers : Array ByteArray
  sinks : List (Nat × Sink)
  /-- Milliseconds since the start, and how many there may be. -/
  clock : Nat
  limit : Option Nat
  line : Nat

/-- The characters that separate fields. -/
def State.separators (s : State) : List Char := ((s.vars.get? "IFS").getD " \t\n").toList

namespace Settings

/-- The settings in which letters are switched on or off. -/
def switch (old : Settings) (on : Bool) (letters : List Char) : Settings where
  onFailure := if letters.contains 'e' then on else old.onFailure
  onUnset := if letters.contains 'u' then on else old.onUnset
  traced := if letters.contains 'x' then on else old.traced
  literal := if letters.contains 'f' then on else old.literal
  exportsAll := if letters.contains 'a' then on else old.exportsAll

/-- The letters that are on. -/
def letters (s : Settings) : List Char :=
  [('u', s.onUnset), ('a', s.exportsAll), ('x', s.traced), ('f', s.literal),
    ('e', s.onFailure)].filterMap fun (letter, on) => if on then some letter else none

end Settings

/-- Something that a shell does. -/
abbrev Eval := ExceptT Stop (StateM State)

namespace Eval

/-- The number of a shell among the processes. -/
def processNumber : String := "4242"

/-- Writes to a stream. -/
def write (stream : Nat) (bytes : ByteArray) : Eval Unit :=
  modify fun s =>
    match s.sinks.lookup stream with
    | some (.buffer n) => { s with buffers := s.buffers.modify n (· ++ bytes) }
    | some (.file location) => { s with disk := s.disk.appendAt location bytes }
    | some .nowhere | none => s

/-- Complains on the stream for errors. -/
def complain (message : String) : Eval Unit := do
  let s ← get
  write 2 (s.name ++ ": " ++ Text.decimal s.line ++ ": " ++ message ++ "\n").toUTF8

/-- Shows the words of a command that is about to run, where complaints went before the command
sent them elsewhere. -/
def trace (sinks : List (Nat × Sink)) (words : List String) : Eval Unit := do
  let s ← get
  if s.settings.traced then
    set { s with sinks }
    write 2 ("+ " ++ " ".intercalate words ++ "\n").toUTF8
    modify fun t => { t with sinks := s.sinks }

def setStatus (status : Nat) : Eval Unit := modify fun s => { s with status }

/-- Complains and ends the shell. -/
def abort {α : Type} (message : String) (status : Nat := 2) : Eval α := do
  complain message
  throw (.exit status)

/-- Lets time pass. -/
def pause (milliseconds : Nat) : Eval Unit := do
  let s ← get
  let clock := s.clock + milliseconds
  set { s with clock }
  if s.limit.any (· ≤ clock) then throw .timedOut

/-- Ends the shell if a variable keeps its value; the complaint starts with `start`. -/
def requireFree (name : String) (start : String := "") : Eval Unit := do
  if (← get).fixed.contains name then abort (start ++ name ++ ": is read only")

def setVariable (name value : String) : Eval Unit := do
  requireFree name
  modify fun s => { s with
    vars := s.vars.insert name value
    exported := if s.settings.exportsAll then s.exported.insert name () else s.exported }

def unsetVariable (name : String) : Eval Unit :=
  modify fun s => { s with
    vars := Table.ofList (s.vars.entries.filter (·.1 ≠ name)) }

def valueOf? (name : String) : Eval (Option String) := return (← get).vars.get? name

/-- The value of a parameter, if it has one. -/
def parameter? (name : String) : Eval (Option String) := do
  let s ← get
  match name with
  | "#" => return some (Text.decimal s.arguments.length)
  | "?" => return some (Text.decimal s.status)
  | "$" => return some processNumber
  | "@" => return some (" ".intercalate s.arguments)
  | "*" => return some ((String.ofList (s.separators.take 1)).intercalate s.arguments)
  | "!" => return some ""
  | "-" => return some (String.ofList s.settings.letters)
  | "0" => return some s.name
  | name =>
    match Text.readNat? 10 name.toList with
    | some n => return s.arguments[n - 1]?
    | none => return s.vars.get? name

/-- The variables that programs see. -/
def environment : Eval (List (String × String)) := do
  let s ← get
  return s.vars.entries.filter fun (k, _) => s.exported.contains k

/-- Does something in a shell of its own: of what it changes only files, output and time stay, and
the input it leaves. A signal ends this shell too, unless the other one is a `process`. -/
def inSubshell (body : Eval Unit) (process : Bool := false) : Eval Unit := do
  let s ← get
  let stopped ← tryCatch (do body; return none) fun
    | .exit status => return some status
    | .returned status => return some status
    | .leaveLoop _ | .nextRound _ => return some 0
    | .killed signal =>
      if process then do
        modify fun t => { t with sinks := s.sinks }
        write 2 (Signal.notice signal).toUTF8
        return some (128 + signal)
      else throw (.killed signal)
    | stop => throw stop
  let t ← get
  set { s with
    disk := { t.disk with current := s.disk.current }, buffers := t.buffers, clock := t.clock,
    input := t.input, status := (stopped.getD t.status) % 256 }

/-- Does something with its output in a buffer, which is the answer. -/
def captured (body : Eval Unit) : Eval ByteArray := do
  let s ← get
  let n := s.buffers.size
  set { s with buffers := s.buffers.push ByteArray.empty, sinks := (1, .buffer n) :: s.sinks }
  inSubshell body
  let t ← get
  set { t with buffers := t.buffers.pop, sinks := s.sinks }
  return t.buffers.getD n ByteArray.empty

/-- Runs a utility with arguments; complaints start with `start`. -/
def useUtility (utility : Utility) (arguments : List String) (start : String := "") :
    Eval Unit := do
  let s ← get
  let effect := utility ⟨arguments, s.input, s.disk, ← environment⟩
  set { s with
    disk := { effect.disk with current := s.disk.current }, input := effect.unread,
    status := effect.status }
  write 1 effect.output
  let errors := ((effect.errors.toList.splitOn '\n').filter (!·.isEmpty)).map fun line =>
    start ++ String.ofList line ++ "\n"
  write 2 (String.join errors).toUTF8
  pause effect.pause

/-- Runs a utility that is a part of the shell, in whose name it complains. -/
def useBuiltin (utility : Utility) (arguments : List String) : Eval Unit := do
  let s ← get
  useUtility utility arguments (s.name ++ ": " ++ Text.decimal s.line ++ ": ")

/-! ## Redirections -/

/-- What is said about a file that cannot be made. -/
def creationFault : Files.Fault → String
  | .notFound | .notDirectory => "Directory nonexistent"
  | fault => fault.words

/-- What is said about a file that cannot be read. -/
def openingFault : Files.Fault → String
  | .notFound | .notDirectory => "No such file"
  | fault => fault.words

/-- Sends a stream somewhere. -/
def redirect (stream : Nat) (sink : Sink) : Eval Unit :=
  modify fun s => { s with sinks := (stream, sink) :: s.sinks }

/-- Sends a stream to a file, which is emptied first unless it is to be appended to; tells whether
that can be done. -/
def redirectTo (stream : Nat) (path : String) (appended : Bool) : Eval Bool := do
  let s ← get
  if path = "/dev/stderr" || path = "/dev/stdout" then
    redirect stream ((s.sinks.lookup (if path = "/dev/stderr" then 2 else 1)).getD .nowhere)
    return true
  else
    let made := do
      let location ← s.disk.target path
      let d ← if appended then s.disk.append path ByteArray.empty
        else s.disk.write path ByteArray.empty
      return (location, d)
    match made with
    | .ok (location, disk) =>
      set { s with disk }
      redirect stream (.file location)
      return true
    | .error fault =>
      complain ("cannot create " ++ path ++ ": " ++ creationFault fault)
      return false

/-- Takes the input from a file; tells whether that can be done. -/
def readFrom (path : String) : Eval Bool := do
  let s ← get
  match s.disk.read path with
  | .ok input =>
    set { s with input }
    return true
  | .error fault =>
    complain ("cannot open " ++ path ++ ": " ++ openingFault fault)
    return false

end Eval

end Briefing.Shell
