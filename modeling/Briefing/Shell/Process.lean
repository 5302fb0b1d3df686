import Briefing.Shell.Run

/-!
# Processes

A process runs a script of the shell or a program in a directory, and ends by itself, by a signal,
or because its time is over.
-/

namespace Briefing.Shell

open Files (Fault)

/-- How a process ends. -/
inductive Ending
  | exited (status : Nat)
  | killed (signal : Nat)
  | timedOut
  deriving DecidableEq, Repr

/-- What is said about the end of a process that ended before its time was over. -/
def Ending.message : Ending → String
  | exited status => "exit status: " ++ Text.decimal status
  | killed signal =>
    match Signal.name? signal with
    | some name => "signal: " ++ Text.decimal signal ++ " (SIG" ++ name ++ ")"
    | none => "signal: " ++ Text.decimal signal
  | timedOut => "timeout"

/-- A finished process: how it ended, what it wrote, and the disk it left. -/
structure Finished where
  ending : Ending
  output : ByteArray
  errors : ByteArray
  disk : Disk

/-- What processes start with: variables, and how many milliseconds they may take. -/
structure Surroundings where
  vars : List (String × String)
  limit : Option Nat

namespace Surroundings

variable (around : Surroundings)

/-- The directories in which programs are looked for. -/
def path : String := (around.vars.lookup "PATH").getD defaultPath

/-- A shell that starts with arguments and calls itself by a name. -/
def start (d : Disk) (name : String) (arguments : List String) : State where
  disk := d
  vars := Table.ofList (around.vars ++ [("PWD", (Disk.pathOf d.current).text)])
  exported := Table.ofList ((around.vars ++ [("PWD", "")]).map fun (k, _) => (k, ()))
  arguments := arguments
  name := name
  functions := ∅
  hidden := none
  fixed := ∅
  traps := []
  loops := 0
  status := 0
  inner := none
  settings := {}
  tested := false
  input := ByteArray.empty
  buffers := #[ByteArray.empty, ByteArray.empty]
  sinks := [(0, .nowhere), (1, .buffer 0), (2, .buffer 1)]
  clock := 0
  limit := around.limit
  line := 1

/-- How many steps a process may take. -/
def stepLimit : Nat := 1000000

/-- Does something in a shell from its start to its end. -/
def finish (d : Disk) (name : String) (arguments : List String) (body : Eval Unit) : Finished :=
  let (result, s) := ((do Eval.pause 0; body) : Eval Unit).run (around.start d name arguments)
  let ending := match result with
    | .ok () => Ending.exited s.status
    | .error (.exit status) | .error (.returned status) => .exited (status % 256)
    | .error (.killed signal) => .killed signal
    | .error .timedOut => .timedOut
    | .error (.leaveLoop _) | .error (.nextRound _) => .exited 0
  ⟨ending, s.buffers.getD 0 ByteArray.empty, s.buffers.getD 1 ByteArray.empty,
    { s.disk with current := d.current }⟩

/-- The disk with a directory as the one where relative paths start. -/
def enter (d : Disk) (directory : Path) : Except Fault Disk := do
  match ← d.find directory with
  | (location, .directory _) => return { d with current := location }
  | _ => throw .notDirectory

/-- Whether the shell is found among programs. -/
def hasShell : Bool :=
  (around.path.toList.splitOn ':').any fun directory =>
    Utility.isShell ((Path.mk (String.ofList directory)).join "sh").text

/-- The letters that the shell takes as options. -/
def optionLetters : List Char := "abcefilmnopsuvxCEIV".toList

/-- What is wrong with options after which a script is missing; of an unknown letter only the first
byte is shown. -/
def missingScript (letters : List Char) : ByteArray :=
  match letters.find? (!optionLetters.contains ·) with
  | some c => "Illegal option -".toUTF8 ++ Utility.ofBytes ((Text.encodeChar c).take 1)
  | none => "-c requires an argument".toUTF8

/-- What is wrong with a script that reads as options of the shell, if it does. -/
def optionFault? : List Char → Option ByteArray
  | ['-', '-'] => some (missingScript [])
  | '-' :: letters | '+' :: letters => some (missingScript letters)
  | _ => none

/-- Runs a script of the shell. -/
def runScript (d : Disk) (script : String) : Except Fault Finished :=
  if around.hasShell then
    .ok <| around.finish d "sh" [] <|
      match optionFault? script.toList with
      | some fault => do
        Eval.write 2 ("sh: 0: ".toUTF8 ++ fault ++ "\n".toUTF8)
        throw (.exit 2)
      | none => Shell.doToEnd stepLimit (Shell.runScript stepLimit (lex script.toList))
  else .error .notFound

/-- The path of a program to execute: a name without a slash is looked for. -/
def programPath (d : Disk) (program : String) : Except Fault String :=
  match findProgram d around.path program with
  | some path => .ok path
  | none => .error .notFound

/-- Runs a program with arguments. -/
def runProgram (d : Disk) (program : String) (arguments : List String) :
    Except Fault Finished := do
  let path ← around.programPath d program
  match programAt d path with
  | .utility utility before =>
    return around.finish d path [] (Eval.useUtility utility (before ++ arguments))
  | .script settings text =>
    return around.finish d path arguments do
      modify fun s => { s with settings }
      Shell.doToEnd stepLimit (Shell.runScript stepLimit (lex text))
  | .shell | .environment =>
    return around.finish d path [] (Shell.execute stepLimit path path arguments)
  | .unknown => throw .notProgram
  | .forbidden => throw .permissionDenied
  | .missing =>
    match d.find path with
    | .error fault => throw fault
    | .ok _ => throw .notFound

end Surroundings

end Briefing.Shell
