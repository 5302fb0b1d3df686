import Briefing.Assembly
import Briefing.CommandLine.Columns
import Briefing.CommandLine.Request
import Briefing.Machine
import Briefing.Output
import Briefing.TaskList

/-!
# Carrying out a command line

A command line is carried out on a disk and ends with a status, with what it prints, and with the
disk that it leaves.
-/

namespace Briefing.CommandLine

/-- Why a request fails: an error, and what was about to be done. -/
structure Failure where
  context : Option String
  error : Error

/-- What is said about a failure. -/
def Failure.message (f : Failure) : String :=
  match f.context with
  | some context => context ++ ": " ++ f.error.fullMessage
  | none => f.error.fullMessage

/-- How a command line ends. -/
structure Completion where
  status : Nat
  output : String
  failure : Option Failure
  disk : Disk

/-- What a program is started with. -/
structure Invocation where
  arguments : List String
  vars : List (String × String)
  disk : Disk

def programName : String := "coding-context"

def programVersion : String := "0.1.0"

/-- The name and the version of the program, or of a command of it. -/
def versionText (command : Option String) : String :=
  let name := match command with
    | some command => programName ++ "-" ++ command
    | none => programName
  name ++ " " ++ programVersion ++ "\n"

/-- How the program is used. -/
def helpText : String :=
  "Assemble rules, skills and a task into a single prompt for a coding agent\n\n" ++
    "Usage: " ++ programName ++ " [OPTIONS] <COMMAND>\n\n" ++
    "Commands:\n  run   Assemble the context for a task and print it\n" ++
    "  list  List the tasks visible from the search paths\n"

/-- The status of a request that fails, and that of a command line that is no request. -/
def failureStatus : Nat := 1

def usageStatus : Nat := 2

/-- The text with a line break at its end, if it is not empty. -/
def withBreak (text : String) : String :=
  if text.isEmpty || text.toList.getLast? = some '\n' then text else text ++ "\n"

namespace Invocation

variable (inv : Invocation)

/-- The working directory of a request. -/
def directory (request : Request) : Path :=
  let current := Disk.pathOf inv.disk.current
  (request.directory.map current.join).getD current

/-- The options of a request that all actions have in common. -/
def searchOptions (request : Request) : Options where
  directory := inv.directory request
  home := (inv.vars.lookup "HOME").map Path.mk
  sources := request.sources
  manifest := request.manifest
  params := ∅
  selectors := ∅
  agent := none
  resume := false
  prompt := none
  table := AgentTable.standard

/-- The agent of a name. -/
def agentOf : Option String → Except Error (Option Agent)
  | none => .ok none
  | some name =>
    match Agent.ofName? name with
    | some agent => .ok (some agent)
    | none => .error (.unknownAgent name)

/-- The options of a request for a prompt. -/
def runOptions (request : Request) (r : RunRequest) : Except Error Options := do
  let params ← (Params.ofAssignments r.params).mapError Error.badParam
  let selectors ← (Selectors.ofAssignments r.selectors).mapError Error.badSelector
  let agent ← agentOf r.agent
  return { inv.searchOptions request with
    params, selectors, agent, resume := r.resume, prompt := r.prompt }

/-- The machine on which programs run for at most so many seconds. -/
def host (timeout : Option Nat) : Host :=
  Machine.host ⟨inv.vars, timeout.map (· * 1000)⟩

/-- A failure that leaves a disk. -/
def fails (d : Disk) (context : Option String) (error : Error) : Completion :=
  ⟨failureStatus, "", some ⟨context, error⟩, d⟩

/-- A success that leaves a disk. -/
def prints (d : Disk) (output : String) : Completion := ⟨0, output, none, d⟩

/-- What is printed for an assembly. -/
def report (request : Request) (output : Option Path) (a : Assembly) : String :=
  if request.json then a.toJson.pretty ++ "\n"
  else
    match output with
    | some path =>
      "Wrote " ++ path.text ++ " (" ++ Text.decimal a.rules.length ++ " rules, " ++
        Text.decimal a.tokens ++ " tokens)\n"
    | none => withBreak a.prompt

/-- Writes the prompt to its file, if there is one, and reports. -/
def deliver (request : Request) (output : Option Path) (a : Assembly) (d : Disk) : Completion :=
  match output with
  | none => prints d (report request output a)
  | some path =>
    match Output.write d path a.prompt with
    | (d, .ok ()) => prints d (report request output a)
    | (d, .error fault) => fails d (some ("failed to write " ++ path.text)) (.file fault)

/-- Carries out a request for a prompt. -/
def runTask (request : Request) (r : RunRequest) : Completion :=
  match inv.runOptions request r with
  | .error e => fails inv.disk none e
  | .ok options =>
    match (Assembly.assemble (inv.host r.timeout) options r.task).run ⟨inv.disk, [], []⟩ with
    | (.error e, s) => fails s.disk (some ("cannot assemble task '" ++ r.task ++ "'")) e
    | (.ok a, s) => deliver request r.output a s.disk

/-- What is printed for a list of tasks. -/
def listing (request : Request) (tasks : List TaskSummary) : String :=
  if request.json then (Json.array (tasks.map TaskSummary.toJson)).pretty ++ "\n"
  else if tasks.isEmpty then "No tasks found.\n"
  else
    let row := fun (t : TaskSummary) => [t.name, t.description.getD "", t.path.text]
    String.join ((tableLines ["NAME", "DESCRIPTION", "PATH"] (tasks.map row)).map (· ++ "\n"))

/-- Carries out a request for the list of tasks. -/
def listTasks (request : Request) : Completion :=
  match (TaskSummary.list (inv.host none) (inv.searchOptions request)).run ⟨inv.disk, [], []⟩ with
  | (.error e, s) => fails s.disk none e
  | (.ok tasks, s) => prints s.disk (listing request tasks)

/-- Carries out a command line. -/
def carryOut : Completion :=
  match readRequest inv.arguments inv.vars with
  | .error (.usage, _) => ⟨usageStatus, "", none, inv.disk⟩
  | .error (.help, _) => prints inv.disk helpText
  | .error (.version, command) => prints inv.disk (versionText command)
  | .ok request =>
    match request.action with
    | .run r => inv.runTask request r
    | .list => inv.listTasks request

end Invocation

end Briefing.CommandLine
