import Briefing.CommandLine.Options
import Briefing.Options

/-!
# Requests

What the user asks for on the command line: the prompt for a task, or the list of tasks.
-/

namespace Briefing.CommandLine

/-- What a prompt is asked for with. -/
structure RunRequest where
  task : String
  params : List String
  selectors : List String
  agent : Option String
  resume : Bool
  prompt : Option String
  /-- The file for the prompt. -/
  output : Option Path
  /-- Seconds that programs may take. -/
  timeout : Option Nat

/-- What is asked for. -/
inductive Action
  | run (request : RunRequest)
  | list

/-- A request, with what all actions have in common. -/
structure Request where
  action : Action
  directory : Option Path
  json : Bool
  sources : List Source
  manifest : Option Source

/-- Options that are allowed everywhere. -/
def commonFlags : List Flag :=
  [⟨"dir", some 'C', .path, false⟩, ⟨"json", some 'j', .nothing, false⟩,
    ⟨"verbose", some 'v', .nothing, false⟩, ⟨"help", some 'h', .help, false⟩,
    ⟨"version", some 'V', .version, false⟩]

/-- Options that say where to search. -/
def searchFlags : List Flag :=
  [⟨"search-path", some 'd', .text, true⟩, ⟨"manifest", some 'm', .text, false⟩]

/-- Options for a prompt. -/
def runFlags : List Flag :=
  [⟨"param", some 'p', .text, true⟩, ⟨"selector", some 's', .text, true⟩,
    ⟨"agent", some 'a', .text, false⟩, ⟨"resume", some 'r', .nothing, false⟩,
    ⟨"prompt", none, .text, false⟩, ⟨"output", some 'o', .path, false⟩,
    ⟨"timeout", none, .seconds, false⟩]

/-- What stands before and at the command. -/
def topGrammar : Grammar := ⟨commonFlags, ["run", "list", "help"], 0⟩

/-- What stands behind the command `run`. -/
def runGrammar : Grammar := ⟨commonFlags ++ searchFlags ++ runFlags, [], 1⟩

/-- What stands behind the command `list`. -/
def listGrammar : Grammar := ⟨commonFlags ++ searchFlags, [], 0⟩

/-- The variable that names the working directory. -/
def directoryVariable : String := "CODING_CONTEXT_DIR"

/-- The directory that is asked for: behind the command, before it, or by the variable. -/
def askedDirectory (top sub : Given) (vars : List (String × String)) :
    Except Refusal (Option Path) :=
  match vars.lookup directoryVariable with
  | some "" =>
    if top.has "dir" && sub.has "dir" then .ok ((sub.value? "dir").map Path.mk)
    else .error .usage
  | named =>
    .ok ((((sub.value? "dir").or (top.value? "dir")).or named).map Path.mk)

/-- A request, and the command whose version or help is asked for if it is none. -/
abbrev Read := Except (Refusal × Option String) Request

/-- A request to act on what is given before and behind a command. -/
def request (top sub : Given) (vars : List (String × String)) (command : String)
    (action : Action) : Read :=
  match askedDirectory top sub vars with
  | .error refusal => .error (refusal, some command)
  | .ok directory =>
    .ok ⟨action, directory, top.has "json" || sub.has "json", sub.allValues "search-path",
      sub.value? "manifest"⟩

/-- What `run` asks for, if a task is named. -/
def runRequest? (g : Given) : Option RunRequest :=
  g.operands.head?.map fun task =>
    ⟨task, g.allValues "param", g.allValues "selector", g.value? "agent", g.has "resume",
      g.value? "prompt", (g.value? "output").map Path.mk,
      (g.value? "timeout").bind fun s => seconds? s⟩

/-- The request of a command line. -/
def readRequest (arguments : List String) (vars : List (String × String)) : Read := do
  let refusedBy := fun (command : Option String) (read : Except Refusal Given) =>
    match read with
    | .ok g => Except.ok g
    | .error refusal => .error (refusal, command)
  let top ← refusedBy none (topGrammar.read arguments)
  match top.command with
  | some ("run", rest) =>
    let sub ← refusedBy (some "run") (runGrammar.read rest)
    match runRequest? sub with
    | some r => request top sub vars "run" (.run r)
    | none => throw (.usage, some "run")
  | some ("list", rest) =>
    let sub ← refusedBy (some "list") (listGrammar.read rest)
    request top sub vars "list" .list
  | some (_, topics) =>
    match topics with
    | [] | ["run"] | ["list"] | ["help"] => throw (.help, none)
    | _ => throw (.usage, none)
  | none => throw (.usage, none)

end Briefing.CommandLine
