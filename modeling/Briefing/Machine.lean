import Briefing.Files.Standard
import Briefing.Session
import Briefing.Shell.Process

/-!
# The machine

The machine itself as a host: it runs commands with its shell and executes scripts, and it fetches
repositories with the program `git`. It has no way to the web.
-/

namespace Briefing

open Shell (Surroundings Finished Ending)

namespace Machine

/-- What every machine has on its disk. -/
def entries : List (Location × Entry) := Disk.standard ++ Shell.programFiles

variable (around : Surroundings)

/-- What is said about a program that does not start. -/
def startFault (fault : Files.Fault) : Outcome := ⟨false, "failed to spawn: " ++ fault.message⟩

/-- Starts a process if no text for it holds a NUL. -/
def startWith (texts : List String) (process : Except Files.Fault Finished) :
    Except Files.Fault Finished :=
  if texts.any (·.toList.contains '\x00') then .error .nulInArgument else process

/-- Runs a process, which is given a text, in a directory, and tells how it ended by `outcome`. -/
def runIn (d : Disk) (directory : Path) (text : String)
    (process : Disk → String → Except Files.Fault Finished)
    (outcome : Finished → Outcome) : Outcome × Disk :=
  match startWith [directory.text, text] (do process (← Surroundings.enter d directory) text) with
  | .error fault => (startFault fault, d)
  | .ok finished => (outcome finished, { finished.disk with current := d.current })

/-- The outcome of a command: what it wrote, then its errors; nothing if its time was over. -/
def commandOutcome (finished : Finished) : Outcome :=
  if finished.ending = .timedOut then ⟨false, ""⟩
  else
    ⟨finished.ending = .exited 0,
      Text.decodeBytes finished.output ++ Text.decodeBytes finished.errors⟩

/-- The outcome of a bootstrap, which tells only of a failure. -/
def bootstrapOutcome (finished : Finished) : Outcome :=
  match finished.ending with
  | .exited 0 => ⟨true, ""⟩
  | .timedOut =>
    ⟨false, "timed out after " ++ Text.decimal ((around.limit.getD 0) / 1000) ++ "s"⟩
  | ending => ⟨false, "exited with " ++ ending.message⟩

/-- Runs a program for a call. -/
def run (c : Call) (d : Disk) : Outcome × Disk :=
  match c with
  | .shell command directory =>
    runIn d directory command around.runScript commandOutcome
  | .script path directory =>
    runIn d directory path.text (around.runProgram · · []) (bootstrapOutcome around)
  | .inline text directory =>
    runIn d directory text around.runScript (bootstrapOutcome around)

/-! ## Fetching -/

/-- The path of a program that is found and may be executed. -/
def executable? (d : Disk) (name : String) : Option Path :=
  ((around.path.toList.splitOn ':').map fun directory =>
    (Path.mk (String.ofList directory)).join name).find? fun candidate =>
      match d.find candidate with
      | .ok (_, .file _ mode) => mode &&& 0o111 ≠ 0
      | _ => false

/-- The arguments with which a repository is cloned. -/
def cloneArguments (address : String) (destination : Path) : List String :=
  let (address, reference) := Source.cutReference address
  let branch := match reference with
    | some reference => ["--branch", reference]
    | none => []
  ["clone", "--quiet", "--depth", "1"] ++ branch ++ [address, destination.text]

/-- Clones the repository of a source. -/
def clone (source : Source) (address : String) (destination : Path) (d : Disk) :
    Except Error Unit × Disk :=
  match executable? around d "git" with
  | none => (.error (.fetchFailed source "git not found: cannot find binary path"), d)
  | some git =>
    let arguments := cloneArguments address destination
    match startWith arguments ({ around with limit := none }.runProgram d git.text arguments) with
    | .error fault => (.error (.file fault), d)
    | .ok finished =>
      if finished.ending = .exited 0 then (.ok (), finished.disk)
      else
        (.error (.fetchFailed source (Text.trim (Text.decodeBytes finished.errors))),
          finished.disk)

/-- What is said about a source on the web. -/
def noWeb (source : Source) : Error := .fetchFailed source "no way to the web"

/-- Fetches a source as a directory. -/
def fetchDirectory (source : Source) (destination : Path) (d : Disk) : Except Error Unit × Disk :=
  match Source.repository? source with
  | some address => clone around source address destination d
  | none =>
    if Source.isHttp source then (.error (noWeb source), d)
    else
      (.error (.fetchFailed source
        "unsupported source; use git::<url>, a .git URL or http(s)://"), d)

/-- Fetches a source as a text. -/
def fetchText (source : Source) (d : Disk) : Except Error String :=
  if Source.isLocal source then
    let path := Source.localPath source "."
    match d.readText path with
    | .ok text => .ok text
    | .error fault => .error (.unreadable path fault)
  else if Source.isHttp source then .error (noWeb source)
  else .error (.fetchFailed source "only http(s) URLs can be read directly")

/-- The directory for what is not to last. -/
def temporary : Path := (around.vars.lookup "TMPDIR").getD "/tmp"

/-- The machine as a host. -/
def host : Host where
  run c s := run around c s.disk
  fetchDirectory source destination s := fetchDirectory around source destination s.disk
  fetchText source s := fetchText source s.disk
  temporary := temporary around

end Machine

end Briefing
