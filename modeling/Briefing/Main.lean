import Briefing.CommandLine.Reach
import Briefing.Files.Change
import Std.Data.HashMap
import Std.Data.HashSet

/-!
# The program

The program reads the files within its reach, carries out its command line on them, prints what it
has to say and writes back what was changed.
-/

namespace Briefing.Program

open Files (Change)

/-- The variables that the program and what it runs may look at. -/
def variableNames : List String :=
  ["HOME", "PATH", "TMPDIR", "USER", "LANG", CommandLine.directoryVariable]

/-- The variables that are set. -/
def readVariables : IO (List (String × String)) :=
  variableNames.filterMapM fun name => do
    return (← IO.getEnv name).map (name, ·)

/-- The directories on the way to a location. -/
def parentsOf (location : Location) : List (Location × Entry) :=
  (List.range (location.length - 1)).map fun n =>
    (location.take (n + 1), .directory Disk.directoryMode)

/-- The permission bits of a file: one that starts like a script may be executed. -/
def modeOf (contents : ByteArray) : Nat :=
  if contents.toList.take 2 = "#!".toUTF8.toList then Disk.directoryMode else Disk.fileMode

/-- What was found among the files of the machine. -/
structure Found where
  entries : Std.HashMap Location Entry
  /-- The directories that need not be looked at again. -/
  seen : Std.HashSet Location

/-- The location that the text of an absolute path names. -/
def locationOf (path : String) : Location := (Disk.steps path).filter (· ≠ "")

/-- What every machine has. Its devices and programs are not looked at. -/
def Found.standard : Found where
  entries := .ofList Machine.entries
  seen := .ofList (Machine.entries.filterMap fun (location, entry) =>
    match entry with
    | .directory _ | .link _ => none
    | .file .. | .device _ => some location)

/-- What was found, with an entry and the directories on the way to it. -/
def Found.add (found : Found) (location : Location) (entry : Entry) : Found :=
  let entries := found.entries.insertMany (parentsOf location)
  { found with entries := entries.insert location entry }

/-- Looks at paths and at all that is below them or that links among them lead to. The first
argument limits how many paths are looked at. -/
def survey : Nat → Found → List String → IO Found
  | 0, found, _ | _, found, [] => return found
  | fuel + 1, found, path :: paths => do
    let .ok real ← (IO.FS.realPath path).toBaseIO | survey fuel found paths
    let target := toString real
    let location := locationOf target
    if path.startsWith "/" && locationOf path ≠ location then
      survey fuel (found.add (locationOf path) (.link target)) (target :: paths)
    else if found.seen.contains location then survey fuel found paths
    else
      match ← real.readDir.toBaseIO with
      | .ok names =>
        let found := found.add location (.directory Disk.directoryMode)
        let below := names.toList.map fun name => target ++ "/" ++ name.fileName
        survey fuel { found with seen := found.seen.insert location } (below ++ paths)
      | .error _ =>
        match ← (IO.FS.readBinFile real).toBaseIO with
        | .ok contents => survey fuel (found.add location (.file contents (modeOf contents))) paths
        | .error _ => survey fuel found paths

/-- How many paths are looked at. -/
def surveyLimit : Nat := 1000000

/-- The invocation on the disk with the files at its places. -/
def widen (inv : CommandLine.Invocation) : IO CommandLine.Invocation := do
  let found ← survey surveyLimit .standard (inv.places.map Path.text)
  return { inv with disk := { inv.disk with entries := found.entries.toList } }

/-- Makes a change among the files of the machine. -/
def make : Change → IO Unit
  | .remove location => do
    let path := (Disk.pathOf location).text
    match ← (IO.FS.removeFile path).toBaseIO with
    | .ok () => return ()
    | .error _ => IO.FS.removeDirAll path
  | .makeDirectory location => IO.FS.createDirAll (Disk.pathOf location).text
  | .write location contents mode => do
    let path := (Disk.pathOf location).text
    IO.FS.writeBinFile path contents
    let readable : IO.AccessRight := ⟨true, true, mode &&& 0o100 ≠ 0⟩
    let others : IO.AccessRight := ⟨true, false, mode &&& 0o001 ≠ 0⟩
    IO.setAccessRights path ⟨readable, others, others⟩

end Briefing.Program

open Briefing in
/-- Carries out the command line that the program was started with. -/
def main (arguments : List String) : IO UInt32 := do
  let vars ← Program.readVariables
  let current := Program.locationOf (toString (← IO.currentDir))
  let inv : CommandLine.Invocation := ⟨arguments, vars, ⟨[], current⟩⟩
  -- What a manifest lists is known only when the manifest has been read.
  let inv ← Program.widen (← Program.widen inv)
  let done := inv.carryOut
  (Files.changes inv.disk done.disk).forM Program.make
  IO.print done.output
  if let some failure := done.failure then IO.eprintln ("error: " ++ failure.message)
  return done.status.toUInt32
