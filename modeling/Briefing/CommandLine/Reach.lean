import Briefing.CommandLine.Carry

/-!
# The reach of a command line

What a command line does depends only on the files at some places: those of the working directory
and the local sources, those that users have below their own directory, and those where something
is written.
-/

namespace Briefing.CommandLine

/-- The place where a request writes, if it does. -/
def Request.outputPlaces (request : Request) : List Path :=
  match request.action with
  | .run r =>
    r.output.toList.map fun path => (path.parent?.filter fun p => p.text ≠ "").getD "."
  | .list => []

namespace Invocation

variable (inv : Invocation)

/-- The places below the user's own directory. -/
def homePlaces : List Path :=
  match inv.vars.lookup "HOME" with
  | none => []
  | some home =>
    let table := AgentTable.standard
    let places := table.userRules ++ [.commands, .tasks, .skills].flatMap table.places
    places.map (Path.mk home).join

/-- The local sources of a request: those that it names, and those that its manifest lists. -/
def localSources (request : Request) : List Path :=
  let directory := inv.directory request
  let localPaths := fun (sources : List Source) =>
    (sources.filter Source.isLocal).map (Source.localPath · directory)
  let manifest := localPaths request.manifest.toList
  let listed := manifest.flatMap fun path =>
    match inv.disk.readText path with
    | .ok text => localPaths (Source.manifest text)
    | .error _ => []
  manifest ++ localPaths request.sources ++ listed

/-- The places on whose files the command line depends, as far as the disk tells. -/
def places : List Path :=
  match readRequest inv.arguments inv.vars with
  | .error _ => []
  | .ok request =>
    Disk.pathOf inv.disk.current :: inv.directory request :: inv.localSources request ++
      inv.homePlaces ++ request.outputPlaces

end Invocation

end Briefing.CommandLine
