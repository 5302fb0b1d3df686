import Briefing.Files.Disk

/-!
# Changes

What was changed between two states of a disk: what is gone, what was made and what was written.
Done in their order, the changes make the one of the other.
-/

namespace Briefing.Files

/-- A change at a location. -/
inductive Change
  | remove (location : Location)
  | makeDirectory (location : Location)
  /-- A file with new contents or new permission bits. -/
  | write (location : Location) (contents : ByteArray) (mode : Nat)
  deriving Inhabited

/-- How a state of a disk differs from another one at a location, if it does. -/
def changeAt? (old : Disk) (location : Location) : Entry → Option Change
  | .directory _ =>
    if old.isDirectoryAt location then none else some (.makeDirectory location)
  | .file contents mode =>
    match old.entry? location with
    | some (.file oldContents oldMode) =>
      if oldContents.data = contents.data && oldMode = mode then none
      else some (.write location contents mode)
    | _ => some (.write location contents mode)
  | .link _ | .device _ => none

/-- The changes that make a state of a disk of another one: first what is gone, then what is new,
directories before what is in them. -/
def changes (old new : Disk) : List Change :=
  let gone := (old.entries.map (·.1)).filter fun location => (new.entry? location).isNone
  let present := new.entries.mergeSort fun a b => a.1.length ≤ b.1.length
  (gone.mergeSort fun a b => b.length ≤ a.length).map Change.remove ++
    present.filterMap fun (location, entry) => changeAt? old location entry

end Briefing.Files
