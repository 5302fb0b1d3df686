import Briefing.Files.Disk

/-!
# Walking directories

A walk visits everything below a directory: the names of each directory in the order of their
bytes, what is in a subdirectory right after the subdirectory. Links are followed. A link that
leads nowhere ends the walk with a fault, and so does one that leads to a directory the walk is in.
-/

namespace Briefing.Files

/-- Why a walk ends early. -/
inductive WalkFault
  | unreadable (path : Path) (fault : Fault)
  | circle (path ancestor : Path)
  deriving DecidableEq

/-- What the fault says to a reader. -/
def WalkFault.message : WalkFault → String
  | unreadable path fault =>
    "IO error for operation on " ++ path.text ++ ": " ++ fault.message
  | circle path ancestor =>
    "File system loop found: " ++ path.text ++ " points to an ancestor " ++ ancestor.text

/-- A directory that a walk is in: where it is, and the path by which it was reached. -/
structure Ancestor where
  location : Location
  path : Path

/-- The regular files below a directory, in the order of the walk; `within` are the directories
the walk is in, the innermost first. -/
def walkIn (d : Disk) : Nat → List Ancestor → Except WalkFault (List Path)
  | 0, _ | _, [] => .ok []
  | fuel + 1, here :: within => do
    let below ← (d.namesIn here.location).mapM fun (name : String) => do
      let path := here.path.join name
      let enter := fun location => walkIn d fuel (⟨location, path⟩ :: here :: within)
      match d.entry? (here.location ++ [name]) with
      | some (.file ..) => return [path]
      | some (.device _) => return []
      | some (.directory _) => enter (here.location ++ [name])
      | some (.link _) =>
        match d.find path with
        | .error fault => throw (.unreadable path fault)
        | .ok (location, .directory _) =>
          match (here :: within).find? (·.location = location) with
          | some ancestor => throw (.circle path ancestor.path)
          | none => enter location
        | .ok (_, .file ..) => return [path]
        | .ok _ => return []
      | none => return []
    return below.flatten

/-- The regular files below the directory that a path leads to. No walk is deeper than the number
of directories times the length of a location. -/
def walk (d : Disk) (root : Path) : Except WalkFault (List Path) :=
  match d.canonical? root with
  | none => .ok []
  | some location =>
    let n := d.entries.length + 1
    walkIn d (n * n) [⟨location, root⟩]

end Briefing.Files
