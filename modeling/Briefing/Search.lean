import Briefing.Error
import Briefing.Selectors

/-!
# Searching for files

Files of a kind are searched below bases: the working directory, the search roots in order, the
user's own directory last. Below each base they are searched at the places of the agents, and in a
place that is a directory in the order of a walk. A file that is reached twice counts once.
-/

namespace Briefing

/-- A directory that is searched; `isHome` tells whether it is the user's own. -/
structure Base where
  directory : Path
  isHome : Bool

/-- A file that was found: its path, and its path below the base. -/
structure Candidate where
  path : Path
  relative : Path

namespace Search

/-- The endings of the names of files that are looked at within directories. -/
def isMarkdown (path : Path) : Bool :=
  path.extension? = some "md" || path.extension? = some "mdc"

/-- The places for files of a kind below a base. -/
def locations (table : AgentTable) (base : Base) (kind : Kind) : List Path :=
  let places := if base.isHome ∧ kind = .rules then table.userRules else table.places kind
  places.map base.directory.join

/-- The files of a place: itself, whatever its name, or those with a proper name below it. -/
def filesAt (d : Disk) (place : Path) : Except Error (List Path) :=
  if d.isFile place then .ok [place]
  else if d.isDirectory place then
    match Files.walk d place with
    | .ok files => .ok (files.filter isMarkdown)
    | .error fault => .error (.walk fault)
  else .ok []

/-- The files of a kind below a base. -/
def below (d : Disk) (table : AgentTable) (kind : Kind) (base : Base) :
    Except Error (List Candidate) := do
  let files ← (locations table base kind).mapM (filesAt d)
  return files.flatten.map fun path => ⟨path, (path.stripPrefix? base.directory).getD path⟩

/-- The items without those that are the same file as an earlier one, or one of `seen`. -/
def distinctFiles {α : Type} (d : Disk) (path : α → Path) (seen : List Location) :
    List α → List α
  | [] => []
  | x :: xs =>
    let location := d.identity (path x)
    if seen.contains location then distinctFiles d path seen xs
    else x :: distinctFiles d path (location :: seen) xs

/-- The files of a kind below all bases, in the order of the search. -/
def candidates (d : Disk) (table : AgentTable) (bases : List Base) (kind : Kind) :
    Except Error (List Candidate) := do
  let found ← bases.mapM (below d table kind)
  return distinctFiles d Candidate.path [] found.flatten

/-- The document among candidates that is named and passes the selectors, if there is one;
`first` is the one that was found before. -/
def pick (d : Disk) (selectors : Selectors) (lookup : Lookup) (name : String) :
    Option Document → List Candidate → Except Error (Option Document)
  | first, [] => .ok first
  | first, c :: cs => do
    if c.path.stem ≠ name then pick d selectors lookup name first cs
    else
      let document ← d.load c.path
      if !selectors.matchesFrontMatter document.frontMatter then
        pick d selectors lookup name first cs
      else
        match first with
        | some first => throw (.duplicate lookup name first.path document.path)
        | none => pick d selectors lookup name (some document) cs

/-- What is searched to look something up. -/
def kindOf : Lookup → Kind
  | .task => .tasks
  | .command => .commands

/-- The one document with a name that passes the selectors. -/
def named (d : Disk) (table : AgentTable) (bases : List Base) (selectors : Selectors)
    (lookup : Lookup) (name : String) : Except Error (Option Document) := do
  pick d selectors lookup name none (← candidates d table bases (kindOf lookup))

/-- The files of skills at a place: one in each directory below it, in the order of their names. -/
def skillFilesAt (d : Disk) (place : Path) : List Path :=
  match d.find place with
  | .ok (location, .directory _) =>
    (d.namesIn location).map fun (name : String) => (place.join name).join skillFile
  | _ => []

/-- The files of skills below all bases, in the order of the search. -/
def skillFiles (d : Disk) (table : AgentTable) (bases : List Base) : List Path :=
  let places := bases.flatMap (locations table · .skills)
  distinctFiles d id [] ((places.flatMap (skillFilesAt d)).filter d.isFile)

/-- The skills below all bases that pass the selectors. -/
def skills (d : Disk) (table : AgentTable) (bases : List Base) (selectors : Selectors) :
    Except Error (List Skill) := do
  let documents ← (skillFiles d table bases).filterMapM fun path => do
    let document ← d.load path
    if !selectors.matchesFrontMatter document.frontMatter then return none
    match Skill.ofDocument document with
    | .ok skill => return some skill
    | .error fault => throw (.badSkill path fault)
  return documents

end Search

end Briefing
