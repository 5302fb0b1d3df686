import Briefing.Files.Disk

/-!
# Output

A text is written to a file as a whole or not at all: it goes to a new file beside the target,
which then takes the target's name. If a step fails the new file is removed.
-/

namespace Briefing.Output

open Files (Fault)

/-- The steps by which a file is written. -/
inductive Step
  | makeParents
  | makeBeside
  | writeText
  | rename
  deriving DecidableEq, Repr

/-- A step that the machine fails to do, after it has done a part of it. -/
structure Trouble where
  step : Step
  fault : Fault
  /-- How many bytes of the text are written. -/
  written : Nat
  /-- How many directories are not made, besides the last one. -/
  unmade : Nat

/-- What the name of a new file starts with. -/
def besideName : String := ".coding-context-"

/-- The permission bits of a new file. -/
def besideMode : Nat := 0o600

/-- The directory that the target of a path is in. -/
def directoryOf (path : Path) : Path :=
  match path.parent? with
  | some parent => if parent.text.isEmpty then "." else parent
  | none => "."

/-- The location that a file can take by being given a path as its name. -/
def nameable (d : Disk) (path : Path) : Except Fault Location := do
  if path.text.isEmpty then throw .notFound
  match d.locate path with
  | .error .alreadyExists => throw .busy
  | .error fault => throw fault
  | .ok (directory, name) =>
    if name = "." ∨ name = ".." then throw .busy
    else if path.text.toList.getLast? = some '/' then throw .notDirectory
    else if d.isDirectoryAt (directory ++ [name]) then throw .isDirectory
    else return directory ++ [name]

/-- The location of a new file in a directory, which is named from the root. Nothing is there. -/
def beside (d : Disk) (directory : Path) : Except Fault Location := do
  let directory := d.absolute directory
  let location ← d.resolve true directory
  if !d.isDirectoryAt location then throw .notDirectory
  let name := d.freshName location besideName
  if Disk.pathLimit < (directory / name).text.utf8ByteSize then throw .nameTooLong
  if (d.entry? (location ++ [name])).isSome then throw .alreadyExists
  return location ++ [name]

/-- A step, which fails if the machine does. -/
def attempt {α : Type} (trouble : Option Trouble) (step : Step) (result : Except Fault α) :
    Except Fault α :=
  match trouble with
  | some t => if t.step = step then .error t.fault else result
  | none => result

/-- The directory so many steps above another one. -/
def above : Nat → Path → Path
  | 0, p => p
  | n + 1, p =>
    match p.parent? with
    | some parent => above n parent
    | none => ""

/-- Makes a directory with those on the way to it, or as many of them as the machine does. -/
def makeParents (trouble : Option Trouble) (d : Disk) (directory : Path) :
    Disk × Except Fault Unit :=
  match trouble with
  | some t =>
    if t.step = .makeParents then ((d.makePath (above (t.unmade + 1) directory)).1, .error t.fault)
    else d.makePath directory
  | none => d.makePath directory

/-- What is in the new file once its text is written, if it could be written. -/
def besideContents (trouble : Option Trouble) (text : String) : ByteArray :=
  match trouble with
  | some t => text.toUTF8.extract 0 t.written
  | none => text.toUTF8

/-- Writes a text to a new file at a location and gives the file another location. -/
def moveInto (trouble : Option Trouble) (d : Disk) (path : Path) (text : String)
    (location : Location) : Disk × Except Fault Unit :=
  match attempt trouble .writeText (.ok ()) with
  | .error fault =>
    let d := d.put location (.file (besideContents trouble text) besideMode)
    (d.remove location, .error fault)
  | .ok () =>
    let d := d.put location (.file text.toUTF8 besideMode)
    match attempt trouble .rename (nameable d path) with
    | .error fault => (d.remove location, .error fault)
    | .ok target => ((d.remove location).put target (.file text.toUTF8 besideMode), .ok ())

/-- Writes a text to the file of a path. Missing directories on the way are made. -/
def write (d : Disk) (path : Path) (text : String) (trouble : Option Trouble := none) :
    Disk × Except Fault Unit :=
  let directory := directoryOf path
  match makeParents trouble d directory with
  | (d, .error fault) => (d, .error fault)
  | (d, .ok ()) =>
    match attempt trouble .makeBeside (beside d directory) with
    | .error fault => (d, .error fault)
    | .ok location => moveInto trouble d path text location

end Briefing.Output
