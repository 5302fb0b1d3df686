import Briefing.Files.Fault
import Briefing.Files.Path
import Briefing.Text.Utf8

/-!
# The disk

A disk holds files, directories, symbolic links and devices, each at a location: the names that
lead to it from the root. A path leads to a location by following links; a path may follow at most
forty of them. Locations are what tells files apart, so two paths are the same file if they lead to
one location.
-/

namespace Briefing

/-- Where something is: the names that lead to it from the root. -/
abbrev Location := List String

/-- What is at a location. Files and directories have permission bits. -/
inductive Entry
  | file (contents : ByteArray) (mode : Nat)
  | directory (mode : Nat)
  | link (target : String)
  /-- A device, with what is read from it; what is written to it is lost. -/
  | device (contents : ByteArray)
  deriving Inhabited

/-- The files of a machine, and the directory where relative paths start. -/
structure Disk where
  entries : List (Location × Entry)
  current : Location

namespace Disk

open Files (Fault)

/-- What is at a location. The root is a directory. -/
def entry? (d : Disk) (location : Location) : Option Entry :=
  if location = [] then some (.directory 0o755) else d.entries.lookup location

/-- Puts an entry at a location, in the place of what is there. -/
def put (d : Disk) (location : Location) (entry : Entry) : Disk :=
  { d with entries := (location, entry) :: d.entries.filter (·.1 ≠ location) }

/-- Removes a location with all below it. -/
def remove (d : Disk) (location : Location) : Disk :=
  { d with entries := d.entries.filter fun e => !location.isPrefixOf e.1 }

def isDirectoryAt (d : Disk) (location : Location) : Bool :=
  match d.entry? location with
  | some (.directory _) => true
  | _ => false

/-- The names in a directory, in the order of their bytes. -/
def namesIn (d : Disk) (location : Location) : List String :=
  (d.entries.filterMap fun e =>
    if e.1.dropLast = location then e.1.getLast? else none).mergeSort fun a b => !(b < a)

/-! ## Following paths -/

/-- How many links a path may follow. -/
def linkLimit : Nat := 40

/-- How many bytes a name may have. -/
def nameLimit : Nat := 255

/-- How many bytes a path may have. -/
def pathLimit : Nat := 4095

/-- The texts between the slashes of a path. -/
def steps (text : String) : List String := (Path.segments text.toList).map String.ofList

/-- Where steps lead from a location, if `onLink` tells where they lead on from what a link leads
to. A link at the end is followed if `follow` says so, any other link always. -/
def walkWith (d : Disk) (follow : Bool)
    (onLink : Location → List String → Except Fault Location) (at_ : Location) :
    List String → Except Fault Location
  | [] => .ok at_
  | s :: rest =>
    if !d.isDirectoryAt at_ then .error .notDirectory
    else if s = "" ∨ s = "." then walkWith d follow onLink at_ rest
    else if s = ".." then walkWith d follow onLink at_.dropLast rest
    else if nameLimit < s.utf8ByteSize then .error .nameTooLong
    else
      match d.entry? (at_ ++ [s]) with
      | none => .error .notFound
      | some (.link target) =>
        if rest = [] ∧ !follow then .ok (at_ ++ [s])
        else onLink (if (Path.mk target).isAbsolute then [] else at_) (steps target ++ rest)
      | some _ => walkWith d follow onLink (at_ ++ [s]) rest

/-- Where steps lead from a location, if so many links may be followed. -/
def walkSteps (d : Disk) (follow : Bool) : Nat → Location → List String → Except Fault Location
  | 0 => walkWith d follow fun _ _ => .error .linkLoop
  | links + 1 => walkWith d follow (walkSteps d follow links)

/-- The location that a path leads to. -/
def resolve (d : Disk) (follow : Bool) (p : Path) : Except Fault Location :=
  if p.text.isEmpty then .error .notFound
  else if p.hasNul then .error .nulInPath
  else if pathLimit < p.text.utf8ByteSize then .error .nameTooLong
  else walkSteps d follow linkLimit (if p.isAbsolute then [] else d.current) (steps p.text)

/-- The location that a path leads to over all links. -/
def canonical? (d : Disk) (p : Path) : Option Location := (d.resolve true p).toOption

/-- What tells a file from others: the location that its path leads to, or the path itself if it
leads nowhere. -/
def identity (d : Disk) (p : Path) : Location := (d.canonical? p).getD (steps p.text)

/-- What a path leads to over all links. -/
def find (d : Disk) (p : Path) : Except Fault (Location × Entry) := do
  let location ← d.resolve true p
  match d.entry? location with
  | some entry => return (location, entry)
  | none => throw .notFound

def isFile (d : Disk) (p : Path) : Bool :=
  match d.find p with
  | .ok (_, .file ..) => true
  | _ => false

def isDirectory (d : Disk) (p : Path) : Bool :=
  match d.find p with
  | .ok (_, .directory _) => true
  | _ => false

/-- Whether a path leads to anything. -/
def pathExists (d : Disk) (p : Path) : Bool := (d.find p).isOk

/-- The bytes of the file or the device that a path leads to. -/
def read (d : Disk) (p : Path) : Except Fault ByteArray := do
  match ← d.find p with
  | (_, .file contents _) | (_, .device contents) => return contents
  | (_, .directory _) => throw .isDirectory
  | (_, .link _) => throw .notFound

/-- The text of the file that a path leads to. -/
def readText (d : Disk) (p : Path) : Except Fault String := do
  match String.fromUTF8? (← d.read p) with
  | some s => return s
  | none => throw .notText

/-- The permission bits of devices. -/
def deviceMode : Nat := 0o666

/-- The permission bits of what a path leads to. -/
def mode (d : Disk) (p : Path) : Except Fault Nat := do
  match ← d.find p with
  | (_, .file _ mode) | (_, .directory mode) => return mode
  | (_, .device _) => return deviceMode
  | (_, .link _) => throw .notFound

/-- The path of a location. -/
def pathOf (location : Location) : Path := "/" ++ "/".intercalate location

/-- A path that leads to the same place from any directory. -/
def absolute (d : Disk) (p : Path) : Path :=
  if p.isAbsolute then p else (pathOf d.current).join p

/-! ## Changing files -/

/-- The permission bits of new files and new directories. -/
def fileMode : Nat := 0o644

def directoryMode : Nat := 0o755

/-- The directory in which a path names something, which need not exist, and that name; `.` and
`..` name what exists. -/
def locate (d : Disk) (p : Path) : Except Fault (Location × String) := do
  if p.hasNul then throw .nulInPath
  if pathLimit < p.text.utf8ByteSize then throw .nameTooLong
  let segments := ((steps p.text).reverse.dropWhile (· = "")).reverse
  match segments.getLast? with
  | none => if p.text.isEmpty then throw .notFound else throw .alreadyExists
  | some name =>
    let start := if p.isAbsolute then [] else d.current
    let directory ← walkSteps d true linkLimit start segments.dropLast
    if !d.isDirectoryAt directory then throw .notDirectory
    if nameLimit < name.utf8ByteSize then throw .nameTooLong
    return (directory, name)

/-- Makes a directory where nothing is. -/
def makeDirectory (d : Disk) (p : Path) : Except Fault Disk := do
  let (directory, name) ← d.locate p
  if name = "." || name = ".." || (d.entry? (directory ++ [name])).isSome then
    throw .alreadyExists
  return d.put (directory ++ [name]) (.directory directoryMode)

/-- Makes a directory and those on the way to it; one that is there is left as it is. On failure
the directories made so far stay. -/
def makeDirectories (d : Disk) : Nat → Path → Disk × Except Fault Unit
  | 0, _ => (d, .error .notFound)
  | fuel + 1, p =>
    if p.components = [] then (d, .ok ())
    else
      match d.makeDirectory p with
      | .ok d => (d, .ok ())
      | .error .notFound =>
        match p.parent? with
        | none => (d, .error .notFound)
        | some parent =>
          match makeDirectories d fuel parent with
          | (d, .error f) => (d, .error f)
          | (d, .ok ()) =>
            match d.makeDirectory p with
            | .ok d => (d, .ok ())
            | .error f => (d, if d.isDirectory p then .ok () else .error f)
      | .error f => (d, if d.isDirectory p then .ok () else .error f)

/-- Makes a directory and those on the way to it. -/
def makePath (d : Disk) (p : Path) : Disk × Except Fault Unit :=
  d.makeDirectories (p.text.length + 1) p

/-- Sets the permission bits of what a path leads to; those of a device stay. -/
def setMode (d : Disk) (p : Path) (mode : Nat) : Except Fault Disk := do
  match ← d.find p with
  | (location, .file contents _) => return d.put location (.file contents mode)
  | (location, .directory _) => return d.put location (.directory mode)
  | (_, .device _) => return d
  | (_, .link _) => throw .notFound

/-- Where a path leads if a file is to be written there: to the file it leads to, or to a new
one. -/
def target (d : Disk) (p : Path) : Except Fault Location :=
  match d.resolve true p with
  | .ok location => if d.isDirectoryAt location then .error .isDirectory else .ok location
  | .error .notFound => do
    let (directory, name) ← d.locate p
    match d.entry? (directory ++ [name]) with
    | none =>
      if p.text.toList.getLast? = some '/' then throw .isDirectory
      return directory ++ [name]
    | some _ => throw .notFound
  | .error f => .error f

/-- Turns what is written at a location from the old contents into others, or makes a new file. A
device stays as it is. -/
def rewriteAt (d : Disk) (location : Location) (change : ByteArray → ByteArray) : Disk :=
  match d.entry? location with
  | some (.file old mode) => d.put location (.file (change old) mode)
  | some (.device _) => d
  | _ => d.put location (.file (change ByteArray.empty) fileMode)

/-- Writes at the end of the file at a location. -/
def appendAt (d : Disk) (location : Location) (contents : ByteArray) : Disk :=
  d.rewriteAt location (· ++ contents)

/-- Writes a file, over the one that is there or as a new one. -/
def write (d : Disk) (p : Path) (contents : ByteArray) : Except Fault Disk := do
  return d.rewriteAt (← d.target p) fun _ => contents

/-- Writes at the end of a file. -/
def append (d : Disk) (p : Path) (contents : ByteArray) : Except Fault Disk := do
  return d.appendAt (← d.target p) contents

/-- Removes what a path names, with all below it. -/
def removeAll (d : Disk) (p : Path) : Disk :=
  match d.resolve false p with
  | .ok location => d.remove location
  | .error _ => d

/-- A number as six digits. -/
def sixDigits (n : Nat) : String :=
  let digits := Nat.toDigits 10 (n % 1000000)
  String.ofList (List.replicate (6 - digits.length) '0' ++ digits)

/-- A name with the given beginning that a directory does not hold yet. -/
def freshName (d : Disk) (directory : Location) (beginning : String) : String :=
  let taken := fun n => (d.entry? (directory ++ [beginning ++ sixDigits n])).isSome
  beginning ++ sixDigits (((List.range (d.entries.length + 1)).find? fun n => !taken n).getD 0)

end Disk

end Briefing
