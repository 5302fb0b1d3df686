/-!
# Paths

A path is kept as it was written and compared by its components: a doubled or final slash does not
count, nor does a `.` that is not the first component.
-/

namespace Briefing

/-- A path of a file, as it is written. -/
structure Path where
  text : String
  deriving DecidableEq, Repr, Inhabited

namespace Path

instance : Coe String Path := ⟨Path.mk⟩

/-- A step of a path. -/
inductive Component
  | root
  | here
  | up
  | name (name : String)
  deriving DecidableEq, Repr

/-- What stands between the slashes of a text. -/
def segments (s : List Char) : List (List Char) := s.splitOn '/'

/-- Segments with slashes between them. -/
def joinSegments (segments : List (List Char)) : List Char := ['/'].intercalate segments

/-- Whether a segment does not count as a step. -/
def isSilent (segment : List Char) : Bool := segment = [] || segment = ['.']

/-- The start of a path, a slash or a dot that is its first step, and the rest of its text. -/
def cutStart : List Char → List Char × List Char
  | '/' :: s => (['/'], s)
  | ['.'] => (['.'], [])
  | '.' :: '/' :: s => (['.'], '/' :: s)
  | s => ([], s)

/-- Whether a path starts at the root. -/
def isAbsolute (p : Path) : Bool := p.text.toList.head? = some '/'

/-- The steps of a path. -/
def components (p : Path) : List Component :=
  let (start, body) := cutStart p.text.toList
  let first := if start = ['/'] then [.root] else if start = ['.'] then [.here] else []
  first ++ ((segments body).filter (!isSilent ·)).map fun s =>
    if s = ['.', '.'] then .up else .name (String.ofList s)

/-- Whether a path holds a NUL. -/
def hasNul (p : Path) : Bool := p.text.toList.contains '\x00'

/-- Whether two paths have the same steps. -/
def same (p q : Path) : Bool := p.components = q.components

/-- A path below another one, or an absolute path itself. -/
def join (p q : Path) : Path :=
  if q.isAbsolute || p.text.isEmpty then q
  else if p.text.toList.getLast? = some '/' then p.text ++ q.text
  else p.text ++ "/" ++ q.text

instance : HDiv Path String Path := ⟨fun p s => p.join s⟩

/-- The last step, if it is a name. -/
def fileName? (p : Path) : Option String :=
  match p.components.getLast? with
  | some (.name n) => some n
  | _ => none

/-- Segments without silent ones at the end. -/
def trimSegments (segments : List (List Char)) : List (List Char) :=
  (segments.reverse.dropWhile isSilent).reverse

/-- The path without its last step; none if it has no step or is the root. -/
def parent? (p : Path) : Option Path :=
  let (start, body) := cutStart p.text.toList
  let segs := trimSegments (segments body)
  if segs.isEmpty then if start = ['.'] then some "" else none
  else some (String.ofList (start ++ joinSegments (trimSegments segs.dropLast)))

/-- A file name as its stem and its extension. A name has no extension if its only dot is the
first character. -/
def splitName (name : List Char) : List Char × Option (List Char) :=
  let ext := name.reverse.takeWhile (· ≠ '.')
  let stem := (name.reverse.drop (ext.length + 1)).reverse
  if ext.length = name.length ∨ stem.isEmpty then (name, none) else (stem, some ext.reverse)

/-- The file name without its extension; empty if there is no file name. -/
def stem (p : Path) : String :=
  match p.fileName? with
  | some n => String.ofList (splitName n.toList).1
  | none => ""

/-- The extension of the file name. -/
def extension? (p : Path) : Option String :=
  p.fileName?.bind fun n => (splitName n.toList).2.map String.ofList

/-- The path with another file name. -/
def withFileName (p : Path) (name : String) : Path :=
  match p.fileName?, p.parent? with
  | some _, some parent => parent.join name
  | _, _ => p.join name

/-- Segments after the first `n` that count. -/
def dropSegments : Nat → List (List Char) → List (List Char)
  | 0, segs => segs
  | _ + 1, [] => []
  | n + 1, s :: segs => if isSilent s then dropSegments (n + 1) segs else dropSegments n segs

/-- The rest of a path behind the steps of another one that it starts with. -/
def stripPrefix? (p base : Path) : Option Path :=
  let n := base.components.length
  if p.components.take n = base.components then
    let (start, body) := cutStart p.text.toList
    let segs := trimSegments (segments body)
    if n = 0 then some (String.ofList (start ++ joinSegments segs))
    else
      let segs := dropSegments (if start.isEmpty then n else n - 1) segs
      some (String.ofList (joinSegments (segs.dropWhile isSilent)))
  else none

end Path

end Briefing
