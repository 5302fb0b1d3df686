import Briefing.Document

/-!
# Skills

A skill is a document named `SKILL.md` with a name, which is that of its directory, a description
and, if it likes, a note on compatibility. The prompt lists skills in a block of tags, in which the
five characters that mean something there are written as entities.
-/

namespace Briefing

/-- The file name of a skill. -/
def skillFile : String := "SKILL.md"

/-- What the prompt says about a skill. -/
structure Skill where
  name : String
  description : String
  compatibility : Option String
  path : Path
  frontMatter : FrontMatter

namespace Skill

def nameLimit : Nat := 64

def descriptionLimit : Nat := 1024

def compatibilityLimit : Nat := 500

/-- Why a document is no skill. -/
inductive Fault
  | badName (name : String)
  | otherDirectory (name directory : String)
  | badDescription
  | badCompatibility
  deriving DecidableEq, Repr

/-- What the fault says to a reader. -/
def Fault.message : Fault → String
  | badName name =>
    "name '" ++ name ++ "' must be 1-" ++ Text.decimal nameLimit ++
      " lowercase letters, digits or single hyphens"
  | otherDirectory name directory =>
    "name '" ++ name ++ "' does not match directory '" ++ directory ++ "'"
  | badDescription => "description must be 1-" ++ Text.decimal descriptionLimit ++ " characters"
  | badCompatibility =>
    "compatibility must be at most " ++ Text.decimal compatibilityLimit ++ " characters"

/-- A character of the words of a name. -/
def isNameChar (c : Char) : Bool := c.isLower || c.isDigit

/-- Whether a name is made of words of lower-case letters and digits with single hyphens between
them, and not too long. -/
def isName (name : String) : Bool :=
  name.length ≤ nameLimit &&
    (name.toList.splitOn '-').all fun word => !word.isEmpty && word.all isNameChar

/-- The string under a key, trimmed; empty if there is none. -/
def trimmed (d : Document) (key : String) : String :=
  Text.trim ((FrontMatter.string? d.frontMatter key).getD "")

/-- The name of the directory that holds a file. -/
def directoryName (path : Path) : String := ((path.parent?.bind Path.fileName?).getD "")

/-- The skill that a document describes. -/
def ofDocument (d : Document) : Except Fault Skill :=
  let name := trimmed d "name"
  let description := trimmed d "description"
  let compatibility := trimmed d "compatibility"
  if !isName name then .error (.badName name)
  else if name ≠ directoryName d.path then .error (.otherDirectory name (directoryName d.path))
  else if description.isEmpty || descriptionLimit < description.length then
    .error .badDescription
  else if compatibilityLimit < compatibility.length then .error .badCompatibility
  else
    .ok ⟨name, description, if compatibility.isEmpty then none else some compatibility, d.path,
      d.frontMatter⟩

/-- A character of a field within tags. -/
def escapeChar (c : Char) : List Char :=
  if c = '&' then "&amp;".toList
  else if c = '<' then "&lt;".toList
  else if c = '>' then "&gt;".toList
  else if c = '"' then "&quot;".toList
  else if c = '\'' then "&apos;".toList
  else [c]

/-- A field as it stands within tags. -/
def escape (text : String) : String := String.ofList (text.toList.flatMap escapeChar)

/-- The lines of the block for one skill. -/
def renderOne (s : Skill) : String :=
  "  <skill>\n    <name>" ++ escape s.name ++ "</name>\n    <description>" ++
    escape s.description ++ "</description>\n    <location>" ++ escape s.path.text ++
    "</location>\n  </skill>\n"

/-- The block that lists skills; nothing for none. -/
def renderAll (skills : List Skill) : String :=
  if skills.isEmpty then ""
  else "<available_skills>\n" ++ String.join (skills.map renderOne) ++ "</available_skills>"

def toJson (s : Skill) : Json :=
  .object ([("name", .string s.name), ("description", .string s.description)] ++
    (s.compatibility.map fun c => ("compatibility", Json.string c)).toList ++
    [("path", .string s.path.text), ("frontmatter", FrontMatter.toJson s.frontMatter)])

end Skill

end Briefing
