import Briefing.Options

/-!
# The list of tasks

Each task is listed with its description: the one its frontmatter gives, or else the first heading
or paragraph of its content that is not within a fence. A description has at most a hundred
characters.
-/

namespace Briefing

/-- What the list says about a task. -/
structure TaskSummary where
  name : String
  path : Path
  description : Option String
  deriving DecidableEq, Repr

namespace TaskSummary

def descriptionLimit : Nat := 100

/-- The text, cut to end with dots if it is too long. -/
def preview (text : String) : String :=
  if text.length ≤ descriptionLimit then text
  else String.ofList (text.toList.take (descriptionLimit - 3)) ++ "..."

/-- A preview, unless it is empty. -/
def preview? (text : String) : Option String :=
  if text.isEmpty then none else some (preview text)

def opensFence (line : List Char) : Bool := "```".toList.isPrefixOf line

/-- The lines outside fences, a fence being the lines from one that starts with three backticks to
the next such line. -/
def outsideFences (inside : Bool) : List (List Char) → List (List Char)
  | [] => []
  | line :: rest =>
    if opensFence line then outsideFences (!inside) rest
    else if inside then outsideFences inside rest
    else line :: outsideFences inside rest

/-- The lines of a paragraph: up to a blank line or a heading. -/
def paragraph (lines : List (List Char)) : List (List Char) :=
  lines.takeWhile fun line => !line.isEmpty && line.head? ≠ some '#'

/-- The first heading or paragraph of trimmed lines. -/
def opening (lines : List (List Char)) : List Char :=
  match lines.dropWhile List.isEmpty with
  | ('#' :: heading) :: _ => Text.trimChars (heading.dropWhile (· = '#'))
  | lines => [' '].intercalate (paragraph lines)

/-- The description of a task. -/
def describe (d : Document) : Option String :=
  match FrontMatter.string? d.frontMatter "description" with
  | some description => preview? (Text.trim description)
  | none =>
    let lines := (Text.lines d.content.toList).map Text.trimChars
    preview? (String.ofList (opening (outsideFences false lines)))

/-- The summary of a task. -/
def ofDocument (d : Document) : TaskSummary := ⟨d.stem, d.path, describe d⟩

def toJson (t : TaskSummary) : Json :=
  .object ([("name", .string t.name), ("path", .string t.path.text)] ++
    (t.description.map fun d => ("description", Json.string d)).toList)

/-- The tasks below bases, in the order of the search. -/
def listIn (d : Disk) (table : AgentTable) (bases : List Base) :
    Except Error (List TaskSummary) := do
  let candidates ← Search.candidates d table bases .tasks
  candidates.mapM fun c => ofDocument <$> d.load c.path

/-- The tasks that can be seen, in the order of the search. -/
def list (host : Host) (options : Options) : Activity (List TaskSummary) :=
  options.useBases host fun bases => Activity.onDisk fun d => listIn d options.table bases

end TaskSummary

end Briefing
