import Briefing.FrontMatter.Value
import Briefing.Text.White

/-!
# Frontmatter

Frontmatter is a table of values, read from YAML. Nothing is the empty table, and any other value
than a map is refused. Some keys have a meaning: `expand` turns expansion off, `selectors` adds
constraints, `agent` names the agent a task is for, `bootstrap` is a script to run.
-/

namespace Briefing

/-- The table at the head of a document. -/
abbrev FrontMatter := Table FrontMatter.Value

namespace FrontMatter

/-- Why a document has no proper frontmatter. -/
inductive Fault
  /-- It is no YAML. -/
  | yaml (fault : Yaml.Fault)
  /-- It is another value than a map. -/
  | notMapping (found : String)
  /-- It does not end. -/
  | unterminated
  deriving DecidableEq

/-- What the fault says to a reader. -/
def Fault.message : Fault → String
  | yaml fault => fault.message
  | notMapping found => "expected a mapping, found '" ++ found ++ "'"
  | unterminated => "unterminated frontmatter: missing closing '---'"

/-- Reads frontmatter. -/
def parse (yaml : String) : Except Fault FrontMatter :=
  match Yaml.read yaml with
  | .error fault => .error (.yaml fault)
  | .ok value =>
    match Value.ofYaml value with
    | .null => .ok ∅
    | .map entries => .ok (Table.ofList entries)
    | other => .error (.notMapping other.render)

variable (fm : FrontMatter)

/-- The string under a key. -/
def string? (key : String) : Option String := (fm.get? key).bind Value.string?

/-- Whether placeholders are expanded: yes unless it says no. -/
def expands : Bool := ((fm.get? "expand").bind Value.bool?).getD true

/-- The constraints that a task or command adds. -/
def selectors : Option (List (String × Value)) :=
  match fm.get? "selectors" with
  | some (.map entries) => some entries
  | _ => none

/-- The agent that a task is for. -/
def agent : Option String := (string? fm "agent").filter (!Text.isBlank ·)

/-- The script that a rule brings along. -/
def bootstrap : Option String := (string? fm "bootstrap").filter (!Text.isBlank ·)

def toJson : Json := (Value.map fm.entries).toJson

end FrontMatter

end Briefing
