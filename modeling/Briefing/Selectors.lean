import Briefing.FrontMatter.Basic
import Briefing.Params

/-!
# Selectors

Selectors are values accepted under a key. A document passes if under each key it has an accepted
value, or does not have the key at all. A list passes if one of its items is accepted, or if it has
none. Values are compared as rendered. Selectors only accumulate.
-/

namespace Briefing

/-- The accepted values by key. -/
abbrev Selectors := Table StringSet

namespace Selectors

/-- Accepts a value under a key, beside those accepted before. -/
def accept (selectors : Selectors) (key value : String) : Selectors :=
  selectors.insert key (((selectors.get? key).getD ∅).insert value ())

/-- Whether a value is accepted under a key. -/
def accepts (selectors : Selectors) (key value : String) : Bool :=
  (selectors.get? key).any (·.contains value)

/-- Accepts the value of an assignment, trimmed; none if it is no assignment. -/
def assign? (selectors : Selectors) (item : String) : Option Selectors :=
  (parseAssignment item).map fun (key, value) => selectors.accept key (Text.trim value)

/-- The selectors of assignments, or the first item that is none. -/
def ofAssignments (items : List String) : Except String Selectors :=
  items.foldlM (fun selectors item => match assign? selectors item with
    | some s => Except.ok s
    | none => .error item) ∅

/-- Accepts what the entries of a `selectors` map ask for: each item of a list, any other value
itself. -/
def merge (selectors : Selectors) (entries : List (String × FrontMatter.Value)) : Selectors :=
  entries.foldl (fun selectors (key, value) =>
    value.alternatives.foldl (fun selectors v => selectors.accept key v.render) selectors)
    selectors

/-- Whether a value that stands under a key passes the values accepted there. -/
def passes (accepted : StringSet) : FrontMatter.Value → Bool
  | .list items => items.isEmpty || items.any fun item => accepted.contains item.render
  | value => accepted.contains value.render

/-- Whether frontmatter passes the selectors. -/
def matchesFrontMatter (selectors : Selectors) (fm : FrontMatter) : Bool :=
  selectors.entries.all fun (key, accepted) =>
    match fm.get? key with
    | none => true
    | some value => passes accepted value

def toJson (selectors : Selectors) : Json :=
  .object (selectors.entries.map fun (k, accepted) =>
    (k, .array (accepted.keys.map Json.string)))

end Selectors

end Briefing
