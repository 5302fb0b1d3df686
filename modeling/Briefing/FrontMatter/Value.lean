import Briefing.Json
import Briefing.Table
import Briefing.Yaml.Value

/-!
# Frontmatter values

A value is null, a boolean, a number, a string, a list, or a map from strings. Where a value is
compared or shown it is rendered: scalars bare, lists and maps within brackets. A map's keys are
those of its YAML mapping as rendered; of two that are rendered alike the later one wins.
-/

namespace Briefing.FrontMatter

/-- A value in frontmatter. The entries of a map ascend by key. -/
inductive Value
  | null
  | bool (b : Bool)
  | number (n : Number)
  | string (s : String)
  | list (items : List Value)
  | map (entries : List (String × Value))

namespace Value

/-- Numbers are positional from `0.00001` to below `1e16`, and an exponent has no plus sign. -/
def numberLayout : Decimal.Layout where
  leastPoint := -4
  mostPoint := 16
  plus := ""
  nan := ".nan"
  infinity := ".inf"
  negativeInfinity := "-.inf"

/-- The text of a number. -/
def renderNumber : Number → String
  | .int i => Json.writeInt i
  | .float x => numberLayout.write x

mutual

/-- The text of a value: a scalar bare, a list as `[a b]`, a map as `{k: v, l: w}`. -/
def render : Value → String
  | null => ""
  | bool b => if b then "true" else "false"
  | number n => renderNumber n
  | string s => s
  | list items => "[" ++ " ".intercalate (renderItems items) ++ "]"
  | map entries => "\x7b" ++ ", ".intercalate (renderEntries entries) ++ "\x7d"

def renderItems : List Value → List String
  | [] => []
  | v :: vs => render v :: renderItems vs

def renderEntries : List (String × Value) → List String
  | [] => []
  | (k, v) :: es => (k ++ ": " ++ render v) :: renderEntries es

end

mutual

/-- The value of a YAML value, without its tags. -/
def ofYaml : Yaml.Value → Value
  | .null => null
  | .bool b => bool b
  | .number n => number n
  | .string s => string s
  | .sequence items => list (ofYamlItems items)
  | .mapping entries => map (Entries.ofList (ofYamlEntries entries))
  | .tagged _ v => ofYaml v

def ofYamlItems : List Yaml.Value → List Value
  | [] => []
  | v :: vs => ofYaml v :: ofYamlItems vs

def ofYamlEntries : List (Yaml.Value × Yaml.Value) → List (String × Value)
  | [] => []
  | (k, v) :: es => ((ofYaml k).render, ofYaml v) :: ofYamlEntries es

end

mutual

def toJson : Value → Json
  | null => .null
  | bool b => .bool b
  | number (.int i) => .int i
  | number (.float x) => .float x
  | string s => .string s
  | list items => .array (toJsonItems items)
  | map entries => .object (toJsonEntries entries)

def toJsonItems : List Value → List Json
  | [] => []
  | v :: vs => toJson v :: toJsonItems vs

def toJsonEntries : List (String × Value) → List (String × Json)
  | [] => []
  | (k, v) :: es => (k, toJson v) :: toJsonEntries es

end

/-- The string that a value is. -/
def string? : Value → Option String
  | string s => some s
  | _ => none

/-- A text in lower case as far as it is ASCII. -/
def lower (s : String) : String := String.ofList (s.toList.map Char.toLower)

/-- The truth value that a value is, or that a string spells in either case. -/
def bool? : Value → Option Bool
  | bool b => some b
  | string s => if lower s = "true" then some true else if lower s = "false" then some false
    else none
  | _ => none

/-- The values a selector compares: the items of a list, or the value itself. -/
def alternatives : Value → List Value
  | list items => items
  | v => [v]

end Value

end Briefing.FrontMatter
