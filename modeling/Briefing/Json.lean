import Briefing.Decimal.Layout

/-!
# JSON

JSON texts are written on one line, or with one line for each item and two blanks for each level.
A string escapes the quote, the backslash and control characters below the blank; a number that is
not finite is null.
-/

namespace Briefing

/-- A JSON value. The members of an object stand in the order in which they are written. -/
inductive Json
  | null
  | bool (b : Bool)
  | int (i : Int)
  | float (x : Decimal.Binary64)
  | string (s : String)
  | array (items : List Json)
  | object (members : List (String × Json))

namespace Json

/-- Numbers are positional from `0.00001` to below `1e16`, and an exponent has a sign. -/
def layout : Decimal.Layout where
  leastPoint := -4
  mostPoint := 16
  plus := "+"
  nan := "null"
  infinity := "null"
  negativeInfinity := "null"

/-- A character within a string. -/
def escapeChar (c : Char) : List Char :=
  if c = '"' || c = '\\' then ['\\', c]
  else if c = '\n' then ['\\', 'n']
  else if c = '\r' then ['\\', 'r']
  else if c = '\t' then ['\\', 't']
  else if c = '\x08' then ['\\', 'b']
  else if c = '\x0c' then ['\\', 'f']
  else if c.toNat < 0x20 then
    ['\\', 'u', '0', '0', Text.hexDigit (c.toNat / 16), Text.hexDigit (c.toNat % 16)]
  else [c]

def writeString (s : String) : String :=
  String.ofList ('"' :: s.toList.flatMap escapeChar ++ ['"'])

/-- An integer in base ten. -/
def writeInt (i : Int) : String :=
  if i < 0 then "-" ++ Text.decimal i.natAbs else Text.decimal i.natAbs

mutual

/-- The value on one line, without blanks. -/
def write : Json → String
  | null => "null"
  | bool b => if b then "true" else "false"
  | int i => writeInt i
  | float x => layout.write x
  | string s => writeString s
  | array items => "[" ++ ",".intercalate (writeItems items) ++ "]"
  | object members => "\x7b" ++ ",".intercalate (writeMembers members) ++ "\x7d"

def writeItems : List Json → List String
  | [] => []
  | item :: items => write item :: writeItems items

def writeMembers : List (String × Json) → List String
  | [] => []
  | (key, value) :: members => (writeString key ++ ":" ++ write value) :: writeMembers members

end

/-- The beginning of a line at a level. -/
def margin (level : Nat) : String := "\n" ++ String.ofList (List.replicate (2 * level) ' ')

/-- Items on lines of their own between brackets; brackets alone around nothing. -/
def lines (level : Nat) (opening closing : String) (items : List String) : String :=
  if items.isEmpty then opening ++ closing
  else opening ++ margin (level + 1) ++ ("," ++ margin (level + 1)).intercalate items ++
    margin level ++ closing

mutual

/-- The value on as many lines as it has items, at a level. -/
def writeLines (level : Nat) : Json → String
  | array items => lines level "[" "]" (writeItemLines (level + 1) items)
  | object members => lines level "\x7b" "\x7d" (writeMemberLines (level + 1) members)
  | null => "null"
  | bool b => if b then "true" else "false"
  | int i => writeInt i
  | float x => layout.write x
  | string s => writeString s

def writeItemLines (level : Nat) : List Json → List String
  | [] => []
  | item :: items => writeLines level item :: writeItemLines level items

def writeMemberLines (level : Nat) : List (String × Json) → List String
  | [] => []
  | (key, value) :: members =>
    (writeString key ++ ": " ++ writeLines level value) :: writeMemberLines level members

end

/-- The value with its items on lines of their own. -/
def pretty (value : Json) : String := value.writeLines 0

/-- A string, or null. -/
def ofOption : Option String → Json
  | some s => string s
  | none => null

end Json

end Briefing
