import Briefing.Shell.Format
import Briefing.Shell.Syntax
import Briefing.Text.White

/-!
# Arithmetic

The expressions of the shell are those on integers: comparisons and logical operators give one or
zero, a name stands for the number that is its value, and a number can be assigned to a name. The
operand that a logical operator or a choice leaves out is read, but nothing in it happens.
-/

namespace Briefing.Shell

/-- Why an expression has no value. -/
inductive ArithmeticFault
  | notPrimary
  | openBracket
  | openChoice
  | zeroDivisor
  | trailing
  /-- The value of a name is no number. -/
  | notNumber (value : String)
  deriving DecidableEq, Repr

/-- What the shell says about a fault in an expression. -/
def ArithmeticFault.message (expression : String) : ArithmeticFault → String
  | notPrimary => within "expecting primary"
  | openBracket => within "expecting ')'"
  | openChoice => within "expecting ':'"
  | zeroDivisor => within "division by zero"
  | trailing => within "expecting EOF"
  | notNumber value => "Illegal number: " ++ value
where
  within (words : String) : String :=
    "arithmetic expression: " ++ words ++ ": \"" ++ expression ++ "\""

/-- The names that an expression has assigned numbers to, the latest first. -/
abbrev Assigned := List (String × Int)

/-- A step of an evaluation. -/
abbrev Calculation := StateT Assigned (Except ArithmeticFault)

/-- Operators between two operands by how tightly they bind, the loosest first. -/
def binaryOperators : List (List String) :=
  [["||"], ["&&"], ["|"], ["^"], ["&"], ["==", "!="], ["<=", ">=", "<", ">"], ["<<", ">>"],
    ["+", "-"], ["*", "/", "%"]]

/-- Operators that assign, with the operator between the old value and the new one. -/
def assigningOperators : List (String × Option String) :=
  ("=", none) :: ["+", "-", "*", "/", "%", "<<", ">>", "&", "^", "|"].map fun op =>
    (op ++ "=", some op)

/-- Operators that another one starts with. -/
def longerOperators (op : String) : List String :=
  if op = "|" then ["||"] else if op = "&" then ["&&"]
  else if op = "<" then ["<<"] else if op = ">" then [">>"]
  else if op = "=" then ["=="] else []

def ofBool (b : Bool) : Int := if b then 1 else 0

/-- An operator on two numbers, each bit by bit where it is one on bits. -/
def applyBinary (op : String) (a b : Int) : Except ArithmeticFault Int :=
  match op with
  | "||" => .ok (ofBool (a ≠ 0 || b ≠ 0))
  | "&&" => .ok (ofBool (a ≠ 0 && b ≠ 0))
  | "|" => .ok (Int64.ofInt a ||| Int64.ofInt b).toInt
  | "^" => .ok (Int64.ofInt a ^^^ Int64.ofInt b).toInt
  | "&" => .ok (Int64.ofInt a &&& Int64.ofInt b).toInt
  | "==" => .ok (ofBool (a = b))
  | "!=" => .ok (ofBool (a ≠ b))
  | "<=" => .ok (ofBool (a ≤ b))
  | ">=" => .ok (ofBool (a ≥ b))
  | "<" => .ok (ofBool (a < b))
  | ">" => .ok (ofBool (a > b))
  | "<<" => .ok (Int64.ofInt a <<< Int64.ofInt b).toInt
  | ">>" => .ok (Int64.ofInt a >>> Int64.ofInt b).toInt
  | "+" => .ok (Int64.ofInt (a + b)).toInt
  | "-" => .ok (Int64.ofInt (a - b)).toInt
  | "*" => .ok (Int64.ofInt (a * b)).toInt
  | "/" => if b = 0 then .error .zeroDivisor else .ok (Int64.ofInt (a.tdiv b)).toInt
  | _ => if b = 0 then .error .zeroDivisor else .ok (a.tmod b)

/-- The text behind blanks. -/
def skipWhite (s : List Char) : List Char := s.dropWhile Text.isWhite

/-- The operator of a level at the start of a text, and the rest. -/
def readBinary? (level : List String) (s : List Char) : Option (String × List Char) :=
  level.findSome? fun op =>
    if (longerOperators op).any (·.toList.isPrefixOf s) then none
    else (op.toList.isPrefixOf? s).map (op, ·)

/-- The name and the assigning operator at the start of a text, and the rest. -/
def readAssigning? (s : List Char) : Option (String × Option String × List Char) :=
  let name := s.takeWhile isNameChar
  if isName name then
    let rest := skipWhite (s.drop name.length)
    assigningOperators.findSome? fun (text, op) =>
      if (longerOperators text).any (·.toList.isPrefixOf rest) then none
      else (text.toList.isPrefixOf? rest).map fun r => (String.ofList name, op, r)
  else none

/-- The number that is the value of a name; nothing is zero. -/
def numberOf (value : String) : Except ArithmeticFault Int :=
  match readInteger (Text.trimChars value.toList) with
  | (n, []) => .ok n
  | _ => .error (.notNumber value)

section

variable (lookup : String → String)

/-- The number that a name stands for. -/
def valueOfName (name : String) : Calculation Int := do
  match (← get).lookup name with
  | some n => return n
  | none => numberOf (lookup name)

mutual

/-- An assignment or a choice by a condition, or what binds more tightly; names that are not
assigned have the values of `lookup`. If `idle`, the value does not matter. -/
def readAssignment : Nat → Bool → List Char → Calculation (Int × List Char)
  | 0, _, _ => throw .notPrimary
  | fuel + 1, idle, s => do
    match readAssigning? (skipWhite s) with
    | some (name, op, s) =>
      let (n, s) ← readAssignment fuel idle s
      if idle then return (0, s)
      let n ← match op with
        | some op => applyBinary op (← valueOfName lookup name) n
        | none => pure n
      modify ((name, n) :: ·)
      return (n, s)
    | none =>
      let (test, s) ← readLevel fuel binaryOperators idle s
      match skipWhite s with
      | '?' :: s =>
        let (yes, s) ← readAssignment fuel (idle || test = 0) s
        match skipWhite s with
        | ':' :: s =>
          let (no, s) ← readAssignment fuel (idle || test ≠ 0) s
          return (if test ≠ 0 then yes else no, s)
        | _ => throw .openChoice
      | s => return (test, s)

/-- Operands joined by the operators of a level, and what follows. -/
def readLevel : Nat → List (List String) → Bool → List Char → Calculation (Int × List Char)
  | 0, _, _, _ => throw .notPrimary
  | fuel + 1, [], idle, s => readUnary fuel idle s
  | fuel + 1, level :: levels, idle, s => do
    let (a, s) ← readLevel fuel levels idle s
    readMoreOperands fuel level levels idle a s

/-- What the operators of a level join to an operand, from the left. -/
def readMoreOperands : Nat → List String → List (List String) → Bool → Int → List Char →
    Calculation (Int × List Char)
  | 0, _, _, _, _, _ => throw .notPrimary
  | fuel + 1, level, levels, idle, a, s => do
    match readBinary? level (skipWhite s) with
    | none => return (a, s)
    | some (op, s) =>
      let settled := (op = "&&" && a = 0) || (op = "||" && a ≠ 0)
      let (b, s) ← readLevel fuel levels (idle || settled) s
      let value ← if idle then pure 0 else applyBinary op a b
      readMoreOperands fuel level levels idle value s

/-- An operand with the operators before it. -/
def readUnary : Nat → Bool → List Char → Calculation (Int × List Char)
  | 0, _, _ => throw .notPrimary
  | fuel + 1, idle, s => do
    let after := fun (f : Int → Int) (s : List Char) => do
      let (a, s) ← readUnary fuel idle s
      return (f a, s)
    match skipWhite s with
    | '-' :: s => after (- ·) s
    | '+' :: s => after id s
    | '!' :: s => after (fun a => ofBool (a = 0)) s
    | '~' :: s => after (fun a => -a - 1) s
    | '(' :: s =>
      let (a, s) ← readAssignment fuel idle s
      match skipWhite s with
      | ')' :: s => return (a, s)
      | _ => throw .openBracket
    | s =>
      let name := s.takeWhile isNameChar
      if isName name then
        let n ← if idle then pure 0 else valueOfName lookup (String.ofList name)
        return (n, s.drop name.length)
      else
        match readNumber? s with
        | some (n, s) => return (n, s)
        | none => throw .notPrimary

end

/-- The value of an expression, and what it assigned; nothing is zero. -/
def evaluate (s : List Char) : Except ArithmeticFault (Int × Assigned) :=
  if (skipWhite s).isEmpty then .ok (0, [])
  else do
    let ((value, rest), assigned) ← (readAssignment lookup (16 * (s.length + 1)) false s).run []
    if (skipWhite rest).isEmpty then return ((Int64.ofInt value).toInt, assigned)
    else throw .trailing

end

end Briefing.Shell
