import Briefing.Shell.Utility.Basic
import Briefing.Text.White

/-!
# Tests

The utility `test`, which is also called `[`, tells by its status whether a condition on files,
texts or numbers holds. Its words are read from the left; what is an operator depends on the words
that follow it.
-/

namespace Briefing.Shell.Utility

/-- Letters of operators before one operand. -/
def testLetters : List Char := "rwxefdcbpugkstznhOGLS".toList

/-- Whether a word is an operator before one operand. -/
def isTestLetter (word : String) : Bool :=
  match word.toList with
  | ['-', letter] => testLetters.contains letter
  | _ => false

/-- Operators between two operands. -/
def testPairs : List String :=
  ["=", "!=", "<", ">", "-eq", "-ne", "-lt", "-le", "-gt", "-ge", "-nt", "-ot", "-ef"]

/-- Whether a file is what a letter asks for. -/
def testFile (d : Disk) (letter : Char) (path : String) : Bool :=
  match letter with
  | 'e' | 'r' | 'w' | 'O' | 'G' => d.pathExists path
  | 'f' => d.isFile path
  | 'd' => d.isDirectory path
  | 'x' => (d.mode path).toOption.any fun mode => mode &&& 0o111 ≠ 0
  | 's' =>
    match d.find path with
    | .ok (_, .file contents _) => contents.size ≠ 0
    | .ok (_, .directory _) => true
    | _ => false
  | 'c' =>
    match d.find path with
    | .ok (_, .device _) => true
    | _ => false
  | 'L' | 'h' =>
    match (d.resolve false path).toOption.bind d.entry? with
    | some (.link _) => true
    | _ => false
  | _ => false

/-- The value of an operator before one operand. -/
def testOne (d : Disk) (op operand : String) : Bool :=
  match op with
  | "-z" => operand.isEmpty
  | "-n" => !operand.isEmpty
  | op => testFile d ((op.toList.getD 1 ' ')) operand

/-- The number that an operand stands for. -/
def testNumber (operand : String) : Except String Int :=
  let (negative, digits) := cutSign (Text.trimChars operand.toList)
  match Text.readNat? 10 digits with
  | some n => .ok (if negative then -n else n)
  | none => .error ("Illegal number: " ++ operand)

/-- The value of an operator between two operands. -/
def testTwo (d : Disk) (a op b : String) : Except String Bool := do
  let compare := fun (holds : Int → Int → Bool) => do
    return holds (← testNumber a) (← testNumber b)
  match op with
  | "=" => return a = b
  | "!=" => return a ≠ b
  | "<" => return a < b
  | ">" => return b < a
  | "-eq" => compare fun x y => x = y
  | "-ne" => compare fun x y => x ≠ y
  | "-lt" => compare fun x y => x < y
  | "-le" => compare fun x y => x ≤ y
  | "-gt" => compare fun x y => y < x
  | "-ge" => compare fun x y => y ≤ x
  | "-ef" => return d.pathExists a && d.identity a = d.identity b
  | _ => return false

/-- Whether the first of the words is an operator before one operand, and not an operand. -/
def startsWithLetter : List String → Bool
  | [] | [_] => false
  | [op, _] => isTestLetter op
  | op :: a :: b :: _ => isTestLetter op && (!testPairs.contains a || b = ")")

/-- A condition that was read: its value, its last word and the words behind it. -/
structure Tested where
  value : Bool
  last : String
  rest : List String

mutual

/-- Conditions joined by `-o`. -/
def testAny (d : Disk) : Nat → String → List String → Except String Tested
  | 0, last, words => .ok ⟨false, last, words⟩
  | fuel + 1, last, words => do
    let first ← testAll d fuel last words
    match first.rest with
    | "-o" :: rest =>
      let others ← testAny d fuel "-o" rest
      return { others with value := first.value || others.value }
    | _ => return first

/-- Conditions joined by `-a`. -/
def testAll (d : Disk) : Nat → String → List String → Except String Tested
  | 0, last, words => .ok ⟨false, last, words⟩
  | fuel + 1, last, words => do
    let first ← testNegated d fuel last words
    match first.rest with
    | "-a" :: rest =>
      let others ← testAll d fuel "-a" rest
      return { others with value := first.value && others.value }
    | _ => return first

/-- A condition, perhaps negated. -/
def testNegated (d : Disk) : Nat → String → List String → Except String Tested
  | fuel + 1, _, "!" :: rest => do
    let t ← testNegated d fuel "!" rest
    return { t with value := !t.value }
  | 0, last, words => .ok ⟨false, last, words⟩
  | fuel + 1, last, words => testPrimary d fuel last words

/-- A condition in brackets, an operator with its operands, or a text that is to be not empty. -/
def testPrimary (d : Disk) : Nat → String → List String → Except String Tested
  | 0, last, words => .ok ⟨false, last, words⟩
  | _, last, [] => .ok ⟨false, last, []⟩
  | fuel + 1, _, word :: rest => do
    if word = "(" && !rest.isEmpty then
      let inner ← testAny d fuel "(" rest
      match inner.rest with
      | ")" :: rest => return { inner with last := ")", rest }
      | _ => throw "closing paren expected"
    else if startsWithLetter (word :: rest) then
      return ⟨testOne d word (rest.headD ""), rest.headD "", rest.tail⟩
    else
      match rest with
      | op :: rest' =>
        if testPairs.contains op then
          match rest' with
          | b :: rest => return ⟨← testTwo d word op b, b, rest⟩
          | [] => throw (op ++ ": argument expected")
        else return ⟨!word.isEmpty, word, rest⟩
      | [] => return ⟨!word.isEmpty, word, []⟩

end

/-- The value of the words of a test, or why they are none. -/
def testWords (d : Disk) (words : List String) : Except String Bool :=
  match words with
  | [a, op, b] => if testPairs.contains op then testTwo d a op b else general
  | _ => general
where
  general : Except String Bool := do
    let t ← testAny d (4 * words.length + 4) "" words
    if t.rest.isEmpty then return t.value else throw (t.last ++ ": unexpected operator")

/-- Ends with the value of words as the status, or complains under a name. -/
def testAs (name : String) (r : Request) (words : List String) : Effect :=
  match testWords r.disk words with
  | .ok value => ends r (if value then 0 else 1)
  | .error complaint => complains r (name ++ ": " ++ complaint ++ "\n") 2

def test : Utility := fun r => testAs "test" r r.arguments

def bracket : Utility := fun r =>
  if r.arguments.getLast? = some "]" then testAs "[" r r.arguments.dropLast
  else complains r "[: missing ]\n" 2

end Briefing.Shell.Utility
