import Briefing.Text.Search

/-!
# The language of the shell

A script is a list of commands. A command is words with redirections, or is composed of commands.
A word has parts, each of them quoted or not: quoted text is neither split nor matched with file
names.
-/

namespace Briefing.Shell

/-- What is taken for a parameter. The flag tells whether an empty value counts as none, or, for
the cutting rules, whether the longest match is cut. -/
inductive Rule
  | value
  | length
  | default (emptyToo : Bool)
  | assign (emptyToo : Bool)
  | demand (emptyToo : Bool)
  | alternative (emptyToo : Bool)
  | cutStart (longest : Bool)
  | cutEnd (longest : Bool)
  deriving DecidableEq, Repr

/-- Whether nothing stands in for a parameter that is not set. -/
def Rule.needsValue : Rule → Bool
  | .value | .length | .cutStart _ | .cutEnd _ => true
  | .default _ | .assign _ | .demand _ | .alternative _ => false

/-- A part of a word. -/
inductive Part
  | text (quoted : Bool) (text : List Char)
  | parameter (quoted : Bool) (name : String) (rule : Rule) (argument : List Part)
  /-- The output of a script. -/
  | command (quoted : Bool) (script : List Char)
  /-- The value of an arithmetic expression. -/
  | arithmetic (quoted : Bool) (expression : List Part)
  deriving Inhabited

abbrev Word := List Part

/-- How a stream of a command is redirected. -/
inductive Redirection
  /-- From a file. -/
  | read (target : Word)
  /-- To a file, which is emptied. -/
  | write (stream : Nat) (target : Word)
  /-- To the end of a file. -/
  | append (stream : Nat) (target : Word)
  /-- To where another stream goes. -/
  | copy (stream : Nat) (target : Word)
  /-- From a text in the script. -/
  | here (text : Word)

/-- A command. -/
inductive Command
  | nothing
  /-- Assignments and words; `line` is where they stand. -/
  | simple (line : Nat) (assignments : List (String × Word)) (words : List Word)
      (redirections : List Redirection)
  | redirected (body : Command) (redirections : List Redirection)
  | pipeline (stages : List Command)
  | negation (body : Command)
  | both (first second : Command)
  | either (first second : Command)
  | sequence (first second : Command)
  | subshell (body : Command)
  /-- Runs beside what follows it. -/
  | background (body : Command)
  | conditional (test yes no : Command)
  /-- Repeats the body as long as the test succeeds, or as long as it fails. -/
  | loop (whileTrue : Bool) (test body : Command)
  /-- Repeats the body for each word, or for each argument. -/
  | each (name : String) (words : Option (List Word)) (body : Command)
  | choice (word : Word) (arms : List (List Word × Command))
  | definition (name : String) (body : Command)
  deriving Inhabited

/-- Why a script is not understood. -/
inductive SyntaxFault
  | openQuote
  | openBackquote
  | openBrace
  | openArithmetic
  | badSubstitution
  | badFunctionName
  | badLoopVariable
  | unexpected (token : String) (expected : Option String)
  deriving DecidableEq, Repr

/-- What the shell says about the fault. -/
def SyntaxFault.message : SyntaxFault → String
  | openQuote => "Syntax error: Unterminated quoted string"
  | openBackquote => "Syntax error: EOF in backquote substitution"
  | openBrace => "Syntax error: Missing '\x7d'"
  | openArithmetic => "Syntax error: Missing '))'"
  | badSubstitution => "Bad substitution"
  | badFunctionName => "Syntax error: Bad function name"
  | badLoopVariable => "Syntax error: Bad for loop variable"
  | unexpected token none => "Syntax error: " ++ token ++ " unexpected"
  | unexpected token (some expected) =>
    "Syntax error: " ++ token ++ " unexpected (expecting " ++ expected ++ ")"

/-- A token of a script. -/
inductive Token
  | word (word : Word)
  /-- A word of digits right before a redirection: the number of a stream. -/
  | stream (number : Nat)
  | operator (text : String)
  /-- A text in the script to read from. -/
  | here (text : Word)
  | fault (fault : SyntaxFault)
  deriving Inhabited

/-- A token and the line where it stands. -/
structure Lexeme where
  token : Token
  line : Nat

/-- The text of a word of one part that is not quoted: such a word can be a keyword. -/
def plainText? : Word → Option String
  | [.text false s] => some (String.ofList s)
  | _ => none

/-- A character of the name of a parameter. -/
def isNameChar (c : Char) : Bool := c.isAlphanum || c = '_'

/-- Whether a text is the name of a parameter that can be assigned. -/
def isName : List Char → Bool
  | [] => false
  | c :: s => (c.isAlpha || c = '_') && s.all isNameChar

end Briefing.Shell
