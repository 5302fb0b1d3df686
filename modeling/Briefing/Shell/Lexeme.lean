import Briefing.Shell.Syntax
import Briefing.Text.Digit

/-!
# The tokens of a script

A script is cut into words, operators and line breaks. What cannot be read is a token of its own
and the last one, so that the commands before it can still be run.
-/

namespace Briefing.Shell

/-- The text up to the first mark that no backslash escapes, and what follows. -/
def untilMark (mark : Char) : List Char → Option (List Char × List Char)
  | [] => none
  | '\\' :: c :: s => (untilMark mark s).map fun (t, r) => ('\\' :: c :: t, r)
  | c :: s => if c = mark then some ([], s) else (untilMark mark s).map fun (t, r) => (c :: t, r)

/-- The text up to the first mark, and what follows. -/
def untilFirst (mark : Char) : List Char → Option (List Char × List Char)
  | [] => none
  | c :: s => if c = mark then some ([], s) else (untilFirst mark s).map fun (t, r) => (c :: t, r)

/-- The text up to the closing mark that is not within brackets or quotes, and what follows;
`depth` brackets are open. The fault is that of a text without a closing mark. -/
def untilClosed (opening closing : Char) (fault : SyntaxFault) :
    Nat → Nat → List Char → Except SyntaxFault (List Char × List Char)
  | 0, _, _ | _, _, [] => .error fault
  | fuel + 1, depth, c :: s =>
    let go := fun (taken : List Char) depth rest =>
      (untilClosed opening closing fault fuel depth rest).map fun (t, r) => (taken ++ t, r)
    let quoted := fun (found : Option (List Char × List Char)) =>
      match found with
      | some (t, r) => go (c :: t ++ [c]) depth r
      | none => .error .openQuote
    if c = '\\' then go (c :: s.take 1) depth (s.drop 1)
    else if c = '\'' then quoted (untilFirst '\'' s)
    else if c = '"' then quoted (untilMark '"' s)
    else if c = closing then
      match depth with
      | 0 => .ok ([], s)
      | depth + 1 => go [c] depth s
    else go [c] (if c = opening then depth + 1 else depth) s

/-- The rule for a parameter that is written behind its name, and the rest. -/
def readRule : List Char → Option (Rule × List Char)
  | [] => some (.value, [])
  | ':' :: '-' :: s => some (.default true, s)
  | '-' :: s => some (.default false, s)
  | ':' :: '=' :: s => some (.assign true, s)
  | '=' :: s => some (.assign false, s)
  | ':' :: '?' :: s => some (.demand true, s)
  | '?' :: s => some (.demand false, s)
  | ':' :: '+' :: s => some (.alternative true, s)
  | '+' :: s => some (.alternative false, s)
  | '#' :: '#' :: s => some (.cutStart true, s)
  | '#' :: s => some (.cutStart false, s)
  | '%' :: '%' :: s => some (.cutEnd true, s)
  | '%' :: s => some (.cutEnd false, s)
  | _ => none

/-- A parameter that has one character and is no name. -/
def isSpecial (c : Char) : Bool := c.isDigit || "@*#?$!-".toList.contains c

/-- The name of a parameter, and the rest. -/
def readName : List Char → List Char × List Char
  | [] => ([], [])
  | c :: s =>
    if c.isAlpha || c = '_' then ((c :: s).takeWhile isNameChar, (c :: s).dropWhile isNameChar)
    else if c.isDigit then ((c :: s).takeWhile Char.isDigit, (c :: s).dropWhile Char.isDigit)
    else if isSpecial c then ([c], s)
    else ([], c :: s)

/-- A backslash escapes these within double quotes. -/
def escapedInQuotes : List Char := ['$', '`', '\\']

/-- The script between backquotes without its backslashes; within double quotes, a double quote
is escaped too. -/
def unescapeScript (quoted : Bool) : List Char → List Char
  | '\\' :: c :: s =>
    if escapedInQuotes.contains c || (quoted && c = '"') then c :: unescapeScript quoted s
    else '\\' :: c :: unescapeScript quoted s
  | c :: s => c :: unescapeScript quoted s
  | [] => []

/-- The script between backquotes, and what follows. -/
def readBackquoted (quoted : Bool) (s : List Char) : Except SyntaxFault (Part × List Char) :=
  match untilMark '`' s with
  | some (script, r) => .ok (.command quoted (unescapeScript quoted script), r)
  | none => .error .openBackquote

/-- Where a text that is quoted stands. -/
inductive Quoting
  /-- Between double quotes, the second of which ends it. -/
  | string
  /-- Between the braces of a parameter within double quotes, where quotes mean nothing. -/
  | argument
  /-- On lines of its own or in an expression, where quotes are characters like others. -/
  | text
  deriving DecidableEq

/-- The script of a substitution, up to its closing bracket. -/
def readScript (quoted : Bool) (s : List Char) : Except SyntaxFault (Part × List Char) := do
  let fault := .unexpected "end of file" (some "\")\"")
  let (script, r) ← untilClosed '(' ')' fault (s.length + 1) 0 s
  return (.command quoted script, r)

mutual

/-- What a dollar sign starts. -/
def readDollar (quoted : Bool) : Nat → List Char → Except SyntaxFault (Part × List Char)
  | 0, _ => .error .badSubstitution
  | fuel + 1, s =>
    match s with
    | '(' :: '(' :: r => do
      match ← untilClosed '(' ')' .openArithmetic (r.length + 1) 0 r with
      | (expression, ')' :: r) =>
        let (parts, _) ← readQuoted .text fuel expression
        return (.arithmetic quoted parts, r)
      | _ => throw .openArithmetic
    | '(' :: r => readScript quoted r
    | '\x7b' :: r => do
      let fault := if quoted then .openQuote else .openBrace
      let (body, r) ← untilClosed '\x7b' '\x7d' fault (r.length + 1) 0 r
      return (← readParameter quoted fuel body, r)
    | _ =>
      let (name, r) := readName s
      let (name, r) := if (name.head?.any Char.isDigit) then (name.take 1, name.drop 1 ++ r)
        else (name, r)
      if name.isEmpty then .ok (.text quoted ['$'], s)
      else .ok (.parameter quoted (String.ofList name) .value [], r)

/-- A parameter and the rule for it, as they stand between braces. -/
def readParameter (quoted : Bool) : Nat → List Char → Except SyntaxFault Part
  | 0, _ => .error .badSubstitution
  | fuel + 1, body =>
    let (name, r) := readName body
    match body with
    | '#' :: c :: s =>
      let (name, r) := readName (c :: s)
      if name.isEmpty || !r.isEmpty then .error .badSubstitution
      else .ok (.parameter quoted (String.ofList name) .length [])
    | _ =>
      match readRule r with
      | some (rule, r) =>
        if name.isEmpty then .error .badSubstitution
        else do
          let (parts, _) ← if quoted then readQuoted .argument fuel r
            else readWord fuel (fun _ => false) r
          return .parameter quoted (String.ofList name) rule parts
      | none => .error .badSubstitution

/-- The parts of a quoted text, and what follows. -/
def readQuoted (quoting : Quoting) : Nat → List Char → Except SyntaxFault (Word × List Char)
  | 0, _ => .error .openQuote
  | _, [] => if quoting = .string then .error .openQuote else .ok ([], [])
  | fuel + 1, c :: s => do
    let go := fun (part : Part) rest => do
      let (parts, r) ← readQuoted quoting fuel rest
      return (part :: parts, r)
    if c = '"' && quoting = .string then return ([], s)
    else if c = '"' && quoting = .argument then readQuoted quoting fuel s
    else
      match c, s with
      | '$', s => do
        let (part, r) ← readDollar true fuel s
        go part r
      | '`', s => do
        let (part, r) ← readBackquoted true s
        go part r
      | '\\', '\n' :: s => readQuoted quoting fuel s
      | '\\', e :: s =>
        let escaped := escapedInQuotes.contains e || (e = '"' && quoting ≠ .text) ||
          (e = '\x7d' && quoting = .argument)
        go (.text true (if escaped then [e] else ['\\', e])) s
      | c, s => go (.text true [c]) s

/-- The parts of a word, up to a character that ends it or the end of the text. -/
def readWord : Nat → (Char → Bool) → List Char → Except SyntaxFault (Word × List Char)
  | 0, _, _ => .error .openQuote
  | _, _, [] => .ok ([], [])
  | fuel + 1, ends, c :: s => do
    let go := fun (word : Word) rest => do
      let (parts, r) ← readWord fuel ends rest
      return (word ++ parts, r)
    match c, s with
    | '\'', s =>
      match untilFirst '\'' s with
      | some (text, r) => go [.text true text] r
      | none => .error .openQuote
    | '"', s => do
      let (parts, r) ← readQuoted .string fuel s
      go (if parts.isEmpty then [.text true []] else parts) r
    | '$', s => do
      let (part, r) ← readDollar false fuel s
      go [part] r
    | '`', s => do
      let (part, r) ← readBackquoted false s
      go [part] r
    | '\\', '\n' :: s => go [] s
    | '\\', e :: s => go [.text true [e]] s
    | c, s => if ends c then return ([], c :: s) else go [.text false [c]] s

end

/-- A word with the texts of its parts joined where they can be. -/
def joinTexts : Word → Word
  | .text q s :: .text q' t :: parts =>
    if q = q' then joinTexts (.text q (s ++ t) :: parts)
    else .text q s :: joinTexts (.text q' t :: parts)
  | part :: parts => part :: joinTexts parts
  | [] => []
termination_by w => w.length

/-- The operators, longer ones first. -/
def operators : List String :=
  ["<<-", "&&", "||", ";;", "<<", ">>", "<&", ">&", ">|", "<", ">", ";", "&", "|", "(", ")", "\n"]

/-- The operator at the start of a text, and the rest. -/
def readOperator? (s : List Char) : Option (String × List Char) :=
  operators.findSome? fun op => (op.toList.isPrefixOf? s).map (op, ·)

/-- A character that ends a word. -/
def endsWord (c : Char) : Bool := " \t\n;&|()<>".toList.contains c

/-- The text of a word, quotes and all, that names the end of a text in the script. -/
def delimiterOf : Word → List Char
  | .text _ s :: parts => s ++ delimiterOf parts
  | _ :: parts => delimiterOf parts
  | [] => []

/-- The lines up to the one that is the delimiter, and what follows. -/
def untilDelimiter (strip : Bool) (delimiter : List Char) :
    List (List Char) → List Char × List (List Char)
  | [] => ([], [])
  | [line] =>
    let line := if strip then line.dropWhile (· = '\t') else line
    (if line = delimiter then [] else line, [])
  | line :: lines =>
    let line := if strip then line.dropWhile (· = '\t') else line
    if line = delimiter then ([], lines)
    else
      let (text, rest) := untilDelimiter strip delimiter lines
      (line ++ '\n' :: text, rest)

/-- Takes the text that starts on the next line out of the script; for each of its lines an escaped
line break stays, so that later lines keep their numbers. -/
def takeHere (strip : Bool) (word : Word) (s : List Char) :
    Except SyntaxFault (Word × List Char) :=
  let line := s.takeWhile (· ≠ '\n')
  let lines := ((s.drop (line.length + 1)).splitOn '\n')
  let (text, rest) := untilDelimiter strip (delimiterOf word) lines
  let taken := lines.length - rest.length
  let s := line ++ '\n' :: (List.replicate taken ['\\', '\n']).flatten ++ ['\n'].intercalate rest
  if word.any (fun | .text q _ => q | _ => false) then .ok ([.text true text], s)
  else do
    let (parts, _) ← readQuoted .text (2 * text.length + 2) text
    return (parts, s)

/-- The tokens of a script from a line on. -/
def tokens : Nat → Nat → List Char → List Lexeme
  | 0, _, _ | _, _, [] => []
  | fuel + 1, line, c :: s =>
    let failing := fun (fault : SyntaxFault) => [⟨.fault fault, line + (c :: s).count '\n'⟩]
    if c = ' ' || c = '\t' then tokens fuel line s
    else if c = '#' then tokens fuel line (s.dropWhile (· ≠ '\n'))
    else
      match c, s with
      | '\\', '\n' :: s => tokens fuel (line + 1) s
      | c, s =>
        match readOperator? (c :: s) with
        | some (op, r) =>
          if op = "<<" || op = "<<-" then
            match readWord (r.length + 1) endsWord (r.dropWhile (· = ' ')) with
            | .error fault => failing fault
            | .ok ([], _) => ⟨.operator op, line⟩ :: tokens fuel line r
            | .ok (word, r) =>
              match takeHere (op = "<<-") word r with
              | .error fault => failing fault
              | .ok (text, r) => ⟨.here (joinTexts text), line⟩ :: tokens fuel line r
          else ⟨.operator op, line⟩ :: tokens fuel (if op = "\n" then line + 1 else line) r
        | none =>
          match readWord (2 * (c :: s).length + 2) endsWord (c :: s) with
          | .error fault => failing fault
          | .ok (word, r) =>
            let word := joinTexts word
            let token := match (plainText? word).bind (fun t => Text.readNat? 10 t.toList) with
              | some n => if r.head? = some '<' || r.head? = some '>' then .stream n
                else .word word
              | none => .word word
            let breaks := ((c :: s).take ((c :: s).length - r.length)).count '\n'
            ⟨token, line⟩ :: tokens fuel (line + breaks) r

/-- The tokens of a script. -/
def lex (script : List Char) : List Lexeme := tokens (script.length + 1) 1 script

end Briefing.Shell
