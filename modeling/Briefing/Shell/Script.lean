import Briefing.Shell.Lexeme

/-!
# Scripts

The commands of a script are read from its tokens, one line at a time, since a line is run before
the next one is read.
-/

namespace Briefing.Shell

/-- The text of the word that stands first, if it could be a keyword. -/
def firstText? : List Lexeme → Option String
  | ⟨.word w, _⟩ :: _ => plainText? w
  | _ => none

/-- The operator that stands first. -/
def firstOperator? : List Lexeme → Option String
  | ⟨.operator op, _⟩ :: _ => some op
  | _ => none

/-- Words that mean something where a command starts. -/
def keywords : List String :=
  ["if", "then", "elif", "else", "fi", "while", "until", "do", "done", "for", "in", "case", "esac",
    "\x7b", "\x7d", "!"]

/-- Words that end a list of commands. -/
def closingKeywords : List String :=
  ["then", "elif", "else", "fi", "do", "done", "esac", "\x7d"]

/-- Whether no command starts here. -/
def isClosing (s : List Lexeme) : Bool :=
  s.isEmpty || (firstText? s).any closingKeywords.contains ||
    (firstOperator? s).any [")", ";;"].contains

/-- Why the tokens are no commands, and the line where that is found; none at their end. -/
abbrev Reading := Except (SyntaxFault × Option Nat)

/-- The fault of what stands first, if it should not. -/
def unexpectedAt (s : List Lexeme) (expected : Option String := none) :
    SyntaxFault × Option Nat :=
  match s with
  | [] => (.unexpected "end of file" expected, none)
  | ⟨token, line⟩ :: _ =>
    match token with
    | .fault fault => (fault, some line)
    | .operator "\n" => (.unexpected "newline" expected, some (line + 1))
    | .operator op =>
      let shown := if op.toList.head?.any "<>".toList.contains then "redirection"
        else "\"" ++ op ++ "\""
      (.unexpected shown expected, some line)
    | .word w =>
      let shown := match (plainText? w).filter keywords.contains with
        | some text => "\"" ++ text ++ "\""
        | none => "word"
      (.unexpected shown expected, some line)
    | _ => (.unexpected "redirection" expected, some line)

/-- The tokens behind line breaks. -/
def skipBreaks (s : List Lexeme) : List Lexeme :=
  s.dropWhile fun
    | ⟨.operator "\n", _⟩ => true
    | _ => false

/-- The tokens behind a keyword that has to stand first. -/
def expectKeyword (keyword : String) (s : List Lexeme) : Reading (List Lexeme) :=
  if firstText? s = some keyword then .ok s.tail
  else .error (unexpectedAt s (some ("\"" ++ keyword ++ "\"")))

/-- The name and the value that a word assigns. -/
def assignment? : Word → Option (String × Word)
  | .text false s :: parts =>
    let name := s.takeWhile (· ≠ '=')
    match s.drop name.length with
    | '=' :: value =>
      if isName name then
        some (String.ofList name, if value.isEmpty then parts else .text false value :: parts)
      else none
    | _ => none
  | _ => none

/-- A redirection of a stream to or from a word by an operator. -/
def redirection? (stream : Option Nat) (op : String) (w : Word) : Option Redirection :=
  match op with
  | "<" => some (.read w)
  | ">" | ">|" => some (.write (stream.getD 1) w)
  | ">>" => some (.append (stream.getD 1) w)
  | ">&" => some (.copy (stream.getD 1) w)
  | "<&" => some (.copy (stream.getD 0) w)
  | _ => none

/-- A redirection that stands first, and what follows. -/
def readRedirection? : List Lexeme → Reading (Option (Redirection × List Lexeme))
  | ⟨.here text, _⟩ :: s => .ok (some (.here text, s))
  | ⟨.stream n, _⟩ :: ⟨.operator op, _⟩ :: ⟨.word w, _⟩ :: s =>
    .ok ((redirection? (some n) op w).map (·, s))
  | ⟨.operator op, _⟩ :: ⟨.word w, _⟩ :: s => .ok ((redirection? none op w).map (·, s))
  | ⟨.operator op, _⟩ :: s =>
    if op.toList.head?.any "<>".toList.contains then .error (unexpectedAt s) else .ok none
  | _ => .ok none

/-- Redirections that stand first, and what follows. -/
def readRedirections : Nat → List Lexeme → Reading (List Redirection × List Lexeme)
  | 0, s => .ok ([], s)
  | fuel + 1, s => do
    match ← readRedirection? s with
    | some (r, s) =>
      let (rs, s) ← readRedirections fuel s
      return (r :: rs, s)
    | none => return ([], s)

/-- The words and redirections of a simple command, and what follows. -/
def readItems : Nat → List Lexeme →
    Reading ((List Word × List Redirection) × List Lexeme)
  | 0, s => .ok (([], []), s)
  | fuel + 1, s => do
    match ← readRedirection? s with
    | some (r, s) =>
      let ((words, rs), s) ← readItems fuel s
      return ((words, r :: rs), s)
    | none =>
      match s with
      | ⟨.word w, _⟩ :: s =>
        let ((words, rs), s) ← readItems fuel s
        return ((w :: words, rs), s)
      | ⟨.fault fault, line⟩ :: _ => throw (fault, some line)
      | s => return (([], []), s)

/-- A simple command, and what follows. -/
def readSimple (s : List Lexeme) : Reading (Command × List Lexeme) := do
  let line := (s.head?.map Lexeme.line).getD 1
  let ((words, redirections), rest) ← readItems (s.length + 1) s
  if words.isEmpty && redirections.isEmpty then throw (unexpectedAt rest)
  let assigned := words.takeWhile fun w => (assignment? w).isSome
  return (.simple line (assigned.filterMap assignment?) (words.drop assigned.length) redirections,
    rest)

/-- The patterns of an arm of a choice, up to the closing bracket, and what follows. -/
def readPatterns : List Lexeme → Reading (List Word × List Lexeme)
  | ⟨.word w, _⟩ :: ⟨.operator ")", _⟩ :: s => .ok ([w], s)
  | ⟨.word w, _⟩ :: ⟨.operator "|", _⟩ :: s => do
    let (words, s) ← readPatterns s
    return (w :: words, s)
  | ⟨.word _, _⟩ :: s | s => .error (unexpectedAt s (some "\")\""))

/-- The words of a repetition, up to the end of the line, and what follows. -/
def readWords : List Lexeme → List Word × List Lexeme
  | ⟨.word w, _⟩ :: s =>
    let (words, s) := readWords s
    (w :: words, s)
  | s => ([], s)

/-- A command before an operator that ends it. -/
def behind (op : String) (c : Command) : Command := if op = "&" then .background c else c

/-- A command with the redirections that stand behind it, and what follows. -/
def readRedirected (result : Command × List Lexeme) : Reading (Command × List Lexeme) := do
  let (body, s) := result
  let (redirections, s) ← readRedirections (s.length + 1) s
  return (if redirections.isEmpty then body else .redirected body redirections, s)

mutual

/-- Commands up to a word or operator that closes them; at least one if `needed`. -/
def readList (needed : Bool) : Nat → List Lexeme → Reading (Command × List Lexeme)
  | 0, s => .error (unexpectedAt s)
  | fuel + 1, s => do
    let s := skipBreaks s
    if isClosing s then
      if needed && !s.isEmpty then throw (unexpectedAt s) else return (.nothing, s)
    else
      let (first, s) ← readAndOr fuel s
      match firstOperator? s with
      | some op =>
        if op = ";" || op = "&" || op = "\n" then
          let (rest, s) ← readList false fuel s.tail
          return (.sequence (behind op first) rest, s)
        else return (first, s)
      | none => return (first, s)

/-- Pipelines joined by `&&` and `||`. -/
def readAndOr : Nat → List Lexeme → Reading (Command × List Lexeme)
  | 0, s => .error (unexpectedAt s)
  | fuel + 1, s => do
    let (first, s) ← readPipeline fuel s
    readMore fuel first s

/-- What `&&` and `||` join to a pipeline, from the left. -/
def readMore : Nat → Command → List Lexeme → Reading (Command × List Lexeme)
  | 0, _, s => .error (unexpectedAt s)
  | fuel + 1, first, s =>
    match firstOperator? s with
    | some "&&" => do
      let (second, s) ← readPipeline fuel (skipBreaks s.tail)
      readMore fuel (.both first second) s
    | some "||" => do
      let (second, s) ← readPipeline fuel (skipBreaks s.tail)
      readMore fuel (.either first second) s
    | _ => .ok (first, s)

/-- Commands joined by `|`, perhaps negated. -/
def readPipeline : Nat → List Lexeme → Reading (Command × List Lexeme)
  | 0, s => .error (unexpectedAt s)
  | fuel + 1, s =>
    if firstText? s = some "!" then do
      if firstText? s.tail = some "!" then throw (unexpectedAt s.tail)
      let (body, s) ← readPipeline fuel s.tail
      return (.negation body, s)
    else do
      let (stages, s) ← readStages fuel s
      match stages with
      | [stage] => return (stage, s)
      | stages => return (.pipeline stages, s)

/-- The commands that `|` joins. -/
def readStages : Nat → List Lexeme → Reading (List Command × List Lexeme)
  | 0, s => .error (unexpectedAt s)
  | fuel + 1, s => do
    let (stage, s) ← readCommand fuel s
    if firstOperator? s = some "|" then
      let (stages, s) ← readStages fuel (skipBreaks s.tail)
      return (stage :: stages, s)
    else return ([stage], s)

/-- One command with its redirections. -/
def readCommand : Nat → List Lexeme → Reading (Command × List Lexeme)
  | 0, s => .error (unexpectedAt s)
  | fuel + 1, s =>
    match s with
    | ⟨.word w, line⟩ :: ⟨.operator "(", _⟩ :: rest => do
      if (plainText? w).any keywords.contains then
        match ← readCompound fuel s with
        | some result => return ← readRedirected result
        | none => throw (unexpectedAt s)
      if firstOperator? rest ≠ some ")" then throw (unexpectedAt rest (some "\")\""))
      match (plainText? w).filter fun name => isName name.toList with
      | some name =>
        let (body, s) ← readCommand fuel (skipBreaks rest.tail)
        return (.definition name body, s)
      | none => throw (.badFunctionName, some line)
    | _ => do
      match ← readCompound fuel s with
      | some result => readRedirected result
      | none => readSimple s

/-- A command that is composed of others, if one starts here. -/
def readCompound : Nat → List Lexeme → Reading (Option (Command × List Lexeme))
  | 0, s => .error (unexpectedAt s)
  | fuel + 1, s =>
    if firstOperator? s = some "(" then do
      let (body, s) ← readList true fuel s.tail
      if firstOperator? s = some ")" then return some (.subshell body, s.tail)
      else throw (unexpectedAt s (some "\")\""))
    else
      match firstText? s with
      | some "\x7b" => do
        let (body, s) ← readList true fuel s.tail
        return some (body, ← expectKeyword "\x7d" s)
      | some "if" => some <$> readConditional fuel s.tail
      | some "while" => some <$> readLoop true fuel s.tail
      | some "until" => some <$> readLoop false fuel s.tail
      | some "for" => some <$> readEach fuel s.tail
      | some "case" =>
        match s.tail with
        | ⟨.word w, _⟩ :: s => do
          let s ← expectKeyword "in" (skipBreaks s)
          let (arms, s) ← readArms fuel (skipBreaks s)
          return some (.choice w arms, s)
        | s => throw (unexpectedAt s (some "word"))
      | some text => if keywords.contains text then throw (unexpectedAt s) else return none
      | none => return none

/-- What follows `if` or `elif`. -/
def readConditional : Nat → List Lexeme → Reading (Command × List Lexeme)
  | 0, s => .error (unexpectedAt s)
  | fuel + 1, s => do
    let (test, s) ← readList true fuel s
    let s ← expectKeyword "then" s
    let (yes, s) ← readList true fuel s
    match firstText? s with
    | some "elif" =>
      let (no, s) ← readConditional fuel s.tail
      return (.conditional test yes no, s)
    | some "else" =>
      let (no, s) ← readList true fuel s.tail
      return (.conditional test yes no, ← expectKeyword "fi" s)
    | _ => return (.conditional test yes .nothing, ← expectKeyword "fi" s)

/-- What follows `while` or `until`. -/
def readLoop (whileTrue : Bool) : Nat → List Lexeme → Reading (Command × List Lexeme)
  | 0, s => .error (unexpectedAt s)
  | fuel + 1, s => do
    let (test, s) ← readList true fuel s
    let (body, s) ← readBody fuel s
    return (.loop whileTrue test body, s)

/-- The commands between `do` and `done`. -/
def readBody : Nat → List Lexeme → Reading (Command × List Lexeme)
  | 0, s => .error (unexpectedAt s)
  | fuel + 1, s => do
    let s ← expectKeyword "do" s
    let (body, s) ← readList true fuel s
    return (body, ← expectKeyword "done" s)

/-- What follows `for`. -/
def readEach : Nat → List Lexeme → Reading (Command × List Lexeme)
  | 0, s => .error (unexpectedAt s)
  | fuel + 1, s =>
    match (firstText? s).filter fun name => isName name.toList with
    | none => .error (.badLoopVariable, s.head?.map Lexeme.line)
    | some name => do
      let s := skipBreaks s.tail
      let inWords := firstText? s = some "in"
      let (words, s) := if inWords then readWords s.tail else ([], s)
      let ended := (firstOperator? s).any [";", "\n"].contains
      if inWords && !ended then throw (unexpectedAt s)
      let s := if firstOperator? s = some ";" then s.tail else s
      let (body, s) ← readBody fuel (skipBreaks s)
      return (.each name (if inWords then some words else none) body, s)

/-- The arms of a choice, up to `esac`. -/
def readArms : Nat → List Lexeme → Reading (List (List Word × Command) × List Lexeme)
  | 0, s => .error (unexpectedAt s)
  | fuel + 1, s => do
    if firstText? s = some "esac" then return ([], s.tail)
    else
      let (patterns, s) ← readPatterns (if firstOperator? s = some "(" then s.tail else s)
      let (body, s) ← readList false fuel s
      if firstOperator? s = some ";;" then
        let (arms, s) ← readArms fuel (skipBreaks s.tail)
        return ((patterns, body) :: arms, s)
      else if firstText? s = some "esac" then return ([(patterns, body)], s.tail)
      else throw (unexpectedAt s (some "\";;\""))

end

/-- The commands of the next line, and the tokens of later lines; none at the end. -/
def readLine : Nat → List Lexeme → Reading (Option (Command × List Lexeme))
  | 0, s => .error (unexpectedAt s)
  | fuel + 1, s => do
    let s := skipBreaks s
    if s.isEmpty then return none
    else
      let (first, s) ← readAndOr (16 * (s.length + 1)) s
      match firstOperator? s with
      | none => if s.isEmpty then return some (first, []) else throw (unexpectedAt s)
      | some "\n" => return some (first, s.tail)
      | some op =>
        if op = ";" || op = "&" then
          if s.tail.isEmpty || firstOperator? s.tail = some "\n" then
            return some (behind op first, s.tail)
          else
            match ← readLine fuel s.tail with
            | some (rest, s) => return some (.sequence (behind op first) rest, s)
            | none => return some (behind op first, [])
        else throw (unexpectedAt s)

/-- The fault of a script that is not understood as a whole, and its line. -/
def faultIn? : Nat → List Lexeme → Option (SyntaxFault × Option Nat)
  | 0, _ => none
  | fuel + 1, s =>
    match readLine (s.length + 1) s with
    | .error fault => some fault
    | .ok none => none
    | .ok (some (_, rest)) => faultIn? fuel rest

/-- The line where the tokens end. -/
def lastLine (s : List Lexeme) : Nat :=
  match s.getLast? with
  | some ⟨.operator "\n", line⟩ => line + 1
  | some ⟨_, line⟩ => line
  | none => 1

end Briefing.Shell
