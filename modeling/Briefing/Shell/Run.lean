import Briefing.Shell.Arithmetic
import Briefing.Shell.Builtin
import Briefing.Shell.Field

/-!
# Running scripts

Words are expanded, redirections made, and commands run one after the other. Every function counts
down a number of steps, since a script may go on for ever.
-/

namespace Briefing.Shell

open Eval

mutual

/-- The pieces of a word. -/
def expandWord : Nat → Word → Eval (List Piece)
  | 0, _ => throw .timedOut
  | _, [] => return []
  | fuel + 1, part :: parts => do
    let first ← match part with
      | .text true s => pure [Piece.fixed s]
      | .text false s => pure [Piece.literal s]
      | .parameter quoted name rule argument => expandParameter fuel quoted name rule argument
      | .command quoted script => do
        let lexemes := lex script
        if let some (fault, _) := faultIn? (lexemes.length + 1) lexemes then abort fault.message
        let bytes ← captured (doApart fuel (runScript fuel lexemes))
        modify fun s => { s with inner := some s.status }
        let text := (Text.decodeBytes bytes).toList.filter (· ≠ '\x00')
        pure [Piece.ofValue quoted (withoutBreaks (String.ofList text))]
      | .arithmetic quoted expression => do
        let text := textOf (← expandWord fuel expression)
        let s ← get
        match evaluate (fun name => (s.vars.get? name).getD "") text.toList with
        | .ok (n, assigned) =>
          for (name, value) in assigned.reverse do
            setVariable name (String.ofList (integerText value))
          pure [Piece.ofValue quoted (String.ofList (integerText n))]
        | .error fault => abort (fault.message text)
    return first ++ (← expandWord fuel parts)

/-- The pieces of a parameter. -/
def expandParameter : Nat → Bool → String → Rule → List Part → Eval (List Piece)
  | 0, _, _, _, _ => throw .timedOut
  | fuel + 1, quoted, name, rule, argument => do
    let value ← parameter? name
    let text := value.getD ""
    let isNone := fun (emptyToo : Bool) => value.isNone || (emptyToo && text.isEmpty)
    let plain := [Piece.ofValue quoted text]
    let s ← get
    if value.isNone && s.settings.onUnset && rule.needsValue then
      abort (name ++ ": parameter not set")
    match rule with
    | .value =>
      if name = "@" || (name = "*" && !quoted) then
        return cutBetween (s.arguments.map (Piece.ofValue quoted))
      else return plain
    | .length => return [Piece.ofValue quoted (Text.decimal text.utf8ByteSize)]
    | .default emptyToo => if isNone emptyToo then expandWord fuel argument else return plain
    | .alternative emptyToo =>
      if isNone emptyToo then return (if quoted then [.fixed []] else [])
      else expandWord fuel argument
    | .assign emptyToo =>
      if isNone emptyToo then
        let text := textOf (← expandWord fuel argument)
        setVariable name text
        return [Piece.ofValue quoted text]
      else return plain
    | .demand emptyToo =>
      if isNone emptyToo then
        let text := textOf (← expandWord fuel argument)
        let ending := if emptyToo then " or null" else ""
        abort (name ++ ": " ++ if text.isEmpty then "parameter not set" ++ ending else text)
      else return plain
    | .cutStart longest =>
      let pattern := Pattern.ofMarked ((← expandWord fuel argument).flatMap Piece.marked)
      return [Piece.ofValue quoted (String.ofList (cutPatternStart pattern longest text.toList))]
    | .cutEnd longest =>
      let pattern := Pattern.ofMarked ((← expandWord fuel argument).flatMap Piece.marked)
      return [Piece.ofValue quoted (String.ofList (cutPatternEnd pattern longest text.toList))]

/-- The text of a word that is neither split nor matched. -/
def expandText : Nat → Word → Eval String
  | 0, _ => throw .timedOut
  | fuel + 1, word => do
    return textOf (← expandWord fuel (expandTilde (← valueOf? "HOME") word))

/-- The fields of words. -/
def expandFields : Nat → List Word → Eval (List String)
  | 0, _ => throw .timedOut
  | _, [] => return []
  | fuel + 1, word :: words => do
    let pieces ← expandWord fuel (expandTilde (← valueOf? "HOME") word)
    let s ← get
    let found := fieldsOf s.separators none pieces
    let fields := if s.settings.literal then found.map fun field => String.ofList (field.map (·.1))
      else found.flatMap (pathsLike s.disk)
    return fields ++ (← expandFields fuel words)

/-- Makes redirections; tells whether all could be made. -/
def redirectAll : Nat → List Redirection → Eval Bool
  | 0, _ => throw .timedOut
  | _, [] => return true
  | fuel + 1, r :: rs => do
    let made ← match r with
      | .read target => readFrom (← expandText fuel target)
      | .write stream target => redirectTo stream (← expandText fuel target) false
      | .append stream target => redirectTo stream (← expandText fuel target) true
      | .copy stream target => do
        let text ← expandText fuel target
        let s ← get
        match Text.readNat? 10 text.toList with
        | some n =>
          match s.sinks.lookup n with
          | some sink => redirect stream sink; pure true
          | none =>
            complain (text ++ ": Bad file descriptor")
            pure false
        | none => redirect stream .nowhere; pure true
      | .here text => do
        let text := textOf (← expandWord fuel text)
        modify fun s => { s with input := text.toUTF8 }
        pure true
    if made then redirectAll fuel rs
    else
      setStatus 2
      return false

/-- Does something with redirections, which end with it. -/
def withRedirections : Nat → List Redirection → Eval Unit → Eval Unit
  | 0, _, _ => throw .timedOut
  | fuel + 1, redirections, body => do
    if redirections.isEmpty then body
    else
      let s ← get
      let restore : Eval Unit := modify fun t => { t with sinks := s.sinks, input := s.input }
      let made ← tryCatch (redirectAll fuel redirections) fun stop => do
        restore
        throw stop
      if made then
        tryCatch body fun stop => do
          restore
          throw stop
      restore

/-- Runs a script to its end in a shell of its own, which sees only what is exported. -/
def runAnew : Nat → String → List String → Settings → List Char → Eval Unit
  | 0, _, _, _, _ => throw .timedOut
  | fuel + 1, name, arguments, settings, text =>
    inSubshell (do
      let environment ← environment
      modify fun t => { t with
        name, arguments, settings, vars := Table.ofList environment, functions := ∅
        hidden := none, fixed := ∅, tested := false, loops := 0, line := 1 }
      doApart fuel (runScript fuel (lex text))) true

/-- Runs what a program is, with arguments. Complaints call it `shown`. -/
def execute : Nat → String → String → List String → Eval Unit
  | 0, _, _, _ => throw .timedOut
  | fuel + 1, shown, path, arguments => do
    let s ← get
    match programAt s.disk path with
    | .utility utility before => useUtility utility (before ++ arguments)
    | .script settings text => runAnew fuel path arguments settings text
    | .shell => runShell fuel {} arguments
    | .environment =>
      inSubshell do
        let bare := arguments.head? = some "-i"
        if bare then modify fun t => { t with exported := ∅ }
        let arguments := if bare then arguments.tail else arguments
        let items := arguments.takeWhile fun a => a.toList.contains '='
        exportAll items
        match arguments.drop items.length with
        | [] => useUtility Utility.env []
        | name :: arguments => runExternal fuel name name arguments
    | .unknown =>
      match s.disk.readText path with
      | .ok text => runAnew fuel path arguments {} text.toList
      | .error _ => setStatus 2
    | .missing =>
      complain (shown ++ ": not found")
      setStatus 127
    | .forbidden =>
      complain (shown ++ ": Permission denied")
      setStatus 126

/-- Runs a command of the shell itself; none if there is none of this name. -/
def runBuiltin : Nat → String → List String → Eval Bool
  | 0, _, _ => throw .timedOut
  | fuel + 1, name, arguments => do
    match name with
    | "cd" => changeDirectory arguments
    | "exit" => throw (.exit (← askedStatus "exit" arguments))
    | "return" => throw (.returned (← askedStatus "return" arguments))
    | "pwd" => tellDirectory arguments
    | "break" =>
      let n ← askedLoops arguments
      if n ≠ 0 then throw (.leaveLoop n)
      setStatus 0
    | "continue" =>
      let n ← askedLoops arguments
      if n ≠ 0 then throw (.nextRound n)
      setStatus 0
    | "export" => exportAll arguments
    | "readonly" => fixAll arguments
    | "local" =>
      for item in arguments do makeLocal item
      setStatus 0
    | "unset" => unsetAll (arguments.filter fun a => a ≠ "-f" ∧ a ≠ "-v")
    | "set" => setOptions arguments
    | "shift" => shift arguments
    | "read" => readInput arguments
    | "kill" =>
      if let some signal ← kill arguments then
        if let some text := (← get).traps.lookup signal then runTrap fuel text
        else if !Signal.harmless.contains signal then throw (.killed signal)
    | "trap" => setTrap arguments
    | "umask" =>
      if arguments.isEmpty then write 1 "0022\n".toUTF8
      setStatus 0
    | "wait" | "hash" => setStatus 0
    | "eval" => runScript fuel (lex (" ".intercalate arguments).toList)
    | "." => runSourced fuel (arguments.headD "")
    | "exec" =>
      match arguments with
      | [] => setStatus 0
      | name :: arguments =>
        let s ← get
        if (findProgram s.disk s.searchPath name).isSome then set { s with traps := [] }
        runExternal fuel ("exec: " ++ name) name arguments
        throw (.exit (← get).status)
    | "command" =>
      match arguments with
      | "-v" :: names => describeAll false (names.take 1)
      | "-V" :: names => describeAll true (names.take 1)
      | name :: arguments => runNamed fuel name arguments
      | [] => setStatus 0
    | "type" => describeAll true arguments
    | name =>
      match Utility.builtin.lookup name with
      | some utility => useBuiltin utility arguments
      | none => return false
    return true

/-- Runs the script in a file in this shell. -/
def runSourced : Nat → String → Eval Unit
  | 0, _ => throw .timedOut
  | fuel + 1, name => do
    if !name.toList.contains '/' then abort (".: " ++ name ++ ": not found") 127
    match (← get).disk.readText name with
    | .ok text =>
      tryCatch (runScript fuel (lex text.toList)) fun
        | .returned status => setStatus status
        | stop => throw stop
    | .error _ => abort (".: cannot open " ++ name ++ ": No such file")

/-- Runs a program, which complaints call `shown`. -/
def runExternal : Nat → String → String → List String → Eval Unit
  | 0, _, _, _ => throw .timedOut
  | fuel + 1, shown, name, arguments => do
    let s ← get
    match findProgram s.disk s.searchPath name with
    | some path => execute fuel shown path arguments
    | none =>
      complain (shown ++ ": not found")
      setStatus 127

/-- Runs another shell. -/
def runShell : Nat → Settings → List String → Eval Unit
  | 0, _, _ => throw .timedOut
  | fuel + 1, settings, arguments => do
    match arguments with
    | [] => runAnew fuel "sh" [] settings (Text.decodeBytes (← get).input).toList
    | first :: rest =>
      match first.toList with
      | '-' :: letters =>
        let settings := settings.switch true letters
        if letters.contains 'c' then
          let operands := rest.tail
          runAnew fuel (operands.headD "sh") operands.tail settings (rest.headD "").toList
        else runShell fuel settings rest
      | _ =>
        match (← get).disk.readText first with
        | .ok text => runAnew fuel first rest settings text.toList
        | .error _ =>
          write 2 ("sh: 0: cannot open " ++ first ++ ": No such file\n").toUTF8
          setStatus 2

/-- Runs a function, a command of the shell itself or a program. -/
def runNamed : Nat → String → List String → Eval Unit
  | 0, _, _ => throw .timedOut
  | fuel + 1, name, arguments => do
    let s ← get
    match s.functions.get? name with
    | some body =>
      set { s with arguments, hidden := some [] }
      let leave : Eval Unit := do
        uncover ((← get).hidden.getD [])
        modify fun t => { t with arguments := s.arguments, hidden := s.hidden, loops := s.loops }
      tryCatch (run fuel body) fun
        | .returned status => setStatus status
        | stop => do
          leave
          throw stop
      leave
    | none =>
      unless ← runBuiltin fuel name arguments do
        runExternal fuel name name arguments

/-- Runs a simple command. -/
def runSimple : Nat → List (String × Word) → List Word → List Redirection → Eval Unit
  | 0, _, _, _ => throw .timedOut
  | fuel + 1, assignments, words, redirections => do
    modify fun s => { s with inner := none }
    let fields ← expandFields fuel words
    let assign := fun (assignment : String × Word) => do
      let value ← expandText fuel assignment.2
      setVariable assignment.1 value
      return (assignment.1, value)
    let s ← get
    let values ← assignments.mapM assign
    let sinks := s.sinks
    let shown := values.map (fun (name, value) => name ++ "=" ++ value) ++ fields
    match fields with
    | [] =>
      let status := (← get).inner.getD 0
      withRedirections fuel redirections do
        trace sinks shown
        setStatus status
    | name :: arguments =>
      let old := values.map fun (name, _) => (name, s.vars.get? name)
      for (name, _) in values do
        modify fun s => { s with exported := s.exported.insert name () }
      if name = "exec" && arguments.isEmpty then
        unless ← redirectAll fuel redirections do
          throw (.exit 2)
        trace sinks shown
      else
        withRedirections fuel redirections do
          trace sinks shown
          runNamed fuel name arguments
      unless values.isEmpty do
        uncover old
        modify fun t => { t with exported := s.exported }

/-- Runs a command whose failure is tested. -/
def runTested : Nat → Command → Eval Unit
  | 0, _ => throw .timedOut
  | fuel + 1, body => do
    let tested := (← get).tested
    modify fun s => { s with tested := true }
    run fuel body
    modify fun s => { s with tested }

/-- Runs the stages of a pipeline, each reading what the one before wrote. -/
def runStages : Nat → List Command → Eval Unit
  | 0, _ => throw .timedOut
  | _, [] => return ()
  | fuel + 1, [stage] => inSubshell (doApart fuel (run fuel stage))
  | fuel + 1, stage :: stages => do
    let bytes ← captured (doApart fuel (run fuel stage))
    modify fun s => { s with input := bytes }
    runStages fuel stages

/-- Runs rounds of a loop; `last` is the status of the one before. -/
def runRounds : Nat → Bool → Command → Command → Nat → Eval Unit
  | 0, _, _, _, _ => throw .timedOut
  | fuel + 1, whileTrue, test, body, last => do
    runTested fuel test
    if ((← get).status = 0) = whileTrue then
      if ← runRound fuel body then runRounds fuel whileTrue test body (← get).status
    else setStatus last

/-- Runs a round of a loop; tells whether there is to be another one. -/
def runRound : Nat → Command → Eval Bool
  | 0, _ => throw .timedOut
  | fuel + 1, body => do
    let loops := (← get).loops
    let after : Eval Unit := do
      modify fun s => { s with loops }
      setStatus 0
    tryCatch (do run fuel body; return true) fun
      | .leaveLoop depth => do
        after
        if depth ≤ 1 then return false else throw (.leaveLoop (depth - 1))
      | .nextRound depth => do
        after
        if depth ≤ 1 then return true else throw (.nextRound (depth - 1))
      | stop => throw stop

/-- Runs a body once for each word. -/
def runEach : Nat → String → List String → Command → Eval Unit
  | 0, _, _, _ => throw .timedOut
  | _, _, [], _ => return ()
  | fuel + 1, name, word :: words, body => do
    setVariable name word
    if ← runRound fuel body then runEach fuel name words body

/-- Runs the first arm of a choice that has a pattern for a text. -/
def runArms : Nat → String → List (List Word × Command) → Eval Unit
  | 0, _, _ => throw .timedOut
  | _, _, [] => setStatus 0
  | fuel + 1, text, (patterns, body) :: arms => do
    let covers ← patterns.anyM fun word => do
      let pieces ← expandWord fuel word
      return (Pattern.ofMarked (pieces.flatMap Piece.marked)).covers text.toList
    if covers then run fuel body else runArms fuel text arms

/-- Runs a command. -/
def run : Nat → Command → Eval Unit
  | 0, _ => throw .timedOut
  | fuel + 1, command => do
    let strictly : Eval Unit := do
      let s ← get
      if s.settings.onFailure && !s.tested && s.status ≠ 0 then throw (.exit s.status)
    match command with
    | .nothing => setStatus 0
    | .simple line assignments words redirections =>
      modify fun s => { s with line }
      runSimple fuel assignments words redirections
      strictly
    | .redirected body redirections => withRedirections fuel redirections (run fuel body)
    | .pipeline stages =>
      let input := (← get).input
      runStages fuel stages
      modify fun s => { s with input }
      strictly
    | .negation body =>
      runTested fuel body
      modify fun s => { s with status := if s.status = 0 then 1 else 0 }
    | .both first second =>
      runTested fuel first
      if (← get).status = 0 then run fuel second
    | .either first second =>
      runTested fuel first
      if (← get).status ≠ 0 then run fuel second
    | .sequence first second =>
      run fuel first
      match second with
      | .nothing => return ()
      | second => run fuel second
    | .subshell body =>
      inSubshell (doApart fuel (run fuel body))
      strictly
    | .background body =>
      let s ← get
      set { s with limit := none }
      inSubshell (doApart fuel (run fuel body))
      modify fun t => { t with clock := s.clock, limit := s.limit, status := 0 }
    | .conditional test yes no =>
      runTested fuel test
      if (← get).status = 0 then run fuel yes else run fuel no
    | .loop whileTrue test body =>
      let loops := (← get).loops
      modify fun s => { s with loops := loops + 1 }
      runRounds fuel whileTrue test body 0
      modify fun s => { s with loops }
    | .each name words body =>
      let words ← match words with
        | some words => expandFields fuel words
        | none => pure (← get).arguments
      setStatus 0
      let loops := (← get).loops
      modify fun s => { s with loops := loops + 1 }
      runEach fuel name words body
      modify fun s => { s with loops }
    | .choice word arms => runArms fuel (← expandText fuel word) arms
    | .definition name body =>
      modify fun s => { s with functions := s.functions.insert name body, status := 0 }

/-- Runs a script line by line. -/
def runScript : Nat → List Lexeme → Eval Unit
  | 0, _ => throw .timedOut
  | fuel + 1, lexemes => do
    match readLine (lexemes.length + 1) lexemes with
    | .error (fault, line) =>
      modify fun s => { s with line := line.getD (lastLine lexemes) }
      abort fault.message
    | .ok none => return ()
    | .ok (some (command, rest)) =>
      run fuel command
      runScript fuel rest

/-- Runs the script of a trap, which keeps the status. -/
def runTrap : Nat → List Char → Eval Unit
  | 0, _ => throw .timedOut
  | fuel + 1, text => do
    let status := (← get).status
    runScript fuel (lex text)
    setStatus status

/-- Does something and then what is to be done at the end, which keeps the status unless it asks
for another one. -/
def doToEnd : Nat → Eval Unit → Eval Unit
  | 0, _ => throw .timedOut
  | fuel + 1, body => do
    let farewell := do
      if let some text := (← get).traps.lookup 0 then
        modify fun s => { s with traps := s.traps.filter (·.1 ≠ 0) }
        runTrap fuel text
    tryCatch body fun
      | .exit status | .returned status => do
        setStatus status
        farewell
        throw (.exit status)
      | stop => throw stop
    farewell

/-- Does something to its end in a new shell, where no trap is set but those that do nothing. -/
def doApart : Nat → Eval Unit → Eval Unit
  | 0, _ => throw .timedOut
  | fuel + 1, body => do
    modify fun s => { s with traps := s.traps.filter (·.2.isEmpty) }
    doToEnd fuel body

end

end Briefing.Shell
