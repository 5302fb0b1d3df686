import Briefing.Shell.Program

/-!
# Commands of the shell

The commands that act on the shell itself and so cannot be utilities: they change its directory,
its variables, its arguments or the way it goes on.
-/

namespace Briefing.Shell

open Eval

/-- The signal that a number or a name in either case stands for. -/
def signalNumber? (text : String) : Option Nat :=
  match Text.readNat? 10 text.toList with
  | some n => if n < 65 then some n else none
  | none => Signal.ofName? (String.ofList (text.toList.map Char.toUpper))

/-- How `kill` is to be used. -/
def killUsage : String :=
  "Usage: kill [-s sigspec | -signum | -sigspec] [pid | job]... or\nkill -l [exitstatus]"

/-- The signal that `kill` sends, and the processes. -/
def readKill : List String → Except String (Nat × List String)
  | "-s" :: name :: processes =>
    match signalNumber? name with
    | some signal => .ok (signal, processes)
    | none => .error ("invalid signal number or name: " ++ name)
  | argument :: processes =>
    match argument.toList with
    | '-' :: name =>
      match signalNumber? (String.ofList name) with
      | some signal => .ok (signal, processes)
      | none => .error ("Illegal option -" ++ String.ofList (name.take 1))
    | _ => .ok (15, argument :: processes)
  | [] => .error killUsage

/-- Sends a signal to processes, of which the shell is the only one; tells whether it gets one. -/
def kill (arguments : List String) : Eval (Option Nat) := do
  let sent : Except String (Nat × List String) := do
    let (signal, processes) ← readKill arguments
    if processes.isEmpty then throw killUsage
    match processes.find? fun p => (Text.readNat? 10 p.toList).isNone with
    | some p => throw ("Illegal number: " ++ p)
    | none => return (signal, processes)
  match sent with
  | .ok (signal, processes) =>
    let others := processes.filter (· ≠ processNumber)
    for _ in others do complain "kill: No such process\n"
    setStatus (if others.isEmpty then 0 else 1)
    return if processes.contains processNumber then some signal else none
  | .error message =>
    complain ("kill: " ++ message)
    setStatus 2
    return none

/-- The status that an argument asks for, or the present one. -/
def askedStatus (command : String) : List String → Eval Nat
  | [] => return (← get).status
  | argument :: _ =>
    match Text.readNat? 10 argument.toList with
    | some n => return n
    | none => abort (command ++ ": Illegal number: " ++ argument)

/-- The path without steps that lead nowhere, and without steps back together with the steps that
they take back. -/
def normalPath (path : String) : String :=
  let steps := (Disk.steps path).foldl (fun done step =>
    if step = "" || step = "." then done
    else if step = ".." then done.dropLast
    else done ++ [step]) []
  (Disk.pathOf steps).text

def changeDirectory (arguments : List String) : Eval Unit := do
  let s ← get
  let physical := arguments.head? = some "-P"
  let arguments := arguments.filter fun a => a ≠ "-P" && a ≠ "-L"
  let back := arguments.head? = some "-"
  let target := if back then (s.vars.get? "OLDPWD").getD ""
    else arguments.headD ((s.vars.get? "HOME").getD "")
  let old := (s.vars.get? "PWD").getD (Disk.pathOf s.disk.current).text
  let path := normalPath ((Path.mk old).join target).text
  match s.disk.find path with
  | .ok (location, .directory _) =>
    let new := if physical then (Disk.pathOf location).text else path
    set { s with disk := { s.disk with current := location }, status := 0 }
    setVariable "OLDPWD" old
    setVariable "PWD" new
    if back then write 1 (new ++ "\n").toUTF8
  | _ =>
    complain ("cd: can't cd to " ++ target)
    setStatus 2

/-- Tells the directory where the shell is, by the path that led to it or by its location. -/
def tellDirectory (arguments : List String) : Eval Unit := do
  let s ← get
  let path := (Disk.pathOf s.disk.current).text
  let told := if arguments.head? = some "-P" then path else (s.vars.get? "PWD").getD path
  write 1 (told ++ "\n").toUTF8
  setStatus 0

/-- Binds what `NAME=value` says; complaints start with the name of the command. -/
def assignItem (command item : String) : Eval String := do
  let name := item.toList.takeWhile (· ≠ '=')
  if name.length < item.length then
    requireFree (String.ofList name) (command ++ ": ")
    setVariable (String.ofList name) (String.ofList (item.toList.drop (name.length + 1)))
  return String.ofList name

def exportAll (items : List String) : Eval Unit := do
  for item in items do
    let name ← assignItem "export" item
    modify fun s => { s with exported := s.exported.insert name () }
  setStatus 0

/-- Makes variables keep their values. -/
def fixAll (items : List String) : Eval Unit := do
  for item in items do
    let name ← assignItem "readonly" item
    modify fun s => { s with fixed := s.fixed.insert name () }
  setStatus 0

/-- Binds a variable for the time of a function. -/
def makeLocal (item : String) : Eval Unit := do
  match (← get).hidden with
  | none => abort "local: not in a function"
  | some hidden =>
    let name := String.ofList (item.toList.takeWhile (· ≠ '='))
    let old ← valueOf? name
    modify fun s => { s with hidden := some ((name, old) :: hidden) }
    let _ ← assignItem "local" item

/-- Gives variables back the values that a function hid. -/
def uncover (hidden : List (String × Option String)) : Eval Unit := do
  for (name, old) in hidden do
    match old with
    | some value => modify fun s => { s with vars := s.vars.insert name value }
    | none => unsetVariable name

def unsetAll (names : List String) : Eval Unit := do
  for name in names do
    requireFree name "unset: "
    unsetVariable name
    modify fun s => { s with
      functions := Table.ofList (s.functions.entries.filter (·.1 ≠ name)) }
  setStatus 0

/-- The occasion of a trap: the end, under the number 0, or a signal. -/
def occasionNumber? (text : String) : Option Nat :=
  if text.toList.map Char.toUpper = "EXIT".toList then some 0 else signalNumber? text

/-- Tells what traps are set, in the order of their numbers and as commands that set them. -/
def tellTraps : Eval Unit := do
  for (n, text) in (← get).traps.mergeSort (fun a b => a.1 ≤ b.1) do
    let parts := (text.splitOn '\'').map String.ofList
    write 1 ("trap -- '" ++ "'\"'\"'".intercalate parts ++ "' " ++
      (if n = 0 then "EXIT" else (Signal.name? n).getD (Text.decimal n)) ++ "\n").toUTF8

/-- Sets a script to run at the end or when signals come, or none; the signal that ends every
process cannot be caught. -/
def setTrap (arguments : List String) : Eval Unit := do
  let arguments := if arguments.head? = some "--" then arguments.tail else arguments
  let first := arguments.headD ""
  let resets := arguments.length < 2 || (Text.readNat? 10 first.toList).isSome
  setStatus 0
  if arguments.isEmpty then tellTraps
  for occasion in if resets then arguments else arguments.tail do
    match occasionNumber? occasion with
    | some n =>
      if (← get).status = 0 then
        modify fun s =>
          let others := s.traps.filter (·.1 ≠ n)
          { s with
            traps := if resets || first = "-" || n = 9 then others
              else (n, first.toList) :: others }
    | none =>
      if (← get).status = 0 then
        write 2 ("trap: " ++ occasion ++ ": bad trap\n").toUTF8
        setStatus 1

/-- The names of settings, with their letters. -/
def settingNames : List (String × Char) :=
  [("errexit", 'e'), ("noglob", 'f'), ("ignoreeof", 'I'), ("interactive", 'i'), ("monitor", 'm'),
    ("noexec", 'n'), ("stdin", 's'), ("xtrace", 'x'), ("verbose", 'v'), ("vi", 'V'),
    ("emacs", 'E'), ("noclobber", 'C'), ("allexport", 'a'), ("notify", 'b'), ("nounset", 'u'),
    ("privileged", 'p'), ("nolog", ' '), ("debug", ' ')]

/-- Changes settings, or sets the arguments. -/
def setOptions : List String → Eval Unit
  | [] => setStatus 0
  | "--" :: arguments => modify fun s => { s with arguments, status := 0 }
  | "-" :: rest =>
    modify fun s => { s with
      settings := { s.settings with traced := false }, status := 0
      arguments := if rest.isEmpty then s.arguments else rest }
  | argument :: rest => do
    match argument.toList with
    | sign :: letters =>
      if sign = '-' || sign = '+' then
        let valid := settingNames.map (·.2)
        let unknown := letters.find? fun c => c ≠ 'o' && !(valid.contains c && c ≠ ' ')
        if let some c := unknown then abort ("set: Illegal option " ++ String.ofList ['-', c])
        let name := rest.headD ""
        let named := if letters.contains 'o' then settingNames.lookup name else none
        if letters.contains 'o' && named.isNone && !rest.isEmpty then
          abort ("set: Illegal option -o " ++ name)
        modify fun s => { s with
          settings := s.settings.switch (sign = '-') (named.toList ++ letters) }
        setOptions (if letters.contains 'o' then rest.tail else rest)
      else modify fun s => { s with arguments := argument :: rest, status := 0 }
    | [] => modify fun s => { s with arguments := argument :: rest, status := 0 }
  termination_by arguments => arguments.length
  decreasing_by grind

def shift (arguments : List String) : Eval Unit := do
  let s ← get
  let count := arguments.headD "1"
  match Text.readNat? 10 count.toList with
  | some n =>
    if n ≤ s.arguments.length then
      set { s with arguments := s.arguments.drop n, status := 0 }
    else abort "shift: can't shift that many"
  | none => abort ("shift: Illegal number: " ++ count)

/-- How many loops `break` or `continue` is for, which are not more than are being run. -/
def askedLoops (arguments : List String) : Eval Nat := do
  let n := (arguments.head?.bind fun a => Text.readNat? 10 a.toList).getD 1
  return min n (← get).loops

/-- Binds the words of a line to names, the last one to all that are left. -/
def bindWords (separators : List Char) : List String → List Char → Eval Unit
  | [], _ => return ()
  | [name], s =>
    let blank := fun c => separators.contains c && Text.isWhite c
    let s := ((s.dropWhile blank).reverse.dropWhile blank).reverse
    setVariable name (String.ofList s)
  | name :: names, s => do
    let s := s.dropWhile fun c => separators.contains c && Text.isWhite c
    let word := s.takeWhile (!separators.contains ·)
    setVariable name (String.ofList word)
    bindWords separators names (s.drop (word.length + 1))

/-- The text without the backslashes that escape characters. -/
def withoutEscapes : List Char → List Char
  | '\\' :: c :: s => c :: withoutEscapes s
  | c :: s => c :: withoutEscapes s
  | [] => []

def readInput (arguments : List String) : Eval Unit := do
  let (options, names) := Utility.splitOptions ['p'] arguments
  let s ← get
  let bytes := s.input.toList
  let line := bytes.takeWhile (· ≠ 0x0a)
  let rest := bytes.drop (line.length + 1)
  set { s with
    input := Utility.ofBytes rest, status := if line.length < bytes.length then 0 else 1 }
  let text := Text.decode line
  if let some name := names.find? s.fixed.contains then
    complain ("read: " ++ name ++ ": is read only")
    setStatus 2
  else
    bindWords s.separators names (if Utility.given options 'r' then text else withoutEscapes text)

/-- Commands of the shell that are no utilities. -/
def shellCommands : List String :=
  [".", "break", "cd", "command", "continue", "eval", "exec", "exit", "export", "hash", "kill",
    "local", "read", "readonly", "return", "set", "shift", "trap", "type", "umask", "unset", "wait"]

/-- What a name stands for as a command: how it is found, and what that is called. -/
def describe? (s : State) (name : String) : Option (String × String) :=
  if keywords.contains name then some (name, "a shell keyword")
  else if (s.functions.get? name).isSome then some (name, "a shell function")
  else if shellCommands.contains name || (Utility.builtin.lookup name).isSome then
    some (name, "a shell builtin")
  else
    (findProgram s.disk s.searchPath name).map fun path =>
      (path, path)

/-- Tells what names stand for as commands, in words or not. -/
def describeAll (inWords : Bool) (names : List String) : Eval Unit := do
  setStatus 0
  for name in names do
    match describe? (← get) name with
    | some (found, kind) =>
      write 1 ((if inWords then name ++ " is " ++ kind else found) ++ "\n").toUTF8
    | none =>
      if inWords then write 1 (name ++ ": not found\n").toUTF8
      setStatus 127

end Briefing.Shell
