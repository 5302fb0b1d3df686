import Briefing.Shell.Utility.Basic

/-!
# Utilities on files

The utilities that tell what files there are and that make, move and remove them.
-/

namespace Briefing.Shell.Utility

open Files (Fault)

/-- Goes through operands with a disk, gathering complaints. -/
def overOperands (r : Request) (operands : List String)
    (step : Disk → String → Except String Disk) : Effect :=
  let (d, errors) := operands.foldl (fun (d, errors) operand =>
    match step d operand with
    | .ok d => (d, errors)
    | .error complaint => (d, errors ++ complaint ++ "\n")) (r.disk, "")
  leaves r d errors

/-- A complaint about an operand. -/
def complaint (start operand : String) (fault : Fault) : String :=
  start ++ " '" ++ operand ++ "': " ++ fault.words

/-- The result of an operation, with a complaint in the place of a fault. -/
def orComplain {α : Type} (start operand : String) : Except Fault α → Except String α
  | .ok x => .ok x
  | .error fault => .error (complaint start operand fault)

def mkdir : Utility := fun r =>
  let (options, operands) := splitOptions ['m'] r.arguments
  if operands.isEmpty then misused r "mkdir" "missing operand" else
  overOperands r operands fun d operand =>
    if given options 'p' then
      match d.makePath operand with
      | (d, .ok ()) => .ok d
      | (_, .error fault) => .error (complaint "mkdir: cannot create directory" operand fault)
    else orComplain "mkdir: cannot create directory" operand (d.makeDirectory operand)

/-- Removes what a path names; a directory only with all below it. -/
def removeOne (recursive : Bool) (d : Disk) (p : Path) : Except Fault Disk := do
  let location ← d.resolve false p
  match d.entry? location with
  | some (.directory _) => if recursive then return d.remove location else throw .isDirectory
  | some _ => return d.remove location
  | none => throw .notFound

def rm : Utility := fun r =>
  let (options, operands) := splitOptions [] r.arguments
  if operands.isEmpty && !given options 'f' then misused r "rm" "missing operand" else
  overOperands r operands fun d operand =>
    match removeOne (given options 'r' || given options 'R') d operand with
    | .error .notFound =>
      if given options 'f' then .ok d
      else .error (complaint "rm: cannot remove" operand .notFound)
    | result => orComplain "rm: cannot remove" operand result

def rmdir : Utility := fun r =>
  let (_, operands) := splitOptions [] r.arguments
  if operands.isEmpty then misused r "rmdir" "missing operand" else
  overOperands r operands fun d operand =>
    orComplain "rmdir: failed to remove" operand do
      match ← d.find operand with
      | (location, .directory _) =>
        if (d.namesIn location).isEmpty then return d.remove location else throw .notEmpty
      | _ => throw .notDirectory

def touch : Utility := fun r =>
  let (_, operands) := splitOptions [] r.arguments
  if operands.isEmpty then misused r "touch" "missing file operand" else
  overOperands r operands fun d operand =>
    if d.pathExists operand then .ok d
    else
      match d.write operand ByteArray.empty with
      | .ok d => .ok d
      | .error fault => .error ("touch: cannot touch '" ++ operand ++ "': " ++ fault.words)

/-- The permission bits that a mode of `chmod` gives for old ones. -/
def applyMode (mode : List Char) (old : Nat) : Nat :=
  match Text.readNat? 8 mode with
  | some bits => bits
  | none =>
    let who := mode.takeWhile "ugoa".toList.contains
    let all := who.isEmpty || who.contains 'a'
    match mode.drop who.length with
    | op :: bits =>
      let one := (if bits.contains 'r' then 4 else 0) + (if bits.contains 'w' then 2 else 0) +
        (if bits.contains 'x' then 1 else 0)
      let wanted := (if all || who.contains 'u' then one * 64 else 0) +
        (if all || who.contains 'g' then one * 8 else 0) +
        (if all || who.contains 'o' then one else 0)
      if op = '+' then old ||| wanted
      else if op = '-' then old - (old &&& wanted)
      else wanted
    | [] => old

/-- Whether a text is a mode of `chmod`. -/
def isMode (mode : List Char) : Bool :=
  (Text.readNat? 8 mode).isSome ||
    match mode.dropWhile "ugoa".toList.contains with
    | op :: bits => "+-=".toList.contains op && bits.all "rwxXst".toList.contains
    | [] => false

def chmod : Utility := fun r =>
  match r.arguments with
  | [] => misused r "chmod" "missing operand"
  | [mode] => misused r "chmod" ("missing operand after '" ++ mode ++ "'")
  | mode :: operands =>
    if !isMode mode.toList then misused r "chmod" ("invalid mode: '" ++ mode ++ "'") else
    overOperands r operands fun d operand =>
      orComplain "chmod: cannot access" operand do
        d.setMode operand (applyMode mode.toList (← d.mode operand))

/-- The complaint about operands that `program` moves or copies, if there are too few. -/
def transferFault? : List String → Option String
  | [] => some "missing file operand"
  | [operand] => some ("missing destination file operand after '" ++ operand ++ "'")
  | _ => none

/-- Where an operand goes if the target may be a directory. -/
def into (d : Disk) (target operand : String) : Path :=
  if d.isDirectory target then (Path.mk target).join ((Path.mk operand).fileName?.getD operand)
  else target

/-- The entries at and below a location, moved to another one. -/
def moved (d : Disk) (source target : Location) : List (Location × Entry) :=
  d.entries.filterMap fun (location, entry) =>
    (source.isPrefixOf? location).map fun rest => (target ++ rest, entry)

/-- The location that a path names or would name. -/
def locationFor (d : Disk) (p : Path) : Except Fault Location := do
  let (directory, name) ← d.locate p
  return directory ++ [name]

def mv : Utility := fun r =>
  let (_, operands) := splitOptions [] r.arguments
  match transferFault? operands with
  | some fault => misused r "mv" fault
  | none =>
    let target := operands.getLast?.getD ""
    overOperands r operands.dropLast fun d operand =>
      orComplain "mv: cannot stat" operand do
        let source ← d.resolve false operand
        if (d.entry? source).isNone then throw .notFound
        let target ← locationFor d (into d target operand)
        return (moved d source target).foldl (fun d (l, e) => d.put l e) (d.remove source)

def cp : Utility := fun r =>
  let (options, operands) := splitOptions [] r.arguments
  let recursive := given options 'r' || given options 'R' || given options 'a'
  match transferFault? operands with
  | some fault => misused r "cp" fault
  | none =>
    let target := operands.getLast?.getD ""
    overOperands r operands.dropLast fun d operand =>
      if d.isDirectory operand && !recursive then
        .error ("cp: -r not specified; omitting directory '" ++ operand ++ "'")
      else
        orComplain "cp: cannot stat" operand do
          let (source, entry) ← d.find operand
          let path := into d target operand
          let copy := fun (bytes : ByteArray) (mode : Nat) => do
            let copied ← d.write path bytes
            if d.pathExists path then return copied else copied.setMode path mode
          match entry with
          | .file bytes mode => copy bytes mode
          | .device bytes => copy bytes Disk.fileMode
          | _ =>
            let target ← locationFor d path
            return (moved d source target).foldl (fun d (l, e) => d.put l e) d

def ln : Utility := fun r =>
  let (options, operands) := splitOptions [] r.arguments
  match operands with
  | [source, target] =>
    overOperands r [source] fun d source =>
      orComplain "ln: failed to create link" target do
        let location ← locationFor d (into d target source)
        if (d.entry? location).isSome && !given options 'f' then throw .alreadyExists
        if given options 's' then return d.put location (.link source)
        match ← d.find source with
        | (_, entry) => return d.put location entry
  | _ => misused r "ln" "missing file operand"

def ls : Utility := fun r =>
  let (options, operands) := splitOptions [] r.arguments
  let visible := fun (name : String) => given options 'a' || given options 'A' ||
    name.toList.head? ≠ some '.'
  let paths := if operands.isEmpty then ["."] else operands
  let show1 := fun (p : String) =>
    match r.disk.find p with
    | .ok (location, .directory _) =>
      if given options 'd' then Except.ok [p] else
        let names := (r.disk.namesIn location).filter visible
        let names := if given options 'a' then "." :: ".." :: names else names
        .ok (if paths.length = 1 then names else (p ++ ":") :: names)
    | .ok _ => .ok [p]
    | .error fault => .error (complaint "ls: cannot access" p fault)
  let (lines, errors) := (paths.map show1).foldl (fun (lines, errors) shown =>
    match shown with
    | .ok more => (lines ++ more, errors)
    | .error e => (lines, errors ++ e ++ "\n")) ([], "")
  writes r (ofLines (lines.map String.toList)) errors (if errors.isEmpty then 0 else 2)

def basename : Utility := fun r =>
  match r.arguments with
  | path :: ending =>
    let name := (Path.mk path).fileName?.getD path
    let name := match ending with
      | e :: _ =>
        if e.toList.isSuffixOf name.toList && e ≠ name then
          String.ofList (name.toList.take (name.length - e.length))
        else name
      | [] => name
    writes r (name ++ "\n").toUTF8
  | [] => misused r "basename" "missing operand"

def dirname : Utility := fun r =>
  match r.arguments with
  | path :: _ =>
    let parent := ((Path.mk path).parent?.map Path.text).getD path
    writes r ((if parent.isEmpty then "." else parent) ++ "\n").toUTF8
  | [] => misused r "dirname" "missing operand"

def pwd : Utility := fun r => writes r ((Disk.pathOf r.disk.current).text ++ "\n").toUTF8

def readlink : Utility := fun r =>
  let (options, operands) := splitOptions [] r.arguments
  match operands with
  | path :: _ =>
    if given options 'f' then
      match (r.disk.canonical? path).or (locationFor r.disk path).toOption with
      | some location => writes r ((Disk.pathOf location).text ++ "\n").toUTF8
      | none => ends r 1
    else
      match (r.disk.resolve false path).toOption.bind r.disk.entry? with
      | some (.link target) => writes r (target ++ "\n").toUTF8
      | _ => ends r 1
  | [] => misused r "readlink" "missing operand"

/-- Writes its input to its output and to files. -/
def tee : Utility := fun r =>
  let (options, operands) := splitOptions [] r.arguments
  let (d, errors) := operands.foldl (fun (d, errors) operand =>
    match if given options 'a' then d.append operand r.input else d.write operand r.input with
    | .ok d => (d, errors)
    | .error fault => (d, errors ++ "tee: " ++ operand ++ ": " ++ fault.words ++ "\n")) (r.disk, "")
  ⟨r.input, errors, if errors.isEmpty then 0 else 1, d, ByteArray.empty, 0⟩

end Briefing.Shell.Utility
