import Briefing.Shell.State

/-!
# Programs

What a path names as a program: a utility, a script of the shell, the shell itself, or nothing that
can be executed. A name without a slash is looked for in directories.
-/

namespace Briefing.Shell

/-- What a file is executed as. -/
inductive Program
  | utility (utility : Utility) (before : List String)
  /-- A script of the shell, and the settings of the shell. -/
  | script (settings : Settings) (text : List Char)
  /-- The shell itself. -/
  | shell
  /-- The utility that runs a program with more variables. -/
  | environment
  /-- The file has no interpreter, and is no program. -/
  | unknown
  | missing
  | forbidden

/-- The program of an executable file: what its first line names, or a script of the shell. -/
def programOf (text : String) (path : String) : Program :=
  match "#!".toList.isPrefixOf? text.toList with
  | none => .unknown
  | some rest =>
    let line := rest.takeWhile (· ≠ '\n')
    let words := (line.splitOnP fun c => c = ' ' || c = '\t').filter (!·.isEmpty)
    match words.map String.ofList with
    | interpreter :: arguments =>
      let runsShell := Utility.isShell interpreter ||
        (interpreter = "/usr/bin/env" && arguments.any fun a => Utility.isShell ("/bin/" ++ a))
      if runsShell then
        let letters := arguments.flatMap fun a => if a.startsWith "-" then a.toList else []
        .script (Settings.switch {} true letters) text.toList
      else
        match Utility.ofPath? interpreter with
        | some utility => .utility utility (arguments ++ [path])
        | none => .missing
    | [] => .unknown

/-- The program that every machine has at a path. -/
def standardProgram? (path : String) : Option Program :=
  if Utility.isShell path then some .shell
  else if Utility.isEnvironment path then some .environment
  else (Utility.ofPath? path).map (.utility · [])

/-- The program that a path names. -/
def programAt (d : Disk) (path : String) : Program :=
  (standardProgram? path).getD <|
    match d.find path with
    | .ok (location, .file contents mode) =>
      if mode &&& 0o111 = 0 then .forbidden
      else
        (standardProgram? (Disk.pathOf location).text).getD
          (programOf (Text.decodeBytes contents) path)
    | .ok _ => .forbidden
    | .error _ => .missing

/-- The start of a program that is no script; the bytes are no text. -/
def machineCode : ByteArray := ⟨#[0x7f, 0x45, 0x4c, 0x46, 0xff]⟩

/-- The files of the programs that every machine has. -/
def programFiles : List (Location × Entry) :=
  (Utility.programs.map (·.1) ++ Utility.shells).map fun name =>
    (["usr", "bin", name], .file machineCode Disk.directoryMode)

/-- The directories in which programs are looked for, if nothing else is said. -/
def defaultPath : String := "/usr/local/sbin:/usr/local/bin:/usr/sbin:/usr/bin:/sbin:/bin"

/-- The directories in which a shell looks for programs. -/
def State.searchPath (s : State) : String := (s.vars.get? "PATH").getD defaultPath

/-- The path of a program: a name without a slash is looked for in the directories of `path`. -/
def findProgram (d : Disk) (path name : String) : Option String :=
  if name.toList.contains '/' then some name
  else
    ((path.toList.splitOn ':').map fun directory =>
      ((Path.mk (String.ofList directory)).join name).text).find? fun candidate =>
        match programAt d candidate with
        | .missing | .forbidden => false
        | _ => true

end Briefing.Shell
