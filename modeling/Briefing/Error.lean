import Briefing.Agent
import Briefing.Files.Walk
import Briefing.Skill
import Briefing.Task.Parse

/-!
# Errors

What can go wrong while a prompt is put together, by cause. `Error.message` has the words.
-/

namespace Briefing

/-- What a name is looked up for. -/
inductive Lookup
  | task
  | command
  deriving DecidableEq, Repr

/-- The word for what is looked up. -/
def Lookup.word : Lookup → String
  | task => "task"
  | command => "command"

/-- Why no prompt is put together. -/
inductive Error
  | unknownAgent (name : String)
  | taskNotFound (name : String)
  | commandNotFound (name : String)
  | duplicate (lookup : Lookup) (name : String) (first second : Path)
  | badTask (path : Path) (error : Task.ParseError)
  | bootstrapFailed (path : Path) (output : String)
  | badFrontMatter (path : Path) (fault : FrontMatter.Fault)
  | badSkill (path : Path) (fault : Skill.Fault)
  | badSelector (item : String)
  | badParam (item : String)
  | fetchFailed (source : String) (message : String)
  | unreadable (path : Path) (fault : Files.Fault)
  | file (fault : Files.Fault)
  /-- No directory can be made that is not to last. -/
  | noTemporary (path : Path) (fault : Files.Fault)
  | walk (fault : Files.WalkFault)
  deriving DecidableEq

namespace Error

/-- What the error says to a reader. -/
def message : Error → String
  | unknownAgent name =>
    "unknown agent '" ++ name ++ "': expected one of " ++ Agent.choices
  | taskNotFound name => "task not found: " ++ name
  | commandNotFound name => "command not found: /" ++ name
  | duplicate lookup name first second =>
    "duplicate " ++ lookup.word ++ " '" ++ name ++ "': " ++ first.text ++ " and " ++ second.text
  | badTask path error => "invalid task " ++ path.text ++ ": " ++ error.message
  | bootstrapFailed path output => "bootstrap for " ++ path.text ++ " failed: " ++ output
  | badFrontMatter path fault => "invalid frontmatter in " ++ path.text ++ ": " ++ fault.message
  | badSkill path fault => "invalid skill " ++ path.text ++ ": " ++ fault.message
  | badSelector item => "invalid selector '" ++ item ++ "': expected key=value"
  | badParam item => "invalid parameter '" ++ item ++ "': expected key=value"
  | fetchFailed source message => "failed to fetch " ++ source ++ ": " ++ message
  | unreadable path _ => "failed to read " ++ path.text
  | file fault => fault.message
  | noTemporary path fault => fault.message ++ " at path " ++ Text.quoted path.text
  | walk fault => fault.message

/-- What the error comes from: the fault of a file that is not readable. -/
def cause? : Error → Option String
  | unreadable _ fault | walk (.unreadable _ fault) => some fault.message
  | _ => none

/-- The error's words and those of what it comes from. -/
def fullMessage (e : Error) : String :=
  match e.cause? with
  | some cause => e.message ++ ": " ++ cause
  | none => e.message

end Error

/-- The document of a file. -/
def Disk.load (d : Disk) (path : Path) : Except Error Document :=
  match d.readText path with
  | .error fault => .error (.unreadable path fault)
  | .ok text =>
    match Document.parse path text with
    | .error fault => .error (.badFrontMatter path fault)
    | .ok document => .ok document

end Briefing
