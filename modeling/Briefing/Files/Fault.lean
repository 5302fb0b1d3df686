import Briefing.Text.Digit

/-!
# File faults

Why an operation on files fails, with the number among the system's errors if it is one of them.
-/

namespace Briefing.Files

/-- Why an operation on files fails. -/
inductive Fault
  | notFound
  /-- A file that is to be executed is no program. -/
  | notProgram
  | permissionDenied
  | busy
  | alreadyExists
  | notDirectory
  | isDirectory
  | nameTooLong
  | notEmpty
  | linkLoop
  /-- A path holds a NUL, which no name has. -/
  | nulInPath
  /-- A text that a program is to be started with holds a NUL. -/
  | nulInArgument
  /-- A file that is read as text holds something else. -/
  | notText
  deriving DecidableEq, Repr

namespace Fault

/-- The system's words for the fault. -/
def words : Fault → String
  | notFound => "No such file or directory"
  | notProgram => "Exec format error"
  | permissionDenied => "Permission denied"
  | busy => "Device or resource busy"
  | alreadyExists => "File exists"
  | notDirectory => "Not a directory"
  | isDirectory => "Is a directory"
  | nameTooLong => "File name too long"
  | notEmpty => "Directory not empty"
  | linkLoop => "Too many levels of symbolic links"
  | nulInPath => "file name contained an unexpected NUL byte"
  | nulInArgument => "nul byte found in provided data"
  | notText => "stream did not contain valid UTF-8"

/-- The system's number of the fault. -/
def number? : Fault → Option Nat
  | notFound => some 2
  | notProgram => some 8
  | permissionDenied => some 13
  | busy => some 16
  | alreadyExists => some 17
  | notDirectory => some 20
  | isDirectory => some 21
  | nameTooLong => some 36
  | notEmpty => some 39
  | linkLoop => some 40
  | nulInPath | nulInArgument | notText => none

/-- What the fault says to a reader. -/
def message (f : Fault) : String :=
  match f.number? with
  | some n => f.words ++ " (os error " ++ Text.decimal n ++ ")"
  | none => f.words

end Fault

end Briefing.Files
