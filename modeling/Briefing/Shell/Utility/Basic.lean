import Briefing.Shell.Format
import Briefing.Files.Disk

/-!
# Utilities

The programs that every machine has. A utility reads its arguments, its input and the disk; it
writes to its output and its errors, may change the disk and may let time pass.
-/

namespace Briefing.Shell

/-- What a utility starts from. -/
structure Request where
  arguments : List String
  input : ByteArray
  disk : Disk
  environment : List (String × String)

/-- What a utility did. -/
structure Effect where
  output : ByteArray
  errors : String
  status : Nat
  disk : Disk
  /-- The input that is left. -/
  unread : ByteArray
  /-- Milliseconds that went by. -/
  pause : Nat

abbrev Utility := Request → Effect

namespace Utility

/-- Writes bytes and does nothing else. -/
def writes (r : Request) (bytes : ByteArray) (errors : String := "") (status : Nat := 0) : Effect :=
  ⟨bytes, errors, status, r.disk, r.input, 0⟩

/-- Writes nothing and ends with a status. -/
def ends (r : Request) (status : Nat) : Effect :=
  ⟨ByteArray.empty, "", status, r.disk, r.input, 0⟩

/-- Complains and ends with a status. -/
def complains (r : Request) (errors : String) (status : Nat := 1) : Effect :=
  ⟨ByteArray.empty, errors, status, r.disk, r.input, 0⟩

/-- Complains about the use of a utility. -/
def misused (r : Request) (program complaint : String) : Effect :=
  complains r (program ++ ": " ++ complaint ++ "\nTry '" ++ program ++
    " --help' for more information.\n")

/-- Leaves another disk behind. -/
def leaves (r : Request) (d : Disk) (errors : String := "") : Effect :=
  ⟨ByteArray.empty, errors, if errors.isEmpty then 0 else 1, d, r.input, 0⟩

def ofBytes (bytes : List UInt8) : ByteArray := ⟨bytes.toArray⟩

/-- Lines with line breaks behind them. -/
def ofLines (lines : List (List Char)) : ByteArray :=
  (String.ofList (lines.flatMap (· ++ ['\n']))).toUTF8

/-! ## Arguments -/

/-- The letters of options, and the arguments that are none. Options of `valued` take a value,
from the rest of their word or from the next one. -/
def splitOptions (valued : List Char) : List String → List (Char × String) × List String
  | [] => ([], [])
  | "--" :: operands => ([], operands)
  | argument :: arguments =>
    match argument.toList with
    | '-' :: c :: letters =>
      if valued.contains c then
        if letters.isEmpty then
          match arguments with
          | value :: arguments =>
            let (options, operands) := splitOptions valued arguments
            ((c, value) :: options, operands)
          | [] => ([(c, "")], [])
        else
          let (options, operands) := splitOptions valued arguments
          ((c, String.ofList letters) :: options, operands)
      else
        let (options, operands) := splitOptions valued arguments
        ((c :: letters).map (·, "") ++ options, operands)
    | _ =>
      let (options, operands) := splitOptions valued arguments
      (options, argument :: operands)

def given (options : List (Char × String)) (c : Char) : Bool := (options.lookup c).isSome

/-- The contents of a file; `-` is the input. -/
def contentsOf (r : Request) (operand : String) : Except Files.Fault ByteArray :=
  if operand = "-" then .ok r.input else r.disk.read operand

/-- The contents of operands with their names, or the input if there are none, and complaints,
which name a file in the words of the utility. -/
def sources (r : Request) (operands : List String) (named : String → String) :
    List (String × ByteArray) × String :=
  if operands.isEmpty then ([("", r.input)], "")
  else
    operands.foldl (fun (found, errors) operand =>
      match contentsOf r operand with
      | .ok bytes => (found ++ [(operand, bytes)], errors)
      | .error fault => (found, errors ++ named operand ++ ": " ++ fault.words ++ "\n")) ([], "")

/-- The contents of operands, or the input if there are none, and complaints about operands. -/
def contents (r : Request) (program : String) (operands : List String) : ByteArray × String :=
  let (found, errors) := sources r operands fun operand => program ++ ": " ++ operand
  (found.foldl (fun bytes (_, more) => bytes ++ more) ByteArray.empty, errors)

/-- The lines of a text. -/
def linesIn (bytes : ByteArray) : List (List Char) :=
  let parts := (Text.decodeBytes bytes).toList.splitOn '\n'
  if parts.getLast? = some [] then parts.dropLast else parts

/-- The lines of operands or of the input, and complaints about operands. -/
def linesOf (r : Request) (program : String) (operands : List String) :
    List (List Char) × String :=
  let (bytes, errors) := contents r program operands
  (linesIn bytes, errors)

/-- Writes what operands, or the input if there are none, were turned into. -/
def filters (r : Request) (operands : List String) (bytes : ByteArray) (errors : String)
    (status : Nat) : Effect :=
  let unread := if operands.isEmpty || operands.contains "-" then ByteArray.empty else r.input
  { writes r bytes errors status with unread }

/-- Writes what operands were turned into; complaints make the status one. -/
def reports (r : Request) (operands : List String) (bytes : ByteArray) (errors : String) : Effect :=
  filters r operands bytes errors (if errors.isEmpty then 0 else 1)

end Utility

end Briefing.Shell
