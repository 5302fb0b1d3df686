import Briefing.Shell.Pattern
import Briefing.Shell.Syntax
import Briefing.Text.White

/-!
# Fields

The parts of a word are expanded to pieces, which are cut into fields: quoted text stays whole,
values are split at separators.
-/

namespace Briefing.Shell

/-- A part of an expanded word. -/
inductive Piece
  /-- Text that is neither split nor matched. -/
  | fixed (s : List Char)
  /-- Text of the script, which is matched. -/
  | literal (s : List Char)
  /-- A value, which is split and matched. -/
  | value (s : List Char)
  /-- Ends a field. -/
  | cut

/-- A value that is quoted or not. -/
def Piece.ofValue (quoted : Bool) (s : String) : Piece :=
  if quoted then .fixed s.toList else .value s.toList

/-- The characters of a piece. -/
def Piece.marked : Piece → List Marked
  | fixed s => s.map (·, true)
  | literal s | value s => s.map (·, false)
  | cut => [(' ', false)]

/-- The text of pieces, which are not split. -/
def textOf (pieces : List Piece) : String :=
  String.ofList ((pieces.flatMap Piece.marked).map (·.1))

/-- A split value: the fields that are done, the one that is being gathered, and whether blanks
ended the last one. -/
structure Split where
  done : List (List Marked)
  field : Option (List Marked)
  blank : Bool

/-- Goes on with a character of a value. Blanks among the separators end a field, any other
separator ends one too, even an empty one. -/
def Split.step (separators : List Char) (t : Split) (c : Char) : Split :=
  if !separators.contains c then { t with field := some (t.field.getD [] ++ [(c, false)]) }
  else
    match t.field, Text.isWhite c with
    | some f, white => ⟨t.done ++ [f], none, white⟩
    | none, true => t
    | none, false =>
      if t.blank then { t with blank := false } else { t with done := t.done ++ [[]] }

/-- The fields of pieces; `field` is the one that is being gathered. -/
def fieldsOf (separators : List Char) (field : Option (List Marked)) :
    List Piece → List (List Marked)
  | [] => field.toList
  | .cut :: rest => field.getD [] :: fieldsOf separators (some []) rest
  | .fixed s :: rest => fieldsOf separators (some (field.getD [] ++ s.map (·, true))) rest
  | .literal s :: rest => fieldsOf separators (some (field.getD [] ++ s.map (·, false))) rest
  | .value s :: rest =>
    let t := s.foldl (Split.step separators) ⟨[], field, false⟩
    t.done ++ fieldsOf separators t.field rest

/-- Pieces with cuts between them. -/
def cutBetween : List Piece → List Piece
  | [] => []
  | [p] => [p]
  | p :: ps => p :: .cut :: cutBetween ps

/-- A word with its leading tilde replaced by the user's directory. -/
def expandTilde (home : Option String) : Word → Word
  | .text false ('~' :: s) :: parts =>
    if s.head?.all (· = '/') && (s.isEmpty → parts.isEmpty) then
      match home with
      | some home => .text true home.toList :: .text false s :: parts
      | none => .text false ('~' :: s) :: parts
    else .text false ('~' :: s) :: parts
  | word => word

/-- The text without line breaks at its end. -/
def withoutBreaks (s : String) : String :=
  String.ofList (s.toList.reverse.dropWhile (· = '\n')).reverse

end Briefing.Shell
