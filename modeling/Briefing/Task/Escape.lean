import Briefing.Task.Token
import Briefing.Text.Digit

/-!
# Escapes

A backslash escapes what follows it. `\n`, `\t`, `\r` and an escaped backslash or quote give one
character, `\u` with four hexadecimal digits gives the character of that code point, `\x` with two
and one to three octal digits give a byte. `\u` and `\x` without their digits stay as they are, and
any other escaped character stands for itself.

The escaped text is read as bytes: characters contribute their UTF-8 bytes, and bytes that are not
UTF-8 come out as replacement characters.
-/

namespace Briefing.Task

/-- What a part of an escaped text contributes. -/
inductive Piece
  | char (c : Char)
  | byte (b : UInt8)
  deriving DecidableEq, Repr

namespace Piece

/-- The bytes that a piece contributes. -/
def bytes : Piece → List UInt8
  | char c => Text.encodeChar c
  | byte b => [b]

/-- The character of a one-letter escape. -/
def letter? (c : Char) : Option Char :=
  if c = 'n' then some '\n'
  else if c = 't' then some '\t'
  else if c = 'r' then some '\r'
  else if c = '\\' || isQuote c then some c
  else none

/-- The number that the first `n` characters write in hexadecimal, if there are as many. -/
def hexPrefix? (n : Nat) (s : List Char) : Option Nat :=
  if s.length < n then none else Text.readNat? 16 (s.take n)

/-- The character whose code point the first four characters write. -/
def codePoint? (s : List Char) : Option Char :=
  (hexPrefix? 4 s).bind fun n => if h : n.isValidChar then some (Char.ofNatAux n h) else none

def isOctal (c : Char) : Bool := (Text.digitValue? 8 c).isSome

/-- The byte that the longest run of up to three octal digits writes, and their number. A third
digit that would pass the largest byte is left out. -/
def octal (s : List Char) : Nat × Nat :=
  let digits := (s.take 3).takeWhile isOctal
  let value := (Text.readDigits? 8 0 digits).getD 0
  if value ≤ 255 then (value, digits.length)
  else ((Text.readDigits? 8 0 digits.dropLast).getD 0, digits.length - 1)

/-- The pieces of an escaped text. -/
def ofEscaped : List Char → List Piece
  | [] => []
  | '\\' :: [] => [char '\\']
  | '\\' :: c :: s =>
    match letter? c with
    | some d => char d :: ofEscaped s
    | none =>
      if c = 'u' then
        match codePoint? s with
        | some d => char d :: ofEscaped (s.drop 4)
        | none => char '\\' :: char c :: ofEscaped s
      else if c = 'x' then
        match hexPrefix? 2 s with
        | some n => byte (UInt8.ofNat n) :: ofEscaped (s.drop 2)
        | none => char '\\' :: char c :: ofEscaped s
      else if isOctal c then
        byte (UInt8.ofNat (octal (c :: s)).1) :: ofEscaped (s.drop ((octal (c :: s)).2 - 1))
      else char c :: ofEscaped s
  | c :: s => char c :: ofEscaped s
termination_by s => s.length
decreasing_by all_goals simp only [List.length_cons, List.length_drop]; omega

end Piece

/-- The text that an escaped text stands for. -/
def decodeEscapes (s : List Char) : List Char :=
  Text.decode ((Piece.ofEscaped s).flatMap Piece.bytes)

/-- The value of an argument as written: within matching quotes escapes are decoded, any other
text is its own value. -/
def decodeValue : List Char → List Char
  | [] => []
  | q :: s =>
    if isQuote q && s.getLast? = some q then decodeEscapes s.dropLast else q :: s

/-- The text that an escaped text stands for. -/
def decodeEscapesText (s : String) : String := String.ofList (decodeEscapes s.toList)

/-- The value of an argument as written. -/
def decodeValueText (s : String) : String := String.ofList (decodeValue s.toList)

end Briefing.Task
