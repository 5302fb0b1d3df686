import Briefing.Decimal.Binary64
import Briefing.Text.Digit
import Briefing.Text.Utf8
import Briefing.Text.White

/-!
# Formatted output

What `echo` and `printf` write: texts with backslash escapes, some of which stand for single bytes.
-/

namespace Briefing.Shell

/-- The byte of up to `n` octal digits, and the rest. -/
def octalByte (n : Nat) (s : List Char) : UInt8 × List Char :=
  let digits := (s.take n).takeWhile fun c => '0' ≤ c && c ≤ '7'
  (UInt8.ofNat ((Text.readDigits? 8 0 digits).getD 0), s.drop digits.length)

/-- The bytes of a backslash escape, and the rest; none for an escape that ends all output, which
only some texts have. In those an octal escape may have a zero before its three digits. -/
def escapeBytes (argument : Bool) (s : List Char) : Option (List UInt8 × List Char) :=
  match s with
  | [] => some ([0x5c], [])
  | c :: r =>
    match c with
    | 'a' => some ([0x07], r)
    | 'b' => some ([0x08], r)
    | 'c' => if argument then none else some ([0x5c, 0x63], r)
    | 'e' => some ([0x1b], r)
    | 'f' => some ([0x0c], r)
    | 'n' => some ([0x0a], r)
    | 'r' => some ([0x0d], r)
    | 't' => some ([0x09], r)
    | 'v' => some ([0x0b], r)
    | '\\' => some ([0x5c], r)
    | c =>
      if '0' ≤ c && c ≤ '7' then
        let (b, r) := octalByte 3 (if argument && c = '0' then r else s)
        some ([b], r)
      else some (0x5c :: Text.encodeChar c, r)

/-- A text with its escapes replaced, and whether one of them ends all output. -/
def unescapeBytes : Nat → List Char → List UInt8 × Bool
  | 0, _ | _, [] => ([], false)
  | fuel + 1, '\\' :: s =>
    match escapeBytes true s with
    | none => ([], true)
    | some (bytes, r) =>
      let (rest, ended) := unescapeBytes fuel r
      (bytes ++ rest, ended)
  | fuel + 1, c :: s =>
    let (rest, ended) := unescapeBytes fuel s
    (Text.encodeChar c ++ rest, ended)

/-- What `echo` writes. -/
def echo (arguments : List String) : List UInt8 :=
  let (ending, texts) : List UInt8 × List String := match arguments with
    | "-n" :: texts => ([], texts)
    | texts => ([0x0a], texts)
  let text := (" ".intercalate texts).toList
  let (bytes, ended) := unescapeBytes (text.length + 1) text
  if ended then bytes else bytes ++ ending

/-! ## Numbers -/

/-- The number at the start of a text, in base ten, eight or sixteen as it starts, and the rest. -/
def readNumber? (s : List Char) : Option (Nat × List Char) :=
  let inBase := fun (base : Nat) (s : List Char) =>
    let digits := s.takeWhile fun c => (Text.digitValue? base c).isSome
    (Text.readNat? base digits).map fun n => (n, s.drop digits.length)
  match s with
  | '0' :: 'x' :: hex | '0' :: 'X' :: hex => (inBase 16 hex).or (some (0, s.tail))
  | '0' :: _ => inBase 8 s
  | s => inBase 10 s

/-- Whether a text starts with a minus, and the text behind its sign. -/
def cutSign : List Char → Bool × List Char
  | '-' :: s => (true, s)
  | '+' :: s => (false, s)
  | s => (false, s)

/-- The integer at the start of an argument, zero if there is none, and what cannot be read. -/
def readInteger (argument : List Char) : Int × List Char :=
  let (negative, s) := cutSign (argument.dropWhile Text.isWhite)
  match readNumber? s with
  | some (n, rest) => (if negative then -n else n, rest)
  | none => (0, argument)

/-- The decimal at the start of an argument as a fraction of powers of ten, and what cannot be
read. -/
def readFraction (argument : List Char) : Decimal.Binary64 × List Char :=
  let (negative, s) := cutSign (argument.dropWhile Text.isWhite)
  let whole := s.takeWhile Char.isDigit
  let (places, rest) := match s.drop whole.length with
    | '.' :: s => (s.takeWhile Char.isDigit, s.dropWhile Char.isDigit)
    | s => ([], s)
  match Text.readNat? 10 (whole ++ places) with
  | some n => (.ofDecimal negative n (-(places.length : Int)), rest)
  | none => (.finite false 0 0, argument)

/-- What is wrong with an argument of which something cannot be read. -/
def unreadFault (argument unread : List Char) : List String :=
  if unread.isEmpty then []
  else
    [String.ofList argument ++
      if unread = argument then ": expected numeric value" else ": not completely converted"]

/-! ## Formats -/

/-- How a value is fitted into a format. -/
structure Fit where
  left : Bool := false
  zeros : Bool := false
  /-- What stands before a number that is not negative. -/
  plus : List Char := []
  width : Nat := 0
  precision : Option Nat := none

/-- A width or a precision: a number, or a star for one that is an argument; and the rest of the
format and of the arguments. -/
def readExtent (s : List Char) (arguments : List String) : Nat × List Char × List String :=
  match s with
  | '*' :: s => ((readInteger (arguments.headD "").toList).1.toNat, s, arguments.tail)
  | s =>
    let digits := s.takeWhile Char.isDigit
    ((Text.readDigits? 10 0 digits).getD 0, s.drop digits.length, arguments)

/-- The fit that is written behind a percent sign, and the rest of the format and of the
arguments. -/
def readFit (s : List Char) (arguments : List String) : Fit × List Char × List String :=
  let flags := s.takeWhile "-0+ #".toList.contains
  let (width, s, arguments) := readExtent (s.drop flags.length) arguments
  let (precision, s, arguments) : Option Nat × List Char × List String := match s with
    | '.' :: s =>
      let (n, s, arguments) := readExtent s arguments
      (some n, s, arguments)
    | s => (none, s, arguments)
  let plus := if flags.contains '+' then ['+'] else if flags.contains ' ' then [' '] else []
  (⟨flags.contains '-', flags.contains '0', plus, width, precision⟩, s, arguments)

/-- Bytes fitted into a width. -/
def Fit.pad (f : Fit) (bytes : List UInt8) : List UInt8 :=
  let blanks := List.replicate (f.width - bytes.length) 0x20
  if f.left then bytes ++ blanks else blanks ++ bytes

/-- A number, given by its sign and its digits, fitted into a width. -/
def Fit.padNumber (f : Fit) (sign digits : List Char) : List UInt8 :=
  let missing := f.width - (sign.length + digits.length)
  if f.zeros && !f.left then Text.encode (sign ++ List.replicate missing '0' ++ digits)
  else f.pad (Text.encode (sign ++ digits))

/-- A number in a column of some width, at its right end. -/
def columnOf (width n : Nat) : List Char :=
  let digits := Nat.toDigits 10 n
  List.replicate (width - digits.length) ' ' ++ digits

/-- The text of an integer in base ten. -/
def integerText (n : Int) : List Char :=
  if n < 0 then '-' :: Nat.toDigits 10 n.natAbs else Nat.toDigits 10 n.natAbs

/-- An integer fitted into a format, in base ten, or in another base as a word of 64 bits. -/
def Fit.integer (f : Fit) (conversion : Char) (n : Int) : List UInt8 :=
  let word := (Int64.ofInt n).toUInt64.toNat
  let signed := conversion = 'd' || conversion = 'i'
  let digits :=
    if conversion = 'x' then Nat.toDigits 16 word
    else if conversion = 'X' then (Nat.toDigits 16 word).map Char.toUpper
    else if conversion = 'o' then Nat.toDigits 8 word
    else if conversion = 'u' then Nat.toDigits 10 word
    else Nat.toDigits 10 n.natAbs
  let sign := if !signed then [] else if n < 0 then ['-'] else f.plus
  match f.precision with
  | some least =>
    { f with zeros := false }.padNumber sign
      (List.replicate (least - digits.length) '0' ++ digits)
  | none => f.padNumber sign digits

/-- A floating-point number with a fixed number of places, six if none is given. -/
def Fit.fixed (f : Fit) : Decimal.Binary64 → List UInt8
  | .nan => f.pad (Text.encode "nan".toList)
  | .infinite negative => f.pad (Text.encode ((if negative then "-inf" else "inf").toList))
  | .finite negative m e =>
    let places := f.precision.getD 6
    let (num, den) := Decimal.scale 2 m 1 (-e)
    let digits := Nat.toDigits 10 (Decimal.roundDiv (num * Nat.pow 10 places) den)
    let digits := List.replicate (places + 1 - digits.length) '0' ++ digits
    let whole := digits.take (digits.length - places)
    let text := if places = 0 then whole else whole ++ '.' :: digits.drop whole.length
    f.padNumber (if negative then ['-'] else f.plus) text

/-- What one pass over a format writes. -/
structure Pass where
  bytes : List UInt8
  errors : List String
  rest : List String
  ended : Bool

/-- Writes arguments once as a format says. -/
def formatOnce : Nat → List Char → List String → Pass
  | 0, _, arguments | _, [], arguments => ⟨[], [], arguments, false⟩
  | fuel + 1, '\\' :: s, arguments =>
    match escapeBytes false s with
    | none => ⟨[], [], arguments, true⟩
    | some (bytes, r) =>
      let pass := formatOnce fuel r arguments
      { pass with bytes := bytes ++ pass.bytes }
  | fuel + 1, '%' :: '%' :: s, arguments =>
    let pass := formatOnce fuel s arguments
    { pass with bytes := 0x25 :: pass.bytes }
  | fuel + 1, '%' :: s, arguments =>
    let (fit, r, arguments) := readFit s arguments
    let argument := (arguments.head?.getD "").toList
    let go := fun (bytes : List UInt8) (errors : List String) =>
      let pass := formatOnce fuel r.tail arguments.tail
      { pass with bytes := bytes ++ pass.bytes, errors := errors ++ pass.errors }
    match r.head? with
    | some 's' =>
      let bytes := Text.encode argument
      go (fit.pad ((fit.precision.map bytes.take).getD bytes)) []
    | some 'b' =>
      let (bytes, ended) := unescapeBytes (argument.length + 1) argument
      if ended then ⟨bytes, [], [], true⟩ else go (fit.pad bytes) []
    | some 'c' => go (fit.pad [(Text.encode argument).headD 0]) []
    | some conversion =>
      if "diuxXo".toList.contains conversion then
        let (n, unread) := match argument with
          | '\'' :: c | '"' :: c => ((((Text.encode c).head?.map UInt8.toNat).getD 0 : Int), [])
          | argument => readInteger argument
        go (fit.integer conversion n) (unreadFault argument unread)
      else if conversion = 'f' || conversion = 'F' then
        let (x, unread) := readFraction argument
        go (fit.fixed x) (unreadFault argument unread)
      else
        let directive := s.take (s.length - r.length + 1)
        ⟨[], ["%" ++ String.ofList directive ++ ": invalid directive"], [], true⟩
    | none => ⟨[], ["missing format character"], [], true⟩
  | fuel + 1, c :: s, arguments =>
    let pass := formatOnce fuel s arguments
    { pass with bytes := Text.encodeChar c ++ pass.bytes }

/-- Writes arguments as a format says, over and over until none is left. -/
def formatAll (format : List Char) : Nat → List String → List UInt8 × List String
  | 0, _ => ([], [])
  | fuel + 1, arguments =>
    let pass := formatOnce (format.length + 1) format arguments
    if pass.ended || pass.rest.isEmpty || pass.rest.length = arguments.length then
      (pass.bytes, pass.errors)
    else
      let (bytes, errors) := formatAll format fuel pass.rest
      (pass.bytes ++ bytes, pass.errors ++ errors)

/-- How `printf` ends: what it wrote, what is wrong with its arguments, and its status. -/
structure Printed where
  bytes : List UInt8
  errors : List String
  status : Nat

/-- What `printf` does. -/
def printf (arguments : List String) : Printed :=
  let arguments := if arguments.head? = some "--" then arguments.tail else arguments
  match arguments with
  | [] => ⟨[], ["usage: printf format [arg ...]"], 2⟩
  | format :: operands =>
    match format.toList with
    | '-' :: letter :: _ => ⟨[], ["Illegal option -" ++ String.singleton letter], 2⟩
    | format =>
      let (bytes, errors) := formatAll format (operands.length + 1) operands
      ⟨bytes, errors, if errors.isEmpty then 0 else 1⟩

end Briefing.Shell
