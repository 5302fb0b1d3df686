import Briefing.Decimal.Binary64
import Briefing.Text.Digit
import Briefing.Yaml.Cursor

/-!
# Numbers in YAML

A plain scalar is an integer in base ten, or in base sixteen, eight or two behind `0x`, `0o` or
`0b`, or a decimal number, with a point or an exponent, or an infinity or not-a-number. Digits with
a zero in front are no number. Integers are signed or unsigned words of 64 bits; wider ones are
refused as long as 128 bits can hold them, and are read as decimal numbers beyond that.
-/

namespace Briefing

/-- A number as it stands in frontmatter. -/
inductive Number
  | int (value : Int)
  | float (value : Decimal.Binary64)
  deriving DecidableEq, Repr

namespace Yaml

/-- Whether the text starts with a sign. -/
def startsWithSign : List Char → Bool := startsWithAny ['+', '-']

/-- The text without the prefix. -/
def strip? (start : List Char) (s : List Char) : Option (List Char) := start.isPrefixOf? s

/-- Whether a zero stands before further digits, and nothing else. -/
def hasLeadingZero (s : List Char) : Bool :=
  let digits := if startsWithSign s then s.drop 1 else s
  match digits with
  | '0' :: d :: rest => d.isDigit && rest.all Char.isDigit
  | _ => false

/-- The bases with a prefix. -/
def bases : List (Char × Nat) := [('x', 16), ('o', 8), ('b', 2)]

/-- The non-negative integer below `limit` that the text writes. -/
def unsigned? (limit : Nat) (s : List Char) : Option Nat :=
  let fitting := fun (n : Option Nat) => n.filter (· < limit)
  let s' := (strip? ['+'] s).getD s
  let prefixed := bases.findSome? fun (letter, base) =>
    (strip? ['0', letter] s').bind fun rest =>
      if startsWithSign rest then some none
      else (fitting (Text.readNat? base rest)).map some
  match prefixed with
  | some n => n
  | none =>
    if startsWithSign s' || hasLeadingZero s then none else fitting (Text.readNat? 10 s')

/-- The integer from `-limit` to `limit - 1` that the text writes, with a minus sign before a
prefix. -/
def signed? (limit : Nat) (s : List Char) : Option Int :=
  let negative := fun (n : Option Nat) => (n.filter (· ≤ limit)).map fun n => -(n : Int)
  let prefixed := bases.findSome? fun (letter, base) =>
    (strip? ['-', '0', letter] s).bind fun rest => negative (Text.readNat? base rest)
  match prefixed with
  | some n => some n
  | none =>
    if hasLeadingZero s then none
    else
      match strip? ['-'] s with
      | some rest => negative (Text.readNat? 10 rest)
      | none => ((Text.readNat? 10 ((strip? ['+'] s).getD s)).filter (· < limit)).map Int.ofNat

/-- An integer that a word of `bits` bits can hold, unsigned or signed. -/
def integer? (bits : Nat) (s : List Char) : Option Int :=
  ((unsigned? (Nat.pow 2 bits) s).map Int.ofNat).or (signed? (Nat.pow 2 (bits - 1)) s)

/-- The power of ten behind the letter `e`. -/
def exponent? : List Char → Option Int
  | [] => some 0
  | e :: s =>
    if e = 'e' || e = 'E' then
      match s with
      | '-' :: s => (Text.readNat? 10 s).map fun n => -(n : Int)
      | '+' :: s => (Text.readNat? 10 s).map Int.ofNat
      | s => (Text.readNat? 10 s).map Int.ofNat
    else none

/-- The number that a decimal without a sign writes: digits, a point with digits, and an exponent;
there is a digit before the exponent. -/
def magnitude? (negative : Bool) (s : List Char) : Option Decimal.Binary64 :=
  let whole := s.takeWhile Char.isDigit
  let rest := s.dropWhile Char.isDigit
  let (fraction, rest) :=
    match rest with
    | '.' :: rest => (rest.takeWhile Char.isDigit, rest.dropWhile Char.isDigit)
    | rest => ([], rest)
  match Text.readNat? 10 (whole ++ fraction), exponent? rest with
  | some digits, some e => some (.ofDecimal negative digits (e - fraction.length))
  | _, _ => none

/-- The finite number that a decimal writes. -/
def decimal? (s : List Char) : Option Decimal.Binary64 :=
  let x :=
    match s with
    | '-' :: rest => magnitude? true rest
    | '+' :: rest => magnitude? false rest
    | rest => magnitude? false rest
  x.filter fun x => match x with
    | .finite .. => true
    | _ => false

/-- The floating-point number that the text writes. -/
def float? (s : List Char) : Option Decimal.Binary64 :=
  let unsigned := (strip? ['+'] s).getD s
  if (strip? ['+'] s).any startsWithSign then none
  else if [".inf".toList, ".Inf".toList, ".INF".toList].contains unsigned then
    some (.infinite false)
  else if ["-.inf".toList, "-.Inf".toList, "-.INF".toList].contains s then some (.infinite true)
  else if [".nan".toList, ".NaN".toList, ".NAN".toList].contains s then some .nan
  else decimal? unsigned

/-- The integer that the text writes, if it writes one that is not too wide. -/
def integer (s : List Char) : Except Fault (Option Int) :=
  match integer? 64 s with
  | some i => .ok (some i)
  | none => if (integer? 128 s).isSome then .error .wideInteger else .ok none

/-- The number that a plain scalar writes. -/
def number (s : List Char) : Except Fault (Option Number) := do
  match ← integer s with
  | some i => return some (.int i)
  | none => return if hasLeadingZero s then none else (float? s).map .float

end Yaml

end Briefing
