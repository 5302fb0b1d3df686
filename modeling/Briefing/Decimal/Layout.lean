import Briefing.Decimal.Shortest
import Briefing.Text.Digit

/-!
# Writing floating-point numbers

A layout says how a number is written once its digits are known: where the point may stand, how an
exponent begins, and what is written for numbers that are not finite.
-/

namespace Briefing.Decimal

/-- How numbers are written. A number whose first digit stands `point` places left of the end of
its whole part is written positionally if `point` is at least `leastPoint` and at most `mostPoint`,
else with an exponent. -/
structure Layout where
  leastPoint : Int
  mostPoint : Int
  /-- What stands before a power of ten that is not negative. -/
  plus : String
  nan : String
  infinity : String
  negativeInfinity : String

namespace Layout

/-- A run of zeros. -/
def zeros (n : Nat) : List Char := List.replicate n '0'

/-- Digits with a point `point` places after their start; a whole number keeps one zero behind the
point, a fraction one before it. -/
def positional (digits : List Char) (point : Int) : List Char :=
  if point ≤ 0 then '0' :: '.' :: zeros (-point).toNat ++ digits
  else
    let n := point.toNat
    if digits.length ≤ n then digits ++ zeros (n - digits.length) ++ ['.', '0']
    else digits.take n ++ '.' :: digits.drop n

/-- Digits with a point after the first of them, if there are more, and a power of ten. -/
def scientific (plus : String) (digits : List Char) (power : Int) : List Char :=
  let fraction := if digits.length ≤ 1 then [] else '.' :: digits.drop 1
  let sign := if power < 0 then ['-'] else plus.toList
  digits.take 1 ++ fraction ++ 'e' :: sign ++ Nat.toDigits 10 power.natAbs

/-- A number without its sign. -/
def writeMagnitude (layout : Layout) (m : Nat) (e : Int) : List Char :=
  if m = 0 then ['0', '.', '0']
  else
    let d := shortest m e
    let digits := Nat.toDigits 10 d.digits
    let point := digits.length + d.exponent
    if layout.leastPoint ≤ point ∧ point ≤ layout.mostPoint then positional digits point
    else scientific layout.plus digits (point - 1)

/-- The text of a number. -/
def write (layout : Layout) : Binary64 → String
  | .nan => layout.nan
  | .infinite true => layout.negativeInfinity
  | .infinite false => layout.infinity
  | .finite negative m e =>
    String.ofList ((if negative then ['-'] else []) ++ layout.writeMagnitude m e)

end Layout

end Briefing.Decimal
