import Briefing.Decimal.Binary64

/-!
# Shortest decimals

A floating-point number is written with the fewest digits that read back as it, and with those of
them that are nearest to it; of two that are equally near the even ones are taken.

The decimals with `n` digits form a grid. If a point of the grid reads back, one of the two points
around the number does, so that only these are tried, for one digit, two digits, and so on.
-/

namespace Briefing.Decimal

/-- A decimal number: `digits * 10 ^ exponent`. -/
structure Digits where
  digits : Nat
  exponent : Int
  deriving DecidableEq, Repr

/-- The numbers that round to a positive `m * 2 ^ e`, in quarters of `2 ^ e`: those between `low`
and `high`, with the ends if `closed`. -/
structure Rounding where
  low : Nat
  high : Nat
  closed : Bool

/-- The numbers that round to `m * 2 ^ e`. Below a power of two the neighbour is nearer. -/
def Rounding.of (m : Nat) (e : Int) : Rounding where
  low := if m = Nat.pow 2 52 ∧ Binary64.minExponent < e then 4 * m - 1 else 4 * m - 2
  high := 4 * m + 2
  closed := m % 2 = 0

/-- Whether `num / den` quarters lie in the rounding interval. -/
def Rounding.holds (r : Rounding) (num den : Nat) : Bool :=
  if r.closed then r.low * den ≤ num && num ≤ r.high * den
  else r.low * den < num && num < r.high * den

/-- The power `k` with `10 ^ k ≤ num / den < 10 ^ (k + 1)`, searched upwards from `k`. -/
def magnitudeFrom (num den : Nat) : Nat → Int → Int
  | 0, k => k
  | fuel + 1, k =>
    let (n, d) := scale 10 num den (k + 1)
    if d ≤ n then magnitudeFrom num den fuel (k + 1) else k

/-- The power of ten of the first digit of a positive `m * 2 ^ e`. -/
def magnitude (m : Nat) (e : Int) : Int :=
  let (num, den) := scale 2 m 1 (-e)
  -- A power of two has about three tenths as many decimal digits as binary ones.
  let guess := ((m.log2 : Int) + e) * 30103 / 100000 - 2
  magnitudeFrom num den 5 guess

/-- The point of the grid `10 ^ p` nearest to `m * 2 ^ e` among those that read back as it. -/
def nearestOn (m : Nat) (e p : Int) : Option Nat :=
  -- All is counted in quarters of `2 ^ e`: the number is `4 * m`, a grid step is `step / unit`.
  let (step, unit) :=
    let (s, u) := scale 10 1 1 (-p)
    scale 2 s u (e - 2)
  let r := Rounding.of m e
  let below := 4 * m * unit / step
  let fits := fun c => c ≠ 0 && r.holds (c * step) unit
  let distance := fun c => if c * step < 4 * m * unit then 4 * m * unit - c * step
    else c * step - 4 * m * unit
  match fits below, fits (below + 1) with
  | true, true =>
    if distance below < distance (below + 1) then some below
    else if distance (below + 1) < distance below then some (below + 1)
    else if below % 2 = 0 then some below
    else some (below + 1)
  | true, false => some below
  | false, true => some (below + 1)
  | false, false => none

/-- The grid with `n` digits or, failing that, one with up to `fuel` digits more. -/
def shortestFrom (m : Nat) (e top : Int) : Nat → Int → Digits
  | 0, n => ⟨(nearestOn m e (top - n + 1)).getD 0, top - n + 1⟩
  | fuel + 1, n =>
    match nearestOn m e (top - n + 1) with
    | some c => ⟨c, top - n + 1⟩
    | none => shortestFrom m e top fuel (n + 1)

/-- Moves zeros at the end of the digits into the exponent. -/
def Digits.strip (d : Digits) : Digits :=
  if h : d.digits ≠ 0 ∧ d.digits % 10 = 0 then strip ⟨d.digits / 10, d.exponent + 1⟩ else d
termination_by d.digits
decreasing_by omega

/-- The shortest decimal that reads back as the positive number `m * 2 ^ e`: seventeen digits
always do. -/
def shortest (m : Nat) (e : Int) : Digits := (shortestFrom m e (magnitude m e) 16 1).strip

end Briefing.Decimal
