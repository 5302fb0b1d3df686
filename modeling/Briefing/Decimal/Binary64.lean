/-!
# Floating-point numbers

A finite number of the format binary64 is a sign, a significand and a power of two. A decimal is
read as the nearest such number, and of two that are equally near as the one with the even
significand.
-/

namespace Briefing.Decimal

/-- A number of the format binary64. A finite one is `significand * 2 ^ exponent`, where the
significand is below `2 ^ 53`, the exponent is at least -1074, and the significand is at least
`2 ^ 52` unless the exponent is -1074. -/
inductive Binary64
  | nan
  | infinite (negative : Bool)
  | finite (negative : Bool) (significand : Nat) (exponent : Int)
  deriving DecidableEq, Repr

namespace Binary64

/-- The least exponent. -/
def minExponent : Int := -1074

/-- The greatest exponent. -/
def maxExponent : Int := 971

/-- Whether two numbers compare as equal; every not-a-number is taken for the same, and so are the
two zeros. -/
def same : Binary64 → Binary64 → Bool
  | finite _ 0 _, finite _ 0 _ => true
  | x, y => x = y

end Binary64

/-- The quotient rounded to the nearest whole number, a half to the even one. -/
def roundDiv (num den : Nat) : Nat :=
  let q := num / den
  let r := num % den
  if den < 2 * r ∨ (2 * r = den ∧ q % 2 = 1) then q + 1 else q

/-- The fraction `num / den * b ^ (-e)`, with the power put where it makes no division. -/
def scale (b : Nat) (num den : Nat) (e : Int) : Nat × Nat :=
  if 0 ≤ e then (num, den * Nat.pow b e.toNat) else (num * Nat.pow b (-e).toNat, den)

namespace Binary64

/-- The number nearest to a positive fraction. -/
def ofFraction (negative : Bool) (num den : Nat) : Binary64 :=
  let guess := max ((num.log2 : Int) - den.log2 - 52) minExponent
  let (n, d) := scale 2 num den guess
  let e := if n / d < Nat.pow 2 52 ∧ minExponent < guess then guess - 1 else guess
  let (n, d) := scale 2 num den e
  let m := roundDiv n d
  let (m, e) := if m = Nat.pow 2 53 then (Nat.pow 2 52, e + 1) else (m, e)
  if maxExponent < e then infinite negative else finite negative m e

/-- The number nearest to `digits * 10 ^ exponent`. -/
def ofDecimal (negative : Bool) (digits : Nat) (exponent : Int) : Binary64 :=
  let length : Int := (Nat.toDigits 10 digits).length
  if digits = 0 ∨ length + exponent < -330 then finite negative 0 minExponent
  else if 310 < length + exponent then infinite negative
  else
    let (n, d) := scale 10 digits 1 (-exponent)
    ofFraction negative n d

end Binary64

end Briefing.Decimal
