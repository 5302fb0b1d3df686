/-!
# Digits

A digit's value in a base, the number that a run of digits stands for, and the digits of a number.
-/

namespace Briefing.Text

/-- The value of a digit `0`-`9`, `a`-`f` or `A`-`F`, if it is below `base`. -/
def digitValue? (base : Nat) (c : Char) : Option Nat :=
  let n := c.toNat
  let v :=
    if 0x30 ≤ n ∧ n ≤ 0x39 then some (n - 0x30)
    else if 0x61 ≤ n ∧ n ≤ 0x66 then some (n - 0x61 + 10)
    else if 0x41 ≤ n ∧ n ≤ 0x46 then some (n - 0x41 + 10)
    else none
  v.filter (· < base)

/-- The number written by a run of digits, continuing from `acc`; none if a character is no digit
of the base. -/
def readDigits? (base : Nat) : Nat → List Char → Option Nat
  | acc, [] => some acc
  | acc, c :: s => (digitValue? base c).bind fun d => readDigits? base (acc * base + d) s

/-- The number written by a non-empty run of digits. -/
def readNat? (base : Nat) (s : List Char) : Option Nat :=
  if s.isEmpty then none else readDigits? base 0 s

/-- A number below sixteen as a lower-case digit. -/
def hexDigit (n : Nat) : Char :=
  if n < 10 then Char.ofNat (0x30 + n) else Char.ofNat (0x61 + (n - 10))

/-- A number in base sixteen, in lower case and without leading zeros. -/
def hex (n : Nat) : List Char :=
  if n < 16 then [hexDigit n] else hex (n / 16) ++ [hexDigit (n % 16)]
termination_by n

/-- A number in base ten. -/
def decimal (n : Nat) : String := String.ofList (Nat.toDigits 10 n)

theorem isDigit_of_mem_decimal {n : Nat} {c : Char} (h : c ∈ (decimal n).toList) :
    c.isDigit = true := by
  rw [decimal, String.toList_ofList] at h
  exact Nat.isDigit_of_mem_toDigits (by decide) (by decide) h

theorem decimal_inj {i j : Nat} (h : decimal i = decimal j) : i = j := by
  have hdigits := congrArg String.toList h
  simp only [decimal, String.toList_ofList] at hdigits
  rw [← Nat.ofDigitChars_toDigits (n := i) (b := 10) (by decide) (by decide), hdigits,
    Nat.ofDigitChars_toDigits (by decide) (by decide)]

end Briefing.Text
