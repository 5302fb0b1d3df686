/-!
# Character ranges

A class of characters is given by the first and last code point of each of its ranges.
-/

namespace Briefing.Text

/-- Whether one of the ranges holds `c`. -/
def inRanges (ranges : List (Nat × Nat)) (c : Char) : Bool :=
  ranges.any fun r => r.1 ≤ c.toNat && c.toNat ≤ r.2

end Briefing.Text
