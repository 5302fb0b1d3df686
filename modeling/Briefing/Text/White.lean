import Briefing.Text.Range

/-!
# White space

White space is the Unicode property White_Space. Trimming removes the longest white beginning and
end of a text, so a trimmed text starts and ends with characters that are not white.
-/

namespace Briefing.Text

/-- The characters with the property White_Space. -/
def whiteRanges : List (Nat × Nat) :=
  [(0x9, 0xd), (0x20, 0x20), (0x85, 0x85), (0xa0, 0xa0), (0x1680, 0x1680), (0x2000, 0x200a),
   (0x2028, 0x2029), (0x202f, 0x202f), (0x205f, 0x205f), (0x3000, 0x3000)]

def isWhite (c : Char) : Bool := inRanges whiteRanges c

/-- A control character: U+0000 to U+001F and U+007F to U+009F. -/
def isControl (c : Char) : Bool := c.toNat < 0x20 || (0x7f ≤ c.toNat && c.toNat ≤ 0x9f)

/-- The text from its first character that fails `p`. -/
def dropStart (p : Char → Bool) (s : List Char) : List Char := s.dropWhile p

/-- The text up to its last character that fails `p`. -/
def dropEnd (p : Char → Bool) (s : List Char) : List Char := (s.reverse.dropWhile p).reverse

/-- The text without white space at either end. -/
def trimChars (s : List Char) : List Char := dropEnd isWhite (dropStart isWhite s)

/-- The text without white space at either end. -/
def trim (s : String) : String := String.ofList (trimChars s.toList)

/-- The text without white space at its end. -/
def trimEnd (s : String) : String := String.ofList (dropEnd isWhite s.toList)

/-- Whether nothing is left of the text once it is trimmed. -/
def isBlank (s : String) : Bool := s.toList.all isWhite

end Briefing.Text
