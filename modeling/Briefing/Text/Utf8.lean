/-!
# Bytes as text

Reading bytes as UTF-8 never fails: each maximal part of a character that is not completed becomes
one replacement character, and so does each byte that can start none.
-/

namespace Briefing.Text

/-- Stands for bytes that are no character. -/
def replacement : Char := '\ufffd'

/-- A byte that continues a character: `10xxxxxx`. -/
def isContinuation (b : UInt8) : Bool := 0x80 ≤ b && b ≤ 0xbf

/-- The number of bytes that follow a leading byte, and the values the first of them may have.
Overlong forms, surrogates and values past U+10FFFF are excluded by that first byte. -/
def following (lead : UInt8) : Nat × UInt8 × UInt8 :=
  if 0xc2 ≤ lead ∧ lead ≤ 0xdf then (1, 0x80, 0xbf)
  else if lead = 0xe0 then (2, 0xa0, 0xbf)
  else if lead = 0xed then (2, 0x80, 0x9f)
  else if 0xe1 ≤ lead ∧ lead ≤ 0xef then (2, 0x80, 0xbf)
  else if lead = 0xf0 then (3, 0x90, 0xbf)
  else if 0xf1 ≤ lead ∧ lead ≤ 0xf3 then (3, 0x80, 0xbf)
  else if lead = 0xf4 then (3, 0x80, 0x8f)
  else (0, 0, 0)

/-- The payload of a leading byte that `n` bytes follow. -/
def leadPayload (n : Nat) (lead : UInt8) : Nat :=
  lead.toNat % (if n = 1 then 0x20 else if n = 2 then 0x10 else 0x08)

/-- The character that starts with the byte `lead`, and how many of the bytes after it belong to
it. A character cut short is the replacement character with the bytes that do belong. -/
def decodeOne (lead : UInt8) (rest : List UInt8) : Char × Nat :=
  if lead < 0x80 then (Char.ofNat lead.toNat, 0)
  else
    let (n, low, high) := following lead
    let own := (rest.take n).zipIdx.takeWhile fun (b, i) =>
      if i = 0 then low ≤ b && b ≤ high else isContinuation b
    if n = 0 ∨ own.length < n then (replacement, own.length)
    else
      (Char.ofNat (own.foldl (fun acc (b, _) => acc * 0x40 + b.toNat % 0x40) (leadPayload n lead)),
        n)

/-- The text that the bytes stand for. -/
def decode : List UInt8 → List Char
  | [] => []
  | lead :: rest =>
    let (c, n) := decodeOne lead rest
    c :: decode (rest.drop n)
termination_by bytes => bytes.length
decreasing_by simp only [List.length_drop, List.length_cons]; omega

/-- The UTF-8 bytes of a character. -/
def encodeChar (c : Char) : List UInt8 := String.utf8EncodeChar c

/-- The UTF-8 bytes of a text. -/
def encode (s : List Char) : List UInt8 := s.flatMap encodeChar

/-- The text of a file's bytes, with replacement characters where they are not UTF-8. -/
def decodeBytes (bytes : ByteArray) : String :=
  match String.fromUTF8? bytes with
  | some s => s
  | none => String.ofList (decode bytes.toList)

/-- The number of bytes of a text. -/
def byteLength : List Char → Nat
  | [] => 0
  | c :: s => c.utf8Size + byteLength s

end Briefing.Text
