import Briefing.Text.Utf8

/-!
# Positions in a YAML text

A cursor is what is left of the text with the place it starts at. Line breaks are LF, CR, CR LF,
NEL and the Unicode line and paragraph separators. In a scalar each is read as a line feed, but for
the two separators, which are kept.
-/

namespace Briefing.Yaml

/-- Why a text is no YAML document. -/
inductive Fault
  | controlCharacter
  | unexpectedCharacter
  | tabIndentation
  | unclosedQuote
  | documentMarkInQuote
  | badEscape
  | badBlockHeader
  | misplacedColon
  | missingColon
  | misplacedEntry
  | misplacedKey
  | misplacedValue
  | badDirective
  | badAnchor
  | badTag
  | unknownTagHandle
  | unknownAnchor
  | missingContent
  | missingEntry
  | missingKey
  | missingDocumentStart
  | severalDocuments
  | tooDeep
  | tooManyAliases
  | duplicateKey
  | badTaggedValue
  | wideInteger
  deriving DecidableEq, Repr

/-- What the fault says to a reader. -/
def Fault.message : Fault → String
  | controlCharacter => "control characters are not allowed"
  | unexpectedCharacter => "found a character that cannot start any token"
  | tabIndentation => "found a tab where indentation is expected"
  | unclosedQuote => "found the end of the text within a quoted scalar"
  | documentMarkInQuote => "found a document mark within a quoted scalar"
  | badEscape => "found an unknown or incomplete escape"
  | badBlockHeader => "found an invalid block scalar header"
  | misplacedColon => "found an unexpected ':'"
  | missingColon => "could not find the expected ':'"
  | misplacedEntry => "block sequence entries are not allowed here"
  | misplacedKey => "mapping keys are not allowed here"
  | misplacedValue => "mapping values are not allowed here"
  | badDirective => "found an invalid directive"
  | badAnchor => "found an invalid anchor or alias"
  | badTag => "found an invalid tag"
  | unknownTagHandle => "found an undefined tag handle"
  | unknownAnchor => "found an unknown anchor"
  | missingContent => "did not find the expected node content"
  | missingEntry => "did not find the expected ',', '-' or closing bracket"
  | missingKey => "did not find the expected key"
  | missingDocumentStart => "did not find the expected document start"
  | severalDocuments => "found more than one document"
  | tooDeep => "nested too deeply"
  | tooManyAliases => "aliases are followed too often"
  | duplicateKey => "found a key twice in a mapping"
  | badTaggedValue => "found a value that does not fit its tag"
  | wideInteger => "found an integer that is too wide"

/-- Whether a YAML text may hold the character. -/
def isAllowed (c : Char) : Bool :=
  let n := c.toNat
  n = 0x9 || n = 0xa || n = 0xd || (0x20 ≤ n && n ≤ 0x7e) || n = 0x85 ||
    (0xa0 ≤ n && n ≤ 0xd7ff) || (0xe000 ≤ n && n ≤ 0xfffd) || 0x10000 ≤ n

/-- The mark that may stand at the beginning of a line, where it takes a column. -/
def byteOrderMark : Char := '\ufeff'

def isBreak (c : Char) : Bool :=
  c = '\n' || c = '\r' || c = '\x85' || c = '\u2028' || c = '\u2029'

def isGap (c : Char) : Bool := c = ' ' || c = '\t'

/-- A character of anchors, directives and tag handles. -/
def isWord (c : Char) : Bool := c.isAlphanum || c = '_' || c = '-'

/-- Whether a line or the text ends here. -/
def atLineEnd : List Char → Bool
  | [] => true
  | c :: _ => isBreak c

/-- Whether a gap, a line's end or the text's end stands here. -/
def atGap : List Char → Bool
  | [] => true
  | c :: _ => isGap c || isBreak c

/-- Whether one of the characters stands here. -/
def startsWithAny (cs : List Char) : List Char → Bool
  | [] => false
  | c :: _ => cs.contains c

/-- What is left of a text, and the place where it starts. -/
structure Cursor where
  rest : List Char
  /-- The number of bytes before it. -/
  index : Nat
  line : Nat
  column : Nat

namespace Cursor

/-- The start of a text. -/
def start (text : List Char) : Cursor := ⟨text, 0, 0, 0⟩

/-- Past `n` characters of a line. -/
def skip (c : Cursor) (n : Nat) : Cursor :=
  let taken := c.rest.take n
  ⟨c.rest.drop n, c.index + Text.byteLength taken, c.line, c.column + taken.length⟩

/-- Past the characters of a line that satisfy `p`. -/
def skipWhile (c : Cursor) (p : Char → Bool) : Cursor := c.skip (c.rest.takeWhile p).length

/-- Past a line break, if there is one. -/
def skipBreak (c : Cursor) : Cursor :=
  match c.rest with
  | '\r' :: '\n' :: rest => ⟨rest, c.index + 2, c.line + 1, 0⟩
  | b :: rest => if isBreak b then ⟨rest, c.index + b.utf8Size, c.line + 1, 0⟩ else c
  | [] => c

/-- What a scalar reads for the line break here; nothing if there is none. -/
def breakText (c : Cursor) : List Char :=
  match c.rest with
  | b :: _ => if b = '\u2028' || b = '\u2029' then [b] else if isBreak b then ['\n'] else []
  | [] => []

/-- Whether a document mark, `---` or `...`, stands alone at the start of the line. -/
def atDocumentMark (c : Cursor) : Bool :=
  c.column = 0 &&
    match c.rest with
    | '-' :: '-' :: '-' :: rest => atGap rest
    | '.' :: '.' :: '.' :: rest => atGap rest
    | _ => false

theorem skipBreak_length (c : Cursor) (h : atLineEnd c.rest) (h' : c.rest ≠ []) :
    c.skipBreak.rest.length < c.rest.length := by
  unfold skipBreak
  split
  · simp_all only [List.length_cons]
    omega
  · simp_all [atLineEnd]
  · simp_all

theorem skip_length_le (c : Cursor) (n : Nat) : (c.skip n).rest.length ≤ c.rest.length := by
  simp [skip]

end Cursor

end Briefing.Yaml
