import Briefing.Yaml.Scalar

/-!
# Tokens of a YAML text

Tokens are marks, brackets, scalars and their properties, and the beginnings and ends of the blocks
that indentation forms. A key is recognised by the colon after it: where a scalar or a collection
that may be a key begins, its place among the tokens is remembered, and the key mark is put there
when the colon comes. That place is forgotten when the line ends or after 1024 bytes.
-/

namespace Briefing.Yaml

/-- The tokens of a YAML text. The text's end is the end of the tokens. -/
inductive Token
  | version (major minor : Nat)
  | tagDirective (handle : List Char) (start : List UInt8)
  | documentStart
  | documentEnd
  | blockSequenceStart
  | blockMappingStart
  | blockEnd
  | flowSequenceStart
  | flowSequenceEnd
  | flowMappingStart
  | flowMappingEnd
  | blockEntry
  | flowEntry
  | key
  | value
  | alias (name : List Char)
  | anchor (name : List Char)
  | tag (handle : List Char) (suffix : List UInt8)
  /-- A scalar, and whether it is plain. -/
  | scalar (text : List Char) (isPlain : Bool)
  deriving DecidableEq

/-! ## Names, tags and directives -/

/-- The name of an anchor or alias. -/
def anchorName (c : Cursor) : Except Fault (List Char × Cursor) :=
  let name := c.rest.takeWhile isWord
  let c := c.skip name.length
  if name.isEmpty || !(atGap c.rest ||
      startsWithAny ['?', ':', ',', ']', '\x7d', '%', '@', '\x60'] c.rest) then
    .error .badAnchor
  else .ok (name, c)

/-- A tag handle: `!`, or word characters between two of them. In a directive it must be one. -/
def tagHandle (directive : Bool) (c : Cursor) : Except Fault (List Char × Cursor) :=
  if !startsWithAny ['!'] c.rest then .error .badTag
  else
    let word := (c.rest.drop 1).takeWhile isWord
    let c := c.skip (word.length + 1)
    if startsWithAny ['!'] c.rest then .ok ('!' :: word ++ ['!'], c.skip 1)
    else if directive && !word.isEmpty then .error .badTag
    else .ok ('!' :: word, c)

/-- The number of bytes of the character that an octet starts, or 0. -/
def octetWidth (octet : Nat) : Nat :=
  if octet < 0x80 then 1
  else if octet / 0x20 = 6 then 2
  else if octet / 0x10 = 14 then 3
  else if octet / 0x08 = 30 then 4
  else 0

/-- The octet that a percent sign and two hexadecimal digits write. -/
def octet? : List Char → Option Nat
  | '%' :: a :: b :: _ => Text.readNat? 16 [a, b]
  | _ => none

/-- Further octets of a character, `n` of them. -/
def moreOctets : Nat → List Char → Except Fault (List UInt8)
  | 0, _ => .ok []
  | n + 1, s =>
    match octet? s with
    | some v =>
      if v / 0x40 = 2 then (moreOctets n (s.drop 3)).map (UInt8.ofNat v :: ·) else .error .badTag
    | none => .error .badTag

/-- The octets of one character written with percent signs. -/
def octets (s : List Char) : Except Fault (List UInt8) :=
  match octet? s with
  | some v =>
    if octetWidth v = 0 then .error .badTag
    else (moreOctets (octetWidth v - 1) (s.drop 3)).map (UInt8.ofNat v :: ·)
  | none => .error .badTag

/-- A character of a tag. Between angle brackets commas and square brackets belong to it too. -/
def isTagChar (verbatim : Bool) (c : Char) : Bool :=
  isWord c ||
    [';', '/', '?', ':', '@', '&', '=', '+', '$', '.', '%', '!', '~', '*', '\'', '(', ')'].contains
      c || (verbatim && [',', '[', ']'].contains c)

/-- The octets of a tag, and how many characters write them. -/
def tagText (verbatim : Bool) : Nat → List Char → Except Fault (List UInt8 × Nat)
  | 0, _ => .ok ([], 0)
  | _, [] => .ok ([], 0)
  | fuel + 1, x :: s =>
    if !isTagChar verbatim x then .ok ([], 0)
    else if x = '%' then do
      let bytes ← octets (x :: s)
      let (more, n) ← tagText verbatim fuel ((x :: s).drop (3 * bytes.length))
      return (bytes ++ more, n + 3 * bytes.length)
    else do
      let (more, n) ← tagText verbatim fuel s
      return (UInt8.ofNat x.toNat :: more, n + 1)

/-- The text of a tag that follows `head`, of which the mark in front is left out. A NUL ends the
text, not what is read. -/
def tagSuffix (verbatim : Bool) (head : List Char) (c : Cursor) :
    Except Fault (List UInt8 × Cursor) := do
  let (bytes, n) ← tagText verbatim (c.rest.length + 1) c.rest
  if head.isEmpty && n = 0 then throw .badTag
  let bytes := (head.drop 1).map (fun x => UInt8.ofNat x.toNat) ++ bytes
  return (bytes.takeWhile (· ≠ 0), c.skip n)

/-- A tag, at its mark. -/
def tag (flow : Bool) (c : Cursor) : Except Fault (Token × Cursor) := do
  let (token, c) ← match c.rest with
    | '!' :: '<' :: _ => do
      let (suffix, c) ← tagSuffix true [] (c.skip 2)
      if startsWithAny ['>'] c.rest then pure (Token.tag [] suffix, c.skip 1) else throw .badTag
    | _ => do
      let (handle, c) ← tagHandle false c
      if handle.length > 1 && handle.getLast? = some '!' then
        let (suffix, c) ← tagSuffix false [] c
        pure (Token.tag handle suffix, c)
      else
        let (suffix, c) ← tagSuffix false handle c
        if suffix.isEmpty then pure (Token.tag [] [0x21], c)
        else pure (Token.tag ['!'] suffix, c)
  if atGap c.rest || (flow && startsWithAny [','] c.rest) then return (token, c)
  else throw .badTag

/-- The number of a version, of at most nine digits. -/
def versionNumber (c : Cursor) : Except Fault (Nat × Cursor) :=
  let digits := c.rest.takeWhile Char.isDigit
  match Text.readNat? 10 digits with
  | some n => if digits.length ≤ 9 then .ok (n, c.skip digits.length) else .error .badDirective
  | none => .error .badDirective

/-- A directive, at its percent sign. -/
def directive (c : Cursor) : Except Fault (Token × Cursor) := do
  let name := (c.rest.drop 1).takeWhile isWord
  let c := c.skip (name.length + 1)
  if name.isEmpty || !atGap c.rest then throw .badDirective
  let (token, c) ←
    if name = ['Y', 'A', 'M', 'L'] then do
      let (major, c) ← versionNumber (c.skipWhile isGap)
      if !startsWithAny ['.'] c.rest then throw .badDirective
      let (minor, c) ← versionNumber (c.skip 1)
      pure (Token.version major minor, c)
    else if name = ['T', 'A', 'G'] then do
      let (handle, c) ← tagHandle true (c.skipWhile isGap)
      if !startsWithAny [' ', '\t'] c.rest then throw .badDirective
      let (start, c) ← tagSuffix true [] (c.skipWhile isGap)
      if !atGap c.rest then throw .badDirective
      pure (Token.tagDirective handle start, c)
    else throw .badDirective
  let c := c.skipWhile isGap
  let c := if startsWithAny ['#'] c.rest then c.skipWhile (!isBreak ·) else c
  if atLineEnd c.rest then return (token, c.skipBreak) else throw .badDirective

/-! ## The token sequence -/

/-- Where something begins that is a key if a colon follows it. -/
structure KeyPlace where
  /-- Whether a colon has to follow, as nothing else may stand in this column. -/
  required : Bool
  /-- The number of tokens before it. -/
  number : Nat
  index : Nat
  line : Nat
  column : Nat

/-- The tokens so far and what decides about the next. -/
structure Scan where
  cursor : Cursor
  tokens : Array Token
  /-- The column of the innermost block, or -1, and those of the blocks around it. -/
  indent : Int
  outer : List Int
  /-- Whether a key may begin here. -/
  keyAllowed : Bool
  /-- The possible keys of the text itself and of each open bracket, the innermost first. -/
  places : List (Option KeyPlace)

namespace Scan

/-- Whether a bracket is open. -/
def inFlow (s : Scan) : Bool := s.places.length > 1

def push (s : Scan) (token : Token) : Scan := { s with tokens := s.tokens.push token }

/-- Puts a token before those from the `n`-th on. -/
def insertAt (s : Scan) (n : Nat) (token : Token) : Scan :=
  { s with tokens := s.tokens.insertIdxIfInBounds n token }

/-- Forgets the possible key of the innermost bracket. -/
def forgetKey (s : Scan) : Except Fault Scan :=
  match s.places with
  | [] => .ok s
  | place :: places =>
    if place.any KeyPlace.required then .error .missingColon
    else .ok { s with places := none :: places }

/-- Forgets possible keys that began on an earlier line or too far back. -/
def forgetStale (s : Scan) : Except Fault Scan :=
  let isStale := fun (p : KeyPlace) =>
    p.line < s.cursor.line || p.index + 1024 < s.cursor.index
  if s.places.any (·.any fun p => isStale p && p.required) then .error .missingColon
  else .ok { s with places := s.places.map (·.filter fun p => !isStale p) }

/-- Remembers that a key may begin here. -/
def rememberKey (s : Scan) : Except Fault Scan := do
  if !s.keyAllowed then return s
  let required := !s.inFlow && s.indent = s.cursor.column
  let s ← s.forgetKey
  let place : KeyPlace :=
    ⟨required, s.tokens.size, s.cursor.index, s.cursor.line, s.cursor.column⟩
  return { s with places := some place :: s.places.drop 1 }

/-- Opens a block at a column right of the innermost one, its start before the `n`-th token. -/
def openBlock (s : Scan) (column n : Nat) (token : Token) : Scan :=
  if !s.inFlow && s.indent < column then
    { s.insertAt n token with indent := column, outer := s.indent :: s.outer }
  else s

/-- The columns left and the number of blocks closed when blocks right of `column` are closed. -/
def close (column : Int) : Int → List Int → Int × List Int × Nat
  | indent, [] => (indent, [], 0)
  | indent, next :: outer =>
    if column < indent then
      let (indent, outer, n) := close column next outer
      (indent, outer, n + 1)
    else (indent, next :: outer, 0)

/-- Closes the blocks right of a column. -/
def closeBlocks (s : Scan) (column : Int) : Scan :=
  if s.inFlow then s
  else
    let (indent, outer, n) := close column s.indent s.outer
    { s with
      indent, outer
      tokens := s.tokens ++ Array.replicate n Token.blockEnd }

/-- Passes a byte order mark, blanks and a comment, up to a token or the line's end. Tabs are
blanks within brackets and where no key may begin. -/
def passBlanks (flow keyAllowed : Bool) (c : Cursor) : Cursor :=
  let c := if c.column = 0 && startsWithAny [byteOrderMark] c.rest then c.skip 1 else c
  let c := c.skipWhile fun x => x = ' ' || ((flow || !keyAllowed) && x = '\t')
  if startsWithAny ['#'] c.rest then c.skipWhile (!isBreak ·) else c

theorem passBlanks_length_le (flow keyAllowed : Bool) (c : Cursor) :
    (passBlanks flow keyAllowed c).rest.length ≤ c.rest.length := by
  have h (c : Cursor) (p : Bool) (n : Nat) :
      (if p then c.skip n else c).rest.length ≤ c.rest.length := by
    cases p
    · exact Nat.le_refl _
    · exact Cursor.skip_length_le _ _
  exact Nat.le_trans (h _ _ _) (Nat.le_trans (Cursor.skip_length_le _ _) (h _ _ _))

/-- Passes blanks, comments and breaks. After a break a key may begin, but not within brackets. -/
def toNextToken (flow : Bool) (keyAllowed : Bool) (c : Cursor) : Bool × Cursor :=
  let next := passBlanks flow keyAllowed c
  if _ : atLineEnd next.rest ∧ next.rest ≠ [] then
    toNextToken flow (keyAllowed || !flow) next.skipBreak
  else (keyAllowed, next)
termination_by c.rest.length
decreasing_by
  rename_i h
  exact Nat.lt_of_lt_of_le (Cursor.skipBreak_length _ h.1 h.2) (passBlanks_length_le _ _ _)

/-- Closes all blocks at a mark that stands outside of them. -/
def leaveBlocks (s : Scan) : Except Fault Scan :=
  ((s.closeBlocks (-1)).forgetKey).map fun s => { s with keyAllowed := false }

/-- Takes a token of `n` characters. -/
def take (s : Scan) (n : Nat) (token : Token) : Scan :=
  { s.push token with cursor := s.cursor.skip n }

/-- Takes a token that was read up to the cursor `c`. -/
def takeTo (s : Scan) (c : Cursor) (token : Token) : Scan := { s.push token with cursor := c }

def openBracket (s : Scan) (token : Token) : Except Fault Scan := do
  let s ← s.rememberKey
  return { s.take 1 token with places := none :: s.places, keyAllowed := true }

def closeBracket (s : Scan) (token : Token) : Except Fault Scan := do
  let s ← s.forgetKey
  let places := if s.inFlow then s.places.drop 1 else s.places
  return { s.take 1 token with places, keyAllowed := false }

def blockEntry (s : Scan) : Except Fault Scan := do
  if !s.inFlow && !s.keyAllowed then throw .misplacedEntry
  let s := s.openBlock s.cursor.column s.tokens.size .blockSequenceStart
  let s ← s.forgetKey
  return { s.take 1 .blockEntry with keyAllowed := true }

def explicitKey (s : Scan) : Except Fault Scan := do
  if !s.inFlow && !s.keyAllowed then throw .misplacedKey
  let s := s.openBlock s.cursor.column s.tokens.size .blockMappingStart
  let s ← s.forgetKey
  return { s.take 1 .key with keyAllowed := !s.inFlow }

/-- A colon makes a key of what was remembered, or stands after an explicit key. -/
def colon (s : Scan) : Except Fault Scan := do
  match s.places with
  | some place :: places =>
    let s := s.insertAt place.number .key
    let s := s.openBlock place.column place.number .blockMappingStart
    return { s.take 1 .value with places := none :: places, keyAllowed := false }
  | _ =>
    if !s.inFlow && !s.keyAllowed then throw .misplacedValue
    let s := s.openBlock s.cursor.column s.tokens.size .blockMappingStart
    return { s.take 1 .value with keyAllowed := !s.inFlow }

/-- Takes a property or a scalar that may be a key or the beginning of one. -/
def content (s : Scan) (read : Cursor → Except Fault (Token × Cursor)) : Except Fault Scan := do
  let s ← s.rememberKey
  let (token, c) ← read s.cursor
  return { s.takeTo c token with keyAllowed := false }

def blockScalar (s : Scan) (literal : Bool) : Except Fault Scan := do
  let s ← s.forgetKey
  let (text, c) ← block literal s.indent (s.cursor.skip 1)
  return { s.takeTo c (.scalar text false) with keyAllowed := true }

def plainScalar (s : Scan) : Except Fault Scan := do
  let s ← s.rememberKey
  let (text, broken, c) ← plain s.inFlow (s.indent + 1) s.cursor
  return { s.takeTo c (.scalar text true) with keyAllowed := broken }

/-- Whether a plain scalar can start with `x` before `rest`. -/
def startsPlain (flow : Bool) (x : Char) (rest : List Char) : Bool :=
  if x = '-' then !startsWithAny [' ', '\t'] rest
  else if x = '?' || x = ':' then !flow && !atGap rest
  else !(isGap x || isBreak x || [',', '[', ']', '\x7b', '\x7d', '#', '&', '*', '!', '|', '>', '\'',
    '"', '%', '@', '\x60'].contains x)

/-- Takes the token that starts with `x` before `rest`. -/
def token (s : Scan) (x : Char) (rest : List Char) : Except Fault Scan := do
  let c := s.cursor
  let flow := s.inFlow
  if c.column = 0 && x = '%' then
    let s ← s.leaveBlocks
    let (token, c) ← directive s.cursor
    return s.takeTo c token
  else if c.atDocumentMark then
    return (← s.leaveBlocks).take 3 (if x = '-' then .documentStart else .documentEnd)
  else if x = '[' then s.openBracket .flowSequenceStart
  else if x = '\x7b' then s.openBracket .flowMappingStart
  else if x = ']' then s.closeBracket .flowSequenceEnd
  else if x = '\x7d' then s.closeBracket .flowMappingEnd
  else if x = ',' then return { (← s.forgetKey).take 1 .flowEntry with keyAllowed := true }
  else if x = '-' && atGap rest then s.blockEntry
  else if x = '?' && (flow || atGap rest) then s.explicitKey
  else if x = ':' && (flow || atGap rest) then s.colon
  else if x = '*' then
    s.content fun c => (anchorName (c.skip 1)).map fun (name, c) => (.alias name, c)
  else if x = '&' then
    s.content fun c => (anchorName (c.skip 1)).map fun (name, c) => (.anchor name, c)
  else if x = '!' then s.content (tag flow)
  else if x = '|' && !flow then s.blockScalar true
  else if x = '>' && !flow then s.blockScalar false
  else if x = '\'' || x = '"' then
    s.content fun c => (quoted (x = '\'') (c.skip 1)).map fun (text, c) => (.scalar text false, c)
  else if startsPlain flow x rest then s.plainScalar
  else throw .unexpectedCharacter

/-- Takes tokens to the end of the text. -/
def toEnd : Nat → Scan → Except Fault (List Token)
  | 0, _ => .error .unexpectedCharacter
  | fuel + 1, s => do
    let (keyAllowed, c) := toNextToken s.inFlow s.keyAllowed s.cursor
    let s ← { s with keyAllowed, cursor := c }.forgetStale
    let s := s.closeBlocks s.cursor.column
    match s.cursor.rest with
    | [] => return (← s.leaveBlocks).tokens.toList
    | x :: rest => toEnd fuel (← s.token x rest)

end Scan

/-- The tokens of a YAML text. -/
def tokens (text : List Char) : Except Fault (List Token) :=
  if text.all isAllowed then
    Scan.toEnd (text.length + 1) ⟨Cursor.start text, #[], -1, [], true, [none]⟩
  else .error .controlCharacter

end Briefing.Yaml
