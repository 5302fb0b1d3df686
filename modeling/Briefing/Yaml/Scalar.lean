import Briefing.Text.Digit
import Briefing.Yaml.Cursor

/-!
# Scalars of a YAML text

A scalar is plain, quoted or a block. Plain and quoted scalars fold: between two runs of
characters, gaps within a line are kept, one line break becomes a blank and further breaks are kept
without the first. A block scalar keeps its lines below its indentation, or folds those that do not
start with a gap, and its header says which of the breaks at its end are kept.
-/

namespace Briefing.Yaml

/-! ## What stands between two runs -/

/-- Gaps and breaks between two runs of characters of a scalar. -/
structure Between where
  /-- The gaps before the first break. -/
  gaps : List Char
  /-- Whether there was a break. -/
  broken : Bool
  firstBreak : List Char
  moreBreaks : List Char

namespace Between

def nothing : Between := ⟨[], false, [], []⟩

/-- After a break that was escaped. -/
def escapedBreak : Between := ⟨[], true, [], []⟩

/-- What the scalar reads for it. -/
def text (b : Between) : List Char :=
  if !b.broken then b.gaps
  else if b.firstBreak = ['\n'] then (if b.moreBreaks.isEmpty then [' '] else b.moreBreaks)
  else b.firstBreak ++ b.moreBreaks

/-- Reads gaps and breaks. A tab is refused left of the column `tabLimit` on a line after the
first. -/
def read (tabLimit : Option Int) (b : Between) (c : Cursor) : Except Fault (Between × Cursor) :=
  match _ : c.rest with
  | [] => .ok (b, c)
  | x :: _ =>
    if isGap x then
      if b.broken && x = '\t' && tabLimit.any (fun n => (c.column : Int) < n) then
        .error .tabIndentation
      else
        read tabLimit (if b.broken then b else { b with gaps := b.gaps ++ [x] }) (c.skip 1)
    else if _ : isBreak x then
      let b :=
        if b.broken then { b with moreBreaks := b.moreBreaks ++ c.breakText }
        else ⟨[], true, c.breakText, b.moreBreaks⟩
      read tabLimit b c.skipBreak
    else .ok (b, c)
termination_by c.rest.length
decreasing_by
  · simp_all [Cursor.skip]
  · exact c.skipBreak_length (by simp_all [atLineEnd]) (by simp_all)

end Between

/-! ## Plain scalars -/

/-- The number of characters that a plain scalar takes without a gap. Within brackets it ends at
brackets and commas, and everywhere before a colon with a gap after it. -/
def plainRun (flow : Bool) : List Char → Except Fault Nat
  | [] => .ok 0
  | x :: rest =>
    if isGap x || isBreak x then .ok 0
    else if flow && x = ':' && startsWithAny [',', '?', '[', ']', '\x7b', '\x7d'] rest then
      .error .misplacedColon
    else if (x = ':' && atGap rest) ||
        (flow && [',', '[', ']', '\x7b', '\x7d'].contains x) then .ok 0
    else (plainRun flow rest).map (· + 1)

/-- Reads a plain scalar on from the text `acc` and what stands after it. -/
def plainFrom (flow : Bool) (indent : Int) :
    Nat → List Char → Between → Cursor → Except Fault (List Char × Bool × Cursor)
  | 0, acc, b, c => .ok (acc, b.broken, c)
  | fuel + 1, acc, b, c => do
    if c.atDocumentMark || startsWithAny ['#'] c.rest then return (acc, b.broken, c)
    let n ← plainRun flow c.rest
    let (acc, b) :=
      if n = 0 then (acc, b) else (acc ++ b.text ++ c.rest.take n, Between.nothing)
    let c := c.skip n
    if c.rest.isEmpty || !atGap c.rest then return (acc, b.broken, c)
    let (b, c) ← b.read (some indent) c
    if !flow && (c.column : Int) < indent then return (acc, b.broken, c)
    plainFrom flow indent fuel acc b c

/-- A plain scalar indented by `indent` at least, and whether a break followed it. -/
def plain (flow : Bool) (indent : Int) (c : Cursor) :
    Except Fault (List Char × Bool × Cursor) :=
  plainFrom flow indent (c.rest.length + 1) [] .nothing c

/-! ## Quoted scalars -/

/-- The character that a one-letter escape stands for. -/
def escapeLetter? (c : Char) : Option Char :=
  match c with
  | '0' => some '\x00'
  | 'a' => some '\x07'
  | 'b' => some '\x08'
  | 't' | '\t' => some '\t'
  | 'n' => some '\n'
  | 'v' => some '\x0b'
  | 'f' => some '\x0c'
  | 'r' => some '\r'
  | 'e' => some '\x1b'
  | ' ' | '"' | '/' | '\\' => some c
  | 'N' => some '\x85'
  | '_' => some '\xa0'
  | 'L' => some '\u2028'
  | 'P' => some '\u2029'
  | _ => none

/-- The number of digits of an escape by code point. -/
def escapeDigits (c : Char) : Nat :=
  if c = 'x' then 2 else if c = 'u' then 4 else if c = 'U' then 8 else 0

/-- The character of an escape, whose letter is `c`, and the number of digits after that. -/
def escape (c : Char) (rest : List Char) : Except Fault (Char × Nat) :=
  match escapeLetter? c with
  | some x => .ok (x, 0)
  | none =>
    let n := escapeDigits c
    if n = 0 ∨ rest.length < n then .error .badEscape
    else
      match Text.readNat? 16 (rest.take n) with
      | some v => if h : v.isValidChar then .ok (Char.ofNatAux v h, n) else .error .badEscape
      | none => .error .badEscape

/-- What a run of characters within quotes reads, how many characters it takes, and whether it
ends with a backslash that escapes the line break after it. -/
structure QuotedRun where
  text : List Char
  length : Nat
  escapesBreak : Bool

/-- Puts a character, written in `n` characters, before a run. -/
def QuotedRun.cons (x : Char) (n : Nat) (run : QuotedRun) : QuotedRun :=
  ⟨x :: run.text, run.length + n, run.escapesBreak⟩

/-- The run of characters up to a gap, a break or the closing quote. -/
def quotedRun (single : Bool) : List Char → Except Fault QuotedRun
  | [] => .ok ⟨[], 0, false⟩
  | x :: rest =>
    if isGap x || isBreak x then .ok ⟨[], 0, false⟩
    else if single then
      if x = '\'' then
        match rest with
        | '\'' :: rest => (quotedRun single rest).map (·.cons '\'' 2)
        | _ => .ok ⟨[], 0, false⟩
      else (quotedRun single rest).map (·.cons x 1)
    else if x = '"' then .ok ⟨[], 0, false⟩
    else if x = '\\' then
      match rest with
      | [] => .error .badEscape
      | y :: rest =>
        if isBreak y then .ok ⟨[], 1, true⟩
        else
          match escape y rest with
          | .error e => .error e
          | .ok (z, n) => (quotedRun single (rest.drop n)).map (·.cons z (n + 2))
    else (quotedRun single rest).map (·.cons x 1)
termination_by s => s.length
decreasing_by all_goals (try simp only [List.length_cons, List.length_drop]); omega

/-- Reads a quoted scalar on from the text `acc` to behind its closing quote. -/
def quotedFrom (single : Bool) : Nat → List Char → Cursor → Except Fault (List Char × Cursor)
  | 0, _, _ => .error .unclosedQuote
  | fuel + 1, acc, c => do
    if c.atDocumentMark then throw .documentMarkInQuote
    if c.rest.isEmpty then throw .unclosedQuote
    let run ← quotedRun single c.rest
    let acc := acc ++ run.text
    let c := c.skip run.length
    let (b, c) := if run.escapesBreak then (.escapedBreak, c.skipBreak) else (.nothing, c)
    if startsWithAny [if single then '\'' else '"'] c.rest then return (acc, c.skip 1)
    let (b, c) ← Between.read none b c
    quotedFrom single fuel (acc ++ b.text) c

/-- A quoted scalar, from behind its opening quote. -/
def quoted (single : Bool) (c : Cursor) : Except Fault (List Char × Cursor) :=
  quotedFrom single (c.rest.length + 1) [] c

/-! ## Block scalars -/

/-- Which of the breaks at the end of a block scalar are kept. -/
inductive Chomp
  /-- None. -/
  | strip
  /-- The first. -/
  | clip
  /-- All. -/
  | keep
  deriving DecidableEq

/-- The header of a block scalar: how its end is chomped and, if given, its indentation. -/
structure Header where
  chomp : Chomp
  indent : Option Nat

/-- Which chomping a character asks for. -/
def chomp? (c : Char) : Option Chomp :=
  if c = '+' then some .keep else if c = '-' then some .strip else none

/-- Reads an indentation indicator, if there is one. -/
def indentIndicator (c : Cursor) : Except Fault (Option Nat × Cursor) :=
  match c.rest with
  | d :: _ =>
    if !d.isDigit then .ok (none, c)
    else if d = '0' then .error .badBlockHeader
    else .ok (some (d.toNat - 0x30), c.skip 1)
  | [] => .ok (none, c)

/-- Reads the header of a block scalar with the break that ends it. -/
def header (c : Cursor) : Except Fault (Header × Cursor) := do
  let first := c.rest.head?.bind chomp?
  let (h, c) ← match first with
    | some chomp => do
      let (indent, c) ← indentIndicator (c.skip 1)
      pure (Header.mk chomp indent, c)
    | none => do
      let (indent, c) ← indentIndicator c
      match indent, c.rest.head?.bind chomp? with
      | some _, some chomp => pure (Header.mk chomp indent, c.skip 1)
      | _, _ => pure (Header.mk .clip indent, c)
  let c := c.skipWhile isGap
  let c := if startsWithAny ['#'] c.rest then c.skipWhile (!isBreak ·) else c
  if atLineEnd c.rest then return (h, c.skipBreak) else throw .badBlockHeader

/-- Reads blank lines and the indentation of the line after them. Without an indentation all
blanks are taken. Gives the breaks and the greatest column reached. -/
def blankLines (indent : Option Nat) (widest : Nat) (c : Cursor) :
    Except Fault (List Char × Nat × Cursor) :=
  let blanks := (c.rest.takeWhile (· = ' ')).length
  let c' := c.skip (match indent with
    | some n => min blanks (n - c.column)
    | none => blanks)
  let widest := max widest c'.column
  if startsWithAny ['\t'] c'.rest && indent.all (c'.column < ·) then .error .tabIndentation
  else if _ : atLineEnd c'.rest ∧ c'.rest ≠ [] then
    (blankLines indent widest c'.skipBreak).map fun (breaks, widest, d) =>
      (c'.breakText ++ breaks, widest, d)
  else .ok ([], widest, c')
termination_by c.rest.length
decreasing_by
  rename_i h
  exact Nat.lt_of_lt_of_le (Cursor.skipBreak_length _ h.1 h.2) (Cursor.skip_length_le _ _)

/-- What a block scalar has read so far: its text, the break that ended its last line, the blank
lines after that, and whether that line started with a gap. -/
structure BlockState where
  text : List Char
  lastBreak : List Char
  blankLines : List Char
  startedWithGap : Bool

/-- Reads the lines of a block scalar. -/
def blockLines (literal : Bool) (indent : Nat) :
    Nat → BlockState → Cursor → Except Fault (BlockState × Cursor)
  | 0, s, c => .ok (s, c)
  | fuel + 1, s, c => do
    if c.column ≠ indent || c.rest.isEmpty then return (s, c)
    let gap := startsWithAny [' ', '\t'] c.rest
    let folds := !literal && s.lastBreak = ['\n'] && !s.startedWithGap && !gap
    let joint := if folds then (if s.blankLines.isEmpty then [' '] else []) else s.lastBreak
    let line := c.rest.takeWhile (!isBreak ·)
    let c := c.skip line.length
    let lastBreak := c.breakText
    let (breaks, _, c) ← blankLines (some indent) 0 c.skipBreak
    blockLines literal indent fuel
      ⟨s.text ++ joint ++ s.blankLines ++ line, lastBreak, breaks, gap⟩ c

/-- A block scalar, from behind its indicator, in a collection indented by `outer`. Without an
indentation in its header it has that of its first line that is not blank, or of the longest blank
line before that, but more than the collection. -/
def block (literal : Bool) (outer : Int) (c : Cursor) : Except Fault (List Char × Cursor) := do
  let (h, c) ← header c
  let given := h.indent.map fun n => if 0 ≤ outer then outer.toNat + n else n
  let (breaks, widest, c) ← blankLines given 0 c
  let indent := given.getD (max widest (max (outer + 1).toNat 1))
  let (s, c) ← blockLines literal indent (c.rest.length + 1) ⟨[], [], breaks, false⟩ c
  return (s.text ++ (if h.chomp = .strip then [] else s.lastBreak) ++
    (if h.chomp = .keep then s.blankLines else []), c)

end Briefing.Yaml
