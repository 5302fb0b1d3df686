import Briefing.Shell.Pattern
import Briefing.Text.Digit

/-!
# Regular expressions

An expression is made of characters, the ends of the line and groups by repetition, sequence and
choice. The first match in a text is the leftmost one; repetitions take as much as they can, and
of two choices the one with the longer match is taken.
-/

namespace Briefing.Shell

/-- A regular expression. -/
inductive Regex
  | nothing
  | one (w : Wild)
  | lineStart
  | lineEnd
  | group (number : Nat) (body : Regex)
  | sequence (first second : Regex)
  | choice (first second : Regex)
  | repetition (least : Nat) (most : Option Nat) (body : Regex)
  deriving Inhabited

namespace Regex

/-! ## Reading -/

/-- The signs of an expression. In the extended form they stand for themselves if escaped, in the
basic form if not. -/
inductive Sign
  | opening
  | closing
  | bar
  | plus
  | question
  | brace
  deriving DecidableEq

/-- The signs with their characters. -/
def signs : List (Char × Sign) :=
  [('(', .opening), (')', .closing), ('|', .bar), ('+', .plus), ('?', .question),
    ('\x7b', .brace)]

/-- The sign at the start of a text, and the rest. -/
def readSign? (extended : Bool) : List Char → Option (Sign × List Char)
  | '\\' :: c :: s => if extended then none else (signs.lookup c).map (·, s)
  | c :: s => if extended then (signs.lookup c).map (·, s) else none
  | [] => none

/-- The bounds of a repetition between braces, whose opening one is read, and the rest. -/
def readBounds? (extended : Bool) (s : List Char) : Option ((Nat × Option Nat) × List Char) :=
  let body := s.takeWhile fun c => c.isDigit || c = ','
  let rest := s.drop body.length
  let bounds := match body.splitOn ',' with
    | [n] => (Text.readNat? 10 n).map fun n => (n, some n)
    | [least, most] => some ((Text.readNat? 10 least).getD 0, Text.readNat? 10 most)
    | _ => none
  match extended, rest with
  | true, '\x7d' :: rest | false, '\\' :: '\x7d' :: rest => bounds.map (·, rest)
  | _, _ => none

/-- What the signs of repetition make of an expression, and the rest. -/
def readRepetitions (extended : Bool) : Nat → Regex → List Char → Regex × List Char
  | 0, r, s => (r, s)
  | fuel + 1, r, s =>
    match s, readSign? extended s with
    | '*' :: s, _ => readRepetitions extended fuel (.repetition 0 none r) s
    | _, some (.plus, s) => readRepetitions extended fuel (.repetition 1 none r) s
    | _, some (.question, s) => readRepetitions extended fuel (.repetition 0 (some 1) r) s
    | _, some (.brace, rest) =>
      match readBounds? extended rest with
      | some ((least, most), rest) =>
        readRepetitions extended fuel (.repetition least most r) rest
      | none => (r, s)
    | _, _ => (r, s)

/-- Whether the expression ends here. -/
def endsHere (extended : Bool) (s : List Char) : Bool :=
  s.isEmpty || ((readSign? extended s).any fun (sign, _) => sign = .closing || sign = .bar)

/-- What is read of an expression: it, the number of groups so far, and the rest. -/
structure Parsed where
  regex : Regex
  groups : Nat
  rest : List Char

mutual

/-- Choices between sequences. -/
def readChoices (extended : Bool) : Nat → Nat → List Char → Parsed
  | 0, groups, s => ⟨.nothing, groups, s⟩
  | fuel + 1, groups, s =>
    let first := readSequence extended fuel true groups s
    match readSign? extended first.rest with
    | some (.bar, rest) =>
      let second := readChoices extended fuel first.groups rest
      { second with regex := .choice first.regex second.regex }
    | _ => first

/-- Expressions one behind the other; `start` tells whether none was read yet. -/
def readSequence (extended : Bool) : Nat → Bool → Nat → List Char → Parsed
  | 0, _, groups, s => ⟨.nothing, groups, s⟩
  | fuel + 1, start, groups, s =>
    if endsHere extended s then ⟨.nothing, groups, s⟩
    else
      let first := readAtom extended fuel start groups s
      let (repeated, rest) := readRepetitions extended fuel first.regex first.rest
      let second := readSequence extended fuel false first.groups rest
      { second with regex := .sequence repeated second.regex }

/-- One expression without the repetitions of it. -/
def readAtom (extended : Bool) : Nat → Bool → Nat → List Char → Parsed
  | 0, _, groups, s => ⟨.nothing, groups, s⟩
  | fuel + 1, start, groups, s =>
    match readSign? extended s with
    | some (.opening, rest) =>
      let body := readChoices extended fuel (groups + 1) rest
      let rest := match readSign? extended body.rest with
        | some (_, rest) => rest
        | none => body.rest
      ⟨.group (groups + 1) body.regex, body.groups, rest⟩
    | _ =>
      let single := fun (w : Wild) (s : List Char) => Parsed.mk (.one w) groups s
      match s with
      | '\\' :: 'n' :: s => single (.char '\n') s
      | '\\' :: 't' :: s => single (.char '\t') s
      | '\\' :: 's' :: s => single (.oneOf false [(' ', ' '), ('\t', '\x0d')]) s
      | '\\' :: 'w' :: s =>
        single (.oneOf false [('0', '9'), ('A', 'Z'), ('_', '_'), ('a', 'z')]) s
      | '\\' :: c :: s => single (.char c) s
      | '.' :: s => single .anyChar s
      | '^' :: s => if start || extended then ⟨.lineStart, groups, s⟩ else single (.char '^') s
      | '$' :: s =>
        if endsHere extended s || extended then ⟨.lineEnd, groups, s⟩ else single (.char '$') s
      | '[' :: s =>
        match readSet ['^'] s with
        | some (set, n) => single set (s.drop n)
        | none => single (.char '[') s
      | c :: s => single (.char c) s
      | [] => ⟨.nothing, groups, []⟩

end

/-- The expression that a text writes. -/
def ofText (extended : Bool) (s : List Char) : Regex :=
  (readChoices extended (4 * s.length + 4) 0 s).regex

/-- The expression for a text itself. -/
def literal (s : List Char) : Regex := s.foldr (fun c r => .sequence (.one (.char c)) r) .nothing

/-! ## Matching -/

/-- The texts of groups, the latest first. -/
abbrev Groups := List (Nat × List Char)

/-- What is left of a text behind a match, and the groups of the match. -/
abbrev Matched := List Char × Groups

/-- A match of an expression at the start of a text, behind which `next` finds a match too;
`atStart` tells whether the line starts here. -/
def matchThen : Nat → Regex → Bool → List Char → Groups →
    (Bool → List Char → Groups → Option Matched) → Option Matched
  | 0, _, _, _, _, _ => none
  | fuel + 1, r, atStart, s, groups, next =>
    match r with
    | .nothing => next atStart s groups
    | .one w =>
      match s with
      | c :: s => if w.accepts c then next false s groups else none
      | [] => none
    | .lineStart => if atStart then next atStart s groups else none
    | .lineEnd => if s.isEmpty then next atStart s groups else none
    | .group n body =>
      matchThen fuel body atStart s groups fun atStart rest groups =>
        next atStart rest ((n, s.take (s.length - rest.length)) :: groups)
    | .sequence first second =>
      matchThen fuel first atStart s groups fun atStart s groups =>
        matchThen fuel second atStart s groups next
    | .choice first second =>
      match matchThen fuel first atStart s groups next,
          matchThen fuel second atStart s groups next with
      | some a, some b => some (if b.1.length < a.1.length then b else a)
      | a, b => a.or b
    | .repetition least most body =>
      let again := if most = some 0 then none else
        matchThen fuel body atStart s groups fun atStart' rest groups =>
          let others := repetition (least - 1) (most.map (· - 1)) body
          if rest.length < s.length || least ≠ 0 then
            matchThen fuel others atStart' rest groups next
          else none
      again.or (if least = 0 then next atStart s groups else none)

/-- How often an expression may be repeated, and how large it is. -/
def size : Regex → Nat
  | .group _ body => body.size + 1
  | .sequence a b | .choice a b => a.size + b.size + 1
  | .repetition least _ body => body.size + least + 1
  | _ => 1

/-- The first match in a text: what stands before it, what is left, and the groups. -/
def find (r : Regex) (atStart : Bool) (s : List Char) : Option (List Char × List Char × Groups) :=
  let fuel := (r.size + 2) * (s.length + 2)
  match r.matchThen fuel atStart s [] fun _ s groups => some (s, groups) with
  | some (rest, groups) => some ([], rest, groups)
  | none =>
    match s with
    | [] => none
    | c :: s => (find r false s).map fun (before, rest) => (c :: before, rest)

/-! ## Replacing -/

/-- A replacement with the match and its groups in their places. -/
def fillIn (groups : Groups) (matched : List Char) : List Char → List Char
  | '\\' :: c :: s =>
    let text := if c = '0' then matched
      else if c.isDigit then (groups.lookup (c.toNat - 48)).getD []
      else if c = 'n' then ['\n'] else [c]
    text ++ fillIn groups matched s
  | '&' :: s => matched ++ fillIn groups matched s
  | c :: s => c :: fillIn groups matched s
  | [] => []

/-- Replaces matches in a text: the one of a number, counted from one, or every one; none if there
is no such match. -/
def substitute (r : Regex) (replacement : List Char) (every : Bool) :
    Nat → Nat → Bool → List Char → Option (List Char)
  | 0, _, _, _ => none
  | fuel + 1, number, atStart, s =>
    match r.find atStart s with
    | none => none
    | some (before, rest, groups) =>
      let matched := (s.drop before.length).take (s.length - before.length - rest.length)
      let replaced := number ≤ 1
      let start := before ++ if replaced then fillIn groups matched replacement else matched
      if replaced && !every then some (start ++ rest)
      else
        -- Behind an empty match one character is passed over.
        let (passed, behind) := if matched.isEmpty then rest.splitAt 1 else ([], rest)
        let others := if matched.isEmpty && rest.isEmpty then none
          else substitute r replacement every fuel (number - 1) false behind
        match others with
        | some text => some (start ++ passed ++ text)
        | none => if replaced then some (start ++ rest) else none

end Regex

end Briefing.Shell
