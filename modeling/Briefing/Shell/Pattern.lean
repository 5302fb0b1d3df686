import Briefing.Files.Disk

/-!
# Patterns

A pattern stands for texts: a star for any text, a question mark for any character, a set in
brackets for the characters in it. Quoted characters stand for themselves. As a path a pattern
stands for the files that it matches.
-/

namespace Briefing.Shell

/-- A part of a pattern. -/
inductive Wild
  | char (c : Char)
  | anyChar
  | anyText
  | oneOf (negated : Bool) (ranges : List (Char × Char))
  deriving DecidableEq, Repr

/-- A pattern is a sequence of parts. -/
abbrev Pattern := List Wild

/-- A character, and whether it was quoted. -/
abbrev Marked := Char × Bool

/-- Classes of characters that a set may name, as ranges. -/
def namedClasses : List (String × List (Char × Char)) :=
  [("[:alnum:]", [('0', '9'), ('A', 'Z'), ('a', 'z')]), ("[:alpha:]", [('A', 'Z'), ('a', 'z')]),
    ("[:blank:]", [(' ', ' '), ('\t', '\t')]), ("[:digit:]", [('0', '9')]),
    ("[:lower:]", [('a', 'z')]),
    ("[:punct:]", [('!', '/'), (':', '@'), ('[', '\x60'), ('\x7b', '~')]),
    ("[:space:]", [(' ', ' '), ('\t', '\x0d')]), ("[:upper:]", [('A', 'Z')]),
    ("[:xdigit:]", [('0', '9'), ('A', 'F'), ('a', 'f')])]

/-- The class that is named at the start of a text, and what follows. -/
def readClass? (s : List Char) : Option (List (Char × Char) × List Char) :=
  namedClasses.findSome? fun (name, ranges) => (name.toList.isPrefixOf? s).map (ranges, ·)

/-- The ranges of a set in brackets up to its end, and what follows. -/
def readRanges : Nat → List Char → Option (List (Char × Char) × List Char)
  | 0, _ | _, [] => none
  | fuel + 1, a :: s =>
    let more := fun (ranges : List (Char × Char)) rest =>
      (readRanges fuel rest).map fun (rs, r) => (ranges ++ rs, r)
    match readClass? (a :: s) with
    | some (ranges, s) => more ranges s
    | none =>
      if a = ']' then some ([], s)
      else
        match s with
        | '-' :: b :: s' => if b = ']' then more [(a, a)] s else more [(a, b)] s'
        | s => more [(a, a)] s

/-- A set in brackets whose opening bracket is read, and how many characters it takes; `signs` are
those that negate a set. -/
def readSet (signs : List Char) (s : List Char) : Option (Wild × Nat) :=
  let negated := s.head?.any signs.contains
  let body := if negated then s.tail else s
  let (first, rest) := match body with
    | ']' :: s => ([(']', ']')], s)
    | s => ([], s)
  (readRanges (rest.length + 1) rest).map fun (rs, r) =>
    (.oneOf negated (first ++ rs), s.length - r.length)

/-- The pattern that marked characters write. -/
def patternOf (fuel : Nat) (s : List Marked) : Pattern :=
  match fuel, s with
  | 0, _ | _, [] => []
  | fuel + 1, (c, quoted) :: s =>
    if quoted then .char c :: patternOf fuel s
    else if c = '*' then .anyText :: patternOf fuel s
    else if c = '?' then .anyChar :: patternOf fuel s
    else if c = '[' then
      match readSet ['!', '^'] (s.map (·.1)) with
      | some (set, n) => set :: patternOf fuel (s.drop n)
      | none => .char c :: patternOf fuel s
    else .char c :: patternOf fuel s

/-- The pattern that marked characters write. -/
def Pattern.ofMarked (s : List Marked) : Pattern := patternOf s.length s

/-- Whether a character is one that the part stands for. -/
def Wild.accepts (w : Wild) (c : Char) : Bool :=
  match w with
  | char c' => c = c'
  | anyChar | anyText => true
  | oneOf negated ranges => ranges.any (fun (a, b) => a ≤ c && c ≤ b) != negated

/-- Whether a pattern stands for a text. -/
def Pattern.covers : Pattern → List Char → Bool
  | [], s => s.isEmpty
  | .anyText :: p, [] => covers p []
  | .anyText :: p, c :: s => covers p (c :: s) || covers (.anyText :: p) s
  | w :: p, c :: s => w.accepts c && covers p s
  | _ :: _, [] => false
termination_by p s => (p.length, s.length)

/-- Whether a pattern stands for more than one text. -/
def Pattern.isWild (p : Pattern) : Bool :=
  p.any fun
    | .char _ => false
    | _ => true

/-- The text that a pattern without wild parts stands for. -/
def Pattern.text (p : Pattern) : List Char :=
  p.filterMap fun
    | .char c => some c
    | _ => none

/-- The text without its shortest or longest start that a pattern stands for. -/
def cutPatternStart (p : Pattern) (longest : Bool) (s : List Char) : List Char :=
  let cuts := (List.range (s.length + 1)).filter fun n => p.covers (s.take n)
  match if longest then cuts.getLast? else cuts.head? with
  | some n => s.drop n
  | none => s

/-- The text without its shortest or longest end that a pattern stands for. -/
def cutPatternEnd (p : Pattern) (longest : Bool) (s : List Char) : List Char :=
  let cuts := (List.range (s.length + 1)).filter fun n => p.covers (s.drop n)
  match if longest then cuts.head? else cuts.getLast? with
  | some n => s.take n
  | none => s

/-- The names in a directory that a pattern stands for; a leading dot has to be written. -/
def namesLike (d : Disk) (directory : Path) (p : Pattern) : List String :=
  match d.find (if directory.text.isEmpty then "." else directory) with
  | .ok (location, .directory _) =>
    let names := if p.head? = some (.char '.') then "." :: ".." :: d.namesIn location
      else (d.namesIn location).filter fun (name : String) => name.toList.head? ≠ some '.'
    names.filter fun (name : String) => p.covers name.toList
  | _ => []

/-- The files below a path that a sequence of patterns, one for each step, leads to. -/
def filesLike (d : Disk) : Path → List Pattern → List String
  | path, [] => if d.pathExists path then [path.text] else []
  | path, p :: ps =>
    let next := fun (name : String) => filesLike d (path.join name) ps
    if p.isWild then (namesLike d path p).flatMap next
    else if p.isEmpty && path.text.isEmpty then filesLike d "/" ps
    else next (String.ofList p.text)

/-- The paths that a word stands for: the files that match it, or itself if there are none. -/
def pathsLike (d : Disk) (word : List Marked) : List String :=
  let itself := String.ofList (word.map (·.1))
  if !(Pattern.ofMarked word).isWild then [itself]
  else
    let steps := (word.splitOnP fun m => m.1 = '/').map Pattern.ofMarked
    match filesLike d "" steps with
    | [] => [itself]
    | files => files

end Briefing.Shell
