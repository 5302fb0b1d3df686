import Briefing.Shell.Regex
import Briefing.Shell.Utility.Basic
import Briefing.Text.White

/-!
# Filters

The utilities that read a text and write another one.
-/

namespace Briefing.Shell.Utility

def cat : Utility := fun r =>
  let (_, operands) := splitOptions [] r.arguments
  let (bytes, errors) := contents r "cat" operands
  reports r operands bytes errors

/-- The first bytes or lines of a text, with the line break of the last line if it has one. -/
def firstLines (n : Nat) (bytes : List UInt8) : List UInt8 :=
  match n, bytes with
  | 0, _ | _, [] => []
  | n + 1, b :: bytes => b :: firstLines (if b = 0x0a then n else n + 1) bytes
termination_by bytes.length

/-- The bytes without their last lines. -/
def withoutLastLines (n : Nat) (bytes : List UInt8) : List UInt8 :=
  let lines := bytes.splitOn 0x0a
  let whole := if lines.getLast? = some [] then lines.length - 1 else lines.length
  firstLines (whole - n) bytes

/-- The last lines of a text. -/
def lastLines (n : Nat) (bytes : List UInt8) : List UInt8 :=
  let (body, last) : List UInt8 × List UInt8 := match bytes.reverse with
    | 0x0a :: rest => (rest, [0x0a])
    | rest => (rest, [])
  ([0x0a].intercalate ((body.splitOn 0x0a).take n)).reverse ++ last

/-- The lines from a number on, which counts from one. -/
def linesFrom : Nat → List UInt8 → List UInt8
  | 0, bytes | 1, bytes => bytes
  | n + 2, bytes => linesFrom (n + 1) ((bytes.dropWhile (· ≠ 0x0a)).drop 1)

/-- How much of its operands a utility writes: a number that may stand with its unit, `n` for lines
or `c` for bytes, or alone. -/
def readAmount (options : List (Char × String)) : Char × String :=
  match options.find? fun (c, _) => c = 'n' || c = 'c' with
  | some (unit, amount) => (unit, amount)
  | none =>
    let digits := (options.map (·.1)).filter Char.isDigit
    ('n', if digits.isEmpty then "10" else String.ofList digits)

/-- Writes a part of each operand, with its name above it if there are more than one. -/
def writeParts (r : Request) (program : String)
    (part : Char → List Char → List UInt8 → List UInt8) : Effect :=
  let (options, operands) := splitOptions ['n', 'c'] r.arguments
  let (unit, amount) := readAmount options
  let named := fun operand => program ++ ": cannot open '" ++ operand ++ "' for reading"
  let (found, errors) := sources r operands named
  let parts := found.zipIdx.map fun ((name, bytes), i) =>
    let heading := if operands.length ≤ 1 || given options 'q' then ""
      else (if i = 0 then "" else "\n") ++ "==> " ++ name ++ " <==\n"
    Text.encode heading.toList ++ part unit amount.toList bytes.toList
  reports r operands (ofBytes parts.flatten) errors

def head : Utility := fun r =>
  writeParts r "head" fun unit amount bytes =>
    match amount with
    | '-' :: digits =>
      let n := (Text.readNat? 10 digits).getD 0
      if unit = 'c' then bytes.take (bytes.length - n) else withoutLastLines n bytes
    | digits =>
      let n := (Text.readNat? 10 digits).getD 0
      if unit = 'c' then bytes.take n else firstLines n bytes

def tail : Utility := fun r =>
  writeParts r "tail" fun unit amount bytes =>
    match amount with
    | '+' :: digits =>
      let n := (Text.readNat? 10 digits).getD 0
      if unit = 'c' then bytes.drop (n - 1) else linesFrom n bytes
    | digits =>
      let n := (Text.readNat? 10 (digits.dropWhile (· = '-'))).getD 0
      if unit = 'c' then bytes.drop (bytes.length - n) else lastLines n bytes

/-- The numbers of lines, words, characters and bytes of a text. -/
def countsOf (bytes : ByteArray) : List (Char × Nat) :=
  let text := (Text.decodeBytes bytes).toList
  let words := ((text.splitOnP Text.isWhite).filter (!·.isEmpty)).length
  [('l', text.count '\n'), ('w', words), ('m', bytes.size), ('c', bytes.size)]

def wc : Utility := fun r =>
  let (options, operands) := splitOptions [] r.arguments
  let (found, errors) := sources r operands fun operand => "wc: " ++ operand
  let pick := fun (counts : List (Char × Nat)) => (counts.filter fun (c, _) =>
    if options.isEmpty then c ≠ 'm' else given options c).map (·.2)
  let total := found.foldl (fun sum (_, bytes) =>
    List.zipWith (fun (c, m) (_, n) => (c, m + n)) sum (countsOf bytes)) (countsOf ByteArray.empty)
  let size := (total.lookup 'c').getD 0
  let width :=
    if (pick total).length = 1 && operands.length ≤ 1 then 1
    else if operands.isEmpty then 7
    else (Nat.toDigits 10 size).length
  let line := fun (counts : List (Char × Nat)) (name : String) =>
    [' '].intercalate ((pick counts).map (columnOf width)) ++
      if name.isEmpty then [] else ' ' :: name.toList
  let lines := found.map fun (name, bytes) => line (countsOf bytes) name
  let totals := if operands.length ≤ 1 then [] else [line total "total"]
  reports r operands (ofLines (lines ++ totals)) errors

/-- The characters of a set of `tr`: ranges, classes and escapes. -/
def readTrSet : Nat → List Char → List Char
  | 0, _ | _, [] => []
  | fuel + 1, c :: s =>
    let classes : List (String × (Char → Bool)) :=
      [("[:upper:]", Char.isUpper), ("[:lower:]", Char.isLower), ("[:digit:]", Char.isDigit),
        ("[:alpha:]", Char.isAlpha), ("[:alnum:]", Char.isAlphanum),
        ("[:space:]", fun c => c = ' ' || 9 ≤ c.toNat && c.toNat ≤ 13)]
    match classes.findSome? fun (name, p) => (name.toList.isPrefixOf? (c :: s)).map (p, ·) with
    | some (p, r) => ((List.range 128).map Char.ofNat).filter p ++ readTrSet fuel r
    | none =>
      let (c, s) := match c, s with
        | '\\', e :: s =>
          if e = 'n' then ('\n', s) else if e = 't' then ('\t', s)
          else if e = 'r' then ('\r', s)
          else if '0' ≤ e && e ≤ '7' then
            let (b, r) := octalByte 3 (e :: s)
            (Char.ofNat b.toNat, r)
          else (e, s)
        | c, s => (c, s)
      match s with
      | '-' :: e :: s =>
        ((List.range (e.toNat + 1 - c.toNat)).map fun i => Char.ofNat (c.toNat + i)) ++
          readTrSet fuel s
      | s => c :: readTrSet fuel s

/-- The text without repetitions of a character of a set. -/
def squeeze (set : Char → Bool) : List Char → List Char
  | a :: b :: s => if a = b ∧ set a then squeeze set (b :: s) else a :: squeeze set (b :: s)
  | s => s

/-- What is said about operands that are missing. -/
def trFault (operands : List String) : String :=
  match operands.getLast? with
  | some operand =>
    "missing operand after '" ++ operand ++ "'\nTwo strings must be given when translating."
  | none => "missing operand"

def tr : Utility := fun r =>
  let (options, operands) := splitOptions [] r.arguments
  let needed := if given options 'd' || given options 's' then 1 else 2
  if operands.length < needed then misused r "tr" (trFault operands)
  else
    -- Bytes are taken for characters, so that all of them stay what they are.
    let asChars := fun (bytes : List UInt8) => bytes.map fun b => Char.ofNat b.toNat
    let text := asChars r.input.toList
    let set := fun (i : Nat) =>
      let s := asChars (Text.encode (operands.getD i "").toList)
      readTrSet (s.length + 1) s
    let first := set 0
    let inFirst := fun c => first.contains c != (given options 'c' || given options 'C')
    let text :=
      if given options 'd' then text.filter (!inFirst ·)
      else if operands.length < 2 then squeeze inFirst text
      else
        let second := set 1
        let last := second.getLast?.getD ' '
        let mapped := text.map fun c =>
          if given options 'c' then if inFirst c then last else c
          else match first.idxOf? c with
            | some i => second.getD i last
            | none => c
        if given options 's' then squeeze second.contains mapped else mapped
    filters r [] (ofBytes (text.map fun c => UInt8.ofNat c.toNat)) "" 0

/-- All matches in a line that are not empty. -/
def matchesIn (regex : Regex) : Nat → Bool → List Char → List (List Char)
  | 0, _, _ => []
  | fuel + 1, atStart, line =>
    match regex.find atStart line with
    | none => []
    | some (before, rest, _) =>
      let found := (line.drop before.length).take (line.length - before.length - rest.length)
      if found.isEmpty then matchesIn regex fuel false (rest.drop 1)
      else found :: matchesIn regex fuel false rest

/-- The expression that patterns stand for; `whole` tells whether it has to match the line. -/
def grepRegex (extended fixed whole : Bool) (patterns : List (List Char)) : Regex :=
  let each := patterns.map fun pattern =>
    if fixed then Regex.literal pattern else Regex.ofText extended pattern
  let any := each.tail.foldl Regex.choice (each.headD .nothing)
  if whole then .sequence .lineStart (.sequence any .lineEnd) else any

def grep : Utility := fun r =>
  let (options, operands) := splitOptions ['e'] r.arguments
  let patterns := options.filterMap fun (c, pattern) => if c = 'e' then some pattern else none
  let (patterns, operands) := if patterns.isEmpty then (operands.take 1, operands.tail)
    else (patterns, operands)
  if patterns.isEmpty then
    complains r ("Usage: grep [OPTION]... PATTERNS [FILE]...\n" ++
      "Try 'grep --help' for more information.\n") 2
  else
    let has := given options
    let fold := fun (s : List Char) => if has 'i' then s.map Char.toLower else s
    let lines := patterns.flatMap fun pattern => (fold pattern.toList).splitOn '\n'
    let regex := grepRegex (has 'E') (has 'F') (has 'x') lines
    let (found, errors) := sources r operands fun operand => "grep: " ++ operand
    let named := (operands.length > 1 || has 'H') && !has 'h'
    let pickedOf := fun (bytes : ByteArray) => (linesIn bytes).zipIdx.filter fun (line, _) =>
      ((regex.find true (fold line)).isSome) != has 'v'
    let shown := found.flatMap fun (name, bytes) =>
      let picked := pickedOf bytes
      let start := if named then name.toList ++ [':'] else []
      if has 'l' then if picked.isEmpty then [] else [name.toList]
      else if has 'c' then [start ++ Nat.toDigits 10 picked.length]
      else
        picked.flatMap fun (line, i) =>
          let start := if has 'n' then start ++ Nat.toDigits 10 (i + 1) ++ [':'] else start
          let texts := if has 'o' then matchesIn regex (line.length + 1) true line else [line]
          texts.map (start ++ ·)
    let unmatched := found.all fun (_, bytes) => (pickedOf bytes).isEmpty
    filters r operands (ofLines (if has 'q' then [] else shown)) (if has 's' then "" else errors)
      (if !errors.isEmpty then 2 else if unmatched then 1 else 0)

/-- The items without those that repeat the one before, each with the number of its repetitions. -/
def runs : List (List Char) → List (List Char × Nat)
  | [] => []
  | a :: s =>
    match runs s with
    | (b, n) :: rest => if a = b then (b, n + 1) :: rest else (a, 1) :: (b, n) :: rest
    | [] => [(a, 1)]

def sort : Utility := fun r =>
  let (options, operands) := splitOptions [] r.arguments
  let (lines, errors) := linesOf r "sort: cannot read" operands
  let value := fun (s : List Char) =>
    (readInteger ((s.dropWhile Text.isWhite).takeWhile fun c => c.isDigit || c = '-')).1
  let le := fun (a b : List Char) =>
    if given options 'n' ∧ value a ≠ value b then decide (value a ≤ value b)
    else decide (String.ofList a ≤ String.ofList b)
  let sorted := lines.mergeSort fun a b => if given options 'r' then le b a else le a b
  let shown := if given options 'u' then (runs sorted).map (·.1) else sorted
  filters r operands (ofLines shown) errors (if errors.isEmpty then 0 else 2)

def uniq : Utility := fun r =>
  let (options, operands) := splitOptions [] r.arguments
  let (lines, errors) := linesOf r "uniq" operands
  let wanted := (runs lines).filter fun (_, n) =>
    if given options 'd' then n > 1 else if given options 'u' then n = 1 else true
  let shown := wanted.map fun (line, n) =>
    if given options 'c' then columnOf 7 n ++ ' ' :: line else line
  reports r operands (ofLines shown) errors

/-- The positions that a list of `cut` names, from one on. -/
def readCutList (s : List Char) (i : Nat) : Bool :=
  (s.splitOn ',').any fun range =>
    match range.splitOn '-' with
    | [a, b] =>
      ((Text.readNat? 10 a).getD 1 ≤ i : Bool) && (Text.readNat? 10 b).all (i ≤ ·)
    | _ => Text.readNat? 10 range = some i

def cut : Utility := fun r =>
  let (options, operands) := splitOptions ['d', 'f', 'c', 'b'] r.arguments
  let (bytes, errors) := contents r "cut" operands
  let separator := ((options.lookup 'd').bind fun d => (Text.encode d.toList).head?).getD 0x09
  let pick := fun {α : Type} (list : String) (items : List α) =>
    (items.zipIdx.filter fun (_, i) => readCutList list.toList (i + 1)).map (·.1)
  let parts := bytes.toList.splitOn 0x0a
  let lines := if parts.getLast? = some [] then parts.dropLast else parts
  let shown := lines.filterMap fun line =>
    match options.lookup 'f', (options.lookup 'c').or (options.lookup 'b') with
    | some list, _ =>
      if line.contains separator then
        some ([separator].intercalate (pick list (line.splitOn separator)))
      else if given options 's' then none
      else some line
    | none, some list => some (pick list line)
    | none, none => some line
  reports r operands (ofBytes (shown.flatMap (· ++ [0x0a]))) errors

end Briefing.Shell.Utility
