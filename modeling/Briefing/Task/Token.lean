import Briefing.Text.Utf8

/-!
# Tokens of a task text

A task text is cut into tokens at every change of character class, at every slash, equals sign and
quote. Cutting loses nothing (`Token.cut_append`) and never fails: a quote that is not matched on
its line is a token of its own.

A slash opens a command where a line starts. Line breaks are tokens, so that this is known from
the token before.
-/

namespace Briefing.Task

/-- The classes of tokens. -/
inductive Token.Kind
  /-- A slash where a line starts. -/
  | commandStart
  /-- A slash anywhere else. -/
  | slash
  | assign
  /-- A quoted text that ends on its line, with its quotes. -/
  | quoted
  /-- A quote that no other matches on its line. -/
  | openQuote
  | term
  | blank
  | lineBreak
  deriving DecidableEq, Repr

/-- A piece of the text, and the number of bytes before it. -/
structure Token where
  kind : Token.Kind
  text : List Char
  offset : Nat
  deriving DecidableEq, Repr

def isBreak (c : Char) : Bool := c = '\n' || c = '\r'

def isGap (c : Char) : Bool := c = ' ' || c = '\t'

def isQuote (c : Char) : Bool := c = '"' || c = '\''

/-- A character of a term: no gap, break, quote, slash or equals sign. -/
def isTermChar (c : Char) : Bool :=
  !(isGap c || isBreak c || isQuote c || c = '/' || c = '=')

namespace Token

/-- What follows the quote `q` up to and with the quote that matches it, and the rest. A backslash
takes the character after it along; a line break before the match leaves the quote open. -/
def closeQuote? (q : Char) : List Char → Option (List Char × List Char)
  | [] => none
  | '\\' :: [] => none
  | '\\' :: c :: s =>
    if isBreak c then none
    else (closeQuote? q s).map fun (body, rest) => ('\\' :: c :: body, rest)
  | c :: s =>
    if isBreak c then none
    else if c = q then some ([c], s)
    else (closeQuote? q s).map fun (body, rest) => (c :: body, rest)

/-- The class of the token that starts with `c`, before `s`, with what the token has after `c` and
what follows the token. -/
def cut (lineStart : Bool) (c : Char) (s : List Char) : Kind × List Char × List Char :=
  if c = '/' then (if lineStart then .commandStart else .slash, [], s)
  else if c = '=' then (.assign, [], s)
  else if isQuote c then
    match closeQuote? c s with
    | some (body, rest) => (.quoted, body, rest)
    | none => (.openQuote, [], s)
  else if isBreak c then (.lineBreak, s.takeWhile isBreak, s.dropWhile isBreak)
  else if isGap c then (.blank, s.takeWhile isGap, s.dropWhile isGap)
  else (.term, s.takeWhile isTermChar, s.dropWhile isTermChar)

theorem closeQuote?_append {q : Char} {s body rest : List Char}
    (h : closeQuote? q s = some (body, rest)) : body ++ rest = s := by
  fun_induction closeQuote? q s generalizing body rest with
  | case1 => simp at h
  | case2 => simp at h
  | case3 => simp at h
  | case4 c s _ ih =>
    obtain ⟨⟨b, r⟩, hb, he⟩ := Option.map_eq_some_iff.mp h
    simp only [Prod.mk.injEq] at he
    obtain ⟨rfl, rfl⟩ := he
    simp [ih hb]
  | case5 => simp at h
  | case6 =>
    simp only [Option.some.injEq, Prod.mk.injEq] at h
    obtain ⟨rfl, rfl⟩ := h
    rfl
  | case7 c s _ _ _ _ ih =>
    obtain ⟨⟨b, r⟩, hb, he⟩ := Option.map_eq_some_iff.mp h
    simp only [Prod.mk.injEq] at he
    obtain ⟨rfl, rfl⟩ := he
    simp [ih hb]

/-- A token's text and what follows it make up the text it was cut from. -/
theorem cut_append (lineStart : Bool) (c : Char) (s : List Char) :
    (cut lineStart c s).2.1 ++ (cut lineStart c s).2.2 = s := by
  unfold cut
  repeat' split
  all_goals first
    | rfl
    | exact List.takeWhile_append_dropWhile
    | exact closeQuote?_append ‹_›

theorem cut_rest_length (lineStart : Bool) (c : Char) (s : List Char) :
    (cut lineStart c s).2.2.length ≤ s.length := by
  have h := congrArg List.length (cut_append lineStart c s)
  simp only [List.length_append] at h
  omega

/-- The tokens of a text that has `offset` bytes before it. -/
def scanFrom (offset : Nat) (lineStart : Bool) : List Char → List Token
  | [] => []
  | c :: s =>
    let (kind, body, _) := cut lineStart c s
    let token : Token := ⟨kind, c :: body, offset⟩
    token :: scanFrom (offset + Text.byteLength token.text) (kind = .lineBreak)
      (cut lineStart c s).2.2
termination_by s => s.length
decreasing_by
  have := cut_rest_length lineStart c s
  simp only [List.length_cons]
  omega

/-- The tokens of a text. -/
def scan (text : String) : List Token := scanFrom 0 true text.toList

end Token

end Briefing.Task
