import Briefing.Task.Basic
import Briefing.Text.Quoted

/-!
# Reading task texts

A slash that opens a line starts a command, which has the line to itself: a name, then arguments
with gaps before them, to the line's end. What is no command there is an error. A slash after a gap
within a line starts a command if the rest of the line is one, and is text otherwise.

The line break that ends a command belongs to it. Further breaks are text, as is everything else.
-/

namespace Briefing.Task

/-- Why a line that a slash opens is no command, and the byte where it goes wrong. -/
inductive ParseError
  /-- A quote that is not matched on its line. -/
  | unclosedQuote (offset : Nat)
  /-- A slash without a name after it. -/
  | missingCommandName (offset : Nat)
  /-- Something other than a gap or the line's end after the name or an argument. -/
  | unterminatedCommand (name found : String) (offset : Nat)
  /-- An equals sign without a key before it. -/
  | emptyKey (offset : Nat)
  deriving DecidableEq, Repr

/-- What the error says to a reader. -/
def ParseError.message : ParseError → String
  | unclosedQuote offset => "unclosed quote at offset " ++ Text.decimal offset
  | missingCommandName offset =>
    "missing command name after '/' at offset " ++ Text.decimal offset
  | unterminatedCommand name found offset =>
    "command /" ++ name ++ " must be followed by a newline, found " ++ Text.quoted found ++
      " at offset " ++ Text.decimal offset
  | emptyKey offset => "empty argument key at offset " ++ Text.decimal offset

namespace Token

/-- Complains of a token that a command cannot have. -/
def unexpected (name : List Char) (token : Token) : ParseError :=
  .unterminatedCommand (String.ofList name) (String.ofList token.text) token.offset

/-- A named argument, from the tokens after its equals sign, with their number. -/
def namedArgument (name : List Char) (key : List Char) :
    List Token → Except ParseError (Argument × Nat)
  | [] => .ok (⟨some (String.ofList key), ""⟩, 0)
  | token :: _ =>
    match token.kind with
    | .term | .quoted =>
      .ok (⟨some (String.ofList key), String.ofList (decodeValue token.text)⟩, 1)
    | .openQuote => .error (.unclosedQuote token.offset)
    | .blank | .lineBreak => .ok (⟨some (String.ofList key), ""⟩, 0)
    | _ => .error (unexpected name token)

/-- The argument of the command `name` that starts with a token, with the number of tokens after
it that belong to it. -/
def argument (name : List Char) (token : Token) (rest : List Token) :
    Except ParseError (Argument × Nat) :=
  match token.kind, rest with
  | .term, ⟨.assign, _, _⟩ :: rest =>
    (namedArgument name token.text rest).map fun (a, n) => (a, n + 1)
  | .term, _ | .quoted, _ => .ok (⟨none, String.ofList (decodeValue token.text)⟩, 0)
  | .assign, _ => .error (.emptyKey token.offset)
  | .openQuote, _ => .error (.unclosedQuote token.offset)
  | _, _ => .error (unexpected name token)

/-- Breaks without the first of them, which is two characters if it is written CR LF. -/
def dropBreak : List Char → List Char
  | '\r' :: '\n' :: s => s
  | s => s.drop 1

/-- What the tokens after a command's name hold: its arguments, the breaks after the one that ends
it, and the tokens that follow. -/
structure Line where
  arguments : List Argument
  trailing : List Char
  rest : List Token

/-- The rest of the line of the command `name`. -/
def line (name : List Char) : List Token → Except ParseError Line
  | [] => .ok ⟨[], [], []⟩
  | token :: tokens =>
    match token.kind with
    | .lineBreak => .ok ⟨[], dropBreak token.text, tokens⟩
    | .blank =>
      match tokens with
      | [] => .ok ⟨[], [], []⟩
      | next :: rest =>
        if next.kind = .lineBreak then .ok ⟨[], dropBreak next.text, rest⟩
        else
          match argument name next rest with
          | .error e => .error e
          | .ok (a, n) =>
            (line name (rest.drop n)).map fun l => { l with arguments := a :: l.arguments }
    | _ => .error (unexpected name token)
termination_by tokens => tokens.length
decreasing_by all_goals simp only [List.length_cons, List.length_drop]; omega

/-- The command that a slash starts, before the tokens that follow the slash. -/
def command (slash : Token) : List Token → Except ParseError (List Char × Line)
  | [] => .error (.missingCommandName slash.offset)
  | token :: tokens =>
    if token.kind = .term then (line token.text tokens).map fun l => (token.text, l)
    else .error (.missingCommandName slash.offset)

/-- The tokens behind a command's line are the last ones. -/
theorem line_rest_suffix {name : List Char} {tokens : List Token} {l : Line}
    (h : line name tokens = .ok l) : l.rest <:+ tokens := by
  fun_induction line name tokens generalizing l with
  | case1 =>
    obtain rfl := Except.ok.inj h
    exact List.suffix_refl _
  | case2 =>
    obtain rfl := Except.ok.inj h
    exact List.suffix_cons _ _
  | case3 =>
    obtain rfl := Except.ok.inj h
    exact List.suffix_cons _ _
  | case4 =>
    obtain rfl := Except.ok.inj h
    exact (List.suffix_cons _ _).trans (List.suffix_cons _ _)
  | case5 => simp at h
  | case6 token _ next rest _ a n _ ih =>
    cases hl : line name (rest.drop n) with
    | error e => simp [hl, Except.map] at h
    | ok l' =>
      simp only [hl, Except.map, Except.ok.injEq] at h
      rw [← h]
      exact ((ih hl).trans (List.drop_suffix n rest)).trans
        ((List.suffix_cons _ _).trans (List.suffix_cons _ _))
  | case7 => simp at h

theorem command_rest_suffix {slash : Token} {tokens : List Token} {name : List Char} {l : Line}
    (h : command slash tokens = .ok (name, l)) : l.rest <:+ tokens := by
  cases tokens with
  | nil => simp [command] at h
  | cons token tokens =>
    simp only [command] at h
    split at h
    · cases hl : line token.text tokens with
      | error e => simp [hl, Except.map] at h
      | ok l' =>
        simp only [hl, Except.map, Except.ok.injEq, Prod.mk.injEq] at h
        rw [← h.2]
        exact (line_rest_suffix hl).trans (List.suffix_cons _ _)
    · simp at h

end Token

/-- A fragment of text or a command, as they are found in the order of the tokens. -/
inductive Item
  | fragment (text : String)
  | command (command : Command)

namespace Item

/-- The characters of the tokens at the front of `tokens`, without those that `rest` has and
without the last `trailing`. -/
def sourceBefore (tokens rest : List Token) (trailing : Nat) : List Char :=
  let text := (tokens.take (tokens.length - rest.length)).flatMap Token.text
  text.take (text.length - trailing)

/-- Breaks left over behind a command, as a fragment. -/
def ofTrailing (trailing : List Char) : List Item :=
  if trailing.isEmpty then [] else [fragment (String.ofList trailing)]

/-- The items of a token sequence; `afterBlank` tells whether a gap stands before it. -/
def ofTokens (afterBlank : Bool) : List Token → Except ParseError (List Item)
  | [] => .ok []
  | token :: tokens =>
    if token.kind = .commandStart then
      match _ : Token.command token tokens with
      | .error e => .error e
      | .ok (name, l) =>
        (ofTokens false l.rest).map fun items =>
          command ⟨String.ofList name, l.arguments, none⟩ :: (ofTrailing l.trailing ++ items)
    else
      let asText := fun (_ : Unit) =>
        (ofTokens (token.kind = .blank) tokens).map (fragment (String.ofList token.text) :: ·)
      if token.kind = .slash && afterBlank then
        match _ : Token.command token tokens with
        | .error _ => asText ()
        | .ok (name, l) =>
          let source := sourceBefore (token :: tokens) l.rest l.trailing.length
          (ofTokens false l.rest).map fun items =>
            command ⟨String.ofList name, l.arguments, some (String.ofList source)⟩ ::
              (ofTrailing l.trailing ++ items)
      else asText ()
termination_by tokens => tokens.length
decreasing_by
  all_goals first
    | exact Nat.lt_succ_of_le (Token.command_rest_suffix ‹_›).length_le
    | exact Nat.lt_succ_self _

/-- Neighbouring fragments as one block of text, commands as blocks of their own. -/
def toBlocks : List Item → List Block
  | [] => []
  | command c :: items => .command c :: toBlocks items
  | fragment t :: items =>
    match toBlocks items with
    | .text fragments :: blocks => .text (t :: fragments) :: blocks
    | blocks => .text [t] :: blocks

end Item

/-- The blocks of a task text. -/
def parse (text : String) : Except ParseError Script :=
  (Item.ofTokens false (Token.scan text)).map fun items => ⟨Item.toBlocks items⟩

end Briefing.Task
