import Briefing.Proofs.Grammar
import Briefing.Proofs.Refusals

/-!
# The place that an error gives

A text is refused for the first of its lines that a slash opens and that is no command line. The
error gives the place on that line up to which it is a command line, and tells what stands there
(`parse_error_place`). A quote that nothing on its line matches is told as an unclosed one behind a
gap or an equals sign only (`parse_openQuote`): behind the slash the name is missing, and behind a
name or an argument the quote is something that the line does not go on with.
-/

namespace Briefing.Task

open Token (scanFrom)

/-- The line is a command line if a slash opens it. -/
def IsSound (line : List Char) : Prop :=
  line.head? = some '/' → ∃ name args, CommandLine line name args

/-- The place of an error in a text: behind `before` and `front`, where `front` is what the line has
before it. -/
structure IsErrorPlace (text : List Char) (e : ParseError) (before front rest : List Char) :
    Prop where
  text_eq : text = before ++ (front ++ rest)
  /-- The place is counted in bytes. -/
  offset_eq : e.offset = Text.byteLength (before ++ front)
  /-- The line starts behind `before`. -/
  before_break : before = [] ∨ EndsIn isBreak before
  /-- The line goes on to the place and has a character there. -/
  front_isBreak : ∀ c ∈ front, isBreak c = false
  rest_isBreak : ∃ c ∈ rest.head?, isBreak c = false
  /-- It is the first line that should be a command line and is none. -/
  before_isSound : ∀ line ∈ before.splitOnP isBreak, IsSound line
  line_isSound : ¬IsSound (firstLine (front ++ rest))
  wrongAt : WrongAt front rest e

/-! ## The first line that is refused -/

theorem firstLine_append_of_endsIn {s : List Char} (h : EndsIn isBreak s) (t : List Char) :
    firstLine (s ++ t) = firstLine s := by
  induction s with
  | nil => exact absurd rfl h.ne_nil
  | cons c s ih =>
    by_cases hc : isBreak c = true
    · simp [firstLine, hc]
    · rw [Bool.not_eq_true] at hc
      have hs := ih (h.of_cons hc)
      simpa [firstLine, hc] using hs

/-- If a line does not have a property, there is a first line that does not have it. -/
theorem exists_first_line {p : List Char → Prop} (hnil : p []) {before behind : List Char}
    (hbefore : before = [] ∨ EndsIn isBreak before) (hp : ¬p (firstLine behind)) :
    ∃ before' behind', before ++ behind = before' ++ behind'
      ∧ (before' = [] ∨ EndsIn isBreak before') ∧ ¬p (firstLine behind')
      ∧ ∀ line ∈ before'.splitOnP isBreak, p line := by
  -- a line before this one has less text before it
  induction hn : before.length using Nat.strongRecOn generalizing before behind with
  | _ n ih =>
    subst hn
    by_cases hall : ∀ line ∈ before.splitOnP isBreak, p line
    · exact ⟨before, behind, rfl, hbefore, hp, hall⟩
    · obtain ⟨line, hline, hp'⟩ : ∃ line ∈ before.splitOnP isBreak, ¬p line := by simpa using hall
      obtain ⟨a, b, rfl, ha, rfl⟩ := mem_splitOnP_isBreak.mp hline
      have hne : b ≠ [] := by
        rintro rfl
        exact hp' hnil
      have hend : EndsIn isBreak b := by
        rcases hbefore with hnone | hend
        · exact absurd (List.append_eq_nil_iff.mp hnone).2 hne
        · exact hend.of_append hne
      have hlt : a.length < (a ++ b).length := by
        have := List.length_pos_iff.mpr hne
        simp only [List.length_append]
        omega
      rw [← firstLine_append_of_endsIn hend behind] at hp'
      rw [List.append_assoc]
      exact ih _ hlt ha hp' rfl

/-- The error behind sound lines is the error of the whole text. -/
theorem parse_of_command_error {before behind : List Char} {e : ParseError}
    (hbreak : before = [] ∨ EndsIn isBreak before)
    (hsound : ∀ line ∈ before.splitOnP isBreak, IsSound line)
    (h : Token.command ⟨.commandStart, ['/'], Text.byteLength before⟩
      (scanFrom (Text.byteLength before + 1) false behind) = .error e) :
    parse (String.ofList (before ++ '/' :: behind)) = .error e := by
  obtain ⟨items, hitems⟩ := (exists_ofTokens_iff before).mpr hsound
  have hlast : ∀ t ∈ (scanFrom 0 true before).getLast?, t.kind = .lineBreak := by
    rcases hbreak with rfl | hend
    · simp
    · exact Token.getLast?_scanFrom hend 0 true
  rw [parse, map_eq_error, Token.scan, String.toList_ofList, scanFrom_slash_line hbreak,
    Item.ofTokens_append hlast (fun _ => rfl), hitems, Item.ofTokens_cons, Item.step]
  simp [h, Except.bind, Except.map]

/-- The place is on one line, with a character of that line behind it. -/
theorem WrongAt.isBreak {front rest : List Char} {e : ParseError} (h : WrongAt front rest e) :
    (∀ c ∈ front, isBreak c = false) ∧ ∃ c ∈ rest.head?, isBreak c = false := by
  cases h with
  | missingCommandName _ => exact ⟨by simp, '/', rfl, rfl⟩
  | @unclosedQuote _ _ q _ _ _ hfront _ hopen =>
    exact ⟨isBreak_commandLine hfront, q, rfl, Token.isBreak_of_isQuote hopen.isQuote⟩
  | emptyKey hfront _ => exact ⟨isBreak_commandLine hfront, '=', rfl, rfl⟩
  | unterminatedCommand hfront hfound hbreak _ =>
    have hhead := hfound.head_eq_false hbreak fun hs => hs.kind_of_head.2.2
    obtain ⟨c, s, rfl, -⟩ := Token.cut_of_lexeme hfound
    exact ⟨isBreak_commandLine hfront, c, rfl, hhead c rfl⟩

/-- If a text is refused, the error gives the place where the first line that should be a command
line and is none goes wrong, and tells what is wrong there. -/
theorem parse_error_place {text : String} {e : ParseError} (h : parse text = .error e) :
    ∃ before front rest, IsErrorPlace text.toList e before front rest := by
  obtain ⟨line, hline, hunsound⟩ : ∃ line ∈ text.toList.splitOnP isBreak, ¬IsSound line := by
    by_contra hall
    push Not at hall
    obtain ⟨items, hitems⟩ := (exists_ofTokens_iff text.toList).mpr hall
    rw [parse, map_eq_error, Token.scan, hitems] at h
    simp at h
  obtain ⟨a, b, htext, ha, rfl⟩ := mem_splitOnP_isBreak.mp hline
  obtain ⟨before, behind, hsame, hbefore, hwrong, hsound⟩ :=
    exists_first_line (by simp [IsSound]) ha hunsound
  rw [← htext] at hsame
  obtain ⟨hhead, hno⟩ := Classical.not_imp.mp hwrong
  obtain ⟨behind, rfl⟩ := exists_of_head?_firstLine hhead
  cases hcommand : Token.command ⟨.commandStart, ['/'], Text.byteLength before⟩
      (scanFrom (Text.byteLength before + 1) false behind) with
  | ok x =>
    obtain ⟨name, l⟩ := x
    rw [← String.toList_ofList (l := name)] at hcommand
    exact absurd ⟨_, _, command_iff_commandLine.mp ⟨l, hcommand, rfl⟩⟩ hno
  | error e' =>
    have herror := parse_of_command_error hbefore hsound hcommand
    rw [← hsame, String.ofList_toList, h] at herror
    obtain rfl := Except.error.inj herror
    obtain ⟨front, rest, hline, hat, hoffset⟩ := Token.command_error hcommand
    rw [hline] at hsame hwrong
    exact ⟨before, front, rest, hsame, by rw [byteLength_append, hoffset], hbefore, hat.isBreak.1,
      hat.isBreak.2, hsound, hwrong, hat⟩

theorem parse_error_place_last_line :
    parse "/go 'é b'\nsee /x \"y\n/run k=v =w" = .error (.emptyKey 30)
      ∧ ∃ before front rest, IsErrorPlace "/go 'é b'\nsee /x \"y\n/run k=v =w".toList
        (.emptyKey 30) before front rest :=
  ⟨by decide +kernel, parse_error_place (by decide +kernel)⟩

/-! ## Open quotes -/

/-- Where the first line that is wrong goes wrong at an open quote, the error tells of an unclosed
quote if a value can start there, and otherwise only of a missing name or of a token that the
command cannot have. -/
theorem parse_openQuote {before rest : List Char} {q : Char}
    (hbefore : before = [] ∨ EndsIn isBreak before)
    (hsound : ∀ line ∈ before.splitOnP isBreak, IsSound line) (hopen : IsOpenQuote q rest) :
    parse (String.ofList (before ++ '/' :: q :: rest))
        = .error (.missingCommandName (Text.byteLength before))
      ∧ ∀ front name args, CommandLine front name args →
        (EndsIn precedesValue front → parse (String.ofList (before ++ (front ++ q :: rest)))
          = .error (.unclosedQuote (Text.byteLength (before ++ front))))
        ∧ (¬EndsIn precedesValue front → parse (String.ofList (before ++ (front ++ q :: rest)))
          = .error (.unterminatedCommand name (String.ofList [q])
            (Text.byteLength (before ++ front)))) := by
  constructor
  · refine parse_of_command_error hbefore hsound (Token.command_no_name _ _ ?_)
    simp [isTermChar, hopen.isQuote]
  · intro front name args hfront
    have hparse := parse_of_command_error hbefore hsound
      (Token.command_openQuote ⟨.commandStart, ['/'], Text.byteLength before⟩ hfront hopen)
    obtain ⟨body, rfl⟩ : ∃ body, front = '/' :: body := by
      cases hfront
      exact ⟨_, rfl⟩
    rw [byteLength_append]
    rw [List.tail_cons] at hparse
    rw [List.cons_append, hparse]
    refine ⟨fun hvalue => ?_, fun hno => ?_⟩
    · rw [if_pos (endsIn_iff.mpr hvalue)]
    · rw [if_neg (mt endsIn_iff.mp hno)]

theorem CommandLine.single {name t : List Char} {a : Argument} (hname : IsTerm name)
    (h : ArgumentText t a) : CommandLine ('/' :: (name ++ ' ' :: t)) (String.ofList name) [a] :=
  .intro hname (.single (by simp : [' '] ≠ []) (by simp [isGap]) h)

theorem parse_openQuote_second_line :
    IsOpenQuote '"' ['x']
      ∧ CommandLine ['/', 'g', 'o', ' ', 'a'] "go" [⟨none, "a"⟩]
      ∧ CommandLine ['/', 'g', 'o', ' ', 'a', '='] "go" [⟨some "a", ""⟩]
      ∧ parse "see /b \"\n/\"x" = .error (.missingCommandName 9)
      ∧ parse "see /b \"\n/go a=\"x" = .error (.unclosedQuote 15)
      ∧ parse "see /b \"\n/go a\"x" = .error (.unterminatedCommand "go" "\"" 14) := by
  have hopen : IsOpenQuote '"' ['x'] := (isOpenQuote_iff rfl).mpr rfl
  have hgo : IsTerm ['g', 'o'] := ⟨by simp, by simp [isTermChar, isGap, isBreak, isQuote]⟩
  have ha : IsTerm ['a'] := ⟨by simp, by simp [isTermChar, isGap, isBreak, isQuote]⟩
  have hplain := CommandLine.single hgo (.positional (.term ha))
  have hkey := CommandLine.single hgo (.empty ha)
  have hlines : "see /b \"\n".toList.splitOnP isBreak = ["see /b \"".toList, []] := by decide
  have hsound : ∀ line ∈ "see /b \"\n".toList.splitOnP isBreak, IsSound line := by
    rw [hlines]
    simp [IsSound]
  obtain ⟨hname, hfront⟩ := parse_openQuote (.inr ⟨'\n', rfl, rfl⟩) hsound hopen
  exact ⟨hopen, hplain, hkey, hname, (hfront _ _ _ hkey).1 ⟨'=', rfl, rfl⟩,
    (hfront _ _ _ hplain).2 (by simp [EndsIn, precedesValue, isGap])⟩

/-- An open quote right behind an argument is not told as one. -/
theorem parse_glued_quote :
    CommandLine ['/', 'a', ' ', 'b'] "a" [⟨none, "b"⟩] ∧ IsOpenQuote '"' ['c']
      ∧ parse "/a b\"c" ≠ .error (.unclosedQuote 4) := by
  have ha : IsTerm ['a'] := ⟨by simp, by simp [isTermChar, isGap, isBreak, isQuote]⟩
  have hb : IsTerm ['b'] := ⟨by simp, by simp [isTermChar, isGap, isBreak, isQuote]⟩
  refine ⟨CommandLine.single ha (.positional (.term hb)), (isOpenQuote_iff rfl).mpr rfl, ?_⟩
  decide +kernel

end Briefing.Task
