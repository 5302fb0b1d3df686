import Briefing.Proofs.CommandLines
import Mathlib.Data.List.Chain
import Mathlib.Data.List.Forall2

/-!
# Blocks and the text they were read from

Reading loses nothing of a task text and makes nothing up: the text is made up of one span for each
block, in their order (`parse_spans`). The span of a command is a command line with the break that
ends it, so it reads as that command on its own (`IsCommandText.parse`). What is left of the breaks
behind a command goes to the text that follows it.
-/

namespace Briefing.Task

open Token (Enclosed IsRun Lexeme scanFrom)

/-- One line break. -/
def IsLineBreak (s : List Char) : Prop := s = ['\n'] ∨ s = ['\r'] ∨ s = ['\r', '\n']

/-- A text whose last character is in a class. -/
def EndsIn (p : Char → Bool) (s : List Char) : Prop := ∃ c ∈ s.getLast?, p c = true

/-- A slash with a command line, and perhaps the break that ends it. -/
inductive IsCommandText : List Char → String → List Argument → Prop
  | intro {name body ending : List Char} {args : List Argument} (hname : IsTerm name)
      (hargs : ArgumentsText body args) (hend : ending = [] ∨ IsLineBreak ending) :
      IsCommandText ('/' :: (name ++ (body ++ ending))) (String.ofList name) args

/-! ## A command's text -/

theorem endsIn_of_forall {p : Char → Bool} {s : List Char} (hne : s ≠ [])
    (h : ∀ c ∈ s, p c = true) : EndsIn p s :=
  ⟨s.getLast hne, List.getLast?_eq_some_getLast hne, h _ (List.getLast_mem hne)⟩

theorem EndsIn.append {p : Char → Bool} {t : List Char} (h : EndsIn p t) (s : List Char) :
    EndsIn p (s ++ t) := by
  obtain ⟨c, hc, hp⟩ := h
  refine ⟨c, ?_, hp⟩
  rw [List.getLast?_append, Option.mem_def.mp hc]
  rfl

theorem dropBreak_append {breaks : List Char} (hne : breaks ≠ [])
    (h : ∀ c ∈ breaks, isBreak c = true) :
    ∃ ending, IsLineBreak ending ∧ breaks = ending ++ Token.dropBreak breaks := by
  unfold Token.dropBreak
  split
  · exact ⟨['\r', '\n'], .inr (.inr rfl), rfl⟩
  · obtain ⟨c, s, rfl⟩ := List.exists_cons_of_ne_nil hne
    have hc := h c List.mem_cons_self
    simp only [isBreak, Bool.or_eq_true, decide_eq_true_eq] at hc
    refine ⟨[c], ?_, rfl⟩
    rcases hc with rfl | rfl
    · exact .inl rfl
    · exact .inr (.inl rfl)

theorem IsLineBreak.isRun {s : List Char} (h : IsLineBreak s) : IsRun isBreak s [] := by
  rcases h with rfl | rfl | rfl <;> exact ⟨by simp, by simp [isBreak], by simp⟩

theorem IsLineBreak.dropBreak {s : List Char} (h : IsLineBreak s) : Token.dropBreak s = [] := by
  rcases h with rfl | rfl | rfl <;> rfl

theorem Enclosed.isBreak {q : Char} {s : List Char} (h : Enclosed q s) :
    ∀ c ∈ s, Task.isBreak c = false := by
  induction h with
  | nil => simp
  | escaped hc _ ih =>
    intro x hx
    rcases List.mem_cons.mp hx with rfl | hx
    · rfl
    · rcases List.mem_cons.mp hx with rfl | hx
      · exact hc
      · exact ih x hx
  | plain _ _ hc _ ih =>
    intro x hx
    rcases List.mem_cons.mp hx with rfl | hx
    · exact hc
    · exact ih x hx

theorem IsTerm.isBreak {t : List Char} (h : IsTerm t) : ∀ c ∈ t, Task.isBreak c = false :=
  fun c hc => (isTermChar_iff.mp (h.all c hc)).2.1

theorem ValueText.isBreak {t value : List Char} (h : ValueText t value) :
    ∀ c ∈ t, Task.isBreak c = false := by
  cases h with
  | term h => exact h.isBreak
  | quoted hq h =>
    have hb := Token.isBreak_of_isQuote hq
    simpa [hb, or_imp, forall_and] using Enclosed.isBreak h

theorem ArgumentText.isBreak {t : List Char} {a : Argument} (h : ArgumentText t a) :
    ∀ c ∈ t, Task.isBreak c = false := by
  have ha : Task.isBreak '=' = false := rfl
  cases h with
  | positional h => exact h.isBreak
  | empty hk => simpa [ha, or_imp, forall_and] using hk.isBreak
  | named hk h => simpa [ha, or_imp, forall_and] using ⟨hk.isBreak, h.isBreak⟩

theorem ArgumentsText.isBreak {body : List Char} {args : List Argument}
    (h : ArgumentsText body args) : ∀ c ∈ body, Task.isBreak c = false := by
  induction h with
  | nil hg => exact fun c hc => isBreak_of_isGap (hg c hc)
  | cons _ hg ha _ ih =>
    intro c hc
    simp only [List.mem_append] at hc
    rcases hc with hc | hc | hc
    · exact isBreak_of_isGap (hg c hc)
    · exact ha.isBreak c hc
    · exact ih c hc

/-- The tokens of a command stand for its text, and the tokens behind it for the rest. -/
theorem Token.command_text {slash : Token} {offset : Nat} {text name : List Char} {l : Line}
    (h : command slash (scanFrom offset false text) = .ok (name, l)) :
    ∃ span rest, text = span ++ (l.trailing ++ rest)
      ∧ IsCommandText ('/' :: span) (String.ofList name) l.arguments
      ∧ (l.trailing ++ rest = [] ∨ EndsIn isBreak ('/' :: span))
      ∧ ∃ offset', l.rest = scanFrom offset' true rest := by
  obtain ⟨body, tail, rfl, hname, hargs, hend⟩ := command_scanFrom_iff.mp h
  generalize hl : l.trailing = trailing at hend ⊢
  generalize hr : l.rest = tokens at hend ⊢
  cases hend with
  | stop =>
    exact ⟨name ++ (body ++ []), [], by simp, .intro hname hargs (.inl rfl), .inl rfl, 0, by simp⟩
  | @breaks breaks rest hrun =>
    obtain ⟨ending, he, hb⟩ := dropBreak_append hrun.ne_nil hrun.all
    refine ⟨name ++ (body ++ ending), rest, ?_, .intro hname hargs (.inr he), .inr ?_, _, rfl⟩
    · nth_rewrite 1 [hb]
      simp only [List.append_assoc]
    · rw [← List.append_assoc, ← List.cons_append]
      exact (endsIn_of_forall he.isRun.ne_nil he.isRun.all).append _

namespace Item

theorem ofTokens_commandStart {afterBlank : Bool} {token : Token} {tokens : List Token}
    {name : List Char} {l : Token.Line} (hk : token.kind = .commandStart)
    (h : Token.command token tokens = .ok (name, l)) :
    ofTokens afterBlank (token :: tokens) = (ofTokens false l.rest).map fun items =>
      command ⟨String.ofList name, l.arguments, none⟩ :: (ofTrailing l.trailing ++ items) := by
  rw [ofTokens, if_pos hk]
  split <;> simp_all

end Item

theorem IsCommandText.parse {span : List Char} {name : String} {args : List Argument}
    (h : IsCommandText span name args) :
    parse (String.ofList span) = .ok ⟨[.command ⟨name, args, none⟩]⟩ := by
  obtain ⟨hname, hargs, hend⟩ := h
  rename_i name body ending
  have hcommand : Token.command ⟨.commandStart, ['/'], 0⟩
      (scanFrom 1 false (name ++ (body ++ ending))) = .ok (name, ⟨args, [], []⟩) := by
    refine Token.command_scanFrom_iff.mpr ⟨body, ending, rfl, hname, hargs, ?_⟩
    rcases hend with rfl | hend
    · exact .stop
    · have he : LineEnd (1 + Text.byteLength name + Text.byteLength body) _ _ _ :=
        .breaks hend.isRun
      rwa [List.append_nil, hend.dropBreak, Token.scanFrom_nil] at he
  have hscan : Token.scan (String.ofList ('/' :: (name ++ (body ++ ending))))
      = ⟨.commandStart, ['/'], 0⟩ :: scanFrom 1 false (name ++ (body ++ ending)) := by
    rw [Token.scan, String.toList_ofList]
    exact Token.scanFrom_lexeme 0 (.commandStart rfl)
  rw [Task.parse, hscan, Item.ofTokens_commandStart rfl hcommand, Item.ofTokens]
  rfl

/-! ## Items in a text -/

/-- Items that make up a text, one after the other. A command within a line has a gap before it and
goes on to the end of its line; `afterBlank` tells whether a gap stands before the text. -/
inductive ItemsText : Bool → List Item → List Char → Prop
  | nil {afterBlank : Bool} : ItemsText afterBlank [] []
  | fragment {afterBlank blank : Bool} {t rest : List Char} {items : List Item} (ht : t ≠ [])
      (hb : blank = true → EndsIn isGap t) (h : ItemsText blank items rest) :
      ItemsText afterBlank (.fragment (String.ofList t) :: items) (t ++ rest)
  | opening {afterBlank : Bool} {span rest : List Char} {name : String} {args : List Argument}
      {items : List Item} (hc : IsCommandText span name args) (h : ItemsText false items rest) :
      ItemsText afterBlank (.command ⟨name, args, none⟩ :: items) (span ++ rest)
  | inline {span rest : List Char} {name : String} {args : List Argument} {items : List Item}
      (hc : IsCommandText span name args) (hend : rest = [] ∨ EndsIn isBreak span)
      (h : ItemsText false items rest) :
      ItemsText true (.command ⟨name, args, some (String.ofList span)⟩ :: items) (span ++ rest)

namespace Item

theorem ofTrailing_text {items : List Item} {rest : List Char} (trailing : List Char)
    (h : ItemsText false items rest) :
    ItemsText false (ofTrailing trailing ++ items) (trailing ++ rest) := by
  unfold ofTrailing
  rcases trailing with _ | ⟨c, s⟩
  · exact h
  · exact .fragment (List.cons_ne_nil _ _) (by simp) h

/-- The characters before the tokens behind a command, less the breaks left over, are the text of
the command. -/
theorem sourceBefore_eq {offset offset' : Nat} {lineStart lineStart' : Bool}
    {span trailing rest : List Char} {tokens tokens' : List Token}
    (h : tokens = scanFrom offset lineStart (span ++ (trailing ++ rest)))
    (h' : tokens' = scanFrom offset' lineStart' rest) (hs : tokens' <:+ tokens) :
    sourceBefore tokens tokens' trailing.length = span := by
  obtain ⟨front, rfl⟩ := hs
  have hsource := congrArg Token.source h
  rw [Token.source_scanFrom, Token.source, List.flatMap_append, ← Token.source, ← Token.source, h',
    Token.source_scanFrom, ← List.append_assoc] at hsource
  have hfront : front.flatMap Token.text = span ++ trailing := List.append_cancel_right hsource
  simp [sourceBefore, hfront]

theorem token_text_ne_nil {lineStart : Bool} {kind : Token.Kind} {text rest : List Char}
    (h : Lexeme lineStart kind text rest) : text ≠ [] := by
  obtain ⟨c, s, hc, -⟩ := Token.cut_of_lexeme h
  rw [hc]
  exact List.cons_ne_nil _ _

theorem fragment_text {afterBlank lineStart : Bool} {token : Token} {items : List Item}
    {rest : List Char} (hl : Lexeme lineStart token.kind token.text rest)
    (h : ItemsText (token.kind = .blank) items rest) :
    ItemsText afterBlank (fragment (String.ofList token.text) :: items) (token.text ++ rest) := by
  refine .fragment (token_text_ne_nil hl) (fun hk => ?_) h
  obtain ⟨kind, text, offset⟩ := token
  obtain rfl : kind = .blank := of_decide_eq_true hk
  cases hl with
  | blank hrun => exact endsIn_of_forall hrun.ne_nil hrun.all

/-- The items read from a text make it up. -/
theorem ofTokens_text {afterBlank : Bool} {tokens : List Token} {items : List Item}
    (h : ofTokens afterBlank tokens = .ok items) {offset : Nat} {lineStart : Bool}
    {text : List Char} (hs : scanFrom offset lineStart text = tokens) :
    ItemsText afterBlank items text := by
  fun_induction ofTokens afterBlank tokens generalizing items offset lineStart text with
  | case1 =>
    obtain rfl := Except.ok.inj h
    have ht := Token.source_scanFrom offset lineStart text
    rw [hs] at ht
    obtain rfl : [] = text := ht
    exact .nil
  | case2 => simp at h
  | case3 _ token tokens hk name l hcommand ih =>
    obtain ⟨items, hitems, rfl⟩ := map_eq_ok.mp h
    obtain ⟨kind, t, o⟩ := token
    obtain rfl : kind = .commandStart := hk
    obtain ⟨rest, rfl, -, hl, rfl⟩ := Token.lexeme_of_scanFrom hs
    cases hl
    obtain ⟨span, rest, rfl, hspan, -, _, hrest⟩ := Token.command_text hcommand
    change ItemsText _ _ (('/' :: span) ++ (l.trailing ++ rest))
    exact .opening hspan (ofTrailing_text l.trailing (ih hitems hrest.symm))
  | case4 =>
    rename_i ih
    obtain ⟨items, hitems, rfl⟩ := map_eq_ok.mp h
    obtain ⟨rest, rfl, -, hl, rfl⟩ := Token.lexeme_of_scanFrom hs
    exact fragment_text hl (ih hitems rfl)
  | case5 =>
    rename_i afterBlank token tokens hk hslash name l hcommand source _ ih
    obtain ⟨items, hitems, rfl⟩ := map_eq_ok.mp h
    obtain ⟨kind, t, o⟩ := token
    obtain ⟨rfl, rfl⟩ : kind = .slash ∧ afterBlank = true := by simpa using hslash
    obtain ⟨rest, rfl, -, hl, rfl⟩ := Token.lexeme_of_scanFrom hs
    cases hl
    obtain ⟨span, rest, rfl, hspan, hend, _, hrest⟩ := Token.command_text hcommand
    have hsource : source = '/' :: span := sourceBefore_eq hs.symm hrest
      ((Token.command_rest_suffix hcommand).trans (List.suffix_cons _ _))
    rw [hsource]
    exact .inline hspan hend (ofTrailing_text l.trailing (ih hitems hrest.symm))
  | case6 =>
    rename_i ih
    obtain ⟨items, hitems, rfl⟩ := map_eq_ok.mp h
    obtain ⟨rest, rfl, -, hl, rfl⟩ := Token.lexeme_of_scanFrom hs
    exact fragment_text hl (ih hitems rfl)

end Item

/-! ## Spans of blocks -/

/-- What stands in a task text for a block that is read from it. Text stands for itself, and a
command within a line for what it keeps of its line. A command that opens its line starts with the
slash and its name, and no line ends before its end. On its own a command's span reads as that
command. -/
inductive Block.IsSpan : Block → String → Prop
  | text {fragments : List String} (hne : fragments ≠ []) (h : ∀ f ∈ fragments, f ≠ "") :
      IsSpan (.text fragments) (Block.content fragments)
  | inline {name span : String} {args : List Argument}
      (alone : parse span = .ok ⟨[.command ⟨name, args, none⟩]⟩) :
      IsSpan (.command ⟨name, args, some span⟩) span
  | opening {name line ending : String} {args : List Argument}
      (hname : ("/" ++ name).toList <+: line.toList)
      (hline : ∀ c ∈ line.toList, isBreak c = false)
      (hend : ending = "" ∨ ending = "\n" ∨ ending = "\r" ∨ ending = "\r\n")
      (alone : parse (line ++ ending) = .ok ⟨[.command ⟨name, args, none⟩]⟩) :
      IsSpan (.command ⟨name, args, none⟩) (line ++ ending)

/-- Whether a block is free text. -/
def Block.isText : Block → Bool
  | .text _ => true
  | .command _ => false

theorem IsCommandText.isSpan {span : List Char} {name : String} {args : List Argument}
    (h : IsCommandText span name args) :
    Block.IsSpan (.command ⟨name, args, none⟩) (String.ofList span) := by
  have alone := h.parse
  obtain ⟨hname, hargs, hend⟩ := h
  rename_i name body ending
  have hsplit : String.ofList ('/' :: (name ++ (body ++ ending)))
      = String.ofList ('/' :: (name ++ body)) ++ String.ofList ending := by
    rw [← String.ofList_append, List.cons_append, List.append_assoc]
  rw [hsplit] at alone ⊢
  refine .opening ?_ ?_ ?_ alone
  · refine ⟨body, ?_⟩
    simp
  · intro c hc
    rw [String.toList_ofList] at hc
    simp only [List.mem_cons, List.mem_append] at hc
    rcases hc with rfl | hc | hc
    · rfl
    · exact hname.isBreak c hc
    · exact hargs.isBreak c hc
  · rcases hend with rfl | rfl | rfl | rfl
    · exact .inl rfl
    · exact .inr (.inl rfl)
    · exact .inr (.inr (.inl rfl))
    · exact .inr (.inr (.inr rfl))

namespace Item

/-- Putting fragments together into blocks keeps what they stand for. -/
theorem toBlocks_spans {afterBlank : Bool} {items : List Item} {text : List Char}
    (h : ItemsText afterBlank items text) :
    ∃ spans : List String, (toBlocks items).Forall₂ Block.IsSpan spans
      ∧ String.join spans = String.ofList text := by
  induction h with
  | nil => exact ⟨[], .nil, rfl⟩
  | opening hc _ ih =>
    obtain ⟨spans, hspans, hjoin⟩ := ih
    exact ⟨_, .cons hc.isSpan hspans, by rw [String.join_cons, hjoin, ← String.ofList_append]⟩
  | inline hc _ _ ih =>
    obtain ⟨spans, hspans, hjoin⟩ := ih
    exact ⟨_, .cons (.inline hc.parse) hspans,
      by rw [String.join_cons, hjoin, ← String.ofList_append]⟩
  | @fragment _ _ t rest items ht _ _ ih =>
    obtain ⟨spans, hspans, hjoin⟩ := ih
    have hne : String.ofList t ≠ "" := by simpa using ht
    unfold toBlocks
    split
    · rename_i fragments blocks hb
      rw [hb] at hspans
      cases hspans with
      | cons hf hrest =>
        cases hf with
        | text _ hfs =>
          refine ⟨_, .cons (.text (List.cons_ne_nil _ _)
            (List.forall_mem_cons.mpr ⟨hne, hfs⟩)) hrest, ?_⟩
          rw [String.join_cons, Block.content] at hjoin
          rw [String.join_cons, Block.content, String.join_cons, String.append_assoc, hjoin,
            ← String.ofList_append]
    · refine ⟨_, .cons (.text (List.cons_ne_nil _ _) ?_) hspans, ?_⟩
      · simpa using ht
      · rw [String.join_cons, hjoin, String.ofList_append]
        simp [Block.content]

theorem toBlocks_isChain (items : List Item) :
    (toBlocks items).IsChain fun a b => ¬(a.isText = true ∧ b.isText = true) := by
  induction items with
  | nil => exact .nil
  | cons item items ih =>
    cases item with
    | command c =>
      exact List.isChain_cons.mpr ⟨by simp [Block.isText], ih⟩
    | fragment t =>
      unfold toBlocks
      split
      · rename_i fragments blocks hb
        rw [hb] at ih
        exact List.isChain_cons.mpr (List.isChain_cons.mp ih)
      · rename_i blocks hb
        refine List.isChain_cons.mpr ⟨?_, ih⟩
        rintro b hbm ⟨-, hbt⟩
        rcases b with fragments | c
        · obtain ⟨blocks, hblocks⟩ := List.head?_eq_some_iff.mp hbm
          exact hb fragments blocks hblocks
        · simp [Block.isText] at hbt

end Item

theorem exists_spans {text : String} {script : Script} (h : parse text = .ok script) :
    ∃ spans : List String, String.join spans = text ∧ script.blocks.Forall₂ Block.IsSpan spans := by
  obtain ⟨items, hitems, rfl⟩ := map_eq_ok.mp h
  obtain ⟨spans, hblocks, hjoin⟩ := Item.toBlocks_spans (Item.ofTokens_text hitems rfl)
  exact ⟨spans, by rw [hjoin, String.ofList_toList], hblocks⟩

theorem parse_isChain {text : String} {script : Script} (h : parse text = .ok script) :
    script.blocks.IsChain fun a b => ¬(a.isText = true ∧ b.isText = true) := by
  obtain ⟨items, -, rfl⟩ := map_eq_ok.mp h
  exact Item.toBlocks_isChain items

theorem parse_empty : parse "" = .ok ⟨[]⟩ := by
  rw [parse, Token.scan, String.toList_empty, Token.scanFrom_nil, Item.ofTokens]
  rfl

/-- A task text that is read is made up of the spans of its blocks, in their order. No block or
fragment of text is empty, no two blocks of text stand side by side, and only the empty text has
no blocks. -/
theorem parse_spans {text : String} {script : Script} (h : parse text = .ok script) :
    (∃ spans : List String, String.join spans = text ∧ script.blocks.Forall₂ Block.IsSpan spans)
      ∧ (script.blocks.IsChain fun a b => ¬(a.isText = true ∧ b.isText = true))
      ∧ (script.blocks = [] ↔ text = "") := by
  obtain ⟨spans, hjoin, hblocks⟩ := exists_spans h
  refine ⟨⟨spans, hjoin, hblocks⟩, parse_isChain h, fun hb => ?_, fun ht => ?_⟩
  · rw [hb] at hblocks
    cases hblocks
    exact hjoin.symm
  · subst ht
    obtain rfl := Except.ok.inj (parse_empty.symm.trans h)
    rfl

theorem parse_spans_inline_and_opening : ∃ script,
    parse "a /b c='x y'\r\n\r\n/d\n" = .ok script
      ∧ (∃ spans : List String, String.join spans = "a /b c='x y'\r\n\r\n/d\n"
        ∧ script.blocks.Forall₂ Block.IsSpan spans)
      ∧ (script.blocks.IsChain fun a b => ¬(a.isText = true ∧ b.isText = true))
      ∧ (script.blocks = [] ↔ "a /b c='x y'\r\n\r\n/d\n" = "") := by
  have h : parse "a /b c='x y'\r\n\r\n/d\n" = .ok ⟨[.text ["a", " "],
      .command ⟨"b", [⟨some "c", "x y"⟩], some "/b c='x y'\r\n"⟩, .text ["\r\n"],
      .command ⟨"d", [], none⟩]⟩ := by decide +kernel
  exact ⟨_, h, parse_spans h⟩

end Briefing.Task
