import Briefing.Proofs.LineCommands

/-!
# A break behind a task text

A line break behind a text that does not end with one only ends its last line. Every token before it
stays what it is, and each slash starts the command that it started (`command_ended`). So the text
has the same blocks, but the last of them has the break at its end, unless it is a command that
opens its line, to which the break belongs (`parse_append_break`).
-/

namespace Briefing.Task

open Token (IsRun Lexeme closeQuote? scanFrom source)

/-- The blocks of a text, and those of the text with a break behind it. -/
inductive Block.Ended : List Block → List Block → Prop
  | text {fragments fragments' : List String}
      (h : Block.content fragments' = Block.content fragments ++ "\n") :
      Ended [.text fragments] [.text fragments']
  | command (c : Command) :
      Ended [.command c] [.command { c with source := c.source.map (· ++ "\n") }]
  | cons (block : Block) {blocks blocks' : List Block} (h : Ended blocks blocks') :
      Ended (block :: blocks) (block :: blocks')

theorem Block.Ended.ne_nil {blocks blocks' : List Block} (h : Ended blocks blocks') :
    blocks' ≠ [] := by
  cases h <;> exact List.cons_ne_nil _ _

/-- The items of a text, and those of the text with a break behind it. -/
inductive Item.Ended : List Item → List Item → Prop
  | fragment (t : String) : Ended [.fragment t] [.fragment (t ++ "\n")]
  | fragments (t : String) : Ended [.fragment t] [.fragment t, .fragment "\n"]
  | command (c : Command) :
      Ended [.command c] [.command { c with source := c.source.map (· ++ "\n") }]
  | cons (item : Item) {items items' : List Item} (h : Ended items items') :
      Ended (item :: items) (item :: items')

namespace Token

/-! ## Tokens -/

theorem closeQuote?_concat_break {q : Char} {s : List Char} (h : closeQuote? q s = none) :
    closeQuote? q (s ++ ['\n']) = none := by
  fun_induction closeQuote? q s with
  | case1 => simp [closeQuote?, isBreak]
  | case2 => simp [closeQuote?, isBreak]
  | case3 c s hc => simp [closeQuote?, hc]
  | case4 c s hc ih =>
    have hrest := ih (by simpa using h)
    simp [closeQuote?, hc, hrest]
  | case5 c s he he' hc =>
    rw [List.cons_append, closeQuote?_cons (ne_backslash_of_rest he he'), if_pos hc]
  | case6 => simp at h
  | case7 c s he he' hc hq ih =>
    have hrest := ih (by simpa using h)
    rw [List.cons_append, closeQuote?_cons (ne_backslash_of_rest he he'), if_neg hc,
      if_neg hq, hrest, Option.map_none]

/-- A token stays what it is before one more break, unless that continues it. -/
theorem Lexeme.concat_break {lineStart : Bool} {kind : Kind} {t rest : List Char}
    (h : Lexeme lineStart kind t rest) (hr : rest = [] → kind ≠ .lineBreak) :
    Lexeme lineStart kind t (rest ++ ['\n']) := by
  have hrun : ∀ {p : Char → Bool}, IsRun p t rest → (rest = [] → p '\n' = false) →
      IsRun p t (rest ++ ['\n']) := by
    intro p h hp
    refine ⟨h.ne_nil, h.all, ?_⟩
    rcases rest with _ | ⟨c, s⟩
    · simpa using hp rfl
    · exact h.stops
  cases h with
  | commandStart h => exact .commandStart h
  | slash h => exact .slash h
  | assign => exact .assign
  | quoted hq h => exact .quoted hq h
  | openQuote hq h => exact .openQuote hq (closeQuote?_concat_break h)
  | term h => exact .term (hrun h fun _ => rfl)
  | blank h => exact .blank (hrun h fun _ => rfl)
  | lineBreak h => exact .lineBreak (hrun h fun hnil => absurd rfl (hr hnil))

theorem dropBreak_concat_break {breaks : List Char} (hne : breaks ≠ [])
    (hlast : breaks.getLast? ≠ some '\n') (h : ∀ c ∈ breaks, isBreak c = true) :
    breaks = ['\r'] ∨ dropBreak breaks ≠ []
      ∧ dropBreak (breaks ++ ['\n']) = dropBreak breaks ++ ['\n'] := by
  obtain ⟨c, s, rfl⟩ := List.exists_cons_of_ne_nil hne
  rcases s with _ | ⟨x, s⟩
  · have hc := h c List.mem_cons_self
    simp only [isBreak, Bool.or_eq_true, decide_eq_true_eq] at hc
    rcases hc with rfl | rfl
    · simp at hlast
    · exact .inl rfl
  · refine .inr ?_
    by_cases hcr : c = '\r' ∧ x = '\n'
    · obtain ⟨rfl, rfl⟩ := hcr
      have hs : s ≠ [] := by
        rintro rfl
        simp at hlast
      exact ⟨hs, rfl⟩
    · have hdrop : ∀ t, dropBreak (c :: x :: t) = x :: t := by
        intro t
        unfold dropBreak
        split
        · rename_i he
          simp only [List.cons.injEq] at he
          exact absurd ⟨he.1, he.2.1⟩ hcr
        · rfl
      rw [List.cons_append, List.cons_append, hdrop, hdrop]
      exact ⟨List.cons_ne_nil _ _, rfl⟩

/-- The lines of a command, without and with a break behind the text: the command is last, or breaks
behind it are, or other text is. -/
inductive Line.Ended (r : List Char) : Line → Line → Prop
  | last (args : List Argument) : Ended r ⟨args, [], []⟩ ⟨args, [], []⟩
  | trailing (args : List Argument) {trailing : List Char} (h : trailing ≠ []) :
      Ended r ⟨args, trailing, []⟩ ⟨args, trailing ++ ['\n'], []⟩
  | more (args : List Argument) (trailing : List Char) (offset : Nat) {rest : List Char}
      (hne : rest ≠ []) (hrest : rest <:+ r) :
      Ended r ⟨args, trailing, scanFrom offset true rest⟩
        ⟨args, trailing, scanFrom offset true (rest ++ ['\n'])⟩

/-- A slash that starts a command starts the same one before one more break. -/
theorem command_ended {slash : Token} {offset : Nat} {r name : List Char} {l : Line}
    (hr : r.getLast? ≠ some '\n') (h : command slash (scanFrom offset false r) = .ok (name, l)) :
    ∃ l', command slash (scanFrom offset false (r ++ ['\n'])) = .ok (name, l')
      ∧ Line.Ended r l l' := by
  obtain ⟨body, tail, rfl, hname, hargs, hend⟩ := command_scanFrom_iff.mp h
  obtain ⟨args, trailing, tokens⟩ := l
  have hcommand : ∀ {tail' trailing' tokens'},
      LineEnd (offset + Text.byteLength name + Text.byteLength body) tail' trailing' tokens' →
      command slash (scanFrom offset false (name ++ (body ++ tail')))
        = .ok (name, ⟨args, trailing', tokens'⟩) :=
    fun hend => command_scanFrom_iff.mpr ⟨body, _, rfl, hname, hargs, hend⟩
  rw [List.append_assoc, List.append_assoc]
  dsimp only at hend
  cases hend with
  | stop => exact ⟨_, hcommand (lineEnd_of_forall (by simp [isBreak]) _), .last args⟩
  | @breaks breaks rest hrun =>
    rcases eq_or_ne rest [] with rfl | hne
    · rw [List.append_nil] at hr ⊢
      rw [scanFrom_nil]
      have hall : ∀ c ∈ breaks ++ ['\n'], isBreak c = true := by
        simpa [or_imp, forall_and, isBreak] using hrun.all
      have hlast : breaks.getLast? ≠ some '\n' := by
        rwa [← List.append_assoc, List.getLast?_append_of_ne_nil _ hrun.ne_nil] at hr
      refine ⟨_, hcommand (lineEnd_of_forall hall _), ?_⟩
      rcases dropBreak_concat_break hrun.ne_nil hlast hrun.all with rfl | ⟨hne, hdrop⟩
      · exact .last args
      · rw [hdrop]
        exact .trailing args hne
    · rw [List.append_assoc]
      refine ⟨_, hcommand (.breaks (hrun.append_right hne _)), .more args _ _ hne ?_⟩
      exact ⟨name ++ (body ++ breaks), by simp⟩

theorem firstLine_concat_break (s : List Char) : firstLine (s ++ ['\n']) = firstLine s :=
  Text.takeWhile_append_of_head (by simp [isBreak])

/-- A slash that starts no command starts none before one more break. -/
theorem command_error_concat_break {slash : Token} {offset : Nat} {r : List Char} {e : ParseError}
    (h : command slash (scanFrom offset false r) = .error e) :
    ∃ e, command slash (scanFrom offset false (r ++ ['\n'])) = .error e := by
  rcases hc : command slash (scanFrom offset false (r ++ ['\n'])) with e | ⟨name, l⟩
  · exact ⟨e, rfl⟩
  · have hline := command_iff_commandLine.mp
      ⟨l, by rw [String.toList_ofList]; exact hc, rfl⟩
    rw [← List.cons_append, firstLine_concat_break] at hline
    obtain ⟨l', hl', -⟩ := command_iff_commandLine.mpr hline
    rw [h] at hl'
    cases hl'

end Token

namespace Item

/-! ## Items -/

theorem sourceBefore_eq_take {tokens rest : List Token} (h : rest <:+ tokens) (k : Nat) :
    sourceBefore tokens rest k
      = (source tokens).take ((source tokens).length - ((source rest).length + k)) := by
  obtain ⟨front, rfl⟩ := h
  have hfront : (front ++ rest).take ((front ++ rest).length - rest.length) = front := by simp
  have hlength : (source (front ++ rest)).length - ((source rest).length + k)
      = (source front).length - k := by
    rw [source_append, List.length_append]
    omega
  rw [hlength, source_append, List.take_append_of_le_length (Nat.sub_le _ _), sourceBefore, hfront]
  rfl

/-- The text of a command before one more break: the break belongs to it if it is last. -/
theorem sourceBefore_ended {slash : Token} {offset : Nat} {r : List Char} {l l' : Token.Line}
    (h : Token.Line.Ended r l l') (hl : l.rest <:+ scanFrom offset false r)
    (hl' : l'.rest <:+ scanFrom offset false (r ++ ['\n'])) :
    sourceBefore (slash :: scanFrom offset false (r ++ ['\n'])) l'.rest l'.trailing.length
      = sourceBefore (slash :: scanFrom offset false r) l.rest l.trailing.length
        ++ if l.rest = [] ∧ l.trailing = [] then ['\n'] else [] := by
  have hsource : ∀ r, source (slash :: scanFrom offset false r) = slash.text ++ r := fun r =>
    congrArg (slash.text ++ ·) (Token.source_scanFrom offset false r)
  rw [sourceBefore_eq_take (hl'.trans (List.suffix_cons _ _)),
    sourceBefore_eq_take (hl.trans (List.suffix_cons _ _)), hsource, hsource, ← List.append_assoc]
  generalize slash.text ++ r = text
  cases h with
  | last args => simp [source, List.take_of_length_le]
  | trailing args hne => simp [source, hne, List.take_append_of_le_length]
  | @more args trailing offset' rest hne hrest =>
    have hlength : (text ++ ['\n']).length - ((rest ++ ['\n']).length + trailing.length)
        = text.length - (rest.length + trailing.length) := by
      simp only [List.length_append, List.length_singleton]
      omega
    simp only [Token.source_scanFrom, Token.scanFrom_ne_nil hne, false_and, if_false,
      List.append_nil]
    rw [hlength, List.take_append_of_le_length (Nat.sub_le _ _)]

/-- What stands for a command that a slash starts: nothing if it opens its line. -/
def keptSource (slash : Token) (tokens : List Token) (l : Token.Line) : Option String :=
  if slash.kind = .commandStart then none
  else some (String.ofList (sourceBefore (slash :: tokens) l.rest l.trailing.length))

theorem step_command {afterBlank : Bool} {slash : Token} {tokens : List Token} {name : List Char}
    {l : Token.Line} (hs : slash.kind = .commandStart ∨ slash.kind = .slash ∧ afterBlank = true)
    (hc : Token.command slash tokens = .ok (name, l)) :
    step afterBlank slash tokens
      = .ok (command ⟨String.ofList name, l.arguments, keptSource slash tokens l⟩
        :: ofTrailing l.trailing, false, l.rest) := by
  rcases hs with hs | ⟨hs, rfl⟩ <;> simp [step, keptSource, hs, hc, Except.map]

/-- A token other than a slash is text. -/
theorem ofTokens_lexeme {lineStart : Bool} {kind : Token.Kind} {text rest : List Char}
    (hl : Lexeme lineStart kind text rest) (hk : kind ≠ .commandStart ∧ kind ≠ .slash)
    (afterBlank : Bool) (offset : Nat) :
    ofTokens afterBlank (scanFrom offset lineStart (text ++ rest))
      = (ofTokens (kind = .blank)
          (scanFrom (offset + Text.byteLength text) (kind = .lineBreak) rest)).map
        (fragment (String.ofList text) :: ·) := by
  rw [Token.scanFrom_lexeme offset hl, ofTokens_cons,
    step_fragment hk.1 fun hslash => absurd hslash hk.2]
  rfl

theorem ofTokens_breaks {breaks : List Char} (h : IsRun isBreak breaks []) (afterBlank : Bool)
    (offset : Nat) (lineStart : Bool) :
    ofTokens afterBlank (scanFrom offset lineStart breaks)
      = .ok [fragment (String.ofList breaks)] := by
  have hl : Lexeme lineStart .lineBreak breaks [] := .lineBreak h
  have hitems := ofTokens_lexeme hl (by simp) afterBlank offset
  rwa [List.append_nil, Token.scanFrom_nil, ofTokens_nil] at hitems

theorem Ended.append (front : List Item) {items items' : List Item} (h : Ended items items') :
    Ended (front ++ items) (front ++ items') := by
  induction front with
  | nil => exact h
  | cons item front ih => exact .cons item ih

/-- What is read at a token of a text, and at the same token before one more break: more of the text
follows it in both, or in the text nothing does. -/
inductive StepEnded (r : List Char) :
    List Item × Bool × List Token → List Item × Bool × List Token → Prop
  | more (first : List Item) (afterBlank : Bool) (offset : Nat) (lineStart : Bool)
      {rest : List Char} (hne : rest ≠ []) (hrest : rest <:+ r) :
      StepEnded r (first, afterBlank, scanFrom offset lineStart rest)
        (first, afterBlank, scanFrom offset lineStart (rest ++ ['\n']))
  | last {first first' items : List Item} {afterBlank : Bool} {tokens : List Token}
      (h : ofTokens afterBlank tokens = .ok items) (hend : Ended first (first' ++ items)) :
      StepEnded r (first, afterBlank, []) (first', afterBlank, tokens)

theorem stepEnded_fragment (token : Token) (afterBlank : Bool) (offset : Nat) (lineStart : Bool)
    (r : List Char) : StepEnded r ([ofToken token], afterBlank, scanFrom offset lineStart r)
      ([ofToken token], afterBlank, scanFrom offset lineStart (r ++ ['\n'])) := by
  rcases eq_or_ne r [] with rfl | hne
  · have hrun : IsRun isBreak ['\n'] [] := ⟨by simp, by simp [isBreak], by simp⟩
    rw [Token.scanFrom_nil]
    exact .last (ofTokens_breaks hrun ..) (.fragments _)
  · exact .more _ afterBlank offset lineStart hne (List.suffix_refl _)

theorem step_command_ended {afterBlank : Bool} {slash : Token} {offset : Nat} {r name : List Char}
    {l : Token.Line} (hr : r.getLast? ≠ some '\n')
    (hs : slash.kind = .commandStart ∨ slash.kind = .slash ∧ afterBlank = true)
    (hc : Token.command slash (scanFrom offset false r) = .ok (name, l)) :
    ∃ x x', step afterBlank slash (scanFrom offset false r) = .ok x
      ∧ step afterBlank slash (scanFrom offset false (r ++ ['\n'])) = .ok x'
      ∧ StepEnded r x x' := by
  obtain ⟨l', hc', hl⟩ := Token.command_ended hr hc
  refine ⟨_, _, step_command hs hc, step_command hs hc', ?_⟩
  have hkept : keptSource slash (scanFrom offset false (r ++ ['\n'])) l'
      = if l.rest = [] ∧ l.trailing = [] then
          (keptSource slash (scanFrom offset false r) l).map (· ++ "\n")
        else keptSource slash (scanFrom offset false r) l := by
    unfold keptSource
    rw [sourceBefore_ended hl (Token.command_rest_suffix hc) (Token.command_rest_suffix hc')]
    split <;> split <;> simp [String.ofList_append]
  rw [hkept]
  cases hl with
  | last args => exact .last (ofTokens_nil _) (.command _)
  | @trailing args trailing hne =>
    refine .last (ofTokens_nil _) ?_
    simp only [hne, and_false, if_false, ofTrailing, List.isEmpty_iff, List.append_eq_nil_iff,
      false_and, List.append_nil, String.ofList_append]
    exact .cons _ (.fragment _)
  | @more args trailing offset' rest hne hrest =>
    simp only [Token.scanFrom_ne_nil hne, false_and, if_false]
    exact .more _ false offset' true hne hrest

theorem step_ended {afterBlank lineStart : Bool} {token : Token} {offset : Nat} {r : List Char}
    {x : List Item × Bool × List Token} (hr : r.getLast? ≠ some '\n')
    (hslash : token.kind = .commandStart ∨ token.kind = .slash → lineStart = false)
    (h : step afterBlank token (scanFrom offset lineStart r) = .ok x) :
    ∃ x', step afterBlank token (scanFrom offset lineStart (r ++ ['\n'])) = .ok x'
      ∧ StepEnded r x x' := by
  by_cases hopens : token.kind = .commandStart ∨ token.kind = .slash ∧ afterBlank = true
  · obtain rfl := hslash (hopens.imp_right And.left)
    rcases hc : Token.command token (scanFrom offset false r) with e | ⟨name, l⟩
    · -- a slash that starts no command is text
      obtain ⟨e', he'⟩ := Token.command_error_concat_break hc
      have hk : token.kind ≠ .commandStart := by
        intro hk
        simp [step, hk, hc, Except.map] at h
      rw [step_fragment hk fun _ _ => ⟨e, hc⟩] at h
      obtain rfl := Except.ok.inj h
      exact ⟨_, step_fragment hk fun _ _ => ⟨e', he'⟩, stepEnded_fragment ..⟩
    · obtain ⟨_, x', hx, hx', hend⟩ := step_command_ended hr hopens hc
      obtain rfl := Except.ok.inj (hx.symm.trans h)
      exact ⟨x', hx', hend⟩
  · obtain ⟨hk, hs⟩ := not_or.mp hopens
    rw [step_fragment hk fun hslash hblank => absurd ⟨hslash, hblank⟩ hs] at h
    obtain rfl := Except.ok.inj h
    exact ⟨_, step_fragment hk fun hslash hblank => absurd ⟨hslash, hblank⟩ hs,
      stepEnded_fragment ..⟩

/-- One more break continues the breaks before it. -/
theorem ofTokens_breaks_ended {breaks : List Char} (hrun : IsRun isBreak breaks [])
    {afterBlank lineStart : Bool} {offset : Nat} {items : List Item}
    (h : ofTokens afterBlank (scanFrom offset lineStart breaks) = .ok items) :
    ∃ items', ofTokens afterBlank (scanFrom offset lineStart (breaks ++ ['\n'])) = .ok items'
      ∧ Ended items items' := by
  have hrun' : IsRun isBreak (breaks ++ ['\n']) [] :=
    ⟨by simp, by simpa [or_imp, forall_and, isBreak] using hrun.all, by simp⟩
  obtain rfl := Except.ok.inj ((ofTokens_breaks hrun ..).symm.trans h)
  refine ⟨_, ofTokens_breaks hrun' .., ?_⟩
  rw [String.ofList_append]
  exact .fragment _

/-- The items of a text before one more break. -/
theorem ofTokens_ended {text : List Char} (hne : text ≠ []) (hlast : text.getLast? ≠ some '\n')
    {afterBlank lineStart : Bool} {offset : Nat} {items : List Item}
    (h : ofTokens afterBlank (scanFrom offset lineStart text) = .ok items) :
    ∃ items', ofTokens afterBlank (scanFrom offset lineStart (text ++ ['\n'])) = .ok items'
      ∧ Ended items items' := by
  induction hn : text.length using Nat.strongRecOn
    generalizing text afterBlank lineStart offset items with
  | _ n ih =>
    subst hn
    rcases hs : scanFrom offset lineStart text with _ | ⟨token, tokens⟩
    · exact absurd (by rw [← Token.source_scanFrom offset lineStart text, hs]; rfl) hne
    · obtain ⟨rest, rfl, rfl, hl, rfl⟩ := Token.lexeme_of_scanFrom hs
      by_cases hrun : rest = [] ∧ token.kind = .lineBreak
      · obtain ⟨rfl, hk⟩ := hrun
        rw [hk] at hl
        rw [List.append_nil] at h ⊢
        cases hl with
        | lineBreak hrun => exact ofTokens_breaks_ended hrun h
      · have hl' := hl.concat_break fun hnil hk => hrun ⟨hnil, hk⟩
        have hslash : token.kind = .commandStart ∨ token.kind = .slash →
            decide (token.kind = .lineBreak) = false :=
          fun hk => decide_eq_false (slash_of_lexeme hl hk).2.1
        have hlast' : rest.getLast? ≠ some '\n' := by
          rcases eq_or_ne rest [] with rfl | hne
          · simp
          · rwa [List.getLast?_append_of_ne_nil _ hne] at hlast
        rw [List.append_assoc, Token.scanFrom_lexeme _ hl', ofTokens_cons]
        rw [hs, ofTokens_cons] at h
        cases hstep : step afterBlank token (scanFrom (token.offset + Text.byteLength token.text)
            (token.kind = .lineBreak) rest) with
        | error e => simp [hstep, Except.bind] at h
        | ok x =>
          obtain ⟨x', hstep', hend⟩ := step_ended hlast' hslash hstep
          rw [hstep] at h
          obtain ⟨items, hitems, rfl⟩ := map_eq_ok.mp h
          rw [hstep']
          cases hend with
          | @more first afterBlank' offset' lineStart' rest' hne' hrest' =>
            have hshort : rest'.length < (token.text ++ rest).length := by
              have := hrest'.length_le
              have := List.length_pos_iff.mpr (token_text_ne_nil hl)
              rw [List.length_append]
              omega
            have hlast'' : rest'.getLast? ≠ some '\n' := by
              obtain ⟨front, rfl⟩ := hrest'
              rwa [List.getLast?_append_of_ne_nil _ hne'] at hlast'
            obtain ⟨items', hitems', hend⟩ := ih _ hshort hne' hlast'' hitems rfl
            exact ⟨_, map_eq_ok.mpr ⟨items', hitems', rfl⟩, hend.append first⟩
          | last hitems' hend =>
            obtain rfl := Except.ok.inj ((ofTokens_nil _).symm.trans hitems)
            exact ⟨_, map_eq_ok.mpr ⟨_, hitems', rfl⟩, by rwa [List.append_nil]⟩

/-! ## Blocks -/

theorem Ended.toBlocks {items items' : List Item} (h : Ended items items') :
    Block.Ended (toBlocks items) (toBlocks items') := by
  induction h with
  | fragment t => exact .text (by simp [Block.content])
  | fragments t => exact .text (by simp [Block.content])
  | command c => exact .command c
  | @cons item items items' h ih =>
    cases item with
    | command c => exact .cons (.command c) ih
    | fragment t =>
      rw [Item.toBlocks, Item.toBlocks]
      generalize Item.toBlocks items = blocks, Item.toBlocks items' = blocks' at ih
      cases ih with
      | text h =>
        have ht := congrArg (t ++ ·) h
        exact .text (by simpa [Block.content, String.join_cons, String.append_assoc] using ht)
      | command c => exact .cons _ (.command c)
      | cons block h =>
        cases block with
        | text fragments => exact .cons _ h
        | command c => exact .cons _ (.cons _ h)

end Item

/-- A text that does not end with a line break has the same blocks before a break. -/
theorem parse_append_break {text : String} {blocks : List Block} (hne : text ≠ "")
    (hlast : text.toList.getLast? ≠ some '\n') (h : parse text = .ok ⟨blocks⟩) :
    ∃ blocks', parse (text ++ "\n") = .ok ⟨blocks'⟩ ∧ Block.Ended blocks blocks' := by
  obtain ⟨items, hitems, hblocks⟩ := map_eq_ok.mp h
  obtain rfl := congrArg Script.blocks hblocks
  obtain ⟨items', hitems', hend⟩ := Item.ofTokens_ended (by simpa using hne) hlast hitems
  refine ⟨_, ?_, hend.toBlocks⟩
  rw [parse, Token.scan, String.toList_append]
  exact map_eq_ok.mpr ⟨items', hitems', rfl⟩

end Briefing.Task
