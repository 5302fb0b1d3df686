import Briefing.Proofs.LineGrammar

/-!
# A task text is read by its grammar

A line that a slash opens has to be a command line (`CommandLine`), and a text whose lines keep to
this is never refused (`exists_ofTokens_iff`). Within a line, a slash behind a gap starts a command
exactly if the rest of its line is a command line. This is said by a relation between the tokens of
a text and the parts read from them (`Reading`), which every successful reading is in
(`ofTokens_reading`). No slash is lost within a command, so each slash of the text stands in one of
the parts (`Reading.slash`), and every command stands where a slash does (`Reading.command`).
-/

namespace Briefing.Task

open Token (scanFrom source)

/-- A slash that opens its line, or that a gap stands before. -/
def Token.Opens (before : List Token) (slash : Token) : Prop :=
  slash.kind = .commandStart ∨ slash.kind = .slash ∧ ∃ t ∈ before.getLast?, t.kind = .blank

/-- What an item stands for in a text. -/
inductive Item.IsSpan : Item → List Char → Prop
  | fragment {t : List Char} (ht : t ≠ []) : IsSpan (.fragment (String.ofList t)) t
  | opening {span : List Char} {name : String} {args : List Argument}
      (h : IsCommandText span name args) : IsSpan (.command ⟨name, args, none⟩) span
  | inline {span : List Char} {name : String} {args : List Argument}
      (h : IsCommandText span name args) :
      IsSpan (.command ⟨name, args, some (String.ofList span)⟩) span

/-- An item with the characters that it stands for. -/
abbrev Part := Item × List Char

/-- The item stands behind the characters `front` in the text that the parts make up. -/
def StandsAt (parts : List Part) (front : List Char) (item : Item) : Prop :=
  ∃ before span after, parts = before ++ (item, span) :: after
    ∧ before.flatMap Prod.snd = front

/-! ## Parts read from tokens -/

/-- The breaks left over behind a command, as a part. -/
def trailingPart (trailing : List Char) : List Part :=
  (Item.ofTrailing trailing).map fun item => (item, trailing)

/-- The parts of a token sequence that stands behind the tokens `front`. A slash that may start a
command does so if the line from there on is a command line. Any other token is a part of its own,
unless it is a slash that opens its line. -/
inductive Reading : List Token → List Token → List Part → Prop
  | nil {front : List Token} : Reading front [] []
  | text {front tokens : List Token} {t : Token} {parts : List Part} (hk : t.kind ≠ .commandStart)
      (hne : t.text ≠ [])
      (hno : t.Opens front →
        ∀ name args, ¬CommandLine (firstLine (source (t :: tokens))) name args)
      (h : Reading (front ++ [t]) tokens parts) :
      Reading front (t :: tokens) ((.fragment (String.ofList t.text), t.text) :: parts)
  | command {front used rest : List Token} {slash : Token} {c : Command} {span trailing : List Char}
      {parts : List Part} (hopens : slash.Opens front)
      (hline : CommandLine (firstLine (source (slash :: (used ++ rest)))) c.name c.arguments)
      (hspan : (Item.command c).IsSpan span) (htext : source (slash :: used) = span ++ trailing)
      (hused : ∀ t ∈ used, ¬t.IsSlash) (h : Reading (front ++ slash :: used) rest parts) :
      Reading front (slash :: (used ++ rest))
        ((.command c, span) :: (trailingPart trailing ++ parts))

theorem trailingPart_text (trailing : List Char) :
    (trailingPart trailing).flatMap Prod.snd = trailing := by
  cases trailing <;> simp [trailingPart, Item.ofTrailing]

/-- A command with what it leaves of its line, before the parts of the tokens behind it. -/
theorem Reading.of_command {front : List Token} {slash : Token} {offset : Nat}
    {text name : List Char} {l : Token.Line} {kept : Option String} {items : List Item}
    (hopens : slash.Opens front) (hslash : slash.text = ['/'])
    (h : Token.command slash (scanFrom offset false text) = .ok (name, l))
    (hkept : ∀ {span rest : List Char} {offset' : Nat},
      IsCommandText span (String.ofList name) l.arguments →
      '/' :: text = span ++ (l.trailing ++ rest) → l.rest = scanFrom offset' true rest →
      (Item.command ⟨String.ofList name, l.arguments, kept⟩).IsSpan span)
    (hrest : ∀ (front : List Token) {offset : Nat} {text : List Char},
      scanFrom offset true text = l.rest →
      (l.rest ≠ [] → (false = true ↔ ∃ t ∈ front.getLast?, t.kind = .blank)) →
      ∃ parts, parts.map Prod.fst = items ∧ Reading front l.rest parts) :
    ∃ parts, parts.map Prod.fst = .command ⟨String.ofList name, l.arguments, kept⟩
        :: (Item.ofTrailing l.trailing ++ items)
      ∧ Reading front (slash :: scanFrom offset false text) parts := by
  obtain ⟨span, rest, htext, hspan, -, offset', hscan⟩ := Token.command_text h
  obtain ⟨used, htokens, hused, hlast⟩ := Token.command_tokens h
  have hline : CommandLine (firstLine ('/' :: text)) (String.ofList name) l.arguments :=
    command_iff_commandLine.mp ⟨l, by rwa [String.toList_ofList], rfl⟩
  have hsource : source (slash :: (used ++ l.rest)) = '/' :: text := by
    rw [← htokens, source, List.flatMap_cons, ← source, Token.source_scanFrom, hslash]
    rfl
  have hspan' : source (slash :: used) = '/' :: span ++ l.trailing := by
    rw [← List.cons_append, source_append, hscan, Token.source_scanFrom, htext, ← List.append_assoc,
      ← List.cons_append] at hsource
    exact List.append_cancel_right hsource
  obtain ⟨parts, rfl, hparts⟩ := hrest (front ++ slash :: used) hscan.symm fun hne => by
    obtain ⟨t, ht, hk⟩ := hlast hne
    rw [List.getLast?_append, List.getLast?_cons, Option.mem_def.mp ht]
    simp [hk]
  refine ⟨(.command ⟨String.ofList name, l.arguments, kept⟩, '/' :: span)
    :: (trailingPart l.trailing ++ parts), ?_, ?_⟩
  · simp [trailingPart, Function.comp_def]
  · rw [htokens]
    exact .command hopens (hsource ▸ hline) (hkept hspan (congrArg _ htext) hscan) hspan' hused
      hparts

/-- Every successful reading is one by the grammar. -/
theorem ofTokens_reading {afterBlank : Bool} {tokens : List Token} {items : List Item}
    (h : Item.ofTokens afterBlank tokens = .ok items) {offset : Nat} {lineStart : Bool}
    {text : List Char} (hs : scanFrom offset lineStart text = tokens) (front : List Token)
    (hfront : tokens ≠ [] → (afterBlank = true ↔ ∃ t ∈ front.getLast?, t.kind = .blank)) :
    ∃ parts, parts.map Prod.fst = items ∧ Reading front tokens parts := by
  -- the tokens behind a token that is text, and the gap before them
  have hnext : ∀ {front tokens : List Token} {t : Token}, tokens ≠ [] →
      (decide (t.kind = .blank) = true ↔ ∃ u ∈ (front ++ [t]).getLast?, u.kind = .blank) := by
    simp
  fun_induction Item.ofTokens afterBlank tokens generalizing items offset lineStart text front with
  | case1 =>
    obtain rfl := Except.ok.inj h
    exact ⟨[], rfl, .nil⟩
  | case2 => simp at h
  | case3 _ token tokens hk name l hcommand ih =>
    obtain ⟨items, hitems, rfl⟩ := map_eq_ok.mp h
    obtain ⟨kind, t, o⟩ := token
    obtain rfl : kind = .commandStart := hk
    obtain ⟨rest, rfl, -, hl, rfl⟩ := Token.lexeme_of_scanFrom hs
    cases hl
    exact Reading.of_command (.inl rfl) rfl hcommand (fun hspan _ _ => .opening hspan)
      fun front _ _ hs hfront => ih hitems hs front hfront
  | case4 =>
    rename_i afterBlank token tokens hk asText hslash e hcommand ih
    obtain ⟨items, hitems, rfl⟩ := map_eq_ok.mp h
    obtain ⟨kind, t, o⟩ := token
    obtain ⟨rfl, rfl⟩ : kind = .slash ∧ afterBlank = true := by simpa using hslash
    obtain ⟨rest, rfl, -, hl, rfl⟩ := Token.lexeme_of_scanFrom hs
    cases hl
    obtain ⟨parts, rfl, hparts⟩ := ih hitems rfl _ hnext
    refine ⟨_, ?_, .text hk (List.cons_ne_nil _ _) (fun _ name args hline => ?_) hparts⟩
    · rfl
    · rw [source, List.flatMap_cons, ← source, Token.source_scanFrom] at hline
      obtain ⟨l, hl, -⟩ := command_iff_commandLine.mpr hline
      exact absurd (hcommand.symm.trans hl) (by simp)
  | case5 =>
    rename_i afterBlank token tokens hk hslash name l hcommand kept _ ih
    obtain ⟨items, hitems, rfl⟩ := map_eq_ok.mp h
    obtain ⟨kind, t, o⟩ := token
    obtain ⟨rfl, rfl⟩ : kind = .slash ∧ afterBlank = true := by simpa using hslash
    obtain ⟨rest, rfl, -, hl, rfl⟩ := Token.lexeme_of_scanFrom hs
    cases hl
    refine Reading.of_command (.inr ⟨rfl, (hfront (List.cons_ne_nil _ _)).mp rfl⟩) rfl hcommand
      (fun hspan htext hrest => ?_) fun front _ _ hs hfront => ih hitems hs front hfront
    have hkept : kept = _ := Item.sourceBefore_eq (hs.symm.trans (congrArg _ htext)) hrest
      ((Token.command_rest_suffix hcommand).trans (List.suffix_cons _ _))
    rw [hkept]
    exact .inline hspan
  | case6 =>
    rename_i afterBlank token tokens hk asText hslash ih
    obtain ⟨items, hitems, rfl⟩ := map_eq_ok.mp h
    obtain ⟨rest, rfl, -, hl, rfl⟩ := Token.lexeme_of_scanFrom hs
    obtain ⟨parts, rfl, hparts⟩ := ih hitems rfl _ hnext
    refine ⟨_, ?_, .text hk (Item.token_text_ne_nil hl) (fun hopens => ?_) hparts⟩
    · rfl
    · obtain hk' | ⟨hk', hblank⟩ := hopens
      · exact absurd hk' hk
      · have hafter := (hfront (List.cons_ne_nil _ _)).mpr hblank
        simp [hk', hafter] at hslash

section Reading

variable {front tokens : List Token} {parts : List Part}

/-- The parts make up the text. -/
theorem Reading.text_eq (h : Reading front tokens parts) :
    parts.flatMap Prod.snd = source tokens := by
  induction h with
  | nil => rfl
  | text _ _ _ _ ih => rw [List.flatMap_cons, ih]; rfl
  | command _ _ _ htext _ _ ih =>
    rw [List.flatMap_cons, List.flatMap_append, trailingPart_text, ih, ← List.append_assoc, ← htext,
      ← source_append, List.cons_append]

theorem Reading.isSpan (h : Reading front tokens parts) : ∀ part ∈ parts, part.1.IsSpan part.2 := by
  induction h with
  | nil => simp
  | text _ hne _ _ ih => exact List.forall_mem_cons.mpr ⟨.fragment hne, ih⟩
  | @command _ _ _ _ _ _ trailing _ _ _ hspan _ _ _ ih =>
    refine List.forall_mem_cons.mpr ⟨hspan, fun part hpart => ?_⟩
    rcases List.mem_append.mp hpart with hpart | hpart
    · rcases trailing with _ | ⟨c, s⟩
      · simp [trailingPart, Item.ofTrailing] at hpart
      · obtain rfl : part = (.fragment (String.ofList (c :: s)), c :: s) := by
          simpa [trailingPart, Item.ofTrailing] using hpart
        exact .fragment (List.cons_ne_nil _ _)
    · exact ih part hpart

theorem StandsAt.append {pos : List Char} {item : Item} (h : StandsAt parts pos item)
    (before : List Part) : StandsAt (before ++ parts) (before.flatMap Prod.snd ++ pos) item := by
  obtain ⟨ps, span, qs, rfl, rfl⟩ := h
  exact ⟨before ++ ps, span, qs, by simp, by simp⟩

theorem exists_of_append_eq {α : Type} {l₁ l₂ l₃ l₄ : List α} {x : α}
    (h : l₁ ++ l₂ = l₃ ++ x :: l₄) (hx : x ∉ l₁) : ∃ l, l₃ = l₁ ++ l ∧ l₂ = l ++ x :: l₄ := by
  rcases List.append_eq_append_iff.mp h with ⟨l, rfl, hl⟩ | ⟨l, rfl, hl⟩
  · exact ⟨l, rfl, hl⟩
  · rcases l with _ | ⟨y, l⟩
    · exact ⟨[], by simp, by simpa using hl.symm⟩
    · obtain ⟨rfl, -⟩ := List.cons.inj hl
      simp at hx

/-- Where a slash stands, there is a command or the slash itself. -/
theorem Reading.slash (h : Reading front tokens parts) {before after : List Token} {slash : Token}
    (ht : tokens = before ++ slash :: after) (hslash : slash.IsSlash) :
    (∃ c : Command, slash.Opens (front ++ before)
        ∧ CommandLine (firstLine (source (slash :: after))) c.name c.arguments
        ∧ StandsAt parts (source before) (.command c))
      ∨ slash.kind ≠ .commandStart
        ∧ (slash.Opens (front ++ before) →
          ∀ name args, ¬CommandLine (firstLine (source (slash :: after))) name args)
        ∧ StandsAt parts (source before) (.fragment (String.ofList slash.text)) := by
  induction h generalizing before with
  | nil => simp at ht
  | @text front tokens t parts hk hne hno h ih =>
    rcases before with _ | ⟨b, before⟩
    · obtain ⟨rfl, rfl⟩ := List.cons.inj ht
      rw [List.append_nil]
      exact .inr ⟨hk, hno, [], _, parts, rfl, rfl⟩
    · obtain ⟨rfl, rfl⟩ := List.cons.inj ht
      have hrest := ih rfl
      rw [List.append_assoc, List.singleton_append] at hrest
      have hstands : ∀ {item}, StandsAt parts (source before) item →
          StandsAt ((.fragment (String.ofList t.text), t.text) :: parts)
            (source (t :: before)) item :=
        fun h => by simpa [source] using h.append [(.fragment (String.ofList t.text), t.text)]
      rcases hrest with ⟨c, ho, hl, hs⟩ | ⟨hk, hno, hs⟩
      · exact .inl ⟨c, ho, hl, hstands hs⟩
      · exact .inr ⟨hk, hno, hstands hs⟩
  | @command front used rest start c span trailing parts hopens hline hspan htext hused h ih =>
    rcases before with _ | ⟨b, before⟩
    · obtain ⟨rfl, rfl⟩ := List.cons.inj ht
      rw [List.append_nil]
      exact .inl ⟨c, hopens, hline, [], span, _, rfl, rfl⟩
    · obtain ⟨rfl, ht'⟩ := List.cons.inj ht
      obtain ⟨before, rfl, rfl⟩ := exists_of_append_eq ht' fun hmem => hused slash hmem hslash
      have hrest := ih rfl
      rw [List.append_assoc, List.cons_append] at hrest
      have hstands : ∀ {item}, StandsAt parts (source before) item →
          StandsAt ((.command c, span) :: (trailingPart trailing ++ parts))
            (source (start :: (used ++ before))) item := by
        intro item h
        have hat := h.append ((.command c, span) :: trailingPart trailing)
        rwa [List.flatMap_cons, trailingPart_text, ← htext, ← source_append, List.cons_append,
          List.cons_append] at hat
      rcases hrest with ⟨c, ho, hl, hs⟩ | ⟨hk, hno, hs⟩
      · exact .inl ⟨c, ho, hl, hstands hs⟩
      · exact .inr ⟨hk, hno, hstands hs⟩

/-- Where a command stands, there is a slash that may start it, before a command line. -/
theorem Reading.command_at (h : Reading front tokens parts) {pos : List Char} {c : Command}
    (hc : StandsAt parts pos (.command c)) :
    ∃ before slash after, tokens = before ++ slash :: after ∧ source before = pos
      ∧ slash.Opens (front ++ before)
      ∧ CommandLine (firstLine (source (slash :: after))) c.name c.arguments := by
  obtain ⟨ps, span, qs, hparts, rfl⟩ := hc
  induction h generalizing ps with
  | nil => simp at hparts
  | @text front tokens t parts hk hne hno h ih =>
    rcases ps with _ | ⟨p, ps⟩
    · simp at hparts
    · obtain ⟨rfl, hparts'⟩ := List.cons.inj hparts
      obtain ⟨before, slash, after, rfl, hpos, hopens, hline⟩ := ih ps hparts'
      rw [List.append_assoc, List.singleton_append] at hopens
      exact ⟨t :: before, slash, after, rfl, by rw [List.flatMap_cons, ← hpos]; rfl, hopens, hline⟩
  | @command front used rest start c' span' trailing parts hopens hline hspan htext hused h ih =>
    rcases ps with _ | ⟨p, ps⟩
    · obtain ⟨he, -⟩ := List.cons.inj hparts
      obtain ⟨rfl, -⟩ : c' = c ∧ span' = span := by simpa using he
      exact ⟨[], start, used ++ rest, rfl, rfl, by simpa using hopens, hline⟩
    · obtain ⟨rfl, hparts'⟩ := List.cons.inj hparts
      have hmem : (Item.command c, span) ∉ trailingPart trailing := by
        cases trailing <;> simp [trailingPart, Item.ofTrailing]
      obtain ⟨ps, rfl, rfl⟩ := exists_of_append_eq hparts' hmem
      obtain ⟨before, slash, after, rfl, hpos, hopens, hline⟩ := ih ps rfl
      rw [List.append_assoc, List.cons_append] at hopens
      refine ⟨start :: (used ++ before), slash, after, by simp, ?_, hopens, hline⟩
      rw [List.flatMap_cons, List.flatMap_append, trailingPart_text, ← hpos, ← List.append_assoc,
        ← htext, ← source_append]
      rfl

end Reading

/-! ## What a text has to be -/

/-- A slash that opens a line without a command line on it is the only thing that is refused. -/
theorem ofTokens_error {afterBlank : Bool} {tokens : List Token} {e : ParseError}
    (h : Item.ofTokens afterBlank tokens = .error e) :
    ∃ slash after, slash :: after <:+ tokens ∧ slash.kind = .commandStart
      ∧ Token.command slash after = .error e := by
  fun_induction Item.ofTokens afterBlank tokens with
  | case1 => simp at h
  | case2 _ token tokens hk e' hcommand =>
    obtain rfl := Except.error.inj h
    exact ⟨token, tokens, List.suffix_refl _, hk, hcommand⟩
  | case3 _ token tokens hk name l hcommand ih
  | case5 _ token tokens hk hslash name l hcommand _ _ ih =>
    obtain ⟨slash, after, hsuffix, hslash⟩ := ih (map_eq_error.mp h)
    have hrest := (Token.command_rest_suffix hcommand).trans (List.suffix_cons token tokens)
    exact ⟨slash, after, hsuffix.trans hrest, hslash⟩
  | case4 _ token _ _ _ _ _ _ ih | case6 _ token _ _ _ _ ih =>
    obtain ⟨slash, after, hsuffix, hslash⟩ := ih (map_eq_error.mp h)
    exact ⟨slash, after, hsuffix.trans (List.suffix_cons token _), hslash⟩

/-- A text is read if every line that a slash opens is a command line, and only then. -/
theorem exists_ofTokens_iff (text : List Char) :
    (∃ items, Item.ofTokens false (scanFrom 0 true text) = .ok items) ↔
      ∀ line ∈ text.splitOnP isBreak, line.head? = some '/' →
        ∃ name args, CommandLine line name args := by
  constructor
  · rintro ⟨items, hitems⟩ line hline hhead
    obtain ⟨a, b, rfl, ha, rfl⟩ := mem_splitOnP_isBreak.mp hline
    obtain ⟨b, rfl⟩ := exists_of_head?_firstLine hhead
    obtain ⟨parts, -, hparts⟩ := ofTokens_reading hitems rfl [] (by simp)
    have hsource : source (⟨.commandStart, ['/'], Text.byteLength a⟩
        :: scanFrom (Text.byteLength a + 1) false b) = '/' :: b := by
      rw [source, List.flatMap_cons, ← source, Token.source_scanFrom]
      rfl
    rcases hparts.slash (scanFrom_slash_line ha b) (.inl rfl) with ⟨c, -, hc, -⟩ | ⟨hk, -⟩
    · exact ⟨c.name, c.arguments, hsource ▸ hc⟩
    · exact absurd rfl hk
  · intro hlines
    cases hitems : Item.ofTokens false (scanFrom 0 true text) with
    | ok items => exact ⟨items, rfl⟩
    | error e =>
      obtain ⟨⟨kind, t, o⟩, after, ⟨before, htokens⟩, rfl, hc⟩ := ofTokens_error hitems
      obtain ⟨lineStart, hafter, hstart⟩ := scanFrom_split htokens.symm
      obtain ⟨rest, htext, -, hl, rfl⟩ := Token.lexeme_of_scanFrom hafter.symm
      cases hl with
      | commandStart hline =>
        have ha : source before = [] ∨ EndsIn isBreak (source before) := by
          rcases hstart.mp hline with ⟨rfl, -⟩ | hend
          · exact .inl rfl
          · exact .inr hend
        have hmem : firstLine ('/' :: rest) ∈ text.splitOnP isBreak := by
          refine mem_splitOnP_isBreak.mpr ⟨source before, _, ?_, ha, rfl⟩
          rw [← Token.source_scanFrom 0 true text, ← htokens, source_append, htext]
          rfl
        obtain ⟨name, args, hcommand⟩ := hlines _ hmem rfl
        obtain ⟨l, hl, -⟩ := command_iff_commandLine.mpr hcommand
        exact absurd (hc.symm.trans hl) (by simp)

/-! ## Positions -/

theorem Item.IsSpan.ne_nil {item : Item} {span : List Char} (h : item.IsSpan span) : span ≠ [] := by
  cases h with
  | fragment ht => exact ht
  | opening h | inline h => cases h; exact List.cons_ne_nil _ _

theorem StandsAt.unique {parts : List Part} (hparts : ∀ part ∈ parts, part.1.IsSpan part.2)
    {pos : List Char} {item item' : Item} (h : StandsAt parts pos item)
    (h' : StandsAt parts pos item') : item = item' := by
  obtain ⟨ps, span, qs, rfl, rfl⟩ := h
  obtain ⟨ps', span', qs', he, hpos⟩ := h'
  have hsame := (eq_of_flatMap_eq he (fun part hpart => (hparts part hpart).ne_nil) hpos.symm).2
  exact congrArg Prod.fst (List.cons.inj hsame).1

section Positions

variable {offset : Nat} {lineStart : Bool} {text : List Char} {parts : List Part}
variable {before after : List Token} {slash : Token}

/-- A slash stands as a command exactly if it may start one and the line from there on is a command
line, which then says what the command is. -/
theorem Reading.stands_command_iff (h : Reading [] (scanFrom offset lineStart text) parts)
    (ht : scanFrom offset lineStart text = before ++ slash :: after) (hslash : slash.IsSlash)
    {name : String} {args : List Argument} :
    (∃ kept, StandsAt parts (source before) (.command ⟨name, args, kept⟩)) ↔
      slash.Opens before ∧ CommandLine (firstLine (source (slash :: after))) name args := by
  constructor
  · rintro ⟨kept, hc⟩
    obtain ⟨before', slash', after', ht', hpos, hopens, hline⟩ := h.command_at hc
    obtain ⟨rfl, hsame⟩ := eq_of_flatMap_eq (ht.symm.trans ht') (ht ▸ text_ne_nil) hpos.symm
    obtain ⟨rfl, rfl⟩ := List.cons.inj hsame
    exact ⟨hopens, hline⟩
  · rintro ⟨hopens, hline⟩
    rcases h.slash ht hslash with ⟨⟨name', args', kept⟩, -, hline', hc⟩ | ⟨-, hno, -⟩
    · obtain ⟨rfl, rfl⟩ := hline.unique hline'
      exact ⟨kept, hc⟩
    · exact absurd hline (hno hopens name args)

/-- A slash that is not the start of a command stands as text. -/
theorem Reading.stands_slash_iff (h : Reading [] (scanFrom offset lineStart text) parts)
    (ht : scanFrom offset lineStart text = before ++ slash :: after) (hslash : slash.IsSlash) :
    StandsAt parts (source before) (.fragment "/") ↔
      ¬(slash.Opens before
        ∧ ∃ name args, CommandLine (firstLine (source (slash :: after))) name args) := by
  have htext : slash.text = ['/'] := by
    obtain ⟨_, hafter, -⟩ := scanFrom_split ht
    obtain ⟨_, -, -, hl, -⟩ := Token.lexeme_of_scanFrom hafter.symm
    exact (slash_of_lexeme hl hslash).1
  constructor
  · rintro hf ⟨hopens, name, args, hline⟩
    obtain ⟨kept, hc⟩ := (h.stands_command_iff ht hslash).mpr ⟨hopens, hline⟩
    exact absurd (hf.unique h.isSpan hc) (by simp)
  · intro hno
    rcases h.slash ht hslash with ⟨c, hopens, hline, -⟩ | ⟨-, -, hf⟩
    · exact absurd ⟨hopens, c.name, c.arguments, hline⟩ hno
    · rw [htext] at hf
      exact hf

end Positions

/-- A task text is read exactly if each of its lines that starts with a slash is a command line; and
a line has one name and one list of arguments at most. What is read is made up of parts, one for
each command and each fragment of text. A slash stands as a command if it opens its line or has a
gap before it, and the line from there on is a command line, with the name and the arguments of that
line. Any other slash stands as text, and nothing but a slash stands as a command. -/
theorem parse_grammar (text : String) :
    ((∃ script, parse text = .ok script) ↔
      ∀ line ∈ text.toList.splitOnP isBreak, line.head? = some '/' →
        ∃ name args, CommandLine line name args)
      ∧ (∀ line name name' args args', CommandLine line name args → CommandLine line name' args' →
        name = name' ∧ args = args')
      ∧ ∀ script, parse text = .ok script → ∃ parts : List Part,
        Item.toBlocks (parts.map Prod.fst) = script.blocks
          ∧ parts.flatMap Prod.snd = text.toList
          ∧ (∀ part ∈ parts, part.1.IsSpan part.2)
          ∧ (∀ before slash after, Token.scan text = before ++ slash :: after → slash.IsSlash →
            (∀ name args, (∃ kept, StandsAt parts (source before) (.command ⟨name, args, kept⟩)) ↔
              slash.Opens before ∧ CommandLine (firstLine (source (slash :: after))) name args)
            ∧ (StandsAt parts (source before) (.fragment "/") ↔ ¬(slash.Opens before
              ∧ ∃ name args, CommandLine (firstLine (source (slash :: after))) name args)))
          ∧ ∀ pos c, StandsAt parts pos (.command c) → ∃ before slash after,
            Token.scan text = before ++ slash :: after ∧ slash.IsSlash ∧ source before = pos := by
  refine ⟨?_, fun _ _ _ _ _ h h' => h.unique h', fun script hscript => ?_⟩
  · rw [← exists_ofTokens_iff]
    constructor
    · rintro ⟨script, hscript⟩
      obtain ⟨items, hitems, -⟩ := map_eq_ok.mp hscript
      exact ⟨items, hitems⟩
    · rintro ⟨items, hitems⟩
      exact ⟨_, map_eq_ok.mpr ⟨items, hitems, rfl⟩⟩
  · obtain ⟨items, hitems, rfl⟩ := map_eq_ok.mp hscript
    obtain ⟨parts, rfl, hparts⟩ := ofTokens_reading hitems rfl [] (by simp)
    refine ⟨parts, rfl, ?_, hparts.isSpan, fun before slash after ht hslash =>
      ⟨fun name args => hparts.stands_command_iff ht hslash, hparts.stands_slash_iff ht hslash⟩,
      fun pos c hc => ?_⟩
    · rw [hparts.text_eq]
      exact Token.source_scanFrom 0 true text.toList
    · obtain ⟨before, slash, after, ht, hpos, hopens, -⟩ := hparts.command_at hc
      exact ⟨before, slash, after, ht, hopens.imp_right And.left, hpos⟩

end Briefing.Task
