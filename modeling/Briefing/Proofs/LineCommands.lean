import Briefing.Proofs.OpenQuotes

/-!
# Lines with a command

A line has at most one command: the tokens before its slash are text, and it goes on to the end of
the line (`line_items`). What becomes of the line when its command is put in canonical form depends
on the quotes that stand open before it. If none of them is in the canonical text, the tokens before
the command stay what they are and the command is read again (`StartsCommand.reads`). If one is, it
closes there, and the whole line is text (`StartsCommand.lost`).
-/

namespace Briefing.Task

open Token (IsRun Lexeme closeQuote? scanFrom source kinds kinds_quote Spoiled Inert)

namespace Item

/-- A token as text. -/
def ofToken (t : Token) : Item := fragment (String.ofList t.text)

/-- A line with a command, and what is left of the breaks behind it. -/
def ofLine (pre : List Token) (c : Command) (trailing : List Char) : List Item :=
  pre.map ofToken ++ command c :: ofTrailing trailing

/-! ## The first command of a line -/

/-- Whether a gap stands behind tokens, if `afterBlank` tells so for the place before them. -/
def gapBehind (afterBlank : Bool) (tokens : List Token) : Bool :=
  tokens.foldl (fun _ t => t.kind = .blank) afterBlank

/-- A token that starts no command is text. -/
theorem step_fragment {afterBlank : Bool} {t : Token} {tokens : List Token}
    (hk : t.kind ≠ .commandStart)
    (hs : t.kind = .slash → afterBlank = true → ∃ e, Token.command t tokens = .error e) :
    step afterBlank t tokens = .ok ([ofToken t], t.kind = .blank, tokens) := by
  rw [step, if_neg hk]
  split
  · rename_i hslash hc
    obtain ⟨hslash, hblank⟩ := by simpa using hslash
    obtain ⟨e, he⟩ := hs hslash hblank
    cases he.symm.trans hc
  · rfl

theorem step_text {afterBlank : Bool} {t : Token} {tokens : List Token}
    (hk : t.kind ≠ .commandStart) (hs : t.kind = .slash → Spoiled (tokens.map Token.kind)) :
    step afterBlank t tokens = .ok ([ofToken t], t.kind = .blank, tokens) := by
  refine step_fragment hk fun hslash _ => ?_
  rcases hc : Token.command t tokens with e | x
  · exact ⟨e, rfl⟩
  · exact absurd (hs hslash) (Token.command_not_spoiled hc)

/-- What is read at a token: its text, or a command that it starts. -/
theorem step_cases {afterBlank afterBlank' : Bool} {t : Token} {tokens rest : List Token}
    {items : List Item} (h : step afterBlank t tokens = .ok (items, afterBlank', rest)) :
    (t.kind ≠ .commandStart ∧ items = [ofToken t] ∧ afterBlank' = decide (t.kind = .blank)
        ∧ rest = tokens)
      ∨ ∃ name l kept, (t.kind = .commandStart ∨ t.kind = .slash ∧ afterBlank = true)
        ∧ Token.command t tokens = .ok (name, l) ∧ afterBlank' = false ∧ rest = l.rest
        ∧ items = command ⟨String.ofList name, l.arguments, kept⟩ :: ofTrailing l.trailing := by
  unfold step at h
  split at h
  · rename_i hk
    obtain ⟨⟨name, l⟩, hc, he⟩ := map_eq_ok.mp h
    obtain ⟨rfl, rfl, rfl⟩ := by simpa using he
    exact .inr ⟨name, l, none, .inl hk, hc, rfl, rfl, rfl⟩
  · rename_i hk
    split at h
    · rename_i hs hc
      obtain ⟨rfl, rfl, rfl⟩ := by simpa using h
      exact .inr ⟨_, _, _, .inr (by simpa using hs), hc, rfl, rfl, rfl⟩
    · obtain ⟨rfl, rfl, rfl⟩ := by simpa using h
      exact .inl ⟨hk, rfl, rfl, rfl⟩

/-- Tokens none of which starts a command are text. -/
theorem ofTokens_text_append (afterBlank : Bool) {tokens : List Token} (more : List Token)
    (h : ∀ before t after, tokens = before ++ t :: after → t.kind ≠ .commandStart
      ∧ (t.kind = .slash → Spoiled ((after ++ more).map Token.kind))) :
    ofTokens afterBlank (tokens ++ more)
      = (ofTokens (gapBehind afterBlank tokens) more).map (tokens.map ofToken ++ ·) := by
  induction tokens generalizing afterBlank with
  | nil => cases hm : ofTokens afterBlank more <;> simp [gapBehind, Except.map, hm]
  | cons t tokens ih =>
    obtain ⟨hk, hs⟩ := h [] t tokens rfl
    have hrest := ih (t.kind = .blank)
      fun before u after hu => h (t :: before) u after (by rw [hu]; rfl)
    have hgap : gapBehind afterBlank (t :: tokens) = gapBehind (t.kind = .blank) tokens := rfl
    rw [List.cons_append, ofTokens_cons, step_text hk hs, hgap]
    simp only [Except.bind, hrest]
    cases ofTokens (gapBehind (t.kind = .blank) tokens) more <;> simp [Except.map]

theorem ofTokens_inert {afterBlank : Bool} {tokens : List Token}
    (h : Inert (tokens.map Token.kind)) :
    ofTokens afterBlank tokens = .ok (tokens.map ofToken) := by
  have hsplit : ∀ before t after, tokens = before ++ t :: after → t.kind ≠ .commandStart
      ∧ (t.kind = .slash → Spoiled ((after ++ []).map Token.kind)) := by
    rintro before t after rfl
    rw [List.append_nil]
    rw [List.map_append, List.map_cons] at h
    exact h.of_append
  have htext := ofTokens_text_append afterBlank [] hsplit
  simpa [ofTokens, Except.map] using htext

/-- A slash that starts a command. -/
theorem ofTokens_slash (afterBlank : Bool) {slash : Token} {tokens : List Token}
    {name : List Char} {l : Token.Line} {items : List Item}
    (hs : slash.kind = .commandStart ∨ slash.kind = .slash ∧ afterBlank = true)
    (hc : Token.command slash tokens = .ok (name, l)) (hl : ofTokens false l.rest = .ok items) :
    ∃ kept, ofTokens afterBlank (slash :: tokens)
      = .ok (command ⟨String.ofList name, l.arguments, kept⟩
        :: (ofTrailing l.trailing ++ items)) := by
  rw [ofTokens_cons]
  rcases hs with hs | ⟨hs, rfl⟩
  · exact ⟨none, by simp [step, hs, hc, hl, Except.map, Except.bind]⟩
  · exact ⟨_, by simp [step, hs, hc, hl, Except.map, Except.bind]; rfl⟩

/-- The items of tokens up to the first command, or all of them. -/
theorem ofTokens_first {afterBlank : Bool} {tokens : List Token} {items : List Item}
    (h : ofTokens afterBlank tokens = .ok items) :
    items = tokens.map ofToken ∨ ∃ pre slash after name l kept items',
      tokens = pre ++ slash :: after ∧ (∀ t ∈ pre, t.kind ≠ .commandStart)
        ∧ (slash.kind = .commandStart ∨ slash.kind = .slash ∧ gapBehind afterBlank pre = true)
        ∧ Token.command slash after = .ok (name, l) ∧ ofTokens false l.rest = .ok items'
        ∧ items = ofLine pre ⟨String.ofList name, l.arguments, kept⟩ l.trailing ++ items' := by
  induction tokens generalizing afterBlank items with
  | nil =>
    rw [ofTokens] at h
    exact .inl (Except.ok.inj h).symm
  | cons t tokens ih =>
    rw [ofTokens_cons] at h
    cases hs : step afterBlank t tokens with
    | error e => simp [hs, Except.bind] at h
    | ok x =>
      obtain ⟨first, afterBlank', rest⟩ := x
      simp only [hs, Except.bind] at h
      obtain ⟨items', hitems, rfl⟩ := map_eq_ok.mp h
      rcases step_cases hs with ⟨hk, rfl, rfl, rfl⟩ | ⟨name, l, kept, hslash, hc, rfl, rfl, rfl⟩
      · rcases ih hitems with
          rfl | ⟨pre, slash, after, name, l, kept, more, rfl, hpre, hslash, hc, hl, rfl⟩
        · exact .inl rfl
        · exact .inr ⟨t :: pre, slash, after, name, l, kept, more, rfl,
            List.forall_mem_cons.mpr ⟨hk, hpre⟩, hslash, hc, hl, rfl⟩
      · exact .inr ⟨[], t, tokens, name, l, kept, items', rfl, by simp, hslash, hc, hitems, rfl⟩

end Item

/-! ## Another text behind tokens -/

/-- A token before a text stays what it is if the text starts alike and does not match the token as
a quote. -/
theorem Lexeme.exchange {lineStart : Bool} {kind : Token.Kind} {text w t t' : List Char}
    (h : Lexeme lineStart kind text (w ++ t)) (hhead : (w ++ t).head? = (w ++ t').head?)
    (hq : kind = .openQuote → ∀ q ∈ text, q ∉ t') : Lexeme lineStart kind text (w ++ t') := by
  have hrun : ∀ {p : Char → Bool}, IsRun p text (w ++ t) → IsRun p text (w ++ t') :=
    fun h => ⟨h.ne_nil, h.all, hhead ▸ h.stops⟩
  cases h with
  | commandStart h => exact .commandStart h
  | slash h => exact .slash h
  | assign => exact .assign
  | quoted hquote h => exact .quoted hquote h
  | openQuote hquote h =>
    exact .openQuote hquote (closeQuote?_exchange h (hq rfl _ (List.mem_singleton_self _)))
  | term h => exact .term (hrun h)
  | blank h => exact .blank (hrun h)
  | lineBreak h => exact .lineBreak (hrun h)

/-- Tokens stay what they are if the text behind them is exchanged for one that starts alike and
has none of the quotes that stand open among them. -/
theorem scanFrom_exchange {offset : Nat} {lineStart : Bool} {pre more : List Token}
    {u t t' : List Char} (h : scanFrom offset lineStart (source pre ++ (u ++ t)) = pre ++ more)
    (hhead : (u ++ t).head? = (u ++ t').head?)
    (hq : ∀ tok ∈ pre, tok.kind = .openQuote → ∀ q ∈ tok.text, q ∉ t') :
    ∃ offset' lineStart', scanFrom offset' lineStart' (u ++ t) = more
      ∧ scanFrom offset lineStart (source pre ++ (u ++ t'))
        = pre ++ scanFrom offset' lineStart' (u ++ t') := by
  induction pre generalizing offset lineStart with
  | nil => exact ⟨offset, lineStart, h, rfl⟩
  | cons tok pre ih =>
    have hsource : ∀ s, source (tok :: pre) ++ s = tok.text ++ (source pre ++ s) := by simp [source]
    rw [hsource] at h ⊢
    obtain ⟨rest, htext, hoff, hl, htokens⟩ := Token.lexeme_of_scanFrom h
    obtain rfl := List.append_cancel_left htext
    obtain ⟨offset', lineStart', hmore, hnew⟩ := ih htokens.symm
      fun x hx => hq x (List.mem_cons_of_mem _ hx)
    refine ⟨offset', lineStart', hmore, ?_⟩
    rw [← List.append_assoc] at hl
    have hpre : ∀ s, (source pre ++ u ++ s).head? = (source pre).head?.or (u ++ s).head? :=
      fun s => by rw [List.append_assoc, List.head?_append]
    have hhead' : (source pre ++ u ++ t).head? = (source pre ++ u ++ t').head? := by
      rw [hpre, hpre, hhead]
    have hl' := Lexeme.exchange hl hhead' (hq tok List.mem_cons_self)
    rw [List.append_assoc] at hl'
    rw [Token.scanFrom_lexeme offset hl', hnew, ← hoff]
    rfl

/-! ## Lines with a command -/

/-- The tokens `pre` stand before a slash that starts a command on their line, with the text `t`
behind it. -/
structure StartsCommand (pre : List Token) (slash : Token) (t : List Char) : Prop where
  scan : ∃ more, scanFrom 0 true (source pre ++ '/' :: t) = pre ++ slash :: more
  noStart : ∀ tok ∈ pre, tok.kind ≠ .commandStart
  noBreak : ∀ tok ∈ pre, ∀ c ∈ tok.text, isBreak c = false
  opens : pre = [] ∧ slash.kind = .commandStart
    ∨ slash.kind = .slash ∧ Item.gapBehind false pre = true

theorem ArgumentText.termKey {t : List Char} {a : Argument} (h : ArgumentText t a) :
    ∀ key ∈ a.key, IsTerm key.toList := by
  cases h with
  | positional _ => simp
  | empty hk | named hk _ =>
    rintro _ ⟨⟩
    rwa [String.toList_ofList]

theorem ArgumentsText.termKeys {body : List Char} {args : List Argument}
    (h : ArgumentsText body args) : TermKeys args := by
  induction h with
  | nil => simp [TermKeys]
  | cons _ _ ha _ ih => exact List.forall_mem_cons.mpr ⟨ha.termKey, ih⟩

theorem LineEnd.of_breaks {offset : Nat} {tail trailing : List Char} {tokens : List Token}
    (h : LineEnd offset tail trailing tokens) (ht : ∀ c ∈ tail, isBreak c = true) :
    trailing = Token.dropBreak tail ∧ tokens = [] := by
  cases h with
  | stop => exact ⟨rfl, rfl⟩
  | @breaks breaks rest hrun =>
    rcases rest with _ | ⟨c, s⟩
    · rw [List.append_nil, Token.scanFrom_nil]
      exact ⟨rfl, rfl⟩
    · have hc := hrun.stops c rfl
      simp [ht c (by simp)] at hc

/-- A line without breaks, before breaks: all of it is text, or it has one command, with what is
left of the breaks behind it. -/
theorem line_items {x breaks : List Char} {items : List Item} (hx : ∀ c ∈ x, isBreak c = false)
    (hbreaks : ∀ c ∈ breaks, isBreak c = true)
    (h : Item.ofTokens false (scanFrom 0 true (x ++ breaks)) = .ok items) :
    items = (scanFrom 0 true (x ++ breaks)).map Item.ofToken
      ∨ ∃ pre slash t c, StartsCommand pre slash t ∧ Command.IsWritable c
        ∧ items = Item.ofLine pre c (Token.dropBreak breaks) := by
  rcases Item.ofTokens_first h with
    htext | ⟨pre, slash, after, name, l, kept, items', htokens, hpre, hslash, hc, hl, rfl⟩
  · exact .inl htext
  · obtain ⟨lineStart, hafter, hstart⟩ := scanFrom_split htokens
    obtain ⟨t, hsource, -, hlex, rfl⟩ := Token.lexeme_of_scanFrom hafter.symm
    obtain ⟨hmark, hkind, hlineStart⟩ := slash_of_lexeme hlex (hslash.imp_right And.left)
    rw [decide_eq_false hkind] at hc
    have htext : x ++ breaks = source pre ++ '/' :: t := by
      rw [← Token.source_scanFrom 0 true (x ++ breaks), htokens, source_append, hsource, hmark]
      rfl
    obtain ⟨body, tail, rfl, hname, hargs, hend⟩ := Token.command_scanFrom_iff.mp hc
    have hpreBreak : ∀ c ∈ source pre, isBreak c = false := by
      rcases List.append_eq_append_iff.mp htext with ⟨z, -, hz⟩ | ⟨z, rfl, -⟩
      · have hmem := hbreaks '/' (by simp [hz])
        simp [isBreak] at hmem
      · exact fun c hc => hx c (List.mem_append_left _ hc)
    -- the command's text goes on to the breaks
    obtain ⟨rfl, rfl⟩ : x = source pre ++ '/' :: (name ++ body) ∧ breaks = tail := by
      have hcommand : ∀ c ∈ '/' :: (name ++ body), isBreak c = false :=
        isBreak_commandLine (.intro hname hargs)
      exact append_inj_of_isBreak (by simp [htext]) hx
        (fun c hc => hbreaks c (List.mem_of_mem_head? hc))
        (fun c hc => (List.mem_append.mp hc).elim (hpreBreak c) (hcommand c)) hend.head
    obtain ⟨htrailing, hrest⟩ := hend.of_breaks hbreaks
    obtain rfl : [] = items' := by
      rw [hrest, Item.ofTokens_nil] at hl
      exact Except.ok.inj hl
    refine .inr ⟨pre, slash, name ++ (body ++ breaks), ⟨String.ofList name, l.arguments, kept⟩,
      ⟨⟨_, htext ▸ htokens⟩, hpre, ?_, ?_⟩, ⟨?_, hargs.termKeys⟩, ?_⟩
    · exact fun tok htok c hc => hpreBreak c (List.mem_flatMap.mpr ⟨tok, htok, hc⟩)
    · rcases hslash with hk | hk
      · rcases hstart.mp (hlineStart hk) with ⟨rfl, -⟩ | ⟨c, hc, hb⟩
        · exact .inl ⟨rfl, hk⟩
        · simp [hpreBreak c (List.mem_of_getLast? hc)] at hb
      · exact .inr hk
    · rwa [String.toList_ofList]
    · rw [htrailing, List.append_nil]

section Line

variable {pre : List Token} {slash : Token} {t tail : List Char} {c : Command}

theorem Command.IsWritable.name_quotes (h : c.IsWritable) :
    ∀ x ∈ '/' :: c.name.toList, isQuote x = false ∧ isBreak x = false := by
  intro x hx
  rcases List.mem_cons.mp hx with rfl | hx
  · exact ⟨rfl, rfl⟩
  · have hterm := isTermChar_iff.mp (h.name.all x hx)
    exact ⟨hterm.2.2.1, hterm.2.1⟩

/-- Quotes in the canonical text of a command are in its arguments. -/
theorem Command.IsWritable.mem_argumentsText (h : c.IsWritable) {q : Char}
    (hq : isQuote q = true) (hmem : q ∈ c.render.toList) : q ∈ argumentsText c.arguments := by
  rw [Command.toList_render, ← List.cons_append] at hmem
  rcases List.mem_append.mp hmem with hmem | hmem
  · simp [(h.name_quotes q hmem).1] at hq
  · exact hmem

theorem notMem_behind_slash {q : Char} (hq : q ∉ c.render.toList) (hb : isBreak q = false)
    (ht : ∀ x ∈ tail, isBreak x = true) :
    q ∉ c.name.toList ++ (argumentsText c.arguments ++ tail) := by
  intro hmem
  rw [← List.append_assoc] at hmem
  rcases List.mem_append.mp hmem with hmem | hmem
  · rw [Command.toList_render] at hq
    exact hq (List.mem_cons_of_mem _ hmem)
  · simpa [hb] using ht q hmem

theorem kind_ne_lineBreak {lineStart : Bool} {kind : Token.Kind} {text rest : List Char}
    (h : Lexeme lineStart kind text rest) (hb : ∀ x ∈ text, isBreak x = false) :
    kind ≠ .lineBreak := by
  rintro rfl
  cases h with
  | lineBreak hrun =>
    obtain ⟨x, s, rfl⟩ := List.exists_cons_of_ne_nil hrun.ne_nil
    simp [hrun.all x List.mem_cons_self] at hb

theorem StartsCommand.lexeme (h : StartsCommand pre slash t) :
    ∀ tok ∈ pre, ∃ lineStart rest, Lexeme lineStart tok.kind tok.text rest := by
  obtain ⟨more, hscan⟩ := h.scan
  exact fun tok htok => lexeme_of_mem tok (hscan ▸ List.mem_append_left _ htok)

/-- A command is read again if no quote that stands open before it is in its canonical text. -/
theorem StartsCommand.reads (h : StartsCommand pre slash t) (hc : c.IsWritable)
    (ht : ∀ x ∈ tail, isBreak x = true)
    (hq : ∀ tok ∈ pre, tok.kind = .openQuote → ∀ q ∈ tok.text, q ∉ c.render.toList) :
    ∃ kept, Item.ofTokens false (scanFrom 0 true (source pre ++ (c.render.toList ++ tail)))
      = .ok (Item.ofLine pre { c with source := kept } (Token.dropBreak tail)) := by
  obtain ⟨more, hscan⟩ := h.scan
  have hquotes : ∀ tok ∈ pre, tok.kind = .openQuote → ∀ q ∈ tok.text,
      q ∉ c.name.toList ++ (argumentsText c.arguments ++ tail) :=
    fun tok htok hk q hqt =>
      notMem_behind_slash (hq tok htok hk q hqt) (h.noBreak tok htok q hqt) ht
  have hhead : (['/'] ++ t).head?
      = (['/'] ++ (c.name.toList ++ (argumentsText c.arguments ++ tail))).head? := rfl
  obtain ⟨offset, lineStart, hmore, hnew⟩ := scanFrom_exchange hscan hhead hquotes
  rw [List.singleton_append, scanFrom_slash] at hmore hnew
  obtain ⟨hslash, -⟩ := List.cons.inj hmore
  rw [hslash] at hnew
  have hcommand : Token.command slash
      (scanFrom (offset + 1) false (c.name.toList ++ (argumentsText c.arguments ++ tail)))
      = .ok (c.name.toList, ⟨c.arguments, Token.dropBreak tail, []⟩) :=
    Token.command_scanFrom_iff.mpr ⟨_, tail, rfl, hc.name, argumentsText_text hc.keys,
      lineEnd_of_forall ht _⟩
  obtain ⟨kept, hitems⟩ := Item.ofTokens_slash (Item.gapBehind false pre)
    (h.opens.imp And.right id) hcommand (Item.ofTokens_nil false)
  refine ⟨kept, ?_⟩
  have htext : source pre ++ (c.render.toList ++ tail)
      = source pre ++ '/' :: (c.name.toList ++ (argumentsText c.arguments ++ tail)) := by
    simp [Command.toList_render]
  rw [htext, hnew, Item.ofTokens_text_append _ _ ?_, hitems]
  · simp [Except.map, Item.ofLine]
  · -- a slash before the command has the command's slash on its line
    rintro before tok after rfl
    refine ⟨h.noStart tok (by simp), fun _ => ?_⟩
    obtain ⟨hk, -⟩ := h.opens.resolve_left (by simp)
    rw [List.map_append, List.map_cons, hk]
    refine Spoiled.slash.append fun k hk => ?_
    obtain ⟨u, hu, rfl⟩ := List.mem_map.mp hk
    have hmem : u ∈ before ++ tok :: after := by simp [hu]
    obtain ⟨_, _, hl⟩ := h.lexeme u hmem
    exact kind_ne_lineBreak hl (h.noBreak u hmem)

/-- Tokens that a gap stands behind end with it. -/
theorem endsIn_gapBehind {afterBlank : Bool}
    (h : ∀ tok ∈ pre, ∃ lineStart rest, Lexeme lineStart tok.kind tok.text rest)
    (hgap : Item.gapBehind afterBlank pre = true) :
    afterBlank = true ∧ pre = [] ∨ EndsIn isGap (source pre) := by
  induction pre generalizing afterBlank with
  | nil => exact .inl ⟨hgap, rfl⟩
  | cons tok pre ih =>
    obtain ⟨⟨_, _, hl⟩, h⟩ := List.forall_mem_cons.mp h
    rcases ih h hgap with ⟨hk, rfl⟩ | hend
    · rw [of_decide_eq_true hk] at hl
      cases hl with
      | blank hrun => exact .inr (by simpa [source] using endsIn_of_forall hrun.ne_nil hrun.all)
    · exact .inr (hend.append tok.text)

/-- Behind a token that is no gap, a gap ends the text before a command. -/
theorem StartsCommand.endsIn_gap {before after : List Token} {tok : Token}
    (h : StartsCommand (before ++ tok :: after) slash t) (hk : tok.kind ≠ .blank) :
    EndsIn isGap (source after) := by
  obtain ⟨-, hgap⟩ := h.opens.resolve_left (by simp)
  rw [Item.gapBehind, List.foldl_append, List.foldl_cons] at hgap
  exact (endsIn_gapBehind (fun u hu => h.lexeme u (by simp [hu])) hgap).resolve_left (by simp [hk])

/-- An open quote that is in the canonical text of the command behind it closes there, and nothing
from the quote on is read as a command. -/
theorem dead_of_open {q : Char} {w : List Char} (lineStart : Bool) (hquote : isQuote q = true)
    (hopen : closeQuote? q (w ++ '/' :: t) = none) (hend : EndsIn isGap w)
    (hw : ∀ x ∈ w, isBreak x = false) (hc : c.IsWritable) (ht : ∀ x ∈ tail, isBreak x = true)
    (hmem : q ∈ c.render.toList) :
    Dead (kinds lineStart (q :: (w ++ (c.render.toList ++ tail)))) := by
  have hlast : w.getLast? ≠ some '\\' := by
    obtain ⟨x, hx, hg⟩ := hend
    rw [Option.mem_def.mp hx]
    rintro ⟨⟩
    simp [isGap] at hg
  have hcommand : ClosesInside _ ('/' :: c.name.toList ++ argumentsText c.arguments) tail :=
    closesInside_argumentsText hquote hc.keys (hc.mem_argumentsText hquote hmem) hc.name_quotes
  obtain ⟨body, value, args, hclose, hkeys⟩ :=
    hcommand.enclosed (enclosed_of_open hopen hw hlast)
  have hrender : w ++ (c.render.toList ++ tail)
      = w ++ ('/' :: c.name.toList ++ argumentsText c.arguments) ++ tail := by
    simp [Command.toList_render]
  rw [hrender, kinds_quote hquote, hclose]
  exact (dead_inside hkeys ht value).cons (by simp) (by simp)

/-- A quote that stands open before a command and is in its canonical text closes there, and the
line has no command any more. -/
theorem StartsCommand.dead (h : StartsCommand pre slash t) (hc : c.IsWritable)
    (ht : ∀ x ∈ tail, isBreak x = true)
    (hq : ∃ tok ∈ pre, tok.kind = .openQuote ∧ ∃ q ∈ tok.text, q ∈ c.render.toList) :
    Dead (kinds true (source pre ++ (c.render.toList ++ tail))) := by
  classical
  -- the first quote that closes: the tokens before it stay what they are
  obtain ⟨tok, hfind⟩ := Option.isSome_iff_exists.mp (List.find?_isSome.mpr
    (hq.imp fun tok ⟨hmem, h⟩ => ⟨hmem, decide_eq_true h⟩))
  obtain ⟨hclose, before, after, hpre, hbefore⟩ := List.find?_eq_some_iff_append.mp hfind
  obtain ⟨hk, q, hqt, hmem⟩ := of_decide_eq_true hclose
  subst hpre
  obtain ⟨more, hscan⟩ := h.scan
  have hsource : ∀ s, source (before ++ tok :: after) ++ '/' :: s
      = source before ++ ((tok.text ++ source after ++ ['/']) ++ s) := by simp [source]
  have hkeep : ∀ u ∈ before, u.kind = .openQuote → ∀ q ∈ u.text,
      q ∉ c.name.toList ++ (argumentsText c.arguments ++ tail) := by
    intro u hu hk q hqt
    have hnot := by simpa using hbefore u hu
    exact notMem_behind_slash (hnot.resolve_left (not_not_intro hk) q hqt)
      (h.noBreak u (by simp [hu]) q hqt) ht
  rw [hsource, List.append_assoc before] at hscan
  obtain ⟨offset, lineStart, hmore, hnew⟩ := scanFrom_exchange hscan (by simp) hkeep
  obtain ⟨rest, htext, -, hl, -⟩ := Token.lexeme_of_scanFrom hmore
  obtain rfl : source after ++ '/' :: t = rest := by simpa using htext
  rw [Command.toList_render, List.cons_append, List.append_assoc, hsource, kinds, hnew,
    List.map_append, Token.map_kind_scanFrom]
  refine Dead.append ?_ fun k hk => ?_
  · rw [hk] at hl
    generalize htok : tok.text = text at hl hqt
    cases hl with
    | openQuote hquote hopen =>
      obtain rfl := List.mem_singleton.mp hqt
      have hafter : ∀ x ∈ source after, isBreak x = false := by
        intro x hx
        obtain ⟨u, hu, hx⟩ := List.mem_flatMap.mp hx
        exact h.noBreak u (by simp [hu]) x hx
      have hend := h.endsIn_gap (by simp [hk])
      have hdead := dead_of_open lineStart hquote hopen hend hafter hc ht hmem
      simpa [Command.toList_render] using hdead
  · obtain ⟨u, hu, rfl⟩ := List.mem_map.mp hk
    have hmem : u ∈ before ++ tok :: after := List.mem_append_left _ hu
    obtain ⟨_, _, hl⟩ := h.lexeme u hmem
    exact ⟨kind_ne_lineBreak hl (h.noBreak u hmem), h.noStart u hmem⟩

/-- A line whose command is lost is read as text. -/
theorem StartsCommand.lost (h : StartsCommand pre slash t) (hc : c.IsWritable)
    (ht : ∀ x ∈ tail, isBreak x = true)
    (hq : ∃ tok ∈ pre, tok.kind = .openQuote ∧ ∃ q ∈ tok.text, q ∈ c.render.toList) :
    Item.ofTokens false (scanFrom 0 true (source pre ++ (c.render.toList ++ tail)))
      = .ok ((scanFrom 0 true (source pre ++ (c.render.toList ++ tail))).map Item.ofToken) :=
  Item.ofTokens_inert (h.dead hc ht hq).inert

end Line

end Briefing.Task
