import Briefing.Proofs.Lexemes

/-!
# Command lines

What a command can look like is said here by a grammar on characters: a name, then arguments with
gaps before them, then perhaps a gap (`ArgumentText`, `ArgumentsText`). The tokens after a slash are
a command exactly if the text they were cut from starts with a command line that ends with the
text or with a line break, and they then have the name and the arguments of that line
(`command_scanFrom_iff`).
-/

namespace Briefing.Task

open Token (Enclosed IsRun Lexeme scanFrom)

/-- A text that needs no quotes. -/
structure IsTerm (t : List Char) : Prop where
  ne_nil : t ≠ []
  all : ∀ c ∈ t, isTermChar c = true

/-- A text for a value, and the value: a term is its own value, in a quoted text escapes are
decoded. -/
inductive ValueText : List Char → List Char → Prop
  | term {t : List Char} (h : IsTerm t) : ValueText t t
  | quoted {q : Char} {inner : List Char} (hq : isQuote q = true) (h : Enclosed q inner) :
      ValueText (q :: (inner ++ [q])) (decodeEscapes inner)

/-- A text for an argument, and the argument. -/
inductive ArgumentText : List Char → Argument → Prop
  | positional {t value : List Char} (h : ValueText t value) :
      ArgumentText t ⟨none, String.ofList value⟩
  | empty {key : List Char} (hk : IsTerm key) :
      ArgumentText (key ++ ['=']) ⟨some (String.ofList key), ""⟩
  | named {key t value : List Char} (hk : IsTerm key) (h : ValueText t value) :
      ArgumentText (key ++ '=' :: t) ⟨some (String.ofList key), String.ofList value⟩

/-- A text for arguments, each behind a gap, and the arguments. -/
inductive ArgumentsText : List Char → List Argument → Prop
  | nil {gap : List Char} (hg : ∀ c ∈ gap, isGap c = true) : ArgumentsText gap []
  | cons {gap t rest : List Char} {a : Argument} {args : List Argument} (hne : gap ≠ [])
      (hg : ∀ c ∈ gap, isGap c = true) (ha : ArgumentText t a) (h : ArgumentsText rest args) :
      ArgumentsText (gap ++ (t ++ rest)) (a :: args)

/-- A text behind a command line, with the breaks left over behind the one that ends the line and
the tokens that follow; `offset` is the number of bytes before it. -/
inductive LineEnd (offset : Nat) : List Char → List Char → List Token → Prop
  | stop : LineEnd offset [] [] []
  | breaks {breaks rest : List Char} (h : IsRun isBreak breaks rest) :
      LineEnd offset (breaks ++ rest) (Token.dropBreak breaks)
        (scanFrom (offset + Text.byteLength breaks) true rest)

theorem map_eq_ok {ε α β : Type} {f : α → β} {x : Except ε α} {y : β} :
    x.map f = .ok y ↔ ∃ a, x = .ok a ∧ f a = y := by
  cases x <;> simp [Except.map]

theorem map_eq_error {ε α β : Type} {f : α → β} {x : Except ε α} {e : ε} :
    x.map f = .error e ↔ x = .error e := by
  cases x <;> simp [Except.map]

/-! ## Character classes and lengths -/

theorem byteLength_append (s t : List Char) :
    Text.byteLength (s ++ t) = Text.byteLength s + Text.byteLength t := by
  induction s with
  | nil => simp [Text.byteLength]
  | cons c s ih => simp [Text.byteLength, ih, Nat.add_assoc]

theorem byteLength_assign (key t : List Char) :
    Text.byteLength (key ++ '=' :: t)
      = Text.byteLength key + (Text.byteLength ['='] + Text.byteLength t) := by
  rw [byteLength_append, ← byteLength_append ['='] t]
  rfl

theorem isTermChar_iff {c : Char} : isTermChar c = true ↔
    isGap c = false ∧ isBreak c = false ∧ isQuote c = false ∧ c ≠ '/' ∧ c ≠ '=' := by
  simp only [isTermChar, Bool.not_eq_true', Bool.or_eq_false_iff, decide_eq_false_iff_not]
  tauto

theorem isTermChar_of_gap_or_break {c : Char} (h : isGap c = true ∨ isBreak c = true) :
    isTermChar c = false := by
  rcases h with h | h <;> simp [isTermChar, h]

theorem isGap_of_isBreak {c : Char} (h : isBreak c = true) : isGap c = false := by
  simp only [isBreak, Bool.or_eq_true, decide_eq_true_eq] at h
  rcases h with rfl | rfl <;> rfl

theorem isBreak_of_isGap {c : Char} (h : isGap c = true) : isBreak c = false := by
  simp only [isGap, Bool.or_eq_true, decide_eq_true_eq] at h
  rcases h with rfl | rfl <;> rfl

theorem isGap_of_isQuote {c : Char} (h : isQuote c = true) : isGap c = false := by
  simp only [isQuote, Bool.or_eq_true, decide_eq_true_eq] at h
  rcases h with rfl | rfl <;> rfl

theorem IsTerm.isRun {t rest : List Char} (h : IsTerm t)
    (hr : ∀ c ∈ rest.head?, isTermChar c = false) : IsRun isTermChar t rest :=
  ⟨h.ne_nil, h.all, hr⟩

theorem decodeValue_term {t : List Char} (h : IsTerm t) : decodeValue t = t := by
  rcases t with _ | ⟨c, t⟩
  · rfl
  · have hc := (isTermChar_iff.mp (h.all c List.mem_cons_self)).2.2.1
    simp [decodeValue, hc]

theorem decodeValue_quoted {q : Char} (hq : isQuote q = true) (inner : List Char) :
    decodeValue (q :: (inner ++ [q])) = decodeEscapes inner := by
  simp [decodeValue, hq]

theorem ValueText.head {t value : List Char} (h : ValueText t value) :
    ∃ c s, t = c :: s ∧ isGap c = false ∧ isBreak c = false := by
  cases h with
  | term h =>
    obtain ⟨c, s, rfl⟩ := List.exists_cons_of_ne_nil h.ne_nil
    have hc := isTermChar_iff.mp (h.all c List.mem_cons_self)
    exact ⟨c, s, rfl, hc.1, hc.2.1⟩
  | quoted hq _ => exact ⟨_, _, rfl, isGap_of_isQuote hq, Token.isBreak_of_isQuote hq⟩

theorem IsTerm.head {t : List Char} (h : IsTerm t) (rest : List Char) :
    ∃ c s, t ++ rest = c :: s ∧ isGap c = false ∧ isBreak c = false := by
  obtain ⟨c, s, rfl, hc⟩ := (ValueText.term h).head
  exact ⟨c, s ++ rest, rfl, hc⟩

theorem ArgumentText.head {t : List Char} {a : Argument} (h : ArgumentText t a) :
    ∃ c s, t = c :: s ∧ isGap c = false ∧ isBreak c = false := by
  cases h with
  | positional h => exact h.head
  | empty hk => exact hk.head _
  | named hk _ => exact hk.head _

/-- Behind a name or an argument comes a gap or a break, or nothing. -/
theorem ArgumentsText.head {body tail : List Char} {args : List Argument}
    (h : ArgumentsText body args) (ht : ∀ c ∈ tail.head?, isBreak c = true) :
    ∀ c ∈ (body ++ tail).head?, isGap c = true ∨ isBreak c = true := by
  intro c hc
  cases h with
  | nil hg =>
    rcases body with _ | ⟨x, body⟩
    · exact .inr (ht c hc)
    · obtain rfl : x = c := by simpa using hc
      exact .inl (hg x List.mem_cons_self)
  | @cons gap _ _ _ _ hne hg _ _ =>
    obtain ⟨x, gap, rfl⟩ := List.exists_cons_of_ne_nil hne
    obtain rfl : x = c := by simpa using hc
    exact .inl (hg x List.mem_cons_self)

theorem LineEnd.head {offset : Nat} {tail trailing : List Char} {tokens : List Token}
    (h : LineEnd offset tail trailing tokens) : ∀ c ∈ tail.head?, isBreak c = true := by
  intro c hc
  cases h with
  | stop => simp at hc
  | breaks h =>
    obtain ⟨x, s, rfl, hx, -⟩ := h.exists_cons
    obtain rfl : x = c := by simpa using hc
    exact hx

namespace Token

/-! ## The text of an argument -/

theorem valueText_of_lexeme {lineStart : Bool} {kind : Kind} {t rest : List Char}
    (h : Lexeme lineStart kind t rest) (hk : kind = .term ∨ kind = .quoted) :
    ValueText t (decodeValue t) := by
  cases h with
  | term h =>
    have ht : IsTerm t := ⟨h.ne_nil, h.all⟩
    rw [decodeValue_term ht]
    exact .term ht
  | quoted hq h => exact decodeValue_quoted hq _ ▸ .quoted hq h
  | _ => simp at hk

theorem lexeme_of_valueText {t value rest : List Char} (h : ValueText t value)
    (hr : ∀ c ∈ rest.head?, isGap c = true ∨ isBreak c = true) :
    ∃ kind, (kind = .term ∨ kind = .quoted) ∧ Lexeme false kind t rest
      ∧ decodeValue t = value := by
  cases h with
  | term h =>
    exact ⟨.term, .inl rfl, .term (h.isRun fun c hc => isTermChar_of_gap_or_break (hr c hc)),
      decodeValue_term h⟩
  | quoted hq h => exact ⟨.quoted, .inr rfl, .quoted hq h, decodeValue_quoted hq _⟩

/-- A named argument has a value, or nothing where its value would stand. -/
theorem namedArgument_text {name key : List Char} {offset : Nat} {text : List Char} {a : Argument}
    {n : Nat} (hk : IsTerm key)
    (h : namedArgument name key (scanFrom offset false text) = .ok (a, n)) :
    ∃ t rest, text = t ++ rest ∧ ArgumentText (key ++ '=' :: t) a
      ∧ (scanFrom offset false text).drop n
        = scanFrom (offset + Text.byteLength t) false rest := by
  have hempty : (⟨some (String.ofList key), ""⟩, 0) = (a, n) → ∃ t rest, text = t ++ rest
      ∧ ArgumentText (key ++ '=' :: t) a ∧ (scanFrom offset false text).drop n
        = scanFrom (offset + Text.byteLength t) false rest := by
    rintro ⟨⟩
    exact ⟨[], text, rfl, .empty hk, rfl⟩
  rcases hs : scanFrom offset false text with _ | ⟨token, tokens⟩
  · rw [hs, namedArgument, Except.ok.injEq] at h
    exact hs ▸ hempty h
  · obtain ⟨rest, rfl, rfl, hl, rfl⟩ := lexeme_of_scanFrom hs
    have hvalue : (token.kind = .term ∨ token.kind = .quoted) →
        (⟨some (String.ofList key), String.ofList (decodeValue token.text)⟩, 1) = (a, n) →
        ∃ t rest', token.text ++ rest = t ++ rest' ∧ ArgumentText (key ++ '=' :: t) a
          ∧ (token :: scanFrom (token.offset + Text.byteLength token.text)
              (token.kind = .lineBreak) rest).drop n
            = scanFrom (token.offset + Text.byteLength t) false rest' := by
      rintro hkind ⟨⟩
      refine ⟨token.text, rest, rfl, .named hk (valueText_of_lexeme hl hkind), ?_⟩
      rcases hkind with hkind | hkind <;> simp [hkind]
    rw [hs, namedArgument] at h
    split at h
    · exact hvalue (.inl ‹_›) (Except.ok.inj h)
    · exact hvalue (.inr ‹_›) (Except.ok.inj h)
    · simp at h
    · exact hs ▸ hempty (Except.ok.inj h)
    · exact hs ▸ hempty (Except.ok.inj h)
    · simp at h

theorem argument_text {name : List Char} {offset : Nat} {text : List Char} {token : Token}
    {tokens : List Token} {a : Argument} {n : Nat}
    (hs : scanFrom offset false text = token :: tokens)
    (h : argument name token tokens = .ok (a, n)) :
    ∃ t rest, text = t ++ rest ∧ ArgumentText t a
      ∧ tokens.drop n = scanFrom (offset + Text.byteLength t) false rest := by
  obtain ⟨rest, rfl, rfl, hl, htokens⟩ := lexeme_of_scanFrom hs
  have hvalue : (token.kind = .term ∨ token.kind = .quoted) →
      (⟨none, String.ofList (decodeValue token.text)⟩, 0) = (a, n) →
      ∃ t rest', token.text ++ rest = t ++ rest' ∧ ArgumentText t a
        ∧ tokens.drop n = scanFrom (token.offset + Text.byteLength t) false rest' := by
    rintro hkind ⟨⟩
    refine ⟨token.text, rest, rfl, .positional (valueText_of_lexeme hl hkind), ?_⟩
    rcases hkind with hkind | hkind <;> simp [htokens, hkind]
  unfold argument at h
  split at h
  · rename_i hkind
    -- a term before an equals sign is a key
    obtain ⟨_, rfl, rfl, hassign, rfl⟩ := lexeme_of_scanFrom htokens.symm
    cases hassign
    rw [hkind] at hl
    cases hl with
    | term hrun =>
      obtain ⟨⟨a', n'⟩, hn, he⟩ := map_eq_ok.mp h
      obtain ⟨rfl, rfl⟩ : a' = a ∧ n' + 1 = n := by simpa using he
      obtain ⟨t, rest', rfl, ha, hdrop⟩ := namedArgument_text ⟨hrun.ne_nil, hrun.all⟩ hn
      refine ⟨token.text ++ '=' :: t, rest', by simp, ha, ?_⟩
      rw [List.drop_succ_cons, byteLength_assign, ← Nat.add_assoc, ← Nat.add_assoc]
      exact hdrop
  · exact hvalue (.inl ‹_›) (Except.ok.inj h)
  · exact hvalue (.inr ‹_›) (Except.ok.inj h)
  · simp at h
  · simp at h
  · simp at h

theorem scanFrom_gap_or_break (offset : Nat) (lineStart : Bool) {text : List Char}
    (h : ∀ c ∈ text.head?, isGap c = true ∨ isBreak c = true) :
    scanFrom offset lineStart text = [] ∨ ∃ token tokens,
      scanFrom offset lineStart text = token :: tokens
        ∧ (token.kind = .blank ∨ token.kind = .lineBreak) := by
  rcases text with _ | ⟨c, s⟩
  · exact .inl (scanFrom_nil _ _)
  · refine .inr ?_
    rcases h c rfl with hc | hc
    · have hl := scanFrom_lexeme offset
        (.blank (isRun_takeWhile hc s) : Lexeme lineStart .blank _ _)
      rw [List.cons_append, List.takeWhile_append_dropWhile] at hl
      exact ⟨_, _, hl, .inl rfl⟩
    · have hl := scanFrom_lexeme offset
        (.lineBreak (isRun_takeWhile hc s) : Lexeme lineStart .lineBreak _ _)
      rw [List.cons_append, List.takeWhile_append_dropWhile] at hl
      exact ⟨_, _, hl, .inr rfl⟩

theorem argument_of_text (name : List Char) (offset : Nat) {t rest : List Char} {a : Argument}
    (h : ArgumentText t a) (hr : ∀ c ∈ rest.head?, isGap c = true ∨ isBreak c = true) :
    ∃ token tokens n, scanFrom offset false (t ++ rest) = token :: tokens
      ∧ token.kind ≠ .lineBreak ∧ argument name token tokens = .ok (a, n)
      ∧ tokens.drop n = scanFrom (offset + Text.byteLength t) false rest := by
  have hkey : ∀ {key : List Char}, IsTerm key → ∀ s, scanFrom offset false (key ++ '=' :: s)
      = ⟨.term, key, offset⟩ :: ⟨.assign, ['='], offset + Text.byteLength key⟩
        :: scanFrom (offset + Text.byteLength key + 1) false s := by
    intro key hk s
    rw [scanFrom_lexeme offset (.term (hk.isRun (by simp [isTermChar])))]
    exact congrArg (_ :: ·) (scanFrom_lexeme (offset + Text.byteLength key) .assign)
  cases h with
  | positional h =>
    obtain ⟨kind, hkind, hl, rfl⟩ := lexeme_of_valueText h hr
    refine ⟨_, _, 0, scanFrom_lexeme offset hl, ?_, ?_, ?_⟩
    · rcases hkind with rfl | rfl <;> simp
    · rcases hkind with rfl | rfl
      · rcases scanFrom_gap_or_break (offset + Text.byteLength t) false hr with hs | ⟨b, bs, hs, hb⟩
        · simp [argument, hs]
        · obtain ⟨kind, text, o⟩ := b
          rcases hb with rfl | rfl <;> simp [argument, hs]
      · simp [argument]
    · rcases hkind with rfl | rfl <;> rfl
  | @empty key hk =>
    refine ⟨_, _, 1, by rw [List.append_assoc]; exact hkey hk rest, by simp, ?_, ?_⟩
    · rcases scanFrom_gap_or_break (offset + Text.byteLength key + 1) false hr
        with hs | ⟨b, bs, hs, hb⟩
      · simp [argument, hs, namedArgument, Except.map]
      · rcases hb with hb | hb <;> simp [argument, hs, namedArgument, hb, Except.map]
    · rw [byteLength_assign, ← Nat.add_assoc, ← Nat.add_assoc]
      rfl
  | @named key t value hk h =>
    obtain ⟨kind, hkind, hl, rfl⟩ := lexeme_of_valueText h hr
    refine ⟨_, _, 2, by rw [List.append_assoc]; exact hkey hk (t ++ rest), by simp, ?_, ?_⟩
    · rw [scanFrom_lexeme _ hl]
      rcases hkind with rfl | rfl <;> simp [argument, namedArgument, Except.map]
    · rw [byteLength_assign, ← Nat.add_assoc, ← Nat.add_assoc, List.drop_succ_cons,
        scanFrom_lexeme _ hl]
      rcases hkind with rfl | rfl <;> rfl

/-! ## The rest of a command's line -/

theorem line_lineBreak (name text : List Char) (offset : Nat) (tokens : List Token) :
    line name (⟨.lineBreak, text, offset⟩ :: tokens) = .ok ⟨[], dropBreak text, tokens⟩ := by
  rw [line.eq_def]

/-- What the tokens of a text hold for a command stands in the text as a command line. -/
theorem line_text {name : List Char} {offset : Nat} {text : List Char} {l : Line}
    (h : line name (scanFrom offset false text) = .ok l) :
    ∃ body tail, text = body ++ tail ∧ ArgumentsText body l.arguments
      ∧ LineEnd (offset + Text.byteLength body) tail l.trailing l.rest := by
  -- on the length of the text, as an argument takes more than one token
  induction hn : text.length using Nat.strongRecOn generalizing offset text l with
  | _ n ih =>
    subst hn
    rcases hs : scanFrom offset false text with _ | ⟨token, tokens⟩
    · rw [hs, line] at h
      obtain rfl := Except.ok.inj h
      have ht := source_scanFrom offset false text
      rw [hs] at ht
      exact ⟨[], [], ht.symm, .nil (by simp), .stop⟩
    · obtain ⟨rest, rfl, rfl, hl, htokens⟩ := lexeme_of_scanFrom hs
      rw [hs, line.eq_def] at h
      dsimp only at h
      split at h
      · rename_i hkind
        rw [hkind] at hl htokens
        obtain rfl := Except.ok.inj h
        cases hl with
        | lineBreak hrun =>
          refine ⟨[], _, rfl, .nil (by simp), ?_⟩
          rw [htokens]
          exact .breaks hrun
      · rename_i hkind
        rw [hkind] at hl htokens
        cases hl with
        | blank hrun =>
          split at h
          · obtain rfl := Except.ok.inj h
            have ht := source_scanFrom (token.offset + Text.byteLength token.text) false rest
            rw [show scanFrom (token.offset + Text.byteLength token.text) false rest = [] from
              htokens.symm] at ht
            obtain rfl : rest = [] := ht.symm
            exact ⟨token.text, [], rfl, .nil hrun.all, .stop⟩
          · rename_i next tokens
            have hnext : scanFrom (token.offset + Text.byteLength token.text) false rest
                = next :: tokens := htokens.symm
            split_ifs at h with hbreak
            · obtain rfl := Except.ok.inj h
              obtain ⟨rest', rfl, -, hl', rfl⟩ := lexeme_of_scanFrom hnext
              rw [hbreak] at hl' ⊢
              cases hl' with
              | lineBreak hrun' =>
                exact ⟨token.text, _, rfl, .nil hrun.all, .breaks hrun'⟩
            · split at h
              · simp at h
              · rename_i a n harg
                obtain ⟨t, rest', rfl, ha, hdrop⟩ := argument_text hnext harg
                obtain ⟨l', hl', rfl⟩ := map_eq_ok.mp h
                rw [hdrop] at hl'
                have hlt : rest'.length < (token.text ++ (t ++ rest')).length := by
                  have := List.length_pos_iff.mpr hrun.ne_nil
                  simp only [List.length_append]
                  omega
                obtain ⟨body, tail, rfl, hargs, hend⟩ := ih _ hlt hl' rfl
                refine ⟨token.text ++ (t ++ body), tail, by simp,
                  .cons hrun.ne_nil hrun.all ha hargs, ?_⟩
                rw [byteLength_append, byteLength_append, ← Nat.add_assoc, ← Nat.add_assoc]
                exact hend
      · simp at h

theorem line_of_text (name : List Char) {body tail trailing : List Char} {args : List Argument}
    {tokens : List Token} (h : ArgumentsText body args) :
    ∀ {offset : Nat}, LineEnd (offset + Text.byteLength body) tail trailing tokens →
      line name (scanFrom offset false (body ++ tail)) = .ok ⟨args, trailing, tokens⟩ := by
  induction h with
  | @nil gap hg =>
    intro offset he
    rcases gap with _ | ⟨c, s⟩
    · cases he with
      | stop => simp [line]
      | breaks hrun =>
        rw [List.nil_append, scanFrom_lexeme offset (.lineBreak hrun), line_lineBreak]
        rfl
    · have hrun : IsRun isGap (c :: s) tail := ⟨List.cons_ne_nil _ _, hg, fun x hx =>
        isGap_of_isBreak (he.head x hx)⟩
      rw [scanFrom_lexeme offset (.blank hrun)]
      cases he with
      | stop => simp [line]
      | breaks hrun' =>
        rw [scanFrom_lexeme _ (.lineBreak hrun'), line]
        simp
  | @cons gap t rest a args hne hg ha hargs ih =>
    intro offset he
    obtain ⟨c, s, rfl, hc, -⟩ := ha.head
    have hrun : IsRun isGap gap ((c :: s) ++ (rest ++ tail)) := ⟨hne, hg, by simpa using hc⟩
    obtain ⟨token, tokens', n, hs, hk, harg, hdrop⟩ := argument_of_text name
      (offset + Text.byteLength gap) ha (hargs.head he.head)
    rw [byteLength_append, byteLength_append, ← Nat.add_assoc, ← Nat.add_assoc] at he
    have hrest := ih he
    rw [← hdrop] at hrest
    have hs' : scanFrom (offset + Text.byteLength gap) (decide (Kind.blank = .lineBreak))
        ((c :: s) ++ (rest ++ tail)) = token :: tokens' := hs
    rw [List.append_assoc, List.append_assoc, scanFrom_lexeme offset (.blank hrun), hs', line]
    simp only [hk, harg, hrest, Except.map, if_false]

/-- The tokens behind a slash are a command exactly if they were cut from a command line. -/
theorem command_scanFrom_iff {slash : Token} {offset : Nat} {text name : List Char} {l : Line} :
    command slash (scanFrom offset false text) = .ok (name, l) ↔
      ∃ body tail, text = name ++ (body ++ tail) ∧ IsTerm name ∧ ArgumentsText body l.arguments
        ∧ LineEnd (offset + Text.byteLength name + Text.byteLength body) tail l.trailing
          l.rest := by
  constructor
  · intro h
    rcases hs : scanFrom offset false text with _ | ⟨token, tokens⟩
    · simp [hs, command] at h
    · obtain ⟨rest, rfl, rfl, hl, rfl⟩ := lexeme_of_scanFrom hs
      rw [hs, command] at h
      split_ifs at h with hkind
      rw [hkind] at hl h
      cases hl with
      | term hrun =>
        obtain ⟨l', hline, he⟩ := map_eq_ok.mp h
        obtain ⟨rfl, rfl⟩ : token.text = name ∧ l' = l := by simpa using he
        obtain ⟨body, tail, rfl, hargs, hend⟩ := line_text hline
        exact ⟨body, tail, rfl, ⟨hrun.ne_nil, hrun.all⟩, hargs, hend⟩
  · rintro ⟨body, tail, rfl, hname, hargs, hend⟩
    have hrun : IsRun isTermChar name (body ++ tail) := hname.isRun fun c hc =>
      isTermChar_of_gap_or_break (hargs.head hend.head c hc)
    rw [scanFrom_lexeme offset (.term hrun), command]
    simp [line_of_text name hargs hend, Except.map]

end Token

end Briefing.Task
