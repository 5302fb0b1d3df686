import Briefing.Proofs.Spans

/-!
# Lines are read on their own

No token goes over the end of a line (`scanFrom_append`), and what a slash starts is settled by the
tokens up to the next line break (`command_break`). So a text that is cut where a line ends is read
part by part: the items of the whole are those of its parts, and an error is that of the first part
that has one, moved by the bytes before that part (`ofTokens_scan_append`). Only free text on both
sides of the cut is put together (`parse_append`).
-/

namespace Briefing.Task

open Token (IsRun Lexeme closeQuote? scanFrom)

/-- The error in a text with `n` more bytes before it. -/
def ParseError.shift (n : Nat) : ParseError → ParseError
  | unclosedQuote offset => unclosedQuote (n + offset)
  | missingCommandName offset => missingCommandName (n + offset)
  | unterminatedCommand name found offset => unterminatedCommand name found (n + offset)
  | emptyKey offset => emptyKey (n + offset)

/-- Blocks one after the other. Text at the end of the first and text at the start of the second
are one block. -/
def Block.append : List Block → List Block → List Block
  | [], blocks => blocks
  | [.text fragments], .text fragments' :: blocks => .text (fragments ++ fragments') :: blocks
  | block :: blocks, blocks' => block :: append blocks blocks'

theorem EndsIn.ne_nil {p : Char → Bool} {s : List Char} (h : EndsIn p s) : s ≠ [] := by
  rintro rfl
  obtain ⟨c, hc, -⟩ := h
  simp at hc

theorem EndsIn.of_append {p : Char → Bool} {s t : List Char} (h : EndsIn p (s ++ t))
    (ht : t ≠ []) : EndsIn p t := by
  obtain ⟨c, hc, hp⟩ := h
  refine ⟨c, ?_, hp⟩
  rwa [List.getLast?_append_of_ne_nil _ ht] at hc

theorem EndsIn.of_cons {p : Char → Bool} {c : Char} {s : List Char} (h : EndsIn p (c :: s))
    (hc : p c = false) : EndsIn p s := by
  refine EndsIn.of_append (s := [c]) h ?_
  rintro rfl
  obtain ⟨x, hx, hp⟩ := h
  obtain rfl : c = x := by simpa using hx
  simp [hc] at hp

namespace Token

/-! ## Cutting tokens at the end of a line -/

theorem closeQuote?_cons {q c : Char} (hc : c ≠ '\\') (s : List Char) :
    closeQuote? q (c :: s) = if isBreak c then none else if c = q then some ([c], s)
      else (closeQuote? q s).map fun (body, rest) => (c :: body, rest) := by
  rw [closeQuote?]
  · exact fun h _ => hc h
  · exact fun _ _ h _ => hc h

theorem ne_backslash_of_rest {c : Char} {s : List Char} (h : c = '\\' → s = [] → False)
    (h' : ∀ x t, c = '\\' → s = x :: t → False) : c ≠ '\\' := by
  rintro rfl
  rcases s with _ | ⟨x, t⟩
  · exact h rfl rfl
  · exact h' x t rfl rfl

theorem closeQuote?_append_none {q : Char} {s : List Char} (h : closeQuote? q s = none)
    (hs : EndsIn isBreak s) (t : List Char) : closeQuote? q (s ++ t) = none := by
  fun_induction closeQuote? q s with
  | case1 => exact absurd rfl hs.ne_nil
  | case2 => exact absurd rfl (hs.of_cons rfl).ne_nil
  | case3 c s hc => simp [closeQuote?, hc]
  | case4 c s hc ih =>
    have hrest := ih (by simpa using h) ((hs.of_cons rfl).of_cons (by simpa using hc))
    simp [closeQuote?, hc, hrest]
  | case5 c s he he' hc =>
    rw [List.cons_append, closeQuote?_cons (ne_backslash_of_rest he he'), if_pos hc]
  | case6 => simp at h
  | case7 c s he he' hc hq ih =>
    have hrest := ih (by simpa using h) (hs.of_cons (by simpa using hc))
    rw [List.cons_append, closeQuote?_cons (ne_backslash_of_rest he he'), if_neg hc, if_neg hq,
      hrest, Option.map_none]

theorem IsRun.append_right {p : Char → Bool} {run rest : List Char} (h : IsRun p run rest)
    (hr : rest ≠ []) (t : List Char) : IsRun p run (rest ++ t) := by
  obtain ⟨c, s, rfl⟩ := List.exists_cons_of_ne_nil hr
  exact ⟨h.ne_nil, h.all, h.stops⟩

/-- A token before the end of a line is not changed by what follows that line. -/
theorem Lexeme.append_right {lineStart : Bool} {kind : Kind} {text rest : List Char}
    (h : Lexeme lineStart kind text rest) (hr : EndsIn isBreak rest) (t : List Char) :
    Lexeme lineStart kind text (rest ++ t) := by
  cases h with
  | commandStart h => exact .commandStart h
  | slash h => exact .slash h
  | assign => exact .assign
  | quoted hq h => exact .quoted hq h
  | openQuote hq h => exact .openQuote hq (closeQuote?_append_none h hr t)
  | term h => exact .term (h.append_right hr.ne_nil t)
  | blank h => exact .blank (h.append_right hr.ne_nil t)
  | lineBreak h => exact .lineBreak (h.append_right hr.ne_nil t)

/-- The last token of a line is its break. -/
theorem Lexeme.isRun_of_endsIn {lineStart : Bool} {kind : Kind} {text rest : List Char}
    (h : Lexeme lineStart kind text rest) (ht : EndsIn isBreak text) :
    kind = .lineBreak ∧ IsRun isBreak text rest := by
  obtain ⟨c, hc, hb⟩ := ht
  have hmem := List.mem_of_getLast? hc
  cases h with
  | commandStart _ | slash _ | assign =>
    obtain rfl := by simpa using hmem
    simp [isBreak] at hb
  | quoted hq _ =>
    rw [← List.cons_append, List.getLast?_concat] at hc
    obtain rfl := by simpa using hc
    simp [isBreak_of_isQuote hq] at hb
  | openQuote hq _ =>
    obtain rfl := by simpa using hmem
    simp [isBreak_of_isQuote hq] at hb
  | term h =>
    have := (isTermChar_iff.mp (h.all c hmem)).2.1
    simp [hb] at this
  | blank h =>
    have := isBreak_of_isGap (h.all c hmem)
    simp [hb] at this
  | lineBreak h => exact ⟨rfl, h⟩

/-- No token goes over the end of a line. -/
theorem scanFrom_append {a b : List Char} (ha : EndsIn isBreak a)
    (hb : ∀ c ∈ b.head?, isBreak c = false) (offset : Nat) (lineStart : Bool) :
    scanFrom offset lineStart (a ++ b)
      = scanFrom offset lineStart a ++ scanFrom (offset + Text.byteLength a) true b := by
  fun_induction scanFrom offset lineStart a with
  | case1 => exact absurd rfl ha.ne_nil
  | case2 offset lineStart c s kind body rest hcut token ih =>
    have hl := lexeme_cut lineStart c s
    have hs := cut_append lineStart c s
    simp only [hcut] at hl hs ih ⊢
    rw [← hs, ← List.cons_append] at ha ⊢
    rw [List.append_assoc]
    rcases eq_or_ne rest [] with rfl | hr
    · rw [List.append_nil] at ha
      obtain ⟨rfl, hrun⟩ := hl.isRun_of_endsIn ha
      have hl' : Lexeme lineStart .lineBreak (c :: body) b := .lineBreak ⟨hrun.ne_nil, hrun.all, hb⟩
      rw [List.nil_append, List.append_nil, scanFrom_lexeme offset hl', scanFrom_nil]
      rfl
    · have hend := ha.of_append hr
      rw [scanFrom_lexeme offset (hl.append_right hend b), ih hend, byteLength_append,
        ← Nat.add_assoc]
      rfl

/-- The last token of a text that ends with a break is a break. -/
theorem getLast?_scanFrom {a : List Char} (ha : EndsIn isBreak a) (offset : Nat)
    (lineStart : Bool) : ∀ t ∈ (scanFrom offset lineStart a).getLast?, t.kind = .lineBreak := by
  fun_induction scanFrom offset lineStart a with
  | case1 => exact absurd rfl ha.ne_nil
  | case2 offset lineStart c s kind body rest hcut token ih =>
    have hl := lexeme_cut lineStart c s
    have hs := cut_append lineStart c s
    simp only [hcut] at hl hs ih ⊢
    rw [← hs, ← List.cons_append] at ha
    rcases eq_or_ne rest [] with rfl | hr
    · rw [List.append_nil] at ha
      rw [scanFrom_nil]
      rintro _ ⟨⟩
      exact (hl.isRun_of_endsIn ha).1
    · rw [List.getLast?_cons_of_ne_nil (scanFrom_ne_nil hr _ _)]
      exact ih (ha.of_append hr)

/-- The token in a text with `n` more bytes before it. -/
def shift (n : Nat) (token : Token) : Token := { token with offset := n + token.offset }

@[simp] theorem shift_kind (n : Nat) (token : Token) : (token.shift n).kind = token.kind := rfl

@[simp] theorem shift_text (n : Nat) (token : Token) : (token.shift n).text = token.text := rfl

theorem scanFrom_shift (n offset : Nat) (lineStart : Bool) (text : List Char) :
    scanFrom (n + offset) lineStart text = (scanFrom offset lineStart text).map (shift n) := by
  fun_induction scanFrom offset lineStart text with
  | case1 => simp
  | case2 offset lineStart c s kind body rest hcut token ih =>
    rw [scanFrom_cons, List.map_cons, ← ih, hcut, ← Nat.add_assoc]
    rfl

theorem scan_append {a b : String} (ha : a = "" ∨ EndsIn isBreak a.toList)
    (hb : ∀ c ∈ b.toList.head?, isBreak c = false) :
    scan (a ++ b) = scan a ++ (scan b).map (shift (Text.byteLength a.toList)) := by
  rw [scan, scan, scan, ← scanFrom_shift, Nat.add_zero]
  rcases ha with rfl | ha
  · simp [Text.byteLength]
  · rw [String.toList_append, scanFrom_append ha hb, Nat.zero_add]

/-! ## A command's tokens -/

/-- The line with other tokens behind it. -/
def Line.mapRest (f : List Token → List Token) (l : Line) : Line := { l with rest := f l.rest }

section Break

variable {name : List Char} {token br : Token}

theorem namedArgument_break (key : List Char) (front more : List Token) :
    namedArgument name key (front ++ br :: more) = namedArgument name key (front ++ [br]) := by
  rcases front with _ | ⟨t, front⟩ <;> rfl

theorem argument_break (hbr : br.kind = .lineBreak) (front more : List Token) :
    argument name token (front ++ br :: more) = argument name token (front ++ [br]) := by
  obtain ⟨kind, text, offset⟩ := token
  obtain ⟨_, breaks, offset'⟩ := br
  obtain rfl : _ = Kind.lineBreak := hbr
  rcases front with _ | ⟨⟨kind', text', offset''⟩, front⟩
  · cases kind <;> rfl
  · cases kind <;> cases kind' <;> first | rfl | simp [argument, namedArgument_break]

/-- An argument does not have the break behind it. -/
theorem argument_length (hbr : br.kind = .lineBreak) {front : List Token} {a : Argument} {n : Nat}
    (h : argument name token (front ++ [br]) = .ok (a, n)) : n ≤ front.length := by
  have hnamed : ∀ {key tokens n}, namedArgument name key (tokens ++ [br]) = .ok (a, n) →
      n ≤ tokens.length := by
    intro key tokens n h
    rcases tokens with _ | ⟨t, tokens⟩
    · simp only [List.nil_append, namedArgument, hbr, Except.ok.injEq, Prod.mk.injEq] at h
      omega
    · rw [List.cons_append, namedArgument] at h
      split at h <;> simp at h <;> simp [← h.2]
  unfold argument at h
  split at h
  · rename_i tokens _ hfront
    obtain ⟨⟨a', n'⟩, hn, he⟩ := map_eq_ok.mp h
    obtain ⟨rfl, rfl⟩ : a' = a ∧ n' + 1 = n := by simpa using he
    rcases front with _ | ⟨t, front⟩
    · obtain rfl := (List.cons.inj hfront).1
      simp at hbr
    · obtain rfl := (List.cons.inj hfront).2
      exact Nat.succ_le_succ (hnamed hn)
  · simp at h
    omega
  · simp at h
    omega
  · simp at h
  · simp at h
  · simp at h

theorem line_break (hbr : br.kind = .lineBreak) (more : List Token) {front : List Token}
    (hf : ∀ t ∈ front, t.kind ≠ .lineBreak) :
    line name (front ++ br :: more)
      = (line name (front ++ [br])).map (Line.mapRest fun _ => more) := by
  induction hn : front.length using Nat.strongRecOn generalizing front with
  | _ n ih =>
    subst hn
    rcases front with _ | ⟨t, front⟩
    · rw [List.nil_append, List.nil_append, line.eq_def, line.eq_def]
      simp only [hbr]
      rfl
    · rw [List.cons_append, List.cons_append, line.eq_def, line.eq_def name (t :: _)]
      dsimp only
      split
      · rename_i hk
        exact absurd hk (hf t List.mem_cons_self)
      · rcases front with _ | ⟨next, front⟩
        · simp [hbr, Except.map, Line.mapRest]
        · have hnext := hf next (by simp)
          simp only [List.cons_append, hnext, if_false, argument_break hbr front more]
          cases harg : argument name next (front ++ [br]) with
          | error e => rfl
          | ok x =>
            obtain ⟨a, n⟩ := x
            have hle := argument_length hbr harg
            have hrest := ih (front.drop n).length (by simp; omega)
              (fun t ht => hf t (by simp [List.mem_of_mem_drop ht])) rfl
            dsimp only
            rw [List.drop_append_of_le_length hle, List.drop_append_of_le_length hle, hrest]
            cases line name (front.drop n ++ [br]) <;> rfl
      · rfl

/-- What a slash starts is settled by the tokens up to the next break. -/
theorem command_break (hbr : br.kind = .lineBreak) (more : List Token) {front : List Token}
    (hf : ∀ t ∈ front, t.kind ≠ .lineBreak) :
    command token (front ++ br :: more)
      = (command token (front ++ [br])).map (Prod.map id (Line.mapRest fun _ => more)) := by
  rcases front with _ | ⟨t, front⟩
  · simp [command, hbr, Except.map]
  · rw [List.cons_append, List.cons_append, command, command]
    split
    · rw [line_break hbr more fun t ht => hf t (List.mem_cons_of_mem _ ht)]
      cases line t.text (front ++ [br]) <;> rfl
    · rfl

/-- Tokens that end with a line break, cut at the first break. -/
theorem exists_break {tokens : List Token} (hne : tokens ≠ [])
    (h : ∀ t ∈ tokens.getLast?, t.kind = .lineBreak) :
    ∃ front br more, tokens = front ++ br :: more ∧ br.kind = .lineBreak
      ∧ ∀ t ∈ front, t.kind ≠ .lineBreak := by
  induction tokens with
  | nil => exact absurd rfl hne
  | cons t tokens ih =>
    by_cases hk : t.kind = .lineBreak
    · exact ⟨[], t, tokens, rfl, hk, by simp⟩
    · have htokens : tokens ≠ [] := by
        rintro rfl
        exact hk (h t rfl)
      rw [List.getLast?_cons_of_ne_nil htokens] at h
      obtain ⟨front, br, more, rfl, hbr, hfront⟩ := ih htokens h
      exact ⟨t :: front, br, more, rfl, hbr, List.forall_mem_cons.mpr ⟨hk, hfront⟩⟩

/-- Tokens behind a line's end change nothing of a command. -/
theorem command_append {tokens : List Token} (hne : tokens ≠ [])
    (h : ∀ t ∈ tokens.getLast?, t.kind = .lineBreak) (more : List Token) :
    (∃ e, command token tokens = .error e ∧ command token (tokens ++ more) = .error e)
      ∨ ∃ name l, command token tokens = .ok (name, l)
        ∧ command token (tokens ++ more) = .ok (name, { l with rest := l.rest ++ more }) := by
  obtain ⟨front, br, rest, rfl, hbr, hfront⟩ := exists_break hne h
  rw [List.append_assoc, List.cons_append, command_break hbr rest hfront,
    command_break hbr (rest ++ more) hfront]
  cases command token (front ++ [br]) with
  | error e => exact .inl ⟨e, rfl, rfl⟩
  | ok x => exact .inr ⟨x.1, { x.2 with rest := rest }, rfl, rfl⟩

end Break

section Shift

variable (n : Nat) (name : List Char)

theorem namedArgument_shift (key : List Char) (tokens : List Token) :
    namedArgument name key (tokens.map (shift n))
      = (namedArgument name key tokens).mapError (ParseError.shift n) := by
  rcases tokens with _ | ⟨⟨kind, text, offset⟩, tokens⟩
  · rfl
  · cases kind <;> rfl

theorem argument_shift (token : Token) (tokens : List Token) :
    argument name (token.shift n) (tokens.map (shift n))
      = (argument name token tokens).mapError (ParseError.shift n) := by
  obtain ⟨kind, text, offset⟩ := token
  rcases tokens with _ | ⟨⟨kind', text', offset'⟩, tokens⟩
  · cases kind <;> rfl
  · cases kind <;> cases kind' <;> try rfl
    have hn := namedArgument_shift n name text tokens
    simp only [List.map_cons, shift, argument] at hn ⊢
    rw [hn]
    cases namedArgument name text tokens <;> rfl

theorem line_shift (tokens : List Token) :
    line name (tokens.map (shift n))
      = ((line name tokens).mapError (ParseError.shift n)).map
        (Line.mapRest (List.map (shift n))) := by
  fun_induction line name tokens with
  | case1 => simp [line, Except.mapError, Except.map, Line.mapRest]
  | case2 token tokens hk =>
    rw [List.map_cons, line.eq_def]
    simp only [shift_kind, hk]
    rfl
  | case3 token hk =>
    rw [List.map_cons, line.eq_def]
    simp only [shift_kind, hk]
    rfl
  | case4 token hk next rest hnext =>
    rw [List.map_cons, List.map_cons, line.eq_def]
    simp only [shift_kind, hk, hnext, if_true]
    rfl
  | case5 token hk next rest hnext e he =>
    rw [List.map_cons, List.map_cons, line.eq_def]
    simp only [shift_kind, hk, hnext, if_false, argument_shift, he]
    rfl
  | case6 token hk next rest hnext a m ha ih =>
    rw [List.map_cons, List.map_cons, line.eq_def]
    simp only [shift_kind, hk, hnext, if_false, argument_shift, ha, Except.mapError]
    rw [← List.map_drop, ih]
    cases line name (rest.drop m) <;> rfl
  | case7 token tokens hb hk =>
    rw [List.map_cons, line.eq_def]
    simp only [shift_kind]
    rfl

theorem command_shift (slash : Token) (tokens : List Token) :
    command (slash.shift n) (tokens.map (shift n))
      = ((command slash tokens).mapError (ParseError.shift n)).map
        (Prod.map id (Line.mapRest (List.map (shift n)))) := by
  rcases tokens with _ | ⟨t, tokens⟩
  · rfl
  · rw [List.map_cons, command, command, shift_kind]
    split
    · rw [shift_text, line_shift]
      cases line t.text tokens <;> rfl
    · rfl

end Shift

end Token

namespace Item

/-! ## Items of the parts -/

theorem sourceBefore_append (tokens rest more : List Token) (k : Nat) :
    sourceBefore (tokens ++ more) (rest ++ more) k = sourceBefore tokens rest k := by
  have hlen : (tokens ++ more).length - (rest ++ more).length = tokens.length - rest.length := by
    simp only [List.length_append]
    omega
  rw [sourceBefore, sourceBefore, hlen, List.take_append_of_le_length (Nat.sub_le _ _)]

theorem sourceBefore_shift (n : Nat) (tokens rest : List Token) (k : Nat) :
    sourceBefore (tokens.map (Token.shift n)) (rest.map (Token.shift n)) k
      = sourceBefore tokens rest k := by
  simp [sourceBefore, ← List.map_take, List.flatMap_map]

/-- What is read at a token: the items, whether a gap stands before what follows them, and the
tokens that follow. -/
def step (afterBlank : Bool) (token : Token) (tokens : List Token) :
    Except ParseError (List Item × Bool × List Token) :=
  if token.kind = .commandStart then
    (Token.command token tokens).map fun (name, l) =>
      (command ⟨String.ofList name, l.arguments, none⟩ :: ofTrailing l.trailing, false, l.rest)
  else
    match token.kind = .slash && afterBlank, Token.command token tokens with
    | true, .ok (name, l) =>
      let source := sourceBefore (token :: tokens) l.rest l.trailing.length
      .ok (command ⟨String.ofList name, l.arguments, some (String.ofList source)⟩
        :: ofTrailing l.trailing, false, l.rest)
    | _, _ => .ok ([fragment (String.ofList token.text)], token.kind = .blank, tokens)

theorem ofTokens_nil (afterBlank : Bool) : ofTokens afterBlank [] = .ok [] := by rw [ofTokens]

theorem ofTokens_cons (afterBlank : Bool) (token : Token) (tokens : List Token) :
    ofTokens afterBlank (token :: tokens) = (step afterBlank token tokens).bind fun x =>
      (ofTokens x.2.1 x.2.2).map (x.1 ++ ·) := by
  rw [ofTokens, step]
  by_cases hk : token.kind = .commandStart
  · rw [if_pos hk, if_pos hk]
    split <;> simp_all [Except.map, Except.bind]
  · rw [if_neg hk, if_neg hk]
    cases hs : token.kind = .slash && afterBlank with
    | false => rfl
    | true =>
      dsimp only
      rw [if_pos rfl]
      split <;> simp_all [Except.bind]

/-- The tokens that follow what is read at a token are the last ones, and a gap stands before them
only if it is that token. -/
theorem step_rest {afterBlank afterBlank' : Bool} {token : Token} {tokens rest : List Token}
    {items : List Item} (h : step afterBlank token tokens = .ok (items, afterBlank', rest)) :
    rest <:+ tokens ∧ (afterBlank' = true → token.kind = .blank ∧ rest = tokens) := by
  unfold step at h
  split at h
  · obtain ⟨⟨name, l⟩, hc, he⟩ := map_eq_ok.mp h
    obtain ⟨-, rfl, rfl⟩ := by simpa using he
    exact ⟨Token.command_rest_suffix hc, by simp⟩
  · split at h
    · rename_i hc
      obtain ⟨-, rfl, rfl⟩ := by simpa using h
      exact ⟨Token.command_rest_suffix hc, by simp⟩
    · obtain ⟨-, rfl, rfl⟩ := by simpa using h
      exact ⟨List.suffix_refl _, by simp⟩

theorem step_append {afterBlank : Bool} {token : Token} {tokens : List Token}
    (h : ∀ t ∈ (token :: tokens).getLast?, t.kind = .lineBreak) (more : List Token) :
    step afterBlank token (tokens ++ more)
      = (step afterBlank token tokens).map (Prod.map id (Prod.map id (· ++ more))) := by
  have hcommand : token.kind ≠ .lineBreak →
      (∃ e, token.command tokens = .error e ∧ token.command (tokens ++ more) = .error e)
        ∨ ∃ name l, token.command tokens = .ok (name, l)
          ∧ token.command (tokens ++ more) = .ok (name, { l with rest := l.rest ++ more }) := by
    intro hk
    have hne : tokens ≠ [] := by
      rintro rfl
      exact hk (h token rfl)
    rw [List.getLast?_cons_of_ne_nil hne] at h
    exact Token.command_append hne h more
  unfold step
  by_cases hk : token.kind = .commandStart
  · rcases hcommand (by simp [hk]) with ⟨e, hc, hc'⟩ | ⟨name, l, hc, hc'⟩ <;>
      simp [hk, hc, hc', Except.map]
  · cases hs : token.kind = .slash && afterBlank with
    | false => simp [hk, Except.map]
    | true =>
      rcases hcommand (by simp_all) with ⟨e, hc, hc'⟩ | ⟨name, l, hc, hc'⟩
      · simp [hk, hc, hc', Except.map]
      · have hsource := sourceBefore_append (token :: tokens) l.rest more l.trailing.length
        rw [List.cons_append] at hsource
        simp [hk, hc, hc', Except.map, hsource]

theorem step_shift (n : Nat) (afterBlank : Bool) (token : Token) (tokens : List Token) :
    step afterBlank (token.shift n) (tokens.map (Token.shift n))
      = ((step afterBlank token tokens).mapError (ParseError.shift n)).map
        (Prod.map id (Prod.map id (List.map (Token.shift n)))) := by
  unfold step
  rw [Token.shift_kind, Token.command_shift]
  by_cases hk : token.kind = .commandStart
  · cases token.command tokens <;> simp [hk, Except.map, Except.mapError, Token.Line.mapRest]
  · cases hs : token.kind = .slash && afterBlank with
    | false => simp [hk, Except.map, Except.mapError]
    | true =>
      cases token.command tokens with
      | error e => simp [hk, Except.map, Except.mapError]
      | ok x =>
        have hsource := sourceBefore_shift n (token :: tokens) x.2.rest x.2.trailing.length
        rw [List.map_cons] at hsource
        simp [hk, Except.map, Except.mapError, Token.Line.mapRest, hsource]

/-- Behind the end of a line tokens are read as if nothing were before them. -/
theorem ofTokens_append {tokens : List Token} {afterBlank : Bool}
    (h : ∀ t ∈ tokens.getLast?, t.kind = .lineBreak) (hb : tokens = [] → afterBlank = false)
    (more : List Token) :
    ofTokens afterBlank (tokens ++ more)
      = (ofTokens afterBlank tokens).bind fun items => (ofTokens false more).map (items ++ ·) := by
  induction hn : tokens.length using Nat.strongRecOn generalizing tokens afterBlank with
  | _ n ih =>
    subst hn
    rcases tokens with _ | ⟨t, tokens⟩
    · obtain rfl := hb rfl
      rw [ofTokens]
      cases h : ofTokens false more <;> simp [Except.bind, Except.map, h]
    · rw [List.cons_append, ofTokens_cons, ofTokens_cons, step_append h]
      cases hs : step afterBlank t tokens with
      | error e => rfl
      | ok x =>
        obtain ⟨items, afterBlank', rest⟩ := x
        obtain ⟨hrest, hblank⟩ := step_rest hs
        have hl : ∀ u ∈ rest.getLast?, u.kind = .lineBreak := by
          obtain ⟨front, rfl⟩ := hrest
          intro u hu
          have hne : rest ≠ [] := by
            rintro rfl
            simp at hu
          apply h
          rwa [← List.cons_append, List.getLast?_append_of_ne_nil _ hne]
        have hb' : rest = [] → afterBlank' = false := by
          rintro rfl
          by_contra hne
          obtain ⟨hk, rfl⟩ := hblank (by simpa using hne)
          have ht := h t rfl
          simp [hk] at ht
        have hlen := hrest.length_le
        have hmore := ih rest.length (Nat.lt_succ_of_le hlen) hl hb' rfl
        simp only [Except.map, Except.bind, Prod.map, id] at hmore ⊢
        rw [hmore]
        cases ofTokens afterBlank' rest with
        | error e => rfl
        | ok items' => cases ofTokens false more <;> simp

theorem ofTokens_shift (n : Nat) (afterBlank : Bool) (tokens : List Token) :
    ofTokens afterBlank (tokens.map (Token.shift n))
      = (ofTokens afterBlank tokens).mapError (ParseError.shift n) := by
  induction hn : tokens.length using Nat.strongRecOn generalizing tokens afterBlank with
  | _ m ih =>
    subst hn
    rcases tokens with _ | ⟨t, tokens⟩
    · simp [ofTokens, Except.mapError]
    · rw [List.map_cons, ofTokens_cons, ofTokens_cons, step_shift]
      cases hs : step afterBlank t tokens with
      | error e => rfl
      | ok x =>
        obtain ⟨items, afterBlank', rest⟩ := x
        have hrest :=
          ih rest.length (Nat.lt_succ_of_le (step_rest hs).1.length_le) afterBlank' rest rfl
        simp only [Except.map, Except.bind, Except.mapError, Prod.map, id] at hrest ⊢
        rw [hrest]
        cases ofTokens afterBlank' rest <;> rfl

/-- The items of a text that is cut where a line ends are those of its parts. -/
theorem ofTokens_scan_append {a b : String} (ha : a = "" ∨ EndsIn isBreak a.toList)
    (hb : ∀ c ∈ b.toList.head?, isBreak c = false) :
    ofTokens false (Token.scan (a ++ b)) = (ofTokens false (Token.scan a)).bind fun items =>
      ((ofTokens false (Token.scan b)).mapError
        (ParseError.shift (Text.byteLength a.toList))).map (items ++ ·) := by
  rw [Token.scan_append ha hb, ofTokens_append ?_ (fun _ => rfl), ofTokens_shift]
  rcases ha with rfl | ha
  · simp [Token.scan]
  · exact Token.getLast?_scanFrom ha 0 true

theorem toBlocks_append (items items' : List Item) :
    toBlocks (items ++ items') = Block.append (toBlocks items) (toBlocks items') := by
  induction items with
  | nil => rfl
  | cons item items ih =>
    cases item with
    | command c => rw [List.cons_append, toBlocks, toBlocks, ih]; rfl
    | fragment t =>
      rw [List.cons_append, toBlocks, toBlocks, ih]
      rcases toBlocks items with _ | ⟨_ | c, _ | ⟨b, blocks⟩⟩
      · rw [Block.append]
        rcases toBlocks items' with _ | ⟨_ | _, _⟩ <;> rfl
      · rcases toBlocks items' with _ | ⟨_ | _, _⟩ <;> rfl
      · rfl
      · rfl
      · rfl

end Item

/-- A text that is cut where a line ends is read exactly if both parts are. -/
theorem parse_append_ok {a b : String} (ha : a = "" ∨ EndsIn isBreak a.toList)
    (hb : ∀ c ∈ b.toList.head?, isBreak c = false) {blocks : List Block} :
    parse (a ++ b) = .ok ⟨blocks⟩ ↔ ∃ front back, parse a = .ok ⟨front⟩ ∧ parse b = .ok ⟨back⟩
      ∧ blocks = Block.append front back := by
  simp only [parse, Item.ofTokens_scan_append ha hb]
  cases Item.ofTokens false (Token.scan a) with
  | error e => simp [Except.bind, Except.map]
  | ok items =>
    cases Item.ofTokens false (Token.scan b) with
    | error e => simp [Except.bind, Except.map, Except.mapError]
    | ok items' =>
      simp [Except.bind, Except.map, Except.mapError, Item.toBlocks_append, eq_comm]

/-- A text that is cut where a line ends is read part by part. The first part that has an error
gives the error of the whole, at its place in the whole; without errors the blocks of the parts
follow each other, with the text at the cut put together. -/
theorem parse_append {a b : String} (ha : a = "" ∨ EndsIn isBreak a.toList)
    (hb : ∀ c ∈ b.toList.head?, isBreak c = false) :
    parse (a ++ b) = match parse a, parse b with
      | .error e, _ => .error e
      | .ok _, .error e => .error (e.shift (Text.byteLength a.toList))
      | .ok script, .ok script' => .ok ⟨Block.append script.blocks script'.blocks⟩ := by
  rw [parse, parse, parse, Item.ofTokens_scan_append ha hb]
  cases Item.ofTokens false (Token.scan a) with
  | error e => rfl
  | ok items =>
    cases Item.ofTokens false (Token.scan b) with
    | error e => rfl
    | ok items' =>
      exact congrArg (fun blocks => Except.ok (Script.mk blocks))
        (Item.toBlocks_append items items')

theorem parse_append_open_quotes :
    ("don't /go a\n" = "" ∨ EndsIn isBreak "don't /go a\n".toList)
      ∧ (∀ c ∈ "/b 'c\n".toList.head?, isBreak c = false)
      ∧ (∀ c ∈ "it's".toList.head?, isBreak c = false)
      ∧ parse ("don't /go a\n" ++ "/b 'c\n") = .error (.unclosedQuote 15)
      ∧ parse ("don't /go a\n" ++ "it's") = .ok ⟨[.text ["don", "'", "t", " "],
          .command ⟨"go", [⟨none, "a"⟩], some "/go a\n"⟩, .text ["it", "'", "s"]]⟩ := by
  have ha : "don't /go a\n" = "" ∨ EndsIn isBreak "don't /go a\n".toList :=
    .inr ⟨'\n', rfl, rfl⟩
  have hb : ∀ c ∈ "/b 'c\n".toList.head?, isBreak c = false := by
    rintro _ ⟨⟩
    rfl
  have hb' : ∀ c ∈ "it's".toList.head?, isBreak c = false := by
    rintro _ ⟨⟩
    rfl
  refine ⟨ha, hb, hb', ?_, ?_⟩
  · rw [parse_append ha hb]
    decide +kernel
  · rw [parse_append ha hb']
    decide +kernel

end Briefing.Task
