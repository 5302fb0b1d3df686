import Briefing.Proofs.Tokenization

/-!
# What a command line cannot go on with

A command line goes on with one token after the other. A gap can always follow (`append_gap`), and a
token that is no gap and no break either makes a longer command line or is refused, with an error
that depends on the token and on the last character before it (`line_refuses`). So behind a slash
that starts no command there is a longest start of the line that is a command line itself, and the
error tells what stands behind it (`command_error`).
-/

namespace Briefing.Task

open Token (Enclosed IsRun Lexeme closeQuote? scanFrom)

/-- The byte where a text goes wrong. -/
def ParseError.offset : ParseError → Nat
  | unclosedQuote offset => offset
  | missingCommandName offset => offset
  | unterminatedCommand _ _ offset => offset
  | emptyKey offset => offset

/-- A quote that no quote behind it on its line matches. -/
structure IsOpenQuote (q : Char) (behind : List Char) : Prop where
  isQuote : isQuote q = true
  unmatched : ∀ inner rest, Enclosed q inner → behind ≠ inner ++ q :: rest

theorem isOpenQuote_iff {q : Char} (hq : isQuote q = true) {behind : List Char} :
    IsOpenQuote q behind ↔ closeQuote? q behind = none :=
  ⟨fun h => (Token.closeQuote?_eq_none_iff hq).mpr h.unmatched,
    fun h => ⟨hq, (Token.closeQuote?_eq_none_iff hq).mp h⟩⟩

/-- A character behind which a value can start. -/
def precedesValue (c : Char) : Bool := isGap c || c = '='

namespace Token

/-- The error for a token that a line of the command `name` cannot have behind `front`. -/
def refusal (name front : List Char) (t : Token) : ParseError :=
  match t.kind with
  | .openQuote =>
    if front.getLast?.any precedesValue then .unclosedQuote t.offset else unexpected name t
  | .assign => if front.getLast?.any isGap then .emptyKey t.offset else unexpected name t
  | _ => unexpected name t

/-- The classes of the tokens with which an argument can go on or start behind `front`. -/
def Continues (front : List Char) (kind : Kind) : Prop :=
  kind = .term ∨ kind = .quoted ∨ kind = .assign ∧ front.getLast?.any isGap = false

end Token

/-! ## Behind an argument -/

theorem precedesValue_of_isTermChar {c : Char} (h : isTermChar c = true) :
    precedesValue c = false := by
  obtain ⟨hg, -, -, -, ha⟩ := isTermChar_iff.mp h
  simp [precedesValue, hg, ha]

theorem isGap_of_precedesValue {c : Char} (h : precedesValue c = false) : isGap c = false := by
  simp only [precedesValue, Bool.or_eq_false_iff] at h
  exact h.1

theorem IsTerm.getLast? {t : List Char} (h : IsTerm t) :
    ∃ c, t.getLast? = some c ∧ precedesValue c = false :=
  ⟨t.getLast h.ne_nil, List.getLast?_eq_some_getLast h.ne_nil,
    precedesValue_of_isTermChar (h.all _ (List.getLast_mem h.ne_nil))⟩

theorem IsTerm.append {s t : List Char} (hs : IsTerm s) (ht : IsTerm t) : IsTerm (s ++ t) where
  ne_nil := by simp [hs.ne_nil]
  all := fun c hc => (List.mem_append.mp hc).elim (hs.all c) (ht.all c)

/-- No value starts right behind another one. -/
theorem ValueText.getLast? {t value : List Char} (h : ValueText t value) :
    ∃ c, t.getLast? = some c ∧ precedesValue c = false := by
  cases h with
  | term h => exact h.getLast?
  | @quoted q inner hq _ =>
    refine ⟨q, List.getLast?_concat (l := q :: inner), ?_⟩
    simp only [isQuote, Bool.or_eq_true, decide_eq_true_eq] at hq
    rcases hq with rfl | rfl <;> rfl

theorem ArgumentsText.single {gap t : List Char} {a : Argument} (hne : gap ≠ [])
    (hg : ∀ c ∈ gap, isGap c = true) (ha : ArgumentText t a) : ArgumentsText (gap ++ t) [a] := by
  have h := ArgumentsText.cons hne hg ha (.nil (by simp : ∀ c ∈ [], isGap c = true))
  rwa [List.append_nil] at h

theorem ArgumentsText.isGap_head {body : List Char} {args : List Argument}
    (h : ArgumentsText body args) : ∀ c ∈ body.head?, isGap c = true := by
  intro c hc
  cases h with
  | nil hg => exact hg c (List.mem_of_mem_head? hc)
  | @cons gap _ _ _ _ hne hg _ _ =>
    obtain ⟨x, s, rfl⟩ := List.exists_cons_of_ne_nil hne
    obtain rfl : x = c := by simpa using hc
    exact hg x List.mem_cons_self

theorem ArgumentsText.head_append {body tail : List Char} {args : List Argument}
    (h : ArgumentsText body args) (ht : ∀ c ∈ tail.head?, isTermChar c = false) :
    ∀ c ∈ (body ++ tail).head?, isTermChar c = false := by
  intro c hc
  rcases body with _ | ⟨x, s⟩
  · exact ht c hc
  · obtain rfl : x = c := by simpa using hc
    exact isTermChar_of_gap_or_break (.inl (h.isGap_head x rfl))

namespace Token

variable {kind : Kind} {found rest : List Char}

/-- A token does not start with a character whose class makes it a token of another class. -/
theorem Lexeme.head_eq_false {p : Char → Bool} {k : Kind} (h : Lexeme false kind found rest)
    (hk : kind ≠ k) (hp : ∀ {c s}, Shape kind (c :: s) → p c = true → kind = k) :
    ∀ c ∈ (found ++ rest).head?, p c = false := by
  intro c hc
  obtain ⟨x, s, rfl, -⟩ := cut_of_lexeme h
  obtain rfl : x = c := by simpa using hc
  by_contra hx
  exact hk (hp h.shape (by simpa using hx))

theorem Lexeme.head_isTermChar (h : Lexeme false kind found rest) (hk : kind ≠ .term) :
    ∀ c ∈ (found ++ rest).head?, isTermChar c = false :=
  h.head_eq_false hk fun hs => hs.kind_of_head.1

theorem Lexeme.isTerm (h : Lexeme false .term found rest) : IsTerm found := by
  cases h with
  | term h => exact ⟨h.ne_nil, h.all⟩

/-- A value is a token before another one, unless that one makes a longer term of it. -/
theorem lexeme_of_valueText_append {t value : List Char} (h : ValueText t value)
    (hl : Lexeme false kind found rest) :
    (∃ vk, (vk = .term ∧ IsTerm t ∨ vk = .quoted) ∧ Lexeme false vk t (found ++ rest)
        ∧ decodeValue t = value)
      ∨ kind = .term ∧ IsTerm t := by
  cases h with
  | term h =>
    by_cases hk : kind = .term
    · exact .inr ⟨hk, h⟩
    · exact .inl ⟨.term, .inl ⟨rfl, h⟩, .term (h.isRun (hl.head_isTermChar hk)), decodeValue_term h⟩
  | quoted hq h => exact .inl ⟨.quoted, .inr rfl, .quoted hq h, decodeValue_quoted hq _⟩

theorem scanFrom_key {key : List Char} (hk : IsTerm key) (offset : Nat) (s : List Char) :
    scanFrom offset false (key ++ '=' :: s)
      = ⟨.term, key, offset⟩ :: ⟨.assign, ['='], offset + Text.byteLength key⟩
        :: scanFrom (offset + Text.byteLength (key ++ ['='])) false s := by
  have hassign := scanFrom_lexeme (offset + Text.byteLength key)
    (.assign : Lexeme false .assign ['='] s)
  rw [Nat.add_assoc, ← byteLength_append] at hassign
  rw [scanFrom_lexeme offset (.term (hk.isRun (by simp [isTermChar])))]
  exact congrArg (_ :: ·) hassign

/-- What becomes of an argument before a token: it goes on with the token, the token is refused, or
the argument is read as it stands. -/
inductive ArgumentBefore (name : List Char) (offset : Nat) (t : List Char) (a : Argument)
    (kind : Kind) (found rest : List Char) : Prop
  | longer {a' : Argument} (hk : Continues t kind) (h : ArgumentText (t ++ found) a')
  | refused {token : Token} {tokens : List Token}
      (hs : scanFrom offset false (t ++ (found ++ rest)) = token :: tokens)
      (hk : token.kind ≠ .lineBreak)
      (h : argument name token tokens
        = .error (refusal name t ⟨kind, found, offset + Text.byteLength t⟩))
  | read {token : Token} {tokens : List Token} {n : Nat}
      (hs : scanFrom offset false (t ++ (found ++ rest)) = token :: tokens)
      (hk : token.kind ≠ .lineBreak) (h : argument name token tokens = .ok (a, n))
      (hdrop : tokens.drop n = scanFrom (offset + Text.byteLength t) false (found ++ rest))
      (hlast : t.getLast?.any precedesValue = false)

section Before

variable (name : List Char) (offset : Nat) {key t value : List Char} {a : Argument}

theorem argumentBefore_value (h : ValueText t value) (hl : Lexeme false kind found rest) :
    ArgumentBefore name offset t ⟨none, String.ofList value⟩ kind found rest := by
  have hfound := scanFrom_lexeme (offset + Text.byteLength t) hl
  obtain ⟨c, hc, hlast⟩ := h.getLast?
  rcases lexeme_of_valueText_append h hl with ⟨vk, hvk, hvl, rfl⟩ | ⟨rfl, ht⟩
  · by_cases hassign : vk = .term ∧ kind = .assign
    · obtain ⟨rfl, rfl⟩ := hassign
      have hterm : IsTerm t := by simpa using hvk
      cases hl with
      | assign =>
        exact .longer (.inr (.inr ⟨rfl, by simp [hc, isGap_of_precedesValue hlast]⟩)) (.empty hterm)
    · refine .read (scanFrom_lexeme offset hvl) ?_ (n := 0) ?_ ?_ (by simp [hc, hlast])
      · rcases hvk with ⟨rfl, -⟩ | rfl <;> simp
      · rcases hvk with ⟨rfl, -⟩ | rfl
        · simp only [reduceCtorEq, decide_false, hfound]
          cases kind <;> simp_all [argument]
        · simp [argument]
      · rcases hvk with ⟨rfl, -⟩ | rfl <;> rfl
  · exact .longer (.inl rfl) (.positional (.term (ht.append hl.isTerm)))

theorem argumentBefore_empty (hkey : IsTerm key) (hl : Lexeme false kind found rest)
    (hb : kind ≠ .blank) (hn : kind ≠ .lineBreak) :
    ArgumentBefore name offset (key ++ ['=']) ⟨some (String.ofList key), ""⟩ kind found rest := by
  have hs := scanFrom_key hkey offset (found ++ rest)
  rw [scanFrom_lexeme _ hl] at hs
  by_cases hvalue : kind = .term ∨ kind = .quoted
  · have hlonger := ArgumentText.named hkey (valueText_of_lexeme hl hvalue)
    rw [← List.singleton_append, ← List.append_assoc] at hlonger
    exact .longer (hvalue.imp_right .inl) hlonger
  · refine .refused (by rw [List.append_assoc]; exact hs) (by simp) ?_
    have hgap : isGap '=' = false := rfl
    cases kind <;>
      simp_all [argument, namedArgument, refusal, unexpected, precedesValue, Except.map]

theorem argumentBefore_named (hkey : IsTerm key) (h : ValueText t value)
    (hl : Lexeme false kind found rest) :
    ArgumentBefore name offset (key ++ '=' :: t) ⟨some (String.ofList key), String.ofList value⟩
      kind found rest := by
  obtain ⟨c, hc, hlast⟩ := h.getLast?
  have hend : (key ++ '=' :: t).getLast? = some c := by
    rw [List.getLast?_append, List.getLast?_cons, hc]
    rfl
  rcases lexeme_of_valueText_append h hl with ⟨vk, hvk, hvl, rfl⟩ | ⟨rfl, ht⟩
  · have hs := scanFrom_key hkey offset (t ++ (found ++ rest))
    rw [scanFrom_lexeme _ hvl] at hs
    refine .read (by rw [List.append_assoc]; exact hs) (by simp) (n := 2) ?_ ?_
      (by simp [hend, hlast])
    · rcases hvk with ⟨rfl, -⟩ | rfl <;> simp [argument, namedArgument, Except.map]
    · have hlength : Text.byteLength (key ++ '=' :: t)
          = Text.byteLength (key ++ ['=']) + Text.byteLength t := by
        rw [← byteLength_append, List.append_assoc, List.singleton_append]
      rw [hlength, ← Nat.add_assoc]
      rcases hvk with ⟨rfl, -⟩ | rfl <;> rfl
  · have hlonger := ArgumentText.named hkey (.term (ht.append hl.isTerm))
    rw [← List.cons_append, ← List.append_assoc] at hlonger
    exact .longer (.inl rfl) hlonger

theorem argumentBefore (h : ArgumentText t a) (hl : Lexeme false kind found rest)
    (hb : kind ≠ .blank) (hn : kind ≠ .lineBreak) :
    ArgumentBefore name offset t a kind found rest := by
  cases h with
  | positional h => exact argumentBefore_value name offset h hl
  | empty hkey => exact argumentBefore_empty name offset hkey hl hb hn
  | named hkey h => exact argumentBefore_named name offset hkey h hl

end Before

/-! ## Behind the arguments -/

theorem refusal_unexpected {name front : List Char} (t : Token)
    (h : front.getLast?.any precedesValue = false) : refusal name front t = unexpected name t := by
  have hgap : front.getLast?.any isGap = false := by
    cases hc : front.getLast? with
    | none => rfl
    | some c =>
      rw [hc] at h
      exact isGap_of_precedesValue h
  unfold refusal
  cases t.kind <;> simp [h, hgap]

theorem refusal_append (name front : List Char) {s : List Char} (hne : s ≠ []) (t : Token) :
    refusal name (front ++ s) t = refusal name s t := by
  rw [refusal, refusal, List.getLast?_append_of_ne_nil _ hne]

theorem Continues.append {s : List Char} (h : Continues s kind) (hne : s ≠ [])
    (front : List Char) : Continues (front ++ s) kind := by
  rwa [Continues, List.getLast?_append_of_ne_nil _ hne]

theorem line_unexpected (name : List Char) {t : Token} (tokens : List Token) (hb : t.kind ≠ .blank)
    (hn : t.kind ≠ .lineBreak) : line name (t :: tokens) = .error (unexpected name t) := by
  rw [line.eq_def]
  dsimp only
  split <;> simp_all

theorem line_gap (name : List Char) {gap text : List Char} {offset : Nat} {token : Token}
    {tokens : List Token} (hrun : IsRun isGap gap text)
    (hs : scanFrom (offset + Text.byteLength gap) false text = token :: tokens)
    (hk : token.kind ≠ .lineBreak) :
    line name (scanFrom offset false (gap ++ text)) = (argument name token tokens).bind fun x =>
      (line name (tokens.drop x.2)).map fun l => { l with arguments := x.1 :: l.arguments } := by
  have hs' : scanFrom (offset + Text.byteLength gap) (decide (Kind.blank = .lineBreak)) text
      = token :: tokens := hs
  rw [scanFrom_lexeme offset (.blank hrun), hs', line]
  simp only [hk, if_false]
  cases argument name token tokens <;> rfl

/-- The line of the command `name` refuses a token behind `body`, or goes on with it. -/
def Settles (name body : List Char) (kind : Kind) (found rest : List Char) (offset : Nat) : Prop :=
  line name (scanFrom offset false (body ++ (found ++ rest)))
      = .error (refusal name body ⟨kind, found, offset + Text.byteLength body⟩)
    ∨ Continues body kind ∧ ∃ args, ArgumentsText (body ++ found) args

section Refuses

variable (name : List Char) {gap t body : List Char} {a : Argument} {args : List Argument}
  (hl : Lexeme false kind found rest) (hb : kind ≠ .blank) (hn : kind ≠ .lineBreak) (offset : Nat)

theorem Settles.cons (hne : gap ≠ []) (hg : ∀ c ∈ gap, isGap c = true) (ha : ArgumentText t a)
    (hbody : body ≠ []) (hargs : ArgumentsText body args)
    (h : ∀ offset, Settles name body kind found rest offset) :
    Settles name (gap ++ (t ++ body)) kind found rest offset := by
  obtain ⟨c, s, ht, hc, -⟩ := ha.head
  have hrun : IsRun isGap gap (t ++ (body ++ (found ++ rest))) :=
    ⟨hne, hg, by simpa [ht] using hc⟩
  have hgap : ∀ c ∈ (body ++ (found ++ rest)).head?, isGap c = true ∨ isBreak c = true := by
    intro c hc
    rw [List.head?_append_of_ne_nil _ hbody] at hc
    exact .inl (hargs.isGap_head c hc)
  obtain ⟨token, tokens, n, hs, hk, harg, hdrop⟩ :=
    argument_of_text name (offset + Text.byteLength gap) ha hgap
  rw [Settles, List.append_assoc, List.append_assoc, line_gap name hrun hs hk, harg, Except.bind,
    hdrop, refusal_append _ _ (by simp [hbody]), refusal_append _ _ hbody, byteLength_append,
    byteLength_append, ← Nat.add_assoc, ← Nat.add_assoc]
  rcases h (offset + Text.byteLength gap + Text.byteLength t) with h | ⟨hk, args', h⟩
  · left
    rw [h]
    rfl
  · have hargs' := ArgumentsText.cons hne hg ha h
    simp only [← List.append_assoc] at hargs' ⊢
    exact .inr ⟨hk.append hbody _, _, hargs'⟩

include hl hb hn

theorem settles_nil : Settles name [] kind found rest offset := by
  left
  rw [List.nil_append, scanFrom_lexeme offset hl, line_unexpected name _ hb hn,
    refusal_unexpected _ rfl]
  rfl

theorem settles_gap (hne : gap ≠ []) (hg : ∀ c ∈ gap, isGap c = true) :
    Settles name gap kind found rest offset := by
  by_cases hvalue : kind = .term ∨ kind = .quoted
  · have ha := ArgumentText.positional (valueText_of_lexeme hl hvalue)
    exact .inr ⟨hvalue.imp_right .inl, _, .single hne hg ha⟩
  · left
    have hrun : IsRun isGap gap (found ++ rest) :=
      ⟨hne, hg, hl.head_eq_false hb fun hs => hs.kind_of_head.2.1⟩
    obtain ⟨c, hc, hlast⟩ : ∃ c, gap.getLast? = some c ∧ isGap c = true :=
      ⟨gap.getLast hne, List.getLast?_eq_some_getLast hne, hg _ (List.getLast_mem hne)⟩
    rw [line_gap name hrun (scanFrom_lexeme _ hl) hn]
    cases kind <;> simp_all [argument, refusal, precedesValue, Except.bind]

theorem settles_argument (hne : gap ≠ []) (hg : ∀ c ∈ gap, isGap c = true)
    (ha : ArgumentText t a) : Settles name (gap ++ t) kind found rest offset := by
  obtain ⟨c, s, ht, hc, -⟩ := ha.head
  have htne : t ≠ [] := by simp [ht]
  have hrun : IsRun isGap gap (t ++ (found ++ rest)) := ⟨hne, hg, by simpa [ht] using hc⟩
  rw [Settles, List.append_assoc, refusal_append _ _ htne, byteLength_append, ← Nat.add_assoc]
  cases argumentBefore name (offset + Text.byteLength gap) ha hl hb hn with
  | longer hk ha' =>
    have hargs := ArgumentsText.single hne hg ha'
    rw [← List.append_assoc] at hargs
    exact .inr ⟨hk.append htne gap, _, hargs⟩
  | refused hs hk h =>
    left
    rw [line_gap name hrun hs hk, h]
    rfl
  | read hs hk h hdrop hlast =>
    left
    rw [line_gap name hrun hs hk, h, Except.bind, hdrop, scanFrom_lexeme _ hl,
      line_unexpected name _ hb hn, refusal_unexpected _ hlast]
    rfl

/-- A command line goes on with a token that is no gap and no break, or refuses it. -/
theorem line_refuses (h : ArgumentsText body args) :
    Settles name body kind found rest offset := by
  induction h generalizing offset with
  | @nil gap hg =>
    rcases eq_or_ne gap [] with rfl | hne
    · exact settles_nil name hl hb hn offset
    · exact settles_gap name hl hb hn offset hne hg
  | @cons gap t body a args hne hg ha hargs ih =>
    rcases eq_or_ne body [] with rfl | hbody
    · rw [List.append_nil]
      exact settles_argument name hl hb hn offset hne hg ha
    · exact .cons name offset hne hg ha hbody hargs ih

end Refuses

end Token

/-! ## The longest command line -/

theorem ArgumentsText.append_gap {body gap : List Char} {args : List Argument}
    (h : ArgumentsText body args) (hg : ∀ c ∈ gap, isGap c = true) :
    ArgumentsText (body ++ gap) args := by
  induction h with
  | nil hg' => exact .nil fun c hc => (List.mem_append.mp hc).elim (hg' c) (hg c)
  | cons hne hg' ha _ ih =>
    rw [List.append_assoc, List.append_assoc]
    exact .cons hne hg' ha ih

/-- Arguments go on to the end of the line or to a token that they cannot go on with. -/
theorem exists_longest {body : List Char} {args : List Argument} (h : ArgumentsText body args)
    (text : List Char) : ∃ body' args' rest,
      body ++ text = body' ++ rest ∧ ArgumentsText body' args'
        ∧ ((∀ c ∈ rest.head?, isBreak c = true)
          ∨ ∃ kind found more, rest = found ++ more ∧ Lexeme false kind found more ∧ kind ≠ .blank
            ∧ kind ≠ .lineBreak ∧ ∀ args, ¬ArgumentsText (body' ++ found) args) := by
  induction hn : text.length using Nat.strongRecOn generalizing body args text with
  | _ n ih =>
    subst hn
    rcases text with _ | ⟨c, s⟩
    · exact ⟨body, args, [], rfl, h, .inl (by simp)⟩
    · have hl := Token.lexeme_cut false c s
      have hs := congrArg (c :: ·) (Token.cut_append false c s)
      generalize (Token.cut false c s).1 = kind at hl
      generalize hfound : c :: (Token.cut false c s).2.1 = found at hl
      generalize (Token.cut false c s).2.2 = more at hl hs
      simp only [← List.cons_append, hfound] at hs
      have hlt : more.length < (c :: s).length := by
        have hpos : 0 < found.length := by simp [← hfound]
        simp only [← hs, List.length_append]
        omega
      by_cases hbreak : kind = .lineBreak
      · subst hbreak
        refine ⟨body, args, c :: s, rfl, h, .inl ?_⟩
        cases hl with
        | lineBreak hrun =>
          rintro _ ⟨⟩
          exact hrun.all c (by simp [← hfound])
      · by_cases hlonger : ∃ args', ArgumentsText (body ++ found) args'
        · obtain ⟨args', h'⟩ := hlonger
          rw [← hs, ← List.append_assoc]
          exact ih _ hlt h' more rfl
        · have hblank : kind ≠ .blank := by
            rintro rfl
            cases hl with
            | blank hrun => exact hlonger ⟨args, h.append_gap hrun.all⟩
          exact ⟨body, args, c :: s, rfl, h,
            .inr ⟨kind, found, more, hs.symm, hl, hblank, hbreak, not_exists.mp hlonger⟩⟩

/-! ## Where a line goes wrong -/

/-- What is wrong at a place of a line, behind `front` and before `rest`, with the error for it. All
of the line that is before that place is a command line, unless the line has no name. -/
inductive WrongAt : List Char → List Char → ParseError → Prop
  | missingCommandName {rest : List Char} {offset : Nat}
      (h : ∀ c ∈ rest.head?, isTermChar c = false) :
      WrongAt [] ('/' :: rest) (.missingCommandName offset)
  | unclosedQuote {front rest : List Char} {q : Char} {name : String} {args : List Argument}
      {offset : Nat} (hfront : CommandLine front name args) (hvalue : EndsIn precedesValue front)
      (hopen : IsOpenQuote q rest) : WrongAt front (q :: rest) (.unclosedQuote offset)
  | emptyKey {front rest : List Char} {name : String} {args : List Argument} {offset : Nat}
      (hfront : CommandLine front name args) (hgap : EndsIn isGap front) :
      WrongAt front ('=' :: rest) (.emptyKey offset)
  /-- The line does not go on with the token that is found. -/
  | unterminatedCommand {front found rest : List Char} {name : String} {args : List Argument}
      {kind : Token.Kind} {offset : Nat} (hfront : CommandLine front name args)
      (hfound : Lexeme false kind found rest) (hbreak : kind ≠ .lineBreak)
      (hno : ∀ name args, ¬CommandLine (front ++ found) name args) :
      WrongAt front (found ++ rest) (.unterminatedCommand name (String.ofList found) offset)

theorem takeWhile_isTermChar {name s : List Char} (hname : IsTerm name)
    (hs : ∀ c ∈ s.head?, isTermChar c = false) : (name ++ s).takeWhile isTermChar = name := by
  rw [List.takeWhile_append_of_pos hname.all]
  rcases s with _ | ⟨c, s⟩
  · simp
  · simp [hs c rfl]

/-- The name of a command line is its first term. -/
theorem CommandLine.arguments {name s : List Char} (hname : IsTerm name)
    (hs : ∀ c ∈ s.head?, isTermChar c = false) {name' : String} {args : List Argument}
    (h : CommandLine ('/' :: (name ++ s)) name' args) :
    name' = String.ofList name ∧ ArgumentsText s args := by
  generalize hline : '/' :: (name ++ s) = line at h
  obtain ⟨hname', hargs⟩ := h
  rename_i other body
  obtain ⟨-, hline⟩ := List.cons.inj hline
  have hbody := hargs.head_append (by simp : ∀ c ∈ ([] : List Char).head?, isTermChar c = false)
  rw [List.append_nil] at hbody
  obtain rfl : name = other := by
    rw [← takeWhile_isTermChar hname hs, hline, takeWhile_isTermChar hname' hbody]
  exact ⟨rfl, List.append_cancel_left hline ▸ hargs⟩

theorem endsIn_iff {p : Char → Bool} {s : List Char} : s.getLast?.any p = true ↔ EndsIn p s := by
  simp [EndsIn, Option.any_eq_true]

namespace Token

theorem refusal_offset (name front : List Char) (t : Token) :
    (refusal name front t).offset = t.offset := by
  unfold refusal
  cases t.kind <;> dsimp only <;> (try split) <;> rfl

/-- What is refused is wrong. -/
theorem wrongAt_refusal {kind : Kind} {name body found rest : List Char} {args : List Argument}
    (offset : Nat) (hname : IsTerm name) (h : ArgumentsText body args)
    (hl : Lexeme false kind found rest) (hbreak : kind ≠ .lineBreak)
    (hno : ∀ name' args, ¬CommandLine ('/' :: (name ++ body) ++ found) name' args) :
    WrongAt ('/' :: (name ++ body)) (found ++ rest) (refusal name body ⟨kind, found, offset⟩) := by
  have hfront := CommandLine.intro hname h
  have hunexpected : WrongAt ('/' :: (name ++ body)) (found ++ rest)
      (unexpected name ⟨kind, found, offset⟩) := .unterminatedCommand hfront hl hbreak hno
  have hend : ∀ {p}, body.getLast?.any p = true → EndsIn p ('/' :: (name ++ body)) :=
    fun h => (endsIn_iff.mp h).append ('/' :: name)
  unfold refusal
  cases hl with
  | openQuote hq hopen =>
    dsimp only
    split_ifs with hvalue
    · exact .unclosedQuote hfront (hend hvalue) ((isOpenQuote_iff hq).mpr hopen)
    · exact hunexpected
  | assign =>
    dsimp only
    split_ifs with hgap
    · exact .emptyKey hfront (hend hgap)
    · exact hunexpected
  | _ => exact hunexpected

theorem byteLength_commandLine (name body : List Char) :
    Text.byteLength ('/' :: (name ++ body))
      = 1 + (Text.byteLength name + Text.byteLength body) := by
  rw [← byteLength_append]
  rfl

theorem command_term (slash : Token) {name s : List Char} (hname : IsTerm name)
    (hs : ∀ c ∈ s.head?, isTermChar c = false) (offset : Nat) :
    command slash (scanFrom offset false (name ++ s))
      = (line name (scanFrom (offset + Text.byteLength name) false s)).map fun l => (name, l) := by
  rw [scanFrom_lexeme offset (.term (hname.isRun hs)), command]
  rfl

theorem command_no_name (slash : Token) (offset : Nat) {text : List Char}
    (h : ∀ c ∈ text.head?, isTermChar c = false) :
    command slash (scanFrom offset false text) = .error (.missingCommandName slash.offset) := by
  rcases hs : scanFrom offset false text with _ | ⟨t, tokens⟩
  · rfl
  · obtain ⟨rest, rfl, -, hl, -⟩ := lexeme_of_scanFrom hs
    have hk : t.kind ≠ .term := by
      intro hk
      rw [hk] at hl
      obtain ⟨c, s, hc, -⟩ := cut_of_lexeme hl
      have hterm := hl.isTerm.all c (by simp [hc])
      simp [h c (by simp [hc])] at hterm
    rw [command, if_neg hk]

/-- Where a slash starts no command, the longest start of the line that is a command line stands
before the place that the error gives, and behind it stands what the error tells. -/
theorem command_error {slash : Token} {text : List Char} {e : ParseError}
    (h : command slash (scanFrom (slash.offset + 1) false text) = .error e) :
    ∃ front rest, '/' :: text = front ++ rest ∧ WrongAt front rest e
      ∧ e.offset = slash.offset + Text.byteLength front := by
  by_cases hterm : ∀ c ∈ text.head?, isTermChar c = false
  · rw [command_no_name slash _ hterm] at h
    obtain rfl := Except.error.inj h
    exact ⟨[], '/' :: text, rfl, .missingCommandName hterm, rfl⟩
  · obtain ⟨name, s, rfl, hrun⟩ : ∃ name s, text = name ++ s ∧ IsRun isTermChar name s := by
      rcases text with _ | ⟨c, s⟩
      · simp at hterm
      · refine ⟨c :: s.takeWhile isTermChar, s.dropWhile isTermChar, ?_,
          isRun_takeWhile (by simpa using hterm) s⟩
        rw [List.cons_append, List.takeWhile_append_dropWhile]
    have hname : IsTerm name := ⟨hrun.ne_nil, hrun.all⟩
    obtain ⟨body, args, rest, hs, hargs, hend | ⟨kind, found, more, rfl, hl, hb, hn, hno⟩⟩ :=
      exists_longest (.nil (by simp : ∀ c ∈ [], isGap c = true)) s
    all_goals
      rw [List.nil_append] at hs
      subst hs
    · -- the whole line is a command line
      have hline := CommandLine.intro hname hargs
      rw [← firstLine_append (isBreak_commandLine hline) hend, List.cons_append,
        List.append_assoc] at hline
      obtain ⟨l, hl, -⟩ := command_iff_commandLine.mpr hline
      exact absurd (h.symm.trans hl) (by simp)
    · rw [command_term slash hname hrun.stops, map_eq_error] at h
      rcases line_refuses name hl hb hn _ hargs with herror | ⟨-, args', hlonger⟩
      · obtain rfl := Except.error.inj (h.symm.trans herror)
        have hstops : ∀ c ∈ (body ++ found).head?, isTermChar c = false := by
          obtain ⟨x, s, rfl, -⟩ := cut_of_lexeme hl
          simpa using hrun.stops
        refine ⟨'/' :: (name ++ body), found ++ more, by simp,
          wrongAt_refusal _ hname hargs hl hn fun name' args' hline => ?_, ?_⟩
        · rw [List.cons_append, List.append_assoc] at hline
          exact hno args' (hline.arguments hname hstops).2
        · rw [refusal_offset, byteLength_commandLine, ← Nat.add_assoc, ← Nat.add_assoc]
      · exact absurd hlonger (hno args')

/-- An open quote behind a command line is refused, and told as one where a value can start. -/
theorem command_openQuote (slash : Token) {front rest : List Char} {q : Char} {name : String}
    {args : List Argument} (h : CommandLine front name args) (hopen : IsOpenQuote q rest) :
    command slash (scanFrom (slash.offset + 1) false (front.tail ++ q :: rest))
      = .error (if front.getLast?.any precedesValue
          then .unclosedQuote (slash.offset + Text.byteLength front)
          else .unterminatedCommand name (String.ofList [q])
            (slash.offset + Text.byteLength front)) := by
  obtain ⟨hname, hargs⟩ := h
  rename_i name body
  have hl : Lexeme false .openQuote [q] rest :=
    .openQuote hopen.isQuote ((isOpenQuote_iff hopen.isQuote).mp hopen)
  have hstops : ∀ c ∈ (body ++ q :: rest).head?, isTermChar c = false :=
    hargs.head_append (hl.head_isTermChar (by simp))
  have hlast : ('/' :: (name ++ body)).getLast?.any precedesValue
      = body.getLast?.any precedesValue := by
    rcases eq_or_ne body [] with rfl | hne
    · obtain ⟨c, hc, hvalue⟩ := hname.getLast?
      rw [List.append_nil, List.getLast?_cons, hc]
      exact hvalue
    · rw [← List.cons_append, List.getLast?_append_of_ne_nil _ hne]
  rw [List.tail_cons, List.append_assoc, command_term slash hname hstops, hlast,
    byteLength_commandLine, ← Nat.add_assoc, ← Nat.add_assoc]
  rcases line_refuses name hl (by simp) (by simp) _ hargs with herror | ⟨hk, -⟩
  · rw [List.singleton_append] at herror
    rw [herror]
    rfl
  · simp [Continues] at hk

end Token

end Briefing.Task
