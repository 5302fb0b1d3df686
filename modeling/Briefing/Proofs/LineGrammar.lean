import Briefing.Proofs.Lines

/-!
# Lines and command lines

A line goes from the start of the text or from behind a break up to the next break
(`mem_splitOnP_isBreak`). A slash starts a command exactly if the line from there on is a line of
the grammar (`command_iff_commandLine`), which has one name and one list of arguments at most
(`CommandLine.unique`). The tokens of the command are then those of its line, without a slash or an
unmatched quote among them (`command_tokens`).
-/

namespace Briefing.Task

open Token (Lexeme scanFrom source)

/-- The characters up to the next break. -/
def firstLine (s : List Char) : List Char := s.takeWhile fun c => !isBreak c

/-- A line of the grammar, with the name and the arguments that it has: a slash and a name, then
arguments behind gaps, then perhaps a gap. -/
inductive CommandLine : List Char → String → List Argument → Prop
  | intro {name body : List Char} {args : List Argument} (hname : IsTerm name)
      (hargs : ArgumentsText body args) :
      CommandLine ('/' :: (name ++ body)) (String.ofList name) args

/-- A slash, at the start of a line or within it. -/
def Token.IsSlash (t : Token) : Prop := t.kind = .commandStart ∨ t.kind = .slash

/-! ## Lines -/

theorem splitOnP_isBreak (s : List Char) :
    ∃ more, s.splitOnP isBreak = firstLine s :: more
      ∧ ∀ line, line ∈ more ↔ ∃ a b, s = a ++ b ∧ EndsIn isBreak a ∧ line = firstLine b := by
  induction s with
  | nil =>
    refine ⟨[], rfl, fun line => ⟨by simp, ?_⟩⟩
    rintro ⟨a, b, hab, ha, -⟩
    exact absurd (List.append_eq_nil_iff.mp hab.symm).1 ha.ne_nil
  | cons c s ih =>
    obtain ⟨more, hs, hmore⟩ := ih
    by_cases hc : isBreak c = true
    · refine ⟨firstLine s :: more, ?_, fun line => ?_⟩
      · simp [List.splitOnP_cons_eq_if_modifyHead, hc, hs, firstLine]
      · rw [List.mem_cons, hmore]
        constructor
        · rintro (rfl | ⟨a, b, rfl, ha, rfl⟩)
          · exact ⟨[c], s, rfl, ⟨c, rfl, hc⟩, rfl⟩
          · exact ⟨c :: a, b, rfl, ha.append [c], rfl⟩
        · rintro ⟨_ | ⟨x, a⟩, b, hab, ha, rfl⟩
          · exact absurd rfl ha.ne_nil
          · obtain ⟨rfl, rfl⟩ := List.cons.inj hab
            rcases eq_or_ne a [] with rfl | hne
            · exact .inl rfl
            · exact .inr ⟨a, b, rfl, ha.of_append (s := [c]) hne, rfl⟩
    · rw [Bool.not_eq_true] at hc
      refine ⟨more, ?_, fun line => ?_⟩
      · simp [List.splitOnP_cons_eq_if_modifyHead, hc, hs, firstLine]
      · rw [hmore]
        constructor
        · rintro ⟨a, b, rfl, ha, rfl⟩
          exact ⟨c :: a, b, rfl, ha.append [c], rfl⟩
        · rintro ⟨_ | ⟨x, a⟩, b, hab, ha, rfl⟩
          · exact absurd rfl ha.ne_nil
          · obtain ⟨rfl, rfl⟩ := List.cons.inj hab
            exact ⟨a, b, rfl, ha.of_cons hc, rfl⟩

/-- A line goes from the start of the text or from behind a break up to the next break. -/
theorem mem_splitOnP_isBreak {s line : List Char} : line ∈ s.splitOnP isBreak ↔
    ∃ a b, s = a ++ b ∧ (a = [] ∨ EndsIn isBreak a) ∧ line = firstLine b := by
  obtain ⟨more, hs, hmore⟩ := splitOnP_isBreak s
  rw [hs, List.mem_cons, hmore]
  constructor
  · rintro (rfl | ⟨a, b, rfl, ha, rfl⟩)
    · exact ⟨[], s, rfl, .inl rfl, rfl⟩
    · exact ⟨a, b, rfl, .inr ha, rfl⟩
  · rintro ⟨a, b, rfl, rfl | ha, rfl⟩
    · exact .inl rfl
    · exact .inr ⟨a, b, rfl, ha, rfl⟩

theorem firstLine_append {s t : List Char} (hs : ∀ c ∈ s, isBreak c = false)
    (ht : ∀ c ∈ t.head?, isBreak c = true) : firstLine (s ++ t) = s := by
  rw [firstLine, List.takeWhile_append_of_pos (by simpa using hs)]
  rcases t with _ | ⟨c, t⟩
  · simp
  · simp [ht c rfl]

theorem exists_of_head?_firstLine {s : List Char} {c : Char} (h : (firstLine s).head? = some c) :
    ∃ t, s = c :: t := by
  rcases s with _ | ⟨x, t⟩
  · simp [firstLine] at h
  · rw [firstLine, List.head?_takeWhile] at h
    obtain ⟨rfl, -⟩ := by simpa using h
    exact ⟨t, rfl⟩

/-- A text is cut at a break with none before it in one way only. -/
theorem append_inj_of_isBreak {s s' t t' : List Char} (h : s ++ t = s' ++ t')
    (hs : ∀ c ∈ s, isBreak c = false) (ht : ∀ c ∈ t.head?, isBreak c = true)
    (hs' : ∀ c ∈ s', isBreak c = false) (ht' : ∀ c ∈ t'.head?, isBreak c = true) :
    s = s' ∧ t = t' := by
  obtain rfl : s = s' := by rw [← firstLine_append hs ht, h, firstLine_append hs' ht']
  exact ⟨rfl, List.append_cancel_left h⟩

theorem source_append (tokens tokens' : List Token) :
    source (tokens ++ tokens') = source tokens ++ source tokens' := List.flatMap_append

/-- Two splits of a list with the same text before them are the same. -/
theorem eq_of_flatMap_eq {α : Type} {f : α → List Char} {l₁ l₂ l₃ l₄ : List α}
    (h : l₁ ++ l₂ = l₃ ++ l₄) (hne : ∀ x ∈ l₁ ++ l₂, f x ≠ [])
    (hf : l₁.flatMap f = l₃.flatMap f) : l₁ = l₃ ∧ l₂ = l₄ := by
  induction l₁ generalizing l₃ with
  | nil =>
    rcases l₃ with _ | ⟨x, l₃⟩
    · exact ⟨rfl, h⟩
    · have hx := hne x (by rw [h]; exact List.mem_cons_self)
      exact absurd (List.append_eq_nil_iff.mp hf.symm).1 hx
  | cons x l₁ ih =>
    rcases l₃ with _ | ⟨y, l₃⟩
    · exact absurd (List.append_eq_nil_iff.mp hf).1 (hne x List.mem_cons_self)
    · obtain ⟨rfl, h'⟩ := List.cons.inj h
      obtain ⟨rfl, rfl⟩ := ih h' (fun z hz => hne z (List.mem_cons_of_mem _ hz))
        (List.append_cancel_left hf)
      exact ⟨rfl, rfl⟩

/-! ## Command lines -/

theorem isBreak_command {name body : List Char} {args : List Argument} (hname : IsTerm name)
    (hargs : ArgumentsText body args) : ∀ c ∈ name ++ body, isBreak c = false :=
  fun c hc => (List.mem_append.mp hc).elim (hname.isBreak c) (hargs.isBreak c)

theorem isBreak_commandLine {line : List Char} {name : String} {args : List Argument}
    (h : CommandLine line name args) : ∀ c ∈ line, isBreak c = false := by
  cases h with
  | intro hname hargs => exact List.forall_mem_cons.mpr ⟨rfl, isBreak_command hname hargs⟩

/-- The end of a line can be read at its break. -/
theorem exists_lineEnd (offset : Nat) (text : List Char) : ∃ trailing rest,
    LineEnd offset (text.dropWhile fun c => !isBreak c) trailing rest := by
  have hhead := List.head?_dropWhile_not (fun c => !isBreak c) text
  cases hd : text.dropWhile fun c => !isBreak c with
  | nil => exact ⟨[], [], .stop⟩
  | cons c s =>
    rw [hd] at hhead
    have hrun := Token.isRun_takeWhile (by simpa using hhead : isBreak c = true) s
    have he : LineEnd offset _ _ _ := .breaks hrun
    rw [List.cons_append, List.takeWhile_append_dropWhile] at he
    exact ⟨_, _, he⟩

/-- A slash is the start of a command exactly if the line from there on is a command line. -/
theorem command_iff_commandLine {slash : Token} {offset : Nat} {text : List Char} {name : String}
    {args : List Argument} :
    (∃ l, Token.command slash (scanFrom offset false text) = .ok (name.toList, l)
      ∧ l.arguments = args) ↔ CommandLine (firstLine ('/' :: text)) name args := by
  have hslash : firstLine ('/' :: text) = '/' :: firstLine text := rfl
  constructor
  · rintro ⟨l, h, rfl⟩
    obtain ⟨body, tail, rfl, hname, hargs, hend⟩ := Token.command_scanFrom_iff.mp h
    rw [hslash, ← List.append_assoc, firstLine_append (isBreak_command hname hargs) hend.head]
    have hline := CommandLine.intro hname hargs
    rwa [String.ofList_toList] at hline
  · rw [hslash]
    generalize hline : '/' :: firstLine text = line
    rintro ⟨hname, hargs⟩
    rename_i name body
    rw [String.toList_ofList]
    obtain ⟨-, hline⟩ := List.cons.inj hline
    have htext : text = name ++ (body ++ text.dropWhile fun c => !isBreak c) := by
      rw [← List.append_assoc, ← hline, firstLine, List.takeWhile_append_dropWhile]
    obtain ⟨trailing, rest, hend⟩ :=
      exists_lineEnd (offset + Text.byteLength name + Text.byteLength body) text
    exact ⟨⟨args, trailing, rest⟩,
      Token.command_scanFrom_iff.mpr ⟨body, _, htext, hname, hargs, hend⟩, rfl⟩

/-- A line has one name and one list of arguments at most. -/
theorem CommandLine.unique {line : List Char} {name name' : String} {args args' : List Argument}
    (h : CommandLine line name args) (h' : CommandLine line name' args') :
    name = name' ∧ args = args' := by
  have hread : ∀ {name : String} {args : List Argument}, CommandLine line name args →
      ∃ l, Token.command ⟨.slash, ['/'], 0⟩ (scanFrom 1 false line.tail) = .ok (name.toList, l)
        ∧ l.arguments = args := by
    intro name args h
    refine command_iff_commandLine.mpr ?_
    have hline := firstLine_append (t := []) (isBreak_commandLine h) (by simp)
    rw [List.append_nil] at hline
    obtain ⟨hname, hargs⟩ := h
    rw [List.tail_cons, hline]
    exact .intro hname hargs
  obtain ⟨l, hl, rfl⟩ := hread h
  obtain ⟨l', hl', rfl⟩ := hread h'
  rw [hl] at hl'
  obtain ⟨hname, rfl⟩ := by simpa using hl'
  exact ⟨String.toList_inj.mp hname, rfl⟩

namespace Token

/-! ## The tokens of a command -/

/-- The classes of the tokens that an argument can have. -/
def argumentKinds : List (List Kind) :=
  [[.term], [.quoted], [.term, .assign], [.term, .assign, .term], [.term, .assign, .quoted]]

theorem argument_kinds {name : List Char} {token : Token} {tokens : List Token} {a : Argument}
    {n : Nat} (h : argument name token tokens = .ok (a, n)) :
    n ≤ tokens.length ∧ (token :: tokens.take n).map kind ∈ argumentKinds := by
  have hnamed : ∀ {key tokens n}, namedArgument name key tokens = .ok (a, n) →
      n ≤ tokens.length ∧ (tokens.take n).map kind ∈ [[], [.term], [.quoted]] := by
    intro key tokens n h
    unfold namedArgument at h
    split at h
    · obtain ⟨-, rfl⟩ := by simpa using h
      simp
    · split at h <;> simp at h <;> obtain ⟨-, rfl⟩ := h <;> simp [*]
  obtain ⟨k, text, offset⟩ := token
  unfold argument at h
  split at h
  · rename_i tokens hk
    obtain rfl : k = .term := hk
    obtain ⟨⟨a', n'⟩, hn, he⟩ := map_eq_ok.mp h
    obtain ⟨rfl, rfl⟩ : a' = a ∧ n' + 1 = n := by simpa using he
    obtain ⟨hle, hkinds⟩ := hnamed hn
    refine ⟨Nat.succ_le_succ hle, ?_⟩
    rw [List.take_succ_cons, List.map_cons, List.map_cons]
    simp only [List.mem_cons, List.not_mem_nil, or_false] at hkinds
    rcases hkinds with hkinds | hkinds | hkinds <;> simp [argumentKinds, hkinds]
  · rename_i hk
    obtain ⟨-, rfl⟩ := by simpa using h
    obtain rfl : k = .term := by assumption
    simp [argumentKinds]
  · rename_i hk
    obtain ⟨-, rfl⟩ := by simpa using h
    obtain rfl : k = .quoted := hk
    simp [argumentKinds]
  all_goals simp at h

/-- The tokens of a command's line: no slash and no unmatched quote is one, and only the end of the
text or a break ends it. -/
theorem line_tokens {name : List Char} {tokens : List Token} {l : Line}
    (h : line name tokens = .ok l) : ∃ used, tokens = used ++ l.rest
      ∧ (∀ t ∈ used, ¬t.IsSlash) ∧ (l.rest ≠ [] → ∃ t ∈ used.getLast?, t.kind = .lineBreak) := by
  fun_induction line name tokens generalizing l with
  | case1 =>
    obtain rfl := Except.ok.inj h
    exact ⟨[], rfl, by simp, by simp⟩
  | case2 token tokens hk =>
    obtain rfl := Except.ok.inj h
    exact ⟨[token], rfl, by simp [IsSlash, hk], fun _ => ⟨token, rfl, hk⟩⟩
  | case3 token hk =>
    obtain rfl := Except.ok.inj h
    exact ⟨[token], rfl, by simp [IsSlash, hk], by simp⟩
  | case4 token hk next rest hnext =>
    obtain rfl := Except.ok.inj h
    exact ⟨[token, next], rfl, by simp [IsSlash, hk, hnext], fun _ => ⟨next, rfl, hnext⟩⟩
  | case5 => simp at h
  | case6 token hk next rest hnext a n harg ih =>
    obtain ⟨l', hl', rfl⟩ := map_eq_ok.mp h
    obtain ⟨used, hrest, hused, hlast⟩ := ih hl'
    have hargument : ∀ t ∈ next :: rest.take n, ¬t.IsSlash := by
      have hkinds : ∀ ks ∈ argumentKinds, ∀ k ∈ ks, ¬(k = .commandStart ∨ k = .slash) := by decide
      exact fun t ht => hkinds _ (argument_kinds harg).2 _ (List.mem_map_of_mem ht)
    refine ⟨token :: (next :: rest.take n ++ used), ?_, ?_, fun hne => ?_⟩
    · rw [List.cons_append, List.append_assoc, ← hrest, List.cons_append, List.take_append_drop]
    · intro t ht
      rcases List.mem_cons.mp ht with rfl | ht
      · simp [IsSlash, hk]
      · exact (List.mem_append.mp ht).elim (hargument t) (hused t)
    · obtain ⟨t, ht, hk⟩ := hlast hne
      refine ⟨t, ?_, hk⟩
      rw [← List.cons_append, List.getLast?_append, Option.mem_def.mp ht]
      rfl
  | case7 => simp at h

theorem command_tokens {slash : Token} {tokens : List Token} {name : List Char} {l : Line}
    (h : command slash tokens = .ok (name, l)) : ∃ used, tokens = used ++ l.rest
      ∧ (∀ t ∈ used, ¬t.IsSlash) ∧ (l.rest ≠ [] → ∃ t ∈ used.getLast?, t.kind = .lineBreak) := by
  rcases tokens with _ | ⟨token, tokens⟩
  · simp [command] at h
  · rw [command] at h
    split_ifs at h with hk
    obtain ⟨l', hl, he⟩ := map_eq_ok.mp h
    obtain ⟨-, rfl⟩ := by simpa using he
    obtain ⟨used, rfl, hused, hlast⟩ := line_tokens hl
    refine ⟨token :: used, rfl, ?_, fun hne => ?_⟩
    · exact List.forall_mem_cons.mpr ⟨by simp [IsSlash, hk], hused⟩
    · obtain ⟨t, ht, hk⟩ := hlast hne
      refine ⟨t, ?_, hk⟩
      rw [List.getLast?_cons, Option.mem_def.mp ht]
      rfl

end Token

/-! ## Tokens of a text -/

/-- A token ends with a break exactly if it is one. -/
theorem endsIn_isBreak_iff {lineStart : Bool} {kind : Token.Kind} {text rest : List Char}
    (h : Lexeme lineStart kind text rest) : EndsIn isBreak text ↔ kind = .lineBreak := by
  refine ⟨fun hend => (h.isRun_of_endsIn hend).1, fun hk => ?_⟩
  subst hk
  cases h with
  | lineBreak hrun => exact endsIn_of_forall hrun.ne_nil hrun.all

/-- The tokens behind others are those of the text behind theirs, and a line starts there exactly if
it does so in the text. -/
theorem scanFrom_split {offset : Nat} {lineStart : Bool} {text : List Char}
    {before after : List Token} (h : scanFrom offset lineStart text = before ++ after) :
    ∃ lineStart', after = scanFrom (offset + Text.byteLength (source before)) lineStart'
        (source after)
      ∧ (lineStart' = true ↔ before = [] ∧ lineStart = true ∨ EndsIn isBreak (source before)) := by
  induction before generalizing offset lineStart text with
  | nil =>
    refine ⟨lineStart, ?_, by simp [source, EndsIn]⟩
    rw [List.nil_append] at h
    rw [← h, Token.source_scanFrom]
    rfl
  | cons t before ih =>
    obtain ⟨rest, rfl, -, hl, htokens⟩ := Token.lexeme_of_scanFrom h
    obtain ⟨lineStart', hafter, hstart⟩ := ih htokens.symm
    have hsource : source (t :: before) = t.text ++ source before := List.flatMap_cons
    refine ⟨lineStart', ?_, ?_⟩
    · rwa [hsource, byteLength_append, ← Nat.add_assoc]
    · rw [hstart, hsource, decide_eq_true_iff, ← endsIn_isBreak_iff hl]
      rcases before with _ | ⟨u, before⟩
      · simp [source, EndsIn]
      · have hne : source (u :: before) ≠ [] := by
          obtain ⟨_, -, -, hu, -⟩ := Token.lexeme_of_scanFrom htokens.symm
          simpa [source] using fun h => absurd h (Item.token_text_ne_nil hu)
        have hend : EndsIn isBreak (t.text ++ source (u :: before))
            ↔ EndsIn isBreak (source (u :: before)) :=
          ⟨fun hend => hend.of_append hne, fun hend => hend.append t.text⟩
        simp [hend]

theorem lexeme_of_mem {offset : Nat} {lineStart : Bool} {text : List Char} :
    ∀ t ∈ scanFrom offset lineStart text,
      ∃ lineStart' rest, Lexeme lineStart' t.kind t.text rest := by
  intro t ht
  obtain ⟨before, after, h⟩ := List.append_of_mem ht
  obtain ⟨lineStart', hafter, -⟩ := scanFrom_split h
  obtain ⟨rest, -, -, hl, -⟩ := Token.lexeme_of_scanFrom hafter.symm
  exact ⟨lineStart', rest, hl⟩

theorem text_ne_nil {offset : Nat} {lineStart : Bool} {text : List Char} :
    ∀ t ∈ scanFrom offset lineStart text, t.text ≠ [] := by
  intro t ht
  obtain ⟨_, _, hl⟩ := lexeme_of_mem t ht
  exact Item.token_text_ne_nil hl

theorem scanFrom_slash (offset : Nat) (lineStart : Bool) (t : List Char) :
    scanFrom offset lineStart ('/' :: t)
      = ⟨if lineStart then .commandStart else .slash, ['/'], offset⟩
        :: scanFrom (offset + 1) false t := by
  cases lineStart
  · exact Token.scanFrom_lexeme offset (.slash rfl)
  · exact Token.scanFrom_lexeme offset (.commandStart rfl)

/-- A slash at the start of a line is a token that starts a command. -/
theorem scanFrom_slash_line {a : List Char} (ha : a = [] ∨ EndsIn isBreak a) (b : List Char) :
    scanFrom 0 true (a ++ '/' :: b) = scanFrom 0 true a
      ++ ⟨.commandStart, ['/'], Text.byteLength a⟩ :: scanFrom (Text.byteLength a + 1) false b := by
  rcases ha with rfl | ha
  · rw [List.nil_append, scanFrom_slash, Token.scanFrom_nil]
    rfl
  · rw [Token.scanFrom_append ha (by simp [isBreak]), scanFrom_slash, Nat.zero_add]
    rfl

theorem slash_of_lexeme {lineStart : Bool} {kind : Token.Kind} {text rest : List Char}
    (h : Lexeme lineStart kind text rest) (hk : kind = .commandStart ∨ kind = .slash) :
    text = ['/'] ∧ kind ≠ .lineBreak ∧ (kind = .commandStart → lineStart = true) := by
  cases h with
  | commandStart h => exact ⟨rfl, by simp, fun _ => h⟩
  | slash _ => exact ⟨rfl, by simp, by simp⟩
  | _ => simp at hk

end Briefing.Task
