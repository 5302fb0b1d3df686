import Briefing.Proofs.LineGrammar

/-!
# The tokens of a text are its only tokenization

What a token sequence must be to be the tokens of a text is said here without the scanner
(`IsTokenization`): the tokens are the text and none is empty, a run is not cut in two, a quote
stays open only if nothing matches it, and a slash starts a command exactly where a line starts. The
scanner finds such tokens (`isTokenization_scan`). They are the only ones
(`IsTokenization.eq_scanFrom`): its conditions make each token a lexeme of what is left of the text
(`IsTokenization.lexeme`).
-/

namespace Briefing.Task

open Token (Enclosed IsRun Kind Lexeme closeQuote? scanFrom source)

namespace Token

/-- What a token of a class is made of. -/
inductive Shape : Kind → List Char → Prop
  | commandStart : Shape .commandStart ['/']
  | slash : Shape .slash ['/']
  | assign : Shape .assign ['=']
  | quoted {q : Char} {inner : List Char} (hq : isQuote q = true) (h : Enclosed q inner) :
      Shape .quoted (q :: (inner ++ [q]))
  | openQuote {q : Char} (hq : isQuote q = true) : Shape .openQuote [q]
  | term {run : List Char} (h : ∀ c ∈ run, isTermChar c = true) : Shape .term run
  | blank {run : List Char} (h : ∀ c ∈ run, isGap c = true) : Shape .blank run
  | lineBreak {run : List Char} (h : ∀ c ∈ run, isBreak c = true) : Shape .lineBreak run

/-- The classes whose tokens are runs of characters. -/
def Kind.isRun : Kind → Bool
  | .term | .blank | .lineBreak => true
  | _ => false

end Token

/-- The conditions on the tokens of a text. -/
structure IsTokenization (text : List Char) (tokens : List Token) : Prop where
  source_eq : source tokens = text
  ne_nil : ∀ t ∈ tokens, t.text ≠ []
  shape : ∀ t ∈ tokens, Token.Shape t.kind t.text
  offset : ∀ before t after, tokens = before ++ t :: after →
    t.offset = Text.byteLength (source before)
  runs : tokens.IsChain fun t u => ¬(t.kind = u.kind ∧ t.kind.isRun = true)
  /-- Nothing behind an open quote matches it on its line. -/
  openQuote : ∀ before t after, tokens = before ++ t :: after → t.kind = .openQuote →
    ∀ q inner rest, t.text = [q] → Enclosed q inner → source after ≠ inner ++ q :: rest
  /-- A slash starts a command exactly if it is the first character or stands behind a break. -/
  commandStart : ∀ a b, text = a ++ '/' :: b →
    ((∃ before t after, tokens = before ++ t :: after ∧ source before = a
        ∧ t.kind = .commandStart) ↔ a = [] ∨ EndsIn isBreak a)

namespace Token

/-! ## The scanner's tokens -/

theorem Lexeme.shape {lineStart : Bool} {kind : Kind} {text rest : List Char}
    (h : Lexeme lineStart kind text rest) : Shape kind text := by
  cases h with
  | commandStart _ => exact .commandStart
  | slash _ => exact .slash
  | assign => exact .assign
  | quoted hq h => exact .quoted hq h
  | openQuote hq _ => exact .openQuote hq
  | term h => exact .term h.all
  | blank h => exact .blank h.all
  | lineBreak h => exact .lineBreak h.all

/-- A run is followed by no token of its class. -/
theorem Lexeme.isRun_ne {lineStart lineStart' : Bool} {kind kind' : Kind}
    {text text' rest : List Char} (h : Lexeme lineStart kind text (text' ++ rest))
    (h' : Lexeme lineStart' kind' text' rest) : ¬(kind = kind' ∧ kind.isRun = true) := by
  rintro ⟨rfl, hrun⟩
  have hclass : ∀ {p : Char → Bool}, IsRun p text (text' ++ rest) → IsRun p text' rest →
      False := by
    intro p h h'
    obtain ⟨c, s, rfl, hc, -, -⟩ := h'.exists_cons
    have := h.stops c rfl
    simp [hc] at this
  cases h with
  | term h => cases h' with | term h' => exact hclass h h'
  | blank h => cases h' with | blank h' => exact hclass h h'
  | lineBreak h => cases h' with | lineBreak h' => exact hclass h h'
  | _ => simp [Kind.isRun] at hrun

theorem isChain_scanFrom (offset : Nat) (lineStart : Bool) (text : List Char) :
    (scanFrom offset lineStart text).IsChain
      fun t u => ¬(t.kind = u.kind ∧ t.kind.isRun = true) := by
  induction h : scanFrom offset lineStart text generalizing offset lineStart text with
  | nil => exact .nil
  | cons t tokens ih =>
    obtain ⟨rest, rfl, -, hl, htokens⟩ := lexeme_of_scanFrom h
    refine List.isChain_cons.mpr ⟨fun u hu => ?_, ih _ _ _ htokens.symm⟩
    obtain ⟨tokens', rfl⟩ := List.head?_eq_some_iff.mp hu
    obtain ⟨rest', rfl, -, hl', -⟩ := lexeme_of_scanFrom htokens.symm
    exact hl.isRun_ne hl'

theorem closeQuote?_eq_none_iff {q : Char} (hq : isQuote q = true) {s : List Char} :
    closeQuote? q s = none ↔ ∀ inner rest, Enclosed q inner → s ≠ inner ++ q :: rest := by
  constructor
  · rintro h inner rest hi rfl
    rw [closeQuote?_of_enclosed hq hi rest] at h
    simp at h
  · intro h
    by_contra hne
    obtain ⟨⟨body, rest⟩, hs⟩ := Option.ne_none_iff_exists'.mp hne
    obtain ⟨inner, hi, -, rfl⟩ := enclosed_of_closeQuote? hs
    exact h inner rest hi rfl

/-- A slash starts a command exactly where a line starts. -/
theorem commandStart_iff {text a b : List Char} (h : text = a ++ '/' :: b) :
    (∃ before t after, scanFrom 0 true text = before ++ t :: after ∧ source before = a
        ∧ t.kind = .commandStart) ↔ a = [] ∨ EndsIn isBreak a := by
  subst h
  constructor
  · rintro ⟨before, ⟨kind, t, offset⟩, after, htokens, rfl, rfl⟩
    obtain ⟨lineStart, hafter, hstart⟩ := scanFrom_split htokens
    obtain ⟨rest, -, -, hl, -⟩ := lexeme_of_scanFrom hafter.symm
    cases hl with
    | commandStart hline =>
      rcases hstart.mp hline with ⟨rfl, -⟩ | hend
      · exact .inl rfl
      · exact .inr hend
  · intro ha
    exact ⟨scanFrom 0 true a, _, _, scanFrom_slash_line ha b, source_scanFrom 0 true a, rfl⟩

theorem isTokenization_scan (text : List Char) : IsTokenization text (scanFrom 0 true text) where
  source_eq := source_scanFrom 0 true text
  ne_nil := text_ne_nil
  shape t ht := by
    obtain ⟨_, _, hl⟩ := lexeme_of_mem t ht
    exact hl.shape
  offset before t after h := by
    obtain ⟨_, hafter, -⟩ := scanFrom_split h
    obtain ⟨_, -, hoffset, -, -⟩ := lexeme_of_scanFrom hafter.symm
    rw [hoffset, Nat.zero_add]
  runs := isChain_scanFrom 0 true text
  openQuote before t after h hk q inner rest ht hi hs := by
    obtain ⟨_, hafter, -⟩ := scanFrom_split h
    obtain ⟨more, hsource, -, hl, -⟩ := lexeme_of_scanFrom hafter.symm
    obtain rfl : source after = more := List.append_cancel_left hsource
    obtain ⟨kind, _, _⟩ := t
    obtain rfl : kind = .openQuote := hk
    obtain rfl : _ = [q] := ht
    cases hl with
    | openQuote hq hnone => exact (closeQuote?_eq_none_iff hq).mp hnone inner rest hi hs
  commandStart _ _ := commandStart_iff

/-! ## No other tokens -/

/-- The character that a run starts with fixes its class. -/
theorem Shape.kind_of_head {kind : Kind} {c : Char} {s : List Char} (h : Shape kind (c :: s)) :
    (isTermChar c = true → kind = .term) ∧ (isGap c = true → kind = .blank)
      ∧ (isBreak c = true → kind = .lineBreak) := by
  generalize ht : c :: s = text at h
  cases h with
  | commandStart | slash | assign =>
    obtain ⟨rfl, -⟩ := List.cons.inj ht
    simp [isTermChar, isGap, isBreak]
  | quoted hq _ | openQuote hq =>
    obtain ⟨rfl, -⟩ := List.cons.inj ht
    simp [isTermChar, isGap_of_isQuote hq, isBreak_of_isQuote hq, hq]
  | term h =>
    have hc := isTermChar_iff.mp (h c (ht ▸ List.mem_cons_self))
    simp [hc.1, hc.2.1]
  | blank h =>
    have hc := h c (ht ▸ List.mem_cons_self)
    simp [hc, isBreak_of_isGap hc, isTermChar_of_gap_or_break (.inl hc)]
  | lineBreak h =>
    have hc := h c (ht ▸ List.mem_cons_self)
    simp [hc, isGap_of_isBreak hc, isTermChar_of_gap_or_break (.inr hc)]

end Token

namespace IsTokenization

variable {text : List Char} {tokens before after : List Token} {t : Token}

theorem mem (h : tokens = before ++ t :: after) : t ∈ tokens := by
  rw [h]
  exact List.mem_append_right _ List.mem_cons_self

/-- What stands behind a run does not continue it. -/
theorem isRun (h : IsTokenization text tokens) (ht : tokens = before ++ t :: after)
    (hrun : t.kind.isRun = true) (p : Char → Bool) (hp : ∀ c ∈ t.text, p c = true)
    (hclass : ∀ {kind c s}, Token.Shape kind (c :: s) → p c = true → kind = t.kind) :
    IsRun p t.text (source after) where
  ne_nil := h.ne_nil t (mem ht)
  all := hp
  stops := by
    rcases after with _ | ⟨u, after⟩
    · simp [source]
    · have hu : tokens = (before ++ [t]) ++ u :: after := by simp [ht]
      obtain ⟨c, s, hc⟩ := List.exists_cons_of_ne_nil (h.ne_nil u (mem hu))
      have hshape := h.shape u (mem hu)
      rw [hc] at hshape
      have hchain := h.runs
      rw [ht] at hchain
      have htu := (List.isChain_cons_cons.mp (List.isChain_append.mp hchain).2.1).1
      intro x hx
      obtain rfl : c = x := by simpa [source, hc] using hx
      by_contra hpc
      exact htu ⟨(hclass hshape (by simpa using hpc)).symm, hrun⟩

/-- The split of the tokens is fixed by the text before it. -/
theorem split_unique (h : IsTokenization text tokens) (ht : tokens = before ++ t :: after)
    {before' after' : List Token} {t' : Token} (ht' : tokens = before' ++ t' :: after')
    (hsource : source before' = source before) : t' = t := by
  have hne : ∀ u ∈ before' ++ t' :: after', u.text ≠ [] := ht' ▸ h.ne_nil
  have hsame := (eq_of_flatMap_eq (ht'.symm.trans ht) hne hsource).2
  exact (List.cons.inj hsame).1

/-- Each token is a lexeme of what is left of the text. -/
theorem lexeme (h : IsTokenization text tokens) (ht : tokens = before ++ t :: after)
    {lineStart : Bool}
    (hstart : lineStart = true ↔ source before = [] ∨ EndsIn isBreak (source before)) :
    Lexeme lineStart t.kind t.text (source after) := by
  have hshape := h.shape t (mem ht)
  have htext : text = source before ++ (t.text ++ source after) := by
    rw [← h.source_eq, ht, source_append]
    rfl
  have hslash : t.text = ['/'] → (lineStart = true ↔ t.kind = .commandStart) := by
    intro hmark
    rw [hstart, ← h.commandStart (source before) (source after) (by simpa [hmark] using htext)]
    constructor
    · rintro ⟨before', t', after', ht', hsource, hk⟩
      rwa [h.split_unique ht ht' hsource] at hk
    · exact fun hk => ⟨before, t, after, ht, rfl, hk⟩
  have hquote := h.openQuote before t after ht
  have hrun := h.isRun ht
  obtain ⟨kind, t, offset⟩ := t
  dsimp only at hshape hslash hquote hrun ⊢
  cases hshape with
  | commandStart => exact .commandStart ((hslash rfl).mpr rfl)
  | slash => exact .slash (by simpa using hslash rfl)
  | assign => exact .assign
  | quoted hq hi => exact .quoted hq hi
  | openQuote hq =>
    refine .openQuote hq ((Token.closeQuote?_eq_none_iff hq).mpr fun inner rest hi => ?_)
    exact hquote rfl _ inner rest rfl hi
  | term hall => exact .term (hrun rfl _ hall fun hs hc => hs.kind_of_head.1 hc)
  | blank hall => exact .blank (hrun rfl _ hall fun hs hc => hs.kind_of_head.2.1 hc)
  | lineBreak hall => exact .lineBreak (hrun rfl _ hall fun hs hc => hs.kind_of_head.2.2 hc)

/-- The last tokens of a tokenization are those of the text that they make up. -/
theorem eq_scanFrom (h : IsTokenization text tokens) (ht : tokens = before ++ after)
    {lineStart : Bool}
    (hstart : lineStart = true ↔ source before = [] ∨ EndsIn isBreak (source before)) :
    after = scanFrom (Text.byteLength (source before)) lineStart (source after) := by
  induction after generalizing before lineStart with
  | nil => simp [source]
  | cons t after ih =>
    have hl := h.lexeme ht hstart
    have hbefore : source (before ++ [t]) = source before ++ t.text := by simp [source]
    have hafter : source (t :: after) = t.text ++ source after := List.flatMap_cons
    have hne : t.text ≠ [] := h.ne_nil t (mem ht)
    have hnext : decide (t.kind = .lineBreak) = true
        ↔ source (before ++ [t]) = [] ∨ EndsIn isBreak (source (before ++ [t])) := by
      rw [decide_eq_true_iff, ← endsIn_isBreak_iff hl, hbefore]
      constructor
      · exact fun hend => .inr (hend.append _)
      · rintro (hnil | hend)
        · exact absurd (List.append_eq_nil_iff.mp hnil).2 hne
        · exact hend.of_append hne
    have hrest : after = scanFrom (Text.byteLength (source (before ++ [t])))
        (t.kind = .lineBreak) (source after) := ih (by simp [ht]) hnext
    rw [hbefore, byteLength_append] at hrest
    rw [hafter, Token.scanFrom_lexeme _ hl, ← hrest, ← h.offset before t after ht]

end IsTokenization

/-- The tokens of a text are its only tokenization. -/
theorem scan_eq_iff_isTokenization {text : String} {tokens : List Token} :
    Token.scan text = tokens ↔ IsTokenization text.toList tokens := by
  constructor
  · rintro rfl
    exact Token.isTokenization_scan text.toList
  · intro h
    have hscan : tokens = scanFrom 0 true (source tokens) :=
      h.eq_scanFrom (List.nil_append tokens).symm (by simp [source])
    rw [h.source_eq] at hscan
    exact hscan.symm

end Briefing.Task
