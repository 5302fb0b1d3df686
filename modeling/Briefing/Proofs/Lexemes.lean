import Briefing.Task.Parse
import Mathlib.Tactic.Common

/-!
# The tokens of a text are its lexemes

Which text a token has is said here without the scanner: a run of one character class that the
next character does not continue, a quoted text that ends on its line, or a single mark
(`Lexeme`). A text is cut at the lexeme it starts with (`cut_of_lexeme`), and every cut is one
(`lexeme_cut`), so a token sequence can be read off its text (`scanFrom_lexeme`) and the text off
it (`lexeme_of_scanFrom`).
-/

namespace Briefing.Task

namespace Token

/-- A run of characters that pass `p`, before a text that does not go on with one. -/
structure IsRun (p : Char → Bool) (run rest : List Char) : Prop where
  ne_nil : run ≠ []
  all : ∀ c ∈ run, p c = true
  stops : ∀ c ∈ rest.head?, p c = false

/-- A text that can stand between two quotes `q`: a backslash takes the next character along. -/
inductive Enclosed (q : Char) : List Char → Prop
  | nil : Enclosed q []
  | escaped {c : Char} {s : List Char} (hc : isBreak c = false) (h : Enclosed q s) :
      Enclosed q ('\\' :: c :: s)
  | plain {c : Char} {s : List Char} (hq : c ≠ q) (he : c ≠ '\\') (hc : isBreak c = false)
      (h : Enclosed q s) : Enclosed q (c :: s)

/-- What a token of a class can be before a text; `lineStart` tells whether a line starts with
it. -/
inductive Lexeme (lineStart : Bool) : Kind → List Char → List Char → Prop
  | commandStart {rest : List Char} (h : lineStart = true) :
      Lexeme lineStart .commandStart ['/'] rest
  | slash {rest : List Char} (h : lineStart = false) : Lexeme lineStart .slash ['/'] rest
  | assign {rest : List Char} : Lexeme lineStart .assign ['='] rest
  | quoted {q : Char} {inner rest : List Char} (hq : isQuote q = true) (h : Enclosed q inner) :
      Lexeme lineStart .quoted (q :: (inner ++ [q])) rest
  | openQuote {q : Char} {rest : List Char} (hq : isQuote q = true)
      (h : closeQuote? q rest = none) : Lexeme lineStart .openQuote [q] rest
  | term {run rest : List Char} (h : IsRun isTermChar run rest) : Lexeme lineStart .term run rest
  | blank {run rest : List Char} (h : IsRun isGap run rest) : Lexeme lineStart .blank run rest
  | lineBreak {run rest : List Char} (h : IsRun isBreak run rest) :
      Lexeme lineStart .lineBreak run rest

/-! ## Runs and quoted texts -/

theorem isRun_takeWhile {p : Char → Bool} {c : Char} (hc : p c = true) (s : List Char) :
    IsRun p (c :: s.takeWhile p) (s.dropWhile p) where
  ne_nil := List.cons_ne_nil _ _
  all := by
    intro x hx
    rcases List.mem_cons.mp hx with rfl | hx
    · exact hc
    · exact List.all_eq_true.mp List.all_takeWhile x hx
  stops := by
    intro x hx
    have h := List.head?_dropWhile_not p s
    rw [Option.mem_def.mp hx] at h
    simpa using h

theorem IsRun.exists_cons {p : Char → Bool} {run rest : List Char} (h : IsRun p run rest) :
    ∃ c s, run = c :: s ∧ p c = true ∧ s = (s ++ rest).takeWhile p
      ∧ rest = (s ++ rest).dropWhile p := by
  obtain ⟨c, s, rfl⟩ := List.exists_cons_of_ne_nil h.ne_nil
  have hs : ∀ x ∈ s, p x = true := fun x hx => h.all x (List.mem_cons_of_mem _ hx)
  refine ⟨c, s, rfl, h.all c List.mem_cons_self, ?_, ?_⟩
  · rw [List.takeWhile_append_of_pos hs]
    rcases rest with _ | ⟨x, rest⟩
    · simp
    · simp [h.stops x rfl]
  · rw [List.dropWhile_append_of_pos hs]
    rcases rest with _ | ⟨x, rest⟩
    · simp
    · simp [h.stops x rfl]

theorem ne_backslash_of_isQuote {q : Char} (h : isQuote q = true) : q ≠ '\\' := by
  rintro rfl
  simp [isQuote] at h

theorem isBreak_of_isQuote {q : Char} (h : isQuote q = true) : isBreak q = false := by
  simp only [isQuote, Bool.or_eq_true, decide_eq_true_eq] at h
  rcases h with rfl | rfl <;> rfl

/-- A quoted text ends at the first quote that no backslash takes along. -/
theorem closeQuote?_of_enclosed {q : Char} (hq : isQuote q = true) {inner : List Char}
    (h : Enclosed q inner) (rest : List Char) :
    closeQuote? q (inner ++ q :: rest) = some (inner ++ [q], rest) := by
  induction h with
  | nil =>
    have := ne_backslash_of_isQuote hq
    rw [List.nil_append, closeQuote?]
    · simp [isBreak_of_isQuote hq]
    · rintro rfl
      contradiction
    · rintro c s rfl
      contradiction
  | escaped hc _ ih => simp [closeQuote?, hc, ih]
  | plain hne he hc _ ih =>
    rw [List.cons_append, closeQuote?]
    · simp [hc, hne, ih]
    · rintro rfl
      contradiction
    · rintro c s rfl
      contradiction

theorem enclosed_of_closeQuote? {q : Char} {s body rest : List Char}
    (h : closeQuote? q s = some (body, rest)) :
    ∃ inner, Enclosed q inner ∧ body = inner ++ [q] ∧ s = inner ++ q :: rest := by
  fun_induction closeQuote? q s generalizing body rest with
  | case1 => simp at h
  | case2 => simp at h
  | case3 => simp at h
  | case4 c s hc ih =>
    obtain ⟨⟨b, r⟩, hb, he⟩ := Option.map_eq_some_iff.mp h
    obtain ⟨rfl, rfl⟩ : '\\' :: c :: b = body ∧ r = rest := by simpa using he
    obtain ⟨inner, hi, rfl, rfl⟩ := ih hb
    exact ⟨'\\' :: c :: inner, .escaped (by simpa using hc) hi, rfl, rfl⟩
  | case5 => simp at h
  | case6 s _ =>
    obtain ⟨rfl, rfl⟩ : [q] = body ∧ s = rest := by simpa using h
    exact ⟨[], .nil, rfl, rfl⟩
  | case7 c s he he' hc hne ih =>
    obtain ⟨⟨b, r⟩, hb, hbr⟩ := Option.map_eq_some_iff.mp h
    obtain ⟨rfl, rfl⟩ : c :: b = body ∧ r = rest := by simpa using hbr
    obtain ⟨inner, hi, rfl, rfl⟩ := ih hb
    refine ⟨c :: inner, .plain hne ?_ (by simpa using hc) hi, rfl, rfl⟩
    rintro rfl
    rcases hs : inner ++ q :: r with _ | ⟨x, t⟩
    · simp at hs
    · exact he' x t rfl hs

/-! ## Cutting -/

theorem lexeme_cut (lineStart : Bool) (c : Char) (s : List Char) :
    Lexeme lineStart (cut lineStart c s).1 (c :: (cut lineStart c s).2.1)
      (cut lineStart c s).2.2 := by
  unfold cut
  split_ifs with h₁ h₂ h₃ h₄ h₅ h₆
  · exact h₁ ▸ .commandStart h₂
  · exact h₁ ▸ .slash (by simpa using h₂)
  · exact h₃ ▸ .assign
  · split
    · rename_i body rest hq
      obtain ⟨inner, hi, rfl, rfl⟩ := enclosed_of_closeQuote? hq
      exact .quoted h₄ hi
    · rename_i hq
      exact .openQuote h₄ hq
  · exact .lineBreak (isRun_takeWhile h₅ s)
  · exact .blank (isRun_takeWhile h₆ s)
  · exact .term (isRun_takeWhile (by simp [isTermChar, *]) s)

theorem cut_of_lexeme {lineStart : Bool} {kind : Kind} {text rest : List Char}
    (h : Lexeme lineStart kind text rest) :
    ∃ c s, text = c :: s ∧ cut lineStart c (s ++ rest) = (kind, s, rest) := by
  cases h with
  | commandStart h => exact ⟨'/', [], rfl, by simp [cut, h]⟩
  | slash h => exact ⟨'/', [], rfl, by simp [cut, h]⟩
  | assign => exact ⟨'=', [], rfl, by simp [cut]⟩
  | @quoted q inner _ hq h =>
    refine ⟨q, inner ++ [q], rfl, ?_⟩
    rw [List.append_assoc, List.singleton_append]
    have hq' := hq
    simp only [isQuote, Bool.or_eq_true, decide_eq_true_eq] at hq'
    rcases hq' with rfl | rfl <;> simp [cut, hq, closeQuote?_of_enclosed hq h]
  | @openQuote q _ hq h =>
    refine ⟨q, [], rfl, ?_⟩
    have hq' := hq
    simp only [isQuote, Bool.or_eq_true, decide_eq_true_eq] at hq'
    rcases hq' with rfl | rfl <;> simp [cut, hq, h]
  | term h =>
    obtain ⟨c, s, rfl, hc, hs, hr⟩ := h.exists_cons
    refine ⟨c, s, rfl, ?_⟩
    simp only [isTermChar, Bool.not_eq_true', Bool.or_eq_false_iff, decide_eq_false_iff_not] at hc
    obtain ⟨⟨⟨⟨hg, hb⟩, hq⟩, hsl⟩, ha⟩ := hc
    simp [cut, hg, hb, hq, hsl, ha, ← hs, ← hr]
  | blank h =>
    obtain ⟨c, s, rfl, hc, hs, hr⟩ := h.exists_cons
    refine ⟨c, s, rfl, ?_⟩
    have hc' := hc
    simp only [isGap, Bool.or_eq_true, decide_eq_true_eq] at hc'
    rcases hc' with rfl | rfl <;> simp [cut, isQuote, isBreak, hc, ← hs, ← hr]
  | lineBreak h =>
    obtain ⟨c, s, rfl, hc, hs, hr⟩ := h.exists_cons
    refine ⟨c, s, rfl, ?_⟩
    have hc' := hc
    simp only [isBreak, Bool.or_eq_true, decide_eq_true_eq] at hc'
    rcases hc' with rfl | rfl <;> simp [cut, isQuote, hc, ← hs, ← hr]

theorem scanFrom_cons (offset : Nat) (lineStart : Bool) (c : Char) (s : List Char) :
    scanFrom offset lineStart (c :: s)
      = ⟨(cut lineStart c s).1, c :: (cut lineStart c s).2.1, offset⟩
        :: scanFrom (offset + Text.byteLength (c :: (cut lineStart c s).2.1))
          ((cut lineStart c s).1 = .lineBreak) (cut lineStart c s).2.2 := by
  rw [scanFrom]

/-- A text that starts with a lexeme has it as its first token. -/
theorem scanFrom_lexeme {lineStart : Bool} {kind : Kind} {text rest : List Char} (offset : Nat)
    (h : Lexeme lineStart kind text rest) :
    scanFrom offset lineStart (text ++ rest) = ⟨kind, text, offset⟩
      :: scanFrom (offset + Text.byteLength text) (kind = .lineBreak) rest := by
  obtain ⟨c, s, rfl, hc⟩ := cut_of_lexeme h
  rw [List.cons_append, scanFrom_cons, hc]

@[simp] theorem scanFrom_nil (offset : Nat) (lineStart : Bool) :
    scanFrom offset lineStart [] = [] := by rw [scanFrom]

/-- The first token of a text is a lexeme that the text starts with. -/
theorem lexeme_of_scanFrom {lineStart : Bool} {offset : Nat} {text : List Char} {token : Token}
    {tokens : List Token} (h : scanFrom offset lineStart text = token :: tokens) :
    ∃ rest, text = token.text ++ rest ∧ token.offset = offset
      ∧ Lexeme lineStart token.kind token.text rest
      ∧ tokens = scanFrom (offset + Text.byteLength token.text) (token.kind = .lineBreak) rest := by
  rcases text with _ | ⟨c, s⟩
  · simp at h
  · have hs := cut_append lineStart c s
    have hl := lexeme_cut lineStart c s
    rw [scanFrom_cons] at h
    obtain ⟨rfl, rfl⟩ := List.cons.inj h
    exact ⟨(cut lineStart c s).2.2, congrArg (c :: ·) hs.symm, rfl, hl, rfl⟩

/-- The text that tokens make up. -/
def source (tokens : List Token) : List Char := tokens.flatMap Token.text

theorem source_scanFrom (offset : Nat) (lineStart : Bool) (text : List Char) :
    source (scanFrom offset lineStart text) = text := by
  fun_induction scanFrom offset lineStart text with
  | case1 => rfl
  | case2 offset lineStart c s kind body _ hcut token ih =>
    have hs := cut_append lineStart c s
    rw [source, List.flatMap_cons, ← source, ih]
    simp only [hcut] at hs ⊢
    simp [token, hs]

theorem scanFrom_ne_nil {text : List Char} (hne : text ≠ []) (offset : Nat) (lineStart : Bool) :
    scanFrom offset lineStart text ≠ [] := by
  obtain ⟨c, s, rfl⟩ := List.exists_cons_of_ne_nil hne
  rw [scanFrom_cons]
  exact List.cons_ne_nil _ _

end Token

end Briefing.Task
