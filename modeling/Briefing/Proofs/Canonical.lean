import Briefing.Proofs.Escapes
import Briefing.Proofs.Spans

/-!
# Canonical texts read back

What escaping adds to a value, decoding takes away (`decodeEscapes_escape`), and an escaped value
can stand between double quotes. So the canonical text of a value is a text for that value
(`renderValue_text`), and that of a command is a command line with its name and its arguments
(`IsWritable.commandText`). The text that a command binds to all its arguments reads as those
arguments behind any name (`parse_render_command`).
-/

namespace Briefing

namespace Task

open Token (Enclosed)

/-- A command that can be written as it is: its name and its keys need no quotes. -/
structure Command.IsWritable (c : Command) : Prop where
  name : IsTerm c.name.toList
  keys : ∀ a ∈ c.arguments, ∀ key ∈ a.key, IsTerm key.toList

/-- The canonical texts of arguments, each behind a gap. -/
def argumentsText (args : List Argument) : List Char := args.flatMap fun a => ' ' :: a.render.toList

@[simp] theorem argumentsText_nil : argumentsText [] = [] := rfl

@[simp] theorem argumentsText_cons (a : Argument) (args : List Argument) :
    argumentsText (a :: args) = ' ' :: (a.render.toList ++ argumentsText args) := by
  simp [argumentsText]

/-! ## Values -/

/-- How a character of a value is written: by an escape, or as it is. -/
theorem escapeChar_cases (c : Char) :
    (∃ e, escapeChar c = ['\\', e] ∧ Piece.letter? e = some c
        ∧ (e = '"' ∨ isTermChar e = true))
      ∨ escapeChar c = [c] ∧ c ≠ '\\' ∧ c ≠ '"' ∧ isBreak c = false := by
  unfold escapeChar
  simp only [Bool.or_eq_true, decide_eq_true_eq]
  split_ifs with h₁ h₂ h₃ h₄
  · rcases h₁ with rfl | rfl
    · exact .inl ⟨_, rfl, rfl, .inl rfl⟩
    · exact .inl ⟨_, rfl, rfl, .inr rfl⟩
  · exact .inl ⟨_, rfl, h₂ ▸ rfl, .inr rfl⟩
  · exact .inl ⟨_, rfl, h₃ ▸ rfl, .inr rfl⟩
  · exact .inl ⟨_, rfl, h₄ ▸ rfl, .inr rfl⟩
  · refine .inr ⟨rfl, ?_, ?_, ?_⟩
    · exact fun h => h₁ (.inr h)
    · exact fun h => h₁ (.inl h)
    · simp [isBreak, h₂, h₄]

theorem isBreak_of_escape {e : Char} (h : e = '"' ∨ isTermChar e = true) : isBreak e = false := by
  rcases h with rfl | h
  · rfl
  · exact (isTermChar_iff.mp h).2.1

/-- What is escaped decodes to itself. -/
theorem decodeEscapes_escape (s : List Char) : decodeEscapes (s.flatMap escapeChar) = s := by
  have hpieces : Piece.ofEscaped (s.flatMap escapeChar) = s.map Piece.char := by
    induction s with
    | nil => rw [List.flatMap_nil, Piece.ofEscaped]; rfl
    | cons c s ih =>
      rw [List.flatMap_cons, List.map_cons, ← ih]
      rcases escapeChar_cases c with ⟨e, he, hl, -⟩ | ⟨he, hc, -⟩
      · rw [he]
        exact Piece.ofEscaped_letter hl _
      · rw [he]
        exact Piece.ofEscaped_cons hc _
  rw [decodeEscapes, hpieces, decode_chars]

/-- An escaped text can stand between double quotes. -/
theorem enclosed_escape (s : List Char) : Enclosed '"' (s.flatMap escapeChar) := by
  induction s with
  | nil => exact .nil
  | cons c s ih =>
    rw [List.flatMap_cons]
    rcases escapeChar_cases c with ⟨e, he, -, hterm⟩ | ⟨he, hc, hq, hb⟩
    · rw [he]
      exact .escaped (isBreak_of_escape hterm) ih
    · rw [he]
      exact .plain hq hc hb ih

theorem isTermChar_of_plain {c : Char} (hw : Text.isWhite c = false)
    (hctl : Text.isControl c = false) (hq : isQuote c = false) (ha : c ≠ '=') (hs : c ≠ '/') :
    isTermChar c = true := by
  refine isTermChar_iff.mpr ⟨?_, ?_, hq, hs, ha⟩
  · by_contra hg
    simp only [isGap, Bool.or_eq_true, decide_eq_true_eq, Bool.not_eq_false] at hg
    rcases hg with rfl | rfl
    · exact absurd hw (by decide)
    · exact absurd hctl (by decide)
  · by_contra hb
    simp only [isBreak, Bool.or_eq_true, decide_eq_true_eq, Bool.not_eq_false] at hb
    rcases hb with rfl | rfl
    · exact absurd hctl (by decide)
    · exact absurd hctl (by decide)

theorem isTerm_of_isPlain {s : List Char} (h : isPlain s = true) : IsTerm s := by
  simp only [isPlain, Bool.and_eq_true, Bool.not_eq_true', List.any_eq_false, Bool.or_eq_true,
    decide_eq_true_eq, not_or, Bool.not_eq_true] at h
  refine ⟨by simpa using h.1, fun c hc => ?_⟩
  obtain ⟨⟨⟨⟨⟨hw, hctl⟩, hq⟩, ha⟩, hs⟩, -⟩ := h.2 c hc
  exact isTermChar_of_plain hw hctl hq ha hs

/-- The canonical text of a value is a text for it. -/
theorem renderValue_text (value : List Char) : ValueText (renderValue value) value := by
  unfold renderValue
  split_ifs with h
  · exact .term (isTerm_of_isPlain h)
  · have ht : ValueText ('"' :: (value.flatMap escapeChar ++ ['"']))
        (decodeEscapes (value.flatMap escapeChar)) := .quoted rfl (enclosed_escape value)
    rwa [decodeEscapes_escape] at ht

/-! ## Arguments and commands -/

theorem Argument.toList_render (a : Argument) : a.render.toList = match a.key with
    | some key => key.toList ++ '=' :: renderValue a.value.toList
    | none => renderValue a.value.toList := by
  rw [Argument.render]
  cases a.key <;> simp

/-- The canonical text of an argument is a text for it. -/
theorem Argument.render_text {a : Argument} (h : ∀ key ∈ a.key, IsTerm key.toList) :
    ArgumentText a.render.toList a := by
  have hv := renderValue_text a.value.toList
  obtain ⟨key, value⟩ := a
  rw [Argument.toList_render]
  cases key with
  | none =>
    have ht := ArgumentText.positional hv
    rwa [String.ofList_toList] at ht
  | some key =>
    have ht := ArgumentText.named (h key rfl) hv
    rwa [String.ofList_toList, String.ofList_toList] at ht

theorem argumentsText_text {args : List Argument}
    (h : ∀ a ∈ args, ∀ key ∈ a.key, IsTerm key.toList) :
    ArgumentsText (argumentsText args) args := by
  induction args with
  | nil => exact .nil (by simp)
  | cons a args ih =>
    rw [argumentsText_cons, ← List.singleton_append]
    exact .cons (List.cons_ne_nil _ _) (by simp [isGap])
      (Argument.render_text (h a List.mem_cons_self))
      (ih fun b hb => h b (List.mem_cons_of_mem _ hb))

theorem Command.toList_render (c : Command) :
    c.render.toList = '/' :: (c.name.toList ++ argumentsText c.arguments) := by
  have hjoin : ∀ args : List Argument,
      (String.join (args.map fun a => " " ++ a.render)).toList = argumentsText args := by
    intro args
    induction args with
    | nil => rfl
    | cons a args ih => simp [String.join_cons, ih]
  rw [Command.render, String.toList_append, String.toList_append, hjoin]
  rfl

/-- The canonical text of a command is a command line. -/
theorem Command.IsWritable.commandText {c : Command} (h : c.IsWritable) {ending : List Char}
    (hend : ending = [] ∨ IsLineBreak ending) :
    IsCommandText (c.render.toList ++ ending) c.name c.arguments := by
  have ht := IsCommandText.intro h.name (argumentsText_text h.keys) hend
  rw [String.ofList_toList] at ht
  simpa [Command.toList_render] using ht

theorem intercalate_render (a : Argument) (args : List Argument) :
    ' ' :: (" ".intercalate ((a :: args).map Argument.render)).toList
      = argumentsText (a :: args) := by
  induction args generalizing a with
  | nil => simp
  | cons b args ih =>
    rw [argumentsText_cons, ← ih b, List.map_cons, List.map_cons, String.intercalate_cons_cons]
    simp

/-- The text of all arguments of a command, behind a gap, is a text for them. -/
theorem Command.IsWritable.renderArguments {c : Command} (h : c.IsWritable) :
    ArgumentsText (' ' :: c.renderArguments.toList) c.arguments := by
  have hargs := argumentsText_text h.keys
  rw [Command.renderArguments]
  cases hc : c.arguments with
  | nil => exact .nil (by simp [isGap])
  | cons a args =>
    rw [intercalate_render, ← hc]
    exact hargs

theorem Command.IsWritable.parse_alone {c : Command} (h : c.IsWritable) :
    parse c.render = .ok ⟨[.command { c with source := none }]⟩ := by
  have hread := (h.commandText (.inl rfl)).parse
  rwa [List.append_nil, String.ofList_toList] at hread

/-- A command that can be written is read back from its canonical text, alone and as a command that
opens its line. The parameter that holds all its arguments reads as these arguments behind any
name. -/
theorem parse_render_command {c : Command} (h : c.IsWritable) :
    parse c.render = .ok ⟨[.command { c with source := none }]⟩
      ∧ ∃ text, c.params.get? Command.argumentsKey = some text
        ∧ ∀ name : String, IsTerm name.toList →
          parse ("/" ++ name ++ " " ++ text) = .ok ⟨[.command ⟨name, c.arguments, none⟩]⟩ := by
  refine ⟨h.parse_alone, c.renderArguments, ?_, fun name hname => ?_⟩
  · rw [Command.params, Table.get?_ofList_concat, if_pos rfl]
  · have ht := IsCommandText.intro hname h.renderArguments (.inl rfl)
    have hread := ht.parse
    rw [String.ofList_toList] at hread
    have htext : String.ofList ('/' :: (name.toList ++ (' ' :: c.renderArguments.toList ++ [])))
        = "/" ++ name ++ " " ++ c.renderArguments := by
      rw [← String.toList_inj]
      simp
    rwa [htext] at hread

theorem parse_render_command_quoted :
    Command.IsWritable ⟨"go", [⟨none, "x y"⟩, ⟨some "k", ""⟩, ⟨none, "\"\\\n'é"⟩], some "old"⟩
      ∧ IsTerm "run".toList
      ∧ parse (Command.render
          ⟨"go", [⟨none, "x y"⟩, ⟨some "k", ""⟩, ⟨none, "\"\\\n'é"⟩], some "old"⟩)
        = .ok ⟨[.command
          ⟨"go", [⟨none, "x y"⟩, ⟨some "k", ""⟩, ⟨none, "\"\\\n'é"⟩], none⟩]⟩
      ∧ ∃ text, (Command.params
          ⟨"go", [⟨none, "x y"⟩, ⟨some "k", ""⟩, ⟨none, "\"\\\n'é"⟩], some "old"⟩).get?
            Command.argumentsKey = some text
        ∧ parse ("/" ++ "run" ++ " " ++ text) = .ok ⟨[.command
          ⟨"run", [⟨none, "x y"⟩, ⟨some "k", ""⟩, ⟨none, "\"\\\n'é"⟩], none⟩]⟩ := by
  have h : Command.IsWritable
      ⟨"go", [⟨none, "x y"⟩, ⟨some "k", ""⟩, ⟨none, "\"\\\n'é"⟩], some "old"⟩ :=
    ⟨⟨by decide, List.all_eq_true.mp (by decide)⟩, by
      intro a ha key hkey
      simp only [List.mem_cons, List.not_mem_nil, or_false] at ha
      rcases ha with rfl | rfl | rfl
      · simp at hkey
      · obtain rfl : "k" = key := by simpa using hkey
        exact ⟨by decide, List.all_eq_true.mp (by decide)⟩
      · simp at hkey⟩
  have hrun : IsTerm "run".toList := ⟨by decide, List.all_eq_true.mp (by decide)⟩
  obtain ⟨hread, text, htext, hparams⟩ := parse_render_command h
  exact ⟨h, hrun, hread, text, htext, hparams "run" hrun⟩

end Task

end Briefing
