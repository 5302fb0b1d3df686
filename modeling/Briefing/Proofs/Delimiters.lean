import Briefing.FrontMatter.Split
import Briefing.Text.Search
import Mathlib.Data.List.Basic

/-!
# The delimiters of a frontmatter

A text has frontmatter if its first line is a delimiter. The frontmatter is what stands between
that line and the next delimiter, which has to be there; what is behind that one is the content,
with whatever is in it. So both can be put together again from what was read (`split_delimiters`).

The proofs are by induction on the lines of a text (`line_induction`).
-/

namespace Briefing.FrontMatter

/-- A line that is a delimiter, without its LF. A CR that ends it does not count. -/
def IsMark (line : List Char) : Prop := line = ['-', '-', '-'] ∨ line = ['-', '-', '-', '\r']

/-- A delimiter with what ends it, before a text. Only at the end there may be no LF. -/
def IsDelimiterLine (line behind : List Char) : Prop :=
  ∃ mark, IsMark mark ∧ (line = mark ++ ['\n'] ∨ line = mark ∧ behind = [])

/-- Lines that an LF ends, or none. -/
def AreEnded (lines : List Char) : Prop := lines = [] ∨ lines.getLast? = some '\n'

/-- No line of the text is a delimiter. -/
def HasNoMark (text : List Char) : Prop := ∀ line ∈ text.splitOn '\n', ¬IsMark line

/-- The first line of the text is a delimiter. -/
def StartsWithMark (text : List Char) : Prop := ∃ line ∈ (text.splitOn '\n').head?, IsMark line

/-- Another line than the first one is a delimiter. -/
def HasLaterMark (text : List Char) : Prop := ∃ line ∈ (text.splitOn '\n').tail, IsMark line

/-- A text is two delimiters with the frontmatter between them, and the content behind them. -/
structure IsFrontMatter (text opening yaml closing content : List Char) : Prop where
  text_eq : text = opening ++ (yaml ++ (closing ++ content))
  opening : IsDelimiterLine opening (yaml ++ (closing ++ content))
  closing : IsDelimiterLine closing content
  areEnded : AreEnded yaml
  hasNoMark : HasNoMark yaml

/-! ## Lines -/

/-- A text is a line without an LF, or such a line with an LF behind it and another text. -/
theorem line_induction {p : List Char → Prop} (last : ∀ line, '\n' ∉ line → p line)
    (ended : ∀ line rest, '\n' ∉ line → p rest → p (line ++ '\n' :: rest)) (s : List Char) :
    p s :=
  Text.cut_induction last ended s

theorem splitOn_ended {line : List Char} (h : '\n' ∉ line) (rest : List Char) :
    (line ++ '\n' :: rest).splitOn '\n' = line :: rest.splitOn '\n' :=
  Text.splitOn_cut h rest

theorem hasNoMark_ended {line rest : List Char} (h : '\n' ∉ line) :
    HasNoMark (line ++ '\n' :: rest) ↔ ¬IsMark line ∧ HasNoMark rest := by
  rw [HasNoMark, splitOn_ended h, List.forall_mem_cons, HasNoMark]

theorem cutLine_ended {line : List Char} (h : '\n' ∉ line) (rest : List Char) :
    cutLine (line ++ '\n' :: rest) = (line ++ ['\n'], rest) := by
  induction line with
  | nil => simp [cutLine]
  | cons c line ih =>
    rw [List.mem_cons, not_or] at h
    simp [cutLine, ih h.2, Ne.symm h.1]

theorem cutLine_last {line : List Char} (h : '\n' ∉ line) : cutLine line = (line, []) := by
  induction line with
  | nil => rfl
  | cons c line ih =>
    rw [List.mem_cons, not_or] at h
    simp [cutLine, ih h.2, Ne.symm h.1]

/-! ## Delimiters -/

theorem IsMark.notMem {line : List Char} (h : IsMark line) : '\n' ∉ line := by
  rcases h with rfl | rfl <;> decide

theorem not_isMark_nil : ¬IsMark [] := by
  rintro (h | h) <;> cases h

theorem isMark_iff {line : List Char} :
    (if line.getLast? = some '\r' then line.dropLast else line) = ['-', '-', '-']
      ↔ IsMark line := by
  split_ifs with h
  · obtain ⟨front, rfl⟩ := List.getLast?_eq_some_iff.mp h
    rw [List.dropLast_concat]
    constructor
    · rintro rfl
      exact .inr rfl
    · rintro (hline | hline)
      · rw [hline] at h
        cases h
      · have hcr : front ++ ['\r'] = ['-', '-', '-'] ++ ['\r'] := hline
        exact List.append_cancel_right hcr
  · constructor
    · exact .inl
    · rintro (rfl | rfl)
      · rfl
      · exact absurd rfl h

theorem isDelimiter_ended {line : List Char} :
    isDelimiter (line ++ ['\n']) = true ↔ IsMark line := by
  rw [isDelimiter, decide_eq_true_iff, lineText, List.getLast?_concat, if_pos rfl,
    List.dropLast_concat, isMark_iff]

theorem isDelimiter_last {line : List Char} (h : '\n' ∉ line) :
    isDelimiter line = true ↔ IsMark line := by
  have hlast : line.getLast? ≠ some '\n' := fun hl => h (List.mem_of_getLast? hl)
  rw [isDelimiter, decide_eq_true_iff, lineText, if_neg hlast, isMark_iff]

section Until

variable {line : List Char}

theorem untilDelimiter_of_isMark (hmark : IsMark line) (rest : List Char) :
    untilDelimiter (line ++ '\n' :: rest) = some ([], rest) := by
  rw [untilDelimiter, dif_neg (by simp), cutLine_ended hmark.notMem,
    if_pos (isDelimiter_ended.mpr hmark)]

theorem untilDelimiter_of_not_isMark (h : '\n' ∉ line) (hmark : ¬IsMark line) (rest : List Char) :
    untilDelimiter (line ++ '\n' :: rest)
      = (untilDelimiter rest).map fun (yaml, content) => (line ++ '\n' :: yaml, content) := by
  rw [untilDelimiter, dif_neg (by simp), cutLine_ended h, if_neg (mt isDelimiter_ended.mp hmark)]
  simp

theorem untilDelimiter_last_of_isMark (hmark : IsMark line) :
    untilDelimiter line = some ([], []) := by
  have hne : line ≠ [] := by
    rintro rfl
    exact not_isMark_nil hmark
  have h := hmark.notMem
  rw [untilDelimiter, dif_neg hne, cutLine_last h, if_pos ((isDelimiter_last h).mpr hmark)]

theorem untilDelimiter_last_of_not_isMark (h : '\n' ∉ line) (hmark : ¬IsMark line) :
    untilDelimiter line = none := by
  have hnil : untilDelimiter [] = none := by rw [untilDelimiter, dif_pos rfl]
  by_cases hne : line = []
  · rw [hne, hnil]
  · rw [untilDelimiter, dif_neg hne, cutLine_last h,
      if_neg (mt (isDelimiter_last h).mp hmark), hnil]
    rfl

end Until

/-- There is no delimiter to be found where no line is one. -/
theorem untilDelimiter_eq_none_iff (s : List Char) : untilDelimiter s = none ↔ HasNoMark s := by
  induction s using line_induction with
  | last line h =>
    rw [HasNoMark, List.splitOn_eq_singleton h, List.forall_mem_singleton]
    constructor
    · intro hnone hmark
      rw [untilDelimiter_last_of_isMark hmark] at hnone
      cases hnone
    · exact untilDelimiter_last_of_not_isMark h
  | ended line rest h ih =>
    rw [hasNoMark_ended h, ← ih]
    by_cases hmark : IsMark line
    · simp [untilDelimiter_of_isMark hmark, hmark]
    · simp [untilDelimiter_of_not_isMark h hmark, hmark]

theorem AreEnded.cons {line lines : List Char} (h : AreEnded lines) :
    AreEnded (line ++ '\n' :: lines) := by
  right
  rcases h with rfl | h
  · exact List.getLast?_concat
  · rw [List.getLast?_append_cons, List.getLast?_cons, h]
    rfl

theorem AreEnded.of_cons {line lines : List Char} (h : AreEnded (line ++ '\n' :: lines)) :
    AreEnded lines := by
  rcases eq_or_ne lines [] with rfl | hne
  · exact .inl rfl
  · obtain ⟨c, lines, rfl⟩ := List.exists_cons_of_ne_nil hne
    rcases h with h | h
    · simp at h
    · right
      rwa [List.getLast?_append_cons, List.getLast?_cons_cons] at h

/-- What is found stands before the first delimiter. -/
theorem isDelimiterLine_of_untilDelimiter {s yaml content : List Char}
    (h : untilDelimiter s = some (yaml, content)) :
    ∃ closing, s = yaml ++ (closing ++ content) ∧ IsDelimiterLine closing content
      ∧ AreEnded yaml ∧ HasNoMark yaml := by
  have hnil : HasNoMark [] := by simpa [HasNoMark] using not_isMark_nil
  induction s using line_induction generalizing yaml with
  | last line hline =>
    by_cases hmark : IsMark line
    · rw [untilDelimiter_last_of_isMark hmark] at h
      obtain ⟨rfl, rfl⟩ := Prod.mk.inj (Option.some.inj h)
      exact ⟨line, by simp, ⟨line, hmark, .inr ⟨rfl, rfl⟩⟩, .inl rfl, hnil⟩
    · rw [untilDelimiter_last_of_not_isMark hline hmark] at h
      cases h
  | ended line rest hline ih =>
    by_cases hmark : IsMark line
    · rw [untilDelimiter_of_isMark hmark] at h
      obtain ⟨rfl, rfl⟩ := Prod.mk.inj (Option.some.inj h)
      exact ⟨line ++ ['\n'], by simp, ⟨line, hmark, .inl rfl⟩, .inl rfl, hnil⟩
    · rw [untilDelimiter_of_not_isMark hline hmark] at h
      obtain ⟨⟨yaml, _⟩, hrest, hyaml⟩ := Option.map_eq_some_iff.mp h
      obtain ⟨rfl, rfl⟩ := Prod.mk.inj hyaml
      obtain ⟨closing, rfl, hclosing, hended, hno⟩ := ih hrest
      exact ⟨closing, by simp, hclosing, hended.cons, (hasNoMark_ended hline).mpr ⟨hmark, hno⟩⟩

/-- What stands before the first delimiter is found. -/
theorem untilDelimiter_of_isDelimiterLine {yaml closing content : List Char}
    (hended : AreEnded yaml) (hno : HasNoMark yaml) (h : IsDelimiterLine closing content) :
    untilDelimiter (yaml ++ (closing ++ content)) = some (yaml, content) := by
  induction yaml using line_induction with
  | last line hline =>
    obtain rfl : line = [] := by
      rcases hended with hnil | hlast
      · exact hnil
      · exact absurd (List.mem_of_getLast? hlast) hline
    obtain ⟨mark, hmark, rfl | ⟨rfl, rfl⟩⟩ := h
    · rw [List.nil_append, List.append_assoc, List.singleton_append, untilDelimiter_of_isMark hmark]
    · rw [List.nil_append, List.append_nil, untilDelimiter_last_of_isMark hmark]
  | ended line rest hline ih =>
    obtain ⟨hmark, hno⟩ := (hasNoMark_ended hline).mp hno
    rw [List.append_assoc, List.cons_append, untilDelimiter_of_not_isMark hline hmark,
      ih hended.of_cons hno]
    rfl

/-! ## The first line -/

theorem isDelimiter_cutLine_iff (s : List Char) :
    isDelimiter (cutLine s).1 = true ↔ StartsWithMark s := by
  induction s using line_induction with
  | last line h =>
    rw [cutLine_last h, isDelimiter_last h, StartsWithMark, List.splitOn_eq_singleton h]
    simp
  | ended line rest h _ =>
    rw [cutLine_ended h, isDelimiter_ended, StartsWithMark, splitOn_ended h]
    simp

theorem hasNoMark_cutLine_iff (s : List Char) :
    HasNoMark (cutLine s).2 ↔ ¬HasLaterMark s := by
  induction s using line_induction with
  | last line h =>
    rw [cutLine_last h, HasLaterMark, List.splitOn_eq_singleton h]
    simpa [HasNoMark] using not_isMark_nil
  | ended line rest h _ =>
    rw [cutLine_ended h, HasLaterMark, splitOn_ended h]
    simp [HasNoMark]

theorem isDelimiterLine_cutLine {s : List Char} (h : StartsWithMark s) :
    IsDelimiterLine (cutLine s).1 (cutLine s).2 := by
  rw [← isDelimiter_cutLine_iff] at h
  induction s using line_induction with
  | last line hline =>
    rw [cutLine_last hline] at h ⊢
    exact ⟨line, (isDelimiter_last hline).mp h, .inr ⟨rfl, rfl⟩⟩
  | ended line rest hline _ =>
    rw [cutLine_ended hline] at h ⊢
    exact ⟨line, isDelimiter_ended.mp h, .inl rfl⟩

theorem cutLine_of_isDelimiterLine {line behind : List Char} (h : IsDelimiterLine line behind) :
    cutLine (line ++ behind) = (line, behind) := by
  obtain ⟨mark, hmark, rfl | ⟨rfl, rfl⟩⟩ := h
  · rw [List.append_assoc, List.singleton_append, cutLine_ended hmark.notMem]
  · rw [List.append_nil, cutLine_last hmark.notMem]

theorem isDelimiter_of_isDelimiterLine {line behind : List Char} (h : IsDelimiterLine line behind) :
    isDelimiter line = true := by
  obtain ⟨mark, hmark, rfl | ⟨rfl, rfl⟩⟩ := h
  · exact isDelimiter_ended.mpr hmark
  · exact (isDelimiter_last hmark.notMem).mpr hmark

/-! ## Splitting -/

theorem splitChars_of_not_startsWithMark {s : List Char} (h : ¬StartsWithMark s) :
    splitChars s = .ok (none, s) := by
  rw [splitChars, if_neg (mt (isDelimiter_cutLine_iff s).mp h)]

theorem splitChars_of_not_hasLaterMark {s : List Char} (h : StartsWithMark s)
    (hlater : ¬HasLaterMark s) : splitChars s = .error .unterminated := by
  have hnone := (untilDelimiter_eq_none_iff _).mpr ((hasNoMark_cutLine_iff s).mpr hlater)
  rw [splitChars, if_pos ((isDelimiter_cutLine_iff s).mpr h), hnone]

theorem splitChars_of_isFrontMatter {s opening yaml closing content : List Char}
    (h : IsFrontMatter s opening yaml closing content) :
    splitChars s = .ok (some yaml, content) := by
  obtain ⟨rfl, hopening, hclosing, hended, hno⟩ := h
  rw [splitChars, cutLine_of_isDelimiterLine hopening,
    if_pos (isDelimiter_of_isDelimiterLine hopening),
    untilDelimiter_of_isDelimiterLine hended hno hclosing]

theorem exists_isFrontMatter {s : List Char} (h : StartsWithMark s) (hlater : HasLaterMark s) :
    ∃ opening yaml closing content, IsFrontMatter s opening yaml closing content := by
  cases hfound : untilDelimiter (cutLine s).2 with
  | none =>
    have hno := (untilDelimiter_eq_none_iff _).mp hfound
    exact absurd hlater ((hasNoMark_cutLine_iff s).mp hno)
  | some found =>
    obtain ⟨yaml, content⟩ := found
    obtain ⟨closing, hs, hclosing, hended, hno⟩ := isDelimiterLine_of_untilDelimiter hfound
    have hopening := isDelimiterLine_cutLine h
    rw [hs] at hopening
    refine ⟨(cutLine s).1, yaml, closing, content, ?_, hopening, hclosing, hended, hno⟩
    rw [← hs, cutLine_append]

/-- What a text can be: without frontmatter, with frontmatter that does not end, or with
frontmatter. -/
theorem splitChars_cases (s : List Char) :
    (¬StartsWithMark s ∧ splitChars s = .ok (none, s))
      ∨ (StartsWithMark s ∧ ¬HasLaterMark s ∧ splitChars s = .error .unterminated)
      ∨ ∃ opening yaml closing content,
        StartsWithMark s ∧ HasLaterMark s ∧ IsFrontMatter s opening yaml closing content
          ∧ splitChars s = .ok (some yaml, content) := by
  by_cases h : StartsWithMark s
  · by_cases hlater : HasLaterMark s
    · obtain ⟨opening, yaml, closing, content, hs⟩ := exists_isFrontMatter h hlater
      exact .inr (.inr ⟨_, _, _, _, h, hlater, hs, splitChars_of_isFrontMatter hs⟩)
    · exact .inr (.inl ⟨h, hlater, splitChars_of_not_hasLaterMark h hlater⟩)
  · exact .inl ⟨h, splitChars_of_not_startsWithMark h⟩

theorem split_eq_some_iff {text yaml content : String} :
    split text = .ok (some yaml, content) ↔ ∃ opening closing,
      IsFrontMatter text.toList opening yaml.toList closing content.toList := by
  constructor
  · intro h
    rcases splitChars_cases text.toList with
      ⟨-, hs⟩ | ⟨-, -, hs⟩ | ⟨opening, y, closing, c, -, -, hparts, hs⟩
    · simp [split, hs, Except.map] at h
    · simp [split, hs, Except.map] at h
    · simp only [split, hs, Except.map, Option.map_some, Except.ok.injEq, Prod.mk.injEq,
        Option.some.injEq] at h
      obtain ⟨rfl, rfl⟩ := h
      exact ⟨opening, closing, by simpa using hparts⟩
  · rintro ⟨opening, closing, h⟩
    rw [split, splitChars_of_isFrontMatter h]
    simp [Except.map]

/-- A text whose first line is no delimiter is all content. One whose first line is the only
delimiter is refused. Any other is its first line, the frontmatter, the next delimiter and the
content, and that is how it is split; and what is written that way is split into what it was
written for. -/
theorem split_delimiters :
    (∀ text : String,
      (∀ content, split text = .ok (none, content)
          ↔ content = text ∧ ¬StartsWithMark text.toList)
        ∧ (∀ fault, split text = .error fault
          ↔ fault = .unterminated ∧ StartsWithMark text.toList ∧ ¬HasLaterMark text.toList)
        ∧ ((∃ yaml content, split text = .ok (some yaml, content))
          ↔ StartsWithMark text.toList ∧ HasLaterMark text.toList)
        ∧ ∀ yaml content, split text = .ok (some yaml, content) ↔ ∃ opening closing,
          IsFrontMatter text.toList opening yaml.toList closing content.toList)
      ∧ ∀ yaml content : String, AreEnded yaml.toList → HasNoMark yaml.toList →
        split ("---\n" ++ yaml ++ "---\n" ++ content) = .ok (some yaml, content) := by
  refine ⟨fun text => ?_, fun yaml content hended hno => ?_⟩
  · rcases splitChars_cases text.toList with
      ⟨h, hs⟩ | ⟨h, hlater, hs⟩ | ⟨opening, yaml, closing, content, h, hlater, -, hs⟩
    · have hsplit : split text = .ok (none, text) := by simp [split, hs, Except.map]
      refine ⟨fun content => ?_, fun fault => ?_, ?_, fun _ _ => split_eq_some_iff⟩
      · simp [hsplit, h, eq_comm]
      · simp [hsplit, h]
      · simp [hsplit, h]
    · have hsplit : split text = .error .unterminated := by simp [split, hs, Except.map]
      refine ⟨fun content => ?_, fun fault => ?_, ?_, fun _ _ => split_eq_some_iff⟩
      · simp [hsplit, h]
      · simp [hsplit, h, hlater, eq_comm]
      · simp [hsplit, hlater]
    · have hsplit : split text = .ok (some (String.ofList yaml), String.ofList content) := by
        simp [split, hs, Except.map]
      refine ⟨fun content => ?_, fun fault => ?_, ?_, fun _ _ => split_eq_some_iff⟩
      · simp [hsplit, h]
      · simp [hsplit, hlater]
      · simp [hsplit, h, hlater]
  · have hline : ∀ behind, IsDelimiterLine "---\n".toList behind :=
      fun behind => ⟨['-', '-', '-'], .inl rfl, .inl rfl⟩
    exact split_eq_some_iff.mpr
      ⟨_, _, by simp, hline _, hline _, hended, hno⟩

/-- Neither lines that look like a delimiter nor a delimiter in the content are taken for one. -/
theorem split_delimiters_look_alikes :
    AreEnded "----\n---\r\r\n".toList ∧ HasNoMark "----\n---\r\r\n".toList
      ∧ split ("---\n" ++ "----\n---\r\r\n" ++ "---\n" ++ "---\nend")
        = .ok (some "----\n---\r\r\n", "---\nend") := by
  have hlines : "----\n---\r\r\n".toList.splitOn '\n'
      = ["----".toList, "---\r\r".toList, []] := by decide
  have hended : AreEnded "----\n---\r\r\n".toList := .inr rfl
  have hno : HasNoMark "----\n---\r\r\n".toList := by
    rw [HasNoMark, hlines]
    simp [IsMark]
  exact ⟨hended, hno, split_delimiters.2 _ _ hended hno⟩

-- The text ends with a delimiter that has a CR but no LF.
example : split "---\r\na: 1\n---\r" = .ok (some "a: 1\n", "") := by decide +kernel

end Briefing.FrontMatter
