import Briefing.FrontMatter.Basic

/-!
# Where frontmatter ends

A text has frontmatter if its first line is exactly `---`. The frontmatter runs to the next such
line, and what follows that is the content. A line may end with LF or CR LF, and the last line of a
text also with nothing or CR.
-/

namespace Briefing.FrontMatter

/-- The first line of a text with its break, and the rest. -/
def cutLine : List Char → List Char × List Char
  | [] => ([], [])
  | c :: s => if c = '\n' then (['\n'], s) else ((c :: (cutLine s).1), (cutLine s).2)

/-- A line without its break: LF, CR LF, or CR at the text's end. -/
def lineText (line : List Char) : List Char :=
  let line := if line.getLast? = some '\n' then line.dropLast else line
  if line.getLast? = some '\r' then line.dropLast else line

/-- Whether a line, with its break, is a delimiter. -/
def isDelimiter (line : List Char) : Bool := lineText line = ['-', '-', '-']

theorem cutLine_append (s : List Char) : (cutLine s).1 ++ (cutLine s).2 = s := by
  induction s with
  | nil => rfl
  | cons c s ih =>
    unfold cutLine
    split
    · simp_all
    · simp [ih]

theorem cutLine_fst_ne_nil {s : List Char} (h : s ≠ []) : (cutLine s).1 ≠ [] := by
  cases s with
  | nil => exact absurd rfl h
  | cons c s =>
    unfold cutLine
    split <;> simp

theorem cutLine_rest_length {s : List Char} (h : s ≠ []) : (cutLine s).2.length < s.length := by
  have h₁ := congrArg List.length (cutLine_append s)
  have h₂ := List.length_pos_iff.mpr (cutLine_fst_ne_nil h)
  simp only [List.length_append] at h₁
  omega

/-- The lines before the first delimiter line, and what follows that line; none if there is no
such line. -/
def untilDelimiter (s : List Char) : Option (List Char × List Char) :=
  if _ : s = [] then none
  else if isDelimiter (cutLine s).1 then some ([], (cutLine s).2)
  else (untilDelimiter (cutLine s).2).map fun (yaml, content) => ((cutLine s).1 ++ yaml, content)
termination_by s.length
decreasing_by exact cutLine_rest_length ‹_›

/-- The frontmatter of a text, if it has any, and its content. -/
def splitChars (s : List Char) : Except Fault (Option (List Char) × List Char) :=
  if isDelimiter (cutLine s).1 then
    match untilDelimiter (cutLine s).2 with
    | some (yaml, content) => .ok (some yaml, content)
    | none => .error .unterminated
  else .ok (none, s)

/-- The frontmatter of a text, if it has any, and its content. -/
def split (text : String) : Except Fault (Option String × String) :=
  (splitChars text.toList).map fun (yaml, content) =>
    (yaml.map String.ofList, String.ofList content)

end Briefing.FrontMatter
