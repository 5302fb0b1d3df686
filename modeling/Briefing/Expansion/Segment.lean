import Briefing.Text.Letter
import Briefing.Text.Search
import Briefing.Text.White

/-!
# Segments

A content is cut into segments: single characters and the placeholders `${name}`, `` !`command` ``
and `@path`. Where they are depends on the content alone, and nothing of it is lost
(`source_segments`).
-/

namespace Briefing.Expansion

/-- A part of a content. -/
inductive Segment
  | char (c : Char)
  /-- A parameter by name. -/
  | parameter (name : List Char)
  /-- A command for the shell. -/
  | command (text : List Char)
  /-- A file, its path as it is written. -/
  | reference (written : List Char)
  deriving DecidableEq, Repr

/-- How a segment is written. -/
def Segment.source : Segment → List Char
  | char c => [c]
  | parameter name => '$' :: '\x7b' :: name ++ ['\x7d']
  | command text => '!' :: '`' :: text ++ ['`']
  | reference written => '@' :: written

/-! ## Parameters and commands -/

def isNameStart (c : Char) : Bool := c.isAlpha || c = '_'

def isNameChar (c : Char) : Bool := c.isAlphanum || c = '_' || c = '.' || c = '-'

/-- Whether a text names a parameter, by position or by key. -/
def isParameterName : List Char → Bool
  | [] => false
  | c :: s => (c :: s).all Char.isDigit || isNameStart c && s.all isNameChar

/-- The text before the first closing mark, and the text after it. -/
def cutClosed (mark : Char) : List Char → Option (List Char × List Char)
  | [] => none
  | c :: s => if c = mark then some ([], s) else (cutClosed mark s).map fun (t, r) => (c :: t, r)

/-- The parameter behind a dollar sign, and the rest. -/
def parameter? : List Char → Option (Segment × List Char)
  | '\x7b' :: s =>
    match cutClosed '\x7d' s with
    | some (name, rest) => if isParameterName name then some (.parameter name, rest) else none
    | none => none
  | _ => none

/-- The command behind an exclamation mark, and the rest; a blank command is none. -/
def command? : List Char → Option (Segment × List Char)
  | '`' :: s =>
    match cutClosed '`' s with
    | some (text, rest) => if text.all Text.isWhite then none else some (.command text, rest)
    | none => none
  | _ => none

/-! ## References -/

/-- A character behind which an at sign starts no reference. -/
def isWordChar (c : Char) : Bool := Text.isAlphanumeric c || c = '_'

/-- A character with which a path starts. -/
def startsPath (c : Char) : Bool := Text.isAlphabetic c || c = '/' || c = '.'

/-- A character that no path holds. -/
def endsPath (c : Char) : Bool := Text.isWhite c || "<>\"|*?`".toList.contains c

/-- A character that ends a sentence and not a path. -/
def isTrailing (c : Char) : Bool := ".,;:!?)".toList.contains c

/-- The longest start of a text without characters that no path holds; a backslash takes a blank
along. -/
def pathStart : List Char → List Char
  | '\\' :: ' ' :: s => '\\' :: ' ' :: pathStart s
  | c :: s => if endsPath c then [] else c :: pathStart s
  | [] => []

/-- The path at the start of a text, as it is written. -/
def writtenPath (s : List Char) : List Char := Text.dropEnd isTrailing (pathStart s)

/-- The reference behind an at sign, and the rest. -/
def reference? (before : Option Char) (s : List Char) : Option (Segment × List Char) :=
  if before.any isWordChar || !s.head?.any startsPath then none
  else
    let written := writtenPath s
    if written.isEmpty then none else some (.reference written, s.drop written.length)

/-- The path that is meant by a written one. -/
def unescapeBlanks : List Char → List Char
  | '\\' :: ' ' :: s => ' ' :: unescapeBlanks s
  | c :: s => c :: unescapeBlanks s
  | [] => []

/-! ## Cutting a content -/

/-- The placeholder that starts with `c`, and the rest; `before` is the character before `c`. -/
def placeholder? (before : Option Char) (c : Char) (s : List Char) :
    Option (Segment × List Char) :=
  if c = '$' then parameter? s
  else if c = '!' then command? s
  else if c = '@' then reference? before s
  else none

theorem cutClosed_append {mark : Char} :
    ∀ {s t r : List Char}, cutClosed mark s = some (t, r) → s = t ++ mark :: r
  | [], _, _, h => by simp [cutClosed] at h
  | c :: s, t, r, h => by
    simp only [cutClosed] at h
    split at h
    · rename_i hc
      obtain ⟨rfl, rfl⟩ : [] = t ∧ s = r := by simpa using h
      simp [hc]
    · obtain ⟨⟨t', r'⟩, h', he⟩ := Option.map_eq_some_iff.mp h
      obtain ⟨rfl, rfl⟩ : c :: t' = t ∧ r' = r := by simpa using he
      simp [cutClosed_append h']

theorem isPrefix_pathStart : ∀ s : List Char, pathStart s <+: s := by
  intro s
  fun_induction pathStart s with
  | case1 s ih => simpa [List.cons_prefix_cons] using ih
  | case2 => exact List.nil_prefix
  | case3 c s _ _ ih => simpa [List.cons_prefix_cons] using ih
  | case4 => exact List.nil_prefix

theorem isPrefix_dropEnd (p : Char → Bool) (s : List Char) : Text.dropEnd p s <+: s := by
  have h := List.dropWhile_suffix (l := s.reverse) p
  rw [← List.reverse_prefix, List.reverse_reverse] at h
  exact h

theorem isPrefix_writtenPath (s : List Char) : writtenPath s <+: s :=
  (isPrefix_dropEnd _ _).trans (isPrefix_pathStart s)

/-- A placeholder and the rest behind it are the text it was found in. -/
theorem placeholder?_append {before : Option Char} {c : Char} {s r : List Char} {p : Segment}
    (h : placeholder? before c s = some (p, r)) : c :: s = p.source ++ r := by
  unfold placeholder? at h
  split at h
  · subst c
    unfold parameter? at h
    repeat' split at h
    all_goals simp only [reduceCtorEq, Option.some.injEq, Prod.mk.injEq] at h
    obtain ⟨rfl, rfl⟩ := h
    simp [Segment.source, cutClosed_append ‹_›]
  split at h
  · subst c
    unfold command? at h
    repeat' split at h
    all_goals simp only [reduceCtorEq, Option.some.injEq, Prod.mk.injEq] at h
    obtain ⟨rfl, rfl⟩ := h
    simp [Segment.source, cutClosed_append ‹_›]
  split at h
  · subst c
    simp only [reference?] at h
    repeat' split at h
    all_goals simp only [reduceCtorEq, Option.some.injEq, Prod.mk.injEq] at h
    obtain ⟨rfl, rfl⟩ := h
    simp [Segment.source, List.prefix_iff_eq_append.mp (isPrefix_writtenPath s)]
  · simp at h

theorem source_length_pos (p : Segment) : 0 < p.source.length := by
  cases p <;> simp [Segment.source]

theorem placeholder?_rest_length {before : Option Char} {c : Char} {s r : List Char} {p : Segment}
    (h : placeholder? before c s = some (p, r)) : r.length < (c :: s).length := by
  have hs := congrArg List.length (placeholder?_append h)
  have := source_length_pos p
  rw [List.length_append] at hs
  omega

/-- The segment that starts with `c`, and the rest. -/
def next (before : Option Char) (c : Char) (s : List Char) : Segment × List Char :=
  (placeholder? before c s).getD (.char c, s)

/-- A segment and the rest behind it are the text it was found in. -/
theorem next_append (before : Option Char) (c : Char) (s : List Char) :
    c :: s = (next before c s).1.source ++ (next before c s).2 := by
  unfold next
  cases h : placeholder? before c s with
  | none => rfl
  | some n => exact placeholder?_append h

theorem next_rest_length (before : Option Char) (c : Char) (s : List Char) :
    (next before c s).2.length < (c :: s).length := by
  unfold next
  cases h : placeholder? before c s with
  | none => exact Nat.lt_succ_self _
  | some n => exact placeholder?_rest_length h

/-- The segments of a content; `before` is the character before it. -/
def segments (before : Option Char) : List Char → List Segment
  | [] => []
  | c :: s =>
    let n := next before c s
    n.1 :: segments n.1.source.getLast? n.2
termination_by s => s.length
decreasing_by exact next_rest_length before c s

/-- The segments of a content make up the content. -/
theorem source_segments (before : Option Char) (s : List Char) :
    (segments before s).flatMap Segment.source = s := by
  fun_induction segments before s with
  | case1 => rfl
  | case2 before c s n ih => rw [List.flatMap_cons, ih, ← next_append]

end Briefing.Expansion
