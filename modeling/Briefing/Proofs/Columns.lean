import Briefing.CommandLine.Columns
import Briefing.Text.Search
import Mathlib.Algebra.Ring.Nat
import Mathlib.Data.List.Forall2

/-!
# Cells in their columns

Cells that fit their columns (`LinesUp`) are written so that each starts where its column does
(`standsFrom_writeRow`), and the line of a row has no line breaks but those of its cells
(`breaks_writeRow`). For this the last cell has to end with something that can be seen, as what is
white at the end of a row is left out. The columns of a table are wide enough for the headings and
for all rows (`fits_columnWidths`).
-/

namespace Briefing.CommandLine

/-- The text is in the line and starts at the column. -/
def StandsFrom (line text : List Char) (column : ℕ) : Prop :=
  ∃ before behind, line = before ++ text ++ behind ∧ before.length = column

/-- A text that ends with something that can be seen. -/
def EndsVisibly (text : String) : Prop :=
  ∃ c, text.toList.getLast? = some c ∧ Text.isWhite c = false

/-- Cells that are not wider than the columns. -/
def Fits (row : List String) (widths : List ℕ) : Prop :=
  row.Forall₂ (fun cell width => cell.length ≤ width) widths

/-- Cells that are not wider than the columns, the last of which ends with something that can be
seen. -/
inductive LinesUp : List String → List ℕ → Prop
  | last {cell : String} {width : ℕ} (hcell : cell.length ≤ width) (hlast : EndsVisibly cell) :
      LinesUp [cell] [width]
  | cons {cell : String} {width : ℕ} {row : List String} {widths : List ℕ}
      (hcell : cell.length ≤ width) (hrow : LinesUp row widths) :
      LinesUp (cell :: row) (width :: widths)

/-- Where a column starts, behind those before it. -/
def columnStart (widths : List ℕ) (i : ℕ) : ℕ :=
  ((widths.take i).map (· + columnGap.length)).sum

/-- How many line breaks a text has. -/
def breaks (text : String) : ℕ := text.toList.count '\n'

theorem breaks_eq_zero {text : String} : breaks text = 0 ↔ '\n' ∉ text.toList :=
  List.count_eq_zero

theorem breaks_append (s t : String) : breaks (s ++ t) = breaks s + breaks t := by
  rw [breaks, String.toList_append, List.count_append]
  rfl

/-! ## Rows -/

section Row

variable {row : List String} {widths : List ℕ} {cell : String} {width : ℕ}

theorem EndsVisibly.ne_empty (h : EndsVisibly cell) : cell ≠ "" := by
  rintro rfl
  obtain ⟨c, hc, -⟩ := h
  cases hc

theorem dropEnd_append {p : Char → Bool} {front back : List Char} (h : Text.dropEnd p back ≠ []) :
    Text.dropEnd p (front ++ back) = front ++ Text.dropEnd p back := by
  rw [Text.dropEnd, ne_eq, List.reverse_eq_nil_iff] at h
  rw [Text.dropEnd, Text.dropEnd, List.reverse_append, List.dropWhile_append,
    if_neg (by rwa [List.isEmpty_iff]), List.reverse_append, List.reverse_reverse]

theorem length_padCell (h : cell.length ≤ width) : (padCell width cell).length = width := by
  rw [padCell, String.length_append, String.length_ofList, List.length_replicate]
  omega

theorem breaks_padCell (width : ℕ) (cell : String) : breaks (padCell width cell) = breaks cell := by
  have hblanks : breaks (String.ofList (List.replicate (width - cell.length) ' ')) = 0 := by
    rw [breaks_eq_zero, String.toList_ofList, List.mem_replicate]
    exact fun h => absurd h.2 (by decide)
  rw [padCell, breaks_append, hblanks, Nat.add_zero]

/-- The last cell of a row is written as it is. -/
theorem writeRow_singleton (width : ℕ) (h : EndsVisibly cell) : writeRow [width] [cell] = cell := by
  obtain ⟨c, hlast, hc⟩ := h
  obtain ⟨front, hcell⟩ := List.getLast?_eq_some_iff.mp hlast
  have hpad : (padCell width cell).toList
      = front ++ c :: List.replicate (width - cell.length) ' ' := by
    rw [padCell, String.toList_append, String.toList_ofList, hcell, List.append_assoc]
    rfl
  have hblanks : Text.dropEnd Text.isWhite (c :: List.replicate (width - cell.length) ' ')
      = [c] := by
    rw [Text.dropEnd, List.reverse_cons, List.reverse_replicate,
      List.dropWhile_append_of_pos fun b hb => by rw [List.eq_of_mem_replicate hb]; decide]
    simp [hc]
  apply String.toList_inj.mp
  rw [writeRow, List.zipWith_cons_cons, List.zipWith_nil_left, String.intercalate_singleton,
    Text.trimEnd, String.toList_ofList, hpad, dropEnd_append (by rw [hblanks]; simp), hblanks,
    hcell]

/-- A cell that is not the last one is filled up with blanks and has a gap behind it. -/
theorem writeRow_cons (width : ℕ) (cell : String) (h : writeRow widths row ≠ "") :
    writeRow (width :: widths) (cell :: row)
      = padCell width cell ++ columnGap ++ writeRow widths row := by
  have hcells : List.zipWith padCell widths row ≠ [] := by
    intro hnil
    rw [writeRow, hnil] at h
    exact h rfl
  rw [writeRow, Text.trimEnd, ne_eq, ← String.toList_eq_nil_iff, String.toList_ofList] at h
  apply String.toList_inj.mp
  rw [writeRow, List.zipWith_cons_cons, String.intercalate_cons_of_ne_nil hcells, Text.trimEnd,
    String.toList_ofList, String.toList_append, dropEnd_append h, String.toList_append, writeRow,
    Text.trimEnd, String.toList_append, String.toList_append, String.toList_ofList]

theorem Fits.linesUp (h : Fits row widths) {last : String} (hlast : row.getLast? = some last)
    (hvisible : EndsVisibly last) : LinesUp row widths := by
  induction h with
  | nil => cases hlast
  | @cons cell width row widths hcell hrest ih =>
    cases hrest with
    | nil =>
      obtain rfl := Option.some.inj hlast
      exact .last hcell hvisible
    | cons _ _ =>
      rw [List.getLast?_cons_cons] at hlast
      exact .cons hcell (ih hlast)

theorem LinesUp.writeRow_ne_empty (h : LinesUp row widths) : writeRow widths row ≠ "" := by
  induction h with
  | last _ hlast =>
    rw [writeRow_singleton _ hlast]
    exact hlast.ne_empty
  | cons _ _ ih =>
    rw [writeRow_cons _ _ ih, ne_eq, String.append_eq_empty_iff]
    exact fun h => ih h.2

theorem LinesUp.writeRow_cons (h : LinesUp row widths) (width : ℕ) (cell : String) :
    writeRow (width :: widths) (cell :: row)
      = padCell width cell ++ columnGap ++ writeRow widths row :=
  CommandLine.writeRow_cons width cell h.writeRow_ne_empty

/-- Each cell starts where its column does. -/
theorem standsFrom_writeRow (h : LinesUp row widths) {i : ℕ} (hi : row[i]? = some cell) :
    StandsFrom (writeRow widths row).toList cell.toList (columnStart widths i) := by
  induction h generalizing i with
  | last _ hlast =>
    rw [List.getElem?_singleton] at hi
    split_ifs at hi with hzero
    obtain rfl := Option.some.inj hi
    rw [writeRow_singleton _ hlast, hzero]
    exact ⟨[], [], by simp, rfl⟩
  | @cons first width row widths hcell hrow ih =>
    rw [hrow.writeRow_cons, String.toList_append, String.toList_append]
    rcases i with _ | i
    · obtain rfl := Option.some.inj hi
      rw [padCell, String.toList_append, List.append_assoc, List.append_assoc]
      exact ⟨[], _, by rw [List.nil_append], rfl⟩
    · obtain ⟨before, behind, hline, hlength⟩ := ih hi
      refine ⟨(padCell width first).toList ++ columnGap.toList ++ before, behind, ?_, ?_⟩
      · rw [hline]
        simp only [List.append_assoc]
      · rw [List.length_append, List.length_append, String.length_toList, String.length_toList,
          length_padCell hcell, hlength]
        rfl

/-- The line of a row has the line breaks of its cells. -/
theorem breaks_writeRow (h : LinesUp row widths) :
    breaks (writeRow widths row) = (row.map breaks).sum := by
  induction h with
  | last _ hlast =>
    rw [writeRow_singleton _ hlast]
    rfl
  | cons _ hrow ih =>
    rw [hrow.writeRow_cons, breaks_append, breaks_append, breaks_padCell, ih]
    rfl

end Row

/-! ## Tables -/

section Table

variable {headings row other : List String} {rows : List (List String)} {widths : List ℕ}

theorem Fits.zipWith_max (h : Fits row widths) (hlength : other.length = widths.length) :
    Fits row (List.zipWith max widths (other.map String.length)) := by
  induction h generalizing other with
  | nil => exact .nil
  | cons hcell _ ih =>
    rcases other with _ | ⟨cell, other⟩
    · cases hlength
    · exact .cons (Nat.le_trans hcell (Nat.le_max_left ..)) (ih (Nat.succ.inj hlength))

theorem fits_zipWith_max (hlength : row.length = widths.length) :
    Fits row (List.zipWith max widths (row.map String.length)) := by
  induction row generalizing widths with
  | nil =>
    rw [List.map_nil, List.zipWith_nil_right]
    exact .nil
  | cons cell row ih =>
    rcases widths with _ | ⟨width, widths⟩
    · cases hlength
    · exact .cons (Nat.le_max_right ..) (ih (Nat.succ.inj hlength))

/-- Once the columns are wide enough for a row, they stay so. -/
theorem fits_foldl (hlength : ∀ r ∈ rows, r.length = widths.length)
    (h : Fits row widths ∨ row ∈ rows) :
    Fits row (rows.foldl (fun widths row => List.zipWith max widths (row.map String.length))
      widths) := by
  induction rows generalizing widths with
  | nil => simpa using h
  | cons first rows ih =>
    obtain ⟨hfirst, hrows⟩ := List.forall_mem_cons.mp hlength
    refine ih (by simpa [hfirst] using hrows) ?_
    rcases h with h | h
    · exact .inl (h.zipWith_max hfirst)
    · rcases List.mem_cons.mp h with rfl | h
      · exact .inl (fits_zipWith_max hfirst)
      · exact .inr h

/-- The columns of a table are wide enough for the headings and for all rows. -/
theorem fits_columnWidths (hlength : ∀ r ∈ rows, r.length = headings.length)
    (h : row = headings ∨ row ∈ rows) : Fits row (columnWidths headings rows) := by
  refine fits_foldl (by simpa using hlength) (h.imp_left ?_)
  rintro rfl
  rw [Fits, List.forall₂_map_right_iff, List.forall₂_same]
  exact fun _ _ => Nat.le_refl _

/-- The rule under the headings is made of dashes and blanks. -/
theorem eq_of_mem_writeRule {c : Char} (h : c ∈ (writeRule widths).toList) : c = '-' ∨ c = ' ' := by
  induction widths with
  | nil => simp [writeRule] at h
  | cons width widths ih =>
    have hdashes : ∀ {c : Char}, c ∈ (String.ofList (List.replicate width '-')).toList →
        c = '-' := by
      intro c hc
      rw [String.toList_ofList] at hc
      exact List.eq_of_mem_replicate hc
    rcases widths with _ | ⟨width', widths⟩
    · rw [writeRule, List.map_singleton, String.intercalate_singleton] at h
      exact .inl (hdashes h)
    · rw [writeRule, List.map_cons, List.map_cons, String.intercalate_cons_cons,
        String.toList_append, String.toList_append, List.mem_append, List.mem_append] at h
      rcases h with (h | h) | h
      · exact .inl (hdashes h)
      · exact .inr (List.eq_of_mem_replicate (show c ∈ List.replicate 2 ' ' from h))
      · exact ih h

theorem breaks_writeRule (widths : List ℕ) : breaks (writeRule widths) = 0 := by
  rw [breaks_eq_zero]
  intro h
  rcases eq_of_mem_writeRule h with h | h <;> cases h

end Table

/-! ## Lines -/

variable {lines : List String}

/-- Lines without line breaks can be told apart in a text. -/
theorem splitOn_join (h : ∀ line ∈ lines, breaks line = 0) :
    (String.join (lines.map (· ++ "\n"))).toList.splitOn '\n' = lines.map String.toList ++ [[]] := by
  induction lines with
  | nil => rfl
  | cons line lines ih =>
    obtain ⟨hline, hlines⟩ := List.forall_mem_cons.mp h
    rw [List.map_cons, String.join_cons, String.toList_append, String.toList_append,
      List.append_assoc, show "\n".toList = ['\n'] from rfl, List.singleton_append,
      Text.splitOn_cut (breaks_eq_zero.mp hline), ih hlines]
    rfl

theorem breaks_join (lines : List String) :
    breaks (String.join (lines.map (· ++ "\n"))) = lines.length + (lines.map breaks).sum := by
  induction lines with
  | nil => rfl
  | cons line lines ih =>
    rw [List.map_cons, String.join_cons, breaks_append, breaks_append, ih, List.map_cons,
      List.sum_cons, List.length_cons, show breaks "\n" = 1 from rfl]
    omega

end Briefing.CommandLine
