import Briefing.Text.White

/-!
# Columns

Rows of cells are written in columns, each as wide as its widest cell, with two blanks between
them. Under the headings is a rule.
-/

namespace Briefing.CommandLine

/-- What stands between two columns. -/
def columnGap : String := "  "

/-- A cell filled up with blanks. -/
def padCell (width : Nat) (cell : String) : String :=
  cell ++ String.ofList (List.replicate (width - cell.length) ' ')

/-- The widths of columns: for each heading that of the widest cell. -/
def columnWidths (headings : List String) (rows : List (List String)) : List Nat :=
  rows.foldl (fun widths row => List.zipWith max widths (row.map String.length))
    (headings.map String.length)

/-- A row as a line, without blanks at its end. -/
def writeRow (widths : List Nat) (row : List String) : String :=
  Text.trimEnd (columnGap.intercalate (List.zipWith padCell widths row))

/-- The rule under the headings. -/
def writeRule (widths : List Nat) : String :=
  columnGap.intercalate (widths.map fun width => String.ofList (List.replicate width '-'))

/-- The lines of a table: the headings, a rule and the rows. -/
def tableLines (headings : List String) (rows : List (List String)) : List String :=
  let widths := columnWidths headings rows
  writeRow widths headings :: writeRule widths :: rows.map (writeRow widths)

end Briefing.CommandLine
