import NativeExports.Text.DisplayWidth
import NativeExports.Text.Lines

/-!
# Tables of text

A table has a header and rows. Each column is as wide as its widest cell, and two blanks stand
between columns. A cell may have several lines, and the row is as high as its highest cell.
-/

namespace NativeExports.Text

/-- Where the text of a cell stands in its column. -/
inductive Alignment where
  | left
  | right
  deriving DecidableEq, Repr

/-- A table of text: the names of the columns with where their cells stand, and the rows. -/
structure Grid where
  columns : List (String × Alignment)
  rows : List (List String)
  deriving DecidableEq, Repr

namespace Grid

def cellWidth (cell : String) : Nat :=
  (cell.splitOn "\n").foldl (fun width line => max width (displayWidth line)) 0

/-- The widest of a column's cells; the header is the first row of `rows`. -/
def columnWidth (rows : List (List String)) (column : Nat) : Nat :=
  rows.foldl (fun width row => max width (cellWidth (row.getD column ""))) 0

/-- A line of a cell, filled up to a width. -/
def pad (alignment : Alignment) (width : Nat) (line : String) : String :=
  let blanks := String.ofList (List.replicate (width - displayWidth line) ' ')
  match alignment with
  | .left => line ++ blanks
  | .right => blanks ++ line

/-- The lines of a row, of which the columns have the given widths. -/
def rowLines (layout : List (Alignment × Nat)) (row : List String) : List String :=
  let cells := row.map fun cell => cell.splitOn "\n"
  let height := cells.foldl (fun height cell => max height cell.length) 0
  (List.range height).map fun n =>
    let parts := (layout.zip cells).map fun ((alignment, width), cell) =>
      pad alignment width (cell.getD n "")
    "  ".intercalate parts

/-- The lines of a table, without white space at their ends. -/
def lines (grid : Grid) : List String :=
  let rows := grid.columns.map (·.1) :: grid.rows
  let layout := grid.columns.zipIdx.map fun ((_, alignment), n) => (alignment, columnWidth rows n)
  (rows.flatMap (rowLines layout)).map trimEnd

end Grid

end NativeExports.Text
