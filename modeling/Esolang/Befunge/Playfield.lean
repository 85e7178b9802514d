/-
  File:      Esolang/Befunge/Playfield.lean
  Subject:   The playfield of Befunge-93: 80 columns and 25 rows of code points.

  A source is laid out on the field line by line; it only has to fit. The field remembers how far
  each row and each column is occupied, since the pointer wraps around the occupied part.

  * `Playfield`: the rows, and the extents of rows and columns.
  * `Playfield.cell?`, `Playfield.write`: one cell.
  * `layOut`: the field of a source; `padding`: the edits that pad the source to the full field.
-/
import Esolang.Source.Rejection

namespace Esolang.Befunge

/-! ## 1. The field -/

/-- The number of columns. -/
def columns : Nat := 80

/-- The number of rows. -/
def rowCount : Nat := 25

/-- A field of code points with the extents of its occupied part. -/
structure Playfield where
  /-- The rows, from the top. -/
  rows : List Text
  /-- For each row, the number of columns up to its last occupied cell. -/
  rowExtents : List Nat
  /-- For each column, the number of rows up to its last occupied cell. -/
  columnExtents : List Nat
deriving DecidableEq

/-- Whether coordinates lie on the field. -/
def onField (x y : Int) : Bool := 0 ≤ x && x < columns && 0 ≤ y && y < rowCount

namespace Playfield

/-- The field before any program is laid out: it has no cells. -/
def empty : Playfield := ⟨[], List.replicate rowCount 0, List.replicate columns 0⟩

/-- The code point at column `x` of row `y`. -/
def cell? (f : Playfield) (x y : Nat) : Option CodePoint := f.rows[y]?.bind (·[x]?)

/-- How far row `y` is occupied. -/
def rowExtent (f : Playfield) (y : Nat) : Nat := f.rowExtents[y]?.getD 0

/-- How far column `x` is occupied. -/
def columnExtent (f : Playfield) (x : Nat) : Nat := f.columnExtents[x]?.getD 0

/-- The field with a code point written at column `x` of row `y`; the extents grow to include it. -/
def write (f : Playfield) (x y : Nat) (c : CodePoint) : Playfield :=
  { rows := f.rows.modify y (·.set x c)
    rowExtents := f.rowExtents.modify y (max · (x + 1))
    columnExtents := f.columnExtents.modify x (max · (y + 1)) }

end Playfield

/-! ## 2. Laying out a source -/

/-- Why a source does not fit the field. -/
inductive LayoutError where
  /-- It has more lines than the field has rows. -/
  | tooManyLines
  /-- A line is longer than a row. -/
  | lineTooLong
deriving DecidableEq

/-- The words for a layout error. -/
def LayoutError.message : LayoutError → Text
  | .tooManyLines => "Code is longer than 25 lines"
  | .lineTooLong => "Line is longer than 80 characters"

/-- A line with spaces behind it up to the full row. -/
def padRow (line : Text) : Text := line ++ Text.fill (columns - line.length) ' '

/-- The field on which the given lines are laid out. -/
def fieldOf (lines : List Text) : Playfield :=
  let longest := (lines.map List.length).foldl max 0
  let missing := rowCount - lines.length
  { rows := lines.map padRow ++ List.replicate missing (padRow [])
    rowExtents := lines.map List.length ++ List.replicate missing 0
    columnExtents := List.replicate longest lines.length ++ List.replicate (columns - longest) 0 }

/-- The edit that pads one line of the displayed source to a full row, or adds the row. -/
def padLine (lines : List Text) (row : Nat) : Option Edit :=
  match lines[row]? with
  | some line =>
    if line.length = columns then none
    else some ⟨.within row line.length line.length, Text.fill (columns - line.length) ' '⟩
  | none => some ⟨.within row 0 0, Text.newline :: Text.fill columns ' '⟩

/-- The edits that pad the displayed source to the full field. -/
def padding (lines : List Text) : List Edit := (List.range rowCount).filterMap (padLine lines)

/-- The field of a source. Any code point may stand in a cell, so the source only has to fit. -/
def layOut (code : Text) : Except Rejection Playfield :=
  let lines := code.lines
  if rowCount < lines.length then .error ⟨LayoutError.tooManyLines.message, .line rowCount⟩
  else
    match lines.findIdx? (columns < ·.length) with
    | some row => .error ⟨LayoutError.lineTooLong.message, ⟨row, some columns, none, none⟩⟩
    | none => .ok (fieldOf lines)

end Esolang.Befunge
