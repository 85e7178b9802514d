/-
  File:      Esolang/Source/Span.lean
  Subject:   Places in a source text, edits of it, and where commands stand.

  Lines and columns count from zero.

  * `Span`: a stretch of source text; absent columns mean the ends of the line.
  * `Edit`: a span replaced by a text.
  * `Placed`: something read at one place, and `placed`, which reads all of a source.
-/
import Esolang.Text.CodePoint

namespace Esolang

/-- A stretch of source text. Without a start column it begins with its line, without an end column
    it reaches the line's end, and without an end line it stays on its first line. -/
structure Span where
  /-- The line it begins on. -/
  startLine : Int
  /-- The column it begins at. -/
  startCol : Option Int
  /-- The line it ends on. -/
  endLine : Option Int
  /-- The column it ends before. -/
  endCol : Option Int
deriving DecidableEq

/-- A whole line. -/
def Span.line (row : Int) : Span := ⟨row, none, none, none⟩

/-- The columns from `first` to before `past` on one line. -/
def Span.within (row first past : Int) : Span := ⟨row, some first, none, some past⟩

/-- The single code point at a line and column. -/
def Span.cell (row col : Int) : Span := within row col (col + 1)

/-- A span replaced by a text; an empty span is an insertion. -/
structure Edit where
  /-- What is replaced. -/
  span : Span
  /-- What stands there afterwards. -/
  text : Text
deriving DecidableEq

/-- Something that stands at one code point of a source. -/
structure Placed (α : Type) where
  /-- What stands there. -/
  item : α
  /-- The line. -/
  row : Nat
  /-- The column. -/
  col : Nat
deriving DecidableEq

/-- Where it stands. -/
def Placed.span {α : Type} (p : Placed α) : Span := Span.cell p.row p.col

/-- What the code points of one line stand for, with their places. -/
def placedInLine {α : Type} (decode : CodePoint → Option α) (row : Nat) (line : Text) :
    List (Placed α) :=
  line.zipIdx.filterMap fun (c, col) => (decode c).map (⟨·, row, col⟩)

/-- What the code points of a source stand for, with their places, in reading order; all others are
    skipped. -/
def placed {α : Type} (decode : CodePoint → Option α) (code : Text) : List (Placed α) :=
  code.lines.zipIdx.flatMap fun (line, row) => placedInLine decode row line

end Esolang
