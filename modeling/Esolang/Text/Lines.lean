/-
  File:      Esolang/Text/Lines.lean
  Subject:   Lines as a reader of the text sees them.

  A displayed line ends at any line boundary of the Unicode standard, a carriage return and a line
  feed together being one, and a boundary at the very end opens no further line. `Text.lines` by
  contrast cuts at line feeds only.

  * `Text.displayLines`: the displayed lines.
  * `Text.unifyNewlines`: every carriage return, with a line feed after it or not, as one line feed.
-/
import Esolang.Text.CodePoint

namespace Esolang

/-- The code points that end a displayed line. -/
def CodePoint.isLineBoundary (c : CodePoint) : Bool :=
  [0xA, 0xB, 0xC, 0xD, 0x1C, 0x1D, 0x1E, 0x85, 0x2028, 0x2029].contains c.val

namespace Text

/-- The displayed lines of a text, with a line that has already begun. -/
def displayLinesFrom (begun : Text) : Text → List Text
  | [] => if begun.isEmpty then [] else [begun.reverse]
  | c :: cs =>
    if c = '\r' then
      match cs with
      | [] => [begun.reverse]
      | d :: ds =>
        if d = '\n' then begun.reverse :: displayLinesFrom [] ds
        else begun.reverse :: displayLinesFrom [] (d :: ds)
    else if c.isLineBoundary then begun.reverse :: displayLinesFrom [] cs
    else displayLinesFrom (c :: begun) cs

/-- The displayed lines of a text. -/
def displayLines (t : Text) : List Text := displayLinesFrom [] t

/-- A text with every kind of newline written as a line feed. -/
def unifyNewlines : Text → Text
  | [] => []
  | c :: cs =>
    if c = '\r' then
      match cs with
      | [] => [newline]
      | d :: ds =>
        if d = '\n' then newline :: unifyNewlines ds else newline :: unifyNewlines (d :: ds)
    else c :: unifyNewlines cs

end Text

end Esolang
