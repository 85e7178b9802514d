/-
  File:      Esolang/Yaml/Page.lean
  Subject:   A page that is written from left to right and from top to bottom.

  What is written next depends on where the last line stands: whether a word must be kept apart from
  the one before it, and whether a line has only its indentation and marks that open a block.

  * `Page`: what is written, and where the last line stands.
  * `Page.put`, `Page.mark`, `Page.newLine`, `Page.indentTo`: ways to write on.
-/
import Esolang.Text.CodePoint

namespace Esolang.Yaml

/-- What is written, and where the last line stands. -/
structure Page where
  /-- What is written, the last first. -/
  backwards : Text
  /-- How many code points the last line has. -/
  column : Nat
  /-- Whether a word may follow without a space. -/
  apart : Bool
  /-- Whether the last line has only its indentation and marks that open a block. -/
  fresh : Bool

namespace Page

/-- A page with nothing on it. -/
def empty : Page := ⟨[], 0, true, true⟩

/-- All that is written. -/
def text (p : Page) : Text := p.backwards.reverse

/-- Writes on in the same line. -/
def put (p : Page) (t : Text) : Page :=
  { p with backwards := t.reverse ++ p.backwards, column := p.column + t.length }

/-- A space, if the next word needs one. -/
def space (p : Page) : Page := if p.apart then p else p.put [Text.space]

/-- After a word: the next one needs a space, and blocks open on a new line. -/
def afterWord (p : Page) : Page := { p with apart := false, fresh := false }

/-- A mark directly after what is written. -/
def close (p : Page) (m : String) : Page := (p.put m).afterWord

/-- A mark as a word of its own. -/
def mark (p : Page) (m : String) : Page := p.space.close m

/-- A mark that opens a block, so that more blocks may open in the same line. -/
def openBlock (p : Page) (m : String) : Page := { p.mark m with fresh := p.fresh }

/-- Ends the line with a given break. -/
def newLine (p : Page) (br : CodePoint) : Page := ⟨br :: p.backwards, 0, true, true⟩

/-- Goes to a column: in the same line if only indentation and marks stand before it. -/
def indentTo (p : Page) (indent : Nat) : Page :=
  let p :=
    if !p.fresh || indent < p.column || (p.column = indent && !p.apart) then p.newLine Text.newline
    else p
  if p.column < indent then { p.put (Text.fill (indent - p.column) Text.space) with apart := true }
  else p

end Page

end Esolang.Yaml
