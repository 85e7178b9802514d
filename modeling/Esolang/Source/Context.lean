/-
  File:      Esolang/Source/Context.lean
  Subject:   The lines of a source around a place, numbered and marked.

  The lines near a span are shown with their numbers, counted from one. The span's first line is
  marked, and its columns are underlined on a row of their own.

  * `Context.around`: the lines within a radius of a span.
  * `Context.window`: the same for a radius that may be negative, which leaves no line to show.
-/
import Esolang.Failure
import Esolang.Source.Span
import Esolang.Text.Lines

namespace Esolang.Context

/-- The radius within which errors show their source. -/
def usualRadius : Nat := 2

/-- A text with spaces before it up to a width. -/
def alignRight (width : Nat) (t : Text) : Text := Text.fill (width - t.length) ' ' ++ t

/-- One numbered line. -/
def numbered (width row idx : Nat) (line : Text) : Text :=
  (if idx = row then Text.ofString "> " else Text.ofString "  ")
    ++ alignRight width (Decimal.ofNat (idx + 1)) ++ Text.ofString " | " ++ line

/-- The row that underlines a span's columns on its first line. -/
def underline (width : Nat) (span : Span) (first : Int) (line : Text) : Text :=
  let past := span.endCol.getD line.length
  Text.ofString "  " ++ Text.fill width ' ' ++ Text.ofString " | "
    ++ Text.fill first.toNat ' ' ++ Text.fill (max (past - first) 1).toNat '^'

/-- A numbered line, and the underlining below the marked one. -/
def rows (width row : Nat) (span : Span) (idx : Nat) (line : Text) : List Text :=
  numbered width row idx line ::
    match span.startCol with
    | some first => if idx = row then [underline width span first line] else []
    | none => []

/-- The lines of a source within a radius of a span; nothing when the span begins outside it. -/
def around (source : Text) (span : Span) (radius : Nat) : Text :=
  let lines := source.displayLines
  match span.startLine with
  | .negSucc _ => []
  | .ofNat row =>
    if row < lines.length then
      let first := row - radius
      let past := min lines.length (row + radius + 1)
      let width := (Decimal.ofNat past).length
      let shown := (lines.zipIdx.take past).drop first
      Text.join [Text.newline] (shown.flatMap fun (line, idx) => rows width row span idx line)
    else []

/-- The lines around a span for any radius: a negative one leaves no line to take the width from. -/
def window (source : Text) (span : Span) (radius : Int) : Except Breakdown Text :=
  if radius < 0 ∧ 0 ≤ span.startLine ∧ span.startLine < source.displayLines.length then
    .error .emptyWindow
  else .ok (around source span radius.toNat)

end Esolang.Context
