/-
  File:      Esolang/Source/Rejection.lean
  Subject:   Why a source is not a program.

  * `Rejection`: a message and the place it is about, with `Rejection.report`.
  * `Refusal`: a source is rejected, or reading it breaks down.
-/
import Esolang.Source.Context

namespace Esolang

/-- A source is no program: what is wrong with it, and where. -/
structure Rejection where
  /-- The words for it. -/
  message : Text
  /-- The place it is about. -/
  span : Span
deriving DecidableEq

/-- The rejection in one line, with line and column counted from one. -/
def Rejection.headline (r : Rejection) : Text :=
  let col : Text :=
    match r.span.startCol with
    | some c => Text.ofString ", col " ++ Decimal.ofInt (c + 1)
    | none => []
  Text.ofString "ParseError: " ++ r.message ++ Text.ofString " (line "
    ++ Decimal.ofInt (r.span.startLine + 1) ++ col ++ Text.ofString ")"

/-- The rejection with the source around its place below it, as far as there is any. -/
def Rejection.report (r : Rejection) (source : Text) : Text :=
  let context := Context.around source r.span Context.usualRadius
  if context.isEmpty then r.headline else r.headline ++ [Text.newline] ++ context

/-- Why no program could be read. -/
inductive Refusal where
  /-- The source is rejected. -/
  | rejected (why : Rejection)
  /-- Reading it breaks down. -/
  | broken (why : Breakdown)
deriving DecidableEq

end Esolang
