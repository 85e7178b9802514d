/-
  File:      Esolang/Chef/Method.lean
  Subject:   Reading the method of a recipe: statements with resolved loops.

  The method is a paragraph of statements that end in periods. Every beginning of a loop learns the
  place of its end, every end the place of its beginning, and every `Set aside` the end of the
  innermost loop around it.

  * `segments`: the statements of a line with their places; what follows the last period is dropped.
  * `Draft.add`: one more operation at the end, with the loops still open kept innermost first.
  * `method`: the steps of a whole paragraph.
-/
import Esolang.Chef.Statement
import Esolang.Source.Rejection

namespace Esolang.Chef

/-! ## 1. Statements and their places -/

/-- The statements of a line from column `idx` on, where the statement begun at column `start` has
    the given code points so far, the last first. -/
def segmentsFrom (row start idx : Nat) (begun : Text) : Text → List (Text × Span)
  | [] => []
  | c :: cs =>
    if c = '.' then
      (Text.trim begun.reverse, .within row start idx) :: segmentsFrom row (idx + 1) (idx + 1) [] cs
    else segmentsFrom row start (idx + 1) (c :: begun) cs

/-- The statements of a line, trimmed, with their places. -/
def segments (row : Nat) (line : Text) : List (Text × Span) := segmentsFrom row 0 0 [] line

/-! ## 2. Resolving loops -/

/-- A loop whose end has not come yet. -/
structure OpenLoop where
  /-- The place of its beginning. -/
  opener : Nat
  /-- The verb it began with. -/
  verb : Text
  /-- The places of the `Set aside` statements that leave it. -/
  asides : List Nat
deriving DecidableEq

/-- A method as read so far. -/
structure Draft where
  /-- Its steps; a loop still open has no place for its end yet. -/
  steps : List Step
  /-- The loops still open, innermost first. -/
  loops : List OpenLoop
deriving DecidableEq

/-- The operation with the end of its loop filled in. -/
def Operation.closeAt (closer : Nat) : Operation → Operation
  | .loopStart verb i _ => .loopStart verb i (some closer)
  | .setAside _ => .setAside (some closer)
  | op => op

/-- The step with the end of its loop filled in. -/
def Step.closeAt (closer : Nat) (s : Step) : Step :=
  { s with operation := s.operation.closeAt closer }

/-- The steps with the end of a loop filled in at the given places. -/
def closeLoop (closer : Nat) (places : List Nat) (steps : List Step) : List Step :=
  places.foldl (fun acc p => acc.modify p (Step.closeAt closer)) steps

/-- One more operation at the end. -/
def Draft.add (d : Draft) (op : Operation) (span : Span) : Except SyntaxError Draft :=
  let here := d.steps.length
  match op with
  | .loopStart verb _ _ => .ok ⟨d.steps ++ [⟨op, span⟩], ⟨here, verb, []⟩ :: d.loops⟩
  | .setAside _ =>
    match d.loops with
    | [] => .error .asideOutsideLoop
    | inner :: outer =>
      .ok ⟨d.steps ++ [⟨op, span⟩], { inner with asides := inner.asides ++ [here] } :: outer⟩
  | .loopEnd verb i _ =>
    match d.loops with
    | [] => .error .endWithoutStart
    | inner :: outer =>
      if closes inner.verb verb then
        .ok ⟨closeLoop here (inner.opener :: inner.asides) d.steps
          ++ [⟨.loopEnd verb i (some inner.opener), span⟩], outer⟩
      else .error (.verbMismatch (pastTense inner.verb) verb)
  | op => .ok ⟨d.steps ++ [⟨op, span⟩], d.loops⟩

/-- One more statement at the end. -/
def Draft.addStatement (d : Draft) (statement : Text × Span) : Except Refusal Draft :=
  match Operation.ofStatement statement.1 with
  | .error (.wrong e) => .error (.rejected ⟨e.message, statement.2⟩)
  | .error (.broken b) => .error (.broken b)
  | .ok op =>
    match d.add op statement.2 with
    | .error e => .error (.rejected ⟨e.message, statement.2⟩)
    | .ok d' => .ok d'

/-- All statements, one after another. -/
def Draft.addAll (d : Draft) : List (Text × Span) → Except Refusal Draft
  | [] => .ok d
  | s :: rest =>
    match d.addStatement s with
    | .ok d' => d'.addAll rest
    | .error e => .error e

/-- The words for a loop that never ends. -/
def endlessMessage : Text := "Loop is never closed"

/-- A draft is a method when no loop is open; otherwise the innermost open one is at fault. -/
def Draft.finish (d : Draft) : Except Refusal (List Step) :=
  match d.loops with
  | [] => .ok d.steps
  | inner :: _ =>
    match d.steps[inner.opener]? with
    | some s => .error (.rejected ⟨endlessMessage, s.span⟩)
    | none => .ok d.steps

/-- The steps of a paragraph of statements. -/
def method (statements : List (Text × Span)) : Except Refusal (List Step) :=
  match (Draft.mk [] []).addAll statements with
  | .ok d => d.finish
  | .error e => .error e

end Esolang.Chef
