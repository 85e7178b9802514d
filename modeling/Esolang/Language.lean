/-
  File:      Esolang/Language.lean
  Subject:   A language: how its programs are read and how they take one step.

  The controller and the command line know a language only through this structure. A language says
  how a source becomes a loaded state, how a state advances, and what it shows. What is common to
  all languages is here: a fault becomes part of the step's result, a breakdown leaves the step.

  * `Machine`: a state with the draws still to come.
  * `Language`, `Language.step`: one step, giving a `Turn`.
  * `Language.run`: steps until the program ends, fails, breaks down, or a budget is used up.
-/
import Esolang.Draws
import Esolang.Source.Rejection
import Esolang.Step

namespace Esolang

/-- A state with the draws still to come. -/
structure Machine (σ : Type) where
  /-- The state. -/
  state : σ
  /-- The numbers that decide what is left to chance. -/
  draws : Draws

/-- What one step did, its effect on the state apart. -/
structure Progress where
  /-- What it wrote. -/
  output : Option Text
  /-- How the source has changed. -/
  edits : Option (List Edit)
  /-- Whether it ended the program. -/
  halted : Bool
  /-- Remarks for someone who traces the machine. -/
  notes : List Text

/-- A step that did nothing visible. -/
def Progress.quiet : Progress := ⟨none, none, false, []⟩

/-- A step that wrote something, or nothing. -/
def Progress.writing (output : Option Text) : Progress := ⟨output, none, false, []⟩

/-- A language with states of type `σ`. -/
structure Language (σ : Type) where
  /-- Its name. -/
  name : Text
  /-- The state before any program is loaded. -/
  fresh : σ
  /-- Reads a source; the program is then loaded with the user's input. -/
  read : Text → Except Refusal (Text → σ)
  /-- One step. -/
  advance : Machine σ → Attempt (Machine σ) Progress
  /-- What a state shows. -/
  display : σ → Display
  /-- Where the instruction stands that a state executes next. -/
  location : σ → Option Span

/-- What became of one step. -/
structure Turn (σ : Type) where
  /-- The result, or the breakdown that took its place. -/
  outcome : Except Breakdown StepResult
  /-- The machine afterwards. -/
  machine : Machine σ
  /-- Remarks for someone who traces the machine. -/
  notes : List Text

namespace Language

variable {σ : Type} (L : Language σ)

/-- A remark in the language's name. -/
def remark (words : Text) : Text := L.name ++ Text.ofString ": " ++ words

/-- One step: a fault becomes part of the result, which then shows the state the fault left
    behind. -/
def step (m : Machine σ) : Turn σ :=
  let attempt := L.advance m
  let state := attempt.state.state
  match attempt.outcome with
  | .ok p =>
    { outcome := .ok {
        display := L.display state
        next := if p.halted then none else L.location state
        output := p.output
        edits := p.edits
        paused := false
        error := none }
      machine := attempt.state
      notes := p.notes.map L.remark }
  | .error (.fault f) =>
    { outcome := .ok {
        display := L.display state
        next := L.location state
        output := none
        edits := none
        paused := false
        error := some f }
      machine := attempt.state
      notes := [L.remark (Text.ofString "runtime error: " ++ f.message)] }
  | .error (.breakdown b) => { outcome := .error b, machine := attempt.state, notes := [] }

/-- What the source's rejection is, if it is rejected. -/
def check (code : Text) : Except Breakdown (Option Rejection) :=
  match L.read code with
  | .ok _ => .ok none
  | .error (.rejected r) => .ok (some r)
  | .error (.broken b) => .error b

/-- The machine loaded with a program and an input. The draws go on where they were. -/
def load (m : Machine σ) (code input : Text) : Except Refusal (Machine σ) :=
  (L.read code).map fun start => { m with state := start input }

/-- The machine without a program. -/
def clear (m : Machine σ) : Machine σ := { m with state := L.fresh }

/-- Why a run of steps came to its end. -/
inductive Stop where
  /-- Nothing was left to execute. -/
  | done
  /-- The program did something wrong. -/
  | error
  /-- A step broke down. -/
  | breakdown
  /-- The budget was used up. -/
  | limit
deriving DecidableEq

/-- A run of steps. -/
structure Trace (σ : Type) where
  /-- What became of each step. -/
  outcomes : List (Except Breakdown StepResult)
  /-- Why there were no more. -/
  stop : Stop
  /-- The machine afterwards. -/
  machine : Machine σ

/-- Steps until the program ends, fails, breaks down, or the budget is used up. -/
def run : Nat → Machine σ → Trace σ
  | 0, m => ⟨[], .limit, m⟩
  | budget + 1, m =>
    let turn := L.step m
    match turn.outcome with
    | .error b => ⟨[.error b], .breakdown, turn.machine⟩
    | .ok r =>
      if r.error.isSome then ⟨[.ok r], .error, turn.machine⟩
      else if r.next.isNone then ⟨[.ok r], .done, turn.machine⟩
      else
        let rest := run budget turn.machine
        { rest with outcomes := .ok r :: rest.outcomes }

/-- A fixed number of steps, whatever becomes of them. -/
def steps : Nat → Machine σ → List (Except Breakdown StepResult) × Machine σ
  | 0, m => ([], m)
  | n + 1, m =>
    let turn := L.step m
    let (rest, last) := steps n turn.machine
    (turn.outcome :: rest, last)

end Language

end Esolang
