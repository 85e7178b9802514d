/-
  File:      Esolang/Cli/Batch.lean
  Subject:   Running a program to its end and telling how it ended.

  The exit status is 0 for a program that ends, 1 for one that fails, and 2 for one that is stopped
  because it has made too many steps.

  * `Batch`: a run in progress.
  * `Batch.advance`: one step of it.
  * `Batch.finish`: all of it.
-/
import Esolang.Cli.Invocation
import Esolang.Controller.Run

namespace Esolang.Cli

/-- How a program is to be run. -/
structure BatchSettings where
  /-- The most steps, 0 for any number. -/
  stepLimit : Int
  /-- The format in which the last result is written at the end. -/
  dump : Option Format
  /-- Whether remarks are shown. -/
  traced : Bool

/-- A run in progress. -/
structure Batch (σ : Type) where
  /-- The controller. -/
  controller : Controller σ
  /-- The run. -/
  run : Run
  /-- How many steps were made. -/
  steps : Nat
  /-- The latest output that was not empty. -/
  tail : Text
  /-- The latest result. -/
  last : Option StepResult

/-- What comes next: more steps, or the end. -/
inductive Next (α : Type) where
  /-- There is more to do. -/
  | more (state : α)
  /-- This was all. -/
  | ended (how : Ending)

namespace Batch

variable {σ : Type} (L : Language σ) (settings : BatchSettings)

/-- A run of a program that is ready. -/
def start (c : Controller σ) : Batch σ := ⟨c, .unstarted, 0, [], none⟩

/-- Whether a result is the last one that the step limit allows although there would be more. -/
def reachesLimit (steps : Nat) (r : StepResult) : Bool :=
  settings.stepLimit ≠ 0 && settings.stepLimit ≤ steps && r.next.isSome

/-- The last result in the format that was asked for. -/
def dumpLines (last : Option StepResult) : Except Breakdown Transcript :=
  match settings.dump, last with
  | some f, some r => do
    let message ← r.message
    let t ← message.write f true
    pure [outLine t]
  | _, _ => .ok []

/-- The exit status and the complaint that goes with it. -/
def verdict (b : Batch σ) : Transcript × Nat :=
  if settings.stepLimit ≠ 0 && b.controller.status = .idle then
    ([errorLine (Text.ofString "step limit of " ++ Decimal.ofInt settings.stepLimit
      ++ Text.ofString " exceeded")], 2)
  else
    match b.last.bind (·.error) with
    | some f => ([errLine f.report], 1)
    | none => ([], 0)

/-- What is written when a run has ended. The last line of the program's output is always ended. -/
def conclude (b : Batch σ) : Transcript × Ending :=
  let lineEnd : Transcript :=
    if !b.tail.isEmpty && !b.tail.endsWith [Text.newline] then [outLine []] else []
  match dumpLines settings b.last with
  | .error why => (lineEnd, .troubled (.breakdown why))
  | .ok dump =>
    let (complaint, status) := b.verdict settings
    (lineEnd ++ dump ++ complaint, .exit status)

/-- One step of a run. -/
def advance (b : Batch σ) : Transcript × Next (Batch σ) :=
  let reply := b.controller.advance L b.run
  let notes := traceLines settings.traced reply.notes
  let b := { b with controller := reply.controller, run := reply.answer.2 }
  match reply.answer.1 with
  | .trouble t => (notes, .ended (.troubled t))
  | .ended =>
    let (lines, how) := b.conclude settings
    (notes ++ lines, .ended how)
  | .result r =>
    let b := { b with
      steps := b.steps + 1
      tail := if r.written.isEmpty then b.tail else r.written
      last := some r }
    if reachesLimit settings b.steps r then
      let stopped := b.controller.stop L
      (notes ++ out r.written :: traceLines settings.traced stopped.notes,
        .more { b with controller := stopped.controller })
    else (notes ++ [out r.written], .more b)

/-- A run to its end, unless it takes more than `budget` steps; it is then given up. -/
def finish : Nat → Batch σ → Transcript × Option Ending
  | 0, _ => ([], none)
  | budget + 1, b =>
    match b.advance L settings with
    | (lines, .ended how) => (lines, some how)
    | (lines, .more b) =>
      let (rest, how) := finish budget b
      (lines ++ rest, how)

end Batch

end Esolang.Cli
