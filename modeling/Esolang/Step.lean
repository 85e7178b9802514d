/-
  File:      Esolang/Step.lean
  Subject:   What one step of execution shows to the host.

  * `Display`: a machine's panel, one form for each language.
  * `StepResult`: the snapshot after one step.
-/
import Esolang.Befunge.Direction
import Esolang.Chef.Kitchen
import Esolang.Failure
import Esolang.Source.Span

namespace Esolang

/-- What a machine shows of its state. Stacks have their top first. -/
inductive Display where
  /-- The names of the calls under way, the outermost first, and the kitchen of the innermost. -/
  | chef (calls : List Text) (kitchen : Chef.Kitchen)
  /-- The value stack, the direction of travel, and whether characters are read as data. -/
  | befunge (stack : List Int) (direction : Befunge.Direction) (stringMode : Bool)
  /-- The cells that were used, in the order of their first use, and the pointer. -/
  | brainfuck (tape : Table Int Int) (pointer : Int)
  /-- The accumulator. -/
  | deadfish (value : Int)
deriving DecidableEq

/-- The snapshot after one step. -/
structure StepResult where
  /-- The machine's panel. -/
  display : Display
  /-- Where the instruction stands that comes next; none when nothing is left to execute. -/
  next : Option Span
  /-- What the step wrote. -/
  output : Option Text
  /-- How the host has to change its copy of the source. -/
  edits : Option (List Edit)
  /-- Whether execution pauses after this step. -/
  paused : Bool
  /-- What the program did wrong in this step. -/
  error : Option Fault
deriving DecidableEq

namespace StepResult

/-- Whether nothing is left to execute. -/
def finished (r : StepResult) : Bool := r.next.isNone

/-- The same snapshot, marked as the one execution pauses at. -/
def markPaused (r : StepResult) : StepResult := { r with paused := true }

/-- What the step wrote, nothing included. -/
def written (r : StepResult) : Text := r.output.getD []

end StepResult

end Esolang
