/-
  File:      Esolang/Deadfish.lean
  Subject:   Deadfish: one accumulator and four commands.

  The accumulator falls back to zero whenever a command leaves it at -1 or 256. Everything that is
  no command is skipped, so every text is a program.
-/
import Esolang.Language
import Esolang.Number.Limit

namespace Esolang.Deadfish

/-! ## 1. Programs -/

/-- The commands. -/
inductive Command where
  | increment
  | decrement
  | square
  | output
deriving DecidableEq

/-- The command a code point stands for. -/
def Command.ofCodePoint? (c : CodePoint) : Option Command :=
  match c.char? with
  | some 'i' => some .increment
  | some 'd' => some .decrement
  | some 's' => some .square
  | some 'o' => some .output
  | _ => none

/-- The letter of a command. -/
def Command.letter : Command → CodePoint
  | .increment => 'i'
  | .decrement => 'd'
  | .square => 's'
  | .output => 'o'

/-- The commands of a source, in reading order. -/
def program (code : Text) : List (Placed Command) := placed Command.ofCodePoint? code

/-! ## 2. The machine -/

/-- A loaded program, its accumulator, and where it stands. -/
structure State where
  /-- The commands. -/
  program : List (Placed Command)
  /-- The accumulator. -/
  value : Int
  /-- The place of the next command; none until the first step has gone there. -/
  position : Option Nat

/-- The state before any program is loaded. -/
def State.fresh : State := ⟨[], 0, none⟩

/-- The accumulator falls back to zero at -1 and 256. -/
def settle (n : Int) : Int := if n = -1 ∨ n = 256 then 0 else n

/-- The accumulator after a command, and what the command writes. -/
def apply (value : Int) : Command → Except Breakdown (Int × Option Text)
  | .increment => .ok (settle (value + 1), none)
  | .decrement => .ok (settle (value - 1), none)
  | .square => .ok (settle (value * value), none)
  | .output => (Decimal.print value).map fun t => (value, some t)

/-- One step: the first one only goes to the first command. -/
def advance (s : State) : Attempt State Progress :=
  match s.position with
  | none => .ok .quiet { s with position := some 0 }
  | some p =>
    match s.program[p]? with
    | none => .breakdown .nothingThere s
    | some command =>
      match apply s.value command.item with
      | .ok (value, output) => .ok (.writing output) { s with value, position := some (p + 1) }
      | .error b => .breakdown b s

/-- Where the next command stands. -/
def location (s : State) : Option Span := (s.position.bind (s.program[·]?)).map Placed.span

/-- The language. -/
def language : Language State where
  name := "deadfish"
  fresh := .fresh
  read code := .ok fun _ => { State.fresh with program := program code }
  advance m := (advance m.state).lift ({ m with state := · })
  display s := .deadfish s.value
  location := location

end Esolang.Deadfish
