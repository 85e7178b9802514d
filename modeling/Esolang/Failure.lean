/-
  File:      Esolang/Failure.lean
  Subject:   What can go wrong while a program runs, and the words for it.

  Two kinds are kept apart. A `Fault` is the program's own doing: it is part of the step's result
  and the host shows it. A `Breakdown` leaves the step instead of a result.

  * `Fault`, `Breakdown`: the causes, each with its `message`.
  * `Failure`: either of them.
  * `Attempt`: what trying something leaves behind, an answer or a failure, and the state in both
    cases.
-/
import Esolang.Number.Decimal
import Esolang.Text.Quoted

namespace Esolang

/-! ## 1. Faults -/

/-- What a running program can do that its language forbids. -/
inductive Fault where
  /-- A number was asked for and only blanks were left of the input. -/
  | inputEnded
  /-- A number was asked for where the input does not go on with a digit. -/
  | notADigit (found : CodePoint)
  /-- A move to the left of the first tape cell. -/
  | tapeStart
  /-- A playfield cell that is no instruction. -/
  | notAnInstruction
  /-- A division or remainder by zero on the playfield's stack. -/
  | zeroDivisor
  /-- A number that no code point has. -/
  | characterCode (code : Int)
  /-- A playfield access outside the field. -/
  | outsideField
  /-- An ingredient the recipe does not list. -/
  | noIngredient (name : Text)
  /-- An ingredient that has no value yet. -/
  | noValue (name : Text)
  /-- Something was to be taken from an empty mixing bowl. -/
  | emptyBowl (bowl : Int)
  /-- A bowl's top was to be divided by an ingredient of value zero. -/
  | zeroIngredient
deriving DecidableEq

/-- The words for a fault. -/
def Fault.message : Fault → Text
  | .inputEnded => "Unexpected end of input"
  | .notADigit found =>
    Text.ofString "Unexpected input character: '" ++ [found] ++ Text.ofString "'"
  | .tapeStart => "Tape pointer out of bounds"
  | .notAnInstruction => "Invalid instruction"
  | .zeroDivisor => "cannot divide by zero"
  | .characterCode code => Text.ofString "Invalid character code: " ++ Decimal.ofInt code
  | .outsideField => "Coordinates out of bounds"
  | .noIngredient name =>
    Text.ofString "Ingredient '" ++ name ++ Text.ofString "' does not exist"
  | .noValue name => Text.ofString "Ingredient '" ++ name ++ Text.ofString "' is undefined"
  | .emptyBowl bowl => Text.ofString "Bowl " ++ Decimal.ofInt bowl ++ Text.ofString " is empty"
  | .zeroIngredient => "Cannot divide by zero"

/-- A fault as the host shows it. -/
def Fault.report (f : Fault) : Text := Text.ofString "RuntimeError: " ++ f.message

/-! ## 2. Breakdowns -/

/-- What ends a step without a result. -/
inductive Breakdown where
  /-- A number has too many digits to be written. -/
  | longNumber
  /-- A row of this many digits is too long to be read. -/
  | longNumeral (digits : Nat)
  /-- A number is too large for a double. -/
  | beyondDouble
  /-- A number lies outside the code space. -/
  | beyondCodeSpace
  /-- A number does not even fit a signed 32 bit word. -/
  | beyondWord
  /-- A place in a stack does not fit a signed 64 bit word. -/
  | beyondPlace
  /-- There is nothing at the place the machine stands at. -/
  | nothingThere
  /-- No line of a text would be shown. -/
  | emptyWindow
  /-- A recipe at its end has no line that says how many it serves. -/
  | noServings
  /-- A recipe is called that the program does not have. -/
  | noRecipe (name : Text)
  /-- A value of some kind was asked for a part that only other kinds have. -/
  | lacking (kind part : Text)
  /-- The machine is in a state it should never be in. -/
  | unexpected (detail : Text)
deriving DecidableEq

/-- The words for an inconsistency; the detail is left out when there is none. -/
def unexpectedMessage (detail : Text) : Text :=
  if detail.isEmpty then "Something unexpected occurred"
  else Text.ofString "Something unexpected occurred: " ++ detail

/-- The words for a breakdown. -/
def Breakdown.message : Breakdown → Text
  | .longNumber =>
    Text.ofString "Exceeds the limit (4300 digits) for integer string conversion; "
      ++ Text.ofString "use sys.set_int_max_str_digits() to increase the limit"
  | .longNumeral digits =>
    Text.ofString "Exceeds the limit (4300 digits) for integer string conversion: value has "
      ++ Decimal.ofNat digits
      ++ Text.ofString " digits; use sys.set_int_max_str_digits() to increase the limit"
  | .beyondDouble => "int too large to convert to float"
  | .beyondCodeSpace => "chr() arg not in range(0x110000)"
  | .beyondWord => "Python int too large to convert to C int"
  | .beyondPlace => "Python int too large to convert to C ssize_t"
  | .nothingThere => "list index out of range"
  | .emptyWindow => "range object index out of range"
  | .noServings => "'NoneType' object has no attribute 'num'"
  | .noRecipe name => name.quoted
  | .lacking kind part =>
    Text.ofString "'" ++ kind ++ Text.ofString "' object has no attribute '" ++ part ++
      Text.ofString "'"
  | .unexpected detail => unexpectedMessage detail

/-! ## 3. Failures and attempts -/

/-- Either kind of failure. -/
inductive Failure where
  /-- The program's own doing. -/
  | fault (cause : Fault)
  /-- The step cannot give a result. -/
  | breakdown (cause : Breakdown)
deriving DecidableEq

/-- What trying something leaves behind: an answer or a failure, and in both cases a state. -/
structure Attempt (σ α : Type) where
  /-- The answer, or why there is none. -/
  outcome : Except Failure α
  /-- The state afterwards. -/
  state : σ

namespace Attempt

/-- An attempt that worked. -/
def ok {σ α : Type} (a : α) (s : σ) : Attempt σ α := ⟨.ok a, s⟩

/-- An attempt that failed through the program's own doing. -/
def fault {σ α : Type} (f : Fault) (s : σ) : Attempt σ α := ⟨.error (.fault f), s⟩

/-- An attempt that broke down. -/
def breakdown {σ α : Type} (b : Breakdown) (s : σ) : Attempt σ α := ⟨.error (.breakdown b), s⟩

/-- An attempt with its state seen as a part of a larger one. -/
def lift {σ τ α : Type} (a : Attempt σ α) (f : σ → τ) : Attempt τ α := ⟨a.outcome, f a.state⟩

/-- A further attempt after one that worked. -/
def andThen {σ α β : Type} (a : Attempt σ α) (f : α → σ → Attempt σ β) : Attempt σ β :=
  match a.outcome with
  | .ok x => f x a.state
  | .error e => ⟨.error e, a.state⟩

end Attempt

end Esolang
