/-
  File:      Esolang/Befunge/Instruction.lean
  Subject:   The instructions of Befunge-93 and the characters that stand for them.
-/
import Esolang.Befunge.Direction

namespace Esolang.Befunge

/-- The instructions. -/
inductive Instruction where
  /-- Push a digit. -/
  | digit (value : Nat)
  /-- Do nothing. -/
  | noop
  /-- Sum of the two topmost values. -/
  | add
  /-- Difference of the two topmost values. -/
  | subtract
  /-- Product of the two topmost values. -/
  | multiply
  /-- Quotient of the two topmost values, rounded down. -/
  | divide
  /-- Remainder of the two topmost values. -/
  | remainder
  /-- Whether the top is zero. -/
  | negate
  /-- Whether the second value is greater than the top. -/
  | greater
  /-- Travel in a direction from now on. -/
  | turn (direction : Direction)
  /-- Travel in a direction left to chance. -/
  | turnRandomly
  /-- Travel right if the top is zero, else left. -/
  | branchHorizontally
  /-- Travel down if the top is zero, else up. -/
  | branchVertically
  /-- Begin or end reading cells as data. -/
  | toggleString
  /-- Double the top. -/
  | duplicate
  /-- Exchange the two topmost values. -/
  | swap
  /-- Drop the top. -/
  | discard
  /-- Write the top as a number. -/
  | writeNumber
  /-- Write the top as a character. -/
  | writeCharacter
  /-- Pass over the next cell. -/
  | bridge
  /-- Push a cell's code. -/
  | get
  /-- Write a cell. -/
  | put
  /-- Read a number. -/
  | readNumber
  /-- Read a character. -/
  | readCharacter
  /-- End the program. -/
  | stop
deriving DecidableEq

/-- The instruction a code point stands for. -/
def Instruction.ofCodePoint? (c : CodePoint) : Option Instruction :=
  if c.isAsciiDigit then some (.digit (c.val - 48))
  else
    match c.char? with
    | some ' ' => some .noop
    | some '+' => some .add
    | some '-' => some .subtract
    | some '*' => some .multiply
    | some '/' => some .divide
    | some '%' => some .remainder
    | some '!' => some .negate
    | some '\x60' => some .greater
    | some '>' => some (.turn .right)
    | some '<' => some (.turn .left)
    | some '^' => some (.turn .up)
    | some 'v' => some (.turn .down)
    | some '?' => some .turnRandomly
    | some '_' => some .branchHorizontally
    | some '|' => some .branchVertically
    | some '"' => some .toggleString
    | some ':' => some .duplicate
    | some '\\' => some .swap
    | some '$' => some .discard
    | some '.' => some .writeNumber
    | some ',' => some .writeCharacter
    | some '#' => some .bridge
    | some 'g' => some .get
    | some 'p' => some .put
    | some '&' => some .readNumber
    | some '~' => some .readCharacter
    | some '@' => some .stop
    | _ => none

end Esolang.Befunge
