/-
  File:      Esolang/Number/Limit.lean
  Subject:   The length limit on decimal numbers.

  A number is written in decimal, and a row of digits is read, only up to 4300 digits. Leading zeros
  count, the sign does not.

  * `Decimal.print`: an integer in decimal, unless it is too long.
  * `Decimal.read`: the number that a row of digit values spells, unless it is too long.
-/
import Esolang.Failure

namespace Esolang.Decimal

/-- The greatest number of decimal digits that is written or read. -/
def limit : Nat := 4300

/-- Whether an integer has more decimal digits than are written. -/
def isLong (n : Int) : Bool := Nat.pow 10 limit ≤ n.natAbs

/-- An integer in decimal, unless it is too long. -/
def print (n : Int) : Except Breakdown Text :=
  if isLong n then .error .longNumber else .ok (ofInt n)

/-- The number that a row of digit values spells, unless the row is too long. -/
def read (digits : List Nat) : Except Breakdown Nat :=
  if limit < digits.length then .error (.longNumeral digits.length) else .ok (value digits)

/-- The code point a number stands for: the number must fit a signed 32 bit word before it is looked
    up in the code space. -/
def character (n : Int) : Except Breakdown CodePoint :=
  match CodePoint.ofInt? n with
  | some c => .ok c
  | none => if -2147483648 ≤ n ∧ n ≤ 2147483647 then .error .beyondCodeSpace else .error .beyondWord

/-- Why a number is no character code. The words for it name the number, so a number too long to be
    written breaks down instead. -/
def noCharacter (n : Int) : Failure :=
  if isLong n then .breakdown .longNumber else .fault (.characterCode n)

end Esolang.Decimal
