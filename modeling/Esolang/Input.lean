/-
  File:      Esolang/Input.lean
  Subject:   The user's input, read number by number or character by character.

  * `Input.number`: leading blanks are skipped, then a row of digits is read.
  * `Input.character`: one code point, if any is left.

  A failed attempt to read a number has skipped the blanks; a row of digits that is too long has
  been read all the same.
-/
import Esolang.Number.Limit
import Esolang.Text.Blank

namespace Esolang.Input

/-- The value of a row of digits `0` to `9`. -/
def digitValues (digits : Text) : List Nat := digits.map (·.val - 48)

/-- Reads a number: blanks are skipped, then the longest row of digits is taken. -/
def number (t : Text) : Attempt Text Nat :=
  let text := t.trimStart
  match text with
  | [] => .fault .inputEnded []
  | c :: _ =>
    if c.isAsciiDigit then
      let rest := text.dropWhile CodePoint.isAsciiDigit
      match Decimal.read (digitValues (text.takeWhile CodePoint.isAsciiDigit)) with
      | .ok n => .ok n rest
      | .error b => .breakdown b rest
    else .fault (.notADigit c) text

/-- Takes one code point, if any is left. -/
def character : Text → Option CodePoint × Text
  | [] => (none, [])
  | c :: rest => (some c, rest)

/-- What a read character counts as: its number, or -1 at the end of the input. -/
def code : Option CodePoint → Int
  | some c => c.val
  | none => -1

end Esolang.Input
