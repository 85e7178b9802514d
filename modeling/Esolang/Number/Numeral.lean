/-
  File:      Esolang/Number/Numeral.lean
  Subject:   Integers as people type them.

  A typed integer may have blanks around it, a sign, digits of any script, and single underscores
  between its digits.

  * `Numeral.read`: the integer that a text spells, or why there is none.
-/
import Esolang.Number.Limit
import Esolang.Text.Blank
import Esolang.Text.Digit
import Esolang.Text.Quoted

namespace Esolang.Numeral

/-- Why a text spells no integer. -/
inductive Flaw where
  /-- It is not written as an integer is. -/
  | notANumber (given : Text)
  /-- It has too many digits. -/
  | broken (why : Breakdown)
deriving DecidableEq

/-- How much of a text that is no integer is shown. -/
def shownLength : Nat := 200

/-- The words for a flaw. -/
def Flaw.message : Flaw → Text
  | .notANumber given =>
    Text.ofString "invalid literal for int() with base 10: " ++ given.quoted.take shownLength
  | .broken why => why.message

/-- The blanks that may stand around an integer: all but the four separators of the ASCII
    controls. -/
def isMargin (c : CodePoint) : Bool := c.isBlank && !(0x1C ≤ c.val && c.val ≤ 0x1F)

/-- Whether a text begins with a minus, and what follows its sign. -/
def splitSign : Text → Bool × Text
  | [] => (false, [])
  | c :: cs => if c = '-' then (true, cs) else if c = '+' then (false, cs) else (false, c :: cs)

/-- What can stand between the first and the last digit. -/
def isInner (c : CodePoint) : Bool := c.isDigit || c = '_'

/-- Whether underscores stand only between two digits. -/
def isWellSpaced (row : Text) : Bool :=
  match row with
  | [] => false
  | _ => (Text.splitOn '_' row).all (!·.isEmpty)

/-- The integer that a text spells. Too many digits are noticed before anything that follows
    them. -/
def read (t : Text) : Except Flaw Int :=
  let (negative, body) := splitSign (t.dropWhile isMargin)
  let row := body.takeWhile isInner
  let rest := body.dropWhile isInner
  if isWellSpaced row then
    match Decimal.read (row.filterMap CodePoint.digit?) with
    | .error why => .error (.broken why)
    | .ok n =>
      if rest.all isMargin then .ok (if negative then -n else n) else .error (.notANumber t)
  else .error (.notANumber t)

end Esolang.Numeral
