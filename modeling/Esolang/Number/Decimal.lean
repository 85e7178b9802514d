/-
  File:      Esolang/Number/Decimal.lean
  Subject:   Numbers in decimal: writing them, and the value of a row of digits.

  * `Decimal.ofNat`, `Decimal.ofInt`: a number written with the digits `0` to `9`, without a limit.
  * `Decimal.value`: what a row of digit values spells, most significant first.
-/
import Esolang.Text.CodePoint

namespace Esolang.Decimal

/-- A natural number in decimal. -/
def ofNat (n : Nat) : Text := (Nat.toDigits 10 n).map CodePoint.ofChar

/-- An integer in decimal, a negative one with a minus sign. -/
def ofInt : Int → Text
  | .ofNat n => ofNat n
  | .negSucc n => ('-' : CodePoint) :: ofNat (n + 1)

/-- The number that a row of digit values spells, most significant first. -/
def value (digits : List Nat) : Nat := digits.foldl (fun acc d => acc * 10 + d) 0

/-- A number in hexadecimal with small letters and at least `least` digits. -/
def hex (least n : Nat) : Text :=
  let digits : Text := (Nat.toDigits 16 n).map CodePoint.ofChar
  Text.fill (least - digits.length) '0' ++ digits

end Esolang.Decimal
