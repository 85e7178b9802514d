/-
  File:      Esolang/Number/Double.lean
  Subject:   Integers rounded to doubles, and the remainder of two of them.

  A double has 53 significant bits and lies below 2^1024 in magnitude. An integer is rounded to the
  nearest one, a tie going to the even mantissa; the remainder of two doubles is exact.

  * `Double.ofNat`: the nearest number of at most 53 significant bits.
  * `Double.ofInt?`: the nearest double to an integer, if it is finite.
  * `Double.remainder?`: the remainder of two integers after both were rounded.
-/
namespace Esolang.Double

/-- The number of significant bits. -/
def precision : Nat := 53

/-- The binary exponent that no finite double reaches. -/
def exponentLimit : Nat := 1024

/-- The nearest number of at most 53 significant bits; of two equally near ones the one with the
    even mantissa. -/
def ofNat (n : Nat) : Nat :=
  let unit := Nat.pow 2 (n.log2 + 1 - precision)
  let mantissa := n / unit
  let excess := n % unit
  if unit < 2 * excess ∨ (2 * excess = unit ∧ mantissa % 2 = 1) then (mantissa + 1) * unit
  else mantissa * unit

/-- The nearest double to an integer, if it is finite. -/
def ofInt? (n : Int) : Option Int :=
  let magnitude := ofNat n.natAbs
  if magnitude.log2 < exponentLimit then some (n.sign * magnitude) else none

/-- The remainder of `b` by `a` after both were rounded to doubles. It has the sign of `b`. -/
def remainder? (b a : Int) : Option Int :=
  match ofInt? b, ofInt? a with
  | some b', some a' => some (Int.tmod b' a')
  | _, _ => none

end Esolang.Double
