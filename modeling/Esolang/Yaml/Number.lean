/-
  File:      Esolang/Yaml/Number.lean
  Subject:   The numbers that words of a YAML document spell.

  Underscores in a number do not count. A whole number begins with `0b` in base 2, with `0x` in base
  16 and with `0` in base 8. A number may be written in groups with colons between them; each group
  counts sixtieths of the one before it. A number with a point is kept as it is written, with at
  least one digit on either side of the point.

  * `wholeValue`: the integer that a word spells.
  * `decimalValue`: the number with a point that a word spells.
-/
import Esolang.Number.Numeral
import Esolang.Text.Blank
import Esolang.Value.Plain
import Esolang.Yaml.Place

namespace Esolang.Yaml

/-! ## 1. Whole numbers -/

/-- The integer that digits of a base other than ten spell. `given` is what is shown if there is
    none. -/
def basedValue (base : Nat) (given digits : Text) : Except ReadError Int :=
  match digits.mapM fun c => c.hexDigit?.bind fun d => if d < base then some d else none with
  | some (d :: ds) => .ok (Int.ofNat ((d :: ds).foldl (fun acc d => acc * base + d) 0))
  | _ => .error (.notWhole base given)

/-- The integer that decimal digits spell. -/
def decimalDigits (t : Text) : Except ReadError Int :=
  match Numeral.read t with
  | .ok n => .ok n
  | .error (.notANumber given) => .error (.notWhole 10 given)
  | .error (.broken why) => .error (.broken why)

/-- The integer that a word spells without its sign. -/
def unsignedValue (t : Text) : Except ReadError Int :=
  match Text.after? "0b" t, Text.after? "0x" t, t with
  | some digits, _, _ => basedValue 2 digits digits
  | none, some digits, _ => basedValue 16 digits digits
  | none, none, [] => .error .noDigits
  | none, none, c :: cs =>
    if c = '0' then
      if cs.isEmpty then .ok 0
      else basedValue 8 (c :: cs) (((Text.after? "o" cs).orElse fun _ => Text.after? "O" cs).getD
        (c :: cs))
    else if t.contains ':' then do
      let groups ← (Text.splitOn ':' t).mapM decimalDigits
      pure (groups.foldl (fun acc n => acc * 60 + n) 0)
    else decimalDigits t

/-- The integer that a word spells. -/
def wholeValue (t : Text) : Except ReadError Int :=
  let (negative, body) := splitSign (t.filter (!isBar ·))
  (unsignedValue body).map fun n => if negative then -n else n

/-! ## 2. Numbers with a point -/

/-- The parts of a number with a point: its sign, digits before the point and after it, and an
    exponent with its mark. -/
structure DecimalParts where
  /-- Whether it has a minus. -/
  negative : Bool
  /-- The digits before the point. -/
  whole : Text
  /-- The digits after the point. -/
  fraction : Text
  /-- The exponent with its mark. -/
  exponent : Text

/-- Digits of all scripts as ASCII digits. -/
def plainDigits (t : Text) : Text :=
  t.map fun c => ((c.digit?.map (· + 48)).bind CodePoint.ofNat?).getD c

/-- A text without the blanks around it. -/
def withoutMargins (t : Text) : Text :=
  ((t.dropWhile CodePoint.isBlank).reverse.dropWhile CodePoint.isBlank).reverse

/-- The exponent of a number with its mark, or nothing. -/
def exponentPart? (t : Text) : Option Text :=
  match t with
  | [] => some []
  | e :: rest =>
    let digits := (splitSign rest).2
    if e = 'e' && !digits.isEmpty && digits.all CodePoint.isAsciiDigit then some t else none

/-- The parts of a number; the point and one of its sides may be missing. -/
def decimalParts? (t : Text) : Option DecimalParts := do
  let (negative, t) := splitSign (plainDigits (withoutMargins t))
  let whole := t.takeWhile CodePoint.isAsciiDigit
  let rest := t.dropWhile CodePoint.isAsciiDigit
  let point := Text.startsWith rest "."
  let fraction := if point then (rest.drop 1).takeWhile CodePoint.isAsciiDigit else []
  let exponent ← exponentPart? (if point then
                                  (rest.drop 1).dropWhile CodePoint.isAsciiDigit
                                else rest)
  if whole.isEmpty && fraction.isEmpty then none else some ⟨negative, whole, fraction, exponent⟩

/-- Digits without the zeros in front, and at least one digit. -/
def trimmed (digits : Text) : Text :=
  let rest := digits.dropWhile (· = ('0' : CodePoint))
  if rest.isEmpty then "0" else rest

/-- A number written out. -/
def decimalLiteral (negative : Bool) (p : DecimalParts) : Text :=
  (if negative then Text.ofString "-" else []) ++ trimmed p.whole ++ Text.ofString "."
    ++ (if p.fraction.isEmpty then Text.ofString "0" else p.fraction) ++ p.exponent

/-- A number without an exponent, in units of its last of `places` places after the point. -/
def DecimalParts.inUnits (p : DecimalParts) (places : Nat) : Int :=
  let digits := p.whole ++ p.fraction ++ Text.fill (places - p.fraction.length) '0'
  let n := Decimal.value (digits.map (·.val - 48))
  if p.negative then -Int.ofNat n else Int.ofNat n

/-- Groups of digits as one number. Each counts sixtieths of the one before it. -/
def joinGroups (groups : List DecimalParts) : DecimalParts :=
  let places := groups.foldl (fun most p => max most p.fraction.length) 0
  let total := groups.foldl (fun acc p => acc * 60 + p.inUnits places) 0
  let digits := Decimal.ofNat total.natAbs
  let digits := Text.fill (places + 1 - digits.length) '0' ++ digits
  ⟨total < 0, digits.take (digits.length - places), digits.drop (digits.length - places), []⟩

/-- The parts of all groups, or the first group that is no number. -/
def groupParts (groups : List Text) : Except ReadError (List DecimalParts) :=
  groups.mapM fun g =>
    match decimalParts? g with
    | some p => .ok p
    | none => .error (.notDecimal g)

/-- The words for numbers that have no digits. -/
def endless : List (String × String) :=
  [(".inf", "Infinity"), ("inf", "Infinity"), ("infinity", "Infinity")]

/-- The words for what is no number at all. -/
def isNoNumber (t : Text) : Bool := isOneOf [".nan", "nan"] t

/-- The number with a point that a word spells. -/
def decimalValue (t : Text) : Except ReadError Plain := do
  let clean := Text.lower (t.filter (!isBar ·))
  let (negative, body) := splitSign clean
  if clean.isEmpty then .error .noDigits
  else if isNoNumber body then pure (.decimal "NaN")
  else
    match endless.find? (Text.ofString ·.1 = body) with
    | some (_, literal) =>
      pure (.decimal ((if negative then Text.ofString "-" else []) ++ Text.ofString literal))
    | none =>
      let groups ← groupParts (Text.splitOn ':' body)
      match groups with
      | [p] => pure (.decimal (decimalLiteral (negative != p.negative) p))
      | _ =>
        if groups.any (!·.exponent.isEmpty) then .error .notPlain
        else
          let p := joinGroups groups
          pure (.decimal (decimalLiteral (negative != p.negative) p))

end Esolang.Yaml
