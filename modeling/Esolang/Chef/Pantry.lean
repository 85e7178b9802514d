/-
  File:      Esolang/Chef/Pantry.lean
  Subject:   Reading one line of a recipe's list of ingredients.

  A line holds an optional amount, an optional measure that may be `heaped` or `level`, and a name.
  The measure says whether the ingredient is dry or liquid.
-/
import Esolang.Chef.Statement

namespace Esolang.Chef

/-- The measures, with what they make of an ingredient. -/
def measures : List (String × Kind) :=
  [("g", .dry), ("kg", .dry), ("pinch", .dry), ("pinches", .dry),
   ("ml", .liquid), ("l", .liquid), ("dash", .liquid), ("dashes", .liquid),
   ("cup", .unknown), ("cups", .unknown), ("teaspoon", .unknown), ("teaspoons", .unknown),
   ("tablespoon", .unknown), ("tablespoons", .unknown)]

/-- What a measure makes of an ingredient. -/
def measure? (w : Text) : Option Kind := (measures.find? (Text.ofString ·.1 = w)).map (·.2)

/-- Whether a word says how a measure is filled. -/
def isFilling (w : Text) : Bool := w = "heaped" || w = "level"

/-- The sign and the digits of an amount, if a word is one. -/
def amount? (w : Text) : Option (Bool × Text) :=
  let (negative, ds) :=
    match w with
    | c :: rest => if c = '-' then (true, rest) else if c = '+' then (false, rest) else (false, w)
    | [] => (false, [])
  if !ds.isEmpty && ds.all CodePoint.isDigit then some (negative, ds) else none

/-- The value of an amount. -/
def amount (negative : Bool) (ds : Text) : Except LineError Int :=
  (number ds).map fun n => if negative then -(n : Int) else n

/-- The amount in front of a line, and the words after it. -/
def takeAmount : List Text → Except LineError (Option Int × List Text)
  | [] => .ok (none, [])
  | w :: rest =>
    match amount? w with
    | some (negative, ds) => (amount negative ds).map fun n => (some n, rest)
    | none => .ok (none, w :: rest)

/-- The measure in front of a line, and the words after it. -/
def takeMeasure : List Text → Except LineError (Option Kind × List Text)
  | [] => .ok (none, [])
  | w :: rest =>
    if isFilling w then
      match rest with
      | [] => .error (.wrong .badMeasure)
      | m :: rest' =>
        match measure? m with
        | some kind => .ok (some kind, rest')
        | none => .error (.wrong .badMeasure)
    else
      match measure? w with
      | some kind => .ok (some kind, rest)
      | none => .ok (none, w :: rest)

/-- The name and the ingredient on a line. -/
def ingredientOf (line : Text) : Except LineError (Text × Ingredient) := do
  let (value, afterAmount) ← takeAmount line.words
  let (kind, nameWords) ← takeMeasure afterAmount
  if nameWords.isEmpty then .error (.wrong .noName)
  else .ok (Text.join [Text.space] nameWords, ⟨kind.getD .unknown, value⟩)

end Esolang.Chef
