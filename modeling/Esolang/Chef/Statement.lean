/-
  File:      Esolang/Chef/Statement.lean
  Subject:   Reading one statement of a Chef method.

  The first words of a statement decide which phrase it has to fit; a statement that begins like one
  kind is never tried as another. Places in the method stay absent: they need the whole method.

  * `SyntaxError`, `LineError`: what can be wrong with a line.
  * `Operation.ofStatement`: the operation a statement says.
  * `pastTense`, `closes`: which verb ends the loop another verb began.
-/
import Esolang.Chef.Operation
import Esolang.Failure
import Esolang.Number.Limit
import Esolang.Text.Blank
import Esolang.Text.Digit
import Esolang.Text.Phrase

namespace Esolang.Chef

/-! ## 1. What can be wrong with a line -/

/-- What can be wrong with a line of a recipe. -/
inductive SyntaxError where
  /-- A statement fits no phrase of its kind. -/
  | unknownInstruction
  /-- A statement has the preposition of another kind. -/
  | wrongPreposition
  /-- The number of a bowl or dish cannot be read. -/
  | badVessel
  /-- `heaped` or `level` without a measure. -/
  | badMeasure
  /-- An ingredient without a name. -/
  | noName
  /-- `Set aside` outside of every loop. -/
  | asideOutsideLoop
  /-- The end of a loop that was not begun. -/
  | endWithoutStart
  /-- The end of a loop in words that do not go with its beginning. -/
  | verbMismatch (expected found : Text)
deriving DecidableEq

/-- The words for a syntax error. -/
def SyntaxError.message : SyntaxError → Text
  | .unknownInstruction => "Unknown instruction"
  | .wrongPreposition => "Instruction has incorrect syntax"
  | .badVessel => "Invalid dish/bowl identifier"
  | .badMeasure => "Invalid measure"
  | .noName => "Missing ingredient name"
  | .asideOutsideLoop => "Set aside outside of a loop"
  | .endWithoutStart => "Loop closer without a matching loop opener"
  | .verbMismatch expected found =>
    Text.ofString "Loop verb mismatch: expected '" ++ expected
      ++ Text.ofString "', found '" ++ found ++ Text.ofString "'"

/-- Why a line could not be read: it is wrong, or a number in it is too long. -/
inductive LineError where
  /-- The line is wrong. -/
  | wrong (why : SyntaxError)
  /-- Reading it breaks down. -/
  | broken (why : Breakdown)
deriving DecidableEq

/-! ## 2. Loop verbs -/

/-- The regular past tense of a verb. -/
def pastTense (verb : Text) : Text :=
  verb ++ (if verb.endsWith "e" then Text.ofString "d" else Text.ofString "ed")

/-- Whether a verb ends the loop that another began: its past tense does, and so does every form
    built on it. -/
def closes (opener closer : Text) : Bool := closer = pastTense opener || closer.startsWith opener

/-! ## 3. Parts of statements -/

open Phrase

/-- Letters and spaces, of which names of ingredients are made. -/
def isNameChar (c : CodePoint) : Bool := c.isLetter || c = ' '

/-- Letters, digits and spaces, of which the names of called recipes are made. -/
def isTitleChar (c : CodePoint) : Bool := c.isLetter || c.isAsciiDigit || c = ' '

/-- The name of an ingredient, preferably a short one. -/
def name : Phrase Text := shortest isNameChar

/-- A row of decimal digits. -/
def digits : Phrase Text := longest CodePoint.isDigit

/-- The number of a bowl or dish as an ordinal, which may be left out. -/
def ordinal : Phrase (Option Text) :=
  maybe do
    word " "
    let ds ← digits
    oneOf [("nd", ()), ("rd", ()), ("th", ()), ("st", ())]
    pure ds

/-- The values of a row of decimal digits. -/
def digitValues (ds : Text) : List Nat := ds.map fun c => c.digit?.getD 0

/-- A number in a statement. -/
def number (ds : Text) : Except LineError Nat :=
  match Decimal.read (digitValues ds) with
  | .ok n => .ok n
  | .error b => .error (.broken b)

/-- The number of a bowl or dish; without an ordinal it is the first. -/
def vessel : Option Text → Except LineError Int
  | none => .ok 1
  | some ds =>
    match Decimal.read (digitValues ds) with
    | .ok n => .ok n
    | .error _ => .error (.wrong .badVessel)

/-! ## 4. The phrases -/

/-- `Take … from the refrigerator`. -/
def takePhrase : Phrase (Except LineError Operation) := do
  word "Take "
  let i ← name
  word " from"
  let _ ← maybe (word " the")
  word " refrigerator"
  finish
  pure (.ok (.take i))

/-- `Put … into the mixing bowl`, and the same with other first words. -/
def intoBowlPhrase (verb : String) (make : Text → Int → Operation) :
    Phrase (Except LineError Operation) := do
  word verb
  let _ ← maybe (word " the")
  word " "
  let i ← name
  word " into"
  let _ ← maybe (word " the")
  let n ← ordinal
  word " mixing bowl"
  finish
  pure ((vessel n).map (make i))

/-- `Add dry ingredients to the mixing bowl`. -/
def addDryPhrase : Phrase (Except LineError Operation) := do
  word "Add dry ingredients"
  let n ← maybe do
    word " to"
    let _ ← maybe (word " the")
    let n ← ordinal
    word " mixing bowl"
    pure n
  finish
  pure ((vessel n.join).map .addDry)

/-- The prepositions of the arithmetic statements. -/
inductive Preposition where
  | to
  | into
  | from
deriving DecidableEq

/-- The preposition that goes with an arithmetic statement. -/
def Arithmetic.preposition : Arithmetic → Preposition
  | .add => .to
  | .subtract => .from
  | .multiply => .into
  | .divide => .into

/-- The first word of each arithmetic statement. -/
def arithmeticWords : List (String × Arithmetic) :=
  [("Add", .add), ("Remove", .subtract), ("Combine", .multiply), ("Divide", .divide)]

/-- The operation of an arithmetic statement, if its preposition is the right one. -/
def arithmeticOf (how : Arithmetic) (i : Text) :
    Option (Preposition × Option Text) → Except LineError Operation
  | none => .ok (.arithmetic how i 1)
  | some (p, n) =>
    if p = how.preposition then (vessel n).map (.arithmetic how i)
    else .error (.wrong .wrongPreposition)

/-- `Add … to the mixing bowl`, `Remove … from …`, `Combine … into …`, `Divide … into …`. -/
def arithmeticPhrase : Phrase (Except LineError Operation) := do
  let how ← oneOf arithmeticWords
  word " "
  let i ← name
  let bowl ← maybe do
    word " "
    let p ← oneOf [("to", Preposition.to), ("into", .into), ("from", .from)]
    let _ ← maybe (word " the")
    let n ← ordinal
    word " mixing bowl"
    pure (p, n)
  finish
  pure (arithmeticOf how i bowl)

/-- `Liquefy contents of the mixing bowl`. -/
def liquefyBowlPhrase : Phrase (Except LineError Operation) := do
  word "Liquefy"
  let _ ← maybe (word " the")
  word " contents of the"
  let n ← ordinal
  word " mixing bowl"
  finish
  pure ((vessel n).map .liquefyBowl)

/-- `Liquefy …`. -/
def liquefyPhrase : Phrase (Except LineError Operation) := do
  word "Liquefy"
  let _ ← maybe (word " the")
  word " "
  let i ← name
  finish
  pure (.ok (.liquefy i))

/-- `Stir the mixing bowl for … minutes`. -/
def stirPhrase : Phrase (Except LineError Operation) := do
  word "Stir"
  let n ← maybe do
    word " the"
    let n ← ordinal
    word " mixing bowl"
    pure n
  word " for "
  let ds ← digits
  word " minute"
  let _ ← maybe (word "s")
  finish
  pure do
    let bowl ← vessel n.join
    let minutes ← number ds
    .ok (.stir bowl minutes)

/-- `Stir … into the mixing bowl`. -/
def stirIngredientPhrase : Phrase (Except LineError Operation) := do
  word "Stir "
  let i ← name
  word " into the"
  let n ← ordinal
  word " mixing bowl"
  finish
  pure ((vessel n).map (.stirIngredient · i))

/-- `Mix the mixing bowl well`. -/
def mixPhrase : Phrase (Except LineError Operation) := do
  word "Mix"
  let n ← maybe do
    word " the"
    let n ← ordinal
    word " mixing bowl"
    pure n
  word " well"
  finish
  pure ((vessel n.join).map .mix)

/-- `Clean the mixing bowl`. -/
def cleanPhrase : Phrase (Except LineError Operation) := do
  word "Clean"
  let _ ← maybe (word " the")
  let n ← ordinal
  word " mixing bowl"
  finish
  pure ((vessel n).map .clean)

/-- `Pour contents of the mixing bowl into the baking dish`. -/
def pourPhrase : Phrase (Except LineError Operation) := do
  word "Pour contents of the"
  let n ← ordinal
  word " mixing bowl into the"
  let m ← ordinal
  word " baking dish"
  finish
  pure do
    let bowl ← vessel n
    let dish ← vessel m
    .ok (.pour bowl dish)

/-- `Serve with …`. -/
def serveWithPhrase : Phrase (Except LineError Operation) := do
  word "Serve with "
  let r ← longest isTitleChar
  finish
  pure (.ok (.serveWith r))

/-- `Refrigerate for … hours`. -/
def refrigeratePhrase : Phrase (Except LineError Operation) := do
  word "Refrigerate"
  let n ← maybe do
    word " for "
    let ds ← digits
    word " hour"
    let _ ← maybe (word "s")
    pure ds
  finish
  pure
    (match n with
    | none => .ok (.refrigerate none)
    | some ds => (number ds).map fun h => .refrigerate (some (h : Int)))

/-- `… the … until …ed`. -/
def loopEndPhrase : Phrase (Except LineError Operation) := do
  let _ ← shortest CodePoint.isLetter
  let _ ← maybe (word " the")
  let i ← maybe do
    word " "
    name
  word " until "
  let verb ← longest CodePoint.isLetter
  finish
  pure (.ok (.loopEnd verb.lower i none))

/-- `… the …`. -/
def loopStartPhrase : Phrase (Except LineError Operation) := do
  let verb ← shortest CodePoint.isLetter
  let _ ← maybe (word " the")
  word " "
  let i ← longest isNameChar
  finish
  pure (.ok (.loopStart verb.lower i none))

/-! ## 5. Statements -/

/-- A statement that has to fit one phrase. -/
def fits (p : Phrase (Except LineError Operation)) (line : Text) : Except LineError Operation :=
  (p.read? line).getD (.error (.wrong .unknownInstruction))

/-- The first word of a statement: all before its first space. -/
def firstWord (line : Text) : Text := line.takeWhile (· ≠ Text.space)

/-- The operation a statement says. -/
def Operation.ofStatement (line : Text) : Except LineError Operation :=
  if line.startsWith "Take " then fits takePhrase line
  else if line.startsWith "Put " then fits (intoBowlPhrase "Put" .put) line
  else if line.startsWith "Fold " then fits (intoBowlPhrase "Fold" .fold) line
  else if line.startsWith "Add dry ingredients" then fits addDryPhrase line
  else if arithmeticWords.any (Text.ofString ·.1 = firstWord line) then fits arithmeticPhrase line
  else if line.startsWith "Liquefy contents of the " ||
    line.startsWith "Liquefy the contents of the "
  then fits liquefyBowlPhrase line
  else if line.startsWith "Liquefy " then fits liquefyPhrase line
  else if line.startsWith "Stir " && (line.endsWith "minute" || line.endsWith "minutes")
  then fits stirPhrase line
  else if line.startsWith "Stir " then fits stirIngredientPhrase line
  else if line.startsWith "Mix " then fits mixPhrase line
  else if line.startsWith "Clean " then fits cleanPhrase line
  else if line.startsWith "Pour " then fits pourPhrase line
  else if line = "Set aside" then .ok (.setAside none)
  else if line.startsWith "Serve with " then fits serveWithPhrase line
  else if line.startsWith "Refrigerate" then fits refrigeratePhrase line
  else if line.includes " until " then fits loopEndPhrase line
  else fits loopStartPhrase line

end Esolang.Chef
