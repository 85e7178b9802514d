/-
  File:      Esolang/Yaml/Meaning.lean
  Subject:   What a word means in a YAML document when it stands there without quotes.

  Some words are taken for something else than a text: for nothing, for a truth value, for a number,
  for a date, or for one of the two marks `<<` and `=`. A text that reads as one of these needs
  quotes.

  * `Meaning`: what a word can mean.
  * `isWholeNumber`, `isDecimalNumber`, `isDate`: the spellings of numbers and dates.
  * `meaning`: the meaning of a word.
-/
import Esolang.Text.Phrase
import Esolang.Text.Digit

namespace Esolang.Yaml

/-- What a word can mean. -/
inductive Meaning where
  /-- The text itself. -/
  | text
  /-- Nothing. -/
  | null
  /-- A truth value. -/
  | bool (b : Bool)
  /-- A whole number. -/
  | whole
  /-- A number with a point. -/
  | decimal
  /-- A date, with or without a time. -/
  | date
  /-- The mark `<<`, which merges another map into one. -/
  | merge
  /-- The mark `=`, which stands for the text of a map. -/
  | equals
deriving DecidableEq

/-! ## 1. Words -/

/-- The words for truth values. -/
def boolWords : List (String × Bool) :=
  [("yes", true), ("Yes", true), ("YES", true), ("no", false), ("No", false), ("NO", false),
   ("true", true), ("True", true), ("TRUE", true), ("false", false), ("False", false),
   ("FALSE", false), ("on", true), ("On", true), ("ON", true), ("off", false), ("Off", false),
   ("OFF", false)]

/-- Whether a text is one of some words. -/
def isOneOf (words : List String) (t : Text) : Bool := words.any (Text.ofString · = t)

/-- The words for nothing; writing nothing at all is one of them. -/
def isNullWord (t : Text) : Bool := isOneOf ["", "~", "null", "Null", "NULL"] t

/-- The truth value that a word stands for. -/
def boolWord? (t : Text) : Option Bool := (boolWords.find? (Text.ofString ·.1 = t)).map (·.2)

/-! ## 2. Numbers -/

/-- Whether a text begins with a minus, and what follows its sign. -/
def splitSign : Text → Bool × Text
  | [] => (false, [])
  | c :: cs => if c = '-' then (true, cs) else if c = '+' then (false, cs) else (false, c :: cs)

/-- Underscores may stand between the digits of a number. -/
def isBar (c : CodePoint) : Bool := c = '_'

/-- Whether a text is a non-empty row of digits of some base and of underscores. -/
def isDigitRow (base : Nat) (t : Text) : Bool :=
  !t.isEmpty && t.all fun c => isBar c || c.hexDigit?.any (· < base)

/-- Whether a text is a group that counts sixtieths: one digit, or two that stay below sixty. -/
def isSixtieths (t : Text) : Bool :=
  t.all CodePoint.isAsciiDigit && (t.length = 1 || (t.length = 2 && t.head?.any (·.val < 54)))

/-- A row of digits and underscores that begins with a digit. -/
def digitsFirst (t : Text) : Bool :=
  t.head?.any CodePoint.isAsciiDigit && t.all fun c => c.isAsciiDigit || isBar c

/-- Whether a text is a whole number without its sign: in base 2, 16, 8 or 10, or in groups of which
    each but the first counts sixtieths of the one before it. -/
def isWholeNumber (t : Text) : Bool :=
  match Text.after? "0b" t, Text.after? "0x" t, t with
  | some rest, _, _ => isDigitRow 2 rest
  | none, some rest, _ => isDigitRow 16 rest
  | none, none, [] => false
  | none, none, c :: cs =>
    if c = '0' then cs.isEmpty || isDigitRow 8 cs
    else
      match Text.splitOn ':' (c :: cs) with
      | [] => false
      | first :: rest => digitsFirst first && rest.all isSixtieths

/-- An exponent with its sign, or nothing. -/
def isExponent : Text → Bool
  | [] => true
  | e :: sign :: digits =>
    (e = 'e' || e = 'E') && (sign = '-' || sign = '+') && !digits.isEmpty
      && digits.all CodePoint.isAsciiDigit
  | _ => false

/-- Digits and underscores, and then an exponent or nothing. -/
def isFraction (t : Text) : Bool := isExponent (t.dropWhile fun c => c.isAsciiDigit || isBar c)

/-- What stands before the point of a number that counts sixtieths. -/
def isSixtiethsRow (t : Text) : Bool :=
  match Text.splitOn ':' t with
  | first :: second :: rest => digitsFirst first && (second :: rest).all isSixtieths
  | _ => false

/-- Whether a text is a number with a point. -/
def isDecimalNumber (t : Text) : Bool :=
  let unsigned := (splitSign t).2
  let whole := unsigned.takeWhile (· ≠ ('.' : CodePoint))
  let point := unsigned.dropWhile (· ≠ ('.' : CodePoint))
  let fraction := point.drop 1
  (!point.isEmpty && digitsFirst whole && isFraction fraction)
    || (t.startsWith "." && (t.drop 1).head?.any CodePoint.isAsciiDigit && isFraction (t.drop 1))
    || (!point.isEmpty && isSixtiethsRow whole && fraction.all fun c => c.isAsciiDigit || isBar c)
    || isOneOf [".inf", ".Inf", ".INF"] unsigned || isOneOf [".nan", ".NaN", ".NAN"] t

/-! ## 3. Dates -/

/-- An ASCII digit. -/
def digitPhrase : Phrase Unit :=
  ⟨fun t =>
    match t with
    | c :: cs => if c.isAsciiDigit then [((), cs)] else []
    | [] => []⟩

/-- Two digits. -/
def twoDigits : Phrase Unit := do
  digitPhrase
  digitPhrase

/-- One or two digits. -/
def oneOrTwoDigits : Phrase Unit := do
  digitPhrase
  let _ ← Phrase.maybe digitPhrase

/-- A space or a tab. -/
def isWhite (c : CodePoint) : Bool := c = ' ' || c = '\t'

/-- Spaces and tabs, if there are any. -/
def whitePhrase : Phrase Unit := do
  let _ ← Phrase.maybe (Phrase.longest isWhite)

/-- The end of a text. -/
def endPhrase : Phrase Unit := ⟨fun t => if t.isEmpty then [((), t)] else []⟩

/-- A date alone. -/
def datePhrase : Phrase Unit := do
  twoDigits
  twoDigits
  Phrase.word "-"
  twoDigits
  Phrase.word "-"
  twoDigits
  endPhrase

/-- What stands between a date and a time. -/
def betweenPhrase : Phrase Unit :=
  ⟨fun t => (Phrase.oneOf [("T", ()), ("t", ())]).ways t
    ++ ((Phrase.longest isWhite).ways t).map fun way => ((), way.2)⟩

/-- A fraction of a second. -/
def secondsPhrase : Phrase Unit := do
  Phrase.word "."
  let _ ← Phrase.maybe (Phrase.longest CodePoint.isAsciiDigit)

/-- Hours, and perhaps minutes, away from universal time. -/
def offsetPhrase : Phrase Unit := do
  Phrase.oneOf [("-", ()), ("+", ())]
  oneOrTwoDigits
  let _ ← Phrase.maybe do
    Phrase.word ":"
    twoDigits

/-- A time zone. -/
def zonePhrase : Phrase Unit := do
  whitePhrase
  (⟨fun t => (Phrase.word "Z").ways t ++ offsetPhrase.ways t⟩ : Phrase Unit)

/-- A date with a time. -/
def timePhrase : Phrase Unit := do
  twoDigits
  twoDigits
  Phrase.word "-"
  oneOrTwoDigits
  Phrase.word "-"
  oneOrTwoDigits
  betweenPhrase
  oneOrTwoDigits
  Phrase.word ":"
  twoDigits
  Phrase.word ":"
  twoDigits
  let _ ← Phrase.maybe secondsPhrase
  let _ ← Phrase.maybe zonePhrase
  endPhrase

/-- Whether a text is a date, with or without a time. -/
def isDate (t : Text) : Bool := (datePhrase.read? t).isSome || (timePhrase.read? t).isSome

/-! ## 4. All words -/

/-- The meaning of a word. -/
def meaning (t : Text) : Meaning :=
  if isNullWord t then .null
  else
    match boolWord? t with
    | some b => .bool b
    | none =>
      if isDecimalNumber t then .decimal
      else if isWholeNumber (splitSign t).2 then .whole
      else if t = "<<" then .merge
      else if isDate t then .date
      else if t = "=" then .equals
      else .text

end Esolang.Yaml
