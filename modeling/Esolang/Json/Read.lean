/-
  File:      Esolang/Json/Read.lean
  Subject:   JSON read as plain data, with the place of the first thing that is wrong.

  Numbers with a fraction or an exponent are kept as they are written. Of entries with the same name
  the first gives the place and the last the data. An escaped surrogate stands for itself unless it
  completes a pair.

  * `Flaw`, `ReadError`: what can be wrong, and where.
  * `scanString`, `scanNumber`: the two kinds of token that have an inside.
  * `read`: a whole text.
-/
import Esolang.Number.Limit
import Esolang.Text.Digit
import Esolang.Value.Plain

namespace Esolang.Json

/-! ## 1. What can be wrong -/

/-- What can be wrong with a JSON text. -/
inductive Flaw where
  | noValue
  | noName
  | noColon
  | noComma
  | extraData
  | unterminated
  | controlCharacter
  | badEscape
  | badCodeEscape
  | byteOrderMark
deriving DecidableEq

/-- The words for a flaw. -/
def Flaw.message : Flaw → Text
  | .noValue => "Expecting value"
  | .noName => "Expecting property name enclosed in double quotes"
  | .noColon => "Expecting ':' delimiter"
  | .noComma => "Expecting ',' delimiter"
  | .extraData => "Extra data"
  | .unterminated => "Unterminated string starting at"
  | .controlCharacter => "Invalid control character at"
  | .badEscape => "Invalid \\escape"
  | .badCodeEscape => "Invalid \\uXXXX escape"
  | .byteOrderMark => "Unexpected UTF-8 BOM (decode using utf-8-sig)"

/-- Why a text could not be read. -/
inductive ReadError where
  /-- It has a flaw at an index. -/
  | flawed (what : Flaw) (index : Nat)
  /-- A number in it is too long. -/
  | broken (why : Breakdown)
deriving DecidableEq

/-- The line and the column of an index, both counted from one. -/
def lineAndColumn (source : Text) (index : Nat) : Nat × Nat :=
  let before := source.take index
  (before.count Text.newline + 1, (before.reverse.takeWhile (· ≠ Text.newline)).length + 1)

/-- The words for a read error. -/
def ReadError.message (source : Text) : ReadError → Text
  | .flawed what index =>
    let (line, column) := lineAndColumn source index
    what.message ++ Text.ofString ": line " ++ Decimal.ofNat line ++ Text.ofString " column "
      ++ Decimal.ofNat column ++ Text.ofString " (char " ++ Decimal.ofNat index ++ Text.ofString ")"
  | .broken why => why.message

/-! ## 2. Cursors -/

/-- The text still to be read, and the index it begins at. -/
structure Cursor where
  /-- What is left. -/
  rest : Text
  /-- How much has been read. -/
  index : Nat

namespace Cursor

/-- The cursor some code points further. -/
def skip (c : Cursor) (n : Nat) : Cursor := ⟨c.rest.drop n, c.index + n⟩

/-- The white space of JSON. -/
def isSpace (c : CodePoint) : Bool := c = ' ' || c = '\t' || c = '\n' || c = '\r'

/-- The cursor after white space. -/
def skipSpace (c : Cursor) : Cursor := c.skip (c.rest.takeWhile isSpace).length

/-- The next code point. -/
def peek? (c : Cursor) : Option CodePoint := c.rest.head?

end Cursor

/-! ## 3. Strings -/

/-- The value of four hexadecimal digits. -/
def hex4? (a b c d : CodePoint) : Option Nat := do
  let a ← a.hexDigit?
  let b ← b.hexDigit?
  let c ← c.hexDigit?
  let d ← d.hexDigit?
  pure (((a * 16 + b) * 16 + c) * 16 + d)

/-- The code point of a number; the numbers of escapes all have one. -/
def codePoint (n : Nat) : CodePoint := (CodePoint.ofNat? n).getD CodePoint.replacement

/-- The first half of a surrogate pair. -/
def isHighSurrogate (n : Nat) : Bool := 0xD800 ≤ n && n ≤ 0xDBFF

/-- The second half of a surrogate pair. -/
def isLowSurrogate (n : Nat) : Bool := 0xDC00 ≤ n && n ≤ 0xDFFF

/-- The number that a surrogate pair stands for. -/
def joinSurrogates (high low : Nat) : Nat := 0x10000 + (high - 0xD800) * 0x400 + (low - 0xDC00)

/-- What a one-letter escape stands for. -/
def simpleEscape? (c : CodePoint) : Option CodePoint :=
  match c.char? with
  | some '"' => some '"'
  | some '\\' => some '\\'
  | some '/' => some '/'
  | some 'b' => some ⟨8, by decide⟩
  | some 'f' => some ⟨12, by decide⟩
  | some 'n' => some '\n'
  | some 'r' => some '\r'
  | some 't' => some '\t'
  | _ => none

/-- The content of a string from index `index` on, with the content so far, the last first. `start`
    is the index of the opening quote. A code escape needs something after it, and so does one that
    completes a pair. -/
def scanString (start index : Nat) (begun : Text) : Text → Except ReadError (Text × Cursor)
  | [] => .error (.flawed .unterminated start)
  | c :: cs =>
    if c = '"' then .ok (begun.reverse, ⟨cs, index + 1⟩)
    else if c = '\\' then
      match cs with
      | [] => .error (.flawed .unterminated start)
      | e :: es =>
        if e = 'u' then
          match es with
          | h1 :: h2 :: h3 :: h4 :: x :: rest =>
            match hex4? h1 h2 h3 h4 with
            | none => .error (.flawed .badCodeEscape (index + 1))
            | some n =>
              match rest with
              | u :: l1 :: l2 :: l3 :: l4 :: y :: more =>
                if isHighSurrogate n && x = '\\' && u = 'u' then
                  match hex4? l1 l2 l3 l4 with
                  | none => .error (.flawed .badCodeEscape (index + 7))
                  | some m =>
                    if isLowSurrogate m then
                      scanString start (index + 12) (codePoint (joinSurrogates n m) :: begun)
                        (y :: more)
                    else
                      scanString start (index + 6) (codePoint n :: begun)
                        (x :: u :: l1 :: l2 :: l3 :: l4 :: y :: more)
                else
                  scanString start (index + 6) (codePoint n :: begun)
                    (x :: u :: l1 :: l2 :: l3 :: l4 :: y :: more)
              | rest => scanString start (index + 6) (codePoint n :: begun) (x :: rest)
          | _ => .error (.flawed .badCodeEscape (index + 1))
        else
          match simpleEscape? e with
          | none => .error (.flawed .badEscape index)
          | some d => scanString start (index + 2) (d :: begun) es
    else if c.val ≤ 0x1F then .error (.flawed .controlCharacter index)
    else scanString start (index + 1) (c :: begun) cs

/-- A string whose opening quote is the next code point. -/
def string? (c : Cursor) : Option (Except ReadError (Text × Cursor)) :=
  match c.rest with
  | [] => none
  | q :: rest => if q = '"' then some (scanString c.index (c.index + 1) [] rest) else none

/-! ## 4. Numbers -/

/-- The digits in front of a text. -/
def digitsOf (t : Text) : Text := t.takeWhile CodePoint.isAsciiDigit

/-- The whole part of a number without its sign: a zero alone, or digits that begin with none. -/
def wholePart (t : Text) : Text :=
  match t with
  | [] => []
  | c :: _ => if c = '0' then [c] else digitsOf t

/-- The fraction in front of a text: a point and at least one digit. -/
def fraction (t : Text) : Text :=
  match t with
  | [] => []
  | c :: cs => if c = '.' ∧ digitsOf cs ≠ [] then c :: digitsOf cs else []

/-- The exponent in front of a text: its letter, perhaps a sign, and at least one digit. -/
def exponent (t : Text) : Text :=
  match t with
  | e :: s :: rest =>
    if e = 'e' ∨ e = 'E' then
      if s = '+' ∨ s = '-' then
        if digitsOf rest = [] then [] else e :: s :: digitsOf rest
      else if digitsOf (s :: rest) = [] then [] else e :: digitsOf (s :: rest)
    else []
  | _ => []

/-- The number in front of a cursor, if there is one. -/
def scanNumber (c : Cursor) : Option (Except ReadError (Plain × Cursor)) :=
  let (negative, t) :=
    match c.rest with
    | [] => (false, [])
    | s :: rest => if s = '-' then (true, rest) else (false, s :: rest)
  let sign : Text := if negative then "-" else []
  let whole := wholePart t
  if whole = [] then none
  else
    let t := t.drop whole.length
    let frac := fraction t
    let exp := exponent (t.drop frac.length)
    let literal := sign ++ whole ++ frac ++ exp
    let after := c.skip literal.length
    if frac = [] ∧ exp = [] then
      match Decimal.read (whole.map (·.val - 48)) with
      | .ok n => some (.ok (.int (if negative then -(n : Int) else n), after))
      | .error b => some (.error (.broken b))
    else some (.ok (.decimal literal, after))

/-! ## 5. Values -/

/-- The words of JSON, with what they stand for. -/
def words : List (String × Plain) :=
  [("null", .null), ("true", .bool true), ("false", .bool false), ("NaN", .decimal "NaN"),
   ("Infinity", .decimal "Infinity"), ("-Infinity", .decimal "-Infinity")]

/-- The word in front of a cursor, if there is one. -/
def word? (c : Cursor) : Option (Plain × Cursor) :=
  words.findSome? fun (w, p) =>
    if c.rest.startsWith w then some (p, c.skip w.length) else none

mutual

/-- The value at a cursor. Every level uses up some of `depth`. -/
def readValue (depth : Nat) (c : Cursor) : Except ReadError (Plain × Cursor) :=
  match depth with
  | 0 => .error (.flawed .noValue c.index)
  | depth + 1 =>
    match string? c with
    | some r => r.map fun (t, after) => (.text t, after)
    | none =>
      if c.peek? = some ('[' : CodePoint) then
        let c := (c.skip 1).skipSpace
        if c.peek? = some (']' : CodePoint) then .ok (.list [], c.skip 1)
        else (readItems depth c).map fun (items, after) => (.list items, after)
      else if c.peek? = some ('\x7b' : CodePoint) then
        let c := (c.skip 1).skipSpace
        if c.peek? = some ('\x7d' : CodePoint) then .ok (.map [], c.skip 1)
        else (readMembers depth [] c).map fun (entries, after) => (.map entries, after)
      else
        match word? c with
        | some r => .ok r
        | none => (scanNumber c).getD (.error (.flawed .noValue c.index))

/-- The items of a list up to its closing bracket. -/
def readItems (depth : Nat) (c : Cursor) : Except ReadError (List Plain × Cursor) :=
  match depth with
  | 0 => .error (.flawed .noValue c.index)
  | depth + 1 =>
    match readValue depth c with
    | .error e => .error e
    | .ok (p, after) =>
      let c := after.skipSpace
      if c.peek? = some (']' : CodePoint) then .ok ([p], c.skip 1)
      else if c.peek? = some (',' : CodePoint) then
        (readItems depth (c.skip 1).skipSpace).map fun (ps, after) => (p :: ps, after)
      else .error (.flawed .noComma c.index)

/-- The entries of an object up to its closing bracket, after those already read. -/
def readMembers (depth : Nat) (entries : Table Key Plain) (c : Cursor) :
    Except ReadError (Table Key Plain × Cursor) :=
  match depth with
  | 0 => .error (.flawed .noValue c.index)
  | depth + 1 =>
    match string? c with
    | none => .error (.flawed .noName c.index)
    | some (.error e) => .error e
    | some (.ok (name, after)) =>
      let c := after.skipSpace
      if c.peek? = some (':' : CodePoint) then
        match readValue depth (c.skip 1).skipSpace with
        | .error e => .error e
        | .ok (p, after) =>
          let entries := entries.put (.text name) p
          let c := after.skipSpace
          if c.peek? = some ('\x7d' : CodePoint) then .ok (entries, c.skip 1)
          else if c.peek? = some (',' : CodePoint) then
            readMembers depth entries (c.skip 1).skipSpace
          else .error (.flawed .noComma c.index)
      else .error (.flawed .noColon c.index)

end

/-- The data of a whole JSON text. Every level of reading takes a code point at least, so the length
    of the text is depth enough. -/
def read (source : Text) : Except ReadError Plain :=
  if source.head? = some ⟨0xFEFF, by decide⟩ then .error (.flawed .byteOrderMark 0)
  else
    match readValue (2 * source.length + 2) (Cursor.mk source 0).skipSpace with
    | .error e => .error e
    | .ok (p, after) =>
      let c := after.skipSpace
      if c.rest = [] then .ok p else .error (.flawed .extraData c.index)

end Esolang.Json
