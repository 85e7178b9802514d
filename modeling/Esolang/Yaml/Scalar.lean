/-
  File:      Esolang/Yaml/Scalar.lean
  Subject:   The texts of a YAML document: in quotes, without quotes, and in blocks of lines.

  A text can go on for several lines. In quotes and without them a single line end stands for a
  space, and of several the first stands for nothing. A block keeps its line ends, or folds them in
  the same way, and an indicator says what becomes of those at its end.

  * `quotedText`: a text in single or double quotes.
  * `plainText`: a text without quotes.
  * `blockText`: a text in a block.
-/
import Esolang.Number.Limit
import Esolang.Yaml.Place

namespace Esolang.Yaml

/-- What a line end and those that follow it stand for inside a text. -/
def joinBreaks (first : CodePoint) (more : Text) : Text :=
  if first ≠ Text.newline then first :: more else if more.isEmpty then [Text.space] else more

/-! ## 1. Texts in quotes -/

/-- What the short escapes stand for. -/
def shortMeanings : List (Char × Nat) :=
  [('0', 0), ('a', 7), ('b', 8), ('t', 9), ('\t', 9), ('n', 10), ('v', 11), ('f', 12), ('r', 13),
   ('e', 27), (' ', 32), ('"', 34), ('\\', 92), ('/', 47), ('N', 0x85), ('_', 0xA0), ('L', 0x2028),
   ('P', 0x2029)]

/-- How many hexadecimal digits follow the letter of an escape. -/
def codeLength? (c : CodePoint) : Option Nat :=
  if c = 'x' then some 2 else if c = 'u' then some 4 else if c = 'U' then some 8 else none

/-- The number that some hexadecimal digits spell. -/
def hexValue (digits : Text) : Nat :=
  (digits.filterMap CodePoint.hexDigit?).foldl (fun acc d => acc * 16 + d) 0

/-- How many of the next `width` code points are hexadecimal digits, up to the first that is
    none. -/
def Cursor.hexDigits (c : Cursor) (width : Nat) : Nat :=
  ((c.rest.take width).takeWhile (·.hexDigit?.isSome)).length

/-- The further line ends after one inside quotes, and the blanks around them left out. -/
def quotedBreaks (opened : Place) : Nat → Cursor → Except ReadError (Text × Cursor)
  | 0, c => .ok ([], c)
  | fuel + 1, c =>
    if c.atDivider then
      .error (c.flaw "while scanning a quoted scalar" opened "found unexpected document separator")
    else
      let c := c.skip isWhite
      match c.lineBreak? with
      | none => .ok ([], c)
      | some (b, there) => do
        let (more, there) ← quotedBreaks opened fuel there
        pure (b :: more, there)

/-- What an escape stands for, and the cursor after it. The cursor is given after the backslash. -/
def escaped (opened : Place) (c : Cursor) : Except ReadError (Text × Cursor) :=
  match shortMeanings.find? (CodePoint.ofChar ·.1 = c.front), codeLength? c.front with
  | some (_, n), _ => .ok ((CodePoint.ofNat? n).toList, c.step)
  | none, some width =>
    let digits := c.step
    let good := digits.hexDigits width
    if good < width then
      .error (digits.unexpected "while scanning a double-quoted scalar" opened
        s!"escape sequence of {width} hexadecimal numbers" good)
    else
      match Decimal.character (hexValue (digits.rest.take width)) with
      | .ok e => .ok ([e], digits.past width)
      | .error b => .error (.broken b)
  | none, none =>
    match c.lineBreak? with
    | some (_, there) => quotedBreaks opened (c.size + 1) there
    | none =>
      .error (c.flaw "while scanning a double-quoted scalar" opened
        (Text.ofString "found unknown escape character " ++ Text.quoted [c.front]))

/-- The inside of quotes and the cursor after them. `begun` is what is read so far, the last
    first. -/
def quotedInside (double : Bool) (opened : Place) :
    Nat → Text → Cursor → Except ReadError (Text × Cursor)
  | 0, begun, c => .ok (begun.reverse, c)
  | fuel + 1, begun, c =>
    let ch := c.front
    if !double && ch = '\'' && c.ahead 1 = '\'' then
      quotedInside double opened fuel (ch :: begun) (c.past 2)
    else if ch = (if double then ('"' : CodePoint) else '\'') then .ok (begun.reverse, c.step)
    else if double && ch = '\\' then do
      let (t, there) ← escaped opened c.step
      quotedInside double opened fuel (t.reverse ++ begun) there
    else if isGap ch then
      let (white, there) := c.span isWhite
      if there.rest.isEmpty then
        .error (there.flaw "while scanning a quoted scalar" opened "found unexpected end of stream")
      else
        match there.lineBreak? with
        | none => quotedInside double opened fuel (white.reverse ++ begun) there
        | some (b, there) => do
          let (more, there) ← quotedBreaks opened (there.size + 1) there
          quotedInside double opened fuel ((joinBreaks b more).reverse ++ begun) there
    else quotedInside double opened fuel (ch :: begun) c.step

/-- A text in quotes, and the cursor after it. -/
def quotedText (double : Bool) (c : Cursor) : Except ReadError (Text × Cursor) :=
  quotedInside double c.place (c.size + 1) [] c.step

/-! ## 2. Texts without quotes -/

/-- Marks of lists and maps in brackets. -/
def isBracketMark (c : CodePoint) : Bool := (Text.ofString ",[]\x7b\x7d").contains c

/-- The word at the front of a text without quotes, up to a gap or a mark. -/
def wordAt (inFlow : Bool) : Text → Text
  | [] => []
  | c :: cs =>
    if isGap c || (c = ':' && (endsWord cs || (inFlow && cs.head?.any isBracketMark)))
        || (inFlow && (c = '?' || isBracketMark c)) then []
    else c :: wordAt inFlow cs

/-- The further line ends after one in a text without quotes, and the spaces around them left out;
    none if the document ends there. -/
def plainBreaks : Nat → Cursor → Option Text × Cursor
  | 0, c => (some [], c)
  | fuel + 1, c =>
    if c.atDivider then (none, c)
    else
      let c := c.skipSpaces
      match c.lineBreak? with
      | none => (some [], c)
      | some (b, there) =>
        let (more, there) := plainBreaks fuel there
        (more.map (b :: ·), there)

/-- A text without quotes as far as it is read. -/
structure PlainText where
  /-- Its pieces, the last first. -/
  pieces : List Text
  /-- The place after its last word. -/
  stop : Place
  /-- Whether a new line has begun since. -/
  newLine : Bool
  /-- The cursor after the gap that follows the last word. -/
  cursor : Cursor

/-- What a gap between two words stands for, whether a new line begins in it, and the cursor after
    it. A gap that no word can follow stands for nothing. -/
def plainGap (c : Cursor) : Text × Bool × Cursor :=
  let (spaces, there) := c.span isSpace
  match there.lineBreak? with
  | none => (spaces, false, there)
  | some (b, there) =>
    let (more, there) := plainBreaks (there.size + 1) there
    ((more.map (joinBreaks b)).getD [], true, there)

/-- Further words of a text without quotes, after a gap. Outside of brackets a word counts only from
    column `least` on. -/
def plainWords (inFlow : Bool) (least : Int) : Nat → Text → PlainText → PlainText
  | 0, _, begun => begun
  | fuel + 1, gap, begun =>
    let c := begun.cursor
    let word := wordAt inFlow c.rest
    if c.front = '#' || word.isEmpty then begun
    else
      let c := c.past word.length
      let (nextGap, newLine, there) := plainGap c
      let begun : PlainText := ⟨word :: gap :: begun.pieces, c.place, newLine, there⟩
      if nextGap.isEmpty || (!inFlow && there.place.column < least) then begun
      else plainWords inFlow least fuel nextGap begun

/-- A text without quotes. -/
def plainText (inFlow : Bool) (least : Int) (c : Cursor) : PlainText :=
  plainWords inFlow least (c.size + 1) [] ⟨[], c.place, false, c⟩

/-- All words of a text without quotes. -/
def PlainText.text (p : PlainText) : Text := p.pieces.reverse.flatten

/-! ## 3. Texts in blocks -/

/-- What becomes of the line ends at the end of a block. -/
inductive Chomping where
  /-- One is kept. -/
  | clip
  /-- None is kept. -/
  | strip
  /-- All are kept. -/
  | keep
deriving DecidableEq

/-- The chomping that a mark stands for. -/
def chomping? (c : CodePoint) : Option Chomping :=
  if c = '+' then some .keep else if c = '-' then some .strip else none

/-- What is being read in a block. -/
def blockContext : String := "while scanning a block scalar"

/-- The indentation that a digit asks for, if there is one, and the cursor after it. -/
def indentIndicator (opened : Place) (c : Cursor) : Except ReadError (Option Nat × Cursor) :=
  if c.front.isAsciiDigit then
    if c.front = '0' then
      .error (c.flaw blockContext opened
        "expected indentation indicator in the range 1-9, but found 0")
    else .ok (some (c.front.val - 48), c.step)
  else .ok (none, c)

/-- The indicators of a block, in either order, and the cursor after them. -/
def blockIndicators (opened : Place) (c : Cursor) :
    Except ReadError (Option Chomping × Option Nat × Cursor) := do
  let (chomping, increment, there) ←
    match chomping? c.front with
    | some chomping => do
      let (increment, there) ← indentIndicator opened c.step
      pure (some chomping, increment, there)
    | none => do
      let (increment, there) ← indentIndicator opened c
      match increment, chomping? there.front with
      | some _, some chomping => pure (some chomping, increment, there.step)
      | _, _ => pure (none, increment, there)
  if isGap there.front && there.front ≠ '\t' then pure (chomping, increment, there)
  else .error (there.unexpected blockContext opened "chomping or indentation indicators" 0)

/-- Over the rest of a line that may hold only a comment, and over its end. -/
def restOfLine (context : String) (opened : Place) (c : Cursor) : Except ReadError Cursor :=
  let c := c.skipSpaces.skipComment
  if isLineStop c.front then .ok c.skipLineBreak
  else .error (c.unexpected context opened "a comment or a line break" 0)

/-- Over the empty lines at the front of a block: their ends, the greatest column that spaces reach,
    and the cursor after them. -/
def leadingLines : Nat → Nat → Cursor → Text × Nat × Cursor
  | 0, widest, c => ([], widest, c)
  | fuel + 1, widest, c =>
    if c.front = ' ' then
      let there := c.skipSpaces
      leadingLines fuel (max widest there.place.column) there
    else
      match c.lineBreak? with
      | none => ([], widest, c)
      | some (b, there) =>
        let (more, widest, there) := leadingLines fuel widest there
        (b :: more, widest, there)

/-- Over the spaces that indent a line. -/
def skipIndent (indent : Nat) (c : Cursor) : Cursor :=
  c.past (min (c.span isSpace).1.length (indent - c.place.column))

/-- Over empty lines inside a block: their ends, and the cursor after the next line's
    indentation. -/
def emptyLines (indent : Nat) : Nat → Cursor → Text × Cursor
  | 0, c => ([], c)
  | fuel + 1, c =>
    let c := skipIndent indent c
    match c.lineBreak? with
    | none => ([], c)
    | some (b, there) =>
      let (more, there) := emptyLines indent fuel there
      (b :: more, there)

/-- A block as far as it is read. -/
structure BlockText where
  /-- Its pieces, the last first. -/
  pieces : List Text
  /-- The end of its last line. -/
  lineEnd : Text
  /-- The ends of the empty lines after it. -/
  breaks : Text
  /-- The cursor after all of them. -/
  cursor : Cursor

/-- What the end of a line stands for if another line follows. A folded line end stands for a space,
    and for nothing before empty lines, if neither line begins with a blank. -/
def lineEndBetween (folded : Bool) (first next : CodePoint) (lineEnd breaks : Text) : Text :=
  if folded && lineEnd = [Text.newline] && !isWhite first && !isWhite next then
    (if breaks.isEmpty then [Text.space] else [])
  else lineEnd

/-- Further lines of a block. -/
def blockLines (folded : Bool) (indent : Nat) : Nat → BlockText → BlockText
  | 0, b => b
  | fuel + 1, b =>
    let c := b.cursor
    if c.place.column = indent && !c.rest.isEmpty then
      let (line, there) := c.span (!isLineEnd ·)
      let (lineEnd, there) : Text × Cursor :=
        match there.lineBreak? with
        | some (e, there) => ([e], there)
        | none => ([], there)
      let (breaks, there) := emptyLines indent (there.size + 1) there
      if there.place.column = indent && !there.rest.isEmpty then
        blockLines folded indent fuel
          ⟨lineEndBetween folded c.front there.front lineEnd breaks :: line :: b.breaks :: b.pieces,
           lineEnd, breaks, there⟩
      else ⟨line :: b.breaks :: b.pieces, lineEnd, breaks, there⟩
    else b

/-- The text of a block. -/
def BlockText.text (b : BlockText) (chomping : Chomping) : Text :=
  let ending : Text :=
    match chomping with
    | .clip => b.lineEnd
    | .strip => []
    | .keep => b.lineEnd ++ b.breaks
  b.pieces.reverse.flatten ++ ending

/-- A text in a block, inside of a block that is indented by `indent`, and the cursor after it. -/
def blockText (folded : Bool) (indent : Int) (c : Cursor) : Except ReadError (Text × Cursor) := do
  let (chomping, increment, there) ← blockIndicators c.place c.step
  let there ← restOfLine blockContext c.place there
  let least := max (indent + 1).toNat 1
  let (breaks, column, there) :=
    match increment with
    | none =>
      let (breaks, widest, there) := leadingLines (2 * there.size + 1) 0 there
      (breaks, max least widest, there)
    | some n =>
      let (breaks, there) := emptyLines (least + n - 1) (there.size + 1) there
      (breaks, least + n - 1, there)
  let b := blockLines folded column (there.size + 1) ⟨[], [], breaks, there⟩
  pure (b.text (chomping.getD .clip), b.cursor)

end Esolang.Yaml
