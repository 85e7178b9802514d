/-
  File:      Esolang/Yaml/Place.lean
  Subject:   Places in a YAML document, and what can be wrong there.

  A document is read from left to right by a cursor that counts code points, lines and columns. Four
  line ends are known besides the carriage return, and a byte order mark takes no column. A flaw is
  shown with the line it stands in.

  * `Place`, `Cursor`: where the reader stands, and what is left to be read.
  * `Flaw`, `Layer`: what is wrong, and at which layer of the document.
  * `ReadError`: why a document cannot be read, with the `message` for it.
-/
import Esolang.Failure
import Esolang.Yaml.Style

namespace Esolang.Yaml

/-! ## 1. Places -/

/-- A place in a document. -/
structure Place where
  /-- How many code points stand before it. -/
  index : Nat
  /-- The line, counted from 0. -/
  line : Nat
  /-- The column, counted from 0. -/
  column : Nat
deriving DecidableEq

/-- A place, and what is left from there on. -/
structure Cursor where
  /-- What is left. -/
  rest : Text
  /-- Where it begins. -/
  place : Place
  /-- How many code points the whole document has. Nothing is repeated more often than that. -/
  size : Nat

/-- Code points that end a line. -/
def isLineEnd (c : CodePoint) : Bool := isBreak c || c = '\r'

/-- What stands after a line: its end, or the end of the document. -/
def isLineStop (c : CodePoint) : Bool := isLineEnd c || c.val = 0

/-- The byte order mark. -/
def isOrderMark (c : CodePoint) : Bool := c.val = 0xFEFF

namespace Cursor

/-- The start of a document. -/
def start (source : Text) : Cursor := ⟨source, ⟨0, 0, 0⟩, source.length⟩

/-- The code point some places ahead. After the end stands NUL, which no document holds. -/
def ahead (c : Cursor) (n : Nat) : CodePoint := c.rest[n]?.getD default

/-- The code point that is read next. -/
def front (c : Cursor) : CodePoint := c.ahead 0

/-- The place after one more code point, when it is known what follows it. -/
def after (p : Place) (c : CodePoint) (more : Text) : Place :=
  if isBreak c || (c = '\r' && more.head? ≠ some ('\n' : CodePoint)) then
    ⟨p.index + 1, p.line + 1, 0⟩
  else if isOrderMark c then ⟨p.index + 1, p.line, p.column⟩
  else ⟨p.index + 1, p.line, p.column + 1⟩

/-- One code point on. -/
def step (c : Cursor) : Cursor :=
  match c.rest with
  | [] => c
  | ch :: more => ⟨more, after c.place ch more, c.size⟩

/-- Some code points on. -/
def past (c : Cursor) : Nat → Cursor
  | 0 => c
  | n + 1 => c.step.past n

/-- The longest row of code points of a class, and the cursor after it. -/
def span (c : Cursor) (p : CodePoint → Bool) : Text × Cursor :=
  let row := c.rest.takeWhile p
  (row, c.past row.length)

/-- Over all code points of a class. -/
def skip (c : Cursor) (p : CodePoint → Bool) : Cursor := (c.span p).2

/-- Over spaces. -/
def skipSpaces (c : Cursor) : Cursor := c.skip isSpace

/-- Over a comment, if one begins here. -/
def skipComment (c : Cursor) : Cursor := if c.front = '#' then c.skip (!isLineEnd ·) else c

/-- The line end at the cursor and the cursor after it. The two separators of Unicode stand for
    themselves, all others for a line feed. -/
def lineBreak? (c : Cursor) : Option (CodePoint × Cursor) :=
  let ch := c.front
  if ch = '\r' && c.ahead 1 = '\n' then some (Text.newline, c.past 2)
  else if ch = '\r' || ch = '\n' || ch.val = 0x85 then some (Text.newline, c.step)
  else if isBreak ch then some (ch, c.step)
  else none

/-- Over a line end, if there is one. -/
def skipLineBreak (c : Cursor) : Cursor :=
  match c.lineBreak? with
  | some (_, there) => there
  | none => c

/-- Whether the word at the cursor is the given one. -/
def atWord (c : Cursor) (word : Text) : Bool :=
  c.rest.startsWith word && isGap (c.ahead word.length)

/-- Whether a mark that begins or ends a document stands here. -/
def atDivider (c : Cursor) : Bool := c.atWord "---" || c.atWord "..."

end Cursor

/-! ## 2. Flaws -/

/-- The layers of a document: its tokens, their nesting, the references among its nodes, and the
    data that the nodes stand for. -/
inductive Layer where
  | tokens
  | nesting
  | references
  | data
deriving DecidableEq

/-- What is wrong at a place, and perhaps what was being read and where that began. -/
structure Flaw where
  /-- What was being read. -/
  context : Option Text
  /-- Where that began. -/
  opened : Option Place
  /-- What is wrong. -/
  problem : Text
  /-- Where it is. -/
  place : Place
deriving DecidableEq

/-- How much of a line is shown on either side of a place if the line is too long. -/
def shownSide : Nat := 32

/-- How much longer than that the side of a line may be. -/
def sideSlack : Nat := 4

/-- Stands for the rest of a line that is too long. -/
def ellipsis : Text := " ... "

/-- One side of a line as it is shown, and whether it was cut. -/
def shownPart (side : Text) : Text × Bool :=
  if shownSide + sideSlack < side.length then (side.take shownSide, true) else (side, false)

/-- The line of a place, with a caret below it. -/
def Place.snippet (p : Place) (source : Text) : Text :=
  let (before, cutBefore) := shownPart ((source.take p.index).reverse.takeWhile (!isLineEnd ·))
  let (after, cutAfter) := shownPart ((source.drop p.index).takeWhile (!isLineEnd ·))
  let head := if cutBefore then ellipsis else []
  let tail := if cutAfter then ellipsis else []
  let left := Text.fill 4 Text.space ++ head ++ before.reverse
  left ++ after ++ tail ++ [Text.newline] ++ Text.fill left.length Text.space ++ Text.ofString "^"

/-- The words for a place. -/
def Place.message (p : Place) (source : Text) : Text :=
  Text.ofString "  in \"<unicode string>\", line " ++ Decimal.ofNat (p.line + 1) ++
    Text.ofString ", column "
    ++ Decimal.ofNat (p.column + 1) ++ Text.ofString ":\n" ++ p.snippet source

/-- Whether two places are in the same line and column. -/
def Place.same (p q : Place) : Bool := p.line = q.line && p.column = q.column

/-- The words for a flaw. The place where reading began is left out if it is the place of the
    flaw. -/
def Flaw.message (f : Flaw) (source : Text) : Text :=
  let opened := (f.opened.filter (!·.same f.place)).map (·.message source)
  Text.join [Text.newline] (f.context.toList ++ opened.toList ++
    [f.problem, f.place.message source])

/-- Why a document cannot be read. -/
inductive ReadError where
  /-- It holds a code point that no document may hold. -/
  | unprintable (found : CodePoint) (index : Nat)
  /-- It has a flaw. -/
  | flawed (layer : Layer) (flaw : Flaw)
  /-- What should be a whole number in some base is none. -/
  | notWhole (base : Nat) (given : Text)
  /-- What should be a number is none. -/
  | notDecimal (given : Text)
  /-- What should be a truth value is none. -/
  | notTruth (given : Text)
  /-- What should be a number is empty. -/
  | noDigits
  /-- A number in it breaks a limit. -/
  | broken (why : Breakdown)
  /-- It stands for something that plain data cannot hold. -/
  | notPlain
deriving DecidableEq

/-- The words for an error. -/
def ReadError.message (e : ReadError) (source : Text) : Text :=
  match e with
  | .unprintable found index =>
    Text.ofString "unacceptable character #x" ++ Decimal.hex 4 found.val
      ++ Text.ofString ": special characters are not allowed\n  in \"<unicode string>\", position "
      ++ Decimal.ofNat index
  | .flawed _ flaw => flaw.message source
  | .notWhole base given =>
    Text.ofString "invalid literal for int() with base " ++ Decimal.ofNat base ++ Text.ofString ": "
      ++ given.quoted.take 200
  | .notDecimal given => Text.ofString "could not convert string to float: " ++ given.quoted
  | .notTruth given => given.quoted
  | .noDigits => "string index out of range"
  | .broken why => why.message
  | .notPlain => "data that cannot be shown"

/-- The error of a flaw among the tokens, at the cursor. -/
def Cursor.flaw (c : Cursor) (context : String) (opened : Place) (problem : Text) : ReadError :=
  .flawed .tokens ⟨some context, some opened, problem, c.place⟩

/-- The same, where something else was found than was expected. `n` code points are in order. -/
def Cursor.unexpected (c : Cursor) (context : String) (opened : Place) (expected : String)
    (n : Nat) : ReadError :=
  c.flaw context opened
    (Text.ofString "expected " ++ Text.ofString expected ++ Text.ofString ", but found " ++
      Text.quoted [c.ahead n])

/-! ## 3. What a document may hold -/

/-- Code points that a document may hold. -/
def isAllowed (c : CodePoint) : Bool :=
  c = '\t' || c = '\n' || c = '\r' || (0x20 ≤ c.val && c.val ≤ 0x7E) || c.val = 0x85
    || (0xA0 ≤ c.val && c.val ≤ 0xD7FF) || (0xE000 ≤ c.val && c.val ≤ 0xFFFD) || 0x10000 ≤ c.val

/-- The error of the first code point that no document may hold. -/
def unprintable? (source : Text) : Option ReadError :=
  match source.dropWhile isAllowed with
  | [] => none
  | c :: rest => some (.unprintable c (source.length - rest.length - 1))

end Esolang.Yaml
