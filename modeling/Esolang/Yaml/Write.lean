/-
  File:      Esolang/Yaml/Write.lean
  Subject:   Plain data as a YAML document.

  Maps and lists stand in blocks; a list inside a map is not indented, and an empty one stands in
  brackets. Texts are folded where a line has grown longer than `pageWidth`. A key that is empty,
  long or of several lines is announced by a question mark.

  * `Page.plain`, `Page.singleQuoted`, `Page.doubleQuoted`: texts in the three styles.
  * `Page.node`: any plain data.
  * `write`: a whole document.
-/
import Esolang.Number.Limit
import Esolang.Yaml.Page
import Esolang.Yaml.Style
import Esolang.Value.Plain

namespace Esolang.Yaml

/-- The column after which lines are folded. -/
def pageWidth : Nat := 80

/-- By how much blocks are indented. -/
def indentStep : Nat := 2

/-! ## 1. Runs -/

/-- What a text consists of. -/
inductive Piece where
  /-- Neither spaces nor line breaks. -/
  | word (t : Text)
  /-- A number of spaces. -/
  | spaces (n : Nat)
  /-- Line breaks. -/
  | breaks (t : Text)

/-- One more code point in front of the pieces of a text. -/
def addFront (c : CodePoint) : List Piece → List Piece
  | .word t :: rest =>
    if isSpace c then .spaces 1 :: .word t :: rest
    else if isBreak c then .breaks [c] :: .word t :: rest
    else .word (c :: t) :: rest
  | .spaces n :: rest =>
    if isSpace c then .spaces (n + 1) :: rest
    else if isBreak c then .breaks [c] :: .spaces n :: rest
    else .word [c] :: .spaces n :: rest
  | .breaks t :: rest =>
    if isSpace c then .spaces 1 :: .breaks t :: rest
    else if isBreak c then .breaks (c :: t) :: rest
    else .word [c] :: .breaks t :: rest
  | [] => if isSpace c then [.spaces 1] else if isBreak c then [.breaks [c]] else [.word [c]]

/-- The pieces of a text. -/
def pieces (t : Text) : List Piece := t.foldr addFront []

/-! ## 2. Texts -/

namespace Page

/-- Line breaks inside single quotes: the first line feed is written twice. -/
def foldBreaks (p : Page) (indent : Nat) (breaks : Text) : Page :=
  let p := if breaks.head? = some Text.newline then p.newLine Text.newline else p
  (breaks.foldl newLine p).indentTo indent

/-- A text without quotes. A single space may become the end of a long line. -/
def plain (p : Page) (indent : Nat) (folds : Bool) (t : Text) : Page :=
  (pieces t).foldl
    (fun p piece =>
      match piece with
      | .word w => p.put w
      | .spaces n =>
        if n = 1 && pageWidth < p.column && folds then (p.indentTo indent).afterWord
        else p.put (Text.fill n Text.space)
      | .breaks b => p.foldBreaks indent b)
    p.space.afterWord

/-- A word in single quotes: the quotes inside are doubled. -/
def doubleQuotes (t : Text) : Text :=
  t.flatMap fun (c : CodePoint) => if c = '\'' then [c, c] else [c]

/-- The pieces of a text in single quotes. A single space between two pieces may become the end of a
    long line. -/
def singlePieces (p : Page) (indent : Nat) (folds first : Bool) : List Piece → Page
  | [] => p
  | .word w :: rest => singlePieces (p.put (doubleQuotes w)) indent folds false rest
  | .spaces n :: rest =>
    let p :=
      if n = 1 && pageWidth < p.column && folds && !first && !rest.isEmpty then p.indentTo indent
      else p.put (Text.fill n Text.space)
    singlePieces p indent folds false rest
  | .breaks b :: rest => singlePieces (p.foldBreaks indent b) indent folds false rest

/-- A text in single quotes. -/
def singleQuoted (p : Page) (indent : Nat) (folds : Bool) (t : Text) : Page :=
  ((p.mark "'").singlePieces indent folds true (pieces t)).close "'"

end Page

/-- Code points that stand in double quotes as they are. -/
def isBare (c : CodePoint) : Bool :=
  ((0x20 ≤ c.val && c.val ≤ 0x7E) || (0xA0 ≤ c.val && c.val ≤ 0xD7FF)
      || (0xE000 ≤ c.val && c.val ≤ 0xFFFD))
    && c ≠ '"' && c ≠ '\\' && !isBreak c && c.val ≠ 0xFEFF

/-- The letters of the short escapes. -/
def shortEscapes : List (Nat × Char) :=
  [(0, '0'), (7, 'a'), (8, 'b'), (9, 't'), (10, 'n'), (11, 'v'), (12, 'f'), (13, 'r'), (27, 'e'),
   (34, '"'), (92, '\\'), (0x85, 'N'), (0xA0, '_'), (0x2028, 'L'), (0x2029, 'P')]

/-- A small letter as a capital one. -/
def capital (c : CodePoint) : CodePoint :=
  if h : 97 ≤ c.val ∧ c.val ≤ 122 then ⟨c.val - 32, by omega⟩ else c

/-- An escape in double quotes. -/
def escape (c : CodePoint) : Text :=
  let code (letter : Char) (width : Nat) : Text :=
    (letter : CodePoint) :: (Decimal.hex width c.val).map capital
  let body : Text :=
    match shortEscapes.find? (·.1 = c.val) with
    | some (_, letter) => [(letter : CodePoint)]
    | none => if c.val ≤ 0xFF then code 'x' 2 else if c.val ≤ 0xFFFF then code 'u' 4 else code 'U' 8
  ('\\' : CodePoint) :: body

namespace Page

/-- Breaks a line inside double quotes; a space that the next line would begin with is escaped. -/
def breakQuoted (p : Page) (indent : Nat) (next : Option CodePoint) : Page :=
  let p := ((p.put "\\").indentTo indent).afterWord
  if next.any isSpace then p.put "\\" else p

/-- The inside of double quotes. `pending` is the row of bare code points since the last escape or
    line break, the last first; it is written once it ends. A line is broken before a space, before
    the first code point of such a row, and after an escape, but not next to the quotes. -/
def doubleInside (p : Page) (indent : Nat) (folds first : Bool) (pending : Text) : Text → Page
  | [] => p.put pending.reverse
  | c :: rest =>
    let inner := folds && !first && !rest.isEmpty
    if isBare c then
      if inner && (isSpace c || pending.isEmpty) && pageWidth < p.column + pending.length then
        doubleInside ((p.put pending.reverse).breakQuoted indent (some c))
          indent folds false [c] rest
      else doubleInside p indent folds false (c :: pending) rest
    else
      let p := (p.put pending.reverse).put (escape c)
      if inner && pageWidth + 1 < p.column then
        doubleInside (p.breakQuoted indent rest.head?) indent folds false [] rest
      else doubleInside p indent folds false [] rest

/-- A text in double quotes. -/
def doubleQuoted (p : Page) (indent : Nat) (folds : Bool) (t : Text) : Page :=
  ((p.mark "\"").doubleInside indent folds true [] t).close "\""

/-- A text in its style. -/
def styled (p : Page) (indent : Nat) (folds : Bool) (t : Text) : Page :=
  match Style.of t with
  | .plain => p.plain indent folds t
  | .single => p.singleQuoted indent folds t
  | .double => p.doubleQuoted indent folds t

end Page

/-! ## 3. Data -/

/-- The word for a truth value. -/
def boolWord (b : Bool) : Text := if b then "true" else "false"

/-- A scalar as it is written. -/
inductive Scalar where
  /-- A text, in its style. -/
  | text (t : Text)
  /-- A word that stands without quotes. -/
  | word (t : Text)

/-- The text of a scalar. -/
def Scalar.content : Scalar → Text
  | .text t | .word t => t

/-- Writes a scalar. -/
def Page.scalar (p : Page) (indent : Nat) (folds : Bool) : Scalar → Page
  | .text t => p.styled indent folds t
  | .word t => p.plain indent folds t

/-- A key as a scalar, and the length of its kind's name. -/
def keyScalar : Key → Except Breakdown (Scalar × Nat)
  | .text t => .ok (.text t, 5)
  | .int n => (Decimal.print n).map fun t => (.word t, 5)
  | .bool b => .ok (.word (boolWord b), 6)
  | .null => .ok (.word "null", 6)

/-- The least length, with the name of its kind, of a key that is announced by a question mark. -/
def longKey : Nat := 128

/-- Whether a key can stand directly before its colon. -/
def isSimpleKey (s : Scalar) (kindLength : Nat) : Bool :=
  kindLength + s.content.length < longKey && !s.content.isEmpty && !s.content.any isBreak

/-- The indentation of something inside a block; at the top there is no block. -/
def deeper (indent : Option Nat) : Nat :=
  match indent with
  | none => 0
  | some n => n + indentStep

/-- The indentation of the further lines of a scalar. -/
def scalarIndent (indent : Option Nat) : Nat := indent.getD 0 + indentStep

/-- A key and what stands between it and its value. -/
def Page.key (p : Page) (indent : Nat) (k : Key) : Except Breakdown Page := do
  let (s, kindLength) ← keyScalar k
  if isSimpleKey s kindLength then
    pure ((p.scalar (indent + indentStep) false s).close ":")
  else
    pure ((((p.openBlock "?").scalar (indent + indentStep) true s).indentTo indent).openBlock ":")

mutual

/-- Writes data inside a block of some indentation; `inMap` says whether it is the value of a
    key. -/
def Page.node (p : Page) (indent : Option Nat) (inMap : Bool) : Plain → Except Breakdown Page
  | .null => .ok (p.scalar (scalarIndent indent) true (.word "null"))
  | .bool b => .ok (p.scalar (scalarIndent indent) true (.word (boolWord b)))
  | .int n => (Decimal.print n).map fun t => p.scalar (scalarIndent indent) true (.word t)
  | .decimal t => .ok (p.scalar (scalarIndent indent) true (.word t))
  | .text t => .ok (p.scalar (scalarIndent indent) true (.text t))
  | .list [] => .ok (p.mark "[]")
  | .list (x :: xs) =>
    let inner := if inMap && !p.fresh then indent.getD 0 else deeper indent
    Page.items p inner (x :: xs)
  | .map [] => .ok (p.mark "\x7b\x7d")
  | .map (e :: es) => Page.entries p (deeper indent) (e :: es)

/-- The items of a list, each after a dash. -/
def Page.items (p : Page) (indent : Nat) : List Plain → Except Breakdown Page
  | [] => .ok p
  | x :: xs => do
    let p ← Page.node ((p.indentTo indent).openBlock "-") (some indent) false x
    Page.items p indent xs

/-- The entries of a map, each on a line of its own. -/
def Page.entries (p : Page) (indent : Nat) : List (Key × Plain) → Except Breakdown Page
  | [] => .ok p
  | (k, v) :: rest => do
    let p ← (p.indentTo indent).key indent k
    let p ← Page.node p (some indent) true v
    Page.entries p indent rest

end

/-- Whether a document is a word without quotes. Such a document needs a mark at its end. -/
def isOpenEnded : Plain → Bool
  | .text t => Style.of t = .plain
  | .list _ | .map _ => false
  | _ => true

/-- A YAML document of plain data. -/
def write (v : Plain) : Except Breakdown Text := do
  let p ← Page.empty.node none false v
  let p := p.indentTo 0
  pure (if isOpenEnded v then (p.mark "...").indentTo 0 else p).text

end Esolang.Yaml
