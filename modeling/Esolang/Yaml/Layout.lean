/-
  File:      Esolang/Yaml/Layout.lean
  Subject:   A YAML document as a row of tokens.

  Where a block begins and ends follows from columns: a key or an item that stands further to the
  right than the block around it opens a block, and everything that stands further to the left
  closes it. Whether a text is a key shows only at the colon after it, so the place of every text
  that could be one is kept, for as long as the colon may still come: in the same line and within
  1024 code points.

  A flaw among the tokens does not hinder what stands before it from being read. `Feed` therefore
  holds the tokens that can be had before the flaw is met, and the flaw.

  * `Layout`: the cursor, the open blocks, and the possible keys.
  * `Layout.advance`: the next token.
  * `Feed.of`: all tokens.
-/
import Esolang.Table
import Esolang.Yaml.Token

namespace Esolang.Yaml

/-! ## 1. Open blocks and possible keys -/

/-- A token that is a key if a colon follows. -/
structure KeyCandidate where
  /-- How many tokens stand before it. -/
  number : Nat
  /-- Whether nothing but a key can stand there. -/
  required : Bool
  /-- Where it begins. -/
  place : Place

/-- How far a document is divided into tokens. -/
structure Layout where
  /-- What is left to be divided. -/
  cursor : Cursor
  /-- The tokens, the last first. -/
  tokens : List Token
  /-- How many they are. -/
  count : Nat
  /-- How many brackets are open. -/
  depth : Nat
  /-- The column of the innermost block; -1 if there is none. -/
  indent : Int
  /-- The columns of the blocks around it, the innermost first. -/
  outer : List Int
  /-- Whether a key may begin here. -/
  keyAllowed : Bool
  /-- The possible keys, by the number of brackets around them. -/
  keys : Table Nat KeyCandidate
  /-- Whether everything is divided. -/
  done : Bool

namespace Layout

/-- The start of a document. -/
def start (source : Text) : Layout := ⟨.start source, [], 0, 0, -1, [], true, [], false⟩

/-- The column of the cursor. -/
def column (s : Layout) : Int := s.cursor.place.column

/-- One more token. -/
def push (s : Layout) (t : Token) : Layout :=
  { s with tokens := t :: s.tokens, count := s.count + 1 }

/-- One more token, from a place to the cursor. -/
def add (s : Layout) (kind : TokenKind) (opened : Place) : Layout :=
  s.push ⟨kind, opened, s.cursor.place⟩

/-- One more token that takes no room. -/
def addEmpty (s : Layout) (kind : TokenKind) : Layout := s.add kind s.cursor.place

/-- One more token for the next code points. -/
def addNext (s : Layout) (kind : TokenKind) (width : Nat) : Layout :=
  { s with cursor := s.cursor.past width }.add kind s.cursor.place

/-- A token without room of its own, put in before others. -/
def insert (s : Layout) (kind : TokenKind) (key : KeyCandidate) : Layout :=
  let later := s.count - key.number
  { s with
    tokens := s.tokens.take later ++ ⟨kind, key.place, key.place⟩ :: s.tokens.drop later,
    count := s.count + 1 }

/-- The error of a key without its colon. -/
def noColon (s : Layout) (key : KeyCandidate) : ReadError :=
  s.cursor.flaw "while scanning a simple key" key.place "could not find expected ':'"

/-- Whether the colon of a key can no longer come. -/
def isOverdue (s : Layout) (key : KeyCandidate) : Bool :=
  key.place.line ≠ s.cursor.place.line || key.place.index + 1024 < s.cursor.place.index

/-- Without the keys whose colons can no longer come. -/
def dropOverdue (s : Layout) : Except ReadError Layout :=
  match s.keys.find? fun (_, key) => s.isOverdue key && key.required with
  | some (_, key) => .error (s.noColon key)
  | none => .ok { s with keys := s.keys.filter fun (_, key) => !s.isOverdue key }

/-- Without the possible key inside the same brackets. -/
def dropKey (s : Layout) : Except ReadError Layout :=
  match s.keys.get? s.depth with
  | none => .ok s
  | some key =>
    if key.required then .error (s.noColon key)
    else .ok { s with keys := s.keys.filter (·.1 ≠ s.depth) }

/-- The next token may be a key. -/
def noteKey (s : Layout) : Except ReadError Layout :=
  if s.keyAllowed then do
    let required := s.depth = 0 && s.indent = s.column
    let s ← s.dropKey
    pure { s with keys := s.keys.put s.depth ⟨s.count, required, s.cursor.place⟩ }
  else .ok s

/-- Closes all blocks to the right of a column. -/
def closeBlocks (column : Int) : List Int → Layout → Layout
  | [], s => s
  | around :: further, s =>
    if column < s.indent then
      closeBlocks column further { s.addEmpty .blockEnd with indent := around, outer := further }
    else s

/-- Closes all blocks to the right of a column, unless there are brackets around. -/
def closeTo (s : Layout) (column : Int) : Layout :=
  if s.depth = 0 then closeBlocks column s.outer s else s

/-- Opens a block in a column, if it is to the right of the innermost one. -/
def openBlock (s : Layout) (column : Int) : Option Layout :=
  if s.indent < column then some { s with indent := column, outer := s.indent :: s.outer } else none

/-- Opens a block at the cursor, if there is none in its column yet. -/
def openHere (s : Layout) (kind : TokenKind) : Layout :=
  match s.openBlock s.column with
  | some s => s.addEmpty kind
  | none => s

/-! ## 2. Gaps -/

/-- Over spaces, comments and line ends. Outside of brackets a key may begin in every new line. -/
def skipGaps : Nat → Layout → Layout
  | 0, s => s
  | fuel + 1, s =>
    let c := s.cursor.skipSpaces.skipComment
    match c.lineBreak? with
    | none => { s with cursor := c }
    | some (_, there) =>
      skipGaps fuel { s with cursor := there, keyAllowed := s.keyAllowed || s.depth = 0 }

/-- To the next token. A byte order mark at the start of everything does not count. -/
def skip (s : Layout) : Layout :=
  let s :=
    if s.cursor.place.index = 0 && isOrderMark s.cursor.front then
      { s with cursor := s.cursor.step }
    else s
  skipGaps (s.cursor.size + 1) s

/-! ## 3. Tokens -/

/-- The end of everything. -/
def finish (s : Layout) : Except ReadError Layout := do
  let s ← (s.closeTo (-1)).dropKey
  pure { s.addEmpty .streamEnd with keyAllowed := false, keys := [], done := true }

/-- A directive. -/
def addDirective (s : Layout) : Except ReadError Layout := do
  let s ← (s.closeTo (-1)).dropKey
  let (kind, stop, there) ← directive s.cursor
  pure { s.push ⟨kind, s.cursor.place, stop⟩ with cursor := there, keyAllowed := false }

/-- A mark that begins or ends a document. -/
def addDivider (s : Layout) (kind : TokenKind) : Except ReadError Layout := do
  let s ← (s.closeTo (-1)).dropKey
  pure { s.addNext kind 3 with keyAllowed := false }

/-- An opening bracket. -/
def addOpening (s : Layout) (kind : TokenKind) : Except ReadError Layout := do
  let s ← s.noteKey
  pure { s.addNext kind 1 with depth := s.depth + 1, keyAllowed := true }

/-- A closing bracket. -/
def addClosing (s : Layout) (kind : TokenKind) : Except ReadError Layout := do
  let s ← s.dropKey
  pure { s.addNext kind 1 with depth := s.depth - 1, keyAllowed := false }

/-- A comma in brackets. -/
def addComma (s : Layout) : Except ReadError Layout := do
  let s ← s.dropKey
  pure { s.addNext .comma 1 with keyAllowed := true }

/-- The error of something that may not stand where the cursor is. -/
def misplaced (s : Layout) (what : String) : ReadError :=
  .flawed .tokens ⟨none, none, Text.ofString what ++ Text.ofString " are not allowed here",
    s.cursor.place⟩

/-- The mark of an item. -/
def addItem (s : Layout) : Except ReadError Layout := do
  if s.depth = 0 && !s.keyAllowed then .error (s.misplaced "sequence entries")
  else
    let s := if s.depth = 0 then s.openHere .listStart else s
    let s ← s.dropKey
    pure { s.addNext .item 1 with keyAllowed := true }

/-- The mark of a key. -/
def addKey (s : Layout) : Except ReadError Layout := do
  if s.depth = 0 && !s.keyAllowed then .error (s.misplaced "mapping keys")
  else
    let s := if s.depth = 0 then s.openHere .mapStart else s
    let s ← s.dropKey
    pure { s.addNext .key 1 with keyAllowed := s.depth = 0 }

/-- The colon before a value. The possible key before it becomes a key. -/
def addValue (s : Layout) : Except ReadError Layout := do
  match s.keys.get? s.depth with
  | some key =>
    let s := { s with keys := s.keys.filter (·.1 ≠ s.depth) }
    let s := s.insert .key key
    let s :=
      match if s.depth = 0 then s.openBlock key.place.column else none with
      | some s => s.insert .mapStart key
      | none => s
    pure { s.addNext .value 1 with keyAllowed := false }
  | none =>
    if s.depth = 0 && !s.keyAllowed then .error (s.misplaced "mapping values")
    else
      let s := if s.depth = 0 then s.openHere .mapStart else s
      pure { s.addNext .value 1 with keyAllowed := s.depth = 0 }

/-- An anchor, a reference, a tag or a text in quotes: a token that may be a key. -/
def addLeaf (s : Layout) (read : Cursor → Except ReadError (TokenKind × Cursor)) :
    Except ReadError Layout := do
  let s ← s.noteKey
  let (kind, there) ← read s.cursor
  pure { { s with cursor := there }.add kind s.cursor.place with keyAllowed := false }

/-- A text in a block. A key may follow it. -/
def addBlockText (s : Layout) (folded : Bool) : Except ReadError Layout := do
  let s ← s.dropKey
  let (t, there) ← blockText folded s.indent s.cursor
  pure { { s with cursor := there }.add (.scalar t false) s.cursor.place with keyAllowed := true }

/-- A text without quotes. -/
def addPlain (s : Layout) : Except ReadError Layout := do
  let s ← s.noteKey
  let p := plainText (s.depth ≠ 0) (s.indent + 1) s.cursor
  pure { s.push ⟨.scalar p.text true, s.cursor.place, p.stop⟩ with
    cursor := p.cursor, keyAllowed := p.newLine }

/-- Whether a text without quotes can begin at the cursor. -/
def atPlain (s : Layout) : Bool :=
  let ch := s.cursor.front
  !(isGap ch || (Text.ofString "-?:,[]\x7b\x7d#&*!|>'\"%@\x60").contains ch)
    || (!isGap (s.cursor.ahead 1) && (ch = '-' || (s.depth = 0 && (ch = '?' || ch = ':'))))

/-- The token at the cursor. -/
def addToken (s : Layout) : Except ReadError Layout :=
  let c := s.cursor
  let ch := c.front
  let lineStart := c.place.column = 0
  let inFlow := s.depth ≠ 0
  let apart := isGap (c.ahead 1)
  if c.rest.isEmpty then s.finish
  else if lineStart && ch = '%' then s.addDirective
  else if lineStart && c.atWord "---" then s.addDivider .documentStart
  else if lineStart && c.atWord "..." then s.addDivider .documentEnd
  else if ch = '[' then s.addOpening .flowListStart
  else if ch = '\x7b' then s.addOpening .flowMapStart
  else if ch = ']' then s.addClosing .flowListEnd
  else if ch = '\x7d' then s.addClosing .flowMapEnd
  else if ch = ',' then s.addComma
  else if ch = '-' && apart then s.addItem
  else if ch = '?' && (inFlow || apart) then s.addKey
  else if ch = ':' && (inFlow || apart) then s.addValue
  else if ch = '*' then
    s.addLeaf fun c => (anchorName "while scanning an alias" c).map fun (name, there) =>
      (.reference name, there)
  else if ch = '&' then
    s.addLeaf fun c => (anchorName "while scanning an anchor" c).map fun (name, there) =>
      (.anchor name, there)
  else if ch = '!' then
    s.addLeaf fun c => (tagParts c).map fun (handle, name, there) => (.tag handle name, there)
  else if ch = '|' && !inFlow then s.addBlockText false
  else if ch = '>' && !inFlow then s.addBlockText true
  else if ch = '\'' || ch = '"' then
    s.addLeaf fun c => (quotedText (ch = '"') c).map fun (t, there) => (.scalar t false, there)
  else if s.atPlain then s.addPlain
  else
    .error (.flawed .tokens
      ⟨some "while scanning for the next token", none,
       Text.ofString "found character " ++ Text.quoted [ch] ++
         Text.ofString " that cannot start any token",
       c.place⟩)

/-- The next token, together with the ends of the blocks before it. -/
def advance (s : Layout) : Except ReadError Layout := do
  let s ← s.skip.dropOverdue
  let s ← (s.closeTo s.column).addToken
  if s.done then pure s else s.dropOverdue

/-- How many tokens are certain: none from the first possible key on. -/
def settled (s : Layout) : Nat := s.keys.foldl (fun least (_, key) => min least key.number) s.count

end Layout

/-! ## 4. All tokens -/

/-- The tokens of a document that can be had before its first flaw, and the flaw. -/
structure Feed where
  /-- The tokens. -/
  tokens : List Token
  /-- The flaw that is met after them. -/
  flaw : Option ReadError

namespace Feed

/-- All tokens. Looking for the next token begins when all tokens that are certain are used up, so
    only those can be had before a flaw in it. -/
def collect : Nat → Layout → Feed
  | 0, s => ⟨s.tokens.reverse, none⟩
  | fuel + 1, s =>
    match s.advance with
    | .error e => ⟨s.tokens.reverse.take s.settled, some e⟩
    | .ok next => if next.done then ⟨next.tokens.reverse, none⟩ else collect fuel next

/-- The tokens of a document. -/
def of (source : Text) : Feed := collect (2 * source.length + 2) (.start source)

end Feed

end Esolang.Yaml
