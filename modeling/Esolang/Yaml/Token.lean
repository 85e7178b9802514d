/-
  File:      Esolang/Yaml/Token.lean
  Subject:   The tokens of a YAML document, and those among them that carry a name.

  Besides texts and marks a document has anchors and aliases, which name a node and refer to it,
  tags, which say what a node stands for, and directives, which come before a document.

  * `Token`: a token with the places where it begins and ends.
  * `anchorName`, `tagParts`, `directive`: the tokens that carry a name.
-/
import Esolang.Text.Utf8
import Esolang.Yaml.Scalar

namespace Esolang.Yaml

/-! ## 1. Tokens -/

/-- What a token is. -/
inductive TokenKind where
  /-- A directive that gives the version of the language. -/
  | version (major : Nat)
  /-- A directive that says what a handle of tags stands for. -/
  | handle (name front : Text)
  /-- A directive that means nothing. -/
  | otherDirective
  /-- The mark that begins a document. -/
  | documentStart
  /-- The mark that ends a document. -/
  | documentEnd
  /-- The end of everything. -/
  | streamEnd
  /-- A list in a block begins. -/
  | listStart
  /-- A map in a block begins. -/
  | mapStart
  /-- A list or a map in a block ends. -/
  | blockEnd
  /-- A list in brackets begins. -/
  | flowListStart
  /-- A list in brackets ends. -/
  | flowListEnd
  /-- A map in brackets begins. -/
  | flowMapStart
  /-- A map in brackets ends. -/
  | flowMapEnd
  /-- A key follows. -/
  | key
  /-- A value follows. -/
  | value
  /-- An item of a list in a block follows. -/
  | item
  /-- What divides items and entries in brackets. -/
  | comma
  /-- A reference to a node. -/
  | reference (name : Text)
  /-- The name of a node. -/
  | anchor (name : Text)
  /-- What a node stands for: the handle, if there is one, and the rest of the tag. -/
  | tag (handle : Option Text) (name : Text)
  /-- A text, and whether it stands without quotes. -/
  | scalar (text : Text) (plain : Bool)
deriving DecidableEq

/-- A token. -/
structure Token where
  /-- What it is. -/
  kind : TokenKind
  /-- Where it begins. -/
  start : Place
  /-- Where it ends. -/
  stop : Place

/-- How a token is called in messages. -/
def TokenKind.name : TokenKind → Text
  | .version _ | .handle .. | .otherDirective => "<directive>"
  | .documentStart => "<document start>"
  | .documentEnd => "<document end>"
  | .streamEnd => "<stream end>"
  | .listStart => "<block sequence start>"
  | .mapStart => "<block mapping start>"
  | .blockEnd => "<block end>"
  | .flowListStart => "["
  | .flowListEnd => "]"
  | .flowMapStart => "\x7b"
  | .flowMapEnd => "\x7d"
  | .key => "?"
  | .value => ":"
  | .item => "-"
  | .comma => ","
  | .reference _ => "<alias>"
  | .anchor _ => "<anchor>"
  | .tag .. => "<tag>"
  | .scalar .. => "<scalar>"

/-! ## 2. Names -/

/-- Code points of names. -/
def isNamePart (c : CodePoint) : Bool := c.isLetter || c.isAsciiDigit || c = '-' || c = '_'

/-- What may follow a tag: a space, a line end, or the end of everything. -/
def isTagStop (c : CodePoint) : Bool := isGap c && c ≠ '\t'

/-- What may follow the name of an anchor or an alias. -/
def isAnchorStop (c : CodePoint) : Bool := isGap c || (Text.ofString "?:,]\x7d%@\x60").contains c

/-- What a name is made of, in messages. -/
def namePart : String := "alphabetic or numeric character"

/-- The name after the mark of an anchor or an alias, and the cursor after it. -/
def anchorName (context : String) (c : Cursor) : Except ReadError (Text × Cursor) :=
  let (name, there) := c.step.span isNamePart
  if name.isEmpty || !isAnchorStop there.front then
    .error (there.unexpected context c.place namePart 0)
  else .ok (name, there)

/-! ## 3. Tags -/

/-- Code points that stand for themselves in a tag. -/
def isTagPart (c : CodePoint) : Bool :=
  c.isLetter || c.isAsciiDigit || (Text.ofString "-;/?:@&=+$,_.!~*'()[]").contains c

/-- The bytes of escapes in a tag, and the cursor after them. -/
def tagBytes (context : String) (opened : Place) :
    Nat → Cursor → Except ReadError (List Nat × Cursor)
  | 0, c => .ok ([], c)
  | fuel + 1, c =>
    if c.front = '%' then
      let digits := c.step
      let good := digits.hexDigits 2
      if good < 2 then
        .error
          (digits.unexpected context opened "URI escape sequence of 2 hexadecimal numbers" good)
      else do
        let (more, there) ← tagBytes context opened fuel (digits.past 2)
        pure (hexValue (digits.rest.take 2) :: more, there)
    else .ok ([], c)

/-- The code points of a tag and the cursor after them. -/
def tagBody (context : String) (opened : Place) : Nat → Cursor → Except ReadError (Text × Cursor)
  | 0, c => .ok ([], c)
  | fuel + 1, c => do
    let (row, there) := c.span isTagPart
    if there.front = '%' then
      let (bytes, next) ← tagBytes context opened (there.size + 1) there
      match Utf8.decode bytes with
      | .error why => .error (there.flaw context opened why.message)
      | .ok t =>
        let (more, next) ← tagBody context opened fuel next
        pure (row ++ t ++ more, next)
    else pure (row, there)

/-- The code points of a tag, of which there must be some, and the cursor after them. -/
def tagName (what : String) (opened : Place) (c : Cursor) : Except ReadError (Text × Cursor) :=
  if isTagPart c.front || c.front = '%' then
    tagBody s!"while scanning a {what}" opened (c.size + 1) c
  else .error (c.unexpected s!"while parsing a {what}" opened "URI" 0)

/-- The handle of a tag with its exclamation marks, and the cursor after it. -/
def tagHandle (what : String) (opened : Place) (c : Cursor) : Except ReadError (Text × Cursor) :=
  if c.front ≠ '!' then .error (c.unexpected s!"while scanning a {what}" opened "'!'" 0)
  else if c.ahead 1 = ' ' then .ok ("!", c.step)
  else
    let (name, there) := c.step.span isNamePart
    if there.front ≠ '!' then .error (there.unexpected s!"while scanning a {what}" opened "'!'" 0)
    else .ok (Text.ofString "!" ++ name ++ Text.ofString "!", there.step)

/-- The handle and the name of a tag, and the cursor after them. A lone exclamation mark is a name
    without a handle, and so is what stands in angle brackets. -/
def tagParts (c : Cursor) : Except ReadError (Option Text × Text × Cursor) := do
  let next := c.ahead 1
  let (handle, name, there) ←
    if next = '<' then do
      let (name, there) ← tagName "tag" c.place (c.past 2)
      if there.front = '>' then pure (none, name, there.step)
      else .error (there.unexpected "while parsing a tag" c.place "'>'" 0)
    else if isGap next then pure (none, Text.ofString "!", c.step)
    else do
      let word := c.step.rest.takeWhile (!isTagStop ·)
      let (handle, there) ←
        if word.contains '!' then tagHandle "tag" c.place c else pure (Text.ofString "!", c.step)
      let (name, there) ← tagName "tag" c.place there
      pure (some handle, name, there)
  if isTagStop there.front then pure (handle, name, there)
  else .error (there.unexpected "while scanning a tag" c.place "' '" 0)

/-! ## 4. Directives -/

/-- What is being read in a directive. -/
def directiveContext : String := "while scanning a directive"

/-- A number of a version, and the cursor after it. -/
def versionNumber (opened : Place) (c : Cursor) : Except ReadError (Nat × Cursor) :=
  let (digits, there) := c.span CodePoint.isAsciiDigit
  if digits.isEmpty then .error (c.unexpected directiveContext opened "a digit" 0)
  else
    match Decimal.read (digits.map (·.val - 48)) with
    | .ok n => .ok (n, there)
    | .error b => .error (.broken b)

/-- The version of a directive, and the cursor after it. -/
def versionDirective (opened : Place) (c : Cursor) : Except ReadError (TokenKind × Cursor) := do
  let (major, there) ← versionNumber opened c.skipSpaces
  if there.front ≠ '.' then .error (there.unexpected directiveContext opened "a digit or '.'" 0)
  else
    let (_, there) ← versionNumber opened there.step
    if isTagStop there.front then pure (.version major, there)
    else .error (there.unexpected directiveContext opened "a digit or ' '" 0)

/-- The handle of a directive and what it stands for, and the cursor after it. -/
def handleDirective (opened : Place) (c : Cursor) : Except ReadError (TokenKind × Cursor) := do
  let (name, there) ← tagHandle "directive" opened c.skipSpaces
  if there.front ≠ ' ' then .error (there.unexpected directiveContext opened "' '" 0)
  else
    let (front, there) ← tagName "directive" opened there.skipSpaces
    if isTagStop there.front then pure (.handle name front, there)
    else .error (there.unexpected directiveContext opened "' '" 0)

/-- A directive, the place where it ends, and the cursor after its line. -/
def directive (c : Cursor) : Except ReadError (TokenKind × Place × Cursor) := do
  let (name, there) := c.step.span isNamePart
  if name.isEmpty || !isTagStop there.front then
    .error (there.unexpected directiveContext c.place namePart 0)
  else
    let (kind, there) ←
      if name = "YAML" then versionDirective c.place there
      else if name = "TAG" then handleDirective c.place there
      else pure (.otherDirective, there)
    let after := if kind = .otherDirective then there.skip (!isLineEnd ·) else there
    let after ← restOfLine directiveContext c.place after
    pure (kind, there.place, after)

end Esolang.Yaml
