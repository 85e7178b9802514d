/-
  File:      Esolang/Yaml/Style.lean
  Subject:   How a text is quoted in a YAML document.

  A text stands without quotes if it cannot be taken for anything else, in single quotes if it holds
  nothing that must be escaped, and in double quotes otherwise.

  * `isBreak`, `isGap`, `isDirect`: the classes of code points that decide it.
  * `Style.of`: the style of a text.
-/
import Esolang.Yaml.Meaning

namespace Esolang.Yaml

/-- Code points that end a line. -/
def isBreak (c : CodePoint) : Bool := c = '\n' || c.val = 0x85 || c.val = 0x2028 || c.val = 0x2029

/-- Code points that end a word. -/
def isGap (c : CodePoint) : Bool := isBreak c || c = ' ' || c = '\t' || c = '\r' || c.val = 0

/-- Code points that need no escape. -/
def isDirect (c : CodePoint) : Bool :=
  c = '\n' || (0x20 ≤ c.val && c.val ≤ 0x7E) || c.val = 0x85 || (0xA0 ≤ c.val && c.val ≤ 0xD7FF)
    || (0xE000 ≤ c.val && c.val ≤ 0xFFFD && c.val ≠ 0xFEFF) || (0x10000 ≤ c.val && c.val < 0x10FFFF)

/-- Whether a word ends here. -/
def endsWord : Text → Bool
  | [] => true
  | c :: _ => isGap c

/-- Whether the front of a text has a meaning of its own in a document. -/
def opensOther : Text → Bool
  | [] => false
  | c :: cs =>
    (Text.ofString "#,[]\x7b\x7d&*!|>'\"%@\x60").contains c
      || ((c = '?' || c = '-') && endsWord cs)
      || Text.startsWith (c :: cs) "---" || Text.startsWith (c :: cs) "..."

/-- Whether something inside a text has a meaning of its own: a colon that ends a word, or a number
    sign that begins one. `begins` says whether a word begins here. -/
def holdsOther (begins : Bool) : Text → Bool
  | [] => false
  | c :: cs => (c = ':' && endsWord cs) || (c = '#' && begins) || holdsOther (isGap c) cs

/-- Whether a code point of one class is followed by one of another. -/
def meets (p q : CodePoint → Bool) : Text → Bool
  | a :: b :: rest => (p a && q b) || meets p q (b :: rest)
  | _ => false

/-- Whether a code point is a space. -/
def isSpace (c : CodePoint) : Bool := c = ' '

/-- How a text is quoted. -/
inductive Style where
  /-- Not at all. -/
  | plain
  /-- In single quotes, which are doubled inside. -/
  | single
  /-- In double quotes, with escapes. -/
  | double
deriving DecidableEq

/-- Whether a text can stand in single quotes: everything in it needs no escape, and no space
    touches a line break. -/
def fitsSingle (t : Text) : Bool :=
  t.all isDirect && !meets isSpace isBreak t && !meets isBreak isSpace t

/-- Whether a text can stand without quotes, apart from what it would mean. -/
def fitsPlain (t : Text) : Bool :=
  fitsSingle t && !t.any isBreak && !t.head?.any isSpace && !t.getLast?.any isSpace
    && !opensOther t && !holdsOther true t

/-- The style of a text. -/
def Style.of (t : Text) : Style :=
  if meaning t = .text && fitsPlain t then .plain else if fitsSingle t then .single else .double

end Esolang.Yaml
