/-
  File:      Esolang/Text/Quoted.lean
  Subject:   Quoted texts, as reports show them.

  A text is put in single quotes, or in double quotes when it holds a single quote and no double
  one. Inside, the backslash and the quote in use are escaped, tab, line feed and carriage return
  have escapes of their own, and what is not printable is written by its number.
-/
import Esolang.Number.Decimal
import Esolang.Text.Printable

namespace Esolang

/-- A code point by its number, in the shortest of the three forms that hold it. -/
def CodePoint.numeric (c : CodePoint) : Text :=
  if c.val ≤ 0xff then Text.ofString "\\x" ++ Decimal.hex 2 c.val
  else if c.val ≤ 0xffff then Text.ofString "\\u" ++ Decimal.hex 4 c.val
  else Text.ofString "\\U" ++ Decimal.hex 8 c.val

/-- A code point inside quotes of the given kind. -/
def CodePoint.quotedIn (quote c : CodePoint) : Text :=
  if c = '\\' ∨ c = quote then ['\\', c]
  else if c = '\t' then "\\t"
  else if c = '\n' then "\\n"
  else if c = '\r' then "\\r"
  else if c.isPrintable then [c]
  else c.numeric

namespace Text

/-- The quote a text is put in: a double one only when that saves an escape. -/
def quoteFor (t : Text) : CodePoint :=
  if t.contains '\'' && !t.contains '"' then '"' else '\''

/-- A text in quotes. -/
def quoted (t : Text) : Text :=
  quoteFor t :: t.flatMap (CodePoint.quotedIn (quoteFor t)) ++ [quoteFor t]

end Text

end Esolang
