/-
  File:      Esolang/Json/Write.lean
  Subject:   Plain data written as JSON.

  Either on one line with a space after every comma and colon, or over lines with two spaces for
  each level. Code points outside ASCII are kept; those below the space are escaped.
-/
import Esolang.Number.Limit
import Esolang.Value.Plain

namespace Esolang.Json

/-! ## 1. Texts -/

/-- A code point inside a JSON string. -/
def escape (c : CodePoint) : Text :=
  if c = '"' then "\\\""
  else if c = '\\' then "\\\\"
  else if c.val = 8 then "\\b"
  else if c.val = 12 then "\\f"
  else if c = '\n' then "\\n"
  else if c = '\r' then "\\r"
  else if c = '\t' then "\\t"
  else if c.val < 32 then Text.ofString "\\u" ++ Decimal.hex 4 c.val
  else [c]

/-- A JSON string. -/
def string (t : Text) : Text := ('"' : CodePoint) :: t.flatMap escape ++ [('"' : CodePoint)]

/-- A key of a JSON object. -/
def key : Key → Except Breakdown Text
  | .text t => .ok (string t)
  | .int n => (Decimal.print n).map string
  | .bool b => .ok (string (if b then "true" else "false"))
  | .null => .ok (string "null")

/-! ## 2. Layout -/

/-- How JSON is laid out. -/
inductive Layout where
  /-- Everything on one line. -/
  | oneLine
  /-- Every entry on a line of its own, at this level. -/
  | lines (level : Nat)

namespace Layout

/-- The layout of what is inside a list or object. -/
def inner : Layout → Layout
  | .oneLine => .oneLine
  | .lines level => .lines (level + 1)

/-- What stands before an entry or a closing bracket at the beginning of its line. -/
def lineStart : Layout → Text
  | .oneLine => []
  | .lines level => Text.newline :: Text.fill (2 * level) ' '

/-- What stands between two entries. -/
def separator : Layout → Text
  | .oneLine => ", "
  | .lines level => Text.ofString "," ++ lineStart (.lines level)

/-- Entries between brackets. -/
def enclose (l : Layout) (opening closing : Text) (entries : List Text) : Text :=
  if entries.isEmpty then opening ++ closing
  else opening ++ l.inner.lineStart ++ Text.join l.inner.separator entries ++ l.lineStart ++ closing

end Layout

/-! ## 3. Data -/

mutual

/-- Plain data written as JSON. -/
def writeAt (l : Layout) : Plain → Except Breakdown Text
  | .null => .ok "null"
  | .bool b => .ok (if b then "true" else "false")
  | .int n => Decimal.print n
  | .decimal literal => .ok literal
  | .text t => .ok (string t)
  | .list items => (writeItems l.inner items).map (l.enclose "[" "]")
  | .map entries => (writeEntries l.inner entries).map (l.enclose "\x7b" "\x7d")

/-- The items of a list. -/
def writeItems (l : Layout) : List Plain → Except Breakdown (List Text)
  | [] => .ok []
  | p :: rest => do
    let t ← writeAt l p
    let ts ← writeItems l rest
    pure (t :: ts)

/-- The entries of an object. -/
def writeEntries (l : Layout) : List (Key × Plain) → Except Breakdown (List Text)
  | [] => .ok []
  | (k, p) :: rest => do
    let name ← key k
    let t ← writeAt l p
    let ts ← writeEntries l rest
    pure ((name ++ Text.ofString ": " ++ t) :: ts)

end

/-- Plain data as JSON, over lines or on one. -/
def write (pretty : Bool) (p : Plain) : Except Breakdown Text :=
  writeAt (if pretty then .lines 0 else .oneLine) p

end Esolang.Json
