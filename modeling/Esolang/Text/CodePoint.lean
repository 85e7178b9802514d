/-
  File:      Esolang/Text/CodePoint.lean
  Subject:   Code points, and texts as lists of them.

  A program can ask for any code point, a lone surrogate included, so a text is a list of code
  points and not a list of characters. Every length, column and index of the library counts
  code points.

  * `CodePoint`: a natural number below 0x110000.
  * `Text`: a list of code points; string and character literals are read as texts and code points.
  * `Text.splitOn`, `Text.lines`, `Text.join`: cutting and gluing at one code point.
-/
namespace Esolang

/-! ## 1. Code points -/

/-- A Unicode code point. Surrogates are code points like any other. -/
structure CodePoint where
  /-- Its number. -/
  val : Nat
  /-- The code space ends at 0x10FFFF. -/
  valid : val < 0x110000
deriving DecidableEq

namespace CodePoint

/-- The code point with a given number, if there is one. -/
def ofNat? (n : Nat) : Option CodePoint :=
  if h : n < 0x110000 then some ⟨n, h⟩ else none

/-- The code point with a given number, if there is one; a negative number has none. -/
def ofInt? : Int → Option CodePoint
  | .ofNat n => ofNat? n
  | .negSucc _ => none

/-- Every character is a code point. -/
def ofChar (c : Char) : CodePoint :=
  ⟨c.val.toNat, by
    have h : c.val.toNat < 0xd800 ∨ 0xdfff < c.val.toNat ∧ c.val.toNat < 0x110000 := c.valid
    omega⟩

instance : Coe Char CodePoint := ⟨ofChar⟩

instance : Inhabited CodePoint := ⟨⟨0, by decide⟩⟩

/-- The replacement character, which stands for what cannot be shown. -/
def replacement : CodePoint := ⟨0xFFFD, by decide⟩

/-- A code point that is no surrogate is a character. -/
def char? (c : CodePoint) : Option Char :=
  if h : c.val.isValidChar then some (Char.ofNatAux c.val h) else none

/-- The code points of UTF-16 halves, which no character has. -/
def isSurrogate (c : CodePoint) : Bool :=
  0xd800 ≤ c.val && c.val ≤ 0xdfff

/-- The letters `a` to `z` and `A` to `Z`. -/
def isLetter (c : CodePoint) : Bool :=
  (97 ≤ c.val && c.val ≤ 122) || (65 ≤ c.val && c.val ≤ 90)

/-- The digits `0` to `9`. -/
def isAsciiDigit (c : CodePoint) : Bool :=
  48 ≤ c.val && c.val ≤ 57

/-- The lower case of a code point as far as it is an ASCII letter: `A` to `Z` and the Kelvin sign
    are the only other code points whose lower case is one. -/
def lower (c : CodePoint) : CodePoint :=
  if h : 65 ≤ c.val ∧ c.val ≤ 90 then ⟨c.val + 32, by omega⟩
  else if c.val = 0x212A then ⟨107, by decide⟩
  else c

/-- A code point is its number. -/
theorem ext_val {a b : CodePoint} (h : a.val = b.val) : a = b := by
  cases a; cases b; cases h; rfl

@[simp] theorem ofNat?_val (c : CodePoint) : ofNat? c.val = some c := by
  simp [ofNat?, c.valid]

end CodePoint

/-! ## 2. Texts -/

/-- A text: a list of code points. -/
abbrev Text := List CodePoint

namespace Text

/-- The text of a string. -/
def ofString (s : String) : Text := s.toList.map CodePoint.ofChar

instance : Coe String Text := ⟨ofString⟩

/-- The line feed, which ends a line. -/
def newline : CodePoint := '\n'

/-- The space. -/
def space : CodePoint := ' '

/-- The same code point `n` times. -/
def fill (n : Nat) (c : CodePoint) : Text := List.replicate n c

/-- The pieces of a text between the occurrences of one code point; there is always one. -/
def splitOn (sep : CodePoint) : Text → List Text
  | [] => [[]]
  | c :: cs =>
    if c = sep then [] :: splitOn sep cs
    else
      match splitOn sep cs with
      | [] => [[c]]
      | piece :: pieces => (c :: piece) :: pieces

/-- The lines of a text as the language readers count them: the pieces between line feeds. -/
def lines (t : Text) : List Text := splitOn newline t

/-- Texts with a separator between each two. -/
def join (sep : Text) (ts : List Text) : Text := List.intercalate sep ts

/-- What follows a given beginning, if the text begins so. -/
def after? : Text → Text → Option Text
  | [], t => some t
  | _ :: _, [] => none
  | p :: ps, c :: cs => if p = c then after? ps cs else none

/-- Whether a text begins with another. -/
def startsWith (t front : Text) : Bool := front.isPrefixOf t

/-- Whether a text ends with another. -/
def endsWith (t back : Text) : Bool := back.isSuffixOf t

/-- Whether a text occurs somewhere inside another. -/
def includes (t needle : Text) : Bool :=
  match t with
  | [] => needle.isEmpty
  | c :: cs => needle.isPrefixOf (c :: cs) || includes cs needle

/-- The letters of a text in lower case. -/
def lower (t : Text) : Text := t.map CodePoint.lower

@[simp] theorem splitOn_nil (sep : CodePoint) : splitOn sep [] = [[]] := rfl

/-- Cutting gives at least one piece. -/
theorem splitOn_ne_nil (sep : CodePoint) (t : Text) : splitOn sep t ≠ [] := by
  cases t with
  | nil => simp
  | cons c cs =>
    unfold splitOn
    by_cases h : c = sep
    · simp [h]
    · simp only [h, if_false]
      cases splitOn sep cs <;> simp

/-- What follows a beginning is what has to be put behind it. -/
theorem eq_append_of_after? :
    ∀ {front t rest : Text}, after? front t = some rest → t = front ++ rest
  | [], _, _, h => by simpa [after?] using h
  | _ :: _, [], _, h => by simp [after?] at h
  | p :: ps, c :: cs, rest, h => by
    by_cases e : p = c
    · simp only [after?, e, if_true] at h
      simp [e, eq_append_of_after? h]
    · simp [after?, e] at h

@[simp] theorem after?_append (front rest : Text) : after? front (front ++ rest) = some rest := by
  induction front with
  | nil => rfl
  | cons p ps ih => simp [after?, ih]

end Text

end Esolang
