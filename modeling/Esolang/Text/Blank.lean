/-
  File:      Esolang/Text/Blank.lean
  Subject:   Blank code points: trimming a text and cutting it into words.

  * `CodePoint.isBlank`: the white space of the Unicode standard, with the four information
    separators.
  * `Text.trimStart`, `Text.trim`: a text without the blanks at its ends.
  * `Text.words`: the maximal runs of code points that are not blank.
-/
import Esolang.Text.CodePoint

namespace Esolang

/-! ## 1. The blanks -/

/-- The numbers of the blank code points. -/
def CodePoint.blanks : List Nat :=
  [0x9, 0xA, 0xB, 0xC, 0xD, 0x1C, 0x1D, 0x1E, 0x1F, 0x20, 0x85, 0xA0, 0x1680, 0x2000, 0x2001,
   0x2002, 0x2003, 0x2004, 0x2005, 0x2006, 0x2007, 0x2008, 0x2009, 0x200A, 0x2028, 0x2029, 0x202F,
   0x205F, 0x3000]

/-- Whether a code point is white space. The zero width space and the byte order mark are not. -/
def CodePoint.isBlank (c : CodePoint) : Bool := blanks.contains c.val

namespace Text

/-! ## 2. Trimming -/

/-- A text without its leading blanks. -/
def trimStart (t : Text) : Text := t.dropWhile CodePoint.isBlank

/-- A text without the blanks at both ends. -/
def trim (t : Text) : Text := (trimStart (trimStart t).reverse).reverse

/-- A text is blank when nothing is left of it after trimming. -/
def isBlank (t : Text) : Bool := (trim t).isEmpty

/-! ## 3. Words -/

/-- The words of a text, with a word that has already begun. -/
def wordsFrom (begun : Text) : Text → List Text
  | [] => if begun.isEmpty then [] else [begun.reverse]
  | c :: cs =>
    if c.isBlank then
      if begun.isEmpty then wordsFrom [] cs else begun.reverse :: wordsFrom [] cs
    else wordsFrom (c :: begun) cs

/-- The words of a text: its maximal runs of code points that are not blank. -/
def words (t : Text) : List Text := wordsFrom [] t

/-- Trimming the front takes blanks only. -/
theorem takeWhile_append_trimStart (t : Text) : t.takeWhile CodePoint.isBlank ++ trimStart t = t :=
  List.takeWhile_append_dropWhile

/-- Trimming the front twice is trimming it once. -/
@[simp] theorem trimStart_trimStart (t : Text) : trimStart (trimStart t) = trimStart t := by
  unfold trimStart
  induction t with
  | nil => rfl
  | cons c cs ih => by_cases h : c.isBlank <;> simp [List.dropWhile, h, ih]

end Text

end Esolang
