/-
  File:      Esolang/Befunge/Direction.lean
  Subject:   The four directions of travel on a playfield.
-/
import Esolang.Draws
import Esolang.Text.CodePoint

namespace Esolang.Befunge

/-- A direction of travel. -/
inductive Direction where
  | up
  | down
  | left
  | right
deriving DecidableEq

namespace Direction

/-- The word for a direction. -/
def word : Direction → Text
  | .up => "up"
  | .down => "down"
  | .left => "left"
  | .right => "right"

/-- The direction a draw decides on. -/
def ofDraw (d : Int) : Direction :=
  match Draws.place 4 d with
  | 0 => .up
  | 1 => .down
  | 2 => .left
  | _ => .right

/-- All directions. -/
def all : List Direction := [.up, .down, .left, .right]

/-- The direction a word names. -/
def ofWord? (w : Text) : Option Direction := all.find? (·.word = w)

end Direction

end Esolang.Befunge
