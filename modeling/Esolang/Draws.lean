/-
  File:      Esolang/Draws.lean
  Subject:   Chance as an explicit sequence of numbers.

  Whatever a program leaves to chance is decided by the next number of a given sequence; when it is
  used up, every further draw is zero.

  * `Draws.next`: the next number, and the sequence after it.
  * `Draws.shuffle`: a list in an order decided by draws.
-/
namespace Esolang

/-- The numbers still to be drawn. -/
abbrev Draws := List Int

namespace Draws

/-- The next number, and the sequence after it. -/
def next : Draws → Int × Draws
  | [] => (0, [])
  | d :: ds => (d, ds)

/-- The place among the first `n` that a number decides on. -/
def place (n : Nat) (d : Int) : Nat := (d % n).toNat

/-- A list with the entries at two places exchanged. -/
def exchange {α : Type} (xs : List α) (i j : Nat) : List α :=
  match xs[i]?, xs[j]? with
  | some a, some b => (xs.set i b).set j a
  | _, _ => xs

/-- From place `i` down to place 1, each entry changes places with a drawn one among those up to
    it. -/
def shuffleFrom {α : Type} : Nat → List α → Draws → List α × Draws
  | 0, xs, ds => (xs, ds)
  | i + 1, xs, ds =>
    let (d, ds) := next ds
    shuffleFrom i (exchange xs (i + 1) (place (i + 2) d)) ds

/-- A list in an order decided by draws. -/
def shuffle {α : Type} (xs : List α) (ds : Draws) : List α × Draws :=
  shuffleFrom (xs.length - 1) xs ds

end Draws

end Esolang
