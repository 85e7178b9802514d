/-
  File:      Esolang/Chef/Kitchen.lean
  Subject:   What a recipe works with: ingredients, mixing bowls and baking dishes.

  Bowls and dishes are stacks of items, written with the top first. They are numbered, and one that
  was never used counts as empty.
-/
import Esolang.Table
import Esolang.Text.CodePoint

namespace Esolang.Chef

/-- What an item or ingredient is. Liquids are served as characters, all else as numbers. -/
inductive Kind where
  | dry
  | liquid
  | unknown
deriving DecidableEq

namespace Kind

/-- The word for a kind. -/
def word : Kind → Text
  | .dry => "dry"
  | .liquid => "liquid"
  | .unknown => "unknown"

/-- The kind a word names. -/
def ofWord? (w : Text) : Option Kind := [dry, liquid, unknown].find? (·.word = w)

end Kind

/-- An item in a bowl or dish. -/
structure Item where
  /-- Its number. -/
  value : Int
  /-- What it is. -/
  kind : Kind
deriving DecidableEq

/-- An ingredient; its value may still be undefined. -/
structure Ingredient where
  /-- What it is. -/
  kind : Kind
  /-- Its number, once it has one. -/
  value : Option Int
deriving DecidableEq

/-- A stack of items, the top first. -/
abbrev Stack := List Item

/-- The ingredients of a recipe, by name. -/
abbrev Ingredients := Table Text Ingredient

/-- A kitchen: the ingredients, mixing bowls and baking dishes of one call of a recipe. -/
structure Kitchen where
  /-- The ingredients, by name. -/
  ingredients : Ingredients
  /-- The mixing bowls that were used, by number. -/
  bowls : Table Int Stack
  /-- The baking dishes that were used, by number. -/
  dishes : Table Int Stack
deriving DecidableEq

namespace Kitchen

/-- A kitchen with the given ingredients in which nothing has been used. -/
def stocked (ingredients : Ingredients) : Kitchen := ⟨ingredients, [], []⟩

/-- The contents of a mixing bowl. -/
def bowl (k : Kitchen) (id : Int) : Stack := (k.bowls.get? id).getD []

/-- The contents of a baking dish. -/
def dish (k : Kitchen) (id : Int) : Stack := (k.dishes.get? id).getD []

/-- A mixing bowl with new contents. -/
def setBowl (k : Kitchen) (id : Int) (s : Stack) : Kitchen := { k with bowls := k.bowls.put id s }

/-- A baking dish with new contents. -/
def setDish (k : Kitchen) (id : Int) (s : Stack) : Kitchen := { k with dishes := k.dishes.put id s }

/-- A mixing bowl taken into use: from now on it is listed, with the contents it had. -/
def useBowl (k : Kitchen) (id : Int) : Kitchen := k.setBowl id (k.bowl id)

/-- A baking dish taken into use. -/
def useDish (k : Kitchen) (id : Int) : Kitchen := k.setDish id (k.dish id)

/-- An ingredient replaced. -/
def setIngredient (k : Kitchen) (name : Text) (i : Ingredient) : Kitchen :=
  { k with ingredients := k.ingredients.put name i }

end Kitchen

end Esolang.Chef
