/-
  File:      Esolang/Chef/Operation.lean
  Subject:   The operations of a Chef method, and recipes made of them.

  Loops refer to each other by places in the method. A place is absent until the whole method has
  been read.

  * `Operation`: the seventeen kinds, with `Operation.isFlow` for those that steer the method.
  * `Step`, `Recipe`, `Program`: the structure of a program.
-/
import Esolang.Chef.Kitchen
import Esolang.Number.Decimal
import Esolang.Source.Span
import Esolang.Text.Quoted

namespace Esolang.Chef

/-! ## 1. Operations -/

/-- How an ingredient changes the top of a bowl. -/
inductive Arithmetic where
  | add
  | subtract
  | multiply
  | divide
deriving DecidableEq

/-- What one statement of a method says. -/
inductive Operation where
  /-- Read a number into an ingredient. -/
  | take (ingredient : Text)
  /-- Put an ingredient on a bowl. -/
  | put (ingredient : Text) (bowl : Int)
  /-- Move the top of a bowl into an ingredient. -/
  | fold (ingredient : Text) (bowl : Int)
  /-- Change the top of a bowl by an ingredient. -/
  | arithmetic (how : Arithmetic) (ingredient : Text) (bowl : Int)
  /-- Put the sum of all dry ingredients on a bowl. -/
  | addDry (bowl : Int)
  /-- Make an ingredient liquid. -/
  | liquefy (ingredient : Text)
  /-- Make everything in a bowl liquid. -/
  | liquefyBowl (bowl : Int)
  /-- Sink the top of a bowl by a number of places. -/
  | stir (bowl : Int) (minutes : Int)
  /-- Sink the top of a bowl by the value of an ingredient. -/
  | stirIngredient (bowl : Int) (ingredient : Text)
  /-- Put a bowl in random order. -/
  | mix (bowl : Int)
  /-- Empty a bowl. -/
  | clean (bowl : Int)
  /-- Put the contents of a bowl on a dish. -/
  | pour (bowl : Int) (dish : Int)
  /-- Begin a loop that runs while an ingredient is not zero. -/
  | loopStart (verb : Text) (ingredient : Text) (closer : Option Nat)
  /-- End a loop, after counting an ingredient down if one is named. -/
  | loopEnd (verb : Text) (ingredient : Option Text) (opener : Option Nat)
  /-- Leave the innermost loop. -/
  | setAside (closer : Option Nat)
  /-- Call an auxiliary recipe. -/
  | serveWith (recipe : Text)
  /-- End the recipe, after serving dishes if a number is named. -/
  | refrigerate (hours : Option Int)
deriving DecidableEq

namespace Operation

/-- Whether an operation steers the method instead of working in the kitchen. -/
def isFlow : Operation → Bool
  | .loopStart .. | .loopEnd .. | .setAside .. | .serveWith .. | .refrigerate .. => true
  | _ => false

/-- The ingredient an operation names. -/
def ingredient? : Operation → Option Text
  | .take i | .put i _ | .fold i _ | .arithmetic _ i _ | .liquefy i | .stirIngredient _ i
  | .loopStart _ i _ => some i
  | .loopEnd _ i _ => i
  | _ => none

/-- A place in the method, as shown; an absent one is -1. -/
def place (p : Option Nat) : Int :=
  match p with
  | some n => n
  | none => -1

/-- An operation that steers the method, as shown when a kitchen is asked to perform it. -/
def describe : Operation → Text
  | .loopStart verb i closer =>
    Text.ofString "LoopOpenOp(verb=" ++ verb.quoted ++ Text.ofString ", ing=" ++ i.quoted
      ++ Text.ofString ", closer=" ++ Decimal.ofInt (place closer) ++ Text.ofString ")"
  | .loopEnd verb i opener =>
    Text.ofString "LoopCloseOp(verb=" ++ verb.quoted ++ Text.ofString ", ing="
      ++ (i.map Text.quoted).getD "None" ++ Text.ofString ", opener=" ++
        Decimal.ofInt (place opener)
      ++ Text.ofString ")"
  | .setAside closer =>
    Text.ofString "LoopBreakOp(closer=" ++ Decimal.ofInt (place closer) ++ Text.ofString ")"
  | .serveWith recipe => Text.ofString "FnCallOp(recipe=" ++ recipe.quoted ++ Text.ofString ")"
  | .refrigerate hours =>
    Text.ofString "EndOp(num=" ++ (hours.map Decimal.ofInt).getD "None" ++ Text.ofString ")"
  | _ => []

end Operation

/-! ## 2. Programs -/

/-- An operation and where its statement stands. -/
structure Step where
  /-- The operation. -/
  operation : Operation
  /-- The place of the statement. -/
  span : Span
deriving DecidableEq

/-- The closing line of a recipe that is served. -/
structure Serving where
  /-- The line it stands on. -/
  row : Nat
  /-- The number of dishes to serve. -/
  dishes : Nat
deriving DecidableEq

/-- A recipe. -/
structure Recipe where
  /-- Its title. -/
  name : Text
  /-- Its ingredients as declared. -/
  ingredients : Ingredients
  /-- Its method. -/
  method : List Step
  /-- How it is served, if it is. -/
  serving : Option Serving
deriving DecidableEq

/-- A program: a main recipe, and the auxiliary ones by title. -/
structure Program where
  /-- The main recipe. -/
  main : Recipe
  /-- The auxiliary recipes, by title. -/
  auxiliaries : Table Text Recipe
deriving DecidableEq

end Esolang.Chef
