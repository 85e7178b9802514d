/-
  File:      Esolang/Chef/Cooking.lean
  Subject:   What the operations of a method do in a kitchen.

  A bowl or dish that an operation works with is in use from then on, also when the operation fails
  after reaching for it.

  * `Bench`: a kitchen with the input and the draws it works with.
  * `perform`: one operation that does not steer the method.
  * `serve`: the dishes written out and emptied.
-/
import Esolang.Chef.Operation
import Esolang.Draws
import Esolang.Input

namespace Esolang.Chef

/-! ## 1. Ingredients -/

/-- An ingredient by name. -/
def Kitchen.ingredient (k : Kitchen) (name : Text) : Except Fault Ingredient :=
  match k.ingredients.get? name with
  | some i => .ok i
  | none => .error (.noIngredient name)

/-- An ingredient by name together with its value, which must be defined. -/
def Kitchen.measured (k : Kitchen) (name : Text) : Except Fault Item :=
  match k.ingredient name with
  | .error f => .error f
  | .ok i =>
    match i.value with
    | some v => .ok ⟨v, i.kind⟩
    | none => .error (.noValue name)

/-- The sum of the dry ingredients, all of which must be defined. -/
def drySum : Ingredients → Except Fault Int
  | [] => .ok 0
  | (name, i) :: rest =>
    if i.kind = .dry then
      match i.value with
      | none => .error (.noValue name)
      | some v => (drySum rest).map (v + ·)
    else drySum rest

/-! ## 2. Bowls -/

/-- The result of an arithmetic operation on the top of a bowl; division rounds down. -/
def Arithmetic.apply (how : Arithmetic) (top value : Int) : Int :=
  match how with
  | .add => top + value
  | .subtract => top - value
  | .multiply => top * value
  | .divide => Int.fdiv top value

/-- The top of a stack sunk by a number of places, at most to the bottom; a negative number sinks
    nothing. -/
def sink (places : Int) : Stack → Stack
  | [] => []
  | top :: rest => rest.take places.toNat ++ top :: rest.drop places.toNat

/-- A stack in an order decided by draws, which count places from the bottom. -/
def shuffled (s : Stack) (draws : Draws) : Stack × Draws :=
  let (s', draws') := draws.shuffle s.reverse
  (s'.reverse, draws')

/-! ## 3. Operations -/

/-- A kitchen with the input and the draws it works with. -/
structure Bench where
  /-- The kitchen. -/
  kitchen : Kitchen
  /-- The input still to be read. -/
  input : Text
  /-- The draws still to come. -/
  draws : Draws

namespace Bench

/-- The bench with another kitchen. -/
def withKitchen (b : Bench) (k : Kitchen) : Bench := { b with kitchen := k }

/-- A success that only changes the kitchen. -/
def done (b : Bench) (k : Kitchen) : Attempt Bench Unit := .ok () (b.withKitchen k)

/-- Reads a number into an ingredient. The number is read first: it is gone from the input also when
    there is no such ingredient. -/
def take (b : Bench) (name : Text) : Attempt Bench Unit :=
  let attempt := Input.number b.input
  let b' := { b with input := attempt.state }
  match attempt.outcome with
  | .error e => ⟨.error e, b'⟩
  | .ok n =>
    match b.kitchen.ingredient name with
    | .error f => .fault f b'
    | .ok i => b'.done (b.kitchen.setIngredient name { i with value := some (n : Int) })

/-- Moves the top of a bowl into an ingredient. -/
def fold (b : Bench) (name : Text) (bowl : Int) : Attempt Bench Unit :=
  let k := b.kitchen
  match k.ingredient name with
  | .error f => .fault f b
  | .ok _ =>
    match k.bowl bowl with
    | [] => .fault (.emptyBowl bowl) (b.withKitchen (k.useBowl bowl))
    | top :: rest => b.done ((k.setBowl bowl rest).setIngredient name ⟨top.kind, some top.value⟩)

/-- Changes the top of a bowl by an ingredient. -/
def arithmetic (b : Bench) (how : Arithmetic) (name : Text) (bowl : Int) : Attempt Bench Unit :=
  let k := b.kitchen
  match k.measured name with
  | .error f => .fault f b
  | .ok i =>
    match k.bowl bowl with
    | [] => .fault (.emptyBowl bowl) (b.withKitchen (k.useBowl bowl))
    | top :: rest =>
      if how = .divide ∧ i.value = 0 then .fault .zeroIngredient b
      else b.done (k.setBowl bowl (⟨how.apply top.value i.value, .unknown⟩ :: rest))

/-- The last place of a stack that can be named, counted from the bottom. -/
def lastPlace : Int := 9223372036854775807

/-- Sinks the top of a bowl. An item that would be lifted beyond all places is lost. -/
def stir (b : Bench) (bowl places : Int) : Attempt Bench Unit :=
  match b.kitchen.bowl bowl with
  | [] => b.done (b.kitchen.useBowl bowl)
  | top :: rest =>
    if lastPlace < rest.length - places then
      .breakdown .beyondPlace (b.withKitchen (b.kitchen.setBowl bowl rest))
    else b.done (b.kitchen.setBowl bowl (sink places (top :: rest)))

/-- One operation. Operations that steer the method are not for a kitchen. -/
def perform (b : Bench) (op : Operation) : Attempt Bench Unit :=
  let k := b.kitchen
  match op with
  | .take i => b.take i
  | .put i bowl =>
    match k.measured i with
    | .error f => .fault f b
    | .ok item => b.done (k.setBowl bowl (item :: k.bowl bowl))
  | .fold i bowl => b.fold i bowl
  | .arithmetic how i bowl => b.arithmetic how i bowl
  | .addDry bowl =>
    match drySum k.ingredients with
    | .error f => .fault f b
    | .ok total => b.done (k.setBowl bowl (⟨total, .dry⟩ :: k.bowl bowl))
  | .liquefy i =>
    match k.ingredient i with
    | .error f => .fault f b
    | .ok ing => b.done (k.setIngredient i { ing with kind := .liquid })
  | .liquefyBowl bowl =>
    b.done (k.setBowl bowl ((k.bowl bowl).map fun item => { item with kind := .liquid }))
  | .stir bowl minutes => b.stir bowl minutes
  | .stirIngredient bowl i =>
    match k.measured i with
    | .error f => .fault f b
    | .ok item => b.stir bowl item.value
  | .mix bowl =>
    let (s, draws) := shuffled (k.bowl bowl) b.draws
    .ok () { b with kitchen := k.setBowl bowl s, draws }
  | .clean bowl => b.done (k.setBowl bowl [])
  | .pour bowl dish => b.done ((k.setDish dish (k.bowl bowl ++ k.dish dish)).useBowl bowl)
  | flow => .breakdown (.unexpected (Text.ofString "unknown kitchen op " ++ flow.describe)) b

end Bench

/-! ## 4. Serving -/

/-- An item as it is served: a liquid as a character, all else as a number after a space. -/
def serveItem (item : Item) : Except Failure Text :=
  match item.kind with
  | .liquid =>
    match CodePoint.ofInt? item.value with
    | some c => .ok [c]
    | none => .error (Decimal.noCharacter item.value)
  | _ =>
    match Decimal.print item.value with
    | .ok t => .ok (Text.space :: t)
    | .error b => .error (.breakdown b)

/-- A stack served from the top; an item that cannot be served is gone as well. -/
def serveStack : Stack → Attempt Stack Text
  | [] => .ok [] []
  | item :: rest =>
    match serveItem item with
    | .error e => ⟨.error e, rest⟩
    | .ok t => (serveStack rest).andThen fun more left => .ok (t ++ more) left

/-- One dish served and emptied. -/
def serveDish (k : Kitchen) (dish : Int) : Attempt Kitchen Text :=
  (serveStack (k.dish dish)).lift (k.setDish dish)

/-- A number of dishes served one after another, beginning with a given one. -/
def serveFrom (k : Kitchen) (first : Int) : Nat → Attempt Kitchen Text
  | 0 => .ok [] k
  | n + 1 =>
    (serveDish k first).andThen fun t k' =>
      (serveFrom k' (first + 1) n).andThen fun more k'' => .ok (t ++ more) k''

/-- The first dishes served one after another. -/
def serve (k : Kitchen) (count : Nat) : Attempt Kitchen Text := serveFrom k 1 count

end Esolang.Chef
