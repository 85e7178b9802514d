/-
  File:      Esolang/Chef/Machine.lean
  Subject:   The Chef machine: a stack of recipe calls, each in its own kitchen.

  A call works on fresh copies of its recipe's ingredients and of its caller's bowls and dishes.
  When it has nothing left to execute, its first bowl is put on its caller's first bowl; this goes
  on for as long as the caller has nothing left to execute either.

  * `Frame`: one call.
  * `foldCalls`: finished calls given back to their callers.
  * `advance`: one step; the first one only goes to the first statement.
-/
import Esolang.Chef.Cookbook
import Esolang.Chef.Cooking
import Esolang.Language

namespace Esolang.Chef

/-! ## 1. Calls -/

/-- One call of a recipe. -/
structure Frame where
  /-- The recipe. -/
  recipe : Recipe
  /-- The kitchen of this call. -/
  kitchen : Kitchen
  /-- The place of the next statement; none until the first step has gone there. The place after the
      last statement is that of the serving line. -/
  position : Option Nat
  /-- The name it was called by; the main recipe has none. -/
  calledAs : Option Text

/-- The name under which the main recipe is shown. -/
def mainName : Text := "Main recipe"

/-- What is shown in place of names when all calls are finished. -/
def endName : Text := "End of program"

namespace Frame

/-- The name under which a call is shown. -/
def name (f : Frame) : Text :=
  match f.calledAs with
  | some n => if n.isEmpty then mainName else n
  | none => mainName

/-- Whether nothing is left to execute, the serving line included. -/
def completed (f : Frame) : Bool :=
  match f.position with
  | none => false
  | some p =>
    if p < f.recipe.method.length then false
    else if f.recipe.method.length < p then true
    else f.recipe.serving.isNone

/-- Where the next statement stands. -/
def location (f : Frame) : Option Span :=
  match f.position with
  | none => none
  | some p =>
    match f.recipe.method[p]? with
    | some s => some s.span
    | none => f.recipe.serving.map fun s => .line s.row

/-- The call at another place. -/
def goTo (f : Frame) (p : Nat) : Frame := { f with position := some p }

/-- The call with another kitchen. -/
def withKitchen (f : Frame) (k : Kitchen) : Frame := { f with kitchen := k }

end Frame

/-! ## 2. States -/

/-- A loaded program and its calls. -/
structure State where
  /-- The recipes that can be called. -/
  auxiliaries : Table Text Recipe
  /-- The calls under way, the innermost first. -/
  calls : List Frame
  /-- The input still to be read, which all calls share. -/
  input : Text
  /-- The kitchen that is shown when all calls are finished. -/
  lastKitchen : Kitchen

/-- The state before any program is loaded. -/
def State.fresh : State := ⟨[], [], [], .stocked []⟩

/-- The state in which a program is about to begin. -/
def State.start (p : Program) (input : Text) : State :=
  let kitchen := Kitchen.stocked p.main.ingredients
  ⟨p.auxiliaries, [⟨p.main, kitchen, none, none⟩], input, kitchen⟩

/-- The calls after finished ones were given back, the kitchen of the last one when none is left,
    and remarks. The first call is finished. -/
def foldCalls (finished : Frame) : List Frame → List Frame × Option Kitchen × List Text
  | [] => ([], some finished.kitchen, [])
  | caller :: outer =>
    let bowl := finished.kitchen.bowl 1 ++ caller.kitchen.bowl 1
    let caller' := caller.withKitchen (caller.kitchen.setBowl 1 bowl)
    let note := Text.ofString "folded " ++ finished.name.quoted ++ Text.ofString " into " ++
      caller.name.quoted
    if caller'.completed then
      let (calls, kitchen, notes) := foldCalls caller' outer
      (calls, kitchen, note :: notes)
    else (caller' :: outer, none, [note])

/-- The state after finished calls were given back, and remarks. -/
def State.settle (s : State) : State × List Text :=
  match s.calls with
  | [] => (s, [])
  | top :: outer =>
    if top.completed then
      let (calls, kitchen, notes) := foldCalls top outer
      ({ s with calls, lastKitchen := kitchen.getD s.lastKitchen }, notes)
    else (s, [])

/-! ## 3. Statements -/

/-- What a statement wrote, and remarks. -/
structure Effect where
  /-- What it wrote. -/
  output : Text
  /-- Remarks for someone who traces the machine. -/
  notes : List Text

/-- Nothing visible. -/
def Effect.none : Effect := ⟨[], []⟩

/-- The value of an ingredient that decides about a loop. -/
def Frame.valueOf (f : Frame) (i : Text) : Except Fault Int := (f.kitchen.measured i).map (·.value)

/-- The call after an ingredient was counted down. -/
def Frame.countDown (f : Frame) (i : Text) : Except Fault Frame :=
  match f.kitchen.measured i with
  | .error e => .error e
  | .ok item => .ok (f.withKitchen (f.kitchen.setIngredient i ⟨item.kind, some (item.value - 1)⟩))

/-- The beginning of a loop, at place `here`. -/
def Frame.enterLoop (f : Frame) (here : Nat) (i : Text) (closer : Option Nat) :
    Attempt Frame Effect :=
  match f.valueOf i with
  | .error e => .fault e f
  | .ok v =>
    if v = 0 then
      match closer with
      | some c => .ok .none (f.goTo (c + 1))
      | none => .breakdown (.unexpected "bad jump address") f
    else .ok .none (f.goTo (here + 1))

/-- The loop that begins at a place: the place and the ingredient that decides about it. -/
def Frame.loopAt? (f : Frame) (opener : Option Nat) : Option (Nat × Text) :=
  match opener with
  | none => none
  | some o =>
    match f.recipe.method[o]? with
    | some ⟨.loopStart _ i _, _⟩ => some (o, i)
    | _ => none

/-- The way back from the end of a loop, at place `here`: to its beginning, which tests again,
    unless its ingredient is zero. -/
def Frame.repeatLoop (f : Frame) (here : Nat) (opener : Option Nat) : Attempt Frame Effect :=
  match f.loopAt? opener with
  | none => .breakdown (.unexpected "bad jump address") f
  | some (o, i) =>
    match f.valueOf i with
    | .error e => .fault e f
    | .ok v => .ok .none (f.goTo (if v = 0 then here + 1 else o))

/-- The end of a loop, at place `here`. -/
def Frame.leaveOrRepeat (f : Frame) (here : Nat) (i : Option Text) (opener : Option Nat) :
    Attempt Frame Effect :=
  match i with
  | none => f.repeatLoop here opener
  | some i =>
    if i.isEmpty then f.repeatLoop here opener
    else
      match f.countDown i with
      | .error e => .fault e f
      | .ok f' => f'.repeatLoop here opener

/-- The dishes a call serves, from where it stands. -/
def Frame.serve (f : Frame) (count : Nat) : Attempt Frame Effect :=
  ((Chef.serve f.kitchen count).lift f.withKitchen).andThen fun t f' => .ok ⟨t, []⟩ f'

/-- The call of another recipe: it begins in a kitchen of its own. -/
def State.call (s : State) (caller : Frame) (outer : List Frame) (callee : Text) (here : Nat) :
    Attempt State Effect :=
  let caller' := caller.goTo (here + 1)
  match s.auxiliaries.get? callee with
  | none => .breakdown (.noRecipe callee) { s with calls := caller' :: outer }
  | some r =>
    let kitchen : Kitchen := ⟨r.ingredients, caller.kitchen.bowls, caller.kitchen.dishes⟩
    let note := Text.ofString "serve with " ++ callee.quoted ++ Text.ofString " at depth "
      ++ Decimal.ofNat (outer.length + 1)
    .ok ⟨[], [note]⟩ { s with calls := ⟨r, kitchen, some 0, some callee⟩ :: caller' :: outer }

/-- One statement at place `here` of the innermost call. -/
def execute (m : Machine State) (top : Frame) (outer : List Frame) (here : Nat) (op : Operation) :
    Attempt (Machine State) Effect :=
  let s := m.state
  let back (f : Frame) : Machine State := { m with state := { s with calls := f :: outer } }
  match op with
  | .loopStart _ i closer => (top.enterLoop here i closer).lift back
  | .loopEnd _ i opener => (top.leaveOrRepeat here i opener).lift back
  | .setAside closer =>
    match closer with
    | some c => .ok .none (back (top.goTo (c + 1)))
    | none => .breakdown (.unexpected "bad jump address") m
  | .serveWith callee => (s.call top outer callee here).lift ({ m with state := · })
  | .refrigerate hours =>
    let ended := top.goTo top.recipe.method.length
    match hours with
    | none => .ok .none (back ended)
    | some n => if n = 0 then .ok .none (back ended) else (ended.serve n.toNat).lift back
  | op =>
    let attempt := Bench.perform ⟨top.kitchen, s.input, m.draws⟩ op
    let b := attempt.state
    let m' (f : Frame) : Machine State :=
      ⟨{ s with calls := f :: outer, input := b.input }, b.draws⟩
    let top' := top.withKitchen b.kitchen
    match attempt.outcome with
    | .ok () => .ok .none (m' (top'.goTo (here + 1)))
    | .error e => ⟨.error e, m' top'⟩

/-- What the innermost call does next. -/
def act (m : Machine State) : Attempt (Machine State) Effect :=
  match m.state.calls with
  | [] => .breakdown (.unexpected "call stack is empty") m
  | top :: outer =>
    let back (f : Frame) : Machine State := { m with state := { m.state with calls := f :: outer } }
    match top.position with
    | none => .ok .none (back (top.goTo 0))
    | some here =>
      if here = top.recipe.method.length then
        match top.recipe.serving with
        | none => .breakdown .noServings m
        | some serving =>
          ((top.serve serving.dishes).andThen fun e f => .ok e (f.goTo (here + 1))).lift back
      else
        match top.recipe.method[here]? with
        | none => .breakdown .nothingThere m
        | some step => execute m top outer here step.operation

/-! ## 4. Steps -/

/-- One step: a statement, and then finished calls are given back. -/
def advance (m : Machine State) : Attempt (Machine State) Progress :=
  (act m).andThen fun effect m' =>
    let (state, notes) := m'.state.settle
    let output := if effect.output.isEmpty then none else some effect.output
    .ok ⟨output, none, false, effect.notes ++ notes⟩ { m' with state }

/-- Where the next statement stands. -/
def location (s : State) : Option Span :=
  match s.calls with
  | [] => none
  | top :: _ => top.location

/-- What a state shows. -/
def display (s : State) : Display :=
  match s.calls with
  | [] => .chef [endName] s.lastKitchen
  | top :: outer => .chef ((top :: outer).map Frame.name).reverse top.kitchen

/-- The language. -/
def language : Language State where
  name := "chef"
  fresh := .fresh
  read code :=
    match parse code with
    | .ok program => .ok (State.start program)
    | .error e => .error e
  advance := advance
  display := display
  location := location

end Esolang.Chef
