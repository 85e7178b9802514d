/-
  File:      Esolang/Befunge/Machine.lean
  Subject:   The Befunge-93 machine: a pointer that walks the playfield and a value stack.

  Popping an empty stack gives zero. Outside string mode the pointer wraps around the occupied part
  of its row or column, in string mode around the whole field. A failing instruction leaves the
  stack as it was; only blanks in front of an expected number are gone from the input.

  * `ahead`: where the pointer goes from a cell.
  * `execute`: one instruction, the movement of the pointer left out.
  * `advance`: one step; the first one only goes to the top left cell.
-/
import Esolang.Befunge.Instruction
import Esolang.Befunge.Playfield
import Esolang.Input
import Esolang.Language
import Esolang.Number.Double

namespace Esolang.Befunge

/-! ## 1. States -/

/-- A loaded program and everything it works with. -/
structure State where
  /-- The field the program runs from. -/
  field : Playfield
  /-- The edits that pad the displayed source to the full field. -/
  padding : List Edit
  /-- The value stack, the top first. -/
  stack : List Int
  /-- The column and row of the next instruction; none until the first step has gone there. -/
  pointer : Option (Nat × Nat)
  /-- The direction of travel. -/
  direction : Direction
  /-- Whether cells are read as data. -/
  stringMode : Bool
  /-- The input still to be read. -/
  input : Text

/-- The state before any program is loaded. -/
def State.fresh : State := ⟨.empty, [], [], none, .right, false, []⟩

/-- The top of a stack and what is below it; an empty stack gives zero. -/
def pop : List Int → Int × List Int
  | [] => (0, [])
  | v :: rest => (v, rest)

/-- The two topmost values of a stack, the top first, and what is below them. -/
def pop2 (stack : List Int) : Int × Int × List Int :=
  ((pop stack).1, (pop (pop stack).2).1, (pop (pop stack).2).2)

/-- The state with another stack. -/
def State.withStack (s : State) (stack : List Int) : State := { s with stack }

/-! ## 2. Movement -/

/-- The place after `n` when places run from 0 to `last` and then begin again. -/
def onward (last n : Nat) : Nat := if last < n + 1 then 0 else n + 1

/-- The place before `n` when places run from `last` down to 0 and then begin again. -/
def backward (last n : Nat) : Nat := if n = 0 then last else if last < n - 1 then 0 else n - 1

/-- The cell after `(x, y)` in the direction of travel. -/
def ahead (f : Playfield) (direction : Direction) (stringMode : Bool) (x y : Nat) : Nat × Nat :=
  match direction with
  | .right => (if stringMode then (x + 1) % columns else onward (f.rowExtent y - 1) x, y)
  | .left => (if stringMode then (x + columns - 1) % columns else backward (f.rowExtent y - 1) x, y)
  | .down => (x, if stringMode then (y + 1) % rowCount else onward (f.columnExtent x - 1) y)
  | .up =>
    (x, if stringMode then (y + rowCount - 1) % rowCount else backward (f.columnExtent x - 1) y)

/-- The state with the pointer one cell further. -/
def State.move (s : State) : State :=
  { s with pointer := s.pointer.map fun (x, y) => ahead s.field s.direction s.stringMode x y }

/-! ## 3. Instructions -/

/-- What an instruction did, its effect on the state apart. -/
structure Effect where
  /-- What it wrote. -/
  output : Option Text
  /-- The cell it wrote. -/
  edit : Option Edit
  /-- Whether it ended the program. -/
  ended : Bool

/-- Nothing visible. -/
def Effect.none : Effect := ⟨.none, .none, false⟩

/-- The character that shows a written cell in the source, so that the lines stay aligned. -/
def visible (c : CodePoint) : CodePoint :=
  if c = '\n' then '↵' else if c = '\r' then '␍' else if c = '\t' then '⇆' else c

/-- A cell written through the stack: row, column and value, from the top. -/
def writeCell (s : State) : Attempt State Effect :=
  let (y, x, below) := pop2 s.stack
  let (v, rest) := pop below
  if onField x y then
    match CodePoint.ofInt? v with
    | some c =>
      .ok { Effect.none with edit := some ⟨.cell y x, [visible c]⟩ }
        { s with stack := rest, field := s.field.write x.toNat y.toNat c }
    | none =>
      match Decimal.noCharacter v with
      | .fault f => .fault f s
      | .breakdown b => .breakdown b (s.withStack rest)
  else .fault .outsideField s

/-- A cell's code put on the stack: row and column are taken from the top. -/
def readCell (s : State) : Attempt State Effect :=
  let (y, x, rest) := pop2 s.stack
  if onField x y then
    match s.field.cell? x.toNat y.toNat with
    | some c => .ok .none (s.withStack (c.val :: rest))
    | none => .breakdown .nothingThere (s.withStack rest)
  else .fault .outsideField s

/-- The two topmost values combined into one. -/
def combine (s : State) (f : Int → Int → Int) : Attempt State Effect :=
  let (a, b, rest) := pop2 s.stack
  .ok .none (s.withStack (f b a :: rest))

/-- One instruction that leaves nothing to chance, the movement of the pointer left out. -/
def execute (s : State) : Instruction → Attempt State Effect
  | .digit d => .ok .none (s.withStack (d :: s.stack))
  | .noop => .ok .none s
  | .add => combine s fun b a => b + a
  | .subtract => combine s fun b a => b - a
  | .multiply => combine s fun b a => b * a
  | .divide =>
    let (a, b, rest) := pop2 s.stack
    if a = 0 then .fault .zeroDivisor s else .ok .none (s.withStack (Int.fdiv b a :: rest))
  | .remainder =>
    let (a, b, rest) := pop2 s.stack
    if a = 0 then .fault .zeroDivisor s
    else
      match Double.remainder? b a with
      | some r => .ok .none (s.withStack (r :: rest))
      | none => .breakdown .beyondDouble (s.withStack rest)
  | .negate =>
    let (v, rest) := pop s.stack
    .ok .none (s.withStack ((if v = 0 then 1 else 0) :: rest))
  | .greater => combine s fun b a => if b > a then 1 else 0
  | .turn d => .ok .none { s with direction := d }
  | .turnRandomly => .ok .none s
  | .branchHorizontally =>
    let (v, rest) := pop s.stack
    .ok .none { s with stack := rest, direction := if v = 0 then .right else .left }
  | .branchVertically =>
    let (v, rest) := pop s.stack
    .ok .none { s with stack := rest, direction := if v = 0 then .down else .up }
  | .toggleString => .ok .none { s with stringMode := !s.stringMode }
  | .duplicate =>
    let (v, rest) := pop s.stack
    .ok .none (s.withStack (v :: v :: rest))
  | .swap =>
    let (a, b, rest) := pop2 s.stack
    .ok .none (s.withStack (b :: a :: rest))
  | .discard => .ok .none (s.withStack (pop s.stack).2)
  | .writeNumber =>
    let (v, rest) := pop s.stack
    match Decimal.print v with
    | .ok t => .ok { Effect.none with output := some (t ++ [Text.space]) } (s.withStack rest)
    | .error b => .breakdown b (s.withStack rest)
  | .writeCharacter =>
    let (v, rest) := pop s.stack
    match CodePoint.ofInt? v with
    | some c => .ok { Effect.none with output := some [c] } (s.withStack rest)
    | none =>
      match Decimal.noCharacter v with
      | .fault f => .fault f s
      | .breakdown b => .breakdown b (s.withStack rest)
  | .bridge => .ok .none s.move
  | .get => readCell s
  | .put => writeCell s
  | .readNumber =>
    let attempt := Input.number s.input
    match attempt.outcome with
    | .ok n => .ok .none { s with stack := n :: s.stack, input := attempt.state }
    | .error e => ⟨.error e, { s with input := attempt.state }⟩
  | .readCharacter =>
    let (c, rest) := Input.character s.input
    .ok .none { s with stack := Input.code c :: s.stack, input := rest }
  | .stop => .ok { Effect.none with ended := true } s

/-- One instruction, chance included. -/
def perform (m : Machine State) : Instruction → Attempt (Machine State) Effect
  | .turnRandomly =>
    let (d, draws) := m.draws.next
    .ok .none ⟨{ m.state with direction := .ofDraw d }, draws⟩
  | i => (execute m.state i).lift ({ m with state := · })

/-! ## 4. Steps -/

/-- The state with a cell's code on the stack and the pointer one cell further. -/
def State.takeCell (s : State) (c : CodePoint) : State := (s.withStack (c.val :: s.stack)).move

/-- One step: the first one only goes to the top left cell and reports the padding. -/
def advance (m : Machine State) : Attempt (Machine State) Progress :=
  match m.state.pointer with
  | none => .ok ⟨none, some m.state.padding, false, []⟩ { m with state.pointer := some (0, 0) }
  | some (x, y) =>
    match m.state.field.cell? x y with
    | none => .breakdown .nothingThere m
    | some c =>
      if m.state.stringMode ∧ c ≠ '"' then .ok .quiet { m with state := m.state.takeCell c }
      else
        match Instruction.ofCodePoint? c with
        | none => .fault .notAnInstruction m
        | some i =>
          (perform m i).andThen fun effect m' =>
            .ok ⟨effect.output, effect.edit.map ([·]), effect.ended, []⟩
              { m' with state := m'.state.move }

/-- Where the next instruction stands. -/
def location (s : State) : Option Span := s.pointer.map fun (x, y) => .cell y x

/-- The language. -/
def language : Language State where
  name := "befunge93"
  fresh := .fresh
  read code :=
    match layOut code with
    | .ok field => .ok fun input => { State.fresh with field, input, padding := padding code.lines }
    | .error e => .error (.rejected e)
  advance := advance
  display s := .befunge s.stack s.direction s.stringMode
  location := location

/-- The character that shows a number in the source, if the number is a character code. -/
def visibleCode (n : Int) : Except Breakdown CodePoint := (Decimal.character n).map visible

end Esolang.Befunge
