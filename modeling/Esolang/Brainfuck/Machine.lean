/-
  File:      Esolang/Brainfuck/Machine.lean
  Subject:   The Brainfuck machine: a tape of byte cells under a pointer.

  A cell comes into being when it is first used and is listed from then on, at zero. Counting wraps
  around at the ends of a signed byte. At the end of the input a zero is read.

  * `execute`: one command, giving the place to go on at and what was written.
  * `language`: the language.
-/
import Esolang.Brainfuck.Program
import Esolang.Language

namespace Esolang.Brainfuck

/-- The least value counting reaches. -/
def cellMin : Int := -128

/-- The greatest value counting reaches. -/
def cellMax : Int := 127

/-- A loaded program, its tape, and where both stand. -/
structure State where
  /-- The instructions. -/
  program : List Instruction
  /-- The cells that were used, in the order of their first use. -/
  tape : Table Nat Int
  /-- The cell commands work on. -/
  pointer : Nat
  /-- The place of the next instruction; none until the first step has gone there. -/
  position : Option Nat
  /-- The input still to be read. -/
  input : Text

/-- The state before any program is loaded. -/
def State.fresh : State := ⟨[], [], 0, none, []⟩

namespace State

/-- The value of the cell under the pointer; an unused cell is zero. -/
def cell (s : State) : Int := (s.tape.get? s.pointer).getD 0

/-- The state with a value in the cell under the pointer. -/
def setCell (s : State) (v : Int) : State := { s with tape := s.tape.put s.pointer v }

/-- The state with the cell under the pointer in use. -/
def touch (s : State) : State := s.setCell s.cell

end State

/-- Counting up, around the end. -/
def up (v : Int) : Int := if cellMax < v + 1 then cellMin else v + 1

/-- Counting down, around the end. -/
def down (v : Int) : Int := if v - 1 < cellMin then cellMax else v - 1

/-- The code point a cell is written as: its value modulo 0x10000. -/
def cellChar (v : Int) : CodePoint :=
  ⟨(v % 0x10000).toNat, by
    have h1 := Int.emod_nonneg v (show (0x10000 : Int) ≠ 0 by decide)
    have h2 := Int.emod_lt_of_pos v (show (0 : Int) < 0x10000 by decide)
    omega⟩

/-- One instruction at a place: the state after it, the place to go on at, and what was written. -/
def execute (s : State) (here : Nat) (i : Instruction) : Except Fault (State × Nat × Option Text) :=
  match i.command.item with
  | .left =>
    if s.pointer = 0 then .error .tapeStart
    else .ok (State.touch { s with pointer := s.pointer - 1 }, here + 1, none)
  | .right => .ok (State.touch { s with pointer := s.pointer + 1 }, here + 1, none)
  | .increment => .ok (s.setCell (up s.cell), here + 1, none)
  | .decrement => .ok (s.setCell (down s.cell), here + 1, none)
  | .output => .ok (s.touch, here + 1, some [cellChar s.cell])
  | .input =>
    match s.input with
    | [] => .ok (s.setCell 0, here + 1, none)
    | c :: rest => .ok ({ s.setCell c.val with input := rest }, here + 1, none)
  | .loopStart =>
    if s.cell = 0 then .ok (s.touch, i.partner.getD here + 1, none)
    else .ok (s.touch, here + 1, none)
  | .loopEnd =>
    if s.cell = 0 then .ok (s.touch, here + 1, none) else .ok (s.touch, i.partner.getD here, none)

/-- One step: the first one only goes to the first instruction. -/
def advance (s : State) : Attempt State Progress :=
  match s.position with
  | none => .ok .quiet { s with position := some 0 }
  | some here =>
    match s.program[here]? with
    | none => .breakdown .nothingThere s
    | some i =>
      match execute s here i with
      | .ok (s', place, output) => .ok (.writing output) { s' with position := some place }
      | .error f => .fault f s

/-- Where the next instruction stands. -/
def location (s : State) : Option Span := (s.position.bind (s.program[·]?)).map Instruction.span

/-- What a state shows. -/
def display (s : State) : Display :=
  .brainfuck (s.tape.map fun (id, v) => ((id : Int), v)) s.pointer

/-- The language. -/
def language : Language State where
  name := "brainfuck"
  fresh := .fresh
  read code :=
    match parse code with
    | .ok program => .ok fun input => { State.fresh with program, input }
    | .error e => .error (.rejected e)
  advance m := (advance m.state).lift ({ m with state := · })
  display := display
  location := location

end Esolang.Brainfuck
