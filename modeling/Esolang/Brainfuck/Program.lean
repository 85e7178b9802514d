/-
  File:      Esolang/Brainfuck/Program.lean
  Subject:   Brainfuck programs: command characters with resolved brackets.

  A program is the list of a source's command characters. Each bracket carries the index of its
  partner; everything else in the source is a comment.

  * `Draft.add`: one more command at the end, with the brackets still open kept innermost first.
  * `parse`: the program of a source, or the bracket without a partner.
-/
import Esolang.Source.Rejection

namespace Esolang.Brainfuck

/-! ## 1. Commands -/

/-- The commands. -/
inductive Command where
  | left
  | right
  | increment
  | decrement
  | output
  | input
  | loopStart
  | loopEnd
deriving DecidableEq

/-- The command a code point stands for. -/
def Command.ofCodePoint? (c : CodePoint) : Option Command :=
  match c.char? with
  | some '<' => some .left
  | some '>' => some .right
  | some '+' => some .increment
  | some '-' => some .decrement
  | some '.' => some .output
  | some ',' => some .input
  | some '[' => some .loopStart
  | some ']' => some .loopEnd
  | _ => none

/-- The character of a command. -/
def Command.symbol : Command → CodePoint
  | .left => '<'
  | .right => '>'
  | .increment => '+'
  | .decrement => '-'
  | .output => '.'
  | .input => ','
  | .loopStart => '['
  | .loopEnd => ']'

/-- A command with its place in the source and, for a bracket, the index of its partner. -/
structure Instruction where
  /-- The command and where it stands. -/
  command : Placed Command
  /-- The index of the bracket it belongs to. -/
  partner : Option Nat
deriving DecidableEq

/-- Where the instruction stands. -/
def Instruction.span (i : Instruction) : Span := i.command.span

/-! ## 2. Resolving brackets -/

/-- Why a source is no program. -/
inductive BracketError where
  /-- A closing bracket with no open one before it. -/
  | unmatchedEnd
  /-- An opening bracket that is never closed. -/
  | unmatchedStart
deriving DecidableEq

/-- The words for a bracket error. -/
def BracketError.message : BracketError → Text
  | .unmatchedEnd => "Unmatched ']'"
  | .unmatchedStart => "Unmatched '['"

/-- A bracket error at a place. -/
def BracketError.at (e : BracketError) (span : Span) : Rejection := ⟨e.message, span⟩

/-- The program read so far. -/
structure Draft where
  /-- Its instructions; a bracket still open has no partner yet. -/
  instructions : List Instruction
  /-- The indices of the brackets still open, innermost first. -/
  unclosed : List Nat

/-- One more command at the end. -/
def Draft.add (d : Draft) (c : Placed Command) : Except Rejection Draft :=
  let here := d.instructions.length
  match c.item with
  | .loopStart => .ok ⟨d.instructions ++ [⟨c, none⟩], here :: d.unclosed⟩
  | .loopEnd =>
    match d.unclosed with
    | [] => .error (BracketError.unmatchedEnd.at c.span)
    | start :: outer =>
      let closed := d.instructions.modify start fun i => { i with partner := some here }
      .ok ⟨closed ++ [⟨c, some start⟩], outer⟩
  | _ => .ok ⟨d.instructions ++ [⟨c, none⟩], d.unclosed⟩

/-- All commands, one after another. -/
def Draft.addAll (d : Draft) : List (Placed Command) → Except Rejection Draft
  | [] => .ok d
  | c :: rest =>
    match d.add c with
    | .ok d' => d'.addAll rest
    | .error e => .error e

/-- A draft is a program when no bracket is open; otherwise the innermost open one is at fault. -/
def Draft.finish (d : Draft) : Except Rejection (List Instruction) :=
  match d.unclosed with
  | [] => .ok d.instructions
  | start :: _ =>
    match d.instructions[start]? with
    | some i => .error (BracketError.unmatchedStart.at i.span)
    | none => .ok d.instructions

/-- The program of a source. -/
def parse (code : Text) : Except Rejection (List Instruction) :=
  match (Draft.mk [] []).addAll (placed Command.ofCodePoint? code) with
  | .ok d => d.finish
  | .error e => .error e

end Esolang.Brainfuck
