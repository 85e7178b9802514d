/-
  File:      Esolang/Main.lean
  Subject:   The command line tool, connected to the world.

  Everything that is decided is decided by `Esolang.Cli`. Here arguments, variables, files and typed
  lines are read, and transcripts are written as they grow.
-/
import Esolang.Cli.Program

namespace Esolang.Main

open Cli

/-- A text as it is printed; what is no character is shown by a replacement. -/
def printed (t : Text) : String := String.ofList (t.map fun c => c.char?.getD (Char.ofNat 0xFFFD))

/-- Writes a transcript. -/
def emit (t : Transcript) : IO Unit := do
  for e in t do
    match e.channel with
    | .out => IO.print (printed e.text)
    | .err => IO.eprint (printed e.text)
  (← IO.getStdout).flush

/-- The exit status of an ending. -/
def statusOf : Ending → IO UInt32
  | .exit status => pure status.toUInt32
  | .obstructed path why => do
    IO.eprintln (printed (why.message path))
    pure 1
  | .undecodable why => do
    IO.eprintln (printed why.message)
    pure 1
  | .troubled why => do
    IO.eprintln (printed why.message)
    pure 1

/-- A run to its end. -/
partial def finish {σ : Type} (L : Language σ) (settings : BatchSettings) (b : Batch σ) :
    IO UInt32 := do
  let (lines, next) := b.advance L settings
  emit lines
  match next with
  | .more b => finish L settings b
  | .ended how => statusOf how

/-- A session to its end. -/
partial def converse {σ : Type} (L : Language σ) (subject : Subject) (s : Session σ) :
    IO UInt32 := do
  match s.prompt with
  | .closed how => statusOf how
  | .waiting =>
    let (lines, s) := s.tick L subject
    emit lines
    converse L subject s
  | .asking =>
    emit [out promptText]
    let line ← (← IO.getStdin).getLine
    let (lines, s) := s.enter L subject (if line.isEmpty then none else some (Text.ofString line))
    emit lines
    converse L subject s

/-- What a variable holds; nothing if it is not set. -/
def variableText (name : String) : IO Text := do
  pure (((← IO.getEnv name).map Text.ofString).getD [])

/-- What a path leads to. -/
def contentOf (path : String) : IO Content := do
  try
    let bytes ← IO.FS.readBinFile path
    pure (.bytes (bytes.toList.map UInt8.toNat))
  catch why =>
    match why with
    | .inappropriateType _ code _ =>
      pure (.obstructed (if code = 20 then .throughFile else .folder))
    | _ => pure .missing

/-- How many random numbers are drawn ahead. -/
def drawCount : Nat := 65536

/-- Random numbers for the machines. -/
def randomDraws : Nat → Draws → IO Draws
  | 0, ds => pure ds
  | n + 1, ds => do
    let d ← IO.rand 0 0x3FFFFFFF
    randomDraws n ((d : Int) :: ds)

/-- The tool on its arguments. -/
def run (arguments : List String) : IO UInt32 := do
  match Invocation.ofArguments? (arguments.map Text.ofString) with
  | none =>
    emit usage
    pure 2
  | some i =>
    let e : Environment :=
      ⟨← variableText "ESO_INTERVAL", ← variableText "ESO_MAX_STEPS", ← variableText "ESO_DEBUG"⟩
    let (begun, next) := launch e (← randomDraws drawCount []) i (← contentOf (printed i.file))
    emit begun
    match next with
    | .refused how => statusOf how
    | .batch id settings b => finish id.language settings b
    | .debug id subject s => converse id.language subject s

end Esolang.Main

/-- The command line tool. -/
def main (arguments : List String) : IO UInt32 := Esolang.Main.run arguments
