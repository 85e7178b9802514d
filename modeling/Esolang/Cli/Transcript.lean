/-
  File:      Esolang/Cli/Transcript.lean
  Subject:   What the command line tool writes, and how it ends.

  Both streams are assumed to take every text, those with lone surrogates included, which a program
  can write. What a stream makes of a text, and which texts it cannot encode, is a matter of the
  platform.

  * `Emission`, `Transcript`: pieces of text on the two output streams, in order.
  * `Ending`: how the tool ends.
-/
import Esolang.Controller.Basic
import Esolang.Text.Utf8

namespace Esolang.Cli

/-- An output stream. -/
inductive Channel where
  /-- For results. -/
  | out
  /-- For complaints. -/
  | err
deriving DecidableEq

/-- A piece of text on a stream. -/
structure Emission where
  /-- The stream. -/
  channel : Channel
  /-- The text. -/
  text : Text

/-- What is written, in order. -/
abbrev Transcript := List Emission

/-- Text for results, as it is. The stream is assumed to take it, whatever its code points are. -/
def out (t : Text) : Emission := ⟨.out, t⟩

/-- A line for results. -/
def outLine (t : Text) : Emission := ⟨.out, t ++ [Text.newline]⟩

/-- A line for complaints. -/
def errLine (t : Text) : Emission := ⟨.err, t ++ [Text.newline]⟩

/-- The complaint about an error. -/
def errorLine (t : Text) : Emission := errLine (Text.ofString "Error: " ++ t)

/-- All that is written on a stream. -/
def Transcript.on (t : Transcript) (c : Channel) : Text :=
  t.flatMap fun e => if e.channel = c then e.text else []

/-- Remarks as they are shown to someone who traces the tool. -/
def traceLines (traced : Bool) (notes : List Text) : Transcript :=
  if traced then notes.map fun n => errLine (Text.ofString "[DBG] " ++ n) else []

/-- Why something that is there cannot be read as a file. -/
inductive Obstacle where
  /-- It is a folder. -/
  | folder
  /-- The way to it leads through a file. -/
  | throughFile
deriving DecidableEq

/-- The words for what cannot be read. -/
def Obstacle.message (path : Text) : Obstacle → Text
  | .folder => Text.ofString "[Errno 21] Is a directory: " ++ path.quoted
  | .throughFile => Text.ofString "[Errno 20] Not a directory: " ++ path.quoted

/-- How the tool ends. -/
inductive Ending where
  /-- With an exit status. -/
  | exit (status : Nat)
  /-- The program's path leads to no file. -/
  | obstructed (path : Text) (why : Obstacle)
  /-- The program's file is not valid text. -/
  | undecodable (why : Utf8.DecodeError)
  /-- A request to the controller was not carried out, and nobody was there to be told. -/
  | troubled (why : Trouble)

end Esolang.Cli
