/-
  File:      Esolang/Cli/Program.lean
  Subject:   The command line tool as a whole.

  * `Launch`: what an invocation leads to.
  * `launch`: the program is loaded.
  * `runTool`: the whole tool on given arguments, variables, files and input lines.
-/
import Esolang.Cli.Debugger
import Esolang.Text.Lines

namespace Esolang.Cli

/-- What an invocation leads to. -/
inductive Launch where
  /-- The end, because something is wrong with it. -/
  | refused (how : Ending)
  /-- A run. -/
  | batch (id : LanguageId) (settings : BatchSettings) (run : Batch id.State)
  /-- A session. -/
  | debug (id : LanguageId) (subject : Subject) (session : Session id.State)

/-- The source in a file: its lines may end in any of the usual ways. -/
def sourceOf (bytes : List Nat) : Except Utf8.DecodeError Text :=
  (Utf8.decode bytes).map Text.unifyNewlines

/-- A program in a known language is loaded. -/
def launchSource (e : Environment) (draws : Draws) (i : Invocation) (id : LanguageId)
    (source : Text) : Transcript × Launch :=
  let L := id.language
  let ready := (Controller.fresh L draws).prepare L source i.input
  let notes := traceLines e.traced ready.notes
  match ready.answer with
  | .error t => (notes, .refused (.troubled t))
  | .ok (some rejection) => (notes ++ [errLine (rejection.report source)], .refused (.exit 1))
  | .ok none =>
    match i.mode with
    | .batch dump =>
      let (limit, warnings) := e.stepLimit
      (notes ++ e.checkInterval ++ warnings, .batch id ⟨limit, dump, e.traced⟩
        (.start ready.controller))
    | .debug =>
      (notes ++ e.checkInterval ++ [banner L.name],
        .debug id ⟨source, i.input, e.traced⟩ (.start ready.controller))

/-- The program is loaded from what its file holds, if there is such a file. -/
def launch (e : Environment) (draws : Draws) (i : Invocation) (content : Content) :
    Transcript × Launch :=
  match LanguageId.find? i.language with
  | none => ([errorLine (LanguageId.unknownMessage i.language)], .refused (.exit 1))
  | some id =>
    match content with
    | .missing => ([errorLine (Text.ofString "file not found: " ++ i.file)], .refused (.exit 1))
    | .obstructed why => ([], .refused (.obstructed (normalPath i.file) why))
    | .bytes bytes =>
      match sourceOf bytes with
      | .error why => ([], .refused (.undecodable why))
      | .ok source => launchSource e draws i id source

/-- The ending of a session that is over. -/
def Prompt.ending? : Prompt → Option Ending
  | .closed how => some how
  | _ => none

/-- The whole tool. Of a program that makes more than `budget` steps without end, nothing is
    said. -/
def runTool (budget : Nat) (e : Environment) (draws : Draws) (files : List (Text × List Nat))
    (lines : List Text) (arguments : List Text) : Transcript × Option Ending :=
  match Invocation.ofArguments? arguments with
  | none => (usage, some (.exit 2))
  | some i =>
    let (begun, next) := launch e draws i (lookUp files i.file)
    match next with
    | .refused how => (begun, some how)
    | .batch id settings b =>
      let (rest, how) := b.finish id.language settings budget
      (begun ++ rest, how)
    | .debug id subject s =>
      let (rest, s) := s.converse id.language subject budget lines
      (begun ++ rest, s.prompt.ending?)

end Esolang.Cli
