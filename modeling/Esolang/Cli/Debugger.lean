/-
  File:      Esolang/Cli/Debugger.lean
  Subject:   A prompt from which a program is driven.

  A command may set a run going in the background. Such a run makes one step at once, and after that
  only while the prompt waits for it.

  * `Command`: what can be typed.
  * `Task`: the run in the background.
  * `Session`: a program under the debugger.
  * `Session.enter`: one line of input; `Session.tick`: one step while the prompt waits.
-/
import Esolang.Cli.Batch
import Esolang.Value.Panel

namespace Esolang.Cli

/-! ## 1. Commands -/

/-- What can be typed. -/
inductive Command where
  /-- Nothing. -/
  | nothing
  /-- Leave. -/
  | leave
  /-- Run in the background. -/
  | run
  /-- Wait for the run in the background. -/
  | wait
  /-- Pause the run in the background. -/
  | pause
  /-- Make one step. -/
  | step
  /-- Pause before these lines, as typed. -/
  | breakAt (lines : List Text)
  /-- Show where the program stands. -/
  | state
  /-- Start over. -/
  | reset
  /-- A word that is no command. -/
  | unknown (word : Text)
deriving DecidableEq

/-- The words that are commands of their own. -/
def commandWords : List (String × Command) :=
  [("exit", .leave), ("run", .run), ("wait", .wait), ("pause", .pause), ("step", .step),
   ("state", .state), ("reset", .reset)]

/-- The command in a line. -/
def Command.ofLine (line : Text) : Command :=
  match line.words with
  | [] => .nothing
  | word :: arguments =>
    if word = "break" then .breakAt arguments
    else
      match commandWords.find? (Text.ofString ·.1 = word) with
      | some (_, c) => c
      | none => .unknown word

/-! ## 2. Sessions -/

/-- The run in the background. -/
inductive Task where
  /-- It has more to do. -/
  | live (run : Run) (last : Option StepResult)
  /-- It has ended. -/
  | ended
  /-- The machine broke down. -/
  | failed (why : Trouble)

/-- Whether a run has more to do. -/
def Task.isLive : Task → Bool
  | .live .. => true
  | _ => false

/-- What the prompt is doing. -/
inductive Prompt where
  /-- It is ready for a line. -/
  | asking
  /-- It waits for the run in the background. -/
  | waiting
  /-- The session is over. -/
  | closed (how : Ending)

/-- A program under the debugger. -/
structure Session (σ : Type) where
  /-- The controller. -/
  controller : Controller σ
  /-- The run in the background, if there has been one. -/
  task : Option Task
  /-- What the prompt is doing. -/
  prompt : Prompt

/-- What a session is about. -/
structure Subject where
  /-- The source of the program. -/
  source : Text
  /-- Its input. -/
  input : Text
  /-- Whether remarks are shown. -/
  traced : Bool

/-- Whether the prompt reports a trouble and goes on; other troubles end the session. -/
def isReported : Trouble → Bool
  | .notNow .. => true
  | .breakdown why =>
    match why with
    | .longNumber | .longNumeral _ | .beyondCodeSpace => true
    | _ => false

/-- The prompt. -/
def promptText : Text := "(eso) "

/-- The first line of a session. -/
def banner (language : Text) : Emission :=
  outLine (language ++
    Text.ofString " debugger: run, step, pause, wait, break N..., state, reset, exit")

/-- What the end of the input is answered with. -/
def farewell : Transcript := [outLine [], outLine "Exiting."]

namespace Session

variable {σ : Type} (L : Language σ) (subject : Subject)

/-- A session over a program that is ready. -/
def start (c : Controller σ) : Session σ := ⟨c, none, .asking⟩

/-- Remarks, if they are shown. -/
def remarks (notes : List Text) : Transcript := traceLines subject.traced notes

/-- A trouble is reported, or ends the session. -/
def raise (s : Session σ) (t : Trouble) : Transcript × Session σ :=
  if isReported t then ([errorLine t.message], { s with prompt := .asking })
  else ([], { s with prompt := .closed (.troubled t) })

/-- What is reported when a run in the background has ended. -/
def taskReport (last : Option StepResult) : Transcript :=
  match last with
  | some r => [outLine [], outLine (r.report L.name)]
  | none => []

/-- The run in the background goes on after a result: it ends at once if there is nothing more to
    do, and otherwise rests. -/
def afterResult (s : Session σ) (run : Run) (r : StepResult) : Transcript × Session σ :=
  match run with
  | .concluded _ | .finished =>
    (out r.written :: taskReport L (some r), { s with task := some .ended })
  | _ => ([out r.written], { s with task := some (.live run (some r)) })

/-- The run in the background goes on until it rests or ends. -/
def advanceTask (s : Session σ) (run : Run) (last : Option StepResult) : Transcript × Session σ :=
  let reply := s.controller.advance L run
  let notes := remarks subject reply.notes
  let s := { s with controller := reply.controller }
  match reply.answer with
  | (.ended, _) => (notes ++ taskReport L last, { s with task := some .ended })
  | (.trouble t, _) => (notes, { s with task := some (.failed t) })
  | (.result r, run) =>
    let (lines, s) := s.afterResult L run r
    (notes ++ lines, s)

/-- The run in the background goes on if there is one. -/
def nudge (s : Session σ) : Transcript × Session σ :=
  match s.task with
  | some (.live run last) => s.advanceTask L subject run last
  | _ => ([], s)

/-- The run in the background has ended: what broke it is reported. -/
def afterTask (s : Session σ) : Transcript × Session σ :=
  match s.task with
  | some (.failed t) => s.raise t
  | _ => ([], { s with prompt := .asking })

/-- One step while the prompt waits. -/
def tick (s : Session σ) : Transcript × Session σ :=
  let (lines, s) := s.nudge L subject
  if s.task.any Task.isLive then (lines, s)
  else
    let (more, s) := s.afterTask
    (lines ++ more, s)

/-- A run in the background that has more to do is given up. -/
def abandonTask (s : Session σ) : Transcript × Session σ :=
  if s.task.any Task.isLive then
    let stopped := s.controller.stop L
    let (lines, s) := { s with controller := stopped.controller }.nudge L subject
    (remarks subject stopped.notes ++ lines, s)
  else ([], s)

/-- The session is over. -/
def close (s : Session σ) : Transcript × Session σ :=
  let (lines, s) := s.abandonTask L subject
  (lines, { s with prompt := .closed (.exit 0) })

/-- A run is set going in the background, and makes its first step. -/
def runCommand (s : Session σ) : Transcript × Session σ :=
  if s.task.any Task.isLive then ([errorLine "already running"], s)
  else if Action.allowedIn .run s.controller.status then s.advanceTask L subject .unstarted none
  else s.raise (.notNow .run s.controller.status)

/-- The run in the background is asked to pause; without one, the latest result is reported. -/
def pauseCommand (s : Session σ) : Transcript × Session σ :=
  let asked := s.controller.pause 0
  let s := { s with controller := asked.controller }
  match s.task with
  | none =>
    match s.controller.last with
    | some r => ([outLine (r.report L.name)], s)
    | none => ([], s)
  | some _ =>
    let (lines, s) := s.nudge L subject
    let (more, s) := s.afterTask
    (lines ++ more, s)

/-- One step. -/
def stepCommand (s : Session σ) : Transcript × Session σ :=
  let reply := s.controller.step L
  let notes := remarks subject reply.notes
  let s := { s with controller := reply.controller }
  match reply.answer with
  | .error t =>
    let (lines, s) := s.raise t
    (notes ++ lines, s)
  | .ok r =>
    let lineEnd : Transcript := if r.written.isEmpty then [] else [outLine []]
    (notes ++ out r.written :: lineEnd ++ [outLine (r.report L.name)], s)

/-- The breakpoints are replaced by the lines that were typed, which count from 1. -/
def breakCommand (s : Session σ) (lines : List Text) : Transcript × Session σ :=
  match lines.mapM Numeral.read with
  | .error flaw => ([errorLine flaw.message], s)
  | .ok ns =>
    let shown : Text := if lines.isEmpty then "none" else Text.join ", " lines
    ([outLine (Text.ofString "breakpoints: " ++ shown)],
      { s with controller := s.controller.setBreakpoints (ns.map (· - 1)) })

/-- Where the program stands. -/
def stateCommand (s : Session σ) : Transcript × Session σ :=
  let status := outLine (Text.ofString "status: " ++ s.controller.status.word)
  match s.controller.last.map StepResult.panel with
  | none => ([status], s)
  | some (.ok t) => ([status, outLine t], s)
  | some (.error why) =>
    let (lines, s) := s.raise (.breakdown why)
    (status :: lines, s)

/-- The program starts over. -/
def resetCommand (s : Session σ) : Transcript × Session σ :=
  let (lines, s) := s.abandonTask L subject
  let stopped := s.controller.stop L
  let ready := stopped.controller.prepare L subject.source subject.input
  let s := { s with controller := ready.controller }
  (lines ++ remarks subject (stopped.notes ++ ready.notes) ++ [outLine "reset"], s)

/-- One command. -/
def perform (s : Session σ) : Command → Transcript × Session σ
  | .nothing => ([], s)
  | .leave => s.close L subject
  | .run => s.runCommand L subject
  | .wait => ([], { s with prompt := if s.task.isSome then .waiting else .asking })
  | .pause => s.pauseCommand L subject
  | .step => s.stepCommand L subject
  | .breakAt lines => s.breakCommand lines
  | .state => s.stateCommand
  | .reset => s.resetCommand L subject
  | .unknown word => ([errorLine (Text.ofString "unknown command " ++ word.quoted)], s)

/-- One line of input; the end of the input is no line. -/
def enter (s : Session σ) (line : Option Text) : Transcript × Session σ :=
  match line with
  | some l => s.perform L subject (Command.ofLine l)
  | none =>
    let (lines, s) := s.close L subject
    (farewell ++ lines, s)

/-- The prompt waits until it is ready again, at most `budget` steps. -/
def settle : Nat → Session σ → Transcript × Session σ
  | 0, s => ([], s)
  | budget + 1, s =>
    match s.prompt with
    | .waiting =>
      let (lines, s) := s.tick L subject
      let (more, s) := settle budget s
      (lines ++ more, s)
    | _ => ([], s)

/-- A whole session: a prompt before each line, the end of the input after the last. -/
def converse (budget : Nat) : List Text → Session σ → Transcript × Session σ
  | [], s => (s.enter L subject none).map (out promptText :: ·) id
  | line :: rest, s =>
    let (lines, s) := s.enter L subject (some line)
    let (waited, s) := s.settle L subject budget
    let shown := out promptText :: lines ++ waited
    match s.prompt with
    | .asking =>
      let (more, s) := converse budget rest s
      (shown ++ more, s)
    | _ => (shown, s)

end Session

end Esolang.Cli
