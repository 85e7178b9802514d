/-
  File:      Esolang/Controller/Basic.lean
  Subject:   The controller: a machine with a status, breakpoints, and requests to pause.

  A controller drives one machine. Programs are prepared, stepped, run and stopped through it, and
  it refuses what its status does not allow. A request to pause waits only while the machine is
  running.

  * `Status`, `Action`, `Trouble`: what a controller is doing, can be asked, and can refuse.
  * `Reply`: what a request gives: an answer, the controller afterwards, the pause requests it has
    answered, and remarks.
  * `Controller.prepare`, `step`, `stop`, `reset`, `pause`, `setBreakpoints`.
-/
import Esolang.Language

namespace Esolang

/-! ## 1. Status and trouble -/

/-- What a controller is doing. -/
inductive Status where
  | idle
  | ready
  | running
  | paused
  | error
  | done
deriving DecidableEq

/-- The word for a status. -/
def Status.word : Status → Text
  | .idle => "idle"
  | .ready => "ready"
  | .running => "running"
  | .paused => "paused"
  | .error => "error"
  | .done => "done"

/-- What a status can forbid. -/
inductive Action where
  | prepare
  | run
  | step
deriving DecidableEq

/-- The word for an action. -/
def Action.word : Action → Text
  | .prepare => "prepare"
  | .run => "run"
  | .step => "step"

/-- The statuses that allow an action. -/
def Action.allowedIn : Action → Status → Bool
  | .prepare, s => s = .idle || s = .ready || s = .done || s = .error
  | .run, s | .step, s => s = .ready || s = .paused

/-- Why a request was not carried out. -/
inductive Trouble where
  /-- The status does not allow it. -/
  | notNow (action : Action) (status : Status)
  /-- The machine broke down. -/
  | breakdown (why : Breakdown)
deriving DecidableEq

/-- The words for an action that a status forbids. -/
def refusalMessage (action : Action) (status : Status) : Text :=
  Text.ofString "Cannot " ++ action.word ++ Text.ofString " while " ++ status.word

/-- The words for a trouble. -/
def Trouble.message : Trouble → Text
  | .notNow action status => refusalMessage action status
  | .breakdown why => why.message

/-! ## 2. Controllers -/

/-- The number of a pause request, given by the host. -/
abbrev Ticket := Nat

/-- A machine under control. -/
structure Controller (σ : Type) where
  /-- The machine. -/
  machine : Machine σ
  /-- What it is doing. -/
  status : Status
  /-- The lines before which a run pauses. -/
  breakpoints : List Int
  /-- The pause requests still to be answered. -/
  waiting : List Ticket
  /-- Changed by everything that makes earlier runs obsolete. -/
  generation : Nat
  /-- The result of the latest step. -/
  last : Option StepResult

/-- What a request gives. -/
structure Reply (σ α : Type) where
  /-- The answer. -/
  answer : α
  /-- The controller afterwards. -/
  controller : Controller σ
  /-- The pause requests that were answered, with what they were told. -/
  released : List (Ticket × Option StepResult)
  /-- Remarks for someone who traces the controller. -/
  notes : List Text

/-- A remark of the controller. -/
def controllerNote (words : Text) : Text := Text.ofString "controller: " ++ words

/-- The remark on a change of status; there is none without a change. -/
def statusNotes (before after : Status) : List Text :=
  if before = after then []
  else [controllerNote (before.word ++ Text.ofString " -> " ++ after.word)]

namespace Controller

variable {σ : Type}

/-- A controller over a machine without a program. -/
def fresh (L : Language σ) (draws : Draws) : Controller σ :=
  ⟨⟨L.fresh, draws⟩, .idle, [], [], 0, none⟩

/-- A reply that changes nothing. -/
def unchanged {α : Type} (c : Controller σ) (a : α) : Reply σ α := ⟨a, c, [], []⟩

/-- What all waiting pause requests are told. -/
def releases (c : Controller σ) (r : Option StepResult) : List (Ticket × Option StepResult) :=
  c.waiting.map (·, r)

/-- The controller with another status and no pause request waiting. -/
def settled (c : Controller σ) (s : Status) : Controller σ := { c with status := s, waiting := [] }

/-! ## 3. Requests -/

/-- A program is loaded; a rejected source leaves everything as it was. -/
def prepare (L : Language σ) (c : Controller σ) (code input : Text) :
    Reply σ (Except Trouble (Option Rejection)) :=
  if Action.allowedIn .prepare c.status then
    match L.load c.machine code input with
    | .ok machine =>
      ⟨.ok none, { c with machine, last := none, status := .ready }, [],
        statusNotes c.status .ready⟩
    | .error (.rejected r) =>
      ⟨.ok (some r), c, [], [L.remark (Text.ofString "prepare rejected: " ++ r.message)]⟩
    | .error (.broken b) => c.unchanged (.error (.breakdown b))
  else c.unchanged (.error (.notNow .prepare c.status))

/-- The lines before which a run pauses are replaced. -/
def setBreakpoints (c : Controller σ) (lines : List Int) : Controller σ :=
  { c with breakpoints := (lines.mergeSort fun a b => a ≤ b).eraseDups }

/-- Everything but the breakpoints is forgotten. -/
def reset (L : Language σ) (c : Controller σ) : Reply σ Unit :=
  ⟨(), { c.settled .idle with
      machine := L.clear c.machine, last := none, generation := c.generation + 1 },
    c.releases none, statusNotes c.status .idle⟩

/-- The program is given up: any run ends when it next looks, and waiting pause requests are told
    the latest result. -/
def stop (L : Language σ) (c : Controller σ) : Reply σ Unit :=
  if c.status = .idle then c.unchanged ()
  else
    ⟨(), { c.settled .idle with
        machine := L.clear c.machine, last := none, generation := c.generation + 1 },
      c.releases c.last, statusNotes c.status .idle⟩

/-- What a step's result makes of the status when nothing is running afterwards. -/
def statusAfter (r : StepResult) : Status :=
  if r.error.isSome then .error else if r.next.isNone then .done else .paused

/-- A single step. -/
def step (L : Language σ) (c : Controller σ) : Reply σ (Except Trouble StepResult) :=
  if Action.allowedIn .step c.status then
    let turn := L.step c.machine
    match turn.outcome with
    | .error b => ⟨.error (.breakdown b), { c with machine := turn.machine }, [], turn.notes⟩
    | .ok r =>
      let r := r.markPaused
      ⟨.ok r, { c with machine := turn.machine, last := some r, status := statusAfter r }, [],
        turn.notes ++ statusNotes c.status (statusAfter r)⟩
  else c.unchanged (.error (.notNow .step c.status))

/-- A pause request: it waits for the next step while the machine is running, and is otherwise told
    the latest result at once. -/
def pause (c : Controller σ) (t : Ticket) : Reply σ Unit :=
  if c.status = .running then ⟨(), { c with waiting := c.waiting ++ [t] }, [], []⟩
  else ⟨(), c, [(t, c.last)], []⟩

/-- Several pause requests, one after another. -/
def pauseAll (c : Controller σ) : List Ticket → Reply σ Unit
  | [] => c.unchanged ()
  | t :: rest =>
    let first := c.pause t
    let others := first.controller.pauseAll rest
    { others with released := first.released ++ others.released }

end Controller

end Esolang
