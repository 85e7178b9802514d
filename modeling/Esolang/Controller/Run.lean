/-
  File:      Esolang/Controller/Run.lean
  Subject:   Runs: steps handed out one by one until something ends them.

  A run begins when it is first asked for a result. It ends with the program, with a fault, at a
  breakpoint, at a pause request, when the controller has moved on, or when it is closed. Whenever
  it is over it looks at the controller once more: a run that is closed while it drives the machine
  leaves the program paused, to be picked up by another run.

  * `Run`: where a run stands.
  * `Controller.leave`: what a run does when it is over.
  * `Controller.advance`: the next result of a run; `Controller.close`: its early end.
  * `Controller.executeAll`: all results of a new run, each handed to a host that may make requests.
-/
import Esolang.Controller.Basic

namespace Esolang

/-- Where a run stands. -/
inductive Run where
  /-- It has not been asked for anything. -/
  | unstarted
  /-- It drives the machine as long as the generation is this one. -/
  | active (generation : Nat)
  /-- It has given its last result and was not asked again. -/
  | concluded (generation : Nat)
  /-- It is over. -/
  | finished
deriving DecidableEq

/-- What a run gives when it is asked. -/
inductive Delivery where
  /-- The result of a step. -/
  | result (r : StepResult)
  /-- There are no more. -/
  | ended
  /-- It could not begin, or the machine broke down. -/
  | trouble (t : Trouble)

namespace Controller

variable {σ : Type} (L : Language σ)

/-- An abandoned run leaves the program paused and tells waiting pause requests the latest
    result. -/
def abandon (c : Controller σ) : Reply σ Unit :=
  ⟨(), c.settled .paused, c.releases c.last, statusNotes c.status .paused⟩

/-- What a run does when it is over, whatever has ended it: the program is abandoned if the run was
    still driving it. -/
def leave (c : Controller σ) (generation : Nat) : Reply σ Unit :=
  if generation = c.generation ∧ c.status = .running then c.abandon else c.unchanged ()

theorem leave_machine (c : Controller σ) (generation : Nat) :
    (c.leave generation).controller.machine = c.machine := by
  unfold leave
  split
  · rfl
  · rfl

/-- The reply to a run's last result `r`, which leaves the controller in the given status. -/
def conclude (c : Controller σ) (generation : Nat) (r : StepResult) (s : Status)
    (notes : List Text) : Reply σ (Delivery × Run) :=
  ⟨(.result r, .concluded generation), { c.settled s with last := some r }, c.releases (some r),
    notes ++ statusNotes c.status s⟩

/-- One step of the run that drives the machine. -/
def drive (c : Controller σ) (generation : Nat) : Reply σ (Delivery × Run) :=
  let turn := L.step c.machine
  let c := { c with machine := turn.machine }
  match turn.outcome with
  | .error b =>
    let left := c.leave generation
    { left with answer := (.trouble (.breakdown b), .finished), notes := turn.notes ++ left.notes }
  | .ok r =>
    match r.error, r.next with
    | some f, _ =>
      c.conclude generation r .error
        (turn.notes ++ [controllerNote (Text.ofString "runtime error: " ++ f.message)])
    | none, none => c.conclude generation r .done turn.notes
    | none, some next =>
      if !c.waiting.isEmpty then c.conclude generation r.markPaused .paused turn.notes
      else if c.breakpoints.contains next.startLine then
        c.conclude generation r.markPaused .paused
          (turn.notes ++
            [controllerNote (Text.ofString "breakpoint at line " ++ Decimal.ofInt next.startLine)])
      else ⟨(.result r, .active generation), { c with last := some r }, [], turn.notes⟩

/-- The next result of a run. One that is no longer the current one, or has given its last result,
    is over. -/
def advance (c : Controller σ) : Run → Reply σ (Delivery × Run)
  | .unstarted =>
    if Action.allowedIn .run c.status then
      let begun := { c with generation := c.generation + 1, status := .running }
      let reply := begun.drive L begun.generation
      { reply with notes := statusNotes c.status .running ++ reply.notes }
    else c.unchanged (.trouble (.notNow .run c.status), .finished)
  | .active generation =>
    if generation = c.generation then c.drive L generation
    else { c.leave generation with answer := (.ended, .finished) }
  | .concluded generation => { c.leave generation with answer := (.ended, .finished) }
  | .finished => c.unchanged (.ended, .finished)

/-- The early end of a run. -/
def close (c : Controller σ) : Run → Reply σ Run
  | .active generation | .concluded generation => { c.leave generation with answer := .finished }
  | .unstarted | .finished => c.unchanged .finished

/-- What became of a run whose results were all handed to a host. -/
structure Execution (α : Type) where
  /-- What the host made of the results. -/
  account : α
  /-- The last result. -/
  last : Option StepResult
  /-- Why the run could not begin or go on. -/
  trouble : Option Trouble
  /-- Whether the host gave the run up. -/
  givenUp : Bool

/-- What a host answers when it is handed a result. -/
structure Heed (α : Type) where
  /-- What it has made of all results so far. -/
  account : α
  /-- The pause requests it wants to be made once it has returned. -/
  tickets : List Ticket
  /-- Whether it wants more results. -/
  goesOn : Bool

/-- A host: what it makes of a result, with the requests it makes in between. -/
abbrev Host (σ α : Type) := α → StepResult → Controller σ → Reply σ (Heed α)

/-- The results of a run, each handed to a host, until the run ends, the host gives it up, or
    `budget` results were given. -/
def handOut {α : Type} (host : Host σ α) :
    Nat → Execution α → Run → Controller σ → Reply σ (Execution α)
  | 0, e, _, c => c.unchanged e
  | budget + 1, e, run, c =>
    let next := c.advance L run
    match next.answer with
    | (.ended, _) => { next with answer := e }
    | (.trouble t, _) => { next with answer := { e with trouble := some t } }
    | (.result r, run') =>
      let seen := host e.account r next.controller
      let e := { e with account := seen.answer.account, last := some r }
      if seen.answer.goesOn then
        let paused := seen.controller.pauseAll seen.answer.tickets
        let rest := handOut host budget e run' paused.controller
        { rest with
          released := next.released ++ seen.released ++ paused.released ++ rest.released
          notes := next.notes ++ seen.notes ++ rest.notes }
      else
        let closed := seen.controller.close run'
        let paused := closed.controller.pauseAll seen.answer.tickets
        ⟨{ e with givenUp := true }, paused.controller,
          next.released ++ seen.released ++ closed.released ++ paused.released,
          next.notes ++ seen.notes ++ closed.notes⟩

/-- All results of a new run, handed to a host one by one, at most `budget` of them. -/
def executeAll {α : Type} (host : Host σ α) (budget : Nat) (account : α) (c : Controller σ) :
    Reply σ (Execution α) :=
  handOut L host budget ⟨account, none, none, false⟩ .unstarted c

end Controller

end Esolang
