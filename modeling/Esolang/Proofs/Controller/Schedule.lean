/-
  File:      Esolang/Proofs/Controller/Schedule.lean
  Subject:   A controller under any sequence of requests, with all the runs that somebody holds.

  Any number of runs can be created, asked for results and closed, in any order, between all other
  requests. A run that is asked again sleeps before its next step, and whatever is requested
  meanwhile comes first. A host that executes a whole run may do all of this while it is handed a
  result.

  * `Stage`: a controller, the runs, and all that was delivered and answered.
  * `Request`, `Callback`: what can be asked on a stage, and how a host reacts to a result.
  * `play`, `playAll`: what a request makes of a stage, and what a schedule makes of it.
-/
import Esolang.Controller.Run

namespace Esolang

/-! ## 1. Stages -/

/-- The outcome of a step that a trouble delivers; a refusal is no step. -/
def Trouble.told : Trouble → List (Except Breakdown StepResult)
  | .notNow .. => []
  | .breakdown b => [.error b]

/-- The outcome of a step that a run delivers, if it has taken one. -/
def Delivery.told : Delivery → List (Except Breakdown StepResult)
  | .result r => [.ok r]
  | .ended => []
  | .trouble t => t.told

/-- A run that somebody holds. -/
structure HeldRun where
  /-- The run. -/
  run : Run
  /-- Whether it was asked for its next result and sleeps before the step. -/
  asleep : Bool
deriving DecidableEq

/-- A controller and all that is around it. -/
structure Stage (σ : Type) where
  /-- The controller. -/
  controller : Controller σ
  /-- The runs, in the order of their creation. -/
  runs : List HeldRun
  /-- The outcomes of steps that were delivered, by runs and by single steps, in order. -/
  told : List (Except Breakdown StepResult)
  /-- The pause requests that were answered, in order. -/
  released : List (Ticket × Option StepResult)

namespace Stage

variable {σ : Type} (L : Language σ)

/-- Run number `k`, which stands as `run` says, goes on to its next result. -/
def advance (s : Stage σ) (k : Nat) (run : Run) : Stage σ :=
  let reply := s.controller.advance L run
  { s with
    controller := reply.controller
    runs := s.runs.set k ⟨reply.answer.2, false⟩
    told := s.told ++ reply.answer.1.told
    released := s.released ++ reply.released }

/-- A run is asked for its next result. It begins, or it ends because it is no longer the current
    one or has given its last result, or it goes to sleep; one that sleeps already cannot be
    asked. -/
def ask (s : Stage σ) (k : Nat) : Stage σ :=
  match s.runs[k]? with
  | some ⟨.unstarted, _⟩ => s.advance L k .unstarted
  | some ⟨.active generation, false⟩ =>
    if generation = s.controller.generation then
      { s with runs := s.runs.set k ⟨.active generation, true⟩ }
    else s.advance L k (.active generation)
  | some ⟨.concluded generation, _⟩ => s.advance L k (.concluded generation)
  | _ => s

/-- A run that sleeps goes on. -/
def wake (s : Stage σ) (k : Nat) : Stage σ :=
  match s.runs[k]? with
  | some ⟨run, true⟩ => s.advance L k run
  | _ => s

/-- A run is closed, or cancelled while it sleeps. -/
def close (s : Stage σ) (k : Nat) : Stage σ :=
  match s.runs[k]? with
  | none => s
  | some held =>
    let reply := s.controller.close held.run
    { s with
      controller := reply.controller
      runs := s.runs.set k ⟨reply.answer, false⟩
      released := s.released ++ reply.released }

/-- A single step. -/
def step (s : Stage σ) : Stage σ :=
  let reply := s.controller.step L
  { s with
    controller := reply.controller
    told := s.told ++ match reply.answer with
      | .ok r => [.ok r]
      | .error t => t.told
    released := s.released ++ reply.released }

/-- The reply to a request that delivers no step. -/
def heed {α : Type} (s : Stage σ) (reply : Reply σ α) : Stage σ :=
  { s with controller := reply.controller, released := s.released ++ reply.released }

/-! ## 2. Hosts -/

/-- How a host reacts to a result. -/
structure Reaction (σ : Type) where
  /-- What it does at once. -/
  act : Stage σ → Stage σ
  /-- The pause requests that are made as soon as it has returned. -/
  tickets : List Ticket
  /-- Whether it fails, which gives the run up. -/
  raises : Bool

/-- What a host has in its hands between two results. -/
structure Attention (σ : Type) where
  /-- The runs that others hold. -/
  runs : List HeldRun
  /-- What was delivered so far. -/
  told : List (Except Breakdown StepResult)
  /-- Its reactions to the results to come; without one it only takes notice. -/
  reactions : List (Reaction σ)

/-- The host with these reactions. A result is delivered when it is handed over, before the
    reaction. -/
def attend : Controller.Host σ (Attention σ) := fun a r c =>
  let told := a.told ++ [.ok r]
  match a.reactions with
  | [] => ⟨⟨{ a with told }, [], true⟩, c, [], []⟩
  | x :: rest =>
    let s := x.act ⟨c, a.runs, told, []⟩
    ⟨⟨⟨s.runs, s.told, rest⟩, x.tickets, !x.raises⟩, s.controller, s.released, []⟩

/-- A whole new run, handed to a host, with at most `budget` results. -/
def executeAll (s : Stage σ) (budget : Nat) (reactions : List (Reaction σ)) : Stage σ :=
  let reply := s.controller.executeAll L attend budget ⟨s.runs, s.told, reactions⟩
  { controller := reply.controller
    runs := reply.answer.account.runs
    told := reply.answer.account.told ++ (reply.answer.trouble.map Trouble.told).getD []
    released := s.released ++ reply.released }

end Stage

/-! ## 3. Schedules -/

mutual

/-- What can be asked on a stage. -/
inductive Request where
  | prepare (code input : Text)
  | stop
  | reset
  | setBreakpoints (lines : List Int)
  | pause (t : Ticket)
  | step
  /-- A new run. -/
  | create
  /-- Run number `k` is asked for its next result. -/
  | ask (k : Nat)
  /-- Run number `k` has slept long enough. -/
  | wake (k : Nat)
  | close (k : Nat)
  /-- A new run whose results are handed to a host. -/
  | executeAll (budget : Nat) (callbacks : List Callback)

/-- How a host reacts to a result: the requests it makes at once, the pause requests that are made
    as soon as it has returned, and whether it fails. -/
inductive Callback where
  | mk (requests : List Request) (tickets : List Ticket) (raises : Bool)

end

section Play

variable {σ : Type} (L : Language σ)

mutual

/-- What a request makes of a stage. -/
def play : Request → Stage σ → Stage σ
  | .prepare code input, s => s.heed (s.controller.prepare L code input)
  | .stop, s => s.heed (s.controller.stop L)
  | .reset, s => s.heed (s.controller.reset L)
  | .setBreakpoints lines, s => { s with controller := s.controller.setBreakpoints lines }
  | .pause t, s => s.heed (s.controller.pause t)
  | .step, s => s.step L
  | .create, s => { s with runs := s.runs ++ [⟨.unstarted, false⟩] }
  | .ask k, s => s.ask L k
  | .wake k, s => s.wake L k
  | .close k, s => s.close k
  | .executeAll budget callbacks, s => s.executeAll L budget (reactions callbacks)

/-- What a schedule makes of a stage. -/
def playAll : List Request → Stage σ → Stage σ
  | [], s => s
  | r :: rest, s => playAll rest (play r s)

/-- The reactions that callbacks describe. -/
def reactions : List Callback → List (Stage.Reaction σ)
  | [] => []
  | .mk requests tickets raises :: rest => ⟨playAll requests, tickets, raises⟩ :: reactions rest

end

end Play

mutual

/-- Whether a request leaves the program loaded, also in all reactions it describes. -/
def Request.keepsProgram : Request → Bool
  | .prepare .. | .stop | .reset => false
  | .executeAll _ callbacks => keepProgramAfter callbacks
  | _ => true

/-- The same for all requests of a schedule. -/
def keepProgram : List Request → Bool
  | [] => true
  | r :: rest => r.keepsProgram && keepProgram rest

/-- The same for all requests of the callbacks. -/
def keepProgramAfter : List Callback → Bool
  | [] => true
  | .mk requests _ _ :: rest => keepProgram requests && keepProgramAfter rest

end

end Esolang
