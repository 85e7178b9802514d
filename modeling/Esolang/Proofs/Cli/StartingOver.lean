/-
  File:      Esolang/Proofs/Cli/StartingOver.lean
  Subject:   A session that was reset goes on like a new one.

  After a `reset` nothing is left of what a session has done but its breakpoints, the number by
  which the controller tells runs apart, and the run in the background if there was one, which is
  over. Nothing depends on the number. The old run is seen only by a prompt that waits for it before
  there is another: `wait` and `pause` then find what it has ended with. If it has failed, that can
  be the end of the session, although the program was reset.

  * `Session.renumbered`: a session with another number; `round_renumbered`: nothing depends on it.
  * `round_isSome`: a session that has had a run keeps it, or gets another one.
  * `Session.carrying`: a session with an old run; `round_carrying`: most commands do not see it;
    `round_awaiting`: the others find what it has ended with.
  * `Session.Alike`: sessions that differ in these two things; `Alike.follow`, `Alike.follow_fatal`:
    they stay alike, unless the failure of the old run is found.
  * `reset_starts_over`: a session right after `reset`, and all that can follow.
  * `failure_outlives_reset`: a session that ends because of a run that was reset.
-/
import Esolang.Proofs.Cli.Rounds

namespace Esolang

/-! ## 1. Runs with another number -/

/-- The run with another number. -/
def Run.renumbered (g : Nat) : Run → Run
  | .active _ => .active g
  | .concluded _ => .concluded g
  | run => run

/-- The controller with another number for its current run. -/
def Controller.renumbered {σ : Type} (c : Controller σ) (g : Nat) : Controller σ :=
  { c with generation := g }

/-- A reply of a controller with another number. -/
def Reply.renumbered {σ α : Type} (reply : Reply σ α) (g : Nat) : Reply σ α :=
  ⟨reply.answer, reply.controller.renumbered g, reply.released, reply.notes⟩

/-- A reply to a run with another number. -/
def Reply.runRenumbered {σ : Type} (reply : Reply σ (Delivery × Run)) (g : Nat) :
    Reply σ (Delivery × Run) :=
  ⟨(reply.answer.1, reply.answer.2.renumbered g), reply.controller.renumbered g, reply.released,
    reply.notes⟩

namespace Controller

variable {σ : Type} {L : Language σ}

theorem leave_renumbered (c : Controller σ) (g : Nat) :
    (c.renumbered g).leave g = (c.leave c.generation).renumbered g := by
  by_cases hstatus : c.status = .running
  · rw [leave_of_driving (c := c) ⟨rfl, hstatus⟩]
    exact leave_of_driving ⟨rfl, hstatus⟩
  · rw [leave_of_not_driving (c := c) fun h => hstatus h.2]
    exact leave_of_not_driving fun h => hstatus h.2

/-- The run that drives the machine does the same by any number. -/
theorem drive_renumbered (c : Controller σ) (g : Nat) :
    (c.renumbered g).drive L g = (c.drive L c.generation).runRenumbered g := by
  obtain ⟨m, status, breakpoints, waiting, generation, last⟩ := c
  show drive L ⟨m, status, breakpoints, waiting, g, last⟩ g = _
  unfold drive
  simp only
  cases (L.step m).outcome with
  | error b =>
    have hleave :=
      leave_renumbered ⟨(L.step m).machine, status, breakpoints, waiting, generation, last⟩ g
    simp only [renumbered] at hleave ⊢
    rw [hleave]
    rfl
  | ok r =>
    simp only
    cases r.error with
    | some f => rfl
    | none =>
      cases r.next with
      | none => rfl
      | some next =>
        simp only
        by_cases hwaiting : (!waiting.isEmpty) = true
        · rw [if_pos hwaiting, if_pos hwaiting]
          rfl
        · rw [if_neg hwaiting, if_neg hwaiting]
          by_cases hline : breakpoints.contains next.startLine = true
          · rw [if_pos hline, if_pos hline]
            rfl
          · rw [if_neg hline, if_neg hline]
            rfl

theorem advance_active_renumbered (c : Controller σ) (g : Nat) :
    (c.renumbered g).advance L (.active g) =
      (c.advance L (.active c.generation)).runRenumbered g := by
  have hc : c.advance L (.active c.generation) = c.drive L c.generation := if_pos rfl
  rw [hc, ← drive_renumbered]
  exact if_pos rfl

theorem advance_unstarted_renumbered {c : Controller σ} (h : Action.allowedIn .run c.status = true)
    (g : Nat) :
    (c.renumbered g).advance L .unstarted = (c.advance L .unstarted).runRenumbered (g + 1) := by
  have hdrive := drive_renumbered (L := L) c.begun (g + 1)
  unfold advance
  rw [if_pos h, if_pos (show Action.allowedIn .run (c.renumbered g).status = true from h)]
  simp only [begun, renumbered] at hdrive ⊢
  rw [hdrive]
  rfl

theorem stop_renumbered (c : Controller σ) (g : Nat) :
    ∃ g', (c.renumbered g).stop L = (c.stop L).renumbered g' := by
  by_cases hidle : c.status = .idle
  · refine ⟨g, ?_⟩
    rw [stop_of_idle hidle]
    exact stop_of_idle hidle
  · refine ⟨g + 1, ?_⟩
    rw [stop_of_not_idle hidle]
    exact stop_of_not_idle hidle

theorem prepare_renumbered (c : Controller σ) (g : Nat) (code input : Text) :
    (c.renumbered g).prepare L code input = (c.prepare L code input).renumbered g := by
  have hmachine : (c.renumbered g).machine = c.machine := rfl
  have hstatus : (c.renumbered g).status = c.status := rfl
  unfold prepare
  simp only [hmachine, hstatus]
  split
  · split
    · rfl
    · rfl
    · rfl
  · rfl

theorem step_renumbered (c : Controller σ) (g : Nat) :
    (c.renumbered g).step L = (c.step L).renumbered g := by
  by_cases hallowed : Action.allowedIn .step c.status = true
  · cases ho : (L.step c.machine).outcome with
    | error b =>
      rw [step_of_breakdown (c := c) hallowed ho]
      exact step_of_breakdown hallowed ho
    | ok r =>
      rw [step_of_result (c := c) hallowed ho]
      exact step_of_result hallowed ho
  · rw [step_of_not_allowed (c := c) hallowed]
    exact step_of_not_allowed hallowed

theorem pause_renumbered (c : Controller σ) (g : Nat) (t : Ticket) :
    (c.renumbered g).pause t = (c.pause t).renumbered g := by
  have hstatus : (c.renumbered g).status = c.status := rfl
  unfold pause
  rw [hstatus]
  split
  · rfl
  · rfl

end Controller

namespace Cli

/-! ## 2. Sessions with another number -/

/-- The run in the background with another number. -/
def Task.renumbered (g : Nat) : Task → Task
  | .live run last => .live (run.renumbered g) last
  | task => task

/-- A run that is over has no number. -/
theorem map_renumbered {task : Option Task} (h : task.any Task.isLive = false) (g : Nat) :
    task.map (Task.renumbered g) = task := by
  rcases task with _ | ⟨_, _⟩ | _ | _
  · rfl
  · cases h
  · rfl
  · rfl

namespace Session

variable {σ : Type} {L : Language σ} {subject : Subject} {marked : List Int}

/-- The session with another number for its current run. -/
def renumbered (s : Session σ) (g : Nat) : Session σ :=
  ⟨s.controller.renumbered g, s.task.map (Task.renumbered g), s.prompt⟩

theorem isLive_renumbered (s : Session σ) (g : Nat) :
    (s.renumbered g).task.any Task.isLive = s.task.any Task.isLive := by
  obtain ⟨c, task, prompt⟩ := s
  rcases task with _ | ⟨_, _⟩ | _ | _ <;> rfl

/-- A run in the background that is live is the current one. -/
def Numbered (s : Session σ) : Prop :=
  ∀ run last, s.task = some (.live run last) → run = .active s.controller.generation

theorem Coherent.numbered {s : Session σ} (h : s.Coherent marked) : s.Numbered := by
  intro run last htask
  cases h with
  | resting hmarked hwaiting hstatus hrest =>
    rw [htask] at hrest
    cases hrest
  | driving last' hmarked hwaiting hstatus hlive =>
    rw [htask] at hlive
    cases hlive
    rfl

/-- A session takes a reply to its run by any number alike. -/
theorem advanceTask_renumbered {s : Session σ} {run run' : Run} {g g' : Nat}
    (h : (s.controller.renumbered g).advance L run' = (s.controller.advance L run).runRenumbered g')
    (last : Option StepResult) :
    (s.renumbered g).advanceTask L subject run' last =
      ((s.advanceTask L subject run last).1, (s.advanceTask L subject run last).2.renumbered
        g') := by
  have hcontroller : (s.renumbered g).controller = s.controller.renumbered g := rfl
  unfold advanceTask
  rw [hcontroller, h]
  obtain ⟨⟨delivery, run⟩, c, released, notes⟩ := s.controller.advance L run
  cases delivery with
  | result r => cases run <;> rfl
  | ended => rfl
  | trouble t => rfl

theorem nudge_renumbered {s : Session σ} (h : s.Numbered) (g : Nat) :
    (s.renumbered g).nudge L subject =
      ((s.nudge L subject).1, (s.nudge L subject).2.renumbered g) := by
  obtain ⟨c, task, prompt⟩ := s
  rcases task with _ | ⟨run, last⟩ | _ | _
  · rfl
  · obtain rfl : run = .active c.generation := h run last rfl
    exact advanceTask_renumbered (s := ⟨c, _, prompt⟩) (Controller.advance_active_renumbered c g)
      last
  · rfl
  · rfl

theorem nudges_renumbered {s : Session σ} (h : s.Coherent marked) (g n : Nat) :
    (s.renumbered g).nudges L subject n =
      ((s.nudges L subject n).1, (s.nudges L subject n).2.renumbered g) := by
  induction n generalizing s with
  | zero => rfl
  | succ n ih =>
    unfold nudges
    simp only [nudge_renumbered h.numbered, ih (nudge_coherent h)]

theorem raise_renumbered (s : Session σ) (g : Nat) (t : Trouble) :
    (s.renumbered g).raise t = ((s.raise t).1, (s.raise t).2.renumbered g) := by
  unfold raise
  split
  · rfl
  · rfl

theorem afterTask_renumbered (s : Session σ) (g : Nat) :
    (s.renumbered g).afterTask = (s.afterTask.1, s.afterTask.2.renumbered g) := by
  obtain ⟨c, task, prompt⟩ := s
  rcases task with _ | ⟨run, last⟩ | _ | why
  · rfl
  · rfl
  · rfl
  · exact raise_renumbered ⟨c, some (.failed why), prompt⟩ g why

theorem tick_renumbered {s : Session σ} (h : s.Coherent marked) (g : Nat) :
    (s.renumbered g).tick L subject =
      ((s.tick L subject).1, (s.tick L subject).2.renumbered g) := by
  unfold tick
  rw [nudge_renumbered h.numbered]
  simp only [isLive_renumbered, afterTask_renumbered]
  split
  · rfl
  · rfl

theorem settle_renumbered {s : Session σ} (h : s.Coherent marked) (g budget : Nat) :
    (s.renumbered g).settle L subject budget =
      ((s.settle L subject budget).1, (s.settle L subject budget).2.renumbered g) := by
  induction budget generalizing s with
  | zero => rfl
  | succ budget ih =>
    have hprompt : (s.renumbered g).prompt = s.prompt := rfl
    unfold settle
    rw [hprompt]
    split
    · simp only [tick_renumbered h, ih (tick_coherent h)]
    · rfl

theorem abandonTask_renumbered {s : Session σ} (h : s.Coherent marked) (g : Nat) :
    ∃ g', (s.renumbered g).abandonTask L subject =
      ((s.abandonTask L subject).1, (s.abandonTask L subject).2.renumbered g') := by
  cases h with
  | resting hmarked hwaiting hstatus htask =>
    refine ⟨g, ?_⟩
    rw [abandonTask_of_not_live htask]
    exact abandonTask_of_not_live ((isLive_renumbered s g).trans htask)
  | driving last hmarked hwaiting hstatus htask =>
    refine ⟨g + 1, ?_⟩
    have hlive : (s.renumbered g).task = some (.live (.active g) last) := by
      unfold renumbered
      rw [htask]
      rfl
    rw [abandonTask_driving hstatus htask]
    exact abandonTask_driving hstatus hlive

theorem Coherent.abandonTask_not_live {s : Session σ} (h : s.Coherent marked) :
    (s.abandonTask L subject).2.task.any Task.isLive = false := by
  cases h with
  | resting hmarked hwaiting hstatus htask =>
    rw [abandonTask_of_not_live htask]
    exact htask
  | driving last hmarked hwaiting hstatus htask =>
    rw [abandonTask_driving hstatus htask]
    rfl

theorem runCommand_renumbered (s : Session σ) (g : Nat) :
    ∃ g', (s.renumbered g).runCommand L subject =
      ((s.runCommand L subject).1, (s.runCommand L subject).2.renumbered g') := by
  have hstatus : (s.renumbered g).controller.status = s.controller.status := rfl
  unfold runCommand
  rw [isLive_renumbered, hstatus]
  split
  · exact ⟨g, rfl⟩
  · split
    · next hallowed =>
      exact ⟨g + 1, advanceTask_renumbered (Controller.advance_unstarted_renumbered hallowed g)
        none⟩
    · exact ⟨g, raise_renumbered s g _⟩

/-- The session once a pause request was made. -/
def pausing (s : Session σ) : Session σ := ⟨(s.controller.pause 0).controller, s.task, s.prompt⟩

theorem pausing_renumbered (s : Session σ) (g : Nat) :
    (s.renumbered g).pausing = s.pausing.renumbered g := by
  unfold pausing renumbered
  rw [Controller.pause_renumbered]
  rfl

/-- A pause request changes neither the run in the background nor its number. -/
theorem Coherent.numbered_pausing {s : Session σ} (h : s.Coherent marked) : s.pausing.Numbered := by
  have hgeneration : s.pausing.controller.generation = s.controller.generation := by
    unfold pausing Controller.pause
    split
    · rfl
    · rfl
  intro run last htask
  rw [hgeneration]
  exact h.numbered run last htask

theorem pauseCommand_of_none {s : Session σ} (h : s.task = none) :
    s.pauseCommand L subject =
      (s.pausing.controller.last.toList.map fun r => outLine (r.report L.name), s.pausing) := by
  unfold pauseCommand pausing
  simp only [h]
  cases (s.controller.pause 0).controller.last with
  | none => rfl
  | some r => rfl

theorem pauseCommand_of_some {s : Session σ} {task : Task} (h : s.task = some task) :
    s.pauseCommand L subject =
      ((s.pausing.nudge L subject).1 ++ (s.pausing.nudge L subject).2.afterTask.1,
        (s.pausing.nudge L subject).2.afterTask.2) := by
  unfold pauseCommand
  simp only [h]
  rw [← h]
  rfl

theorem pauseCommand_renumbered {s : Session σ} (h : s.Coherent marked) (g : Nat) :
    (s.renumbered g).pauseCommand L subject =
      ((s.pauseCommand L subject).1, (s.pauseCommand L subject).2.renumbered g) := by
  cases htask : s.task with
  | none =>
    have hnone : (s.renumbered g).task = none := congrArg (Option.map _) htask
    rw [pauseCommand_of_none htask, pauseCommand_of_none hnone, pausing_renumbered]
    rfl
  | some task =>
    have hsome : (s.renumbered g).task = some (task.renumbered g) := congrArg (Option.map _) htask
    rw [pauseCommand_of_some htask, pauseCommand_of_some hsome, pausing_renumbered,
      nudge_renumbered h.numbered_pausing, afterTask_renumbered]

theorem stepCommand_renumbered (s : Session σ) (g : Nat) :
    (s.renumbered g).stepCommand L subject =
      ((s.stepCommand L subject).1, (s.stepCommand L subject).2.renumbered g) := by
  have hstep : (s.renumbered g).controller.step L = (s.controller.step L).renumbered g :=
    Controller.step_renumbered _ _
  unfold stepCommand
  rw [hstep]
  obtain ⟨answer, c, released, notes⟩ := s.controller.step L
  cases answer with
  | error t =>
    have hraise := raise_renumbered ⟨c, s.task, s.prompt⟩ g t
    simp only [renumbered] at hraise
    simp only [Reply.renumbered, renumbered, hraise]
  | ok r => rfl

theorem stateCommand_renumbered (s : Session σ) (g : Nat) :
    (s.renumbered g).stateCommand = (s.stateCommand.1, s.stateCommand.2.renumbered g) := by
  have hlast : (s.renumbered g).controller.last = s.controller.last := rfl
  unfold stateCommand
  simp only [hlast]
  cases s.controller.last.map StepResult.panel with
  | none => rfl
  | some panel =>
    cases panel with
    | ok t => rfl
    | error why => simp only [raise_renumbered]; rfl

theorem breakCommand_renumbered (s : Session σ) (g : Nat) (numerals : List Text) :
    (s.renumbered g).breakCommand numerals =
      ((s.breakCommand numerals).1, (s.breakCommand numerals).2.renumbered g) := by
  unfold breakCommand
  cases numerals.mapM Numeral.read with
  | error flaw => rfl
  | ok ns => rfl

theorem resetCommand_renumbered {s : Session σ} (h : s.Coherent marked) (g : Nat) :
    ∃ g', (s.renumbered g).resetCommand L subject =
      ((s.resetCommand L subject).1, (s.resetCommand L subject).2.renumbered g') := by
  obtain ⟨g₁, habandon⟩ : ∃ g', (s.renumbered g).abandonTask L subject = (_, renumbered _ g') :=
    abandonTask_renumbered h g
  obtain ⟨g₂, hstop⟩ :=
    Controller.stop_renumbered (L := L) (s.abandonTask L subject).2.controller g₁
  have hspent : (s.abandonTask L subject).2.task.any Task.isLive = false := h.abandonTask_not_live
  refine ⟨g₂, ?_⟩
  unfold resetCommand
  rw [habandon]
  simp only [renumbered, hstop, Reply.renumbered, Controller.prepare_renumbered,
    map_renumbered hspent]

/-- **Nothing that a command does depends on the number.** -/
theorem perform_renumbered {s : Session σ} (h : s.Coherent marked) (g : Nat) (command : Command) :
    ∃ g', (s.renumbered g).perform L subject command =
      ((s.perform L subject command).1, (s.perform L subject command).2.renumbered g') := by
  cases command with
  | nothing => exact ⟨g, rfl⟩
  | leave =>
    obtain ⟨g', habandon⟩ := abandonTask_renumbered h g
    refine ⟨g', ?_⟩
    show (s.renumbered g).close L subject =
      ((s.close L subject).1, (s.close L subject).2.renumbered g')
    unfold close
    rw [habandon]
    rfl
  | run => exact runCommand_renumbered s g
  | wait =>
    refine ⟨g, ?_⟩
    have hsome : (s.renumbered g).task.isSome = s.task.isSome := Option.isSome_map
    show ([], _) = _
    rw [hsome]
    rfl
  | pause => exact ⟨g, pauseCommand_renumbered h g⟩
  | step => exact ⟨g, stepCommand_renumbered s g⟩
  | breakAt numerals => exact ⟨g, breakCommand_renumbered s g numerals⟩
  | state => exact ⟨g, stateCommand_renumbered s g⟩
  | reset => exact resetCommand_renumbered h g
  | unknown word => exact ⟨g, rfl⟩

theorem enter_renumbered {s : Session σ} (h : s.Coherent marked) (g : Nat) (line : Text) :
    ∃ g', (s.renumbered g).enter L subject (some line) =
      ((s.enter L subject (some line)).1, (s.enter L subject (some line)).2.renumbered g') :=
  perform_renumbered h g (Command.ofLine line)

/-- **Nothing that a round does depends on the number.** -/
theorem round_renumbered {s : Session σ} {program : Text → σ} {named : List Int}
    (hread : L.read subject.source = .ok program) (h : s.Coherent (Controller.arranged named))
    (g : Nat) (r : Round) :
    ∃ g', (s.renumbered g).round L subject r =
      ((s.round L subject r).1, (s.round L subject r).2.renumbered g') := by
  by_cases hs : s.prompt = .asking
  · have hnudges : (s.nudges L subject r.turns).2.Coherent (Controller.arranged named) :=
      nudges_coherent h _
    obtain ⟨g', henter⟩ := enter_renumbered (L := L) hnudges g r.line
    refine ⟨g', ?_⟩
    rw [round_of_asking hs, round_of_asking (s := s.renumbered g) hs, nudges_renumbered h, henter,
      settle_renumbered (enter_coherent hread hnudges r.line)]
  · refine ⟨g, ?_⟩
    rw [round_of_not_asking hs]
    exact round_of_not_asking (s := s.renumbered g) hs r

/-! ## 3. Sessions that have had a run -/

theorem advanceTask_isSome (s : Session σ) (run : Run) (last : Option StepResult) :
    (s.advanceTask L subject run last).2.task.isSome = true := by
  unfold advanceTask
  obtain ⟨⟨delivery, run'⟩, c, released, notes⟩ := s.controller.advance L run
  cases delivery with
  | result r => cases run' <;> rfl
  | ended => rfl
  | trouble t => rfl

section HasRun

variable {s : Session σ}

theorem nudge_isSome (h : s.task.isSome = true) : (s.nudge L subject).2.task.isSome = true := by
  unfold nudge
  split
  · exact advanceTask_isSome _ _ _
  · exact h

theorem nudges_isSome (h : s.task.isSome = true) (n : Nat) :
    (s.nudges L subject n).2.task.isSome = true := by
  induction n generalizing s with
  | zero => exact h
  | succ n ih => exact ih (nudge_isSome h)

theorem raise_task (s : Session σ) (t : Trouble) : (s.raise t).2.task = s.task := by
  unfold raise
  split
  · rfl
  · rfl

theorem afterTask_task (s : Session σ) : s.afterTask.2.task = s.task := by
  unfold afterTask
  split
  · exact raise_task _ _
  · rfl

theorem tick_isSome (h : s.task.isSome = true) : (s.tick L subject).2.task.isSome = true := by
  unfold tick
  simp only
  split
  · exact nudge_isSome h
  · rw [afterTask_task]
    exact nudge_isSome h

theorem settle_isSome (h : s.task.isSome = true) (budget : Nat) :
    (s.settle L subject budget).2.task.isSome = true := by
  induction budget generalizing s with
  | zero => exact h
  | succ budget ih =>
    unfold settle
    split
    · exact ih (tick_isSome h)
    · exact h

theorem abandonTask_isSome (h : s.task.isSome = true) :
    (s.abandonTask L subject).2.task.isSome = true := by
  unfold abandonTask
  split
  · exact nudge_isSome (s := { s with controller := _ }) h
  · exact h

/-- A command never takes the run in the background away. -/
theorem perform_isSome (h : s.task.isSome = true) (command : Command) :
    (s.perform L subject command).2.task.isSome = true := by
  cases command with
  | nothing => exact h
  | leave => exact abandonTask_isSome h
  | run =>
    simp only [perform, runCommand]
    split
    · exact h
    · split
      · exact advanceTask_isSome _ _ _
      · rw [raise_task]
        exact h
  | wait => exact h
  | pause =>
    obtain ⟨task, htask⟩ := Option.isSome_iff_exists.mp h
    show (s.pauseCommand L subject).2.task.isSome = true
    rw [pauseCommand_of_some htask, afterTask_task]
    exact nudge_isSome (s := s.pausing) h
  | step =>
    simp only [perform, stepCommand]
    split
    · rw [raise_task]
      exact h
    · exact h
  | breakAt numerals =>
    simp only [perform, breakCommand]
    split
    · exact h
    · exact h
  | state =>
    simp only [perform, stateCommand]
    split
    · exact h
    · exact h
    · rw [raise_task]
      exact h
  | reset => exact abandonTask_isSome h
  | unknown word => exact h

/-- **A session that has had a run keeps it, or gets another one.** -/
theorem round_isSome (h : s.task.isSome = true) (r : Round) :
    (s.round L subject r).2.task.isSome = true := by
  by_cases hasking : s.prompt = .asking
  · rw [round_of_asking hasking]
    exact settle_isSome (perform_isSome (nudges_isSome h _) _) _
  · rw [round_of_not_asking hasking]
    exact h

end HasRun

/-! ## 4. Sessions with an old run -/

/-- The session with another run in the background. -/
def carrying (s : Session σ) (task : Option Task) : Session σ := { s with task }

theorem settle_of_not_waiting {s : Session σ} (h : s.prompt ≠ .waiting) (budget : Nat) :
    s.settle L subject budget = ([], s) := by
  cases budget with
  | zero => rfl
  | succ budget =>
    unfold settle
    split
    · next hwaiting => exact absurd hwaiting h
    · rfl

theorem nudges_of_not_live {s : Session σ} (h : s.task.any Task.isLive = false) (n : Nat) :
    s.nudges L subject n = ([], s) := by
  induction n with
  | zero => rfl
  | succ n ih =>
    unfold nudges
    rw [nudge_of_not_live h]
    simp only [ih]
    rfl

theorem advanceTask_carrying (s : Session σ) (task : Option Task) (run : Run)
    (last : Option StepResult) :
    (s.carrying task).advanceTask L subject run last = s.advanceTask L subject run last := by
  have hcontroller : (s.carrying task).controller = s.controller := rfl
  unfold advanceTask
  rw [hcontroller]
  obtain ⟨⟨delivery, run⟩, c, released, notes⟩ := s.controller.advance L run
  cases delivery with
  | result r => cases run <;> rfl
  | ended => rfl
  | trouble t => rfl

/-- Two sessions of which the second has no run in the background, and the first only an old one;
    neither of them waits. -/
structure Carries (spent : Option Task) (s s' : Session σ) : Prop where
  carrying : s = s'.carrying spent
  task : s'.task = none
  prompt : s'.prompt ≠ .waiting

theorem raise_carries {s : Session σ} (hs : s.task = none) (spent : Option Task) (t : Trouble) :
    ((s.carrying spent).raise t).1 = (s.raise t).1 ∧
      Carries spent ((s.carrying spent).raise t).2 (s.raise t).2 := by
  unfold raise
  split
  · exact ⟨rfl, rfl, hs, nofun⟩
  · exact ⟨rfl, rfl, hs, nofun⟩

end Session

/-- Whether a command waits for the run in the background. -/
def Command.awaits : Command → Bool
  | .wait | .pause => true
  | _ => false

namespace Session

variable {σ : Type} {L : Language σ} {subject : Subject} {marked : List Int} {s : Session σ}
  {spent : Option Task}

/-- A command that does not wait for the old run does not see it; `run` may replace it. -/
theorem perform_carrying (hs : s.task = none) (hasking : s.prompt = .asking)
    (hspent : spent.any Task.isLive = false) {command : Command} (hc : command.awaits = false) :
    (s.perform L subject command).2.task.isSome = true ∧
        (s.carrying spent).perform L subject command = s.perform L subject command ∨
      ((s.carrying spent).perform L subject command).1 = (s.perform L subject command).1 ∧
        Carries spent ((s.carrying spent).perform L subject command).2
          (s.perform L subject command).2 := by
  have hrest : s.task.any Task.isLive = false := by rw [hs]; rfl
  have hprompt : s.prompt ≠ .waiting := by rw [hasking]; exact nofun
  have hcontroller : (s.carrying spent).controller = s.controller := rfl
  have habandon : s.abandonTask L subject = ([], s) := abandonTask_of_not_live hrest
  have habandon' : (s.carrying spent).abandonTask L subject = ([], s.carrying spent) :=
    abandonTask_of_not_live hspent
  cases command with
  | nothing => exact .inr ⟨rfl, rfl, hs, hprompt⟩
  | leave =>
    refine .inr ?_
    simp only [perform, close]
    rw [habandon, habandon']
    exact ⟨rfl, rfl, hs, nofun⟩
  | run =>
    have hrest' : (s.carrying spent).task.any Task.isLive = false := hspent
    simp only [perform, runCommand, hrest, hrest', hcontroller, Bool.false_eq_true, if_false]
    by_cases hallowed : Action.allowedIn .run s.controller.status = true
    · rw [if_pos hallowed, if_pos hallowed]
      exact .inl ⟨advanceTask_isSome _ _ _, advanceTask_carrying s spent .unstarted none⟩
    · rw [if_neg hallowed, if_neg hallowed]
      exact .inr (raise_carries hs spent _)
  | wait => cases hc
  | pause => cases hc
  | step =>
    simp only [perform, stepCommand, hcontroller]
    obtain ⟨answer, c, released, notes⟩ := s.controller.step L
    cases answer with
    | ok r => exact .inr ⟨rfl, rfl, hs, hprompt⟩
    | error t =>
      obtain ⟨hlines, hcarries⟩ := raise_carries (s := ⟨c, s.task, s.prompt⟩) hs spent t
      exact .inr ⟨congrArg (_ ++ ·) hlines, hcarries⟩
  | breakAt numerals =>
    simp only [perform, breakCommand]
    cases numerals.mapM Numeral.read with
    | error flaw => exact .inr ⟨rfl, rfl, hs, hprompt⟩
    | ok ns => exact .inr ⟨rfl, rfl, hs, hprompt⟩
  | state =>
    simp only [perform, stateCommand, hcontroller]
    cases s.controller.last.map StepResult.panel with
    | none => exact .inr ⟨rfl, rfl, hs, hprompt⟩
    | some panel =>
      cases panel with
      | ok t => exact .inr ⟨rfl, rfl, hs, hprompt⟩
      | error why =>
        obtain ⟨hlines, hcarries⟩ := raise_carries hs spent (.breakdown why)
        exact .inr ⟨congrArg (_ :: ·) hlines, hcarries⟩
  | reset =>
    simp only [perform, resetCommand, habandon, habandon']
    exact .inr ⟨rfl, rfl, hs, hprompt⟩
  | unknown word => exact .inr ⟨rfl, rfl, hs, hprompt⟩

/-- A round whose command does not wait for the old run does not see it. -/
theorem round_carrying (hs : s.task = none) (hspent : spent.any Task.isLive = false) {r : Round}
    (hr : s.prompt = .asking → (Command.ofLine r.line).awaits = false) :
    (s.round L subject r).2.task.isSome = true ∧
        (s.carrying spent).round L subject r = s.round L subject r ∨
      ((s.carrying spent).round L subject r).1 = (s.round L subject r).1 ∧
        ((s.carrying spent).round L subject r).2 = (s.round L subject r).2.carrying spent ∧
        (s.round L subject r).2.task = none := by
  by_cases hasking : s.prompt = .asking
  · have hrest : s.task.any Task.isLive = false := by rw [hs]; rfl
    rw [round_of_asking hasking, round_of_asking (s := s.carrying spent) hasking,
      nudges_of_not_live hrest, nudges_of_not_live (s := s.carrying spent) hspent]
    simp only [enter]
    have hperform : _ ∧ (s.carrying spent).perform L subject (Command.ofLine r.line) = _ ∨ _ :=
      perform_carrying hs hasking hspent (hr hasking)
    rcases hperform with ⟨hsome, heq⟩ | ⟨hlines, hcarries⟩
    · rw [heq]
      exact .inl ⟨settle_isSome hsome _, rfl⟩
    · -- Neither session waits, so that the round is over.
      have hprompt :
          ((s.carrying spent).perform L subject (Command.ofLine r.line)).2.prompt ≠ .waiting := by
        rw [hcarries.carrying]
        exact hcarries.prompt
      rw [settle_of_not_waiting hcarries.prompt, settle_of_not_waiting hprompt]
      refine .inr ⟨?_, hcarries.carrying, hcarries.task⟩
      rw [hlines]
  · rw [round_of_not_asking hasking, round_of_not_asking (s := s.carrying spent) hasking]
    exact .inr ⟨rfl, rfl, hs⟩

/-- A run has failed in a way that ends the session when it is found. -/
def Fatal (task : Option Task) (why : Trouble) : Prop :=
  task = some (.failed why) ∧ isReported why = false

/-- Giving a run up is no failure, and does not undo one. -/
theorem fatal_spent {task : Option Task} {why : Trouble} :
    Fatal (task.map Task.spent) why ↔ Fatal task why := by
  refine and_congr_left fun _ => ?_
  rcases task with _ | ⟨_, _⟩ | _ | _
  · rfl
  · exact ⟨nofun, nofun⟩
  · rfl
  · rfl

/-- A prompt that finds such a failure is closed. -/
theorem afterTask_of_fatal {why : Trouble} (h : Fatal s.task why) :
    s.afterTask.2 = { s with prompt := .closed (.troubled why) } := by
  unfold afterTask raise
  rw [h.1]
  simp only [h.2, Bool.false_eq_true, if_false]

/-- A prompt that waits for a run that is over goes on, if it does not find such a failure. -/
theorem afterTask_of_not_fatal (h : ∀ why, ¬ Fatal s.task why) :
    s.afterTask.2 = { s with prompt := .asking } := by
  unfold afterTask
  split
  · next why htask =>
    have hreported : isReported why = true :=
      Bool.not_eq_false _ ▸ fun hreported => h why ⟨htask, hreported⟩
    unfold raise
    rw [if_pos hreported]
  · rfl

theorem afterTask_prompt (s : Session σ) : s.afterTask.2.prompt ≠ .waiting := by
  by_cases h : ∃ why, Fatal s.task why
  · obtain ⟨why, hfatal⟩ := h
    rw [afterTask_of_fatal hfatal]
    exact nofun
  · rw [afterTask_of_not_fatal (not_exists.mp h)]
    exact nofun

/-- A prompt does not wait for long if the run in the background is over. -/
theorem settle_of_not_live (hprompt : s.prompt = .waiting) (htask : s.task.any Task.isLive = false)
    (budget : Nat) : (s.settle L subject (budget + 1)).2 = s.afterTask.2 := by
  have htick : (s.tick L subject).2 = s.afterTask.2 := by
    unfold tick
    rw [nudge_of_not_live htask]
    simp only [htask, Bool.false_eq_true, if_false]
  unfold settle
  rw [hprompt]
  simp only [htick]
  rw [settle_of_not_waiting (afterTask_prompt s)]

/-- Without a run in the background, `wait` and `pause` change nothing. -/
theorem perform_awaiting_none (hs : s.task = none) (hasking : s.prompt = .asking)
    (hstatus : s.controller.status ≠ .running) {command : Command} (hc : command.awaits = true) :
    (s.perform L subject command).2 = s := by
  obtain ⟨c, task, prompt⟩ := s
  simp only at hs hasking
  subst hs hasking
  cases command with
  | wait => rfl
  | pause =>
    show (pauseCommand L subject ⟨c, none, .asking⟩).2 = _
    rw [pauseCommand_of_none rfl]
    unfold pausing Controller.pause
    rw [if_neg hstatus]
  | _ => cases hc

/-- With a run in the background that is over, `wait` and `pause` do what its end asks for. -/
theorem perform_awaiting_some {task : Task} (hs : s.task = some task)
    (hlive : s.task.any Task.isLive = false) (hstatus : s.controller.status ≠ .running)
    {command : Command} (hc : command.awaits = true) (budget : Nat) :
    ((s.perform L subject command).2.settle L subject (budget + 1)).2 = s.afterTask.2 := by
  cases command with
  | wait =>
    have hwait : (s.perform L subject .wait).2 = { s with prompt := .waiting } := by
      simp only [perform, hs]
      rfl
    rw [hwait, settle_of_not_live (s := { s with prompt := .waiting }) rfl hlive]
    rfl
  | pause =>
    have hpausing : s.pausing = s := by
      unfold pausing Controller.pause
      rw [if_neg hstatus]
    show ((s.pauseCommand L subject).2.settle L subject (budget + 1)).2 = _
    rw [pauseCommand_of_some hs, hpausing, nudge_of_not_live hlive,
      settle_of_not_waiting (afterTask_prompt s)]
  | _ => cases hc

/-- A round whose command waits finds what the run in the background has ended with. -/
theorem round_awaiting {task : Task} (hs : s.task = some task)
    (hlive : s.task.any Task.isLive = false) (hasking : s.prompt = .asking)
    (hstatus : s.controller.status ≠ .running) {r : Round}
    (hr : (Command.ofLine r.line).awaits = true) : (s.round L subject r).2 = s.afterTask.2 := by
  rw [round_of_asking hasking, nudges_of_not_live hlive]
  exact perform_awaiting_some hs hlive hstatus hr r.patience

/-- It changes nothing if there has not been any run. -/
theorem round_awaiting_none (hs : s.task = none) (hasking : s.prompt = .asking)
    (hstatus : s.controller.status ≠ .running) {r : Round}
    (hr : (Command.ofLine r.line).awaits = true) : (s.round L subject r).2 = s := by
  have hlive : s.task.any Task.isLive = false := by rw [hs]; rfl
  have hprompt : s.prompt ≠ .waiting := by rw [hasking]; exact nofun
  have hperform : (s.perform L subject (Command.ofLine r.line)).2 = s :=
    perform_awaiting_none hs hasking hstatus hr
  rw [round_of_asking hasking, nudges_of_not_live hlive]
  simp only [enter]
  rw [hperform, settle_of_not_waiting hprompt]

/-! ## 5. Sessions that go on alike -/

/-- Two sessions that differ in nothing but the number, and in an old run as long as the second
    session has not had any. -/
def Alike (spent : Option Task) (s s' : Session σ) : Prop :=
  ∃ g, (s'.task.isSome = true ∧ s = s'.renumbered g) ∨
    (s'.task = none ∧ s = (s'.renumbered g).carrying spent)

/-- A line is entered that waits for a run, but the session has not had any. -/
def WaitsInVain (s : Session σ) (r : Round) : Prop :=
  s.prompt = .asking ∧ s.task = none ∧ (Command.ofLine r.line).awaits = true

/-- In one of the rounds a line is entered that waits for a run, but the session has not had any. -/
def EverWaitsInVain (L : Language σ) (subject : Subject) : List Round → Session σ → Prop
  | [], _ => False
  | r :: rest, s => s.WaitsInVain r ∨ EverWaitsInVain L subject rest (s.round L subject r).2

section Alike

variable {s' : Session σ} {program : Text → σ} {named : List Int}

theorem Alike.prompt_eq (h : Alike spent s s') : s.prompt = s'.prompt := by
  obtain ⟨g, ⟨-, rfl⟩ | ⟨-, rfl⟩⟩ := h
  · rfl
  · rfl

/-- **Sessions that are alike show the same in a round** and are alike afterwards, if the round does
    not wait for a run that only one of them has. -/
theorem Alike.round (h : Alike spent s s') (hread : L.read subject.source = .ok program)
    (hs' : s'.Coherent (Controller.arranged named)) (hspent : spent.any Task.isLive = false)
    {r : Round} (hr : ¬ s'.WaitsInVain r) :
    (s.round L subject r).1 = (s'.round L subject r).1 ∧
      Alike spent (s.round L subject r).2 (s'.round L subject r).2 := by
  obtain ⟨g, hg⟩ := h
  obtain ⟨g', hround⟩ : ∃ g', (s'.renumbered g).round L subject r = (_, renumbered _ g') :=
    round_renumbered hread hs' g r
  rcases hg with ⟨hsome, rfl⟩ | ⟨htask, rfl⟩
  · rw [hround]
    exact ⟨rfl, g', .inl ⟨round_isSome hsome r, rfl⟩⟩
  · have hnone : (s'.renumbered g).task = none := congrArg (Option.map _) htask
    have hawaits : (s'.renumbered g).prompt = .asking → (Command.ofLine r.line).awaits = false :=
      fun hasking => Bool.eq_false_iff.mpr fun hwaits => hr ⟨hasking, htask, hwaits⟩
    have hcarrying : _ ∧ ((s'.renumbered g).carrying spent).round L subject r = _ ∨ _ :=
      round_carrying hnone hspent hawaits
    rcases hcarrying with ⟨hsome, heq⟩ | ⟨hlines, hsession, hafter⟩
    · rw [hround] at hsome
      rw [heq, hround]
      exact ⟨rfl, g', .inl ⟨Option.isSome_map.symm.trans hsome, rfl⟩⟩
    · rw [hround] at hlines hsession hafter
      exact ⟨hlines, g', .inr ⟨Option.map_eq_none_iff.mp hafter, hsession⟩⟩

/-- A round that waits in vain in one of two sessions that are alike finds the old run in the other
    one, if there is one. -/
theorem Alike.round_waiting (h : Alike spent s s') (hs' : s'.Coherent (Controller.arranged named))
    (hspent : spent.any Task.isLive = false) {r : Round} (hr : s'.WaitsInVain r) :
    (s'.round L subject r).2 = s' ∧ (s.round L subject r).2 = s.afterTask.2 ∧ s.task = spent := by
  obtain ⟨hasking, htask, hwaits⟩ := hr
  have hstatus : s'.controller.status ≠ .running := hs'.not_live (by rw [htask]; rfl)
  refine ⟨round_awaiting_none htask hasking hstatus hwaits, ?_⟩
  obtain ⟨g, ⟨hsome, -⟩ | ⟨-, rfl⟩⟩ := h
  · rw [htask] at hsome
    cases hsome
  · refine ⟨?_, rfl⟩
    cases spent with
    | none =>
      rw [round_awaiting_none (s := (s'.renumbered g).carrying none) rfl hasking hstatus hwaits]
      unfold afterTask
      exact congrArg (Session.mk _ _) hasking
    | some task =>
      exact round_awaiting (s := (s'.renumbered g).carrying (some task)) rfl hspent hasking hstatus
        hwaits

/-- Sessions that are alike stay so in a round, unless it finds that the old run has failed. -/
theorem Alike.step (h : Alike spent s s') (hread : L.read subject.source = .ok program)
    (hs' : s'.Coherent (Controller.arranged named)) (hspent : spent.any Task.isLive = false)
    {r : Round} (hr : (∀ why, ¬ Fatal spent why) ∨ ¬ s'.WaitsInVain r) :
    Alike spent (s.round L subject r).2 (s'.round L subject r).2 := by
  by_cases hwaits : s'.WaitsInVain r
  · have hnone := hr.resolve_right (not_not_intro hwaits)
    obtain ⟨hround', hround, rfl⟩ : (s'.round L subject r).2 = s' ∧
        (s.round L subject r).2 = s.afterTask.2 ∧ s.task = spent :=
      h.round_waiting hs' hspent hwaits
    rw [hround', hround, afterTask_of_not_fatal hnone, ← h.prompt_eq.trans hwaits.1]
    exact h
  · exact (h.round hread hs' hspent hwaits).2

/-- **Sessions that are alike stay so, round by round**, if the old run has not failed for good or
    none of the rounds waits for it. -/
theorem Alike.follow (h : Alike spent s s') (hread : L.read subject.source = .ok program)
    (hs' : s'.Coherent (Controller.arranged named)) (hspent : spent.any Task.isLive = false)
    {rounds : List Round}
    (hrounds : (∀ why, ¬ Fatal spent why) ∨ ¬ s'.EverWaitsInVain L subject rounds) :
    Alike spent (s.follow L subject rounds) (s'.follow L subject rounds) := by
  induction rounds generalizing s s' named with
  | nil => exact h
  | cons r rest ih =>
    have hfirst := hrounds.imp_right fun hnever hwaits => hnever (.inl hwaits)
    have hrest := hrounds.imp_right fun hnever hlater => hnever (.inr hlater)
    obtain ⟨named', hcoherent⟩ := follow_stays_coherent hread hs' [r]
    exact ih (h.step hread hs' hspent hfirst) hcoherent hrest

/-- **The failure of an old run ends a session as soon as a round waits for that run.** -/
theorem Alike.follow_fatal (h : Alike spent s s') (hread : L.read subject.source = .ok program)
    (hs' : s'.Coherent (Controller.arranged named)) (hspent : spent.any Task.isLive = false)
    {why : Trouble} (hfatal : Fatal spent why) {rounds : List Round}
    (hrounds : s'.EverWaitsInVain L subject rounds) :
    (s.follow L subject rounds).prompt = .closed (.troubled why) := by
  induction rounds generalizing s s' named with
  | nil => exact hrounds.elim
  | cons r rest ih =>
    by_cases hwaits : s'.WaitsInVain r
    · obtain ⟨-, hround, rfl⟩ : _ ∧ (s.round L subject r).2 = s.afterTask.2 ∧ s.task = spent :=
        h.round_waiting hs' hspent hwaits
      have hclosed : (s.round L subject r).2.prompt = .closed (.troubled why) := by
        rw [hround, afterTask_of_fatal hfatal]
      have hne : (s.round L subject r).2.prompt ≠ .asking := by
        rw [hclosed]
        exact nofun
      show ((s.round L subject r).2.follow L subject rest).prompt = _
      rw [follow_of_not_asking hne]
      exact hclosed
    · obtain ⟨named', hcoherent⟩ := follow_stays_coherent hread hs' [r]
      exact ih (h.round hread hs' hspent hwaits).2 hcoherent (hrounds.resolve_left hwaits)

end Alike

end Session

open Session

/-- **`reset` starts over, but the failure of a run outlives it.** Let the prompt be ready after any
    rounds over a source that can be read, and let `reset` be entered. Whatever the run in the
    background was doing, it is over then; no pause request waits, there is no result, the machine
    is that of the freshly loaded program, and runs pause before the lines that the last proper
    `break` has named. From there on the session is like a new one with these breakpoints: it shows
    the same in every round, the results of all runs and steps included, unless the round waits for
    a run before the new session has had any. Such a round finds the run that was reset. If that run
    had failed for good, this ends the session; otherwise the two sessions stay alike, whatever is
    entered. -/
theorem reset_starts_over {σ : Type} {L : Language σ} {subject : Subject} {program : Text → σ}
    (hread : L.read subject.source = .ok program) (draws : Draws) {past : List Round}
    {s s' after : Session σ} (hpast : (opened L subject draws).follow L subject past = s)
    (hasking : s.prompt = .asking) (turns : Nat) (hturns : (s.nudges L subject turns).2 = s')
    {line : Text} (hreset : Command.ofLine line = .reset)
    (hafter : (s'.enter L subject (some line)).2 = after) :
    after.prompt = .asking ∧
    after.task = s'.task.map Task.spent ∧
    after.task.any Task.isLive = false ∧
    after.controller.waiting = [] ∧
    after.controller.status = .ready ∧
    after.controller.last = none ∧
    after.controller.machine = ⟨program subject.input, s'.controller.machine.draws⟩ ∧
    (∀ n, n ∈ after.controller.breakpoints ↔ n ∈ lastNamed [] (past.map Round.line)) ∧
    ∀ new,
      new = (opened L subject s'.controller.machine.draws).marking
        (lastNamed [] (past.map Round.line)) →
      ∀ later,
        (((∀ why, ¬ Fatal s'.task why) ∨ ¬ new.EverWaitsInVain L subject later) →
          Alike after.task (after.follow L subject later) (new.follow L subject later) ∧
          ∀ r, ¬ (new.follow L subject later).WaitsInVain r →
            ((after.follow L subject later).round L subject r).1 =
              ((new.follow L subject later).round L subject r).1) ∧
        ∀ why, Fatal s'.task why → new.EverWaitsInVain L subject later →
          (after.follow L subject later).prompt = .closed (.troubled why) := by
  have hs : s.Coherent (Controller.arranged (lastNamed [] (past.map Round.line))) := by
    rw [← hpast] at hasking ⊢
    exact follow_coherent hread (opened_coherent hread draws) hasking
  have hs' : s'.Coherent (Controller.arranged (lastNamed [] (past.map Round.line))) := by
    rw [← hturns]
    exact nudges_coherent hs turns
  have hprompt : s'.prompt = .asking := by
    rw [← hturns, nudges_prompt]
    exact hasking
  have hcommand : (s'.resetCommand L subject).2 = after := by
    rw [← hafter]
    show _ = (s'.perform L subject (Command.ofLine line)).2
    rw [hreset]
    rfl
  obtain ⟨generation, heq⟩ := resetCommand_eq hs' hread
  rw [hcommand, hprompt] at heq
  have htask : after.task = s'.task.map Task.spent := by rw [heq]
  have hspent : after.task.any Task.isLive = false := by
    rw [htask]
    exact any_isLive_spent _
  refine ⟨by rw [heq], htask, hspent, by rw [heq], by rw [heq], by rw [heq], by rw [heq],
    fun n => ?_, fun new hnew later => ?_⟩
  · rw [heq]
    exact Controller.mem_arranged
  · have hcoherent : new.Coherent (Controller.arranged (lastNamed [] (past.map Round.line))) := by
      rw [hnew]
      exact (opened_coherent hread _).marking _
    have halike : Alike after.task after new := by
      rw [hnew, opened_eq hread]
      refine ⟨generation, .inr ⟨rfl, ?_⟩⟩
      rw [heq]
      rfl
    refine ⟨fun hlater => ?_, fun why hfatal hwaits => ?_⟩
    · have hfollow := halike.follow hread hcoherent hspent
        (hlater.imp_left fun h why hfatal => h why (fatal_spent.mp (htask ▸ hfatal)))
      obtain ⟨named, hnamed⟩ := follow_stays_coherent hread hcoherent later
      exact ⟨hfollow, fun r hr => (hfollow.round hread hnamed hspent hr).1⟩
    · exact halike.follow_fatal hread hcoherent hspent (htask ▸ fatal_spent.mpr hfatal) hwaits

/-- A program that counts to four, without input. -/
def counting : Subject := ⟨"iiii", [], false⟩

/-- A line is marked, and another `break` fails; then a run is set going. -/
def countingRounds : List Round := [⟨0, "break 9", 0⟩, ⟨0, "break x", 0⟩, ⟨0, "run", 0⟩]

theorem reset_starts_over_counting :
    ((opened Deadfish.language counting []).follow Deadfish.language counting
      countingRounds).prompt = .asking ∧
    Command.ofLine " reset now" = .reset ∧
    ∃ s' after, (((opened Deadfish.language counting []).follow Deadfish.language counting
        countingRounds).nudges Deadfish.language counting 1).2 = s' ∧
      s'.task.any Task.isLive = true ∧
      (s'.enter Deadfish.language counting (some " reset now")).2 = after ∧
      after.task.any Task.isLive = false ∧ after.controller.status = .ready ∧
      (∀ n, n ∈ after.controller.breakpoints ↔ n ∈ [(8 : Int)]) ∧
      ∀ later, Alike after.task (after.follow Deadfish.language counting later)
        (((opened Deadfish.language counting s'.controller.machine.draws).marking [8]).follow
          Deadfish.language counting later) := by
  have hread : Deadfish.language.read counting.source = .ok _ := rfl
  have hasking : ((opened Deadfish.language counting []).follow Deadfish.language counting
      countingRounds).prompt = .asking := by decide +kernel
  have hreset : Command.ofLine " reset now" = .reset := by decide +kernel
  have hnamed : lastNamed [] (countingRounds.map Round.line) = [8] := by decide +kernel
  obtain ⟨-, -, hspent, -, hready, -, -, hmarked, hlater⟩ :=
    reset_starts_over hread [] rfl hasking 1 rfl hreset rfl
  rw [hnamed] at hmarked hlater
  have hlive : (((opened Deadfish.language counting []).follow Deadfish.language counting
      countingRounds).nudges Deadfish.language counting 1).2.task.any Task.isLive = true := by
    decide +kernel
  refine ⟨hasking, hreset, _, _, rfl, hlive, rfl, hspent, hready, hmarked, fun later => ?_⟩
  refine ((hlater _ rfl later).1 (.inl fun why hfatal => ?_)).1
  rw [hfatal.1] at hlive
  cases hlive

/-- A program that goes to its second line with 9^512 and 1 on its stack, for a remainder that is
    beyond all doubles. -/
def overflowing : Subject := ⟨"9:*:*:*:*:*:*:*:*:*1v\n                    %", [], false⟩

/-- The program is run up to its second line, and then another run is set going, which fails at
    once; nobody waits for it. -/
def overflowingRounds : List Round :=
  [⟨0, "break 2", 0⟩, ⟨0, "run", 0⟩, ⟨0, "wait", 30⟩, ⟨0, "run", 0⟩]

/-- **The failure of a run outlives `reset`.** In a new session `wait` does nothing without a run,
    and `step` makes a step. After the failed run and `reset`, `wait` ends the session instead, and
    `step` does not make a step any more. -/
theorem failure_outlives_reset :
    let failed := (opened Befunge.language overflowing []).follow Befunge.language overflowing
      overflowingRounds
    let after := (failed.round Befunge.language overflowing ⟨0, "reset", 0⟩).2
    let new := (opened Befunge.language overflowing []).marking [1]
    let waited := after.follow Befunge.language overflowing [⟨0, "wait", 0⟩]
    let newWaited := new.follow Befunge.language overflowing [⟨0, "wait", 0⟩]
    failed.prompt = .asking ∧ after.prompt = .asking ∧ after.controller.breakpoints = [1] ∧
      waited.prompt ≠ .asking ∧
      Transcript.on (waited.round Befunge.language overflowing ⟨0, "step", 0⟩).1 .out = [] ∧
      Transcript.on (newWaited.round Befunge.language overflowing ⟨0, "step", 0⟩).1 .out =
        "[befunge93] paused at line 1, col 1\n" := by
  decide +kernel

end Cli

end Esolang
