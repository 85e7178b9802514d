/-
  File:      Esolang/Proofs/Cli/Rounds.lean
  Subject:   What holds of a debugger session whenever its prompt is ready.

  A session is followed in rounds. In each of them the run in the background may go on for a while
  before a line is there, then the line is entered, and then the prompt waits if the line asks for
  that. Between two rounds no pause request waits, and the controller is running exactly while the
  run in the background is live; that run is the one the controller has begun last.

  * `Round`, `Session.follow`: a session round by round; `converse_eq_follow`: sessions of the tool
    are such.
  * `Session.Coherent`: what holds between two rounds.
  * `enter_coherent`, `round_coherent`: one command and one round preserve it.
  * `resetCommand_eq`: what `reset` makes of a coherent session.
  * `follow_coherent`: it holds after any rounds, with the lines named by the last proper `break`.
-/
import Esolang.Cli.Debugger
import Esolang.Proofs.Controller.Exclusion

namespace Esolang

/-! ## 1. What requests do to a controller -/

namespace Controller

variable {σ : Type} {L : Language σ}

/-- A source that can be read is loaded, whatever was there before. -/
theorem prepare_of_read {c : Controller σ} {code : Text} {program : Text → σ}
    (hread : L.read code = .ok program) (input : Text)
    (hallowed : Action.allowedIn .prepare c.status = true) :
    c.prepare L code input =
      ⟨.ok none,
        { c with machine := ⟨program input, c.machine.draws⟩, last := none, status := .ready }, [],
        statusNotes c.status .ready⟩ := by
  have hload : L.load c.machine code input = .ok ⟨program input, c.machine.draws⟩ := by
    unfold Language.load
    rw [hread]
    rfl
  unfold prepare
  rw [if_pos hallowed, hload]

theorem stop_of_idle {c : Controller σ} (h : c.status = .idle) : c.stop L = c.unchanged () :=
  if_pos h

/-- A controller that was not idle forgets its program, its last result and all pause requests. -/
theorem stop_of_not_idle {c : Controller σ} (h : c.status ≠ .idle) :
    c.stop L =
      ⟨(), ⟨L.clear c.machine, .idle, c.breakpoints, [], c.generation + 1, none⟩, c.releases c.last,
        statusNotes c.status .idle⟩ :=
  if_neg h

theorem step_of_not_allowed {c : Controller σ} (h : ¬Action.allowedIn .step c.status = true) :
    c.step L = c.unchanged (.error (.notNow .step c.status)) :=
  if_neg h

theorem step_of_breakdown {c : Controller σ} {b : Breakdown}
    (h : Action.allowedIn .step c.status = true) (ho : (L.step c.machine).outcome = .error b) :
    c.step L =
      ⟨.error (.breakdown b), { c with machine := (L.step c.machine).machine }, [],
        (L.step c.machine).notes⟩ := by
  unfold step
  rw [if_pos h]
  simp only [ho]

theorem step_of_result {c : Controller σ} {r : StepResult}
    (h : Action.allowedIn .step c.status = true) (ho : (L.step c.machine).outcome = .ok r) :
    c.step L =
      ⟨.ok r.markPaused,
        { c with
          machine := (L.step c.machine).machine, last := some r.markPaused,
          status := statusAfter r }, [],
        (L.step c.machine).notes ++ statusNotes c.status (statusAfter r)⟩ := by
  unfold step
  rw [if_pos h]
  simp only [ho]
  rfl

theorem leave_breakpoints (c : Controller σ) (generation : Nat) :
    (c.leave generation).controller.breakpoints = c.breakpoints := by
  unfold leave
  split
  · rfl
  · rfl

theorem Driven.breakpoints_eq {c : Controller σ} {generation : Nat}
    {reply : Reply σ (Delivery × Run)} (h : c.Driven L generation reply) :
    reply.controller.breakpoints = c.breakpoints := by
  cases h with
  | breaksDown ho => exact leave_breakpoints _ _
  | concludes ho hstops => rfl
  | goesOn ho herror hnext hwaiting hline => rfl

/-- The breakpoints that lines become: sorted, and each only once. -/
def arranged (lines : List Int) : List Int := (lines.mergeSort fun a b => a ≤ b).eraseDups

theorem arranged_nil : arranged [] = [] := by
  unfold arranged
  rw [List.mergeSort_nil, List.eraseDups_nil]

theorem mem_arranged {lines : List Int} {n : Int} : n ∈ arranged lines ↔ n ∈ lines := by
  unfold arranged
  rw [List.mem_eraseDups, List.mem_mergeSort]

end Controller

namespace Cli

/-! ## 2. Rounds -/

/-- One line of a session, and what happens around it. -/
structure Round where
  /-- How often the run in the background goes on before the line is there. -/
  turns : Nat
  /-- The line. -/
  line : Text
  /-- How often that run goes on, after the first time, while the prompt waits for it. -/
  patience : Nat

/-- Whether the prompt is ready can be decided. -/
instance Prompt.decidableAsking (p : Prompt) : Decidable (p = .asking) :=
  match p with
  | .asking => isTrue rfl
  | .waiting => isFalse nofun
  | .closed _ => isFalse nofun

/-- The lines that a `break` with proper numerals names, counted from 0. -/
def namedLines (line : Text) : Option (List Int) :=
  match Command.ofLine line with
  | .breakAt numerals => (numerals.mapM Numeral.read).toOption.map fun ns => ns.map (· - 1)
  | _ => none

/-- The lines that the last proper `break` names, or those named before. -/
def lastNamed (before : List Int) (lines : List Text) : List Int :=
  (lines.filterMap namedLines).getLastD before

theorem lastNamed_cons (before : List Int) (line : Text) (rest : List Text) :
    lastNamed before (line :: rest) = lastNamed ((namedLines line).getD before) rest := by
  unfold lastNamed
  cases h : namedLines line with
  | none => rw [List.filterMap_cons_none h]; rfl
  | some ns => rw [List.filterMap_cons_some h, List.getLastD_cons]; rfl

namespace Session

variable {σ : Type} (L : Language σ) (subject : Subject)

/-- The run in the background goes on a number of times. -/
def nudges : Nat → Session σ → Transcript × Session σ
  | 0, s => ([], s)
  | n + 1, s =>
    let (lines, s) := s.nudge L subject
    let (more, s) := nudges n s
    (lines ++ more, s)

/-- One round of a session whose prompt is ready; there are no more in any other. -/
def round (s : Session σ) (r : Round) : Transcript × Session σ :=
  match s.prompt with
  | .asking =>
    let (before, s) := s.nudges L subject r.turns
    let (lines, s) := s.enter L subject (some r.line)
    let (waited, s) := s.settle L subject (r.patience + 1)
    (before ++ lines ++ waited, s)
  | _ => ([], s)

/-- A session after several rounds. -/
def follow : List Round → Session σ → Session σ
  | [], s => s
  | r :: rest, s => follow rest (s.round L subject r).2

/-- The session with other breakpoints. -/
def marking (s : Session σ) (lines : List Int) : Session σ :=
  { s with controller := s.controller.setBreakpoints lines }

/-- A new session over a program. -/
def opened (draws : Draws) : Session σ :=
  .start ((Controller.fresh L draws).prepare L subject.source subject.input).controller

variable {L subject}

theorem round_of_asking {s : Session σ} (h : s.prompt = .asking) (r : Round) :
    s.round L subject r =
      ((s.nudges L subject r.turns).1 ++
        ((s.nudges L subject r.turns).2.enter L subject (some r.line)).1
          ++ (((s.nudges L subject r.turns).2.enter L subject (some r.line)).2.settle L subject
            (r.patience + 1)).1,
        (((s.nudges L subject r.turns).2.enter L subject (some r.line)).2.settle L subject
          (r.patience + 1)).2) := by
  unfold round
  rw [h]

theorem round_of_not_asking {s : Session σ} (h : s.prompt ≠ .asking) (r : Round) :
    s.round L subject r = ([], s) := by
  unfold round
  split
  · next hasking => exact absurd hasking h
  · rfl

theorem follow_of_not_asking {s : Session σ} (h : s.prompt ≠ .asking) (rounds : List Round) :
    s.follow L subject rounds = s := by
  induction rounds with
  | nil => rfl
  | cons r rest ih =>
    show follow L subject rest (s.round L subject r).2 = s
    rw [round_of_not_asking h]
    exact ih

/-- The tool conducts a session in rounds, in which the run in the background does not go on before
    a line is there; the end of the input comes after the last of them. -/
theorem converse_eq_follow (budget : Nat) (lines : List Text) {s : Session σ}
    (hs : s.prompt = .asking)
    (hend : (s.follow L subject (lines.map (⟨0, ·, budget⟩))).prompt = .asking) :
    (s.converse L subject (budget + 1) lines).2 =
      ((s.follow L subject (lines.map (⟨0, ·, budget⟩))).enter L subject none).2 := by
  induction lines generalizing s with
  | nil => rfl
  | cons line rest ih =>
    have hround : (s.round L subject ⟨0, line, budget⟩).2 =
        ((s.enter L subject (some line)).2.settle L subject (budget + 1)).2 := by
      rw [round_of_asking hs]
      rfl
    have hfollow : s.follow L subject ((line :: rest).map (⟨0, ·, budget⟩)) =
        follow L subject (rest.map (⟨0, ·, budget⟩))
          ((s.enter L subject (some line)).2.settle L subject (budget + 1)).2 := by
      rw [← hround]
      rfl
    rw [hfollow] at hend ⊢
    have hasking : ((s.enter L subject (some line)).2.settle L subject (budget + 1)).2.prompt =
        .asking := by
      refine Classical.byContradiction fun h => ?_
      rw [follow_of_not_asking h] at hend
      exact h hend
    rw [← ih hasking hend]
    rw [converse]
    simp only [hasking]

end Session

/-! ## 3. Coherent sessions -/

/-- What a run in the background is when it was given up: it has nothing more to do. -/
def Task.spent : Task → Task
  | .live .. => .ended
  | task => task

theorem any_isLive_spent (task : Option Task) : (task.map Task.spent).any Task.isLive = false := by
  rcases task with _ | ⟨_, _⟩ | _ | _ <;> rfl

theorem map_spent {task : Option Task} (h : task.any Task.isLive = false) :
    task.map Task.spent = task := by
  rcases task with _ | ⟨_, _⟩ | _ | _
  · rfl
  · cases h
  · rfl
  · rfl

namespace Session

variable {σ : Type} {L : Language σ} {subject : Subject} {program : Text → σ} {marked : List Int}

/-- What holds between two rounds, if runs pause before the lines that are marked: no pause request
    waits, and either nothing is running, or the run in the background is the current one. -/
inductive Coherent (marked : List Int) (s : Session σ) : Prop
  | resting (hmarked : s.controller.breakpoints = marked) (hwaiting : s.controller.waiting = [])
      (hstatus : s.controller.status ≠ .running) (htask : s.task.any Task.isLive = false)
  | driving (last : Option StepResult) (hmarked : s.controller.breakpoints = marked)
      (hwaiting : s.controller.waiting = []) (hstatus : s.controller.status = .running)
      (htask : s.task = some (.live (.active s.controller.generation) last))

theorem Coherent.marked_eq {s : Session σ} (h : s.Coherent marked) :
    s.controller.breakpoints = marked := by
  cases h with
  | resting hmarked => exact hmarked
  | driving last hmarked => exact hmarked

/-- The prompt has no part in it. -/
theorem Coherent.prompted {s : Session σ} (h : s.Coherent marked) (prompt : Prompt) :
    Coherent marked { s with prompt } := by
  cases h with
  | resting hmarked hwaiting hstatus htask => exact .resting hmarked hwaiting hstatus htask
  | driving last hmarked hwaiting hstatus htask =>
    exact .driving last hmarked hwaiting hstatus htask

/-- Other lines can be marked at any time. -/
theorem Coherent.marking {s : Session σ} (h : s.Coherent marked) (lines : List Int) :
    (s.marking lines).Coherent (Controller.arranged lines) := by
  cases h with
  | resting hmarked hwaiting hstatus htask => exact .resting rfl hwaiting hstatus htask
  | driving last hmarked hwaiting hstatus htask => exact .driving last rfl hwaiting hstatus htask

/-- A run that has ended is as good as none. -/
theorem Coherent.not_live {s : Session σ} (h : s.Coherent marked)
    (htask : s.task.any Task.isLive = false) : s.controller.status ≠ .running := by
  cases h with
  | resting hmarked hwaiting hstatus => exact hstatus
  | driving last hmarked hwaiting hstatus hlive =>
    rw [hlive] at htask
    cases htask

/-- A new session over a source that can be read. -/
theorem opened_eq (hread : L.read subject.source = .ok program) (draws : Draws) :
    opened L subject draws = ⟨⟨⟨program subject.input, draws⟩, .ready, [], [], 0, none⟩, none,
      .asking⟩ := by
  unfold opened
  rw [Controller.prepare_of_read hread _ rfl]
  rfl

theorem opened_coherent (hread : L.read subject.source = .ok program) (draws : Draws) :
    (opened L subject draws).Coherent (Controller.arranged []) := by
  rw [opened_eq hread]
  exact .resting Controller.arranged_nil.symm rfl nofun rfl

/-- The session after a step of the run in the background, by what the step makes of the
    controller. -/
theorem advanceTask_coherent {s : Session σ} {run : Run} {c : Controller σ}
    (hstatus : c.status = .running) (hmarked : c.breakpoints = marked)
    (h : c.Driven L c.generation (s.controller.advance L run)) (last : Option StepResult) :
    (s.advanceTask L subject run last).2.Coherent marked := by
  have hbreakpoints := h.breakpoints_eq.trans hmarked
  unfold advanceTask
  generalize s.controller.advance L run = reply at h hbreakpoints ⊢
  cases h with
  | breaksDown ho =>
    -- The run was driving the machine, so that it leaves the program paused.
    have hleave :=
      Controller.leave_of_driving (c := { c with machine := (L.step c.machine).machine })
      ⟨rfl, hstatus⟩
    rw [hleave]
    exact .resting hmarked rfl nofun rfl
  | concludes ho hstops => exact .resting hbreakpoints rfl (Controller.statusAfter_ne_running _) rfl
  | goesOn ho herror hnext hwaiting hline => exact .driving _ hbreakpoints hwaiting hstatus rfl

theorem advanceTask_prompt (s : Session σ) (run : Run) (last : Option StepResult) :
    (s.advanceTask L subject run last).2.prompt = s.prompt := by
  unfold advanceTask
  obtain ⟨⟨delivery, run'⟩, c, released, notes⟩ := s.controller.advance L run
  cases delivery with
  | result r => cases run' <;> rfl
  | ended => rfl
  | trouble t => rfl

/-- A run in the background that was current goes on, even if a pause request waits for it. -/
theorem nudge_driving {s : Session σ} {last : Option StepResult}
    (hmarked : s.controller.breakpoints = marked) (hstatus : s.controller.status = .running)
    (htask : s.task = some (.live (.active s.controller.generation) last)) :
    (s.nudge L subject).2.Coherent marked := by
  unfold nudge
  rw [htask]
  refine advanceTask_coherent hstatus hmarked ?_ last
  have hdrive : s.controller.advance L (.active s.controller.generation) =
      s.controller.drive L s.controller.generation := if_pos rfl
  rw [hdrive]
  exact Controller.drive_driven _ _

theorem nudge_of_not_live {s : Session σ} (h : s.task.any Task.isLive = false) :
    s.nudge L subject = ([], s) := by
  unfold nudge
  split
  · next hlive =>
    rw [hlive] at h
    cases h
  · rfl

theorem nudge_coherent {s : Session σ} (h : s.Coherent marked) :
    (s.nudge L subject).2.Coherent marked := by
  cases h with
  | resting hmarked hwaiting hstatus htask =>
    rw [nudge_of_not_live htask]
    exact .resting hmarked hwaiting hstatus htask
  | driving last hmarked hwaiting hstatus htask => exact nudge_driving hmarked hstatus htask

theorem nudge_prompt (s : Session σ) : (s.nudge L subject).2.prompt = s.prompt := by
  unfold nudge
  split
  · exact advanceTask_prompt _ _ _
  · rfl

theorem nudges_coherent {s : Session σ} (h : s.Coherent marked) (n : Nat) :
    (s.nudges L subject n).2.Coherent marked := by
  induction n generalizing s with
  | zero => exact h
  | succ n ih => exact ih (nudge_coherent h)

theorem nudges_prompt (s : Session σ) (n : Nat) : (s.nudges L subject n).2.prompt = s.prompt := by
  induction n generalizing s with
  | zero => rfl
  | succ n ih => exact (ih _).trans (nudge_prompt s)

theorem raise_coherent {s : Session σ} (h : s.Coherent marked) (t : Trouble) :
    (s.raise t).2.Coherent marked := by
  unfold raise
  split
  · exact h.prompted _
  · exact h.prompted _

theorem afterTask_coherent {s : Session σ} (h : s.Coherent marked) :
    s.afterTask.2.Coherent marked := by
  unfold afterTask
  split
  · exact raise_coherent h _
  · exact h.prompted _

theorem tick_coherent {s : Session σ} (h : s.Coherent marked) :
    (s.tick L subject).2.Coherent marked := by
  have hnudge : (s.nudge L subject).2.Coherent marked := nudge_coherent h
  unfold tick
  simp only
  split
  · exact hnudge
  · exact afterTask_coherent hnudge

theorem settle_coherent {s : Session σ} (h : s.Coherent marked) (budget : Nat) :
    (s.settle L subject budget).2.Coherent marked := by
  induction budget generalizing s with
  | zero => exact h
  | succ budget ih =>
    unfold settle
    split
    · exact ih (tick_coherent h)
    · exact h

/-! ## 4. Commands -/

/-- A run that is given up looks at the controller once more, finds that it is not the current one
    any longer, and ends without a step. -/
theorem abandonTask_driving {s : Session σ} {last : Option StepResult}
    (hstatus : s.controller.status = .running)
    (htask : s.task = some (.live (.active s.controller.generation) last)) :
    s.abandonTask L subject =
      (remarks subject (statusNotes .running .idle) ++ (remarks subject [] ++ taskReport L last),
        ⟨⟨L.clear s.controller.machine, .idle, s.controller.breakpoints, [],
          s.controller.generation + 1, none⟩,
          some .ended, s.prompt⟩) := by
  obtain ⟨c, task, prompt⟩ := s
  simp only at hstatus htask ⊢
  subst htask
  have hne : ¬ c.generation = c.generation + 1 := Nat.ne_of_lt (Nat.lt_succ_self _)
  have hstop := Controller.stop_of_not_idle (L := L) (c := c) (by rw [hstatus]; exact nofun)
  unfold abandonTask
  simp only [Option.any_some, Task.isLive, if_true, hstop, hstatus]
  unfold nudge advanceTask Controller.advance
  simp only [if_neg hne]
  rw [Controller.leave_of_not_driving fun h => hne h.1]
  rfl

theorem abandonTask_of_not_live {s : Session σ} (h : s.task.any Task.isLive = false) :
    s.abandonTask L subject = ([], s) := by
  unfold abandonTask
  rw [h]
  rfl

/-- **What `reset` makes of a session**: the program is loaded anew, whatever it was doing, and the
    run in the background is over. -/
theorem resetCommand_eq {s : Session σ} (h : s.Coherent marked)
    (hread : L.read subject.source = .ok program) :
    ∃ generation, (s.resetCommand L subject).2 =
      ⟨⟨⟨program subject.input, s.controller.machine.draws⟩, .ready, marked, [], generation, none⟩,
        s.task.map Task.spent, s.prompt⟩ := by
  unfold resetCommand
  cases h with
  | resting hmarked hwaiting hstatus htask =>
    rw [abandonTask_of_not_live htask, map_spent htask]
    by_cases hidle : s.controller.status = .idle
    · refine ⟨s.controller.generation, ?_⟩
      simp only [Controller.stop_of_idle hidle, Controller.unchanged]
      rw [Controller.prepare_of_read hread _ (by rw [hidle]; rfl), hmarked, hwaiting]
    · refine ⟨s.controller.generation + 1, ?_⟩
      simp only [Controller.stop_of_not_idle hidle]
      rw [Controller.prepare_of_read hread _ rfl, hmarked]
      rfl
  | driving last hmarked hwaiting hstatus htask =>
    refine ⟨s.controller.generation + 1, ?_⟩
    rw [abandonTask_driving hstatus htask, htask]
    simp only [Controller.stop, if_true, Controller.unchanged]
    rw [Controller.prepare_of_read hread _ rfl, hmarked]
    rfl

theorem runCommand_coherent {s : Session σ} (h : s.Coherent marked) :
    (s.runCommand L subject).2.Coherent marked := by
  unfold runCommand
  split
  · exact h
  · split
    · next hallowed =>
      refine advanceTask_coherent (c := s.controller.begun) rfl h.marked_eq ?_ none
      unfold Controller.advance
      rw [if_pos hallowed]
      exact (Controller.drive_driven _ _).remarked _
    · exact raise_coherent h _

/-- A pause request is answered before the next prompt. -/
theorem pauseCommand_coherent {s : Session σ} (h : s.Coherent marked) :
    (s.pauseCommand L subject).2.Coherent marked := by
  unfold pauseCommand
  cases h with
  | resting hmarked hwaiting hstatus htask =>
    have h : s.Coherent marked := .resting hmarked hwaiting hstatus htask
    have hpause : (s.controller.pause 0).controller = s.controller := by
      unfold Controller.pause
      rw [if_neg hstatus]
    simp only [hpause]
    split
    · split
      · exact h
      · exact h
    · exact afterTask_coherent (nudge_coherent h)
  | driving last hmarked hwaiting hstatus htask =>
    have hpause : (s.controller.pause 0).controller =
        { s.controller with waiting := s.controller.waiting ++ [0] } := by
      unfold Controller.pause
      rw [if_pos hstatus]
    simp only [hpause, htask]
    exact afterTask_coherent (nudge_driving hmarked hstatus rfl)

theorem stepCommand_coherent {s : Session σ} (h : s.Coherent marked) :
    (s.stepCommand L subject).2.Coherent marked := by
  unfold stepCommand
  by_cases hallowed : Action.allowedIn .step s.controller.status = true
  · cases h with
    | driving last hmarked hwaiting hrunning => exact absurd hrunning (Action.not_running hallowed)
    | resting hmarked hwaiting hstatus htask =>
      cases ho : (L.step s.controller.machine).outcome with
      | error b =>
        rw [Controller.step_of_breakdown hallowed ho]
        refine raise_coherent (s := ⟨{ s.controller with machine := _ }, s.task, s.prompt⟩) ?_ _
        exact .resting hmarked hwaiting hstatus htask
      | ok r =>
        rw [Controller.step_of_result hallowed ho]
        exact .resting hmarked hwaiting (Controller.statusAfter_ne_running _) htask
  · rw [Controller.step_of_not_allowed hallowed]
    exact raise_coherent h (.notNow .step s.controller.status)

theorem stateCommand_coherent {s : Session σ} (h : s.Coherent marked) :
    s.stateCommand.2.Coherent marked := by
  unfold stateCommand
  simp only
  split
  · exact h
  · exact h
  · exact raise_coherent h _

theorem close_coherent {s : Session σ} (h : s.Coherent marked) :
    (s.close L subject).2.Coherent marked := by
  refine Coherent.prompted (s := (s.abandonTask L subject).2) ?_ _
  cases h with
  | resting hmarked hwaiting hstatus htask =>
    rw [abandonTask_of_not_live htask]
    exact .resting hmarked hwaiting hstatus htask
  | driving last hmarked hwaiting hstatus htask =>
    rw [abandonTask_driving hstatus htask]
    exact .resting hmarked rfl nofun rfl

theorem resetCommand_coherent {s : Session σ} (h : s.Coherent marked)
    (hread : L.read subject.source = .ok program) :
    (s.resetCommand L subject).2.Coherent marked := by
  obtain ⟨generation, heq⟩ := resetCommand_eq h hread
  rw [heq]
  exact .resting rfl rfl nofun (any_isLive_spent _)

/-- A proper `break` marks the lines it names; any other changes nothing. -/
theorem breakCommand_coherent {s : Session σ} {named : List Int}
    (h : s.Coherent (Controller.arranged named)) (numerals : List Text) :
    (s.breakCommand numerals).2.Coherent
      (Controller.arranged
        (((numerals.mapM Numeral.read).toOption.map fun ns => ns.map (· - 1)).getD named)) := by
  unfold breakCommand
  cases numerals.mapM Numeral.read with
  | error flaw => exact h
  | ok ns => exact h.marking _

/-- **One line of input leaves a coherent session coherent**, with the lines that it names
    marked. -/
theorem enter_coherent {s : Session σ} {named : List Int}
    (hread : L.read subject.source = .ok program) (h : s.Coherent (Controller.arranged named))
    (line : Text) :
    (s.enter L subject (some line)).2.Coherent
      (Controller.arranged ((namedLines line).getD named)) := by
  show (s.perform L subject (Command.ofLine line)).2.Coherent _
  unfold namedLines
  cases Command.ofLine line with
  | nothing => exact h
  | leave => exact close_coherent h
  | run => exact runCommand_coherent h
  | wait => exact h.prompted _
  | pause => exact pauseCommand_coherent h
  | step => exact stepCommand_coherent h
  | breakAt numerals => exact breakCommand_coherent h numerals
  | state => exact stateCommand_coherent h
  | reset => exact resetCommand_coherent h hread
  | unknown word => exact h

/-- One round leaves a coherent session coherent. -/
theorem round_coherent {s : Session σ} {named : List Int}
    (hread : L.read subject.source = .ok program) (hs : s.prompt = .asking)
    (h : s.Coherent (Controller.arranged named)) (r : Round) :
    (s.round L subject r).2.Coherent
      (Controller.arranged ((namedLines r.line).getD named)) := by
  rw [round_of_asking hs]
  exact settle_coherent (enter_coherent hread (nudges_coherent h r.turns) r.line) _

/-- A session that has stopped asking stays coherent, too. -/
theorem follow_stays_coherent {s : Session σ} {named : List Int}
    (hread : L.read subject.source = .ok program) (h : s.Coherent (Controller.arranged named))
    (rounds : List Round) :
    ∃ named', (s.follow L subject rounds).Coherent (Controller.arranged named') := by
  induction rounds generalizing s named with
  | nil => exact ⟨named, h⟩
  | cons r rest ih =>
    by_cases hs : s.prompt = .asking
    · exact ih (round_coherent hread hs h r)
    · rw [follow_of_not_asking hs]
      exact ⟨named, h⟩

/-- **Sessions are coherent between any two rounds**, and runs pause before the lines that the last
    proper `break` has named. -/
theorem follow_coherent {s : Session σ} {named : List Int}
    (hread : L.read subject.source = .ok program) (h : s.Coherent (Controller.arranged named))
    {rounds : List Round} (hend : (s.follow L subject rounds).prompt = .asking) :
    (s.follow L subject rounds).Coherent
      (Controller.arranged (lastNamed named (rounds.map Round.line))) := by
  induction rounds generalizing s named with
  | nil => exact h
  | cons r rest ih =>
    -- A session that has stopped asking never asks again, so that every round took place.
    have hs : s.prompt = .asking := by
      refine Classical.byContradiction fun hne => ?_
      rw [follow_of_not_asking hne] at hend
      exact hne hend
    rw [List.map_cons, lastNamed_cons]
    exact ih (round_coherent hread hs h r) hend

end Session

end Cli

end Esolang
