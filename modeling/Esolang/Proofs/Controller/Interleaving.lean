/-
  File:      Esolang/Proofs/Controller/Interleaving.lean
  Subject:   What a single request can do to a stage, said once for all properties of schedules.

  Everything but a host's handling of a whole run is a single request. A single request leaves the
  stage alone, changes the controller, or moves one run; a run that is moved takes one step, goes to
  sleep, or is over. Properties of all schedules are proved by cases on these moves.

  * `Request.single`, `Stage.opening`: the requests, and the stage they begin on.
  * `Controller.Driven`: the three things that a step of a run can make of the controller.
  * `Stage.Move`, `play_move`: all that a single request can do.
  * `playAll_preserves`: what every single request preserves holds after every schedule of them.
  * `Stage.Over`: a run that takes no further step, and never will.
-/
import Esolang.Proofs.Controller.Schedule

namespace Esolang

/-! ## 1. Single requests -/

/-- Whether a request stands for itself, unlike a host's handling of a whole run. -/
def Request.single : Request → Bool
  | .executeAll .. => false
  | _ => true

/-- Whether a request is one to run number `k`. -/
def Request.Concerns (r : Request) (k : Nat) : Prop := r = .ask k ∨ r = .wake k ∨ r = .close k

/-- The stage on which nothing has happened yet. -/
def Stage.opening {σ : Type} (L : Language σ) (draws : Draws) : Stage σ :=
  ⟨.fresh L draws, [], [], []⟩

/-- A stage that some schedule of single requests leads to. -/
def Stage.Reached {σ : Type} (L : Language σ) (s : Stage σ) : Prop :=
  ∃ draws schedule, schedule.all Request.single = true ∧ s = playAll L schedule (.opening L draws)

section Schedules

variable {σ : Type} {L : Language σ}

theorem playAll_append (first second : List Request) (s : Stage σ) :
    playAll L (first ++ second) s = playAll L second (playAll L first s) := by
  induction first generalizing s with
  | nil => rfl
  | cons r rest ih => exact ih (play L r s)

/-- What every single request preserves holds after every schedule of them. -/
theorem playAll_preserves {P : Stage σ → Prop}
    (hstep : ∀ r s, r.single = true → P s → P (play L r s)) {schedule : List Request}
    (hs : schedule.all Request.single = true) {s : Stage σ} (h : P s) :
    P (playAll L schedule s) := by
  induction schedule generalizing s with
  | nil => exact h
  | cons r rest ih =>
    obtain ⟨hr, hrest⟩ := Bool.and_eq_true_iff.mp hs
    exact ih hrest (hstep r s hr h)

end Schedules

/-! ## 2. A step of the run that drives the machine -/

/-- The result a run delivers last: it is marked unless the program has failed or ended. -/
def StepResult.concluding (r : StepResult) : StepResult :=
  if Controller.statusAfter r = .paused then r.markPaused else r

namespace Controller

variable {σ : Type} (L : Language σ)

/-- The controller once a new run has begun. -/
def begun (c : Controller σ) : Controller σ :=
  { c with generation := c.generation + 1, status := .running }

/-- Why a run stops at a step's result: the program has failed or ended, a pause request waits, or
    the next instruction stands on a line before which runs pause. -/
def Stops (c : Controller σ) (r : StepResult) : Prop :=
  statusAfter r ≠ .paused ∨ c.waiting ≠ [] ∨ ∃ next, r.next = some next ∧
    next.startLine ∈ c.breakpoints

/-- What a step of a run can make of a controller, remarks apart. -/
inductive Driven (c : Controller σ) (generation : Nat) : Reply σ (Delivery × Run) → Prop
  /-- The machine breaks down, and the run is over. -/
  | breaksDown {b : Breakdown} {notes : List Text} (ho : (L.step c.machine).outcome = .error b) :
      Driven c generation
        ⟨(.trouble (.breakdown b), .finished),
          (leave { c with machine := (L.step c.machine).machine } generation).controller,
          (leave { c with machine := (L.step c.machine).machine } generation).released, notes⟩
  /-- The run delivers its last result. -/
  | concludes {r : StepResult} {notes : List Text} (ho : (L.step c.machine).outcome = .ok r)
      (hstops : c.Stops r) :
      Driven c generation
        ⟨(.result r.concluding, .concluded generation),
          { c with
            machine := (L.step c.machine).machine
            status := statusAfter r
            waiting := []
            last := some r.concluding },
          c.releases (some r.concluding), notes⟩
  /-- The run delivers a result and rests. -/
  | goesOn {r : StepResult} {next : Span} {notes : List Text}
      (ho : (L.step c.machine).outcome = .ok r) (herror : r.error = none)
      (hnext : r.next = some next) (hwaiting : c.waiting = [])
      (hline : next.startLine ∉ c.breakpoints) :
      Driven c generation
        ⟨(.result r, .active generation),
          { c with machine := (L.step c.machine).machine, last := some r }, [], notes⟩

variable {L}

theorem statusAfter_cases (r : StepResult) :
    statusAfter r = .error ∨ statusAfter r = .done ∨ statusAfter r = .paused := by
  unfold statusAfter
  split
  · exact .inl rfl
  · split
    · exact .inr (.inl rfl)
    · exact .inr (.inr rfl)

theorem statusAfter_ne_running (r : StepResult) : statusAfter r ≠ .running := by
  intro h
  rcases statusAfter_cases r with h' | h' | h' <;> cases h.symm.trans h'

theorem statusAfter_ne_ready (r : StepResult) : statusAfter r ≠ .ready := by
  intro h
  rcases statusAfter_cases r with h' | h' | h' <;> cases h.symm.trans h'

theorem statusAfter_markPaused (r : StepResult) : statusAfter r.markPaused = statusAfter r := rfl

theorem statusAfter_failed {r : StepResult} (h : r.error ≠ none) : statusAfter r = .error :=
  if_pos (Option.isSome_iff_ne_none.mpr h)

theorem statusAfter_finished {r : StepResult} (herror : r.error = none) (hnext : r.next = none) :
    statusAfter r = .done := by
  simp [statusAfter, herror, hnext]

theorem statusAfter_unfinished {r : StepResult} (herror : r.error = none) (hnext : r.next ≠ none) :
    statusAfter r = .paused := by
  simp [statusAfter, herror, hnext]

/-- A result is marked exactly if the program has neither failed nor ended with it. -/
theorem concluding_of_paused {r : StepResult} (h : statusAfter r = .paused) :
    r.concluding = r.markPaused :=
  if_pos h

theorem concluding_of_not_paused {r : StepResult} (h : statusAfter r ≠ .paused) :
    r.concluding = r :=
  if_neg h

/-- A run stops with what it concludes with, in the status that the step's result asks for. -/
theorem driven_conclude {c : Controller σ} {generation : Nat} {r r' : StepResult} {s : Status}
    {notes : List Text} (ho : (L.step c.machine).outcome = .ok r) (hstops : c.Stops r)
    (hr : r.concluding = r') (hs : statusAfter r = s) :
    Driven L c generation
      (conclude { c with machine := (L.step c.machine).machine } generation r' s notes) := by
  subst hr hs
  exact .concludes ho hstops

/-- Remarks do not matter. -/
theorem Driven.remarked {c : Controller σ} {generation : Nat} {reply : Reply σ (Delivery × Run)}
    (h : Driven L c generation reply) (notes : List Text) :
    Driven L c generation { reply with notes } := by
  cases h with
  | breaksDown ho => exact .breaksDown ho
  | concludes ho hstops => exact .concludes ho hstops
  | goesOn ho herror hnext hwaiting hline => exact .goesOn ho herror hnext hwaiting hline

theorem drive_driven (c : Controller σ) (generation : Nat) :
    Driven L c generation (c.drive L generation) := by
  cases ho : (L.step c.machine).outcome with
  | error b =>
    simp only [drive, ho]
    exact .breaksDown ho
  | ok r =>
    simp only [drive, ho]
    cases herror : r.error with
    | some f =>
      have hs : statusAfter r = .error := statusAfter_failed (by rw [herror]; exact nofun)
      have hne : statusAfter r ≠ .paused := by rw [hs]; exact nofun
      exact driven_conclude ho (.inl hne) (concluding_of_not_paused hne) hs
    | none =>
      cases hnext : r.next with
      | none =>
        have hs : statusAfter r = .done := statusAfter_finished herror hnext
        have hne : statusAfter r ≠ .paused := by rw [hs]; exact nofun
        exact driven_conclude ho (.inl hne) (concluding_of_not_paused hne) hs
      | some next =>
        have hs : statusAfter r = .paused :=
          statusAfter_unfinished herror (by rw [hnext]; exact nofun)
        have hr : r.concluding = r.markPaused := concluding_of_paused hs
        simp only
        split
        · next hwaiting =>
          refine driven_conclude ho (.inr (.inl fun h => ?_)) hr hs
          rw [h] at hwaiting
          cases hwaiting
        · next hwaiting =>
          split
          · next hline =>
            exact driven_conclude ho (.inr (.inr ⟨next, hnext, List.contains_iff_mem.mp hline⟩)) hr
              hs
          · next hline =>
            refine .goesOn ho herror hnext ?_ fun h => hline (List.contains_iff_mem.mpr h)
            simpa using hwaiting

/-- A run that leaves without driving the machine changes nothing. -/
theorem leave_of_not_driving {c : Controller σ} {generation : Nat}
    (h : ¬(generation = c.generation ∧ c.status = .running)) :
    c.leave generation = c.unchanged () :=
  if_neg h

/-- A run that leaves while it drives the machine leaves the program paused. -/
theorem leave_of_driving {c : Controller σ} {generation : Nat}
    (h : generation = c.generation ∧ c.status = .running) : c.leave generation = c.abandon :=
  if_pos h

theorem leave_generation (c : Controller σ) (generation : Nat) :
    (c.leave generation).controller.generation = c.generation := by
  unfold leave
  split
  · rfl
  · rfl

theorem Driven.generation_eq {c : Controller σ} {generation : Nat}
    {reply : Reply σ (Delivery × Run)} (h : Driven L c generation reply) :
    reply.controller.generation = c.generation := by
  cases h with
  | breaksDown ho => exact leave_generation _ _
  | concludes ho hstops => rfl
  | goesOn ho herror hnext hwaiting hline => rfl

/-- A step always tells something. -/
theorem Driven.told_length {c : Controller σ} {generation : Nat} {reply : Reply σ (Delivery × Run)}
    (h : Driven L c generation reply) : reply.answer.1.told.length = 1 := by
  cases h with
  | breaksDown ho => rfl
  | concludes ho hstops => rfl
  | goesOn ho herror hnext hwaiting hline => rfl

end Controller

/-! ## 3. Moves -/

namespace Stage

variable {σ : Type} (L : Language σ)

/-- The stage once run number `k` was replied to. -/
def take (s : Stage σ) (k : Nat) (reply : Reply σ (Delivery × Run)) : Stage σ :=
  { s with
    controller := reply.controller
    runs := s.runs.set k ⟨reply.answer.2, false⟩
    told := s.told ++ reply.answer.1.told
    released := s.released ++ reply.released }

/-- The stage once run number `k`, which stood at the given generation, is over. -/
def lose (s : Stage σ) (k generation : Nat) : Stage σ :=
  { s with
    controller := (s.controller.leave generation).controller
    runs := s.runs.set k ⟨.finished, false⟩
    released := s.released ++ (s.controller.leave generation).released }

/-- All that a single request can make of a stage. -/
inductive Move (s : Stage σ) : Request → Stage σ → Prop
  /-- Nothing happens. A pause request is always taken notice of. -/
  | stays {r : Request} (hr : ∀ t, r ≠ .pause t) : Move s r s
  /-- A program is loaded. -/
  | loads {code input : Text} {m : Machine σ}
      (hallowed : Action.allowedIn .prepare s.controller.status = true)
      (hload : L.load s.controller.machine code input = .ok m) :
      Move s (.prepare code input)
        { s with controller := { s.controller with machine := m, last := none, status := .ready } }
  /-- The program is given up, and waiting pause requests are told something. -/
  | clears {r : Request} (hr : r = .stop ∨ r = .reset) (told : Option StepResult) :
      Move s r
        { s with
          controller := { s.controller with
            machine := L.clear s.controller.machine
            status := .idle
            waiting := []
            generation := s.controller.generation + 1
            last := none }
          released := s.released ++ s.controller.releases told }
  | marks (lines : List Int) :
      Move s (.setBreakpoints lines) { s with controller := s.controller.setBreakpoints lines }
  /-- A pause request waits. -/
  | waits {t : Ticket} (hrunning : s.controller.status = .running) :
      Move s (.pause t)
        { s with controller := { s.controller with waiting := s.controller.waiting ++ [t] } }
  /-- A pause request is answered at once. -/
  | answers {t : Ticket} (hrunning : s.controller.status ≠ .running) :
      Move s (.pause t) { s with released := s.released ++ [(t, s.controller.last)] }
  /-- A single step gives a result. -/
  | steps {r : StepResult} (hallowed : Action.allowedIn .step s.controller.status = true)
      (ho : (L.step s.controller.machine).outcome = .ok r) :
      Move s .step
        { s with
          controller := { s.controller with
            machine := (L.step s.controller.machine).machine
            last := some r.markPaused
            status := Controller.statusAfter r }
          told := s.told ++ [.ok r.markPaused] }
  /-- The machine breaks down at a single step. -/
  | breaks {b : Breakdown} (hallowed : Action.allowedIn .step s.controller.status = true)
      (ho : (L.step s.controller.machine).outcome = .error b) :
      Move s .step
        { s with
          controller := { s.controller with machine := (L.step s.controller.machine).machine }
          told := s.told ++ [.error b] }
  | creates : Move s .create { s with runs := s.runs ++ [⟨.unstarted, false⟩] }
  /-- The run that drives the machine goes to sleep. -/
  | sleeps {k : Nat} (hk : s.runs[k]? = some ⟨.active s.controller.generation, false⟩) :
      Move s (.ask k) { s with runs := s.runs.set k ⟨.active s.controller.generation, true⟩ }
  /-- A run begins with its first step. -/
  | begins {k : Nat} {r : Request} {asleep : Bool} {reply : Reply σ (Delivery × Run)}
      (hr : r = .ask k ∨ r = .wake k) (hk : s.runs[k]? = some ⟨.unstarted, asleep⟩)
      (hallowed : Action.allowedIn .run s.controller.status = true)
      (hreply : s.controller.begun.Driven L (s.controller.generation + 1) reply) :
        Move s r (s.take k reply)
  /-- The run that drives the machine takes a further step. -/
  | drives {k : Nat} {reply : Reply σ (Delivery × Run)}
      (hk : s.runs[k]? = some ⟨.active s.controller.generation, true⟩)
      (hreply : s.controller.Driven L s.controller.generation reply) : Move s (.wake k)
        (s.take k reply)
  /-- A run is over that was closed, or is no longer the current one, or had given its last
      result. -/
  | leaves {k generation : Nat} {r : Request} {run : Run} {asleep : Bool} (hr : r.Concerns k)
      (hk : s.runs[k]? = some ⟨run, asleep⟩) (hrun : run = .active generation ∨
        run = .concluded generation)
      (hover : r = .close k ∨ run ≠ .active s.controller.generation) :
        Move s r (s.lose k generation)
  /-- A run is over that never began: it was refused or closed. One that is over stays so. -/
  | drops {k : Nat} {r : Request} {run : Run} {asleep : Bool} (hr : r.Concerns k)
      (hk : s.runs[k]? = some ⟨run, asleep⟩)
      (hrun : run = .finished ∨ run = .unstarted ∧
        (r = .close k ∨ Action.allowedIn .run s.controller.status = false)) :
      Move s r { s with runs := s.runs.set k ⟨.finished, false⟩ }

variable {L} {s : Stage σ}

theorem heed_unchanged {α : Type} (s : Stage σ) (a : α) :
    s.heed (s.controller.unchanged a) = s := by
  unfold heed Controller.unchanged
  simp

theorem prepare_move (code input : Text) :
    s.Move L (.prepare code input) (s.heed (s.controller.prepare L code input)) := by
  cases hallowed : Action.allowedIn .prepare s.controller.status with
  | false =>
    simp only [Controller.prepare, hallowed, Bool.false_eq_true, if_false, heed_unchanged]
    exact .stays nofun
  | true =>
    simp only [Controller.prepare, hallowed, if_true]
    cases hload : L.load s.controller.machine code input with
    | ok m =>
      simp only [heed, List.append_nil]
      exact .loads hallowed hload
    | error e =>
      cases e with
      | rejected r =>
        simp only [heed, List.append_nil]
        exact .stays nofun
      | broken b =>
        simp only [heed_unchanged]
        exact .stays nofun

theorem stop_move : s.Move L .stop (s.heed (s.controller.stop L)) := by
  unfold Controller.stop
  split
  · rw [heed_unchanged]
    exact .stays nofun
  · exact .clears (.inl rfl) s.controller.last

theorem pause_move (t : Ticket) : s.Move L (.pause t) (s.heed (s.controller.pause t)) := by
  unfold Controller.pause
  split
  · next hrunning =>
    simp only [heed, List.append_nil]
    exact .waits hrunning
  · next hrunning => exact .answers hrunning

theorem step_move : s.Move L .step (s.step L) := by
  cases hallowed : Action.allowedIn .step s.controller.status with
  | false =>
    simp only [step, Controller.step, hallowed, Bool.false_eq_true, if_false, Controller.unchanged,
      Trouble.told, List.append_nil]
    exact .stays nofun
  | true =>
    cases ho : (L.step s.controller.machine).outcome with
    | ok r =>
      simp only [step, Controller.step, hallowed, if_true, ho, List.append_nil,
        Controller.statusAfter_markPaused]
      exact .steps hallowed ho
    | error b =>
      simp only [step, Controller.step, hallowed, if_true, ho, Trouble.told, List.append_nil]
      exact .breaks hallowed ho

theorem advance_stale {k generation : Nat} (h : generation ≠ s.controller.generation) :
    s.advance L k (.active generation) = s.lose k generation := by
  simp only [advance, Controller.advance, if_neg h, Delivery.told, List.append_nil]
  rfl

theorem advance_concluded (k generation : Nat) :
    s.advance L k (.concluded generation) = s.lose k generation := by
  simp only [advance, Controller.advance, Delivery.told, List.append_nil]
  rfl

/-- A run that is made to go on. One that drives the machine was asleep before. -/
theorem advance_move {k : Nat} {r : Request} {run : Run} {asleep : Bool}
    (hr : r = .ask k ∨ r = .wake k) (hk : s.runs[k]? = some ⟨run, asleep⟩)
    (hawake : run = .active s.controller.generation → asleep = true ∧ r = .wake k) :
    s.Move L r (s.advance L k run) := by
  have hconcerns : r.Concerns k := hr.elim .inl fun h => .inr (.inl h)
  cases run with
  | unstarted =>
    cases hallowed : Action.allowedIn .run s.controller.status with
    | true =>
      simp only [advance, Controller.advance, hallowed, if_true]
      exact .begins hr hk hallowed ((Controller.drive_driven _ _).remarked _)
    | false =>
      simp only [advance, Controller.advance, hallowed, Bool.false_eq_true, if_false,
        Controller.unchanged, Delivery.told, Trouble.told, List.append_nil]
      exact .drops hconcerns hk (.inr ⟨rfl, .inr hallowed⟩)
  | active generation =>
    by_cases h : generation = s.controller.generation
    · subst h
      obtain ⟨rfl, rfl⟩ := hawake rfl
      simp only [advance, Controller.advance, if_true]
      exact .drives hk (Controller.drive_driven _ _)
    · rw [advance_stale h]
      exact .leaves hconcerns hk (.inl rfl) (.inr fun h' => h (Run.active.inj h'))
  | concluded generation =>
    rw [advance_concluded]
    exact .leaves hconcerns hk (.inr rfl) (.inr nofun)
  | finished =>
    simp only [advance, Controller.advance, Controller.unchanged, Delivery.told, List.append_nil]
    exact .drops hconcerns hk (.inl rfl)

theorem ask_move (k : Nat) : s.Move L (.ask k) (s.ask L k) := by
  unfold ask
  split
  · next hk => exact advance_move (.inl rfl) hk nofun
  · next generation hk =>
    split
    · next h =>
      subst h
      exact .sleeps hk
    · next h => exact advance_move (.inl rfl) hk fun h' => absurd (Run.active.inj h') h
  · next hk => exact advance_move (.inl rfl) hk nofun
  · exact .stays nofun

theorem wake_move (k : Nat) : s.Move L (.wake k) (s.wake L k) := by
  unfold wake
  split
  · next hk => exact advance_move (.inr rfl) hk fun _ => ⟨rfl, rfl⟩
  · exact .stays nofun

theorem close_move (k : Nat) : s.Move L (.close k) (s.close k) := by
  unfold close
  cases hk : s.runs[k]? with
  | none => exact .stays nofun
  | some held =>
    obtain ⟨run, asleep⟩ := held
    have hconcerns : Request.Concerns (.close k) k := .inr (.inr rfl)
    cases run with
    | unstarted =>
      simp only [Controller.close, Controller.unchanged, List.append_nil]
      exact .drops hconcerns hk (.inr ⟨rfl, .inl rfl⟩)
    | active generation => exact .leaves hconcerns hk (.inl rfl) (.inl rfl)
    | concluded generation => exact .leaves hconcerns hk (.inr rfl) (.inl rfl)
    | finished =>
      simp only [Controller.close, Controller.unchanged, List.append_nil]
      exact .drops hconcerns hk (.inl rfl)

end Stage

/-- **Every single request is one of the moves.** -/
theorem play_move {σ : Type} {L : Language σ} {r : Request} (hr : r.single = true) (s : Stage σ) :
    s.Move L r (play L r s) := by
  cases r with
  | prepare code input => exact Stage.prepare_move code input
  | stop => exact Stage.stop_move
  | reset => exact .clears (.inr rfl) none
  | setBreakpoints lines => exact .marks lines
  | pause t => exact Stage.pause_move t
  | step => exact Stage.step_move
  | create => exact .creates
  | ask k => exact Stage.ask_move k
  | wake k => exact Stage.wake_move k
  | close k => exact Stage.close_move k
  | executeAll budget callbacks => cases hr

/-! ## 4. Runs that are over -/

namespace Stage

variable {σ : Type} {L : Language σ} {s s' : Stage σ} {r : Request} {k : Nat}

/-- Run number `k` takes no further step: it has given its last result, or it is over altogether. -/
def Over (s : Stage σ) (k : Nat) : Prop :=
  ∃ held, s.runs[k]? = some held ∧
    (held.run = .finished ∨ ∃ generation, held.run = .concluded generation)

/-- Such a run is at none of the places from which a run goes on. -/
theorem Over.run_eq (h : s.Over k) {run : Run} {asleep : Bool}
    (hk : s.runs[k]? = some ⟨run, asleep⟩) :
    run = .finished ∨ ∃ generation, run = .concluded generation := by
  obtain ⟨held, hheld, hrun⟩ := h
  rw [hk] at hheld
  cases hheld
  exact hrun

theorem Over.not_unstarted (h : s.Over k) {asleep : Bool}
    (hk : s.runs[k]? = some ⟨.unstarted, asleep⟩) : False := by
  rcases h.run_eq hk with hrun | ⟨generation, hrun⟩
  · cases hrun
  · cases hrun

theorem Over.not_active (h : s.Over k) {generation : Nat} {asleep : Bool}
    (hk : s.runs[k]? = some ⟨.active generation, asleep⟩) : False := by
  rcases h.run_eq hk with hrun | ⟨generation', hrun⟩
  · cases hrun
  · cases hrun

/-- Moving another run changes nothing, and neither does ending this one. -/
theorem Over.set (h : s.Over k) {j : Nat} {x : HeldRun} (hruns : s'.runs = s.runs.set j x)
    (hx : j = k → x.run = .finished) : s'.Over k := by
  obtain ⟨held, hk, hrun⟩ := h
  unfold Over
  rw [hruns]
  by_cases hj : j = k
  · subst hj
    obtain ⟨hlt, -⟩ := List.getElem?_eq_some_iff.mp hk
    exact ⟨x, List.getElem?_set_self hlt, .inl (hx rfl)⟩
  · exact ⟨held, by rw [List.getElem?_set_ne hj, hk], hrun⟩

/-- A run that is over stays so. -/
theorem Over.move (h : s.Over k) (hmove : s.Move L r s') : s'.Over k := by
  cases hmove with
  | stays hr => exact h
  | loads hallowed hload => exact h
  | clears hr told => exact h
  | marks lines => exact h
  | waits hrunning => exact h
  | answers hrunning => exact h
  | steps hallowed ho => exact h
  | breaks hallowed ho => exact h
  | creates =>
    obtain ⟨held, hk, hrun⟩ := h
    obtain ⟨hlt, -⟩ := List.getElem?_eq_some_iff.mp hk
    exact ⟨held, (List.getElem?_append_left hlt).trans hk, hrun⟩
  | sleeps hk => exact h.set rfl fun hj => (h.not_active (hj ▸ hk)).elim
  | begins hr hk hallowed hreply => exact h.set rfl fun hj => (h.not_unstarted (hj ▸ hk)).elim
  | drives hk hreply => exact h.set rfl fun hj => (h.not_active (hj ▸ hk)).elim
  | leaves hr hk hrun hover => exact h.set rfl fun _ => rfl
  | drops hr hk hrun => exact h.set rfl fun _ => rfl

end Stage

end Esolang
