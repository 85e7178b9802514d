/-
  File:      Esolang/Proofs/Controller/Agreement.lean
  Subject:   The status and the latest result always agree.

  Status and latest result are written apart from each other: by requests, by every step of a run,
  and once more when a run is over, whatever has ended it. Still each of them says what the other
  can be.

  * `Status.Fits`: the results that go with a status.
  * `Stage.Agrees`: the invariant; `Stage.Agrees.move`: every single request preserves it.
  * `status_fits_last`: what holds after every schedule, and of sources that are rejected.
-/
import Esolang.Proofs.Controller.Breakpoints
import Esolang.Proofs.Controller.Reenactment

namespace Esolang

/-! ## 1. Results that go with a status -/

/-- Whether a latest result goes with a status. A program that was not begun, or was given up, has
    none; one that has ended or failed has the result that says so; and one that is to go on has a
    result that names the place where. -/
def Status.Fits : Status → Option StepResult → Prop
  | .idle, last | .ready, last => last = none
  | .done, last => ∃ r, last = some r ∧ r.error = none ∧ r.next = none
  | .error, last => ∃ r, last = some r ∧ r.error ≠ none
  | .running, last | .paused, last => ∃ r, last = some r ∧ r.error = none ∧ r.next ≠ none

namespace Controller

variable {σ : Type} {L : Language σ} {c : Controller σ}

theorem fits_statusAfter (r : StepResult) : (statusAfter r).Fits (some r) := by
  by_cases herror : r.error = none
  · by_cases hnext : r.next = none
    · rw [statusAfter_finished herror hnext]
      exact ⟨r, rfl, herror, hnext⟩
    · rw [statusAfter_unfinished herror hnext]
      exact ⟨r, rfl, herror, hnext⟩
  · rw [statusAfter_failed herror]
    exact ⟨r, rfl, herror⟩

/-- The mark on a result that a run delivers last does not matter. -/
theorem fits_concluding (r : StepResult) : (statusAfter r).Fits (some r.concluding) := by
  unfold StepResult.concluding
  split
  · exact fits_statusAfter r.markPaused
  · exact fits_statusAfter r

/-- A run that is over leaves a result to go on from, if there was one. -/
theorem leave_fits (h : c.status.Fits c.last) (generation : Nat) :
    (c.leave generation).controller.status.Fits (c.leave generation).controller.last := by
  by_cases hdriving : generation = c.generation ∧ c.status = .running
  · rw [leave_of_driving hdriving]
    rw [hdriving.2] at h
    exact h
  · rw [leave_of_not_driving hdriving]
    exact h

/-- The step of the run that drives the machine. When the machine breaks down, the result before
    stays. -/
theorem Driven.fits {generation : Nat} {reply : Reply σ (Delivery × Run)}
    (h : c.Driven L generation reply) (hrunning : c.status = .running)
    (hbefore : (∃ b, (L.step c.machine).outcome = .error b) → c.status.Fits c.last) :
    reply.controller.status.Fits reply.controller.last := by
  cases h with
  | @breaksDown b notes ho =>
    exact leave_fits (c := { c with machine := (L.step c.machine).machine }) (hbefore ⟨b, ho⟩)
      generation
  | concludes ho hstops => exact fits_concluding _
  | @goesOn r next notes ho herror hnext hwaiting hline =>
    show c.status.Fits (some r)
    rw [hrunning]
    exact ⟨r, rfl, herror, by rw [hnext]; exact Option.some_ne_none next⟩

end Controller

/-! ## 2. The invariant -/

namespace Stage

variable {σ : Type} {L : Language σ} {s s' : Stage σ} {r : Request}

/-- The latest result goes with the status. -/
def Agrees (s : Stage σ) : Prop := s.controller.status.Fits s.controller.last

theorem agrees_opening (L : Language σ) (draws : Draws) : (opening L draws).Agrees := rfl

theorem Agrees.move (h : s.Agrees) (hpositions : L.Positions) (hexclusive : s.Exclusive)
    (huntried : s.Untried L) (hmove : s.Move L r s') : s'.Agrees := by
  cases hmove with
  | loads hallowed hload => exact rfl
  | clears hr told => exact rfl
  | @steps res hallowed ho => exact Controller.fits_statusAfter res.markPaused
  | begins hr hk hallowed hreply =>
    refine hreply.fits rfl ?_
    rintro ⟨b, hb⟩
    -- only a program that was stepped before can break down, so it is paused and not just loaded
    have hready : s.controller.status ≠ .ready := by
      intro hready
      obtain ⟨m, code, input, hload⟩ := huntried hready
      obtain ⟨-, res, hres, -⟩ := hpositions _ _ _ _ hload
      cases hres.symm.trans hb
    have hpaused : s.controller.status = .paused := by
      simpa [Action.allowedIn, hready] using hallowed
    have hfits : s.controller.status.Fits s.controller.last := h
    rw [hpaused] at hfits
    exact hfits
  | drives hk hreply => exact hreply.fits (hexclusive.running ⟨true, hk⟩) fun _ => h
  | leaves hr hk hrun hover => exact Controller.leave_fits h _
  | stays hr => exact h
  | marks lines => exact h
  | waits hrunning => exact h
  | answers hrunning => exact h
  | breaks hallowed ho => exact h
  | creates => exact h
  | sleeps hk => exact h
  | drops hr hk hrun => exact h

theorem Reached.agrees (hpositions : L.Positions) (h : s.Reached L) : s.Agrees := by
  obtain ⟨draws, schedule, hs, rfl⟩ := h
  have hall : (playAll L schedule (opening L draws)).Exclusive ∧
      (playAll L schedule (opening L draws)).Untried L ∧
      (playAll L schedule (opening L draws)).Agrees :=
    playAll_preserves (P := fun s => s.Exclusive ∧ s.Untried L ∧ s.Agrees)
      (fun r s hr h => ⟨h.1.move (play_move hr s), h.2.1.move hpositions h.1 (play_move hr s),
        h.2.2.move hpositions h.1 h.2.1 (play_move hr s)⟩) hs
      ⟨exclusive_opening L draws, .of_status nofun, agrees_opening L draws⟩
  exact hall.2.2

end Stage

/-! ## 3. Sources that are rejected -/

/-- A rejected source leaves the controller, and the machine in it, as it was. -/
theorem Controller.prepare_rejected {σ : Type} {L : Language σ} {c : Controller σ}
    {code input : Text} {r : Rejection} (h : (c.prepare L code input).answer = .ok (some r)) :
    (c.prepare L code input).controller = c ∧ (c.prepare L code input).released = [] := by
  unfold Controller.prepare at h ⊢
  split at h
  · next hallowed =>
    rw [if_pos hallowed]
    cases hload : L.load c.machine code input with
    | ok m =>
      rw [hload] at h
      cases h
    | error e =>
      cases e with
      | rejected r' => exact ⟨rfl, rfl⟩
      | broken b =>
        rw [hload] at h
        cases h
  · cases h

/-- **The status and the latest result always agree**, in every language and after every schedule of
    requests, also where hosts handle whole runs and where machines break down. Under `idle` and
    `ready` there is no result; under `done` there is one without a fault and without a next place;
    under `error` there is one with a fault; under `paused`, and under `running` wherever a run
    rests, there is one without a fault and with a next place. A source that is rejected changes
    nothing at all. -/
theorem status_fits_last (id : LanguageId) (draws : Draws) (schedule : List Request) :
    let s := playAll id.language schedule (.opening id.language draws)
    s.controller.status.Fits s.controller.last ∧
      ∀ code input r, (s.controller.prepare id.language code input).answer = .ok (some r) →
        (s.controller.prepare id.language code input).controller = s.controller ∧
          play id.language (.prepare code input) s = s := by
  intro s
  refine ⟨?_, fun code input r h => ?_⟩
  · obtain ⟨singles, hsingles, hcontroller, -⟩ := playAll_singles id.language draws schedule
    have hagrees : (playAll id.language singles (.opening id.language draws)).Agrees :=
      Stage.Reached.agrees (LanguageId.positions id) ⟨draws, singles, hsingles, rfl⟩
    unfold Stage.Agrees at hagrees
    rw [hcontroller] at hagrees
    exact hagrees
  · obtain ⟨hsame, hnone⟩ := Controller.prepare_rejected h
    refine ⟨hsame, ?_⟩
    show s.heed (s.controller.prepare id.language code input) = s
    unfold Stage.heed
    rw [hsame, hnone, List.append_nil]

/-- A run that is closed after its first step, a step that fails, and then a source with a bracket
    too many. -/
theorem status_fits_last_failed :
    let s := playAll Brainfuck.language [.prepare "<" [], .create, .ask 0, .close 0, .step]
      (.opening Brainfuck.language [])
    s.controller.status = .error ∧ s.controller.status.Fits s.controller.last ∧
      (s.controller.prepare Brainfuck.language "]" []).answer =
        .ok (some ⟨"Unmatched ']'", .cell 0 0⟩) ∧
      play Brainfuck.language (.prepare "]" []) s = s := by
  intro s
  have hrejected : (s.controller.prepare Brainfuck.language "]" []).answer =
      .ok (some ⟨"Unmatched ']'", .cell 0 0⟩) :=
    Except.eq_ok_of_toOption (by decide +kernel)
  obtain ⟨hfits, hsame⟩ :=
    status_fits_last .brainfuck [] [.prepare "<" [], .create, .ask 0, .close 0, .step]
  exact ⟨by decide +kernel, hfits, hrejected, (hsame _ _ _ hrejected).2⟩

-- A run that breaks down when it writes a number of too many digits leaves the result of the step
-- before.
example :
    let s := playAll Deadfish.language
      [.prepare "iiissssssssssssssso" [], .executeAll 99 []]
      (.opening Deadfish.language [])
    s.controller.status = .paused ∧ s.controller.last.map (·.next) = some (some (.cell 0 18)) := by
  decide +kernel

end Esolang
