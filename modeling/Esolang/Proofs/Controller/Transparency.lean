/-
  File:      Esolang/Proofs/Controller/Transparency.lean
  Subject:   What is delivered is what the machine does by itself, whatever is requested in between.

  Every request that the controller answers either leaves its machine alone and delivers nothing, or
  takes one step and delivers the outcome of that step. So all that was delivered, in order, is what
  steps taken one after another give, and the machine is where they lead.

  * `Language.Follows`: a row of outcomes, marks apart, is what steps give from one machine to
    another.
  * `Controller.advance_follows`, `Controller.step_follows`: one answer of the controller.
  * `Stage.handOut_follows`: a whole run in the hands of a host.
  * `playAll_follows`: any schedule that leaves the program loaded.
-/
import Esolang.Deadfish
import Esolang.Proofs.Controller.Schedule
import Esolang.Proofs.Language

namespace Esolang

/-! ## 1. Steps one after another -/

/-- An outcome without the mark that execution pauses there. -/
def unmark (o : Except Breakdown StepResult) : Except Breakdown StepResult :=
  o.map fun r => { r with paused := false }

namespace Language

variable {σ : Type} {L : Language σ} {m m₁ m₂ : Machine σ}

/-- A row of outcomes, marks apart, is what a number of steps give, and they lead to another
    machine. -/
def Follows (L : Language σ) (m : Machine σ) (told : List (Except Breakdown StepResult))
    (m' : Machine σ) : Prop :=
  ∃ n, told.map unmark = (L.steps n m).1 ∧ m' = (L.steps n m).2

theorem Follows.refl (m : Machine σ) : L.Follows m [] m := ⟨0, rfl, rfl⟩

theorem Follows.trans {told₁ told₂ : List (Except Breakdown StepResult)} (h₁ : L.Follows m told₁ m₁)
    (h₂ : L.Follows m₁ told₂ m₂) : L.Follows m (told₁ ++ told₂) m₂ := by
  obtain ⟨n, htold₁, rfl⟩ := h₁
  obtain ⟨k, htold₂, rfl⟩ := h₂
  exact ⟨n + k, by rw [steps_add, List.map_append, htold₁, htold₂], by rw [steps_add]⟩

/-- A step never marks its result. -/
theorem unmark_step (m : Machine σ) : unmark (L.step m).outcome = (L.step m).outcome := by
  unfold step
  generalize L.advance m = a
  obtain ⟨outcome, m'⟩ := a
  cases outcome with
  | ok p => rfl
  | error e =>
    cases e with
    | fault f => rfl
    | breakdown b => rfl

theorem Follows.step {o : Except Breakdown StepResult} (h : unmark o = unmark (L.step m).outcome) :
    L.Follows m [o] (L.step m).machine :=
  ⟨1, by rw [List.map_singleton, h, unmark_step]; rfl, rfl⟩

end Language

/-! ## 2. One answer of the controller -/

namespace Controller

variable {σ : Type} {L : Language σ}

theorem drive_follows (c : Controller σ) (generation : Nat) :
    L.Follows c.machine (c.drive L generation).answer.1.told
      (c.drive L generation).controller.machine := by
  cases ho : (L.step c.machine).outcome with
  | error b =>
    simp only [drive, ho]
    rw [leave_machine]
    exact .step (by rw [ho])
  | ok r =>
    -- with or without the mark, the result is that of the step
    have hplain : L.Follows c.machine [.ok r] (L.step c.machine).machine := .step (by rw [ho])
    have hmarked : L.Follows c.machine [.ok r.markPaused] (L.step c.machine).machine :=
      .step (by rw [ho]; rfl)
    simp only [drive, ho]
    cases r.error with
    | some f => exact hplain
    | none =>
      cases r.next with
      | none => exact hplain
      | some next =>
        simp only
        split
        · exact hmarked
        · split
          · exact hmarked
          · exact hplain

theorem advance_follows (c : Controller σ) (run : Run) :
    L.Follows c.machine (c.advance L run).answer.1.told (c.advance L run).controller.machine := by
  cases run with
  | unstarted =>
    cases h : Action.allowedIn .run c.status with
    | true =>
      have hbegun :=
        drive_follows (L := L) { c with generation := c.generation + 1, status := .running }
        (c.generation + 1)
      simp only [advance, h, if_true]
      exact hbegun
    | false =>
      simp only [advance, h]
      exact .refl _
  | active generation =>
    by_cases h : generation = c.generation
    · simp only [advance, if_pos h]
      exact drive_follows c generation
    · simp only [advance, if_neg h]
      rw [leave_machine]
      exact .refl _
  | concluded generation =>
    simp only [advance]
    rw [leave_machine]
    exact .refl _
  | finished => exact .refl _

theorem close_machine (c : Controller σ) (run : Run) :
    (c.close run).controller.machine = c.machine := by
  cases run with
  | unstarted => rfl
  | active generation => exact leave_machine c generation
  | concluded generation => exact leave_machine c generation
  | finished => rfl

theorem step_follows (c : Controller σ) :
    L.Follows c.machine
      (match (c.step L).answer with
        | .ok r => [.ok r]
        | .error t => t.told)
      (c.step L).controller.machine := by
  cases h : Action.allowedIn .step c.status with
  | true =>
    cases ho : (L.step c.machine).outcome with
    | error b =>
      simp only [step, h, if_true, ho]
      exact .step (by rw [ho])
    | ok r =>
      simp only [step, h, if_true, ho]
      exact .step (by rw [ho]; rfl)
  | false =>
    simp only [step, h]
    exact .refl _

theorem pause_machine (c : Controller σ) (t : Ticket) :
    (c.pause t).controller.machine = c.machine := by
  unfold pause
  split
  · rfl
  · rfl

theorem pauseAll_machine (c : Controller σ) (tickets : List Ticket) :
    (c.pauseAll tickets).controller.machine = c.machine := by
  induction tickets generalizing c with
  | nil => rfl
  | cons t rest ih =>
    show ((c.pause t).controller.pauseAll rest).controller.machine = c.machine
    rw [ih, pause_machine]

end Controller

/-! ## 3. A stage -/

namespace Stage

variable {σ : Type} {L : Language σ} {m : Machine σ}

/-- What was delivered on a stage is what steps from `m` give, and the machine is where they
    lead. -/
def Follows (L : Language σ) (m : Machine σ) (s : Stage σ) : Prop :=
  L.Follows m s.told s.controller.machine

variable {s : Stage σ} (h : s.Follows L m)
include h

theorem Follows.advance (k : Nat) (run : Run) : (s.advance L k run).Follows L m :=
  Language.Follows.trans h (Controller.advance_follows s.controller run)

theorem Follows.ask (k : Nat) : (s.ask L k).Follows L m := by
  unfold Stage.ask
  split
  · exact h.advance k .unstarted
  · split
    · exact h
    · exact h.advance k _
  · exact h.advance k _
  · exact h

theorem Follows.wake (k : Nat) : (s.wake L k).Follows L m := by
  unfold Stage.wake
  split
  · exact h.advance k _
  · exact h

theorem Follows.close (k : Nat) : (s.close k).Follows L m := by
  unfold Stage.close
  split
  · exact h
  · next held _ =>
    show L.Follows m s.told (s.controller.close held.run).controller.machine
    rw [Controller.close_machine]
    exact h

theorem Follows.step : (s.step L).Follows L m :=
  Language.Follows.trans h (Controller.step_follows s.controller)

theorem Follows.heed {α : Type} {reply : Reply σ α}
    (hreply : reply.controller.machine = s.controller.machine) : (s.heed reply).Follows L m := by
  show L.Follows m s.told reply.controller.machine
  rw [hreply]
  exact h

omit h

/-! ## 4. Hosts -/

/-- A reaction that delivers what steps give, if that was so before. -/
def Reaction.Follows (L : Language σ) (m : Machine σ) (x : Reaction σ) : Prop :=
  ∀ s : Stage σ, s.Follows L m → (x.act s).Follows L m

/-- A result is handed to a host, and the host reacts. -/
theorem attend_follows {a : Attention σ} {r : StepResult} {c : Controller σ}
    (h : L.Follows m (a.told ++ [.ok r]) c.machine) (hx : ∀ x ∈ a.reactions, x.Follows L m) :
    L.Follows m (attend a r c).answer.account.told (attend a r c).controller.machine ∧
      ∀ x ∈ (attend a r c).answer.account.reactions, x.Follows L m := by
  obtain ⟨runs, told, reactions⟩ := a
  cases reactions with
  | nil => exact ⟨h, fun x hx => absurd hx List.not_mem_nil⟩
  | cons x rest =>
    obtain ⟨hfirst, hrest⟩ := List.forall_mem_cons.mp hx
    have hstage : Follows L m ⟨c, runs, told ++ [.ok r], []⟩ := h
    exact ⟨hfirst _ hstage, hrest⟩

/-- All results of a run in the hands of a host, and the trouble that ends it, if there is one. -/
theorem handOut_follows (budget : Nat) {e : Controller.Execution (Attention σ)} {run : Run}
    {c : Controller σ} (htrouble : e.trouble = none) (h : L.Follows m e.account.told c.machine)
    (hx : ∀ x ∈ e.account.reactions, x.Follows L m) :
    L.Follows m
      ((Controller.handOut L attend budget e run c).answer.account.told ++
        ((Controller.handOut L attend budget e run c).answer.trouble.map Trouble.told).getD [])
      (Controller.handOut L attend budget e run c).controller.machine := by
  induction budget generalizing e run c with
  | zero =>
    show L.Follows m (e.account.told ++ (e.trouble.map Trouble.told).getD []) c.machine
    rw [htrouble]
    simpa using h
  | succ budget ih =>
    have hnext := h.trans (Controller.advance_follows c run)
    cases hanswer : (c.advance L run).answer with
    | mk delivery run' =>
      rw [hanswer] at hnext
      simp only [Controller.handOut, hanswer]
      cases delivery with
      | ended =>
        simp only [htrouble]
        exact hnext
      | trouble t => exact hnext
      | result r =>
        obtain ⟨hseen, hleft⟩ := attend_follows hnext hx
        simp only
        split
        · refine ih htrouble ?_ hleft
          rw [Controller.pauseAll_machine]
          exact hseen
        · rw [Controller.pauseAll_machine, Controller.close_machine, htrouble]
          simpa using hseen

theorem Follows.executeAll {s : Stage σ} (h : s.Follows L m) (budget : Nat)
    {reactions : List (Reaction σ)} (hx : ∀ x ∈ reactions, x.Follows L m) :
    (s.executeAll L budget reactions).Follows L m :=
  handOut_follows budget rfl h hx

end Stage

/-! ## 5. Schedules -/

section Schedules

variable {σ : Type} {L : Language σ} {m : Machine σ}

mutual

theorem play_follows (r : Request) (hr : r.keepsProgram = true) {s : Stage σ} (h : s.Follows L m) :
    (play L r s).Follows L m := by
  cases r with
  | prepare code input => cases hr
  | stop => cases hr
  | reset => cases hr
  | setBreakpoints lines => exact h
  | pause t => exact h.heed (Controller.pause_machine s.controller t)
  | step => exact h.step
  | create => exact h
  | ask k => exact h.ask k
  | wake k => exact h.wake k
  | close k => exact h.close k
  | executeAll budget callbacks => exact h.executeAll budget (reactions_follow callbacks hr)

theorem playAll_follows (schedule : List Request) (hs : keepProgram schedule = true) {s : Stage σ}
    (h : s.Follows L m) : (playAll L schedule s).Follows L m := by
  cases schedule with
  | nil => exact h
  | cons r rest =>
    obtain ⟨hr, hrest⟩ := Bool.and_eq_true_iff.mp hs
    exact playAll_follows rest hrest (play_follows r hr h)

theorem reactions_follow (callbacks : List Callback) (hc : keepProgramAfter callbacks = true) :
    ∀ x ∈ reactions L callbacks, x.Follows L m := by
  cases callbacks with
  | nil => exact fun x hx => absurd hx List.not_mem_nil
  | cons callback rest =>
    cases callback with
    | mk requests tickets raises =>
      obtain ⟨hrequests, hrest⟩ := Bool.and_eq_true_iff.mp hc
      refine List.forall_mem_cons.mpr ⟨fun s hs => ?_, reactions_follow rest hrest⟩
      exact playAll_follows requests hrequests hs

end

end Schedules

theorem Controller.prepare_ready {σ : Type} {L : Language σ} {c : Controller σ} {code input : Text}
    (h : (c.prepare L code input).answer = .ok none) :
    ∃ m, L.load c.machine code input = .ok m ∧
      (c.prepare L code input).controller =
        { c with machine := m, last := none, status := .ready } := by
  unfold prepare at h ⊢
  cases hallowed : Action.allowedIn .prepare c.status with
  | false => simp [hallowed, unchanged] at h
  | true =>
    simp only [hallowed, if_true] at h ⊢
    cases hload : L.load c.machine code input with
    | ok m => exact ⟨m, rfl, rfl⟩
    | error e =>
      rw [hload] at h
      cases e with
      | rejected r => cases h
      | broken b => cases h

/-- **Pausing is transparent**: once a program is prepared, all that any schedule delivers, with the
    marks of pauses left out, is what the first steps of the program give, and the machine is where
    these steps lead. So no step is lost, delivered twice, or delivered out of order. -/
theorem delivered_eq_steps {σ : Type} {L : Language σ} {c : Controller σ} {code input : Text}
    (h : (c.prepare L code input).answer = .ok none) :
    ∃ m, L.load c.machine code input = .ok m ∧ (c.prepare L code input).controller.status = .ready ∧
      ∀ runs schedule, keepProgram schedule = true →
        ∃ n,
          (playAll L schedule
            ⟨(c.prepare L code input).controller, runs, [], []⟩).told.map unmark =
              (L.steps n m).1 ∧
          (playAll L schedule
            ⟨(c.prepare L code input).controller, runs, [], []⟩).controller.machine =
              (L.steps n m).2 := by
  obtain ⟨m, hload, hready⟩ := Controller.prepare_ready h
  rw [hready]
  refine ⟨m, hload, rfl, fun runs schedule hkeep => ?_⟩
  exact playAll_follows schedule hkeep (Language.Follows.refl m)

/-- A run that a pause request ends, a single step, a host that sets a breakpoint and fails at it
    after a step of its own, and a run that is closed, all over one program. -/
def interruptions : List Request :=
  [.create, .ask 0, .pause 7, .ask 0, .wake 0, .step,
    .executeAll 5 [.mk [.setBreakpoints [2]] [] false, .mk [.step] [8] true],
    .setBreakpoints [], .create, .ask 1, .close 1, .step]

/-- What becomes of a program under these requests. -/
def interrupted : Stage Deadfish.State :=
  playAll Deadfish.language interruptions
    ⟨((Controller.fresh Deadfish.language []).prepare Deadfish.language "ii\nso\niso"
      []).controller, [], [], []⟩

theorem delivered_eq_steps_interrupted :
    ((Controller.fresh Deadfish.language []).prepare Deadfish.language "ii\nso\niso" []).answer =
      .ok none ∧
      keepProgram interruptions = true ∧ interrupted.told.length = 8 ∧
      ∃ m n, Deadfish.language.load ⟨.fresh, []⟩ "ii\nso\niso" [] = .ok m ∧
        interrupted.told.map unmark = (Deadfish.language.steps n m).1 ∧
        interrupted.controller.machine = (Deadfish.language.steps n m).2 := by
  have hprepared : ((Controller.fresh Deadfish.language []).prepare Deadfish.language "ii\nso\niso"
    []).answer =
      .ok none := rfl
  have hkeep : keepProgram interruptions = true := by decide
  have hlength : interrupted.told.length = 8 := by decide +kernel
  obtain ⟨m, hload, -, hall⟩ := delivered_eq_steps hprepared
  obtain ⟨n, htold, hmachine⟩ := hall [] interruptions hkeep
  exact ⟨hprepared, hkeep, hlength, m, n, hload, htold, hmachine⟩

end Esolang
