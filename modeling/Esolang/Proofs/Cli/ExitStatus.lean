/-
  File:      Esolang/Proofs/Cli/ExitStatus.lean
  Subject:   What the exit status tells about a program that was run with a step limit.

  The tool stops a program that has used up its steps while it is handed a result, and afterwards
  infers from the controller what has happened. It takes every result with a next place for one of a
  program that would go on, and so also that of a failure in the last step.

  * `Language.EndsAt`: the first step that ends a program or makes it fail.
  * `Batch.Delivers`: the results a batch hands over on its way; `Batch.Over`: it has no more.
  * `Batch.Driving.ends`: a batch executes the steps up to that one, or as many as its limit allows.
  * `exit_status_tells_ending`: the exit status and all that is written; `failure_in_last_step`: a
    failure that is reported as an exceeded limit.
-/
import Esolang.Cli.Program
import Esolang.Proofs.Controller.Interleaving
import Esolang.Proofs.Language

namespace Esolang

/-! ## 1. Endings of programs -/

namespace Language

variable {σ : Type} (L : Language σ)

/-- Step number `k` is the first one that ends the program or makes it fail, and `r` is its
    result. -/
def EndsAt (m : Machine σ) (k : Nat) (r : StepResult) : Prop :=
  ∃ before, (L.steps k m).1 = before ++ [.ok r] ∧ (∀ o ∈ before, GoesOn o) ∧
    (r.error ≠ none ∨ r.next = none)

theorem length_steps (n : Nat) (m : Machine σ) : (L.steps n m).1.length = n := by
  induction n generalizing m with
  | zero => rfl
  | succ n ih => exact congrArg (· + 1) (ih (L.step m).machine)

variable {L}

theorem EndsAt.succ {m : Machine σ} {k : Nat} {r : StepResult} (hgo : GoesOn (L.step m).outcome)
    (h : L.EndsAt (L.step m).machine k r) : L.EndsAt m (k + 1) r := by
  obtain ⟨before, hsteps, hbefore, hfinal⟩ := h
  refine ⟨(L.step m).outcome :: before, ?_, List.forall_mem_cons.mpr ⟨hgo, hbefore⟩, hfinal⟩
  show (L.step m).outcome :: (L.steps k (L.step m).machine).1 = _
  rw [hsteps, List.cons_append]

/-- If no step breaks down, all of them go on or one of them is the last. -/
theorem goesOn_or_endsAt (n : Nat) {m : Machine σ} (h : ∀ o ∈ (L.steps n m).1, ∃ r, o = .ok r) :
    (∀ o ∈ (L.steps n m).1, GoesOn o) ∨ ∃ k r, k ≤ n ∧ L.EndsAt m k r := by
  induction n generalizing m with
  | zero => exact .inl fun o ho => absurd ho List.not_mem_nil
  | succ n ih =>
    have hcons : (L.steps (n + 1) m).1 = (L.step m).outcome :: (L.steps n (L.step m).machine).1 :=
      rfl
    rw [hcons] at h ⊢
    obtain ⟨⟨r, hr⟩, hrest⟩ := List.forall_mem_cons.mp h
    by_cases hgo : GoesOn (L.step m).outcome
    · rcases ih hrest with hall | ⟨k, last, hk, hends⟩
      · exact .inl (List.forall_mem_cons.mpr ⟨hgo, hall⟩)
      · exact .inr ⟨k + 1, last, Nat.succ_le_succ hk, hends.succ hgo⟩
    · refine .inr ⟨1, r, Nat.succ_le_succ (Nat.zero_le n), [], congrArg (· :: []) hr, ?_, ?_⟩
      · exact fun o ho => absurd ho List.not_mem_nil
      · by_cases herror : r.error = none
        · exact .inr (Classical.byContradiction fun hnext => hgo ⟨r, hr, herror, hnext⟩)
        · exact .inl herror

end Language

/-- What a step has written. -/
def outputOf : Except Breakdown StepResult → Text
  | .ok r => r.written
  | .error _ => []

/-- The last output that is not empty, or what was there before. -/
def latest (before : Text) (outputs : List Text) : Text :=
  ((outputs.filter fun o => !o.isEmpty).getLast?).getD before

theorem latest_cons (before o : Text) (rest : List Text) :
    latest before (o :: rest) = latest (if o.isEmpty then before else o) rest := by
  unfold latest
  cases ho : o.isEmpty with
  | true => simp [ho]
  | false => simp [ho, List.getLast?_cons]

namespace Cli

/-! ## 2. Transcripts -/

section Transcripts

theorem on_append (t u : Transcript) (c : Channel) : Transcript.on (t ++ u) c = t.on c ++ u.on c :=
  List.flatMap_append

/-- Remarks are complaints. -/
theorem traceLines_out (traced : Bool) (notes : List Text) :
    (traceLines traced notes).on .out = [] := by
  unfold traceLines
  split
  · induction notes with
    | nil => rfl
    | cons note notes ih => exact ih
  · rfl

theorem traceLines_nil (traced : Bool) : traceLines traced [] = [] := by
  cases traced with
  | true => rfl
  | false => rfl

theorem integerIn_out (name : String) (content : Text) :
    (integerIn name content).2.on .out = [] := by
  unfold integerIn
  split
  · rfl
  · split
    · rfl
    · rfl

end Transcripts

/-! ## 3. Batches -/

namespace Batch

variable {σ : Type} (L : Language σ) (settings : BatchSettings)

/-- A batch goes on through steps, each with a result that it hands over, and writes something. -/
inductive Delivers : Batch σ → List (Except Breakdown StepResult) → Transcript → Batch σ → Prop
  | here (b : Batch σ) : Delivers b [] [] b
  | step {b b' last : Batch σ} {r : StepResult} {lines rest : Transcript}
      {outcomes : List (Except Breakdown StepResult)}
      (hresult : (b.controller.advance L b.run).answer.1 = .result r)
      (hadvance : b.advance L settings = (lines, .more b'))
        (hrest : Delivers b' outcomes rest last) :
      Delivers b (.ok r :: outcomes) (lines ++ rest) last

/-- The run of a batch has no more results. -/
def Over (b : Batch σ) : Prop :=
  b.controller.advance L b.run = b.controller.unchanged (.ended, .finished)

/-- The batch `b` hands over the given outcomes, the last one of them the result `r`, and then it is
    over. It is stopped exactly if there are `n` outcomes and `r` has a next place. -/
structure Ends (b : Batch σ) (n : Nat) (outcomes : List (Except Breakdown StepResult))
    (r : StepResult) (lines : Transcript) (b' : Batch σ) : Prop where
  delivers : Delivers L settings b outcomes lines b'
  isOver : b'.Over L
  last : b'.last = some r
  tail : b'.tail = latest b.tail (outcomes.map outputOf)
  idle : b'.controller.status = .idle ↔ outcomes.length = n ∧ r.next ≠ none
  onOut : lines.on .out = outcomes.flatMap outputOf
  onErr : settings.traced = false → lines.on .err = []

variable {L settings} {b : Batch σ}

/-- A batch that is over ends with what it concludes. -/
theorem Over.advance (h : b.Over L) :
    b.advance L settings = ((b.conclude settings).1, .ended (b.conclude settings).2) := by
  have hreply : b.controller.advance L b.run = b.controller.unchanged (.ended, .finished) := h
  unfold Batch.advance
  simp only [hreply, Controller.unchanged, traceLines_nil, List.nil_append]
  rfl

theorem over_of_concluded {generation : Nat} (hrun : b.run = .concluded generation)
    (hstatus : b.controller.status ≠ .running) : b.Over L := by
  unfold Over
  rw [hrun, Controller.advance, Controller.leave_of_not_driving fun h => hstatus h.2]
  rfl

theorem over_of_outdated {generation : Nat} (hrun : b.run = .active generation)
    (hgeneration : generation ≠ b.controller.generation) : b.Over L := by
  unfold Over
  rw [hrun, Controller.advance, if_neg hgeneration, Controller.leave_of_not_driving fun h =>
    hgeneration h.1]
  rfl

/-- All that a batch writes, once it is known where it ends. -/
theorem Delivers.finish {outcomes : List (Except Breakdown StepResult)} {lines : Transcript}
    {last : Batch σ} (h : b.Delivers L settings outcomes lines last) (hover : last.Over L)
    {budget : Nat} (hbudget : outcomes.length < budget) :
    b.finish L settings budget =
      (lines ++ (last.conclude settings).1, some (last.conclude settings).2) := by
  induction h generalizing budget with
  | here b =>
    obtain ⟨budget, rfl⟩ := Nat.exists_eq_succ_of_ne_zero (Nat.ne_of_gt hbudget)
    simp only [Batch.finish, hover.advance, List.nil_append]
  | step hresult hadvance hrest ih =>
    obtain ⟨budget, rfl⟩ :=
      Nat.exists_eq_succ_of_ne_zero (Nat.ne_of_gt (Nat.lt_of_le_of_lt (Nat.zero_le _) hbudget))
    have hless := ih hover (Nat.lt_of_succ_lt_succ hbudget)
    simp only [Batch.finish, hadvance, hless, List.append_assoc]

/-! ## 4. Steps of a batch -/

/-- A batch that has a program to go on with, on the machine `m`, with nothing that could pause
    it. -/
structure Driving (b : Batch σ) (m : Machine σ) : Prop where
  machine : b.controller.machine = m
  waiting : b.controller.waiting = []
  breakpoints : b.controller.breakpoints = []
  run : b.run = .unstarted ∧ b.controller.status = .ready ∨
    b.run = .active b.controller.generation ∧ b.controller.status = .running

/-- The batch after a result, which was left to the controller `c` and the run `run`. -/
def heed (b : Batch σ) (r : StepResult) (c : Controller σ) (run : Run) : Batch σ where
  controller := c
  run := run
  steps := b.steps + 1
  tail := if r.written.isEmpty then b.tail else r.written
  last := some r

/-- A result that is handed over, and then the program is stopped if the limit is reached. -/
theorem advance_of_result {r : StepResult} {c : Controller σ} {run : Run} {notes : List Text}
    {released : List (Ticket × Option StepResult)}
    (h : b.controller.advance L b.run = ⟨(.result r, run), c, released, notes⟩) :
    b.advance L settings =
      if reachesLimit settings (b.steps + 1) r then
        (traceLines settings.traced notes ++ out r.written ::
          traceLines settings.traced (c.stop L).notes,
          .more (b.heed r (c.stop L).controller run))
      else (traceLines settings.traced notes ++ [out r.written], .more (b.heed r c run)) := by
  unfold Batch.advance
  simp only [h]
  rfl

theorem Driving.driven {m : Machine σ} (h : b.Driving m) :
    ∃ c : Controller σ, c.machine = m ∧ c.waiting = [] ∧ c.breakpoints = [] ∧ c.status = .running ∧
      c.Driven L c.generation (b.controller.advance L b.run) := by
  rcases h.run with ⟨hrun, hstatus⟩ | ⟨hrun, hstatus⟩
  · refine ⟨b.controller.begun, h.machine, h.waiting, h.breakpoints, rfl, ?_⟩
    have hallowed : Action.allowedIn .run b.controller.status = true := by
      rw [hstatus]
      rfl
    rw [hrun, Controller.advance, if_pos hallowed]
    exact (Controller.drive_driven _ _).remarked _
  · refine ⟨b.controller, h.machine, h.waiting, h.breakpoints, hstatus, ?_⟩
    rw [hrun, Controller.advance, if_pos rfl]
    exact Controller.drive_driven _ _

/-- A step that gives a result hands it over as it is. The run goes on unless the program has failed
    or ended. -/
theorem Driving.reply {m : Machine σ} (h : b.Driving m) {r : StepResult}
    (ho : (L.step m).outcome = .ok r) :
    ∃ (c : Controller σ) (run : Run) (released : List (Ticket × Option StepResult))
      (notes : List Text),
      b.controller.advance L b.run = ⟨(.result r, run), c, released, notes⟩ ∧
      c.machine = (L.step m).machine ∧ c.waiting = [] ∧ c.breakpoints = [] ∧
      ((r.error = none ∧ r.next ≠ none ∧ run = .active c.generation ∧ c.status = .running) ∨
        ((r.error ≠ none ∨ r.next = none) ∧ run = .concluded c.generation ∧
          c.status = Controller.statusAfter r)) := by
  obtain ⟨c, hmachine, hwaiting, hbreakpoints, hstatus, hdriven⟩ := h.driven (L := L)
  generalize b.controller.advance L b.run = reply at hdriven ⊢
  rw [← hmachine] at ho
  cases hdriven with
  | breaksDown ho' => cases ho.symm.trans ho'
  | @concludes r' notes ho' hstops =>
    obtain rfl := Except.ok.inj (ho.symm.trans ho')
    have hover : Controller.statusAfter r ≠ .paused := by
      rcases hstops with hover | hwaits | ⟨next, -, hline⟩
      · exact hover
      · exact absurd hwaiting hwaits
      · rw [hbreakpoints] at hline
        cases hline
    rw [Controller.concluding_of_not_paused hover]
    refine ⟨_, _, _, _, rfl, by rw [hmachine], rfl, hbreakpoints, .inr ⟨?_, rfl, rfl⟩⟩
    by_cases herror : r.error = none
    · refine .inr (Classical.byContradiction fun hnext => ?_)
      exact hover (Controller.statusAfter_unfinished herror hnext)
    · exact .inl herror
  | @goesOn r' next notes ho' herror hnext hwaiting' hline =>
    obtain rfl := Except.ok.inj (ho.symm.trans ho')
    have hsome : r.next ≠ none := by
      rw [hnext]
      exact Option.some_ne_none next
    exact ⟨_, _, _, _, rfl, by rw [hmachine], hwaiting, hbreakpoints,
      .inl ⟨herror, hsome, rfl, hstatus⟩⟩

/-- The limit is reached by a result with a next place once the budget is used up. -/
theorem reachesLimit_iff {steps n : Nat} {r : StepResult}
    (hlimit : settings.stepLimit = ((steps + (n + 1) : Nat) : Int)) :
    reachesLimit settings (steps + 1) r = true ↔ n = 0 ∧ r.next ≠ none := by
  unfold reachesLimit
  rw [hlimit]
  simp only [Bool.and_eq_true, decide_eq_true_eq, Option.isSome_iff_ne_none]
  constructor
  · rintro ⟨⟨-, hle⟩, hnext⟩
    exact ⟨by omega, hnext⟩
  · rintro ⟨rfl, hnext⟩
    exact ⟨⟨by omega, by omega⟩, hnext⟩

theorem stop_controller {c : Controller σ} (h : c.status ≠ .idle) :
    (c.stop L).controller.status = .idle ∧ (c.stop L).controller.generation = c.generation + 1 := by
  unfold Controller.stop
  rw [if_neg h]
  exact ⟨rfl, rfl⟩

theorem step_lines (traced : Bool) (r : StepResult) (notes more : List Text) :
    let lines := traceLines traced notes ++ out r.written :: traceLines traced more
    lines.on .out = r.written ∧ (traced = false → lines.on .err = []) := by
  intro lines
  refine ⟨?_, fun huntraced => ?_⟩
  · have hout : Transcript.on (out r.written :: traceLines traced more) .out =
        r.written ++ (traceLines traced more).on .out := rfl
    rw [on_append, traceLines_out, hout, traceLines_out, List.append_nil, List.nil_append]
  · simp only [lines, traceLines, huntraced]
    rfl

/-- The last step of a batch: its run gives no more results, or it is stopped. -/
theorem ends_of_result {n : Nat} {r : StepResult} {c : Controller σ} {run : Run} {notes : List Text}
    {released : List (Ticket × Option StepResult)}
    (hreply : b.controller.advance L b.run = ⟨(.result r, run), c, released, notes⟩)
    (hlimit : settings.stepLimit = ((b.steps + (n + 1) : Nat) : Int)) (hstatus : c.status ≠ .idle)
    (hrun : run = .active c.generation ∧ n = 0 ∧ r.next ≠ none ∨
      run = .concluded c.generation ∧ c.status ≠ .running) :
    ∃ lines b', b.Ends L settings (n + 1) [.ok r] r lines b' := by
  have hadvance : b.advance L settings = _ := advance_of_result hreply
  have hresult : (b.controller.advance L b.run).answer.1 = .result r := by rw [hreply]
  have hlength : ([Except.ok r] : List (Except Breakdown StepResult)).length = n + 1 ↔ n = 0 := by
    simp
  have htail : (b.heed r c run).tail = latest b.tail ([Except.ok r].map outputOf) := by
    rw [List.map_singleton, latest_cons]
    rfl
  by_cases hreaches : reachesLimit settings (b.steps + 1) r = true
  · rw [if_pos hreaches] at hadvance
    obtain ⟨hidle, hgeneration⟩ := stop_controller (L := L) hstatus
    obtain ⟨hout, herr⟩ := step_lines settings.traced r notes (c.stop L).notes
    refine ⟨_, b.heed r (c.stop L).controller run, .step hresult hadvance (.here _), ?_, rfl, htail,
      ?_, ?_, ?_⟩
    · rcases hrun with ⟨hrun, -⟩ | ⟨hrun, -⟩
      · refine over_of_outdated hrun ?_
        show c.generation ≠ (c.stop L).controller.generation
        omega
      · refine over_of_concluded hrun ?_
        show (c.stop L).controller.status ≠ .running
        rw [hidle]
        decide
    · rw [hlength]
      exact ⟨fun _ => (reachesLimit_iff hlimit).mp hreaches, fun _ => hidle⟩
    · rw [List.append_nil, hout, List.flatMap_singleton]
      rfl
    · rw [List.append_nil]
      exact herr
  · have hgo : ¬(n = 0 ∧ r.next ≠ none) := fun h => hreaches ((reachesLimit_iff hlimit).mpr h)
    rw [if_neg hreaches] at hadvance
    obtain ⟨hout, herr⟩ := step_lines settings.traced r notes []
    rw [traceLines_nil] at hout herr
    refine ⟨_, b.heed r c run, .step hresult hadvance (.here _), ?_, rfl, htail, ?_, ?_, ?_⟩
    · rcases hrun with ⟨-, hlast⟩ | ⟨hrun, hstatus⟩
      · exact absurd hlast hgo
      · exact over_of_concluded hrun hstatus
    · rw [hlength]
      exact ⟨fun h => absurd h hstatus, fun h => absurd h hgo⟩
    · rw [List.append_nil, hout, List.flatMap_singleton]
      rfl
    · rw [List.append_nil]
      exact herr

/-- **A batch executes steps until the first one that ends the program or makes it fail**, or until
    its budget is used up, and then it is over. -/
theorem Driving.ends {m : Machine σ} {k n : Nat} {before : List (Except Breakdown StepResult)}
    {r : StepResult} (h : b.Driving m) (hlimit : settings.stepLimit = ((b.steps + n : Nat) : Int))
    (hk : k ≤ n) (hsteps : (L.steps k m).1 = before ++ [.ok r]) (hbefore : ∀ o ∈ before, GoesOn o)
    (hlast : (r.error ≠ none ∨ r.next = none) ∨ k = n) :
    ∃ lines b', b.Ends L settings n (before ++ [.ok r]) r lines b' := by
  obtain rfl : k = before.length + 1 := by
    rw [← L.length_steps k m, hsteps, List.length_append, List.length_singleton]
  obtain ⟨n, rfl⟩ :=
    Nat.exists_eq_succ_of_ne_zero (Nat.ne_of_gt (Nat.lt_of_lt_of_le (Nat.succ_pos _) hk))
  induction before generalizing b m n with
  | nil =>
    have ho : (L.step m).outcome = .ok r := List.head_eq_of_cons_eq hsteps
    obtain ⟨c, run, released, notes, hreply, -, -, -, hrun⟩ := h.reply ho
    have hstatus : c.status ≠ .idle := by
      rcases hrun with ⟨-, -, -, hrunning⟩ | ⟨-, -, hafter⟩
      · rw [hrunning]
        decide
      · rw [hafter]
        rcases Controller.statusAfter_cases r with hs | hs | hs <;> rw [hs] <;> decide
    refine ends_of_result hreply hlimit hstatus ?_
    rcases hrun with ⟨herror, hnext, hactive, -⟩ | ⟨-, hconcluded, hafter⟩
    · rcases hlast with (hfailed | hfinished) | hused
      · exact absurd herror hfailed
      · exact absurd hfinished hnext
      · exact .inl ⟨hactive, (Nat.succ.inj hused).symm, hnext⟩
    · refine .inr ⟨hconcluded, ?_⟩
      rw [hafter]
      exact Controller.statusAfter_ne_running r
  | cons o before ih =>
    obtain ⟨⟨first, rfl, herror, hnext⟩, hrest⟩ := List.forall_mem_cons.mp hbefore
    obtain ⟨ho, hsteps⟩ := List.cons.inj hsteps
    obtain ⟨c, run, released, notes, hreply, hmachine, hwaiting, hbreakpoints, hrun⟩ := h.reply ho
    obtain ⟨-, -, hactive, hrunning⟩ := hrun.resolve_right fun hover => by
      rcases hover.1 with hfailed | hfinished
      · exact hfailed herror
      · exact hnext hfinished
    obtain ⟨n, rfl⟩ : ∃ n', n = n' + 1 := ⟨n - 1, by
      rw [List.length_cons] at hk
      omega⟩
    have hnot : ¬reachesLimit settings (b.steps + 1) first = true := by
      rw [reachesLimit_iff hlimit]
      omega
    have hadvance : b.advance L settings = _ := advance_of_result hreply
    rw [if_neg hnot] at hadvance
    have hdriving : (b.heed first c run).Driving (L.step m).machine :=
      ⟨hmachine, hwaiting, hbreakpoints, .inr ⟨hactive, hrunning⟩⟩
    have hless : settings.stepLimit = (((b.heed first c run).steps + (n + 1) : Nat) : Int) := by
      rw [hlimit]
      show ((b.steps + (n + 1 + 1) : Nat) : Int) = ((b.steps + 1 + (n + 1) : Nat) : Int)
      omega
    obtain ⟨lines, b', hends⟩ := ih hdriving hrest hsteps n hless (Nat.le_of_succ_le_succ hk)
      (hlast.imp id Nat.succ.inj)
    obtain ⟨hout, herr⟩ := step_lines settings.traced first notes []
    rw [traceLines_nil] at hout herr
    refine ⟨_, b', .step (by rw [hreply]) hadvance hends.delivers, hends.isOver, hends.last, ?_, ?_,
      ?_, ?_⟩
    · rw [hends.tail, List.cons_append, List.map_cons, latest_cons]
      rfl
    · rw [hends.idle, List.cons_append, List.length_cons, Nat.add_right_cancel_iff]
    · rw [on_append, hout, hends.onOut, List.cons_append, List.flatMap_cons]
      rfl
    · intro huntraced
      rw [on_append, herr huntraced, hends.onErr huntraced]
      rfl

/-! ## 5. Conclusions -/

theorem conclude_ok {dumped : Transcript} (h : dumpLines settings b.last = .ok dumped) :
    b.conclude settings =
      ((if !b.tail.isEmpty && !b.tail.endsWith [Text.newline] then [outLine []] else []) ++
        dumped ++
        (b.verdict settings).1, .exit (b.verdict settings).2) := by
  simp only [conclude, h]

theorem conclude_error {why : Breakdown} (h : dumpLines settings b.last = .error why) :
    b.conclude settings =
      (if !b.tail.isEmpty && !b.tail.endsWith [Text.newline] then [outLine []] else [],
        .troubled (.breakdown why)) := by
  simp only [conclude, h]

theorem dumpLines_err {last : Option StepResult} {dumped : Transcript}
    (h : dumpLines settings last = .ok dumped) : dumped.on .err = [] := by
  unfold dumpLines at h
  split at h
  · obtain ⟨message, -, h⟩ := Except.bind_ok h
    obtain ⟨t, -, h⟩ := Except.bind_ok h
    cases h
    rfl
  · cases h
    rfl

/-- The complaint about a limit that was exceeded. -/
def limitComplaint (limit : Int) : Emission :=
  errorLine (Text.ofString "step limit of " ++ Decimal.ofInt limit ++ Text.ofString " exceeded")

theorem verdict_idle (hlimit : settings.stepLimit ≠ 0) (h : b.controller.status = .idle) :
    b.verdict settings = ([limitComplaint settings.stepLimit], 2) := by
  simp only [verdict, hlimit, h, ne_eq, not_false_eq_true, decide_true, Bool.and_self, if_true]
  rfl

theorem verdict_failed {r : StepResult} {f : Fault} (h : b.controller.status ≠ .idle)
    (hlast : b.last = some r) (hf : r.error = some f) :
    b.verdict settings = ([errLine f.report], 1) := by
  simp only [verdict, h, decide_false, Bool.and_false, hlast, Option.bind_some, hf]
  rfl

theorem verdict_finished {r : StepResult} (h : b.controller.status ≠ .idle)
    (hlast : b.last = some r) (hf : r.error = none) : b.verdict settings = ([], 0) := by
  simp only [verdict, h, decide_false, Bool.and_false, hlast, Option.bind_some, hf]
  rfl

end Batch

/-! ## 6. The whole tool -/

/-- The integer in a variable that holds one other than zero is not complained about. -/
theorem integerIn_silent {name : String} {content : Text} (h : (integerIn name content).1 ≠ 0) :
    (integerIn name content).2 = [] := by
  unfold integerIn at h ⊢
  by_cases hblank : content.isBlank = true
  · rw [if_pos hblank]
  · rw [if_neg hblank] at h ⊢
    cases hread : Numeral.read content with
    | ok n => rfl
    | error why =>
      rw [hread] at h
      exact absurd rfl h

/-- All that a call of the tool depends on, but for what is typed at its prompt. -/
structure Call where
  /-- The variables. A pause between two steps is assumed to be one that can be made. -/
  environment : Environment
  /-- The random numbers. -/
  draws : Draws
  /-- The files. -/
  files : List (Text × List Nat)
  /-- The arguments. -/
  arguments : List Text

namespace Call

variable (c : Call)

/-- What the tool writes, and how it ends, unless the program takes more than `budget` steps. -/
def result (budget : Nat) (typed : List Text) : Transcript × Option Ending :=
  runTool budget c.environment c.draws c.files typed c.arguments

/-- What a call is launched into, if it asks for what `i` says. -/
def launched (i : Invocation) : Transcript × Launch :=
  launch c.environment c.draws i (lookUp c.files i.file)

/-- The settings of a call with the given limit and format. -/
def settings (limit : Nat) (dump : Option Format) : BatchSettings :=
  ⟨limit, dump, c.environment.traced⟩

/-- A call asks, as `i` says, to run a program with a step limit, and the program can be loaded: it
    begins on the machine `m`. -/
structure Runs (i : Invocation) (id : LanguageId) (limit : Nat) (dump : Option Format)
    (m : Machine id.State) :
    Prop where
  invocation : Invocation.ofArguments? c.arguments = some i
  mode : i.mode = .batch dump
  language : LanguageId.find? i.language = some id
  limited : c.environment.stepLimit.1 = limit
  positive : 1 ≤ limit
  loads : ∃ bytes source, lookUp c.files i.file = .bytes bytes ∧ sourceOf bytes = .ok source ∧
    id.language.load ⟨id.language.fresh, c.draws⟩ source i.input = .ok m

/-- The newline that ends an output whose last piece does not. -/
def lineEnd (outputs : List Text) : Text :=
  if (latest [] outputs).isEmpty || (latest [] outputs).endsWith [Text.newline] then []
  else [Text.newline]

/-- The tool executes exactly the given steps of a program, the last one with the result `r`. It
    writes all that they write, a newline if that is to be added, and the result in the format that
    is asked for; it complains as given and exits with the status. If the result cannot be written
    in the format, the tool breaks down instead. -/
structure Ends (i : Invocation) (id : LanguageId) (limit : Nat) (dump : Option Format)
    (outcomes : List (Except Breakdown StepResult)) (r : StepResult) (complaint : Transcript)
    (status : Nat) :
    Prop where
  last : outcomes.getLast? = some (.ok r)
  executes : ∃ begun b lines b', c.launched i = (begun, .batch id (c.settings limit dump) b) ∧
    b.Delivers id.language (c.settings limit dump) outcomes lines b' ∧ b'.Over id.language
  breaksDown : ∀ why, Batch.dumpLines (c.settings limit dump) (some r) = .error why →
    ∀ budget typed, outcomes.length < budget →
      (c.result budget typed).2 = some (.troubled (.breakdown why)) ∧
      (c.result budget typed).1.on .out =
        outcomes.flatMap outputOf ++ lineEnd (outcomes.map outputOf)
  exits : ∀ dumped, Batch.dumpLines (c.settings limit dump) (some r) = .ok dumped →
    ∀ budget typed, outcomes.length < budget →
      (c.result budget typed).2 = some (.exit status) ∧
      (c.result budget typed).1.on .out =
        outcomes.flatMap outputOf ++ lineEnd (outcomes.map outputOf) ++ dumped.on .out ∧
      ∃ remarks, (c.result budget typed).1.on .err = remarks ++ complaint.on .err ∧
        (c.environment.traced = false → c.environment.checkInterval = [] → remarks = [])

variable {c} {i : Invocation} {id : LanguageId} {limit : Nat} {dump : Option Format}
  {m : Machine id.State}

/-- A call that asks for a run is launched into one. -/
theorem Runs.launched (h : c.Runs i id limit dump m) :
    ∃ begun b, c.launched i = (begun, .batch id (c.settings limit dump) b) ∧ b.Driving m ∧
      b.steps = 0 ∧ b.tail = [] ∧ begun.on .out = [] ∧
      (c.environment.traced = false → c.environment.checkInterval = [] → begun = []) := by
  obtain ⟨bytes, source, hfile, hsource, hload⟩ := h.loads
  let notes := traceLines c.environment.traced (statusNotes .idle .ready)
  let ready : Controller id.State := ⟨m, .ready, [], [], 0, none⟩
  have hwarnings : c.environment.stepLimit.2 = [] := by
    refine integerIn_silent ?_
    show c.environment.stepLimit.1 ≠ 0
    rw [h.limited]
    have hpositive := h.positive
    omega
  have hlaunched : c.launched i =
      (notes ++ c.environment.checkInterval, .batch id (c.settings limit dump) (.start ready)) := by
    have hready : (Controller.fresh id.language c.draws).prepare id.language source i.input =
        ⟨.ok none, ready, [], statusNotes .idle .ready⟩ := by
      have hallowed : Action.allowedIn .prepare (Controller.fresh id.language c.draws).status =
          true := rfl
      have hmachine : id.language.load (Controller.fresh id.language c.draws).machine source
          i.input = .ok m :=
        hload
      simp only [Controller.prepare, hallowed, if_true, hmachine]
      rfl
    unfold Call.launched launch
    rw [h.language, hfile]
    simp only [hsource, launchSource, hready, h.mode, hwarnings, List.append_nil, h.limited]
    rfl
  refine ⟨_, .start ready, hlaunched, ⟨rfl, rfl, rfl, .inl ⟨rfl, rfl⟩⟩, rfl, rfl, ?_,
    fun huntraced hinterval => ?_⟩
  · rw [on_append, traceLines_out]
    exact integerIn_out _ _
  · rw [hinterval, List.append_nil]
    show traceLines c.environment.traced _ = []
    rw [huntraced]
    rfl

theorem Runs.result_eq (h : c.Runs i id limit dump m) {begun : Transcript} {b : Batch id.State}
    (hlaunched : c.launched i = (begun, .batch id (c.settings limit dump) b)) (budget : Nat)
    (typed : List Text) :
    c.result budget typed = (begun ++ (b.finish id.language (c.settings limit dump) budget).1,
      (b.finish id.language (c.settings limit dump) budget).2) := by
  have hlaunch : launch c.environment c.draws i (lookUp c.files i.file) =
      (begun, .batch id (c.settings limit dump) b) := hlaunched
  simp only [Call.result, runTool, h.invocation, hlaunch]

/-- The steps that a call executes, and all that follows if the verdict on them is known. -/
theorem Runs.ends (h : c.Runs i id limit dump m) {k : Nat}
    {before : List (Except Breakdown StepResult)} {r : StepResult} (hk : k ≤ limit)
    (hsteps : (id.language.steps k m).1 = before ++ [.ok r]) (hbefore : ∀ o ∈ before, GoesOn o)
    (hlast : (r.error ≠ none ∨ r.next = none) ∨ k = limit) {complaint : Transcript} {status : Nat}
    (hcomplaint : complaint.on .out = []) (hverdict : ∀ b : Batch id.State, b.last = some r →
      (b.controller.status = .idle ↔ k = limit ∧ r.next ≠ none) →
      b.verdict (c.settings limit dump) = (complaint, status)) :
    c.Ends i id limit dump (id.language.steps k m).1 r complaint status := by
  obtain ⟨begun, b, hlaunched, hdriving, hnone, htail, hout, hquiet⟩ := h.launched
  have hlimit : (c.settings limit dump).stepLimit = ((b.steps + limit : Nat) : Int) := by
    rw [hnone, Nat.zero_add]
    rfl
  obtain ⟨lines, b', hends⟩ := hdriving.ends hlimit hk hsteps hbefore hlast
  rw [← hsteps] at hends
  have hidle := hends.idle
  rw [Language.length_steps] at hidle
  have hlineEnd : Transcript.on
      (if !b'.tail.isEmpty && !b'.tail.endsWith [Text.newline] then [outLine []] else []) .out =
        lineEnd ((id.language.steps k m).1.map outputOf) := by
    rw [hends.tail, htail]
    unfold lineEnd
    generalize latest [] ((id.language.steps k m).1.map outputOf) = tail
    cases tail.isEmpty <;> cases tail.endsWith [Text.newline] <;> rfl
  have hsilent : Transcript.on
      (if !b'.tail.isEmpty && !b'.tail.endsWith [Text.newline] then [outLine []] else [])
      .err = [] := by
    split
    · rfl
    · rfl
  have hresult : ∀ budget typed, (id.language.steps k m).1.length < budget → c.result budget typed =
      (begun ++ (lines ++ (b'.conclude (c.settings limit dump)).1),
        some (b'.conclude (c.settings limit dump)).2) := by
    intro budget typed hbudget
    rw [h.result_eq hlaunched, hends.delivers.finish hends.isOver hbudget]
  refine ⟨?_, ⟨begun, b, lines, b', hlaunched, hends.delivers, hends.isOver⟩, ?_, ?_⟩
  · rw [hsteps, List.getLast?_concat]
  · intro why hdump budget typed hbudget
    rw [← hends.last] at hdump
    rw [hresult budget typed hbudget, Batch.conclude_error hdump]
    refine ⟨rfl, ?_⟩
    rw [on_append, on_append, hout, hends.onOut, hlineEnd, List.nil_append]
  · intro dumped hdump budget typed hbudget
    rw [← hends.last] at hdump
    rw [hresult budget typed hbudget, Batch.conclude_ok hdump, hverdict b' hends.last hidle]
    refine ⟨rfl, ?_, begun.on .err ++ lines.on .err, ?_, ?_⟩
    · simp only [on_append, hout, hends.onOut, hlineEnd, hcomplaint, List.nil_append,
        List.append_nil, List.append_assoc]
    · simp only [on_append, hsilent, Batch.dumpLines_err hdump, List.nil_append, List.append_assoc]
    · intro huntraced hinterval
      rw [hquiet huntraced hinterval, hends.onErr huntraced]
      rfl

end Call

/-- **The exit status tells how a program has ended**, in every language and for every source that
    can be loaded, whatever its input, the random numbers and the step limit, but for one case. A
    program whose step number `k` is the first that ends it or makes it fail, within the limit,
    executes exactly `k` steps; the status is 0 if it ends and 1, with the fault reported, if it
    fails. A program without such a step executes as many as the limit allows; the status is 2, and
    the complaint is about the limit. The exception is a failure in the last step that the limit
    allows, where the result has a next place: it is taken for an exceeded limit. -/
theorem exit_status_tells_ending (c : Call) {i : Invocation} {id : LanguageId} {limit : Nat}
    {dump : Option Format} {m : Machine id.State} (h : c.Runs i id limit dump m) :
    let executed k := (id.language.steps k m).1
    (∀ k r, k ≤ limit → id.language.EndsAt m k r →
      (r.error = none → c.Ends i id limit dump (executed k) r [] 0) ∧
      (∀ f, r.error = some f → k < limit ∨ r.next = none →
        c.Ends i id limit dump (executed k) r [errLine f.report] 1) ∧
      (∀ f, r.error = some f → k = limit → r.next ≠ none →
        c.Ends i id limit dump (executed k) r [Batch.limitComplaint limit] 2)) ∧
    ((∀ o ∈ executed limit, ∃ r, o = .ok r) → (∀ k r, k ≤ limit → ¬id.language.EndsAt m k r) →
      ∃ r, c.Ends i id limit dump (executed limit) r [Batch.limitComplaint limit] 2) := by
  intro executed
  have hpositive : (c.settings limit dump).stepLimit ≠ 0 := by
    have := h.positive
    show (limit : Int) ≠ 0
    omega
  constructor
  · rintro k r hk ⟨before, hsteps, hbefore, hfinal⟩
    refine ⟨fun herror => ?_, fun f hf hwithin => ?_, fun f hf hused hnext => ?_⟩
    · have hnone : r.next = none := hfinal.resolve_left fun hfailed => hfailed herror
      refine h.ends hk hsteps hbefore (.inl hfinal) rfl fun b hlast hidle => ?_
      exact Batch.verdict_finished (fun hstatus => (hidle.mp hstatus).2 hnone) hlast herror
    · refine h.ends hk hsteps hbefore (.inl hfinal) rfl fun b hlast hidle => ?_
      refine Batch.verdict_failed (fun hstatus => ?_) hlast hf
      obtain ⟨hused, hnext⟩ := hidle.mp hstatus
      rcases hwithin with hless | hnone
      · omega
      · exact hnext hnone
    · refine h.ends hk hsteps hbefore (.inl hfinal) rfl fun b hlast hidle => ?_
      exact Batch.verdict_idle hpositive (hidle.mpr ⟨hused, hnext⟩)
  · intro hok hnever
    have hgo : ∀ o ∈ executed limit, GoesOn o := by
      refine (Language.goesOn_or_endsAt limit hok).resolve_right ?_
      rintro ⟨k, r, hk, hends⟩
      exact hnever k r hk hends
    obtain ⟨n, rfl⟩ := Nat.exists_eq_succ_of_ne_zero (Nat.ne_of_gt h.positive)
    have hsteps := congrArg Prod.fst (id.language.steps_succ n m)
    rw [show executed (n + 1) = _ from hsteps] at hgo
    obtain ⟨hbefore, hlast⟩ := List.forall_mem_append.mp hgo
    obtain ⟨r, hr, -, hnext⟩ := hlast _ (List.mem_singleton_self _)
    rw [hr] at hsteps
    refine ⟨r, h.ends (Nat.le_refl _) hsteps hbefore (.inr rfl) rfl fun b hlast hidle => ?_⟩
    exact Batch.verdict_idle hpositive (hidle.mpr ⟨rfl, hnext⟩)

/-- The call that runs a program which moves left of the first cell in its third step. -/
def fallingOff (maxSteps : Text) : Call :=
  ⟨⟨[], maxSteps, []⟩, [], [("prog.txt", [0x2B, 0x3C])], ["bf", "prog.txt"]⟩

/-- What that call asks for. -/
def fallingOffInvocation : Invocation := ⟨"bf", "prog.txt", [], .batch none⟩

/-- Where its program begins. -/
def fallingOffStart : Machine Brainfuck.State :=
  ⟨{ Brainfuck.State.fresh with program := [⟨⟨.increment, 0, 0⟩, none⟩, ⟨⟨.left, 0, 1⟩, none⟩] },
    []⟩

/-- The result of the third step. -/
def fallingOffResult : StepResult :=
  ⟨.brainfuck [(0, 1)] 0, some (.cell 0 1), none, none, false, some .tapeStart⟩

theorem fallingOff_runs {maxSteps : Text} {limit : Nat}
    (h : (integerIn "ESO_MAX_STEPS" maxSteps).1 = limit) (hpositive : 1 ≤ limit) :
    (fallingOff maxSteps).Runs fallingOffInvocation .brainfuck limit none fallingOffStart := by
  have hinvocation : Invocation.ofArguments? ["bf", "prog.txt"] = some fallingOffInvocation := by
    decide +kernel
  have hsource : sourceOf [0x2B, 0x3C] = .ok "+<" := Except.eq_ok_of_toOption (by decide +kernel)
  exact ⟨hinvocation, rfl, by decide +kernel, h, hpositive, _, _, rfl, hsource, rfl⟩

theorem fallingOff_endsAt : Brainfuck.language.EndsAt fallingOffStart 3 fallingOffResult :=
  ⟨(Brainfuck.language.steps 2 fallingOffStart).1, rfl, by decide +kernel, .inl (by decide)⟩

/-- With one more step allowed the failure is reported. -/
theorem exit_status_tells_ending_fallingOff :
    (fallingOff "4").Runs fallingOffInvocation .brainfuck 4 none fallingOffStart ∧
      Brainfuck.language.EndsAt fallingOffStart 3 fallingOffResult ∧
      ((fallingOff "4").result 9 []).2 = some (.exit 1) ∧
      ((fallingOff "4").result 9 []).1.on .err =
        Text.ofString "RuntimeError: Tape pointer out of bounds\n" := by
  have hruns : (fallingOff "4").Runs fallingOffInvocation .brainfuck 4 none fallingOffStart :=
    fallingOff_runs (by decide +kernel) (by decide)
  obtain ⟨hends, -⟩ := exit_status_tells_ending _ hruns
  obtain ⟨-, hfails, -⟩ := hends 3 fallingOffResult (by decide) fallingOff_endsAt
  obtain ⟨hstatus, -, remarks, herr, hquiet⟩ :=
    (hfails .tapeStart rfl (.inl (by decide))).exits [] rfl 9 [] (by decide +kernel)
  rw [hquiet rfl rfl] at herr
  exact ⟨hruns, fallingOff_endsAt, hstatus, herr⟩

/-- With three steps allowed, all of which are needed for the failure, the tool says that more were
    needed. -/
theorem failure_in_last_step :
    (fallingOff "3").Runs fallingOffInvocation .brainfuck 3 none fallingOffStart ∧
      Brainfuck.language.EndsAt fallingOffStart 3 fallingOffResult ∧
      fallingOffResult.error = some .tapeStart ∧ ((fallingOff "3").result 9 []).2 = some (.exit 2) ∧
      ((fallingOff "3").result 9 []).1.on .err =
        Text.ofString "Error: step limit of 3 exceeded\n" := by
  have hruns : (fallingOff "3").Runs fallingOffInvocation .brainfuck 3 none fallingOffStart :=
    fallingOff_runs (by decide +kernel) (by decide)
  obtain ⟨before, hsteps, hbefore, hfinal⟩ := fallingOff_endsAt
  have hends := hruns.ends (Nat.le_refl 3) hsteps hbefore (.inl hfinal) rfl fun b hlast hidle =>
    Batch.verdict_idle (by decide) (hidle.mpr (by decide))
  obtain ⟨hstatus, -, remarks, herr, hquiet⟩ := hends.exits [] rfl 9 [] (by decide +kernel)
  rw [hquiet rfl rfl] at herr
  exact ⟨hruns, fallingOff_endsAt, rfl, hstatus, herr⟩

end Cli

end Esolang
