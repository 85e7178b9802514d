/-
  File:      Esolang/Proofs/Befunge/Retrying.lean
  Subject:   A failing instruction changes nothing, so that it can be tried again.

  Instructions take up to three values from the stack, read input and write cells. Wherever one of
  them fails, what it had taken is back on the stack; only the blanks in front of an expected number
  are gone, and they would be skipped again.

  * `Attempt.Keeps`: an attempt that fails through the program's own doing leaves a given state.
  * `execute_keeps`: every instruction but `&` leaves the state it found.
  * `Restored`: what a failed instruction leaves of a state; `advance_fault`: a failed step does,
    and the next one fails as well.
  * `failing_step_changes_nothing`: all of it, with the results that are reported.
-/
import Esolang.Proofs.Befunge.Moves
import Esolang.Proofs.Input
import Esolang.Proofs.Language

namespace Esolang

/-! ## 1. Attempts -/

/-- Whenever an attempt fails through the program's own doing, the given state is left. -/
def Attempt.Keeps {σ α : Type} (a : Attempt σ α) (s : σ) : Prop :=
  ∀ f, a.outcome = .error (.fault f) → a.state = s

namespace Attempt.Keeps

variable {σ α : Type} {s s' : σ}

theorem ok (x : α) : (Attempt.ok x s').Keeps s := by
  intro f h
  cases h

theorem fault (f : Fault) : (Attempt.fault f s : Attempt σ α).Keeps s := fun _ _ => rfl

theorem breakdown (b : Breakdown) : (Attempt.breakdown b s' : Attempt σ α).Keeps s := by
  intro f h
  cases h

theorem eq_fault {a : Attempt σ α} {f : Fault} (h : a.Keeps s)
    (ho : a.outcome = .error (.fault f)) : a = .fault f s := by
  have hs := h f ho
  obtain ⟨outcome, state⟩ := a
  cases ho
  cases hs
  rfl

end Attempt.Keeps

namespace Befunge

/-! ## 2. Instructions -/

theorem writeCell_keeps (s : State) : (writeCell s).Keeps s := by
  unfold writeCell
  simp only
  split
  · split
    · exact .ok _
    · split
      · exact .fault _
      · exact .breakdown _
  · exact .fault _

theorem readCell_keeps (s : State) : (readCell s).Keeps s := by
  unfold readCell
  simp only
  split
  · split
    · exact .ok _
    · exact .breakdown _
  · exact .fault _

/-- What an instruction has taken from the stack is back when it fails. -/
theorem execute_keeps (s : State) {i : Instruction} (hi : i ≠ .readNumber) :
    (execute s i).Keeps s := by
  cases i with
  | readNumber => exact absurd rfl hi
  | get => exact readCell_keeps s
  | put => exact writeCell_keeps s
  | divide =>
    unfold execute
    simp only
    split
    · exact .fault _
    · exact .ok _
  | remainder =>
    unfold execute
    simp only
    split
    · exact .fault _
    · split
      · exact .ok _
      · exact .breakdown _
  | writeNumber =>
    unfold execute
    simp only
    split
    · exact .ok _
    · exact .breakdown _
  | writeCharacter =>
    unfold execute
    simp only
    split
    · exact .ok _
    · split
      · exact .fault _
      · exact .breakdown _
  | _ => exact .ok _

/-- What a failed instruction leaves of a state: all of it, but perhaps for blanks in front of the
    input. -/
def Restored (s s' : State) : Prop := s' = s ∨ s' = { s with input := s.input.trimStart }

/-- **An instruction that fails leaves all but blanks in front of the input**, and there it fails
    again. -/
theorem execute_fault {s : State} {i : Instruction} {f : Fault}
    (h : (execute s i).outcome = .error (.fault f)) :
    ∃ s', Restored s s' ∧ execute s i = .fault f s' ∧ execute s' i = .fault f s' := by
  by_cases hi : i = .readNumber
  · subst hi
    have hnumber : (Input.number s.input).outcome = .error (.fault f) := by
      unfold execute at h
      simp only at h
      split at h
      · cases h
      · next e he =>
        cases h
        exact he
    obtain ⟨hfirst, hagain⟩ := Input.number_fault hnumber
    refine ⟨{ s with input := s.input.trimStart }, .inr rfl, ?_, ?_⟩
    · unfold execute
      rw [hfirst]
      rfl
    · unfold execute
      simp only [hagain]
      rfl
  · have hall : execute s i = .fault f s := (execute_keeps s hi).eq_fault h
    exact ⟨s, .inl rfl, hall, hall⟩

/-! ## 3. Steps -/

theorem perform_fault {m : Machine State} {i : Instruction} {f : Fault}
    (h : (perform m i).outcome = .error (.fault f)) :
    ∃ s', Restored m.state s' ∧ perform m i = .fault f { m with state := s' } ∧
      perform { m with state := s' } i = .fault f { m with state := s' } := by
  by_cases hrandom : i = .turnRandomly
  · subst hrandom
    cases h
  · rw [perform_eq m hrandom] at h ⊢
    obtain ⟨s', hs, hfirst, hagain⟩ := execute_fault h
    refine ⟨s', hs, ?_, ?_⟩
    · rw [hfirst]
      rfl
    · rw [perform_eq _ hrandom, hagain]
      rfl

/-- **A step that fails leaves all but blanks in front of the input**, and the next one fails as
    well. -/
theorem advance_fault {m : Machine State} {f : Fault}
    (h : (advance m).outcome = .error (.fault f)) :
    ∃ x y c s', m.state.pointer = some (x, y) ∧ m.state.field.cell? x y = some c ∧
      Restored m.state s' ∧ advance m = .fault f { m with state := s' } ∧
      advance { m with state := s' } = .fault f { m with state := s' } := by
  cases hpointer : m.state.pointer with
  | none =>
    simp only [advance, hpointer] at h
    cases h
  | some place =>
    obtain ⟨x, y⟩ := place
    cases hcell : m.state.field.cell? x y with
    | none =>
      simp only [advance, hpointer, hcell] at h
      cases h
    | some c =>
      by_cases hdata : m.state.stringMode ∧ c ≠ '"'
      · simp only [advance, hpointer, hcell, if_pos hdata] at h
        cases h
      · cases hi : Instruction.ofCodePoint? c with
        | none =>
          have hall : advance m = .fault .notAnInstruction m := by
            simp only [advance, hpointer, hcell, if_neg hdata, hi]
          rw [hall] at h
          cases h
          exact ⟨x, y, c, m.state, rfl, hcell, .inl rfl, hall, hall⟩
        | some i =>
          have hall : ∀ s', Restored m.state s' → advance { m with state := s' } =
              (perform { m with state := s' } i).andThen fun effect m' =>
                .ok ⟨effect.output, effect.edit.map ([·]), effect.ended, []⟩
                  { m' with state := m'.state.move } := by
            intro s' hs
            rcases hs with rfl | rfl
            · simp only [advance, hpointer, hcell, if_neg hdata, hi]
            · simp only [advance, hpointer, hcell, if_neg hdata, hi]
          have hperform : (perform m i).outcome = .error (.fault f) := by
            rw [show advance m = _ from hall m.state (.inl rfl)] at h
            cases ho : (perform m i).outcome with
            | ok effect =>
              simp only [Attempt.andThen, ho] at h
              cases h
            | error e =>
              simp only [Attempt.andThen, ho] at h
              cases h
              rfl
          obtain ⟨s', hs, hfirst, hagain⟩ := perform_fault hperform
          refine ⟨x, y, c, s', rfl, hcell, hs, ?_, ?_⟩
          · rw [show advance m = _ from hall m.state (.inl rfl), hfirst]
            rfl
          · rw [hall s' hs, hagain]
            rfl

/-- A failed instruction has taken nothing but blanks from the front of the input. -/
theorem Restored.blanks {s s' : State} (h : Restored s s') :
    ∃ blanks : Text, (∀ c ∈ blanks, c.isBlank = true) ∧ s.input = blanks ++ s'.input := by
  refine Input.blanks_in_front ?_
  rcases h with rfl | rfl
  · exact .inl rfl
  · exact .inr rfl

/-- **A failing instruction changes nothing.** Whenever a step reports an error, the stack, the
    field with its extents, the pointer, the direction, the string mode and the draws are what they
    were before, and of the input at most blanks in front are gone. The result has no output and no
    edits, and it names the cell of the instruction that failed. So the same result comes again,
    however often the step is repeated. -/
theorem failing_step_changes_nothing {m : Machine State} {r : StepResult} {f : Fault}
    (hr : (language.step m).outcome = .ok r) (hf : r.error = some f) :
    let m' := (language.step m).machine
    (m'.state.stack = m.state.stack ∧ m'.state.field = m.state.field ∧
      m'.state.pointer = m.state.pointer ∧
      m'.state.direction = m.state.direction ∧ m'.state.stringMode = m.state.stringMode ∧
      m'.draws = m.draws) ∧
    (∃ blanks : Text, (∀ c ∈ blanks, c.isBlank = true) ∧ m.state.input = blanks ++ m'.state.input) ∧
    r.output = none ∧ r.edits = none ∧
    (∃ x y c, m.state.pointer = some (x, y) ∧ m.state.field.cell? x y = some c ∧
      r.next = some (.cell y x)) ∧
    ∀ n, (language.steps n m').1 = List.replicate n (.ok r) := by
  have hfault : (advance m).outcome = .error (.fault f) := language.fault_of_error hr hf
  obtain ⟨x, y, c, s', hpointer, hcell, hs, hfirst, hagain⟩ := advance_fault hfault
  have hstep := language.step_of_fault hfirst
  have hrepeat := language.step_of_fault hagain
  have hm' : (language.step m).machine = { m with state := s' } := congrArg Turn.machine hstep
  have hfixed : (language.step { m with state := s' }).machine = { m with state := s' } :=
    congrArg Turn.machine hrepeat
  have hpointer' : s'.pointer = some (x, y) := by
    rcases hs with rfl | rfl
    · exact hpointer
    · exact hpointer
  have hnext : location s' = some (.cell y x) := by
    rw [location, hpointer']
    rfl
  rw [hstep] at hr
  cases hr
  intro m'
  have hall : m' = { m with state := s' } := hm'
  rw [hall]
  refine ⟨?_, hs.blanks, rfl, rfl, ⟨x, y, c, hpointer, hcell, hnext⟩, fun n => ?_⟩
  · rcases hs with rfl | rfl
    · exact ⟨rfl, rfl, rfl, rfl, rfl, rfl⟩
    · exact ⟨rfl, rfl, rfl, rfl, rfl, rfl⟩
  · rw [language.steps_fixed hfixed, hrepeat]

/-- A program that asks for a number and finds a letter behind blanks. -/
def asking : Machine State :=
  ⟨{ State.fresh with field := fieldOf ["7&"], padding := padding ["7&"], input := " \tx" }, []⟩

theorem failing_step_changes_nothing_asking :
    language.load ⟨.fresh, []⟩ "7&" " \tx" = .ok asking ∧
      let m := (language.steps 2 asking).2
      m.state.stack = [7] ∧ m.state.input = " \tx" ∧ (language.step m).machine.state.stack = [7] ∧
        (language.step m).machine.state.input = "x" ∧
        ∀ n, ∃ r, r.error = some (.notADigit 'x') ∧ r.next = some (.cell 0 1) ∧
          (language.steps n (language.step m).machine).1 = List.replicate n (.ok r) := by
  have hload : language.load ⟨.fresh, []⟩ "7&" " \tx" = .ok asking := rfl
  have hstack : (language.steps 2 asking).2.state.stack = [7] := by decide +kernel
  have hinput : (language.steps 2 asking).2.state.input = " \tx" := by decide +kernel
  have hinput' : (language.step (language.steps 2 asking).2).machine.state.input = "x" := by
    decide +kernel
  have hr : (language.step (language.steps 2 asking).2).outcome =
      .ok ⟨.befunge [7] .right false, some (.cell 0 1), none, none, false, some (.notADigit 'x')⟩ :=
    Except.eq_ok_of_toOption (by decide +kernel)
  obtain ⟨⟨hstack', -⟩, -, -, -, -, hagain⟩ := failing_step_changes_nothing hr rfl
  exact ⟨hload, hstack, hinput, hstack'.trans hstack, hinput', fun n => ⟨_, rfl, rfl, hagain n⟩⟩

end Befunge

end Esolang
