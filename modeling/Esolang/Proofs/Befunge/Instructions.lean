/-
  File:      Esolang/Proofs/Befunge/Instructions.lean
  Subject:   The instruction under the pointer, and how it can fail.

  * `State.instruction?`: the instruction that the next step executes.
  * `Advances`, `advances`: what a step does, by the instruction it executes.
  * `Fails`: how each instruction can fail; `advance_fails`: a step fails in no other way.
-/
import Esolang.Proofs.Befunge.Bounds
import Esolang.Proofs.Number.Double

namespace Esolang.Befunge

/-! ## 1. The instruction of a step -/

/-- The instruction that the next step executes. There is none before the program begins, where a
    cell is data, and where a cell is no instruction. -/
def State.instruction? (s : State) : Option Instruction :=
  s.pointer.bind fun (x, y) =>
    (s.field.cell? x y).bind fun c =>
      if s.stringMode ∧ c ≠ '"' then none else Instruction.ofCodePoint? c

/-- What a step does, by the instruction it executes. -/
inductive Advances (m : Machine State) : Prop
  /-- The first step goes to the top left cell. -/
  | starts (hpointer : m.state.pointer = none)
      (h : advance m =
        .ok ⟨none, some m.state.padding, false, []⟩ { m with state.pointer := some (0, 0) })
  /-- The cell is data. -/
  | takes (c : CodePoint) (hnone : m.state.instruction? = none)
      (h : advance m = .ok .quiet { m with state := m.state.takeCell c })
  /-- The cell is no instruction. -/
  | refuses (hnone : m.state.instruction? = none) (h : advance m = .fault .notAnInstruction m)
  /-- The instruction is executed, and if it works the pointer moves. -/
  | performs (i : Instruction) (hi : m.state.instruction? = some i)
      (h : advance m = (perform m i).andThen fun effect m' =>
        .ok ⟨effect.output, effect.edit.map ([·]), effect.ended, []⟩
          { m' with state := m'.state.move })

theorem advances {m : Machine State} (hm : m.state.Placed) : Advances m := by
  cases hpointer : m.state.pointer with
  | none => exact .starts hpointer (by simp only [advance, hpointer])
  | some place =>
    obtain ⟨x, y⟩ := place
    obtain ⟨hx, hy⟩ := hm.pointer hpointer
    obtain ⟨c, hcell⟩ := hm.covers.cell hx hy
    have hinstruction : m.state.instruction? =
        if m.state.stringMode ∧ c ≠ '"' then none else Instruction.ofCodePoint? c := by
      simp only [State.instruction?, hpointer, Option.bind_some, hcell]
    by_cases hdata : m.state.stringMode ∧ c ≠ '"'
    · rw [if_pos hdata] at hinstruction
      exact .takes c hinstruction (by simp only [advance, hpointer, hcell, if_pos hdata])
    · rw [if_neg hdata] at hinstruction
      cases hi : Instruction.ofCodePoint? c with
      | none =>
        exact .refuses (hinstruction.trans hi)
          (by simp only [advance, hpointer, hcell, if_neg hdata, hi])
      | some i =>
        exact .performs i (hinstruction.trans hi)
          (by simp only [advance, hpointer, hcell, if_neg hdata, hi])

theorem advance_performs {m : Machine State} (hm : m.state.Placed) {i : Instruction}
    (hi : m.state.instruction? = some i) :
    advance m = (perform m i).andThen fun effect m' =>
      .ok ⟨effect.output, effect.edit.map ([·]), effect.ended, []⟩
        { m' with state := m'.state.move } := by
  cases advances hm with
  | starts hpointer h =>
    rw [State.instruction?, hpointer] at hi
    cases hi
  | takes c hnone h =>
    rw [hnone] at hi
    cases hi
  | refuses hnone h =>
    rw [hnone] at hi
    cases hi
  | performs i' hi' h =>
    obtain rfl := Option.some.inj (hi.symm.trans hi')
    exact h

/-! ## 2. Failures -/

/-- How an instruction can fail in a state. The values it works with are the topmost ones of the
    stack. -/
inductive Fails (s : State) : Instruction → Failure → Prop
  | divide (h : (pop2 s.stack).1 = 0) : Fails s .divide (.fault .zeroDivisor)
  | remainder (h : (pop2 s.stack).1 = 0) : Fails s .remainder (.fault .zeroDivisor)
  /-- One of the operands is beyond all doubles. -/
  | beyondDouble (h : Double.overflow ≤ (pop2 s.stack).1.natAbs ∨
        Double.overflow ≤ (pop2 s.stack).2.1.natAbs) :
      Fails s .remainder (.breakdown .beyondDouble)
  /-- The top is too long to be written, as a number or as a code that no character has. -/
  | longTop {i : Instruction} (hi : i = .writeNumber ∨ i = .writeCharacter)
      (h : Decimal.isLong (pop s.stack).1 = true) : Fails s i (.breakdown .longNumber)
  | noCharacter (v : Int) {i : Instruction} (hi : i = .writeCharacter ∨ i = .put)
      (h : CodePoint.ofInt? v = none) : Fails s i (.fault (.characterCode v))
  | longCode (h : Decimal.isLong (pop (pop2 s.stack).2.2).1 = true) :
      Fails s .put (.breakdown .longNumber)
  /-- The topmost two values, row and column, name no cell. -/
  | outsideField {i : Instruction} (hi : i = .get ∨ i = .put)
      (h : onField (pop2 s.stack).2.1 (pop2 s.stack).1 = false) : Fails s i (.fault .outsideField)
  | inputEnded : Fails s .readNumber (.fault .inputEnded)
  | notADigit (c : CodePoint) : Fails s .readNumber (.fault (.notADigit c))
  | longNumeral (digits : Nat) (h : Decimal.limit < digits) :
      Fails s .readNumber (.breakdown (.longNumeral digits))

theorem remainder?_eq_none {b a : Int} (h : Double.remainder? b a = none) :
    Double.overflow ≤ a.natAbs ∨ Double.overflow ≤ b.natAbs := by
  rw [← Double.ofInt?_eq_none_iff, ← Double.ofInt?_eq_none_iff]
  unfold Double.remainder? at h
  cases hb : Double.ofInt? b with
  | none => exact .inr rfl
  | some b' =>
    cases ha : Double.ofInt? a with
    | none => exact .inl rfl
    | some a' =>
      rw [hb, ha] at h
      cases h

theorem noCharacter_cases (n : Int) :
    (Decimal.isLong n = true ∧ Decimal.noCharacter n = .breakdown .longNumber) ∨
      Decimal.noCharacter n = .fault (.characterCode n) := by
  unfold Decimal.noCharacter
  cases Decimal.isLong n with
  | true => exact .inl ⟨rfl, rfl⟩
  | false => exact .inr rfl

theorem number_fails (s : State) {t : Text} {e : Failure}
    (he : (Input.number t).outcome = .error e) : Fails s .readNumber e := by
  unfold Input.number at he
  simp only at he
  split at he
  · cases he
    exact .inputEnded
  · split at he
    · unfold Decimal.read at he
      generalize Input.digitValues _ = digits at he
      by_cases hlimit : Decimal.limit < digits.length
      · rw [if_pos hlimit] at he
        cases he
        exact .longNumeral _ hlimit
      · rw [if_neg hlimit] at he
        cases he
    · cases he
      exact .notADigit _

section Failures

variable {s : State} {e : Failure}

theorem writeCell_fails (he : (writeCell s).outcome = .error e) : Fails s .put e := by
  unfold writeCell at he
  simp only at he
  split at he
  · split at he
    · cases he
    · next hnone =>
      have hcases := noCharacter_cases (pop (pop2 s.stack).2.2).1
      generalize Decimal.noCharacter (pop (pop2 s.stack).2.2).1 = failure at he hcases
      rcases hcases with ⟨hlong, rfl⟩ | rfl
      · cases he
        exact .longCode hlong
      · cases he
        exact .noCharacter _ (.inr rfl) hnone
  · next hoff =>
    cases he
    exact .outsideField (.inr rfl) (Bool.eq_false_iff.mpr hoff)

theorem readCell_fails (hs : s.field.Covers) (he : (readCell s).outcome = .error e) :
    Fails s .get e := by
  unfold readCell at he
  simp only at he
  split at he
  · next hon =>
    obtain ⟨hx, hy⟩ := onField_lt hon
    obtain ⟨c, hcell⟩ := hs.cell hx hy
    rw [hcell] at he
    cases he
  · next hoff =>
    cases he
    exact .outsideField (.inl rfl) (Bool.eq_false_iff.mpr hoff)

theorem execute_fails (hs : s.field.Covers) {i : Instruction}
    (he : (execute s i).outcome = .error e) : Fails s i e := by
  cases i with
  | get => exact readCell_fails hs he
  | put => exact writeCell_fails he
  | divide =>
    unfold execute at he
    simp only at he
    split at he
    · next hzero =>
      cases he
      exact .divide hzero
    · cases he
  | remainder =>
    unfold execute at he
    simp only at he
    split at he
    · next hzero =>
      cases he
      exact .remainder hzero
    · split at he
      · cases he
      · next hnone =>
        cases he
        exact .beyondDouble (remainder?_eq_none hnone)
  | writeNumber =>
    unfold execute Decimal.print at he
    simp only at he
    cases hlong : Decimal.isLong (pop s.stack).1 with
    | true =>
      rw [hlong] at he
      cases he
      exact .longTop (.inl rfl) hlong
    | false =>
      rw [hlong] at he
      cases he
  | writeCharacter =>
    unfold execute at he
    simp only at he
    split at he
    · cases he
    · next hnone =>
      have hcases := noCharacter_cases (pop s.stack).1
      generalize Decimal.noCharacter (pop s.stack).1 = failure at he hcases
      rcases hcases with ⟨hlong, rfl⟩ | rfl
      · cases he
        exact .longTop (.inr rfl) hlong
      · cases he
        exact .noCharacter _ (.inl rfl) hnone
  | readNumber =>
    unfold execute at he
    simp only at he
    split at he
    · cases he
    · next hinput =>
      cases he
      exact number_fails s hinput
  | _ => cases he

theorem perform_fails {m : Machine State} (hm : m.state.field.Covers) {i : Instruction}
    (he : (perform m i).outcome = .error e) : Fails m.state i e := by
  by_cases hrandom : i = .turnRandomly
  · subst hrandom
    cases he
  · rw [perform_eq m hrandom] at he
    exact execute_fails hm he

/-- **A step fails only where a cell is no instruction, or as its instruction can fail.** -/
theorem advance_fails {m : Machine State} (hm : m.state.Placed)
    (he : (advance m).outcome = .error e) :
    e = .fault .notAnInstruction ∨ ∃ i, m.state.instruction? = some i ∧ Fails m.state i e := by
  cases advances hm with
  | starts hpointer h =>
    rw [h] at he
    cases he
  | takes c hnone h =>
    rw [h] at he
    cases he
  | refuses hnone h =>
    rw [h] at he
    cases he
    exact .inl rfl
  | performs i hi h =>
    rw [h] at he
    cases ho : (perform m i).outcome with
    | error e' =>
      simp only [Attempt.andThen, ho] at he
      cases he
      exact .inr ⟨i, hi, perform_fails hm.covers ho⟩
    | ok effect =>
      simp only [Attempt.andThen, ho] at he
      cases he

end Failures

end Esolang.Befunge
