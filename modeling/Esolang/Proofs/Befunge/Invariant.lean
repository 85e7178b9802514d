/-
  File:      Esolang/Proofs/Befunge/Invariant.lean
  Subject:   What holds of the machine after any number of steps, and what can still break a step
             down.

  The field is full and covered by its extents, and the pointer stands on it, within the occupied
  part along its way. So every cell the machine looks up is there, and of all breakdowns only those
  of numbers remain.

  * `Breaks`: the breakdowns that remain, each with its instruction and its number.
  * `machine_stays_intact`: all this after any number of steps.
-/
import Esolang.Proofs.Befunge.Instructions
import Esolang.Proofs.Lists

namespace Esolang.Befunge

/-! ## 1. Breakdowns -/

/-- The breakdowns that remain: a remainder with an operand beyond all doubles, a number that is too
    long to be written, and a row of digits that is too long to be read. -/
def Breaks (s : State) : Breakdown → Prop
  | .beyondDouble =>
    s.instruction? = some .remainder ∧
      (Double.overflow ≤ (pop2 s.stack).1.natAbs ∨ Double.overflow ≤ (pop2 s.stack).2.1.natAbs)
  | .longNumber =>
    (∃ i, s.instruction? = some i ∧ (i = .writeNumber ∨ i = .writeCharacter ∨ i = .put)) ∧
      ∃ v ∈ s.stack, Decimal.isLong v = true
  | .longNumeral digits => s.instruction? = some .readNumber ∧ Decimal.limit < digits
  | _ => False

theorem isLong_zero : Decimal.isLong 0 = false := by decide +kernel

theorem pop_mem {stack : List Int} (h : Decimal.isLong (pop stack).1 = true) :
    (pop stack).1 ∈ stack := by
  cases stack with
  | nil =>
    rw [pop, isLong_zero] at h
    cases h
  | cons v rest => exact List.mem_cons_self

theorem mem_of_mem_pop {stack : List Int} {v : Int} (h : v ∈ (pop stack).2) : v ∈ stack := by
  cases stack with
  | nil => exact h
  | cons w rest => exact List.mem_cons_of_mem w h

theorem Fails.breaks {s : State} {i : Instruction} {b : Breakdown} (hi : s.instruction? = some i)
    (h : Fails s i (.breakdown b)) : Breaks s b := by
  cases h with
  | beyondDouble h => exact ⟨hi, h⟩
  | longTop hi' h => exact ⟨⟨i, hi, hi'.imp_right .inl⟩, _, pop_mem h, h⟩
  | longCode h =>
    exact ⟨⟨_, hi, .inr (.inr rfl)⟩, _, mem_of_mem_pop (mem_of_mem_pop (pop_mem h)), h⟩
  | longNumeral digits h => exact ⟨hi, h⟩

section Steps

variable {m : Machine State} (hm : m.state.Placed)
include hm

theorem advance_meets : (language.advance m).Meets (fun _ _ => True) fun e =>
    e = .fault .notAnInstruction ∨ ∃ i, m.state.instruction? = some i ∧ Fails m.state i e := by
  unfold Attempt.Meets
  cases ho : (language.advance m).outcome with
  | ok p => trivial
  | error e => exact advance_fails hm ho

/-- A missing cell is reported by `g` and `p` alone, and it is the cell that their operands name. -/
theorem step_outsideField {r : StepResult} (hr : (language.step m).outcome = .ok r)
    (herror : r.error = some .outsideField) :
    (m.state.instruction? = some .get ∨ m.state.instruction? = some .put) ∧
      onField (pop2 m.state.stack).2.1 (pop2 m.state.stack).1 = false := by
  rcases language.step_cases (advance_meets hm) with
    ⟨p, r', hr', hnone, -⟩ | ⟨f, r', hr', hf, hfails⟩ | ⟨b, hb, -⟩
  · obtain rfl := Except.ok.inj (hr.symm.trans hr')
    rw [hnone] at herror
    cases herror
  · obtain rfl := Except.ok.inj (hr.symm.trans hr')
    obtain rfl := Option.some.inj (hf.symm.trans herror)
    rcases hfails with hfails | ⟨i, hi, hfails⟩
    · cases hfails
    · cases hfails with
      | outsideField hi' hoff =>
        rw [hi]
        exact ⟨hi'.imp (congrArg some) (congrArg some), hoff⟩
  · rw [hr] at hb
    cases hb

theorem step_breaks {b : Breakdown} (hb : (language.step m).outcome = .error b) :
    Breaks m.state b := by
  rcases language.step_cases (advance_meets hm) with ⟨p, r, hr, -⟩ | ⟨f, r, hr, -⟩ |
    ⟨b', hb', hfails⟩
  · rw [hb] at hr
    cases hr
  · rw [hb] at hr
    cases hr
  · obtain rfl := Except.error.inj (hb.symm.trans hb')
    rcases hfails with hfails | ⟨i, hi, hfails⟩
    · cases hfails
    · exact hfails.breaks hi

end Steps

/-! ## 2. All states -/

theorem fits_steps {m m₀ : Machine State} {code input : Text}
    (hload : language.load m code input = .ok m₀) (n : Nat) : (language.steps n m₀).2.state.Fits :=
  language.steps_invariant (P := fun m => m.state.Fits) (fun _ h => h.step) (fits_load hload) n

/-- After the first step the pointer is there for good. -/
theorem pointer_ne_none {m : Machine State} (h : m.state.pointer ≠ none) :
    (language.step m).machine.state.pointer ≠ none := by
  rw [language_step]
  cases acts m with
  | starts hpointer hall => exact absurd hpointer h
  | stays e m' hall hpointer hfield hdirection hmode =>
    rw [hall]
    exact hpointer ▸ h
  | moves p m' hall hpointer hcell hstill hfield hblank =>
    rw [hall]
    simp [Attempt.ok, State.move, hstill, h]
  | bridges hall hpointer hcell hmode =>
    rw [hall]
    simp [Attempt.ok, State.move, h]

theorem pointer_steps {m : Machine State} {n : Nat} (hn : 0 < n) :
    (language.steps n m).2.state.pointer ≠ none := by
  obtain ⟨n, rfl⟩ := Nat.exists_eq_succ_of_ne_zero (Nat.ne_of_gt hn)
  refine language.steps_invariant (P := fun m => m.state.pointer ≠ none)
    (fun _ h => pointer_ne_none h) ?_ n
  by_cases hpointer : m.state.pointer = none
  · rw [Language.step_machine]
    simp [language, advance, hpointer, Attempt.ok]
  · exact pointer_ne_none hpointer

theorem onField_of_lt {x y : Nat} (hx : x < columns) (hy : y < rowCount) : onField x y = true := by
  simp only [onField, Bool.and_eq_true, decide_eq_true_eq]
  omega

/-- **The machine stays intact.** For every source that can be loaded, every input and all draws,
    and after any number of steps, whatever became of them: the field has all its rows and columns,
    the extents stay within them, and every cell beyond the extent of its row or of its column is
    blank. Once the first step is taken, the pointer stands on a cell of the field, and outside
    string mode within the occupied part along its way; it is still on the field when it has moved
    on, as a bridge moves it. So the next step finds the cell it executes. A cell outside the field
    is reported for operands of `g` and `p` alone, and a step gives no result only for a remainder
    with an operand beyond all doubles and for numbers of more than 4300 digits. -/
theorem machine_stays_intact {m m₀ : Machine State} {code input : Text}
    (hload : language.load m code input = .ok m₀) (n : Nat) :
    let last := (language.steps n m₀).2
    let s := last.state
    (s.field.rows.length = rowCount ∧ ∀ row ∈ s.field.rows, row.length = columns) ∧
    (s.field.rowExtents.length = rowCount ∧ ∀ extent ∈ s.field.rowExtents, extent ≤ columns) ∧
    (s.field.columnExtents.length = columns ∧ ∀ extent ∈ s.field.columnExtents, extent ≤ rowCount) ∧
    (∀ x y, x < columns → y < rowCount → s.field.rowExtent y ≤ x ∨ s.field.columnExtent x ≤ y →
      s.field.cell? x y = some Text.space) ∧
    (0 < n → s.pointer ≠ none) ∧
    (∀ x y, s.pointer = some (x, y) →
      onField x y = true ∧ (∃ c, s.field.cell? x y = some c) ∧
        (s.stringMode = false → s.field.Along s.direction x y)) ∧
    (∀ x y, s.move.pointer = some (x, y) → onField x y = true) ∧
    (∀ r, (language.step last).outcome = .ok r → r.error = some .outsideField →
      (s.instruction? = some .get ∨ s.instruction? = some .put) ∧
        onField (pop2 s.stack).2.1 (pop2 s.stack).1 = false) ∧
    ∀ b, (language.step last).outcome = .error b → Breaks s b := by
  intro last s
  have hfits : s.Fits := fits_steps hload n
  have hcovers : s.field.Covers := hfits.covers
  refine ⟨⟨hcovers.rows, hcovers.row⟩,
    ⟨hcovers.rowExtents, List.forall_mem_le_iff.mpr hcovers.rowExtent_le⟩,
    ⟨hcovers.columnExtents, List.forall_mem_le_iff.mpr hcovers.columnExtent_le⟩,
    fun x y hx hy hbeyond => ?_, pointer_steps,
    fun x y hpointer => ?_, fun x y hpointer => ?_, fun r hr => step_outsideField hfits.toPlaced hr,
    fun b hb => step_breaks hfits.toPlaced hb⟩
  · rcases hbeyond with hbeyond | hbeyond
    · exact hcovers.blank_of_rowExtent_le hx hy hbeyond
    · exact hcovers.blank_of_columnExtent_le hx hy hbeyond
  · obtain ⟨hx, hy⟩ := hfits.pointer hpointer
    exact ⟨onField_of_lt hx hy, hcovers.cell hx hy, hfits.along hpointer⟩
  · obtain ⟨hx, hy⟩ := hfits.toPlaced.move.pointer hpointer
    exact onField_of_lt hx hy

/-- A program that writes a cell below itself and then passes over its own end. -/
def widening : Machine State :=
  ⟨{ State.fresh with field := fieldOf ["\"A\"92p#@%"], padding := padding ["\"A\"92p#@%"] }, []⟩

theorem machine_stays_intact_widening :
    language.load ⟨.fresh, []⟩ "\"A\"92p#@%" [] = .ok widening ∧
      let s := (language.steps 8 widening).2.state
      s.pointer = some (8, 0) ∧ s.field.rowExtent 2 = 10 ∧
        s.field.cell? 9 2 = some (CodePoint.ofChar 'A') ∧
        s.field.cell? 10 2 = some Text.space ∧ onField 8 0 = true ∧ s.field.Along s.direction 8 0 ∧
        ∀ b, (language.step (language.steps 8 widening).2).outcome = .error b → Breaks s b := by
  have hload : language.load ⟨.fresh, []⟩ "\"A\"92p#@%" [] = .ok widening := rfl
  have hpointer : (language.steps 8 widening).2.state.pointer = some (8, 0) := by decide +kernel
  have hmode : (language.steps 8 widening).2.state.stringMode = false := by decide +kernel
  have hextent : (language.steps 8 widening).2.state.field.rowExtent 2 = 10 := by decide +kernel
  have hcell : (language.steps 8 widening).2.state.field.cell? 9 2 =
      some (CodePoint.ofChar 'A') := by
    decide +kernel
  obtain ⟨-, -, -, hblank, -, hplace, -, -, hbreaks⟩ := machine_stays_intact hload 8
  obtain ⟨hon, -, halong⟩ := hplace 8 0 hpointer
  exact ⟨hload, hpointer, hextent, hcell, hblank 10 2 (by decide) (by decide)
    (.inl (Nat.le_of_eq hextent)), hon,
    halong hmode, hbreaks⟩

end Esolang.Befunge
