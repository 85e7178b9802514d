/-
  File:      Esolang/Proofs/Befunge/Remainder.lean
  Subject:   The remainder of two integers that are doubles.

  The remainder is computed with doubles, so its operands are rounded first. Where both are doubles
  already, nothing is lost: the remainder is exact. It has the sign of the dividend, unlike the
  remainder that belongs to the quotient of `/`, which is rounded down.

  * `IsRemainder`: what is left of a division whose quotient is rounded towards zero.
  * `step_remainder`: the step that takes a remainder.
  * `remainder_exact`: the remainder of all integers that are doubles.
-/
import Esolang.Befunge.Machine
import Esolang.Proofs.Number.Double

namespace Esolang.Befunge

/-- What is left of `b` when it is divided by `a` and the quotient is rounded towards zero. -/
structure IsRemainder (b a r : Int) : Prop where
  quotient : ∃ q, b = a * q + r
  smaller : r.natAbs < a.natAbs
  sign : r = 0 ∨ r.sign = b.sign

theorem isRemainder_tmod (b : Int) {a : Int} (ha : a ≠ 0) : IsRemainder b a (b.tmod a) where
  quotient := ⟨b.tdiv a, (Int.mul_tdiv_add_tmod b a).symm⟩
  smaller := by
    rw [Int.natAbs_tmod]
    exact Nat.mod_lt _ (Int.natAbs_pos.mpr ha)
  sign := by
    by_cases hdvd : a ∣ b
    · exact .inl (Int.tmod_eq_zero_of_dvd hdvd)
    · exact .inr (by rw [Int.sign_tmod, if_neg hdvd])

section Step

variable {m : Machine State} {x y : Nat} {a b r : Int} {rest : List Int}

theorem advance_remainder (hpointer : m.state.pointer = some (x, y))
    (hcell : m.state.field.cell? x y = some (.ofChar '%')) (hmode : m.state.stringMode = false)
    (hstack : pop2 m.state.stack = (a, b, rest)) (ha : a ≠ 0)
    (hr : Double.remainder? b a = some r) :
    advance m = .ok .quiet { m with state := (m.state.withStack (r :: rest)).move } := by
  have hinstruction : Instruction.ofCodePoint? (.ofChar '%') = some .remainder := rfl
  have hdata : ¬ (m.state.stringMode = true ∧ CodePoint.ofChar '%' ≠ '"') := by
    rw [hmode]
    exact fun h => absurd h.1 Bool.false_ne_true
  have hexecute : execute m.state .remainder = .ok .none (m.state.withStack (r :: rest)) := by
    unfold execute
    simp only [hstack, if_neg ha, hr]
  simp only [advance, hpointer, hcell, if_neg hdata, hinstruction, perform, hexecute]
  rfl

/-- The step replaces the two topmost values and moves on, and nothing else happens. -/
theorem step_remainder (hpointer : m.state.pointer = some (x, y))
    (hcell : m.state.field.cell? x y = some (.ofChar '%')) (hmode : m.state.stringMode = false)
    (hstack : pop2 m.state.stack = (a, b, rest)) (ha : a ≠ 0)
    (hr : Double.remainder? b a = some r) :
    let s := (m.state.withStack (r :: rest)).move
    language.step m = ⟨.ok ⟨language.display s, language.location s, none, none, false, none⟩,
      ⟨s, m.draws⟩, []⟩ := by
  intro s
  have hadvance : language.advance m = .ok .quiet ⟨s, m.draws⟩ :=
    advance_remainder hpointer hcell hmode hstack ha hr
  unfold Language.step
  rw [hadvance]
  rfl

end Step

/-- **The remainder is exact wherever doubles can represent the operands.** Rounding leaves exactly
    those integers as they are that have at most 53 significant bits and are below 2^1024 in
    magnitude, so all up to 2^53. If the two topmost values of the stack are such integers and the
    top is not zero, `%` replaces them, without an error, by the remainder that has the sign of the
    lower one. -/
theorem remainder_exact :
    (∀ n : Int, Double.ofInt? n = some n ↔ Double.Representable n) ∧
      (∀ n : Int, n.natAbs ≤ 2 ^ 53 → Double.Representable n) ∧
      ∀ (m : Machine State) (x y : Nat) (a b : Int) (rest : List Int),
        m.state.pointer = some (x, y) →
        m.state.field.cell? x y = some (.ofChar '%') → m.state.stringMode = false →
        pop2 m.state.stack = (a, b, rest) → a ≠ 0 → Double.Representable a →
        Double.Representable b → ∃ r, IsRemainder b a r ∧
          let s := (m.state.withStack (r :: rest)).move
          language.step m =
            ⟨.ok ⟨language.display s, language.location s, none, none, false, none⟩, ⟨s, m.draws⟩,
              []⟩ := by
  refine ⟨Double.ofInt?_eq_self_iff, fun n hn => Double.representable_of_natAbs_le hn,
    fun m x y a b rest hpointer hcell hmode hstack ha hra hrb =>
      ⟨b.tmod a, isRemainder_tmod b ha, ?_⟩⟩
  exact step_remainder hpointer hcell hmode hstack ha (Double.remainder?_of_representable hrb hra)

/-- The remainder of a negative number of 61 bits, the last eight of them zero, by a thousand. -/
def dividing : Machine State :=
  ⟨{ State.fresh with
      field := fieldOf ["%"], stack := [1000, -1152921504606847232], pointer := some (0, 0) }, []⟩

/-- The remainder is negative, as the dividend is. -/
theorem remainder_exact_dividing :
    Double.Representable 1000 ∧ Double.Representable (-1152921504606847232) ∧
      IsRemainder (-1152921504606847232) 1000 (-232) ∧
      (language.step dividing).machine.state.stack = [-232] ∧
      ∃ r, (language.step dividing).outcome = .ok r ∧ r.error = none := by
  have hdivisor : Double.Representable 1000 := remainder_exact.2.1 1000 (by decide)
  have hdividend : Double.Representable (-1152921504606847232) :=
    ⟨⟨2 ^ 52 + 1, 8, by decide, by decide⟩, by decide +kernel⟩
  obtain ⟨r, hr, hstep⟩ :=
    remainder_exact.2.2 dividing 0 0 1000 (-1152921504606847232) [] rfl rfl rfl rfl
      (by decide) hdivisor hdividend
  have hstack : (language.step dividing).machine.state.stack = [r] := by
    rw [hstep]
    rfl
  have hvalue : (language.step dividing).machine.state.stack = [-232] := by decide +kernel
  obtain rfl : r = -232 := (List.cons.inj (hstack.symm.trans hvalue)).1
  exact ⟨hdivisor, hdividend, hr, hvalue, _, congrArg Turn.outcome hstep, rfl⟩

end Esolang.Befunge
