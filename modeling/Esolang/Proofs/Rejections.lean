/-
  File:      Esolang/Proofs/Rejections.lean
  Subject:   Every text is a program or is rejected at a place of its own.

  * `Brainfuck.parse_rejects`, `Befunge.layOut_rejects`: a bracket without a partner, and a text
    that does not fit the field, are named by a place of the source.
  * `Language.check_found`: checking a text finds out what is wrong with it.
  * `rejections_point_into_source`: all languages.
-/
import Esolang.Proofs.Brainfuck.Nesting
import Esolang.Proofs.Chef.Refusals
import Esolang.Registry

namespace Esolang

/-- Checking a text finds out what is wrong with it, if reading it can only reject it. -/
theorem Language.check_found {σ : Type} (L : Language σ) {code : Text}
    (h : ∀ e, L.read code = .error e → ∃ why, e = .rejected why ∧ why.span.PointsInto code.lines) :
    ∃ found, L.check code = .ok found ∧ ∀ r, found = some r → r.span.PointsInto code.lines := by
  unfold check
  cases hread : L.read code with
  | ok start =>
    refine ⟨none, rfl, fun r hr => ?_⟩
    cases hr
  | error e =>
    obtain ⟨why, rfl, hwhy⟩ := h e hread
    refine ⟨some why, rfl, fun r hr => ?_⟩
    cases hr
    exact hwhy

namespace Brainfuck

theorem placed_pointsInto {code : Text} {c : Placed Command}
    (h : c ∈ placed Command.ofCodePoint? code) : c.span.PointsInto code.lines := by
  obtain ⟨char, hchar, -⟩ := charAt_of_mem_placed h
  obtain ⟨line, hline, hcol⟩ := Option.bind_eq_some_iff.mp hchar
  exact pointsInto_of_lt hline (List.getElem?_eq_some_iff.mp hcol).1 _ _

theorem Draft.addAll_rejects {cs : List (Placed Command)} {d : Draft} {why : Rejection}
    (h : d.addAll cs = .error why) : ∃ c ∈ cs, why.span = c.span := by
  induction cs generalizing d with
  | nil => cases h
  | cons c rest ih =>
    rw [Draft.addAll] at h
    split at h
    · obtain ⟨c', hc', hspan⟩ := ih h
      exact ⟨c', List.mem_cons_of_mem c hc', hspan⟩
    · next e hadd =>
      cases h
      refine ⟨c, List.mem_cons_self, ?_⟩
      -- of all commands only a closing bracket can be wrong where it stands
      unfold Draft.add at hadd
      simp only at hadd
      split at hadd
      · cases hadd
      · split at hadd
        · cases hadd
          rfl
        · cases hadd
      · cases hadd

/-- A bracket without a partner is named by its place. -/
theorem parse_rejects {code : Text} {why : Rejection} (h : parse code = .error why) :
    why.span.PointsInto code.lines := by
  unfold parse at h
  split at h
  · next d hd =>
    have hempty : (Draft.mk [] []).Nested := ⟨.done, [], rfl, rfl⟩
    obtain ⟨-, hcommands⟩ := Draft.addAll_nested hempty hd
    unfold Draft.finish at h
    split at h
    · cases h
    · split at h
      · next i hi =>
        cases h
        have hmem : i.command ∈ d.instructions.map (·.command) :=
          List.mem_map_of_mem (List.mem_of_getElem? hi)
        rw [hcommands] at hmem
        exact placed_pointsInto hmem
      · cases h
  · next e he =>
    cases h
    obtain ⟨c, hc, hspan⟩ := Draft.addAll_rejects he
    rw [hspan]
    exact placed_pointsInto hc

end Brainfuck

namespace Befunge

/-- A text that does not fit the field is rejected at the first line or column that is too much. -/
theorem layOut_rejects {code : Text} {why : Rejection} (h : layOut code = .error why) :
    why.span.PointsInto code.lines := by
  unfold layOut at h
  simp only at h
  split at h
  · next hlines =>
    cases h
    exact pointsInto_line (List.getElem?_eq_getElem hlines)
  · split at h
    · next row hrow =>
      cases h
      obtain ⟨hlt, hlong, -⟩ := List.findIdx?_eq_some_iff_getElem.mp hrow
      exact pointsInto_of_lt (List.getElem?_eq_getElem hlt) (of_decide_eq_true hlong) _ _
    · cases h

end Befunge

/-- **Every text is a program of a language, or it is rejected at a place of its own.** For all four
    languages and every text: checking it finds nothing wrong or gives a rejection, which points at
    a line of the text and, if at a column, at a column of that line; the first column counts as one
    even of an empty line. The single exception is a row of more than 4300 digits somewhere in a
    text that is read as Chef: then reading can break down, and says how many digits the row has. -/
theorem rejections_point_into_source (id : LanguageId) (code : Text) :
    (∃ found, id.language.check code = .ok found ∧ ∀ r, found = some r →
      r.span.PointsInto code.lines) ∨
      id = .chef ∧ ∃ run : Text, run <:+: code ∧ (∀ c ∈ run, c.isDigit = true) ∧
        Decimal.limit < run.length ∧ id.language.check code = .error (.longNumeral run.length) := by
  cases id with
  | befunge93 =>
    refine .inl (Befunge.language.check_found fun e he => ?_)
    simp only [Befunge.language] at he
    split at he
    · cases he
    · next why hwhy =>
      cases he
      exact ⟨why, rfl, Befunge.layOut_rejects hwhy⟩
  | brainfuck =>
    refine .inl (Brainfuck.language.check_found fun e he => ?_)
    simp only [Brainfuck.language] at he
    split at he
    · cases he
    · next why hwhy =>
      cases he
      exact ⟨why, rfl, Brainfuck.parse_rejects hwhy⟩
  | deadfish =>
    refine .inl (Deadfish.language.check_found fun e he => ?_)
    cases he
  | chef =>
    have hreads := Chef.parse_reads code
    cases hparse : Chef.parse code with
    | ok program =>
      refine .inl (Chef.language.check_found fun e he => ?_)
      simp only [Chef.language, hparse] at he
      cases he
    | error e =>
      rw [hparse] at hreads
      cases e with
      | rejected why =>
        refine .inl (Chef.language.check_found fun e he => ?_)
        simp only [Chef.language, hparse] at he
        cases he
        exact ⟨why, rfl, hreads⟩
      | broken b =>
        obtain ⟨line, hline, n, ⟨run, hrun, hdigits, rfl, hlong⟩, rfl⟩ := hreads
        refine .inr ⟨rfl, run, hrun.trans (Text.infix_of_mem_lines hline), hdigits, hlong, ?_⟩
        show Chef.language.check code = _
        simp only [Language.check, Chef.language, hparse]

end Esolang
