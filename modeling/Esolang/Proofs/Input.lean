/-
  File:      Esolang/Proofs/Input.lean
  Subject:   What an attempt to read a number leaves of the input.

  * `Input.number_fault`: a number that cannot be read leaves the input without the blanks in front,
    where the next attempt fails in the same way.
  * `Input.blanks_in_front`: nothing but blanks is gone then.
-/
import Esolang.Input

namespace Esolang

/-- A number that cannot be read is asked for in vain once more: only blanks are gone. -/
theorem Input.number_fault {t : Text} {f : Fault} (h : (number t).outcome = .error (.fault f)) :
    number t = .fault f t.trimStart ∧ number t.trimStart = .fault f t.trimStart := by
  unfold number at h ⊢
  rw [Text.trimStart_trimStart]
  generalize t.trimStart = text at h ⊢
  cases text with
  | nil =>
    cases h
    exact ⟨rfl, rfl⟩
  | cons c cs =>
    simp only at h ⊢
    by_cases hdigit : c.isAsciiDigit = true
    · -- a row of digits can only be too long
      rw [if_pos hdigit] at h
      split at h
      · cases h
      · cases h
    · rw [if_neg hdigit] at h ⊢
      cases h
      exact ⟨rfl, rfl⟩

/-- An input that was left as it is, or trimmed in front, has lost nothing but blanks. -/
theorem Input.blanks_in_front {t rest : Text} (h : rest = t ∨ rest = t.trimStart) :
    ∃ blanks : Text, (∀ c ∈ blanks, c.isBlank = true) ∧ t = blanks ++ rest := by
  rcases h with rfl | rfl
  · exact ⟨[], fun c hc => absurd hc List.not_mem_nil, rfl⟩
  · exact ⟨t.takeWhile CodePoint.isBlank, List.all_eq_true.mp List.all_takeWhile,
      (Text.takeWhile_append_trimStart t).symm⟩

end Esolang
