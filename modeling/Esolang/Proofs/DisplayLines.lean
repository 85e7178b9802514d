/-
  File:      Esolang/Proofs/DisplayLines.lean
  Subject:   The lines of a text that are counted, and those that are displayed.

  Lines are counted between line feeds, but a displayed line ends at other boundaries too. So a
  counted line may be displayed as several lines, and then all lines below it are displayed under
  later numbers than their own.

  * `displayLinesFrom_boundary`, `displayLinesFrom_letter`: what one code point does to the
    displayed lines.
  * `displayLinesFrom_line`: a counted line is displayed as one or more lines; `OneLine`: as one.
  * `displayLines_none`: something is displayed at every line's number, unless the line is the last
    one and empty.
  * `displayLines_some`: what is displayed at a line's number, behind lines that are displayed as
    one each.
-/
import Esolang.Proofs.Text
import Esolang.Text.Lines

namespace Esolang.Text

/-! ## 1. One displayed line after another -/

theorem displayLinesFrom_letter {c : CodePoint} (h : c.isLineBoundary = false) (begun cs : Text) :
    displayLinesFrom begun (c :: cs) = displayLinesFrom (c :: begun) cs := by
  have hreturn : c ≠ '\r' := by
    rintro rfl
    cases h
  rw [displayLinesFrom.eq_def]
  simp only [if_neg hreturn, if_neg (Bool.eq_false_iff.mp h)]

/-- A boundary ends the line that has begun, a carriage return together with a line feed behind
    it. -/
theorem displayLinesFrom_boundary {c : CodePoint} (h : c.isLineBoundary = true) (begun cs : Text) :
    ∃ rest, (cs = rest ∨ c = '\r' ∧ cs = newline :: rest) ∧
      displayLinesFrom begun (c :: cs) = begun.reverse :: displayLines rest := by
  rw [displayLinesFrom.eq_def]
  by_cases hreturn : c = '\r'
  · simp only [if_pos hreturn]
    cases cs with
    | nil => exact ⟨[], .inl rfl, rfl⟩
    | cons d ds =>
      by_cases hd : d = '\n'
      · exact ⟨ds, .inr ⟨hreturn, congrArg (· :: ds) hd⟩, if_pos hd⟩
      · exact ⟨d :: ds, .inl rfl, if_neg hd⟩
  · simp only [if_neg hreturn, if_pos h]
    exact ⟨cs, .inl rfl, rfl⟩

theorem displayLinesFrom_newline (begun rest : Text) :
    displayLinesFrom begun (newline :: rest) = begun.reverse :: displayLines rest := by
  obtain ⟨rest', hrest, hlines⟩ := displayLinesFrom_boundary (c := newline) rfl begun rest
  obtain rfl : rest = rest' := hrest.resolve_right fun hpair => absurd hpair.1 (by decide)
  exact hlines

/-- No boundary is displayed. -/
theorem displayLinesFrom_clear {begun t : Text} (h : ∀ c ∈ begun, c.isLineBoundary = false) :
    ∀ shown ∈ displayLinesFrom begun t, ∀ c ∈ shown, c.isLineBoundary = false := by
  fun_induction displayLinesFrom begun t with
  | case1 begun hempty => exact fun shown hshown => absurd hshown List.not_mem_nil
  | case2 begun hempty => simpa using h
  | case3 begun => simpa using h
  | case4 begun ds ih => exact List.forall_mem_cons.mpr ⟨by simpa using h, ih (by simp)⟩
  | case5 begun d ds hd ih => exact List.forall_mem_cons.mpr ⟨by simpa using h, ih (by simp)⟩
  | case6 begun c cs hreturn hc ih =>
    exact List.forall_mem_cons.mpr ⟨by simpa using h, ih (by simp)⟩
  | case7 begun c cs hreturn hc ih =>
    exact ih (List.forall_mem_cons.mpr ⟨Bool.eq_false_iff.mpr hc, h⟩)

/-- The first displayed line reaches up to the first boundary. -/
theorem displayLinesFrom_head {begun t shown : Text}
    (h : (displayLinesFrom begun t).head? = some shown) :
    shown = begun.reverse ++ t.takeWhile (!·.isLineBoundary) := by
  induction t generalizing begun with
  | nil =>
    unfold displayLinesFrom at h
    split at h
    · cases h
    · cases h
      rw [List.takeWhile_nil, List.append_nil]
  | cons c cs ih =>
    cases hc : c.isLineBoundary with
    | false =>
      rw [displayLinesFrom_letter hc] at h
      rw [ih h, List.takeWhile_cons_of_pos (by rw [hc]; rfl), List.reverse_cons, List.append_assoc]
      rfl
    | true =>
      obtain ⟨rest, -, hlines⟩ := displayLinesFrom_boundary hc begun cs
      rw [hlines] at h
      cases h
      rw [List.takeWhile_cons_of_neg (by rw [hc]; decide), List.append_nil]

theorem displayLinesFrom_ne_nil {begun t : Text} (h : begun ≠ [] ∨ t ≠ []) :
    displayLinesFrom begun t ≠ [] := by
  induction t generalizing begun with
  | nil =>
    unfold displayLinesFrom
    split
    · next hempty => exact absurd (List.isEmpty_iff.mp hempty) (h.resolve_right (· rfl))
    · exact List.cons_ne_nil _ _
  | cons c cs ih =>
    cases hc : c.isLineBoundary with
    | false =>
      rw [displayLinesFrom_letter hc]
      exact ih (.inl (List.cons_ne_nil _ _))
    | true =>
      obtain ⟨rest, -, hlines⟩ := displayLinesFrom_boundary hc begun cs
      rw [hlines]
      exact List.cons_ne_nil _ _

/-! ## 2. Counted lines -/

/-- A counted line is displayed as one or more lines, in front of those of the other counted
    lines. -/
theorem displayLinesFrom_line {l : Text} (h : newline ∉ l) (begun rest : Text) :
    ∃ first more, displayLinesFrom begun (l ++ newline :: rest) =
      first :: (more ++ displayLines rest) := by
  induction l generalizing begun with
  | nil => exact ⟨begun.reverse, [], displayLinesFrom_newline begun rest⟩
  | cons c cs ih =>
    have hcs : newline ∉ cs := fun hmem => h (List.mem_cons_of_mem c hmem)
    rw [List.cons_append]
    cases hc : c.isLineBoundary with
    | false =>
      rw [displayLinesFrom_letter hc]
      exact ih hcs _
    | true =>
      obtain ⟨rest', hrest, hlines⟩ := displayLinesFrom_boundary hc begun (cs ++ newline :: rest)
      rw [hlines]
      rcases hrest with rfl | ⟨-, hpair⟩
      · obtain ⟨first, more, hmore⟩ := ih hcs []
        exact ⟨begun.reverse, first :: more, congrArg (begun.reverse :: ·) hmore⟩
      · cases cs with
        | nil =>
          cases hpair
          exact ⟨begun.reverse, [], rfl⟩
        | cons d ds =>
          cases hpair
          exact absurd List.mem_cons_self hcs

/-- A counted line that is displayed as one: it has no boundary in it, apart from a carriage return
    at its end. -/
def OneLine (l : Text) : Prop :=
  ∃ body : Text, (l = body ∨ l = body ++ [CodePoint.ofChar '\r']) ∧
    ∀ c ∈ body, c.isLineBoundary = false

theorem displayLinesFrom_body {body : Text} (h : ∀ c ∈ body, c.isLineBoundary = false)
    (begun rest : Text) :
    displayLinesFrom begun (body ++ rest) = displayLinesFrom (body.reverse ++ begun) rest := by
  induction body generalizing begun with
  | nil => rfl
  | cons c cs ih =>
    obtain ⟨hc, hcs⟩ := List.forall_mem_cons.mp h
    rw [List.cons_append, displayLinesFrom_letter hc, ih hcs, List.reverse_cons, List.append_assoc]
    rfl

theorem OneLine.displayLines_eq {l : Text} (h : l.OneLine) (rest : Text) :
    ∃ first, displayLines (l ++ newline :: rest) = first :: displayLines rest := by
  obtain ⟨body, hl, hbody⟩ := h
  refine ⟨body.reverse.reverse, ?_⟩
  unfold displayLines
  rcases hl with rfl | rfl
  · rw [displayLinesFrom_body hbody, List.append_nil]
    exact displayLinesFrom_newline _ _
  · rw [List.append_assoc, displayLinesFrom_body hbody, List.append_nil]
    rfl

/-- A proof for every text, line by line: for the last line, and for a line in front of a text. -/
@[elab_as_elim]
theorem lines_induction {motive : Text → Prop} (last : ∀ t : Text, newline ∉ t → motive t)
    (line : ∀ l rest : Text, newline ∉ l → motive rest → motive (l ++ newline :: rest)) (t : Text) :
    motive t := by
  suffices h : ∀ l, newline ∉ l → motive (l ++ t) from h [] List.not_mem_nil
  induction t with
  | nil =>
    intro l hl
    rw [List.append_nil]
    exact last l hl
  | cons c cs ih =>
    intro l hl
    by_cases hc : c = newline
    · subst hc
      exact line l cs hl (ih [] List.not_mem_nil)
    · rw [List.append_cons]
      refine ih (l ++ [c]) fun hmem => ?_
      rcases List.mem_append.mp hmem with hmem | hmem
      · exact hl hmem
      · exact hc (List.mem_singleton.mp hmem).symm

/-- **Something is displayed at the number of every counted line,** unless it is the last one and
    empty. -/
theorem displayLines_none {t line : Text} {row : Nat} (hline : t.lines[row]? = some line)
    (h : t.displayLines[row]? = none) : row + 1 = t.lines.length ∧ line = [] := by
  unfold lines at hline ⊢
  induction t using lines_induction generalizing row with
  | last t ht =>
    rw [splitOn_of_not_mem ht] at hline ⊢
    cases row with
    | zero =>
      cases hline
      refine ⟨rfl, Decidable.byContradiction fun hne => ?_⟩
      have hempty : displayLines line = [] := by
        rw [← List.head?_eq_none_iff, List.head?_eq_getElem?]
        exact h
      exact displayLinesFrom_ne_nil (.inr hne) hempty
    | succ row => cases hline
  | line l rest hl ih =>
    obtain ⟨first, more, hlines⟩ := displayLinesFrom_line hl [] rest
    rw [displayLines, hlines] at h
    rw [splitOn_append hl] at hline ⊢
    cases row with
    | zero => cases h
    | succ row =>
      have hrest : rest.displayLines[row]? = none := by
        rw [List.getElem?_eq_none_iff, List.length_cons, List.length_append] at h
        rw [List.getElem?_eq_none_iff]
        omega
      obtain ⟨hrow, hempty⟩ := ih hline hrest
      exact ⟨congrArg (· + 1) hrow, hempty⟩

/-- **Behind lines that are displayed as one each, a counted line is displayed at its number, up to
    the first boundary in it.** -/
theorem displayLines_some {t line shown : Text} {row : Nat} (hline : t.lines[row]? = some line)
    (hearlier : ∀ earlier ∈ t.lines.take row, earlier.OneLine)
    (h : t.displayLines[row]? = some shown) : shown = line.takeWhile (!·.isLineBoundary) := by
  unfold lines at hline hearlier
  induction t using lines_induction generalizing row with
  | last t ht =>
    rw [splitOn_of_not_mem ht] at hline
    cases row with
    | zero =>
      cases hline
      rw [← List.head?_eq_getElem?] at h
      exact displayLinesFrom_head h
    | succ row => cases hline
  | line l rest hl ih =>
    rw [splitOn_append hl] at hline hearlier
    cases row with
    | zero =>
      cases hline
      rw [← List.head?_eq_getElem?] at h
      rw [displayLinesFrom_head h, List.reverse_nil, List.nil_append, List.takeWhile_append]
      split
      · next hall =>
        rw [List.takeWhile_cons_of_neg (by decide), List.append_nil]
        exact ((List.takeWhile_prefix _).eq_of_length hall).symm
      · rfl
    | succ row =>
      obtain ⟨hfirst, hothers⟩ := List.forall_mem_cons.mp hearlier
      obtain ⟨first, hlines⟩ := OneLine.displayLines_eq hfirst rest
      rw [hlines] at h
      exact ih hline hothers h

end Esolang.Text
