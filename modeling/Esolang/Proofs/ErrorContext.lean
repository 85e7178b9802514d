/-
  File:      Esolang/Proofs/ErrorContext.lean
  Subject:   The report of a rejection shows the line it is about.

  * `Context.Marks`: rows of which a single one is marked, with a line and its number, and with
    carets below it; `Context.Marks.unique`: they mark one line.
  * `Context.around_marks`: the rows around a place mark the displayed line with the number of the
    place.
  * `LanguageId.check_pointsInto`: a text is rejected at a place of its own.
  * `report_marks_displayed_line`: all languages; `form_feed_hides_bracket`: another line than the
    rejected one.
-/
import Esolang.Proofs.DisplayLines
import Esolang.Proofs.Number.Decimal
import Esolang.Proofs.Rejections
import Mathlib.Data.List.TakeWhile

namespace Esolang

namespace Context

/-! ## 1. Rows that mark a line -/

/-- What stands in front of a marked line: the mark, the number of the line counted from one, and a
    bar. -/
def gutter (padding row : Nat) : Text :=
  Text.ofString "> " ++ Text.fill padding ' ' ++ Decimal.ofNat (row + 1) ++ Text.ofString " | "

/-- Carets stand in a row from a column on, and nowhere else. -/
def Underlines (under : Text) (first count : Nat) : Prop :=
  ∃ front : Text, front.length = first ∧ CodePoint.ofChar '^' ∉ front ∧
    under = front ++ Text.fill count '^'

/-- Of some rows a single one has a mark, and it shows a line with its number. If a span begins at a
    column, there are carets below the line: from under this column on and up to the span's end or
    the line's, but at least one. -/
def Marks (rows : List Text) (span : Span) (row : Nat) (line : Text) : Prop :=
  ∃ (before after : List Text) (padding : Nat),
    rows = before ++ (gutter padding row ++ line) :: after ∧
    (∀ other ∈ before ++ after, other.head? = some Text.space) ∧
    ∀ first : Nat, span.startCol = some (first : Int) → ∃ under, after.head? = some under ∧
      Underlines under ((gutter padding row).length + first)
        (max (span.endCol.getD line.length - first) 1).toNat

theorem gutter_cancel {padding padding' row : Nat} {line line' : Text}
    (h : gutter padding row ++ line = gutter padding' row ++ line') : line = line' := by
  -- the number begins behind the spaces
  have hspaces : ∀ (padding : Nat) (line : Text),
      ((gutter padding row ++ line).drop 2).takeWhile (· = Text.space) =
        Text.fill padding Text.space := by
    intro padding line
    have hdrop : (gutter padding row ++ line).drop 2 =
        Text.fill padding Text.space ++
          (Decimal.ofNat (row + 1) ++ (Text.ofString " | " ++ line)) := by
      simp only [gutter, List.append_assoc]
      rfl
    obtain ⟨c, cs, hc⟩ := List.exists_cons_of_ne_nil (Decimal.ofNat_ne_nil (row + 1))
    have hdigit : c.isAsciiDigit = true := Decimal.ofNat_digits (hc ▸ List.mem_cons_self)
    have hspace : c ≠ Text.space := by
      rintro rfl
      cases hdigit
    rw [hdrop,
      List.takeWhile_append_of_pos (fun d hd => decide_eq_true (List.eq_of_mem_replicate hd)), hc,
      List.cons_append, List.takeWhile_cons_of_neg (by simpa using hspace), List.append_nil]
  have hpadding : padding = padding' := by
    have hfill := hspaces padding line
    rw [h, hspaces padding' line'] at hfill
    exact (List.replicate_inj.mp hfill).1.symm
  subst hpadding
  exact List.append_cancel_left h

/-- Rows mark one line. -/
theorem Marks.unique {rows : List Text} {span : Span} {row : Nat} {line line' : Text}
    (h : Marks rows span row line) (h' : Marks rows span row line') : line = line' := by
  obtain ⟨before, after, padding, hrows, -, -⟩ := h
  obtain ⟨before', after', padding', hrows', hothers, -⟩ := h'
  have hmem : gutter padding row ++ line ∈ before' ++ (gutter padding' row ++ line') :: after' := by
    rw [← hrows', hrows]
    exact List.mem_append_right before List.mem_cons_self
  rw [List.mem_append, List.mem_cons] at hmem
  have hmark : ∀ other ∈ before' ++ after', other ≠ gutter padding row ++ line := by
    rintro other hother rfl
    cases hothers _ hother
  rcases hmem with hbefore | heq | hafter
  · exact absurd rfl (hmark _ (List.mem_append_left _ hbefore))
  · exact gutter_cancel heq
  · exact absurd rfl (hmark _ (List.mem_append_right _ hafter))

theorem Marks.ne_nil {rows : List Text} {span : Span} {row : Nat} {line : Text}
    (h : Marks rows span row line) : rows ≠ [] := by
  obtain ⟨before, after, padding, rfl, -, -⟩ := h
  exact List.append_ne_nil_of_right_ne_nil before (List.cons_ne_nil _ _)

theorem not_marks_empty {span : Span} {row : Nat} {line : Text} :
    ¬ Marks (Text.lines []) span row line := by
  rintro ⟨before, after, padding, hrows, -, -⟩
  have hmem : gutter padding row ++ line ∈ Text.lines [] := by
    rw [hrows]
    exact List.mem_append_right before List.mem_cons_self
  cases List.mem_singleton.mp hmem

/-! ## 2. The rows around a place -/

theorem not_mem_fill {c d : CodePoint} (h : d ≠ c) {n : Nat} : d ∉ Text.fill n c :=
  fun hmem => h (List.eq_of_mem_replicate hmem)

section Rows

variable {width row : Nat} {span : Span} {line : Text}

theorem numbered_head {idx : Nat} (h : idx ≠ row) :
    (numbered width row idx line).head? = some Text.space := by
  unfold numbered
  rw [if_neg h]
  rfl

theorem numbered_self :
    numbered width row row line =
      gutter (width - (Decimal.ofNat (row + 1)).length) row ++ line := by
  unfold numbered gutter alignRight
  rw [if_pos rfl]
  simp only [List.append_assoc]

theorem rows_of_ne {idx : Nat} (h : idx ≠ row) :
    rows width row span idx line = [numbered width row idx line] := by
  unfold rows
  split
  · rw [if_neg h]
  · rfl

theorem underlines_underline (hwidth : (Decimal.ofNat (row + 1)).length ≤ width) (first : Nat) :
    Underlines (underline width span first line)
      ((gutter (width - (Decimal.ofNat (row + 1)).length) row).length + first)
      (max (span.endCol.getD line.length - first) 1).toNat := by
  refine ⟨Text.ofString "  " ++ Text.fill width ' ' ++ Text.ofString " | " ++ Text.fill first ' ',
    ?_, ?_, rfl⟩
  · simp only [gutter, Text.fill, List.length_append, List.length_replicate,
      show (Text.ofString "> ").length = 2 from rfl, show (Text.ofString "  ").length = 2 from rfl]
    omega
  · simp only [List.mem_append, not_or]
    exact ⟨⟨⟨by decide, not_mem_fill (by decide)⟩, by decide⟩, not_mem_fill (by decide)⟩

theorem rows_self (width row : Nat) (span : Span) (line : Text) :
    ∃ unders, rows width row span row line = numbered width row row line :: unders ∧
      (∀ t ∈ unders, t.head? = some Text.space) ∧
      ∀ first, span.startCol = some first →
      unders.head? = some (underline width span first line) := by
  refine ⟨_, rfl, ?_, ?_⟩
  · split
    · rw [if_pos rfl]
      exact List.forall_mem_singleton.mpr rfl
    · exact fun t ht => absurd ht List.not_mem_nil
  · intro first hfirst
    rw [hfirst]
    exact congrArg List.head? (if_pos rfl)

/-- Rows stay rows: no newline stands in them. -/
theorem newline_not_mem_rows (hline : Text.newline ∉ line) {idx : Nat} :
    ∀ t ∈ rows width row span idx line, Text.newline ∉ t := by
  have hdigits : ∀ n, Text.newline ∉ Decimal.ofNat n := by
    intro n hmem
    cases Decimal.ofNat_digits hmem
  have hnumbered : Text.newline ∉ numbered width row idx line := by
    simp only [numbered, alignRight, List.mem_append, not_or]
    refine ⟨⟨⟨?_, not_mem_fill (by decide), hdigits _⟩, by decide⟩, hline⟩
    split
    · decide
    · decide
  have hunderline : ∀ first, Text.newline ∉ underline width span first line := by
    intro first
    simp only [underline, List.mem_append, not_or]
    exact ⟨⟨⟨⟨by decide, not_mem_fill (by decide)⟩, by decide⟩, not_mem_fill (by decide)⟩,
      not_mem_fill (by decide)⟩
  unfold rows
  refine List.forall_mem_cons.mpr ⟨hnumbered, ?_⟩
  split
  · next first hfirst =>
    split
    · exact List.forall_mem_singleton.mpr (hunderline first)
    · exact fun t ht => absurd ht List.not_mem_nil
  · exact fun t ht => absurd ht List.not_mem_nil

end Rows

/-- Numbered lines from one number to another, cut around one in between. -/
theorem window_split {lines : List Text} {row first past : Nat} {shown : Text}
    (h : lines[row]? = some shown) (hfirst : first ≤ row) (hpast : row < past) :
    ∃ before after : List (Text × Nat), (lines.zipIdx.take past).drop first = before ++ (shown,
      row) :: after ∧
      ∀ entry ∈ before ++ after, entry.2 ≠ row := by
  generalize hwindow : (lines.zipIdx.take past).drop first = window
  have hnumber : ∀ k entry, window[k]? = some entry → entry.2 = first + k := by
    intro k entry hk
    rw [← hwindow, List.getElem?_drop, List.getElem?_take, List.getElem?_zipIdx] at hk
    split at hk
    · obtain ⟨line, -, rfl⟩ := Option.map_eq_some_iff.mp hk
      exact Nat.zero_add _
    · cases hk
  have hget : window[row - first]? = some (shown, row) := by
    rw [← hwindow, List.getElem?_drop, Nat.add_sub_cancel' hfirst, List.getElem?_take, if_pos hpast,
      List.getElem?_zipIdx, h, Nat.zero_add]
    rfl
  obtain ⟨hlt, hentry⟩ := List.getElem?_eq_some_iff.mp hget
  refine ⟨window.take (row - first), window.drop (row - first + 1), ?_, fun entry hmem => ?_⟩
  · rw [← hentry, ← List.drop_eq_getElem_cons, List.take_append_drop]
  · rcases List.mem_append.mp hmem with hmem | hmem
    · obtain ⟨k, hk⟩ := List.getElem?_of_mem hmem
      rw [List.getElem?_take] at hk
      split at hk
      · have hsecond := hnumber k entry hk
        omega
      · cases hk
    · obtain ⟨k, hk⟩ := List.getElem?_of_mem hmem
      rw [List.getElem?_drop] at hk
      have hsecond := hnumber _ entry hk
      omega

/-- All rows of some numbered lines. -/
def allRows (width row : Nat) (span : Span) (entries : List (Text × Nat)) : List Text :=
  entries.flatMap fun entry => rows width row span entry.2 entry.1

section AllRows

variable {width row : Nat} {span : Span}

theorem allRows_head {entries : List (Text × Nat)} (h : ∀ entry ∈ entries, entry.2 ≠ row) :
    ∀ t ∈ allRows width row span entries, t.head? = some Text.space := by
  intro t ht
  obtain ⟨entry, hentry, hrow⟩ := List.mem_flatMap.mp ht
  rw [rows_of_ne (h entry hentry), List.mem_singleton] at hrow
  rw [hrow]
  exact numbered_head (h entry hentry)

theorem newline_not_mem_allRows {entries : List (Text × Nat)}
    (h : ∀ entry ∈ entries, Text.newline ∉ entry.1) :
    ∀ t ∈ allRows width row span entries, Text.newline ∉ t := by
  intro t ht
  obtain ⟨entry, hentry, hrow⟩ := List.mem_flatMap.mp ht
  exact newline_not_mem_rows (h entry hentry) t hrow

/-- Numbered lines mark the one with the given number. -/
theorem allRows_marks (span : Span) (shown : Text) {before after : List (Text × Nat)}
    (hothers : ∀ entry ∈ before ++ after, entry.2 ≠ row)
    (hwidth : (Decimal.ofNat (row + 1)).length ≤ width) :
    Marks (allRows width row span (before ++ (shown, row) :: after)) span row shown := by
  obtain ⟨hbefore, hafter⟩ := List.forall_mem_append.mp hothers
  obtain ⟨unders, hself, hunders, hunder⟩ := rows_self width row span shown
  refine ⟨allRows width row span before, unders ++ allRows width row span after,
    width - (Decimal.ofNat (row + 1)).length, ?_, ?_, fun first hfirst => ?_⟩
  · simp only [allRows, List.flatMap_append, List.flatMap_cons, hself, numbered_self,
      List.cons_append]
  · exact List.forall_mem_append.mpr ⟨allRows_head hbefore,
      List.forall_mem_append.mpr ⟨hunders, allRows_head hafter⟩⟩
  · refine ⟨underline width span first shown, ?_, underlines_underline hwidth first⟩
    rw [List.head?_append, hunder first hfirst]
    rfl

end AllRows

theorem around_eq {source : Text} {span : Span} {row : Nat} (hrow : span.startLine = row)
    (h : row < source.displayLines.length) (radius : Nat) :
    let past := min source.displayLines.length (row + radius + 1)
    around source span radius = Text.join [Text.newline]
      (allRows (Decimal.ofNat past).length row span ((source.displayLines.zipIdx.take past).drop
        (row - radius))) := by
  unfold around
  simp only [hrow]
  rw [if_pos h]
  rfl

/-- **The rows around a place mark the displayed line with the number of the place.** -/
theorem around_marks {source : Text} {span : Span} {row : Nat} {shown : Text}
    (hrow : span.startLine = row) (hshown : source.displayLines[row]? = some shown) (radius : Nat) :
    around source span radius ≠ [] ∧ Marks (around source span radius).lines span row shown := by
  obtain ⟨hlt, -⟩ := List.getElem?_eq_some_iff.mp hshown
  have hpast : row + 1 ≤ min source.displayLines.length (row + radius + 1) := by omega
  have haround := around_eq hrow hlt radius
  simp only at haround
  generalize min source.displayLines.length (row + radius + 1) = past at hpast haround
  obtain ⟨before, after, hwindow, hothers⟩ := window_split hshown (Nat.sub_le row radius) hpast
  have hmarks := allRows_marks span shown hothers (Decimal.length_ofNat_mono hpast)
  -- no newline is displayed, so the rows are found again in the text that they make up
  have hclear : ∀ entry ∈ (source.displayLines.zipIdx.take past).drop (row - radius),
      Text.newline ∉ entry.1 := by
    intro entry hentry hmem
    have hline := List.fst_mem_of_mem_zipIdx (List.mem_of_mem_take (List.mem_of_mem_drop hentry))
    cases Text.displayLinesFrom_clear (fun c hc => absurd hc List.not_mem_nil) _ hline _ hmem
  rw [hwindow] at haround hclear
  have hlines := Text.lines_join hmarks.ne_nil (newline_not_mem_allRows hclear)
  rw [← haround] at hlines
  rw [← hlines] at hmarks
  refine ⟨fun hempty => ?_, hmarks⟩
  rw [hempty] at hmarks
  exact not_marks_empty hmarks

/-- Nothing is shown where there is no displayed line. -/
theorem around_nil {source : Text} {span : Span} {row : Nat} (hrow : span.startLine = row)
    (h : source.displayLines[row]? = none) (radius : Nat) : around source span radius = [] := by
  unfold around
  simp only [hrow]
  exact if_neg (Nat.not_lt.mpr (List.getElem?_eq_none_iff.mp h))

end Context

/-! ## 3. Reports -/

/-- A text that is rejected is rejected at a place of its own. -/
theorem LanguageId.check_pointsInto {id : LanguageId} {code : Text} {r : Rejection}
    (h : id.language.check code = .ok (some r)) : r.span.PointsInto code.lines := by
  have hread : id.language.read code = .error (.rejected r) := by
    unfold Language.check at h
    split at h
    · cases h
    · next why hwhy =>
      cases h
      exact hwhy
    · cases h
  cases id with
  | befunge93 =>
    simp only [language, Befunge.language] at hread
    split at hread
    · cases hread
    · next why hwhy =>
      cases hread
      exact Befunge.layOut_rejects hwhy
  | brainfuck =>
    simp only [language, Brainfuck.language] at hread
    split at hread
    · cases hread
    · next why hwhy =>
      cases hread
      exact Brainfuck.parse_rejects hwhy
  | deadfish => cases hread
  | chef =>
    have hreads := Chef.parse_reads code
    cases hparse : Chef.parse code with
    | ok program =>
      simp only [language, Chef.language, hparse] at hread
      cases hread
    | error e =>
      simp only [language, Chef.language, hparse] at hread
      cases hread
      rw [hparse] at hreads
      exact hreads

/-- The rows of a report below its first line. -/
def Rejection.below (r : Rejection) (source : Text) : List Text :=
  Text.lines ((r.report source).drop (r.headline.length + 1))

/-- Below its first line a report marks what is displayed at the line's number. -/
theorem Rejection.report_marks {r : Rejection} {source : Text} {row : Nat} {shown : Text}
    (hrow : r.span.startLine = row) (hshown : source.displayLines[row]? = some shown) :
    r.headline ++ [Text.newline] <+: r.report source ∧
      Context.Marks (r.below source) r.span row shown := by
  obtain ⟨hcontext, hmarks⟩ := Context.around_marks hrow hshown Context.usualRadius
  have hreport : r.report source =
      r.headline ++ [Text.newline] ++ Context.around source r.span Context.usualRadius := by
    unfold report
    simp only
    rw [if_neg (by simpa using hcontext)]
  have hdrop : (r.report source).drop (r.headline.length + 1) =
      Context.around source r.span Context.usualRadius := by
    rw [hreport]
    exact List.drop_left' List.length_append
  refine ⟨⟨_, hreport.symm⟩, ?_⟩
  rw [below, hdrop]
  exact hmarks

/-- Where nothing is displayed, a report is its first line. -/
theorem Rejection.report_headline {r : Rejection} {source : Text} {row : Nat}
    (hrow : r.span.startLine = row) (hnone : source.displayLines[row]? = none) :
    r.report source = r.headline := by
  unfold report
  rw [Context.around_nil hrow hnone]
  rfl

/-- **The report of a rejection marks what is displayed at the number of the line it is about.** In
    all four languages a rejection is about a line of the source. Unless this is the last one and
    empty, a line is displayed at its number. The report then has rows below its first line, and of
    these a single one is marked, with this number and the displayed line; from under the column at
    which the rejection begins, if it has one, carets stand below it. So the line itself is marked
    if and only if it is what is displayed there. When all lines above are displayed as one line
    each, the marked text is the line up to its first boundary, and so it is the line itself if and
    only if there is no boundary in it. -/
theorem report_marks_displayed_line {id : LanguageId} {code : Text} {r : Rejection}
    (h : id.language.check code = .ok (some r)) :
    ∃ (row : Nat) (line : Text), r.span.startLine = row ∧ code.lines[row]? = some line ∧
      (∀ first, r.span.startCol = some first → 0 ≤ first ∧
        first ≤ max ((line.length : Int) - 1) 0) ∧
      (code.displayLines[row]? = none → r.report code = r.headline ∧ row + 1 = code.lines.length ∧
        line = []) ∧
      ∀ shown, code.displayLines[row]? = some shown →
        r.headline ++ [Text.newline] <+: r.report code ∧
        Context.Marks (r.below code) r.span row shown ∧
        (Context.Marks (r.below code) r.span row line ↔ shown = line) ∧
        ((∀ earlier ∈ code.lines.take row, earlier.OneLine) →
          shown = line.takeWhile (!·.isLineBoundary) ∧
          (Context.Marks (r.below code) r.span row line ↔
            ∀ c ∈ line, c.isLineBoundary = false)) := by
  obtain ⟨row, line, hrow, hline, hcol⟩ := id.check_pointsInto h
  refine ⟨row, line, hrow, hline, hcol, fun hnone => ?_, fun shown hshown => ?_⟩
  · exact ⟨Rejection.report_headline hrow hnone, Text.displayLines_none hline hnone⟩
  · obtain ⟨hfront, hmarks⟩ := Rejection.report_marks hrow hshown
    have hiff : Context.Marks (r.below code) r.span row line ↔ shown = line :=
      ⟨fun hmarked => hmarks.unique hmarked, fun heq => heq ▸ hmarks⟩
    refine ⟨hfront, hmarks, hiff, fun hearlier => ?_⟩
    have heq := Text.displayLines_some hline hearlier hshown
    refine ⟨heq, hiff.trans ?_⟩
    rw [heq]
    simp only [List.takeWhile_eq_self_iff, Bool.not_eq_true']

/-- Lines that end with a carriage return and a line feed, and a bracket without a partner. -/
def strayBracket : Text := "+\r\n-]\n"

/-- The second line is marked, since the first one is displayed as one. -/
theorem report_marks_displayed_line_stray :
    ∃ r, LanguageId.brainfuck.language.check strayBracket = .ok (some r) ∧ r.span = .cell 1 1 ∧
      Context.Marks (r.below strayBracket) r.span 1 "-]" := by
  have hcheck : LanguageId.brainfuck.language.check strayBracket =
      .ok (some (Brainfuck.BracketError.unmatchedEnd.at (.cell 1 1))) := rfl
  obtain ⟨row, line, hrow, hline, -, -, hshown⟩ := report_marks_displayed_line hcheck
  obtain rfl : 1 = row := Int.ofNat.inj hrow
  obtain rfl : "-]" = line := Option.some.inj hline
  obtain ⟨-, -, -, hwhole⟩ := hshown "-]" (by decide +kernel)
  have hearlier : ∀ earlier ∈ strayBracket.lines.take 1, earlier.OneLine :=
    List.forall_mem_singleton.mpr ⟨"+", .inr rfl, by decide⟩
  exact ⟨_, hcheck, rfl, (hwhole hearlier).2.mpr (by decide)⟩

/-- A form feed and a bracket without a partner. -/
def hiddenBracket : Text := "\x0c]"

/-- **A form feed keeps a bracket from being marked.** Both stand on the first line, which is
    rejected at its second column; but the bracket is displayed as a second line, and the caret
    stands below an empty one. -/
theorem form_feed_hides_bracket :
    ∃ r, LanguageId.brainfuck.language.check hiddenBracket = .ok (some r) ∧ r.span = .cell 0 1 ∧
      hiddenBracket.lines[0]? = some hiddenBracket ∧
      r.report hiddenBracket = r.headline ++ Text.ofString "\n> 1 | \n    |  ^\n  2 | ]" ∧
      ¬ Context.Marks (r.below hiddenBracket) r.span 0 hiddenBracket := by
  refine ⟨Brainfuck.BracketError.unmatchedEnd.at (.cell 0 1), rfl,
    rfl, by decide +kernel, by decide +kernel,
    fun hline => ?_⟩
  have hshown : hiddenBracket.displayLines[0]? = some [] := by decide +kernel
  cases (Rejection.report_marks rfl hshown).2.unique hline

end Esolang
