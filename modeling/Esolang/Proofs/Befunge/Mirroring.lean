/-
  File:      Esolang/Proofs/Befunge/Mirroring.lean
  Subject:   A host that applies the reported edits has the field in front of it.

  The edits of the first step pad the source to a full field, line by line and then with whole lines
  behind the last one. From then on every cell that is written is reported in one edit of this one
  place, and nothing else is.

  * `State.write?`: the cell that the next step writes; `step_write`, `step_spares`: the step writes
    this cell and reports it, or it leaves the field alone and reports nothing.
  * `follow_padding`: the padded source is the field.
  * `Mirrors`: a document shows a field; `Mirrors.step`: it still does so after a step.
  * `document_mirrors_field`: hence after every run.
-/
import Esolang.Proofs.Befunge.Invariant
import Esolang.Proofs.Document

namespace Esolang.Befunge

/-! ## 1. Writing a cell -/

/-- The cell that `p` writes, by column and row, and what it writes there: the topmost values of the
    stack are the row, the column and the code. -/
def State.target? (s : State) : Option (Nat × Nat × CodePoint) :=
  let (y, x, below) := pop2 s.stack
  if onField x y then (CodePoint.ofInt? (pop below).1).map fun c => (x.toNat, y.toNat, c) else none

/-- The cell that the next step writes, if it writes one. -/
def State.write? (s : State) : Option (Nat × Nat × CodePoint) :=
  if s.instruction? = some .put then s.target? else none

/-- The edit that reports a written cell. -/
def cellEdit (x y : Nat) (c : CodePoint) : Edit := ⟨.cell y x, [visible c]⟩

/-- An attempt that leaves the field alone and reports no edit. -/
def Spares (s : State) (a : Attempt State Effect) : Prop :=
  a.state.field = s.field ∧ ∀ effect, a.outcome = .ok effect → effect.edit = none

theorem Spares.quiet {s s' : State} {output : Option Text} {ended : Bool} (h : s'.field = s.field) :
    Spares s (.ok ⟨output, none, ended⟩ s') := by
  refine ⟨h, fun effect heffect => ?_⟩
  cases heffect
  rfl

theorem Spares.failed {s s' : State} {e : Failure} (h : s'.field = s.field) :
    Spares s ⟨.error e, s'⟩ := by
  refine ⟨h, fun effect heffect => ?_⟩
  cases heffect

theorem onField_nonneg {x y : Int} (h : onField x y = true) : 0 ≤ x ∧ 0 ≤ y := by
  simp only [onField, Bool.and_eq_true, decide_eq_true_eq] at h
  exact ⟨h.1.1.1, h.1.2⟩

section Cells

variable {s : State}

theorem writeCell_target {x y : Nat} {c : CodePoint} (h : s.target? = some (x, y, c)) :
    x < columns ∧ y < rowCount ∧ (writeCell s).state.field = s.field.write x y c ∧
      (writeCell s).outcome = .ok { Effect.none with edit := some (cellEdit x y c) } := by
  unfold State.target? at h
  simp only at h
  split at h
  · next hon =>
    obtain ⟨c', hcode, heq⟩ := Option.map_eq_some_iff.mp h
    cases heq
    obtain ⟨hx, hy⟩ := onField_lt hon
    obtain ⟨hx0, hy0⟩ := onField_nonneg hon
    have hcolumn : ((pop2 s.stack).2.1.toNat : Int) = (pop2 s.stack).2.1 := Int.toNat_of_nonneg hx0
    have hrow : ((pop2 s.stack).1.toNat : Int) = (pop2 s.stack).1 := Int.toNat_of_nonneg hy0
    refine ⟨hx, hy, ?_⟩
    unfold writeCell cellEdit
    simp only [hon, if_true, hcode, hcolumn, hrow]
    exact ⟨rfl, rfl⟩
  · cases h

theorem writeCell_spares (h : s.target? = none) : Spares s (writeCell s) := by
  unfold State.target? at h
  unfold writeCell
  simp only at h ⊢
  split at h
  · next hon =>
    have hcode := Option.map_eq_none_iff.mp h
    rw [if_pos hon, hcode]
    simp only
    split
    · exact .failed rfl
    · exact .failed rfl
  · next hoff =>
    rw [if_neg hoff]
    exact .failed rfl

theorem readCell_spares (s : State) : Spares s (readCell s) := by
  unfold readCell
  simp only
  split
  · split
    · exact .quiet rfl
    · exact .failed rfl
  · exact .failed rfl

theorem execute_spares (s : State) {i : Instruction} (hi : i ≠ .put) : Spares s (execute s i) := by
  cases i with
  | put => exact absurd rfl hi
  | get => exact readCell_spares s
  | divide =>
    unfold execute
    simp only
    split
    · exact .failed rfl
    · exact .quiet rfl
  | remainder =>
    unfold execute
    simp only
    split
    · exact .failed rfl
    · split
      · exact .quiet rfl
      · exact .failed rfl
  | writeNumber =>
    unfold execute
    simp only
    split
    · exact .quiet rfl
    · exact .failed rfl
  | writeCharacter =>
    unfold execute
    simp only
    split
    · exact .quiet rfl
    · split
      · exact .failed rfl
      · exact .failed rfl
  | readNumber =>
    unfold execute
    simp only
    split
    · exact .quiet rfl
    · exact .failed rfl
  | _ => exact .quiet rfl

theorem perform_spares {m : Machine State} {i : Instruction}
    (hi : i = .put → m.state.target? = none) :
    (perform m i).state.state.field = m.state.field ∧
      ∀ effect, (perform m i).outcome = .ok effect → effect.edit = none := by
  by_cases hput : i = .put
  · subst hput
    exact writeCell_spares (hi rfl)
  · by_cases hrandom : i = .turnRandomly
    · subst hrandom
      exact Spares.quiet (s := m.state) rfl
    · rw [perform_eq m hrandom]
      exact execute_spares m.state hput

end Cells

/-! ## 2. Steps that write -/

section Steps

variable {m : Machine State} (hm : m.state.Placed)
include hm

/-- A step that writes a cell reports this cell, in its one edit. -/
theorem step_write {x y : Nat} {c : CodePoint} (h : m.state.write? = some (x, y, c)) :
    x < columns ∧ y < rowCount ∧ (language.step m).machine.state.field = m.state.field.write x y c ∧
      reported (language.step m).outcome = [cellEdit x y c] := by
  unfold State.write? at h
  split at h
  · next hput =>
    obtain ⟨hx, hy, hfield, hedit⟩ := writeCell_target h
    have hadvance : language.advance m = .ok ⟨none, some [cellEdit x y c], false, []⟩
        ⟨(writeCell m.state).state.move, m.draws⟩ := by
      have hperform : (perform m .put).outcome =
          .ok { Effect.none with edit := some (cellEdit x y c) } := hedit
      refine (advance_performs hm hput).trans ?_
      simp only [Attempt.andThen, hperform]
      rfl
    refine ⟨hx, hy, ?_, ?_⟩
    · rw [Language.step_machine, hadvance]
      exact hfield
    · rw [reported_step, hadvance]
      rfl
  · cases h

/-- Every other step but the first leaves the field alone and reports nothing. -/
theorem step_spares (hpointer : m.state.pointer ≠ none) (h : m.state.write? = none) :
    (language.step m).machine.state.field = m.state.field ∧
      reported (language.step m).outcome = [] := by
  rw [Language.step_machine, reported_step]
  show (advance m).state.state.field = m.state.field ∧ attempted (advance m).outcome = []
  cases advances hm with
  | starts hnone hadvance => exact absurd hnone hpointer
  | takes c hnone hadvance =>
    rw [hadvance]
    exact ⟨rfl, rfl⟩
  | refuses hnone hadvance =>
    rw [hadvance]
    exact ⟨rfl, rfl⟩
  | performs i hi hadvance =>
    have htarget : i = .put → m.state.target? = none := by
      rintro rfl
      rw [State.write?, if_pos hi] at h
      exact h
    obtain ⟨hfield, hedit⟩ := perform_spares htarget
    rw [hadvance]
    cases ho : (perform m i).outcome with
    | error e =>
      simp only [Attempt.andThen, ho]
      exact ⟨hfield, rfl⟩
    | ok effect =>
      simp only [Attempt.andThen, ho, Attempt.ok, hedit effect ho]
      exact ⟨hfield, rfl⟩

end Steps

/-! ## 3. Padding -/

section Padding

variable {lines : List Text}

theorem newline_not_mem_fill (n : Nat) : Text.newline ∉ Text.fill n ' ' := by
  intro hmem
  exact absurd (List.eq_of_mem_replicate hmem) (by decide)

theorem newline_not_mem_padRow (hlines : ∀ line ∈ lines, Text.newline ∉ line) :
    ∀ row ∈ (fieldOf lines).rows, Text.newline ∉ row := by
  intro row hrow hmem
  rcases List.mem_append.mp hrow with hrow | hrow
  · obtain ⟨line, hline, rfl⟩ := List.mem_map.mp hrow
    rcases List.mem_append.mp hmem with hmem | hmem
    · exact hlines line hline hmem
    · exact newline_not_mem_fill _ hmem
  · rw [List.eq_of_mem_replicate hrow] at hmem
    exact newline_not_mem_fill _ hmem

theorem length_rows (hrows : lines.length ≤ rowCount) : (fieldOf lines).rows.length = rowCount := by
  simp only [fieldOf, List.length_append, List.length_map, List.length_replicate]
  omega

theorem getElem?_rows_line {row : Nat} {line : Text} (h : lines[row]? = some line) :
    (fieldOf lines).rows[row]? = some (padRow line) := by
  have hlt : row < lines.length := (List.getElem?_eq_some_iff.mp h).1
  simp only [fieldOf]
  rw [List.getElem?_append_left (by rw [List.length_map]; exact hlt), List.getElem?_map, h]
  rfl

theorem getElem?_rows_behind {row : Nat} (h : lines.length ≤ row) (hlt : row < rowCount) :
    (fieldOf lines).rows[row]? = some (padRow []) := by
  simp only [fieldOf]
  rw [List.getElem?_append_right (by rw [List.length_map]; exact h), List.getElem?_replicate,
    List.length_map, if_pos (by omega)]

/-- The edit of a row that has a line makes it a full row. -/
theorem applyTo_padLine {front : List Text} {line : Text} (hline : lines[front.length]? = some line)
    (hbreak : Text.newline ∉ line) (back : List Text) :
    ((padLine lines front.length).toList).foldl (fun doc e => e.applyTo doc)
      (front ++ line :: back) = front ++ padRow line :: back := by
  by_cases hfull : line.length = columns
  · have hpad : padRow line = line := by
      rw [padRow, hfull, Nat.sub_self]
      exact List.append_nil line
    have hnone : padLine lines front.length = none := by simp [padLine, hline, hfull]
    rw [hnone, hpad]
    rfl
  · have hedit : padLine lines front.length =
        some ⟨.within front.length line.length line.length,
          Text.fill (columns - line.length) ' '⟩ := by
      simp [padLine, hline, hfull]
    have hat : (front ++ line :: back)[front.length]? = some line := by simp
    rw [hedit]
    show Edit.applyTo _ _ = _
    rw [applyTo_within hat hbreak (newline_not_mem_fill _),
      List.set_append_right _ _ (Nat.le_refl _), Nat.sub_self, List.take_length, List.drop_length,
      List.append_nil]
    rfl

/-- The edit of a row behind the last line adds a blank row. -/
theorem applyTo_padLine_behind {doc : List Text} (hbehind : lines.length ≤ doc.length)
    (hdoc : doc ≠ []) (hbreak : ∀ line ∈ doc, Text.newline ∉ line) :
    ((padLine lines doc.length).toList).foldl (fun doc e => e.applyTo doc) doc =
      doc ++ [padRow []] := by
  have hedit : padLine lines doc.length =
      some ⟨.within doc.length 0 0, Text.newline :: Text.fill columns ' '⟩ := by
    simp [padLine, List.getElem?_eq_none hbehind]
  rw [hedit]
  exact applyTo_behind hdoc hbreak (newline_not_mem_fill _) 0 0

/-- The edits of the first rows make these rows full, and the lines behind them stay as they are. -/
theorem follow_padLines (hrows : lines.length ≤ rowCount)
    (hlines : ∀ line ∈ lines, Text.newline ∉ line) (hne : lines ≠ []) {k : Nat}
    (hk : k ≤ rowCount) :
    ((List.range k).filterMap (padLine lines)).foldl (fun doc e => e.applyTo doc) lines =
      (fieldOf lines).rows.take k ++ lines.drop k := by
  induction k with
  | zero => rfl
  | succ k ih =>
    have hlt : k < rowCount := hk
    have hlength : ((fieldOf lines).rows.take k).length = k := by
      rw [List.length_take, length_rows hrows]
      omega
    have hone : (List.range (k + 1)).filterMap (padLine lines) =
        (List.range k).filterMap (padLine lines) ++ (padLine lines k).toList := by
      rw [List.range_succ, List.filterMap_append]
      cases hedit : padLine lines k with
      | none => simp [hedit]
      | some e => simp [hedit]
    rw [hone, List.foldl_append, ih (Nat.le_of_lt hlt), List.take_add_one]
    cases hline : lines[k]? with
    | some line =>
      have hdrop : lines.drop k = line :: lines.drop (k + 1) := by
        rw [List.drop_eq_getElem?_toList_append, hline]
        rfl
      have hat : lines[((fieldOf lines).rows.take k).length]? = some line := hlength.symm ▸ hline
      have hpad :=
        applyTo_padLine hat (hlines line (List.mem_of_getElem? hline)) (lines.drop (k + 1))
      rw [hlength] at hpad
      rw [hdrop, hpad, getElem?_rows_line hline, List.append_assoc]
      rfl
    | none =>
      have hle : lines.length ≤ k := List.getElem?_eq_none_iff.mp hline
      have hdoc : (fieldOf lines).rows.take k ≠ [] := by
        have hpos : 0 < lines.length := List.length_pos_iff.mpr hne
        exact List.ne_nil_of_length_pos (by omega)
      have hbehind : lines.length ≤ ((fieldOf lines).rows.take k).length := hlength.symm ▸ hle
      have hpad := applyTo_padLine_behind hbehind hdoc fun row hrow =>
        newline_not_mem_padRow hlines row (List.mem_of_mem_take hrow)
      rw [hlength] at hpad
      rw [List.drop_of_length_le hle, List.drop_of_length_le (Nat.le_succ_of_le hle),
        List.append_nil, hpad, getElem?_rows_behind hle hlt, List.append_nil]
      rfl

/-- **The padded source is the field.** -/
theorem follow_padding (hrows : lines.length ≤ rowCount)
    (hlines : ∀ line ∈ lines, Text.newline ∉ line) (hne : lines ≠ []) :
    (padding lines).foldl (fun doc e => e.applyTo doc) lines = (fieldOf lines).rows := by
  have hdrop : lines.drop rowCount = [] := List.drop_of_length_le hrows
  have htake : (fieldOf lines).rows.take rowCount = (fieldOf lines).rows :=
    List.take_of_length_le (Nat.le_of_eq (length_rows hrows))
  rw [padding, follow_padLines hrows hlines hne (Nat.le_refl _), hdrop, htake, List.append_nil]

end Padding

/-- The character of a source at a line and column; there are blanks behind its lines. -/
def sourceChar (lines : List Text) (row col : Nat) : CodePoint :=
  (charAt lines row col).getD Text.space

theorem padRow_getElem? {t : Text} {col : Nat} (hcol : col < columns) :
    (padRow t)[col]? = some (t[col]?.getD Text.space) := by
  by_cases hlt : col < t.length
  · rw [padRow, List.getElem?_append_left hlt, List.getElem?_eq_getElem hlt]
    rfl
  · have hle : t.length ≤ col := Nat.le_of_not_lt hlt
    rw [padRow, List.getElem?_append_right hle, Text.fill, List.getElem?_replicate,
      if_pos (by omega), List.getElem?_eq_none hle]
    rfl

theorem charAt_rows {lines : List Text} {row col : Nat} (hrow : row < rowCount)
    (hcol : col < columns) :
    charAt (fieldOf lines).rows row col = some (sourceChar lines row col) := by
  unfold sourceChar charAt
  cases hline : lines[row]? with
  | some line =>
    rw [getElem?_rows_line hline]
    exact padRow_getElem? hcol
  | none =>
    rw [getElem?_rows_behind (List.getElem?_eq_none_iff.mp hline) hrow]
    exact padRow_getElem? hcol

/-! ## 4. Documents that show a field -/

/-- A document shows a field: it has the field's shape, it has the visible forms of all cells that
    were written, and everywhere else it and the field still have the character of the source. -/
structure Mirrors (source : List Text) (written : Nat → Nat → Prop) (f : Playfield)
    (doc : List Text) : Prop where
  rows : doc.length = rowCount
  row : ∀ line ∈ doc, line.length = columns ∧ Text.newline ∉ line
  shown : ∀ {x y : Nat} {c : CodePoint}, f.cell? x y = some c → written x y →
    charAt doc y x = some (visible c)
  kept : ∀ {x y : Nat}, x < columns → y < rowCount → ¬ written x y →
    f.cell? x y = some (sourceChar source y x) ∧ charAt doc y x = some (sourceChar source y x)

theorem visible_ne_newline (c : CodePoint) : visible c ≠ Text.newline := by
  unfold visible
  split
  · decide
  · next hc =>
    split
    · decide
    · split
      · decide
      · exact hc

theorem visible_ne_return (c : CodePoint) : visible c ≠ '\r' := by
  unfold visible
  split
  · decide
  · split
    · decide
    · next hc =>
      split
      · decide
      · exact hc

namespace Mirrors

variable {source : List Text} {written : Nat → Nat → Prop} {f : Playfield} {doc : List Text}

/-- The padded source shows the field that it is laid out on. -/
theorem padded {lines : List Text} (hrows : lines.length ≤ rowCount)
    (hfits : ∀ line ∈ lines, line.length ≤ columns) (hlines : ∀ line ∈ lines, Text.newline ∉ line)
    (hnone : ∀ x y, ¬ written x y) :
    Mirrors lines written (fieldOf lines) (fieldOf lines).rows where
  rows := length_rows hrows
  row row hrow :=
    ⟨(fieldOf_covers hrows hfits).row row hrow, newline_not_mem_padRow hlines row hrow⟩
  shown _ hwritten := absurd hwritten (hnone _ _)
  kept hx hy _ := ⟨charAt_rows hy hx, charAt_rows hy hx⟩

theorem congr {written' : Nat → Nat → Prop} (h : Mirrors source written f doc)
    (hiff : ∀ x y, written' x y ↔ written x y) : Mirrors source written' f doc where
  rows := h.rows
  row := h.row
  shown hcell hwritten := h.shown hcell ((hiff _ _).mp hwritten)
  kept hx hy hnot := h.kept hx hy fun hwritten => hnot ((hiff _ _).mpr hwritten)

theorem char (h : Mirrors source written f doc) {x y : Nat} (hx : x < columns) (hy : y < rowCount) :
    ∃ c, charAt doc y x = some c := by
  have hrow : y < doc.length := h.rows ▸ hy
  obtain ⟨hlength, -⟩ := h.row doc[y] (List.getElem_mem hrow)
  have hcol : x < doc[y].length := hlength ▸ hx
  refine ⟨doc[y][x], ?_⟩
  unfold charAt
  rw [List.getElem?_eq_getElem hrow]
  exact List.getElem?_eq_getElem hcol

/-- A cell and its place in the document are written together. -/
theorem write (h : Mirrors source written f doc) {x y : Nat} (hx : x < columns) (hy : y < rowCount)
    (c : CodePoint) :
    Mirrors source (fun x' y' => written x' y' ∨ (y' = y ∧ x' = x)) (f.write x y c)
      (doc.modify y (·.set x (visible c))) where
  rows := by rw [List.length_modify, h.rows]
  row := by
    intro line hline
    obtain ⟨i, hi⟩ := List.getElem?_of_mem hline
    rw [List.getElem?_modify] at hi
    obtain ⟨old, hold, rfl⟩ := Option.map_eq_some_iff.mp hi
    obtain ⟨hlength, hbreak⟩ := h.row old (List.mem_of_getElem? hold)
    split
    · refine ⟨by rw [List.length_set, hlength], fun hmem => ?_⟩
      rcases List.mem_or_eq_of_mem_set hmem with hmem | heq
      · exact hbreak hmem
      · exact visible_ne_newline c heq.symm
    · exact ⟨hlength, hbreak⟩
  shown := by
    intro x' y' c' hcell hwritten
    have hcell' : charAt (f.rows.modify y (·.set x c)) y' x' = some c' := hcell
    rw [charAt_modify] at hcell' ⊢
    by_cases hat : y' = y ∧ x' = x
    · rw [if_pos hat] at hcell' ⊢
      obtain ⟨rfl, rfl⟩ := hat
      obtain ⟨old, hold⟩ := h.char hx hy
      obtain ⟨-, -, rfl⟩ := Option.map_eq_some_iff.mp hcell'
      rw [hold]
      rfl
    · rw [if_neg hat] at hcell' ⊢
      exact h.shown hcell' (hwritten.resolve_right hat)
  kept := by
    intro x' y' hx hy hnot
    obtain ⟨hunwritten, hat⟩ := not_or.mp hnot
    obtain ⟨hcell, hchar⟩ := h.kept hx hy hunwritten
    have hrows : (f.write x y c).cell? x' y' = charAt (f.rows.modify y (·.set x c)) y' x' := rfl
    rw [hrows, charAt_modify, charAt_modify, if_neg hat, if_neg hat]
    exact ⟨hcell, hchar⟩

/-- **A document that shows the field still does so after a step**, when the step's edits were
    applied. -/
theorem step {m : Machine State} (hm : m.state.Placed) (hpointer : m.state.pointer ≠ none)
    (h : Mirrors source written m.state.field doc) :
    Mirrors source (fun x y => written x y ∨ ∃ c, m.state.write? = some (x, y, c))
      (language.step m).machine.state.field (follow doc [(language.step m).outcome]) := by
  rw [follow_singleton]
  cases hwrite : m.state.write? with
  | none =>
    obtain ⟨hfield, hnone⟩ := step_spares hm hpointer hwrite
    rw [hfield, hnone]
    refine h.congr fun x y => ⟨fun hwritten => hwritten.resolve_right ?_, .inl⟩
    rintro ⟨c, hc⟩
    cases hc
  | some target =>
    obtain ⟨x, y, c⟩ := target
    obtain ⟨hx, hy, hfield, hedit⟩ := step_write hm hwrite
    have hrow : y < doc.length := h.rows ▸ hy
    obtain ⟨hlength, hbreak⟩ := h.row doc[y] (List.getElem_mem hrow)
    have happly : (cellEdit x y c).applyTo doc = doc.modify y (·.set x (visible c)) :=
      applyTo_cell (List.getElem?_eq_getElem hrow) hbreak (hlength ▸ hx) (visible_ne_newline c)
    rw [hfield, hedit]
    show Mirrors _ _ _ ((cellEdit x y c).applyTo doc)
    rw [happly]
    refine (h.write hx hy c).congr fun x' y' => or_congr_right ?_
    constructor
    · rintro ⟨c', hc⟩
      cases hc
      exact ⟨rfl, rfl⟩
    · rintro ⟨rfl, rfl⟩
      exact ⟨c, rfl⟩

end Mirrors

/-! ## 5. Runs -/

/-- One of the first `n` steps has written the cell at column `x` of row `y`. -/
def Written (m : Machine State) (n x y : Nat) : Prop :=
  ∃ k < n, ∃ c, (language.steps k m).2.state.write? = some (x, y, c)

theorem written_succ {m : Machine State} {n x y : Nat} :
    Written m (n + 1) x y ↔ Written m n x y ∨
      ∃ c, (language.steps n m).2.state.write? = some (x, y, c) := by
  constructor
  · rintro ⟨k, hk, hwrite⟩
    rcases Nat.lt_or_eq_of_le (Nat.le_of_lt_succ hk) with hlt | rfl
    · exact .inl ⟨k, hlt, hwrite⟩
    · exact .inr hwrite
  · rintro (⟨k, hk, hwrite⟩ | hwrite)
    · exact ⟨k, Nat.lt_succ_of_lt hk, hwrite⟩
    · exact ⟨n, Nat.lt_succ_self n, hwrite⟩

theorem read_layOut {m m₀ : Machine State} {code input : Text}
    (hload : language.load m code input = .ok m₀) :
    m₀.state.field = fieldOf code.lines ∧ m₀.state.padding = padding code.lines ∧
      m₀.state.pointer = none ∧
      code.lines.length ≤ rowCount ∧ ∀ line ∈ code.lines, line.length ≤ columns := by
  obtain ⟨start, hread, rfl⟩ := Language.read_of_load _ hload
  simp only [language] at hread
  split at hread
  · next hlayout =>
    cases hread
    obtain ⟨rfl, hrows, hlines⟩ := layOut_ok hlayout
    exact ⟨rfl, rfl, rfl, hrows, hlines⟩
  · cases hread

theorem mirrors_steps {m m₀ : Machine State} {code input : Text}
    (hload : language.load m code input = .ok m₀) (n : Nat) :
    Mirrors code.lines (Written m₀ (n + 1)) (language.steps (n + 1) m₀).2.state.field
      (follow code.lines (language.steps (n + 1) m₀).1) := by
  induction n with
  | zero =>
    obtain ⟨hfield, hpadding, hpointer, hrows, hfits⟩ := read_layOut hload
    have hlines : ∀ line ∈ code.lines, Text.newline ∉ line := fun _ => Text.not_mem_of_mem_splitOn
    have hadvance : language.advance m₀ =
        .ok ⟨none, some m₀.state.padding, false, []⟩ { m₀ with state.pointer := some (0, 0) } := by
      simp only [language, advance, hpointer]
    have hfield' : (language.steps 1 m₀).2.state.field = fieldOf code.lines := by
      show (language.step m₀).machine.state.field = _
      rw [Language.step_machine, hadvance]
      exact hfield
    have hdoc : follow code.lines (language.steps 1 m₀).1 = (fieldOf code.lines).rows := by
      show follow code.lines [(language.step m₀).outcome] = _
      rw [follow_singleton, reported_step, hadvance]
      show List.foldl _ _ m₀.state.padding = _
      rw [hpadding]
      exact follow_padding hrows hlines (Text.splitOn_ne_nil _ _)
    rw [hfield', hdoc]
    refine .padded hrows hfits hlines fun x y hwritten => ?_
    obtain ⟨k, hk, c, hwrite⟩ := hwritten
    obtain rfl : k = 0 := by omega
    have hnone : m₀.state.write? = none := by simp [State.write?, State.instruction?, hpointer]
    cases hnone.symm.trans hwrite
  | succ n ih =>
    have hstep := ih.step (fits_steps hload (n + 1)).toPlaced (pointer_steps (Nat.succ_pos n))
    rw [← follow_append] at hstep
    rw [language.steps_add (n + 1) 1]
    exact hstep.congr fun x y => written_succ

/-- **A host that applies the reported edits has the field in front of it.** For every source that
    can be loaded, every input and all draws, the host starts from the lines of the source and
    applies the edits of each step in order. After the first step and any number of further ones,
    its document has as many lines as the field has rows, each as long as a row and without a line
    break. Where no step has written a cell, the document has the character of the source, or a
    blank behind its lines; where one has, it has the visible form of what the cell now holds. The
    edits of the step that comes next replace one character of one line by one that breaks no
    line. -/
theorem document_mirrors_field {m m₀ : Machine State} {code input : Text}
    (hload : language.load m code input = .ok m₀) (n : Nat) :
    let last := (language.steps (n + 1) m₀).2
    let doc := follow code.lines (language.steps (n + 1) m₀).1
    (doc.length = rowCount ∧ ∀ line ∈ doc, line.length = columns ∧ Text.newline ∉ line) ∧
    (∀ x y, x < columns → y < rowCount →
      (¬ Written m₀ (n + 1) x y → charAt doc y x = some (sourceChar code.lines y x)) ∧
      (Written m₀ (n + 1) x y → ∃ c, last.state.field.cell? x y = some c ∧
        charAt doc y x = some (visible c))) ∧
    ∀ e ∈ reported (language.step last).outcome, ∃ (x y : Nat) (c : CodePoint), x < columns ∧
      y < rowCount ∧ e = ⟨.cell y x, [c]⟩ ∧ c ≠ Text.newline ∧ c ≠ '\r' := by
  intro last doc
  have hmirrors : Mirrors code.lines (Written m₀ (n + 1)) last.state.field doc :=
    mirrors_steps hload n
  have hfits : last.state.Fits := fits_steps hload (n + 1)
  refine ⟨⟨hmirrors.rows, hmirrors.row⟩, fun x y hx hy => ⟨fun hnot => (hmirrors.kept hx hy hnot).2,
    fun hwritten => ?_⟩,
    fun e he => ?_⟩
  · obtain ⟨c, hcell⟩ := hfits.covers.cell hx hy
    exact ⟨c, hcell, hmirrors.shown hcell hwritten⟩
  · cases hwrite : last.state.write? with
    | none =>
      obtain ⟨-, hnone⟩ := step_spares hfits.toPlaced (pointer_steps (Nat.succ_pos n)) hwrite
      rw [hnone] at he
      cases he
    | some target =>
      obtain ⟨x, y, c⟩ := target
      obtain ⟨hx, hy, -, hedit⟩ := step_write hfits.toPlaced hwrite
      rw [hedit] at he
      exact ⟨x, y, visible c, hx, hy, List.mem_singleton.mp he, visible_ne_newline c,
        visible_ne_return c⟩

/-- A program that writes a line feed below itself. -/
def feeding : Machine State :=
  ⟨{ State.fresh with field := fieldOf ["55+92p@"], padding := padding ["55+92p@"] }, []⟩

theorem document_mirrors_field_feeding :
    language.load ⟨.fresh, []⟩ "55+92p@" [] = .ok feeding ∧
      let doc := follow (Text.lines "55+92p@") (language.steps 7 feeding).1
      Written feeding 7 9 2 ∧
        (language.steps 7 feeding).2.state.field.cell? 9 2 = some Text.newline ∧
        doc.length = rowCount ∧ charAt doc 2 9 = some (CodePoint.ofChar '↵') ∧
        ¬ Written feeding 7 2 0 ∧ charAt doc 0 2 = some (CodePoint.ofChar '+') := by
  have hload : language.load ⟨.fresh, []⟩ "55+92p@" [] = .ok feeding := rfl
  have hwritten : Written feeding 7 9 2 := ⟨6, by decide, Text.newline, by decide +kernel⟩
  have hcell : (language.steps 7 feeding).2.state.field.cell? 9 2 = some Text.newline := by
    decide +kernel
  have honly : ∀ k < 7, (language.steps k feeding).2.state.write? = none ∨
      (language.steps k feeding).2.state.write? = some (9, 2, Text.newline) := by decide +kernel
  have hunwritten : ¬ Written feeding 7 2 0 := by
    rintro ⟨k, hk, c, hwrite⟩
    rcases honly k hk with hnone | hother
    · cases hnone.symm.trans hwrite
    · cases hother.symm.trans hwrite
  obtain ⟨⟨hlength, -⟩, hchar, -⟩ := document_mirrors_field hload 6
  obtain ⟨c, hcell', hshown⟩ := (hchar 9 2 (by decide) (by decide)).2 hwritten
  obtain rfl := Option.some.inj (hcell.symm.trans hcell')
  exact ⟨hload, hwritten, hcell, hlength, hshown, hunwritten,
    (hchar 2 0 (by decide) (by decide)).1 hunwritten⟩

end Esolang.Befunge
