/-
  File:      Esolang/Proofs/Befunge/Playfield.lean
  Subject:   The extents of a playfield cover everything that stands on it.

  A cell that is not blank lies within the extent of its row and within that of its column. This
  holds of every source that is laid out, and writing a cell preserves it, since the extents grow
  with every cell that is written and never shrink.

  * `Playfield.Covers`: a full field with extents that cover what stands on it.
  * `Playfield.Covers.write`: writing preserves it; `layOut_ok`, `layOut_covers`: a source that is
    laid out fits the field, and its field has it.
  * `Playfield.Covers.blank_of_rowExtent_le`, `blank_of_columnExtent_le`: beyond an extent all is
    blank.
-/
import Esolang.Befunge.Playfield
import Esolang.Proofs.Lists

namespace Esolang.Befunge

namespace Playfield

variable {f : Playfield} {x y : Nat} {c : CodePoint}

/-! ## 1. Full fields -/

/-- All rows and columns are there, and the extents cover every cell that is not blank. -/
structure Covers (f : Playfield) : Prop where
  rows : f.rows.length = rowCount
  row : ∀ row ∈ f.rows, row.length = columns
  rowExtents : f.rowExtents.length = rowCount
  columnExtents : f.columnExtents.length = columns
  rowExtent_le : ∀ y, f.rowExtent y ≤ columns
  columnExtent_le : ∀ x, f.columnExtent x ≤ rowCount
  occupied : ∀ {x y : Nat} {c : CodePoint}, f.cell? x y = some c → c ≠ Text.space →
    x < f.rowExtent y ∧ y < f.columnExtent x

namespace Covers

theorem cell (h : f.Covers) (hx : x < columns) (hy : y < rowCount) : ∃ c, f.cell? x y = some c := by
  have hrow : y < f.rows.length := h.rows ▸ hy
  have hcell : x < f.rows[y].length := by
    rw [h.row _ (List.getElem_mem hrow)]
    exact hx
  refine ⟨f.rows[y][x], ?_⟩
  unfold cell?
  rw [List.getElem?_eq_getElem hrow]
  exact List.getElem?_eq_getElem hcell

/-- Beyond the extent of its row a cell is blank. -/
theorem blank_of_rowExtent_le (h : f.Covers) (hx : x < columns) (hy : y < rowCount)
    (hle : f.rowExtent y ≤ x) : f.cell? x y = some Text.space := by
  obtain ⟨c, hc⟩ := h.cell hx hy
  by_cases hblank : c = Text.space
  · rw [hc, hblank]
  · obtain ⟨hlt, -⟩ := h.occupied hc hblank
    omega

/-- Beyond the extent of its column a cell is blank. -/
theorem blank_of_columnExtent_le (h : f.Covers) (hx : x < columns) (hy : y < rowCount)
    (hle : f.columnExtent x ≤ y) : f.cell? x y = some Text.space := by
  obtain ⟨c, hc⟩ := h.cell hx hy
  by_cases hblank : c = Text.space
  · rw [hc, hblank]
  · obtain ⟨-, hlt⟩ := h.occupied hc hblank
    omega

end Covers

/-! ## 2. Writing -/

theorem rowExtent_write (f : Playfield) (x y : Nat) (c : CodePoint) (y' : Nat) :
    (f.write x y c).rowExtent y' =
      if y = y' ∧ y < f.rowExtents.length then max (f.rowExtent y') (x + 1)
      else f.rowExtent y' := by
  unfold rowExtent write
  rw [List.getElem?_modify]
  by_cases hy : y = y'
  · subst hy
    by_cases hlt : y < f.rowExtents.length
    · simp [hlt]
    · simp [hlt]
  · simp [hy]

theorem columnExtent_write (f : Playfield) (x y : Nat) (c : CodePoint) (x' : Nat) :
    (f.write x y c).columnExtent x' =
      if x = x' ∧ x < f.columnExtents.length then max (f.columnExtent x') (y + 1)
      else f.columnExtent x' := by
  unfold columnExtent write
  rw [List.getElem?_modify]
  by_cases hx : x = x'
  · subst hx
    by_cases hlt : x < f.columnExtents.length
    · simp [hlt]
    · simp [hlt]
  · simp [hx]

/-- Extents never shrink. -/
theorem rowExtent_le_write (f : Playfield) (x y : Nat) (c : CodePoint) (y' : Nat) :
    f.rowExtent y' ≤ (f.write x y c).rowExtent y' := by
  rw [rowExtent_write]
  split <;> omega

theorem columnExtent_le_write (f : Playfield) (x y : Nat) (c : CodePoint) (x' : Nat) :
    f.columnExtent x' ≤ (f.write x y c).columnExtent x' := by
  rw [columnExtent_write]
  split <;> omega

/-- A cell of the new field is the one that was written, or it was there before. -/
theorem cell?_write {x' y' : Nat} {c' : CodePoint} (h : (f.write x y c).cell? x' y' = some c') :
    x' = x ∧ y' = y ∨ f.cell? x' y' = some c' := by
  unfold cell? write at h
  rw [List.getElem?_modify] at h
  by_cases hy : y = y'
  · subst hy
    by_cases hx : x = x'
    · exact .inl ⟨hx.symm, rfl⟩
    · refine .inr ?_
      unfold cell?
      cases hrow : f.rows[y]? with
      | none => simp [hrow] at h
      | some row => simpa [hrow, List.getElem?_set_ne hx] using h
  · exact .inr (by simpa [cell?, hy] using h)

theorem Covers.write (h : f.Covers) (hx : x < columns) (hy : y < rowCount) (c : CodePoint) :
    (f.write x y c).Covers where
  rows := by rw [Playfield.write, List.length_modify, h.rows]
  row := by
    intro row hrow
    obtain ⟨i, hi⟩ := List.getElem?_of_mem hrow
    rw [Playfield.write, List.getElem?_modify] at hi
    obtain ⟨old, hold, rfl⟩ := Option.map_eq_some_iff.mp hi
    have hlength := h.row old (List.mem_of_getElem? hold)
    split
    · rw [List.length_set, hlength]
    · exact hlength
  rowExtents := by rw [Playfield.write, List.length_modify, h.rowExtents]
  columnExtents := by rw [Playfield.write, List.length_modify, h.columnExtents]
  rowExtent_le := by
    intro y'
    have hle := h.rowExtent_le y'
    rw [rowExtent_write]
    split <;> omega
  columnExtent_le := by
    intro x'
    have hle := h.columnExtent_le x'
    rw [columnExtent_write]
    split <;> omega
  occupied := by
    intro x' y' c' hcell hblank
    rcases cell?_write hcell with ⟨rfl, rfl⟩ | hold
    · rw [rowExtent_write, columnExtent_write, if_pos ⟨rfl, h.rowExtents ▸ hy⟩,
        if_pos ⟨rfl, h.columnExtents ▸ hx⟩]
      omega
    · obtain ⟨hrow, hcolumn⟩ := h.occupied hold hblank
      exact ⟨Nat.lt_of_lt_of_le hrow (rowExtent_le_write ..),
        Nat.lt_of_lt_of_le hcolumn (columnExtent_le_write ..)⟩

end Playfield

/-! ## 3. Laying out -/

theorem length_padRow {line : Text} (h : line.length ≤ columns) :
    (padRow line).length = columns := by
  rw [padRow, List.length_append, Text.fill, List.length_replicate]
  omega

/-- Behind the line itself a padded row is blank. -/
theorem getElem?_padRow {line : Text} {x : Nat} {c : CodePoint} (h : (padRow line)[x]? = some c)
    (hc : c ≠ Text.space) : x < line.length := by
  refine Nat.lt_of_not_le fun hle => hc ?_
  rw [padRow, List.getElem?_append_right hle] at h
  exact List.eq_of_mem_replicate (List.mem_of_getElem? h)

/-- What stands on the field of a source stands in one of its lines, and the extents are those of
    the lines and of the longest among them. -/
theorem fieldOf_occupied {lines : List Text} {x y : Nat} {c : CodePoint}
    (hcell : (fieldOf lines).cell? x y = some c) (hblank : c ≠ Text.space) :
    x < (fieldOf lines).rowExtent y ∧ y < (fieldOf lines).columnExtent x := by
  obtain ⟨row, hrow, hcell⟩ := Option.bind_eq_some_iff.mp hcell
  simp only [fieldOf] at hrow
  by_cases hy : y < lines.length
  · rw [List.getElem?_append_left (by rw [List.length_map]; exact hy), List.getElem?_map,
      List.getElem?_eq_getElem hy] at hrow
    cases hrow
    have hx : x < lines[y].length := getElem?_padRow hcell hblank
    have hlongest : lines[y].length ≤ (lines.map List.length).foldl max 0 :=
      (List.foldl_max_le_iff.mp (Nat.le_refl _)).2 _ (List.mem_map_of_mem (List.getElem_mem hy))
    constructor
    · simp only [Playfield.rowExtent, fieldOf]
      rw [List.getElem?_append_left (by rw [List.length_map]; exact hy), List.getElem?_map,
        List.getElem?_eq_getElem hy]
      exact hx
    · have hlt : x < (lines.map List.length).foldl max 0 := Nat.lt_of_lt_of_le hx hlongest
      simp only [Playfield.columnExtent, fieldOf]
      rw [List.getElem?_append_left (by rw [List.length_replicate]; exact hlt),
        List.getElem?_replicate, if_pos hlt]
      exact hy
  · rw [List.getElem?_append_right (by rw [List.length_map]; exact Nat.le_of_not_lt hy)] at hrow
    rw [List.eq_of_mem_replicate (List.mem_of_getElem? hrow)] at hcell
    exact absurd (getElem?_padRow hcell hblank) (Nat.not_lt_zero x)

theorem fieldOf_covers {lines : List Text} (hrows : lines.length ≤ rowCount)
    (hlines : ∀ line ∈ lines, line.length ≤ columns) : (fieldOf lines).Covers := by
  have hlengths : ∀ n ∈ lines.map List.length, n ≤ columns := by
    intro n hn
    obtain ⟨line, hline, rfl⟩ := List.mem_map.mp hn
    exact hlines line hline
  have hlongest : (lines.map List.length).foldl max 0 ≤ columns :=
    List.foldl_max_le_iff.mpr ⟨Nat.zero_le _, hlengths⟩
  refine ⟨?_, fun row hrow => ?_, ?_, ?_, fun y => ?_, fun x => ?_, fun {x y c} hcell hblank => ?_⟩
  · simp only [fieldOf, List.length_append, List.length_map, List.length_replicate]
    omega
  · rcases List.mem_append.mp hrow with hrow | hrow
    · obtain ⟨line, hline, rfl⟩ := List.mem_map.mp hrow
      exact length_padRow (hlines line hline)
    · rw [List.eq_of_mem_replicate hrow]
      exact length_padRow (Nat.zero_le _)
  · simp only [fieldOf, List.length_append, List.length_map, List.length_replicate]
    omega
  · simp only [fieldOf, List.length_append, List.length_replicate]
    omega
  · refine List.forall_mem_le_iff.mp (fun n hn => ?_) y
    rcases List.mem_append.mp hn with hn | hn
    · exact hlengths n hn
    · rw [List.eq_of_mem_replicate hn]
      exact Nat.zero_le _
  · refine List.forall_mem_le_iff.mp (fun n hn => ?_) x
    rcases List.mem_append.mp hn with hn | hn
    · rw [List.eq_of_mem_replicate hn]
      exact hrows
    · rw [List.eq_of_mem_replicate hn]
      exact Nat.zero_le _
  · exact fieldOf_occupied hcell hblank

/-- A source that is laid out fits the field, and its field is that of its lines. -/
theorem layOut_ok {code : Text} {f : Playfield} (h : layOut code = .ok f) :
    f = fieldOf code.lines ∧ code.lines.length ≤ rowCount ∧
      ∀ line ∈ code.lines, line.length ≤ columns := by
  unfold layOut at h
  simp only at h
  split at h
  · cases h
  · next hrows =>
    split at h
    · cases h
    · next hlines =>
      cases h
      refine ⟨rfl, Nat.le_of_not_lt hrows, fun line hline => ?_⟩
      have hfits := List.findIdx?_eq_none_iff.mp hlines line hline
      exact Nat.le_of_not_lt (of_decide_eq_false hfits)

theorem layOut_covers {code : Text} {f : Playfield} (h : layOut code = .ok f) : f.Covers := by
  obtain ⟨rfl, hrows, hlines⟩ := layOut_ok h
  exact fieldOf_covers hrows hlines

end Esolang.Befunge
