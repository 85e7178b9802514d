/-
  File:      Esolang/Proofs/Befunge/Bounds.lean
  Subject:   The pointer stays on the field, and within the occupied part along its way.

  In string mode the pointer wanders over the whole field, and across its way it can leave the
  occupied part at any time. But whenever it moves outside string mode it arrives within the extent
  of the row or column that it moves along.

  * `Playfield.Along`: the occupied part along a direction.
  * `State.Fits`: the invariant; `State.Placed.move`: every movement establishes it.
  * `fits_load`, `State.Fits.step`: every loaded program has it, and every step preserves it.
-/
import Esolang.Proofs.Befunge.Moves
import Esolang.Proofs.Befunge.Playfield
import Esolang.Proofs.Language

namespace Esolang.Befunge

/-! ## 1. One movement -/

theorem onward_le (last n : Nat) : onward last n ≤ last := by
  unfold onward
  split <;> omega

theorem backward_le (last n : Nat) : backward last n ≤ last := by
  unfold backward
  split
  · exact Nat.le_refl _
  · split <;> omega

/-- Whether a cell is within the occupied part along a direction. -/
def Playfield.Along (f : Playfield) (d : Direction) (x y : Nat) : Prop :=
  match d with
  | .left | .right => x ≤ f.rowExtent y - 1
  | .up | .down => y ≤ f.columnExtent x - 1

variable {f : Playfield} {x y : Nat}

theorem ahead_along (d : Direction) :
    f.Along d (ahead f d false x y).1 (ahead f d false x y).2 := by
  cases d with
  | up => exact backward_le _ _
  | down => exact onward_le _ _
  | left => exact backward_le _ _
  | right => exact onward_le _ _

theorem ahead_lt (h : f.Covers) (hx : x < columns) (hy : y < rowCount) (d : Direction)
    (mode : Bool) : (ahead f d mode x y).1 < columns ∧ (ahead f d mode x y).2 < rowCount := by
  have hrow := h.rowExtent_le y
  have hcolumn := h.columnExtent_le x
  have hcolumns : columns = 80 := rfl
  have hrows : rowCount = 25 := rfl
  cases mode with
  | true =>
    cases d with
    | up => exact ⟨hx, Nat.mod_lt _ (by decide)⟩
    | down => exact ⟨hx, Nat.mod_lt _ (by decide)⟩
    | left => exact ⟨Nat.mod_lt _ (by decide), hy⟩
    | right => exact ⟨Nat.mod_lt _ (by decide), hy⟩
  | false =>
    have halong := ahead_along (f := f) (x := x) (y := y) d
    cases d with
    | up =>
      have hle : (ahead f .up false x y).2 ≤ f.columnExtent x - 1 := halong
      exact ⟨hx, by omega⟩
    | down =>
      have hle : (ahead f .down false x y).2 ≤ f.columnExtent x - 1 := halong
      exact ⟨hx, by omega⟩
    | left =>
      have hle : (ahead f .left false x y).1 ≤ f.rowExtent y - 1 := halong
      exact ⟨by omega, hy⟩
    | right =>
      have hle : (ahead f .right false x y).1 ≤ f.rowExtent y - 1 := halong
      exact ⟨by omega, hy⟩

/-- Where something stands is occupied along every direction. -/
theorem Playfield.Covers.along (h : f.Covers) {c : CodePoint} (hcell : f.cell? x y = some c)
    (hc : c ≠ Text.space) (d : Direction) : f.Along d x y := by
  obtain ⟨hrow, hcolumn⟩ := h.occupied hcell hc
  cases d with
  | up => exact Nat.le_sub_one_of_lt hcolumn
  | down => exact Nat.le_sub_one_of_lt hcolumn
  | left => exact Nat.le_sub_one_of_lt hrow
  | right => exact Nat.le_sub_one_of_lt hrow

/-- Writing a cell leaves occupied what was occupied. -/
theorem Playfield.Along.write {d : Direction} (h : f.Along d x y) (x' y' : Nat) (c : CodePoint) :
    (f.write x' y' c).Along d x y := by
  have hrow := f.rowExtent_le_write x' y' c y
  have hcolumn := f.columnExtent_le_write x' y' c x
  cases d with
  | up => exact Nat.le_trans h (Nat.sub_le_sub_right hcolumn 1)
  | down => exact Nat.le_trans h (Nat.sub_le_sub_right hcolumn 1)
  | left => exact Nat.le_trans h (Nat.sub_le_sub_right hrow 1)
  | right => exact Nat.le_trans h (Nat.sub_le_sub_right hrow 1)

/-! ## 2. The invariant -/

/-- A full field, covered by its extents, and a pointer on it. -/
structure State.Placed (s : State) : Prop where
  covers : s.field.Covers
  pointer : ∀ {x y : Nat}, s.pointer = some (x, y) → x < columns ∧ y < rowCount

/-- Outside string mode the pointer is moreover within the occupied part along its way. -/
structure State.Fits (s : State) : Prop extends s.Placed where
  along : ∀ {x y : Nat}, s.pointer = some (x, y) → s.stringMode = false →
    s.field.Along s.direction x y

namespace State

variable {s s' : State}

/-- Every movement leads where the invariant wants the pointer. -/
theorem Placed.move (h : s.Placed) : s.move.Fits := by
  cases hpointer : s.pointer with
  | none =>
    have hmove : s.move = s := by
      obtain ⟨field, padding, stack, pointer, direction, stringMode, input⟩ := s
      cases hpointer
      rfl
    rw [hmove]
    exact ⟨h, fun hsome => nomatch hpointer.symm.trans hsome⟩
  | some place =>
    obtain ⟨x, y⟩ := place
    obtain ⟨hx, hy⟩ := h.pointer hpointer
    have hmoved : s.move.pointer = some (ahead s.field s.direction s.stringMode x y) := by
      unfold State.move
      rw [hpointer]
      rfl
    refine ⟨⟨h.covers, fun hsome => ?_⟩, fun hsome hmode => ?_⟩
    · rw [hmoved] at hsome
      have hlt := ahead_lt h.covers hx hy s.direction s.stringMode
      rw [Option.some.inj hsome] at hlt
      exact hlt
    · rw [hmoved] at hsome
      have hmode' : s.stringMode = false := hmode
      rw [hmode'] at hsome
      have halong := ahead_along (f := s.field) (x := x) (y := y) s.direction
      rw [Option.some.inj hsome] at halong
      exact halong

/-- An instruction leaves the pointer on the field. -/
theorem Placed.act (h : s.Placed) (hpointer : s'.pointer = s.pointer)
    (hfield : s'.field = s.field ∨ ∃ x y c, x < columns ∧ y < rowCount ∧
      s'.field = s.field.write x y c) : s'.Placed := by
  refine ⟨?_, fun hsome => h.pointer (hpointer ▸ hsome)⟩
  rcases hfield with hfield | ⟨x, y, c, hx, hy, hfield⟩
  · rw [hfield]
    exact h.covers
  · rw [hfield]
    exact h.covers.write hx hy c

end State

/-! ## 3. Steps -/

theorem language_step (m : Machine State) :
    (language.step m).machine = (advanceWith State.move m).state := by
  rw [Language.step_machine, advanceWith_move]
  rfl

/-- Every step preserves the invariant, whatever it executes. -/
theorem State.Fits.step {m : Machine State} (h : m.state.Fits) :
    (language.step m).machine.state.Fits := by
  rw [language_step]
  cases acts m with
  | starts hpointer hall =>
    rw [hall]
    refine ⟨⟨h.covers, fun hsome => ?_⟩, fun hsome _ => ?_⟩
    · cases hsome
      exact ⟨by decide, by decide⟩
    · cases hsome
      show m.state.field.Along m.state.direction 0 0
      cases m.state.direction <;> exact Nat.zero_le _
  | stays e m' hall hpointer hfield hdirection hmode =>
    -- a step that fails turns nothing, so the pointer is as well placed as before
    rw [hall]
    refine ⟨h.toPlaced.act hpointer (.inl hfield), fun hsome hmode' => ?_⟩
    rw [hfield, hdirection]
    exact h.along (hpointer ▸ hsome) (hmode ▸ hmode')
  | moves p m' hall hpointer hcell hstill hfield hblank =>
    rw [hall]
    exact (h.toPlaced.act hstill hfield).move
  | bridges hall hpointer hcell hmode =>
    rw [hall]
    exact h.toPlaced.move.toPlaced.move

/-- Every loaded program has it. -/
theorem fits_load {m m' : Machine State} {code input : Text}
    (h : language.load m code input = .ok m') : m'.state.Fits := by
  obtain ⟨start, hread, rfl⟩ := Language.read_of_load _ h
  simp only [language] at hread
  split at hread
  · next hlayout =>
    cases hread
    exact ⟨⟨layOut_covers hlayout, nofun⟩, nofun⟩
  · cases hread

end Esolang.Befunge
