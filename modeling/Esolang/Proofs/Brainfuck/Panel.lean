/-
  File:      Esolang/Proofs/Brainfuck/Panel.lean
  Subject:   The panel of the tape shows where the pointer is.

  A panel lists the cells up to the last one that was used, so it can mark the pointer only if the
  pointer is not beyond them. It never is: whatever an instruction does, it uses the cell that is
  under the pointer then.

  * `State.OnTape`: nothing was used yet, or the cell under the pointer was; `execute_uses`,
    `advance_onTape`: every instruction that works leaves it in use, so every step keeps this.
  * `Shows`: a row of cells as a panel lists them; `panel_shows`: the panel of a tape on which the
    pointer is.
  * `panel_marks_pointer`: the panels of all states that a program can reach.
-/
import Esolang.Proofs.Brainfuck.Cells
import Esolang.Proofs.Number.Decimal
import Esolang.Value.Panel

namespace Esolang.Brainfuck

open Text (ofString)

/-! ## 1. The pointer's own cell -/

/-- Nothing was used yet, or the cell under the pointer was. -/
def State.OnTape (s : State) : Prop := (s.tape = [] ∧ s.pointer = 0) ∨ s.tape.has s.pointer = true

theorem has_setCell (s : State) (v : Int) : (s.setCell v).tape.has s.pointer = true := by
  rw [State.setCell, Table.has, Table.get?_put_self]
  rfl

/-- An instruction that works uses the cell that is then under the pointer, and the pointer gets one
    cell further at most. -/
theorem execute_uses {s s' : State} {here place : Nat} {i : Instruction} {o : Option Text}
    (hx : execute s here i = .ok (s', place, o)) :
    s'.tape.has s'.pointer = true ∧ s'.pointer ≤ s.pointer + 1 := by
  unfold execute at hx
  cases hc : i.command.item with
  | left =>
    simp only [hc] at hx
    split at hx
    · cases hx
    · cases hx
      exact ⟨has_setCell _ _, Nat.le_trans (Nat.sub_le _ _) (Nat.le_succ _)⟩
  | right =>
    simp only [hc] at hx
    cases hx
    exact ⟨has_setCell _ _, Nat.le_refl _⟩
  | increment | decrement | output =>
    simp only [hc] at hx
    cases hx
    exact ⟨has_setCell s _, Nat.le_succ _⟩
  | input =>
    simp only [hc] at hx
    split at hx
    · cases hx
      exact ⟨has_setCell s _, Nat.le_succ _⟩
    · cases hx
      exact ⟨has_setCell s _, Nat.le_succ _⟩
  | loopStart | loopEnd =>
    simp only [hc] at hx
    split at hx
    · cases hx
      exact ⟨has_setCell s _, Nat.le_succ _⟩
    · cases hx
      exact ⟨has_setCell s _, Nat.le_succ _⟩

/-- **Every step keeps the pointer on the tape**, whatever becomes of it. -/
theorem advance_onTape {s : State} (h : s.OnTape) :
    (advance s).state.OnTape ∧ (advance s).state.pointer ≤ s.pointer + 1 := by
  unfold advance
  split
  · exact ⟨h, Nat.le_succ _⟩
  · split
    · exact ⟨h, Nat.le_succ _⟩
    · split
      · next hx =>
        obtain ⟨huses, hpointer⟩ := execute_uses hx
        exact ⟨.inr huses, hpointer⟩
      · exact ⟨h, Nat.le_succ _⟩

theorem steps_onTape {m : Machine State} (h : m.state.OnTape) (n : Nat) :
    (language.steps n m).2.state.OnTape ∧
      (language.steps n m).2.state.pointer ≤ m.state.pointer + n := by
  induction n with
  | zero => exact ⟨h, Nat.le_refl _⟩
  | succ n ih =>
    obtain ⟨hstep, hnext⟩ := advance_onTape ih.1
    rw [language.steps_succ]
    simp only [language.step_machine]
    exact ⟨hstep, Nat.le_trans hnext (Nat.succ_le_succ ih.2)⟩

/-! ## 2. Panels -/

/-- How a panel writes the value of a cell; a cell that is not in use is zero. -/
def valueText (tape : Table Int Int) (id : Nat) : Text := Decimal.ofInt ((tape.get? id).getD 0)

/-- How a panel writes a cell: its value, with a mark in front if it is under the pointer. -/
def cellText (tape : Table Int Int) (pointer : Int) (id : Nat) : Text :=
  if (id : Int) = pointer then ofString "*" ++ valueText tape id else valueText tape id

/-- A row of cells as a panel lists them: all from the first to the last one that is in use, in
    their order and with their values. The cell under the pointer is one of them, and it alone is
    marked. -/
structure Shows (tape : Table Int Int) (pointer : Int) (cells : List Text) : Prop where
  all : ∃ last : Nat, (last : Int) ∈ tape.keys ∧ (∀ id ∈ tape.keys, id ≤ last) ∧
    cells = (List.range (last + 1)).map (cellText tape pointer)
  under : ∃ id : Nat, (id : Int) = pointer ∧ id < cells.length
  marked : ∀ (id : Nat) text, cells[id]? = some text →
    (text.head? = some (.ofChar '*') ↔ (id : Int) = pointer)

/-- A panel with given cells. -/
def panelText (cells : List Text) (pointer : Int) : Text :=
  ofString "tape: [" ++ Text.join " " cells ++ ofString "] | pointer: " ++ Decimal.ofInt pointer

/-- No value begins with the mark. -/
theorem head_ofInt (v : Int) : (Decimal.ofInt v).head? ≠ some (.ofChar '*') := by
  intro h
  cases v with
  | negSucc n => exact absurd (Option.some.inj h) (by decide)
  | ofNat n =>
    have hdigit := Decimal.ofNat_digits (List.mem_of_head? h)
    exact absurd hdigit (by decide)

theorem head_cellText (tape : Table Int Int) (pointer : Int) (id : Nat) :
    (cellText tape pointer id).head? = some (.ofChar '*') ↔ (id : Int) = pointer := by
  unfold cellText
  by_cases h : (id : Int) = pointer
  · rw [if_pos h]
    exact ⟨fun _ => h, fun _ => rfl⟩
  · rw [if_neg h]
    exact ⟨fun hhead => absurd hhead (head_ofInt _), fun hid => absurd hid h⟩

theorem isLong_of_small {v : Int} (h : v.natAbs < 10000000) : Decimal.isLong v = false := by
  have hlimit : 10000000 ≤ Nat.pow 10 Decimal.limit := by decide +kernel
  exact decide_eq_false (Nat.not_le.mpr (Nat.lt_of_lt_of_le h hlimit))

/-- No character has a number that is too long to be written, so no cell has. -/
theorem Fits.not_isLong {consumed : Text} {v : Int} (h : Fits consumed v) :
    Decimal.isLong v = false := by
  obtain ⟨hleast, hgreatest⟩ := h
  unfold cellMin cellMax at *
  refine isLong_of_small ?_
  rcases hgreatest with hbyte | ⟨c, -, hle⟩
  · omega
  · have hvalid := c.valid
    omega

/-- The cells of a tape can all be written if their values can. -/
theorem tapeCells_eq {tape : Table Int Int} (h : ∀ e ∈ tape, Decimal.isLong e.2 = false)
    (pointer : Int) (count : Nat) :
    tapeCells tape pointer count = .ok ((List.range count).map (cellText tape pointer)) := by
  have hprint : ∀ id : Nat, Decimal.print ((tape.get? id).getD 0) = .ok (valueText tape id) := by
    intro id
    refine Decimal.print_eq_ok.mpr ⟨?_, rfl⟩
    cases hcell : tape.get? id with
    | none => exact isLong_of_small (by decide)
    | some v => exact h ((id : Int), v) (Table.mem_of_get? hcell)
  unfold tapeCells
  simp only [hprint]
  exact List.mapM_pure

section Tape

variable {tape : Table Int Int} {pointer : Int}

theorem foldl_max_keys {last : Nat} (h : tape.keys.max? = some (last : Int)) :
    (tape.map (·.1)).foldl max (-1) = last := by
  show tape.keys.foldl max (-1) = last
  rw [List.foldl_max, h, Option.getD_some]
  omega

theorem panel_eq {cells : List Text}
    (h : tapeCells tape pointer ((tape.map (·.1)).foldl max (-1) + 1).toNat = .ok cells)
    (width : IndentWidth) (level : Int) :
    (Value.display (.brainfuck tape pointer)).panel width level =
      if Decimal.isLong pointer then .error .longNumber else .ok (panelText cells pointer) := by
  rw [Value.panel, Display.panel, h]
  unfold Decimal.print
  cases Decimal.isLong pointer with
  | true => rfl
  | false => rfl

/-- **The panel of a tape on which the pointer is lists all cells up to the last one, and marks the
    pointer.** -/
theorem panel_shows (huses : tape.has pointer = true) (hleast : ∀ id ∈ tape.keys, 0 ≤ id)
    (hshort : ∀ e ∈ tape, Decimal.isLong e.2 = false) :
    ∃ cells, Shows tape pointer cells ∧ ∀ width level,
      (Value.display (.brainfuck tape pointer)).panel width level =
        if Decimal.isLong pointer then .error .longNumber else .ok (panelText cells pointer) := by
  have hpointer : pointer ∈ tape.keys := Table.has_iff_mem_keys.mp huses
  obtain ⟨greatest, hgreatest⟩ := Option.isSome_iff_exists.mp (List.isSome_max?_of_mem hpointer)
  obtain ⟨hmem, hmax⟩ := List.max?_eq_some_iff.mp hgreatest
  obtain ⟨last, rfl⟩ := Int.eq_ofNat_of_zero_le (hleast greatest hmem)
  obtain ⟨place, rfl⟩ := Int.eq_ofNat_of_zero_le (hleast pointer hpointer)
  have hplace : (place : Int) ≤ last := hmax _ hpointer
  refine ⟨(List.range (last + 1)).map (cellText tape place),
    ⟨⟨last, hmem, hmax, rfl⟩, ⟨place, rfl, ?_⟩, ?_⟩, ?_⟩
  · rw [List.length_map, List.length_range]
    omega
  · intro id text h
    obtain ⟨hid, rfl⟩ := List.getElem?_eq_some_iff.mp h
    rw [List.getElem_map, List.getElem_range]
    exact head_cellText tape place id
  · refine panel_eq ?_
    rw [foldl_max_keys hgreatest, tapeCells_eq hshort]
    rfl

end Tape

/-! ## 3. The states of a program -/

/-- The tape as it is displayed, with integers for the cells. -/
def shownTape (s : State) : Table Int Int := s.tape.map fun e => ((e.1 : Int), e.2)

section Display

variable {s : State}

theorem has_shownTape : (shownTape s).has s.pointer = s.tape.has s.pointer := by
  have hget := Table.get?_map (g := fun k : Nat => (k : Int)) (fun _ _ => Int.ofNat.inj)
    (fun v : Int => v) s.tape s.pointer
  unfold Table.has
  rw [shownTape, hget, Option.isSome_map]

theorem shownTape_nonneg : ∀ id ∈ (shownTape s).keys, 0 ≤ id := by
  intro id hid
  obtain ⟨e, he, rfl⟩ := List.mem_map.mp hid
  obtain ⟨e', -, rfl⟩ := List.mem_map.mp he
  exact Int.natCast_nonneg _

theorem shownTape_short {input : Text} (h : s.Fed input) :
    ∀ e ∈ shownTape s, Decimal.isLong e.2 = false := by
  obtain ⟨consumed, -, hfits⟩ := h
  intro e he
  obtain ⟨e', he', rfl⟩ := List.mem_map.mp he
  exact (hfits e' he').not_isLong

end Display

/-- **The panel marks the pointer of every state that a program can reach.** Whatever the program
    and its input, and after any number of steps, nothing was used and the pointer is at the first
    cell, or the cell under the pointer is in use and no cell has a negative number. In the first
    case the panel lists no cells. Otherwise it lists all of them up to the last one that is in use,
    in their order and with their values, and marks the one under the pointer alone. The panel
    cannot be written only where the pointer has more than 4300 digits, and no program gets there in
    fewer than 10^4300 steps. -/
theorem panel_marks_pointer {before m₀ : Machine State} {code input : Text}
    (hload : language.load before code input = .ok m₀) (n : Nat) :
    ∃ tape pointer cells, language.display (language.steps n m₀).2.state = .brainfuck tape pointer ∧
      ((tape = [] ∧ pointer = 0 ∧ cells = []) ∨
        (tape.has pointer = true ∧ (∀ id ∈ tape.keys, 0 ≤ id) ∧ Shows tape pointer cells)) ∧
      (∀ width level, (Value.display (.brainfuck tape pointer)).panel width level =
        if Decimal.isLong pointer then .error .longNumber else .ok (panelText cells pointer)) ∧
      (Decimal.isLong pointer = true → Nat.pow 10 Decimal.limit ≤ n) := by
  obtain ⟨program, hstate⟩ := state_of_load hload
  have hfed := steps_fed hload n
  have hunused : m₀.state.tape = [] ∧ m₀.state.pointer = 0 := by
    rw [hstate]
    exact ⟨rfl, rfl⟩
  obtain ⟨htape, hpointer⟩ := steps_onTape (.inl hunused) n
  rw [hunused.2, Nat.zero_add] at hpointer
  generalize (language.steps n m₀).2.state = s at hfed htape hpointer ⊢
  have hlong : Decimal.isLong (s.pointer : Int) = true → Nat.pow 10 Decimal.limit ≤ n := fun h =>
    Nat.le_trans (of_decide_eq_true h) hpointer
  rcases htape with ⟨hempty, hzero⟩ | huses
  · refine ⟨shownTape s, s.pointer, [], rfl, .inl ⟨?_, ?_, rfl⟩, panel_eq ?_, hlong⟩
    · rw [shownTape, hempty]
      rfl
    · rw [hzero]
      rfl
    · rw [shownTape, hempty]
      rfl
  · obtain ⟨cells, hshows, hpanel⟩ :=
      panel_shows (has_shownTape.trans huses) shownTape_nonneg (shownTape_short hfed)
    exact ⟨shownTape s, s.pointer, cells, rfl, .inr ⟨has_shownTape.trans huses, shownTape_nonneg,
      hshows⟩, hpanel, hlong⟩

/-- A program that counts down in the second cell and never uses the first one, before it goes too
    far to the left. -/
def crossing : Machine State :=
  ⟨{ State.fresh with
      program := [⟨⟨.right, 0, 0⟩, none⟩, ⟨⟨.decrement, 0, 1⟩, none⟩, ⟨⟨.left, 0, 2⟩, none⟩,
        ⟨⟨.left, 0, 3⟩, none⟩] }, []⟩

/-- Before it goes back the panel lists the first cell with a zero, and marks the second one. -/
theorem panel_marks_pointer_crossing :
    language.load ⟨.fresh, []⟩ ">-<<" [] = .ok crossing ∧
      language.display (language.steps 3 crossing).2.state = .brainfuck [(1, -1)] 1 ∧
      (Value.display (.brainfuck [(1, -1)] 1)).panel usualIndent 0 =
        .ok (ofString "tape: [0 *-1] | pointer: 1") := by
  have hload : language.load ⟨.fresh, []⟩ ">-<<" [] = .ok crossing := rfl
  have hshown : language.display (language.steps 3 crossing).2.state = .brainfuck [(1, -1)] 1 := by
    decide +kernel
  obtain ⟨tape, pointer, cells, hdisplay, hcases, hpanel, -⟩ := panel_marks_pointer hload 3
  cases hshown.symm.trans hdisplay
  refine ⟨hload, hshown, (hpanel usualIndent 0).trans ?_⟩
  rcases hcases with ⟨hempty, -⟩ | ⟨-, -, hshows⟩
  · cases hempty
  · obtain ⟨last, hlast, -, rfl⟩ := hshows.all
    obtain rfl : last = 1 := Int.ofNat.inj (List.mem_singleton.mp hlast)
    rw [if_neg (Bool.eq_false_iff.mp (isLong_of_small (by decide)))]
    exact congrArg Except.ok (by decide +kernel)

end Esolang.Brainfuck
