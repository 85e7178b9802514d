/-
  File:      Esolang/Proofs/Brainfuck/Cells.lean
  Subject:   Which values the cells of the tape can have.

  Counting keeps a cell within a signed byte. Reading does not: it stores the code of whatever
  character comes, and counting down from there goes on one by one. So a cell outgrows a byte by
  what has been read, and by nothing else.

  * `Fits`: the values a cell can have once a text has been read; `Fits.up`, `Fits.down`,
    `fits_read`: counting and reading give no others.
  * `State.Fed`, `advance_fed`: every step leaves such values in all cells.
  * `steps_swallow`: a program that stores every character of its input in one cell.
  * `cells_outgrow_bytes_by_reading`: all programs at once; `accent_outgrows_byte`: a cell that is
    no byte.
-/
import Esolang.Brainfuck.Machine
import Esolang.Proofs.Language
import Esolang.Proofs.Table

namespace Esolang.Brainfuck

/-! ## 1. Values -/

/-- A value that a cell can have once a text has been read: it is not below the least value of a
    byte, and not above the greatest one unless a character of the text is as great. -/
def Fits (consumed : Text) (v : Int) : Prop :=
  cellMin ≤ v ∧ (v ≤ cellMax ∨ ∃ c ∈ consumed, v ≤ c.val)

section Values

variable {consumed : Text} {v : Int}

theorem fits_zero : Fits consumed 0 := ⟨by decide, .inl (by decide)⟩

/-- Counting up always ends within a byte. -/
theorem Fits.up (h : Fits consumed v) : Fits consumed (up v) := by
  have hleast := h.1
  unfold Fits Brainfuck.up cellMin cellMax at *
  split
  · exact ⟨by omega, .inl (by omega)⟩
  · exact ⟨by omega, .inl (by omega)⟩

/-- Counting down goes on from wherever the cell is. -/
theorem Fits.down (h : Fits consumed v) : Fits consumed (down v) := by
  obtain ⟨hleast, hgreatest⟩ := h
  unfold Fits Brainfuck.down cellMin cellMax at *
  split
  · exact ⟨by omega, .inl (by omega)⟩
  · refine ⟨by omega, ?_⟩
    rcases hgreatest with hbyte | ⟨c, hc, hle⟩
    · exact .inl (by omega)
    · exact .inr ⟨c, hc, by omega⟩

theorem Fits.mono {more : Text} (h : Fits consumed v) : Fits (consumed ++ more) v := by
  refine ⟨h.1, h.2.imp_right fun hread => ?_⟩
  obtain ⟨c, hc, hle⟩ := hread
  exact ⟨c, List.mem_append_left _ hc, hle⟩

theorem fits_read (consumed : Text) (c : CodePoint) : Fits (consumed ++ [c]) c.val := by
  refine ⟨?_, .inr ⟨c, List.mem_append_right _ List.mem_cons_self, Int.le_refl _⟩⟩
  unfold cellMin
  omega

/-- Without a greater character than 127 in the text, a value that fits is a byte. -/
theorem Fits.byte (h : Fits consumed v) (hsmall : ∀ c ∈ consumed, c.val ≤ 127) :
    cellMin ≤ v ∧ v ≤ cellMax := by
  refine ⟨h.1, ?_⟩
  rcases h.2 with hbyte | ⟨c, hc, hle⟩
  · exact hbyte
  · have hcode := hsmall c hc
    unfold cellMax
    omega

end Values

/-! ## 2. Steps -/

section Tape

variable {consumed : Text} {s : State}

theorem fits_cell (h : ∀ e ∈ s.tape, Fits consumed e.2) : Fits consumed s.cell := by
  unfold State.cell
  cases hcell : s.tape.get? s.pointer with
  | none => exact fits_zero
  | some v => exact h (s.pointer, v) (Table.mem_of_get? hcell)

theorem fits_setCell (h : ∀ e ∈ s.tape, Fits consumed e.2) {v : Int} (hv : Fits consumed v) :
    ∀ e ∈ (s.setCell v).tape, Fits consumed e.2 := by
  intro e he
  rcases Table.mem_put he with hold | rfl
  · exact h e hold
  · exact hv

theorem fits_touch (h : ∀ e ∈ s.tape, Fits consumed e.2) : ∀ e ∈ s.touch.tape, Fits consumed e.2 :=
  fits_setCell h (fits_cell h)

end Tape

/-- Some of the input has been read, and all cells have values that fit it. -/
def State.Fed (input : Text) (s : State) : Prop :=
  ∃ consumed, input = consumed ++ s.input ∧ ∀ e ∈ s.tape, Fits consumed e.2

section Steps

variable {input : Text} {s : State}

theorem execute_fed (h : s.Fed input) {here place : Nat} {i : Instruction} {s' : State}
    {o : Option Text} (hx : execute s here i = .ok (s', place, o)) : s'.Fed input := by
  obtain ⟨consumed, hinput, hfits⟩ := h
  unfold execute at hx
  cases hc : i.command.item with
  | left =>
    simp only [hc] at hx
    split at hx
    · cases hx
    · cases hx
      exact ⟨consumed, hinput, fits_touch hfits⟩
  | right =>
    simp only [hc] at hx
    cases hx
    exact ⟨consumed, hinput, fits_touch hfits⟩
  | increment =>
    simp only [hc] at hx
    cases hx
    exact ⟨consumed, hinput, fits_setCell hfits (fits_cell hfits).up⟩
  | decrement =>
    simp only [hc] at hx
    cases hx
    exact ⟨consumed, hinput, fits_setCell hfits (fits_cell hfits).down⟩
  | output =>
    simp only [hc] at hx
    cases hx
    exact ⟨consumed, hinput, fits_touch hfits⟩
  | input =>
    simp only [hc] at hx
    split at hx
    · cases hx
      exact ⟨consumed, hinput, fits_setCell hfits fits_zero⟩
    · next c rest hrest =>
      -- the character goes over to what has been read
      cases hx
      refine ⟨consumed ++ [c], ?_, fits_setCell (fun e he => (hfits e he).mono)
        (fits_read consumed c)⟩
      rw [hinput, hrest, List.append_assoc]
      rfl
  | loopStart =>
    simp only [hc] at hx
    split at hx
    · cases hx
      exact ⟨consumed, hinput, fits_touch hfits⟩
    · cases hx
      exact ⟨consumed, hinput, fits_touch hfits⟩
  | loopEnd =>
    simp only [hc] at hx
    split at hx
    · cases hx
      exact ⟨consumed, hinput, fits_touch hfits⟩
    · cases hx
      exact ⟨consumed, hinput, fits_touch hfits⟩

/-- **Every step leaves values that fit**, whatever becomes of it. -/
theorem advance_fed (h : s.Fed input) : (advance s).state.Fed input := by
  unfold advance
  split
  · exact h
  · split
    · exact h
    · split
      · next hx =>
        have hfed := execute_fed h hx
        exact hfed
      · exact h

/-- A move left of the first cell is refused and changes nothing. -/
theorem advance_left {here : Nat} {i : Instruction} (hposition : s.position = some here)
    (hi : s.program[here]? = some i) (hleft : i.command.item = .left) (hfirst : s.pointer = 0) :
    advance s = .fault .tapeStart s := by
  simp only [advance, hposition, hi, execute, hleft, hfirst, if_true]

/-- A loaded program has its input before it, and no cell is in use. -/
theorem state_of_load {m m₀ : Machine State} {code input : Text}
    (hload : language.load m code input = .ok m₀) :
    ∃ program, m₀.state = { State.fresh with program, input } := by
  obtain ⟨start, hread, rfl⟩ := language.read_of_load hload
  simp only [language] at hread
  split at hread
  · cases hread
    exact ⟨_, rfl⟩
  · cases hread

theorem steps_fed {m m₀ : Machine State} {code input : Text}
    (hload : language.load m code input = .ok m₀) (n : Nat) :
    (language.steps n m₀).2.state.Fed input := by
  refine language.steps_invariant (P := fun m => m.state.Fed input) (fun m h => ?_) ?_ n
  · rw [language.step_machine]
    exact advance_fed h
  · obtain ⟨program, hstate⟩ := state_of_load hload
    rw [hstate]
    exact ⟨[], rfl, fun e he => absurd he List.not_mem_nil⟩

end Steps

/-! ## 3. A program that reads everything -/

/-- Every character of the input comes to stand in the first cell, one after another. -/
def swallow : Text := ",>+[<,>]"

/-- What is read of it. -/
def swallowProgram : List Instruction := [
  ⟨⟨.input, 0, 0⟩, none⟩,
  ⟨⟨.right, 0, 1⟩, none⟩,
  ⟨⟨.increment, 0, 2⟩, none⟩,
  ⟨⟨.loopStart, 0, 3⟩, some 7⟩,
  ⟨⟨.left, 0, 4⟩, none⟩,
  ⟨⟨.input, 0, 5⟩, none⟩,
  ⟨⟨.right, 0, 6⟩, none⟩,
  ⟨⟨.loopEnd, 0, 7⟩, some 3⟩]

/-- The program at the beginning of its loop, with a value in the first cell. -/
def swallowing (v : Int) (rest : Text) : Machine State :=
  ⟨⟨swallowProgram, [(0, v), (1, 1)], 1, some 3, rest⟩, []⟩

theorem load_swallow (input : Text) :
    language.load ⟨.fresh, []⟩ swallow input =
      .ok ⟨{ State.fresh with program := swallowProgram, input }, []⟩ := rfl

theorem steps_round (v : Int) (c : CodePoint) (rest : Text) :
    (language.steps 5 (swallowing v (c :: rest))).2 = swallowing c.val rest := by
  let inside (place pointer : Nat) (value : Int) (input : Text) : Machine State :=
    ⟨⟨swallowProgram, [(0, value), (1, 1)], pointer, some place, input⟩, []⟩
  have henter : (language.step (swallowing v (c :: rest))).machine = inside 4 1 v (c :: rest) := rfl
  have hleft : (language.step (inside 4 1 v (c :: rest))).machine = inside 5 0 v (c :: rest) := rfl
  have hread : (language.step (inside 5 0 v (c :: rest))).machine = inside 6 0 c.val rest := rfl
  have hright : (language.step (inside 6 0 c.val rest)).machine = inside 7 1 c.val rest := rfl
  have hback : (language.step (inside 7 1 c.val rest)).machine = swallowing c.val rest := rfl
  simp only [Language.steps, henter, hleft, hread, hright, hback]

theorem steps_rounds (v : Int) (front : Text) (c : CodePoint) (back : Text) :
    (language.steps (5 * (front.length + 1)) (swallowing v (front ++ c :: back))).2 =
      swallowing c.val back := by
  induction front generalizing v with
  | nil => exact steps_round v c back
  | cons d front ih =>
    have hrounds : 5 * ((d :: front).length + 1) = 5 + 5 * (front.length + 1) := by
      rw [List.length_cons]
      omega
    rw [hrounds, language.steps_add, List.cons_append, steps_round]
    exact ih d.val

/-- **Any character of an input is stored at some time.** -/
theorem steps_swallow {input : Text} {c : CodePoint} (hc : c ∈ input) :
    ∃ n rest, (language.steps n ⟨{ State.fresh with program := swallowProgram, input }, []⟩).2 =
      swallowing c.val rest := by
  obtain ⟨front, back, rfl⟩ := List.append_of_mem hc
  cases front with
  | nil => exact ⟨4, back, rfl⟩
  | cons d front =>
    refine ⟨4 + 5 * (front.length + 1), back, ?_⟩
    rw [language.steps_add]
    exact steps_rounds d.val front c back

/-! ## 4. All programs -/

/-- **Cells outgrow a signed byte by reading alone.** Whatever the program and after any number of
    steps, no cell is below -128, and a cell above 127 is not above all characters that have been
    read. So all programs keep all cells within a byte exactly for those inputs that have no
    character above 127. The pointer is never negative, and neither is the number of a cell: a move
    left of the first cell is reported and leaves the machine as it is. -/
theorem cells_outgrow_bytes_by_reading (input : Text) :
    (∀ before code m₀ n, language.load before code input = .ok m₀ →
      let last := (language.steps n m₀).2
      (∃ consumed, input = consumed ++ last.state.input ∧ ∀ id v, (id, v) ∈ last.state.tape →
        cellMin ≤ v ∧ (v ≤ cellMax ∨ ∃ c ∈ consumed, v ≤ c.val)) ∧
      (∀ tape pointer, language.display last.state = .brainfuck tape pointer →
        0 ≤ pointer ∧ ∀ id v, (id, v) ∈ tape → 0 ≤ id) ∧
      ∀ here i, last.state.position = some here → last.state.program[here]? = some i →
        i.command.item = .left → last.state.pointer = 0 →
        (language.step last).machine = last ∧ ∃ r, (language.step last).outcome = .ok r ∧
        r.error = some .tapeStart) ∧
    ((∀ before code m₀ n, language.load before code input = .ok m₀ →
      ∀ id v, (id, v) ∈ (language.steps n m₀).2.state.tape → cellMin ≤ v ∧ v ≤ cellMax) ↔
        ∀ c ∈ input, c.val ≤ 127) := by
  refine ⟨fun before code m₀ n hload => ?_, fun hbytes c hc => ?_,
    fun hsmall before code m₀ n hload id v hv => ?_⟩
  · intro last
    obtain ⟨consumed, hinput, hfits⟩ := steps_fed hload n
    refine ⟨⟨consumed, hinput, fun id v hv => hfits (id, v) hv⟩, fun tape pointer hshown => ?_,
      fun here i hposition hi hleft hfirst => ?_⟩
    · cases hshown
      refine ⟨Int.natCast_nonneg _, fun id v hv => ?_⟩
      obtain ⟨e, -, he⟩ := List.mem_map.mp hv
      cases he
      exact Int.natCast_nonneg _
    · have hfault : language.advance last = .fault .tapeStart last := by
        simp only [language, advance_left hposition hi hleft hfirst]
        rfl
      rw [language.step_of_fault hfault]
      exact ⟨rfl, _, rfl, rfl⟩
  · obtain ⟨n, rest, hsteps⟩ := steps_swallow hc
    have hcell : (0, (c.val : Int)) ∈ (swallowing c.val rest).state.tape := List.mem_cons_self
    rw [← hsteps] at hcell
    have hbyte := (hbytes _ _ _ n (load_swallow input) 0 c.val hcell).2
    unfold cellMax at hbyte
    omega
  · obtain ⟨consumed, hinput, hfits⟩ := steps_fed hload n
    refine (hfits (id, v) hv).byte fun c hc => hsmall c ?_
    rw [hinput]
    exact List.mem_append_left _ hc

/-- An accented letter that is read is stored as it is, and no byte has its value. -/
theorem accent_outgrows_byte :
    ∃ m₀, language.load ⟨.fresh, []⟩ "," "é" = .ok m₀ ∧
      (0, 233) ∈ (language.steps 2 m₀).2.state.tape ∧ ¬ (cellMin ≤ 233 ∧ 233 ≤ cellMax) := by
  refine ⟨⟨{ State.fresh with program := [⟨⟨.input, 0, 0⟩, none⟩], input := "é" }, []⟩, rfl,
    ?_, by decide⟩
  decide +kernel

end Esolang.Brainfuck
