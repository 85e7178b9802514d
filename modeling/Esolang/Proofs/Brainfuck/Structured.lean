/-
  File:      Esolang/Proofs/Brainfuck/Structured.lean
  Subject:   What a program means, by its tree and without places, and what one step of the machine
             means.

  A tree works on a store, whose tape has a value in every cell. A loop is evaluated as long as the
  cell under the pointer is not zero. The machine keeps only the cells it has used.

  * `Store`, `Store.act`, `Runs`: the evaluation of a tree.
  * `State.store`: the store of a state; `execute_action`, `execute_start`, `execute_end`: what the
    commands do to it.
  * `advance_cases`: everything a step can do.
-/
import Esolang.Brainfuck.Machine
import Esolang.Proofs.Brainfuck.Nesting

namespace Esolang.Brainfuck

/-! ## 1. Evaluation of a tree -/

/-- What a program works on. -/
structure Store where
  /-- The value of every cell. -/
  tape : Nat → Int
  /-- The cell commands work on. -/
  pointer : Nat
  /-- The input still to be read. -/
  input : Text

namespace Store

/-- A blank tape with the pointer on its first cell. -/
def blank (input : Text) : Store := ⟨fun _ => 0, 0, input⟩

/-- The value of the cell under the pointer. -/
def cell (σ : Store) : Int := σ.tape σ.pointer

/-- The store with a value in the cell under the pointer. -/
def set (σ : Store) (v : Int) : Store :=
  { σ with tape := fun n => if n = σ.pointer then v else σ.tape n }

/-- The store after an action, and what the action wrote; none when it moves left of the first
    cell. -/
def act (σ : Store) : Action → Option (Store × Text)
  | .left => if σ.pointer = 0 then none else some ({ σ with pointer := σ.pointer - 1 }, [])
  | .right => some ({ σ with pointer := σ.pointer + 1 }, [])
  | .increment => some (σ.set (up σ.cell), [])
  | .decrement => some (σ.set (down σ.cell), [])
  | .output => some (σ, [cellChar σ.cell])
  | .input =>
    match σ.input with
    | [] => some (σ.set 0, [])
    | c :: rest => some ({ σ.set c.val with input := rest }, [])

end Store

/-- How an evaluation comes to its end. -/
inductive Ending where
  /-- Behind the last command. -/
  | through
  /-- At a move left of the first cell. -/
  | fellOff
deriving DecidableEq

/-- A tree evaluated on a store: its ending, what was written, and the store afterwards. -/
inductive Runs : Block → Store → Ending → Text → Store → Prop where
  | done {σ : Store} : Runs .done σ .through [] σ
  | act {a : Action} {rest : Block} {σ σ₁ σ' : Store} {e : Ending} {t out : Text}
      (ha : σ.act a = some (σ₁, t)) (hrest : Runs rest σ₁ e out σ') : Runs (.act a rest) σ e
        (t ++ out) σ'
  | fall {a : Action} {rest : Block} {σ : Store} (ha : σ.act a = none) :
      Runs (.act a rest) σ .fellOff [] σ
  /-- A loop that is over. -/
  | skip {body rest : Block} {σ σ' : Store} {e : Ending} {out : Text} (hzero : σ.cell = 0)
      (hrest : Runs rest σ e out σ') : Runs (.loop body rest) σ e out σ'
  /-- A loop that is evaluated again after its body. -/
  | again {body rest : Block} {σ σ₁ σ' : Store} {e : Ending} {out₁ out : Text} (hne : σ.cell ≠ 0)
      (hbody : Runs body σ .through out₁ σ₁) (hloop : Runs (.loop body rest) σ₁ e out σ') :
      Runs (.loop body rest) σ e (out₁ ++ out) σ'
  /-- A loop whose body moves left of the first cell. -/
  | fallInside {body rest : Block} {σ σ' : Store} {out : Text} (hne : σ.cell ≠ 0)
      (hbody : Runs body σ .fellOff out σ') : Runs (.loop body rest) σ .fellOff out σ'

/-! ## 2. The store of a state -/

/-- The store of a state: a cell that was never used is zero. -/
def State.store (s : State) : Store := ⟨fun n => (s.tape.get? n).getD 0, s.pointer, s.input⟩

theorem store_setCell (s : State) (v : Int) : (s.setCell v).store = s.store.set v := by
  have htape : ∀ n, ((s.tape.put s.pointer v).get? n).getD 0 =
      if n = s.pointer then v else (s.tape.get? n).getD 0 := by
    intro n
    by_cases hn : n = s.pointer
    · rw [if_pos hn, hn, Table.get?_put_self]
      rfl
    · rw [if_neg hn, Table.get?_put_of_ne _ _ hn]
  simp only [State.store, State.setCell, Store.set, htape]
  rfl

/-- A cell that comes into use had its value before. -/
theorem store_touch (s : State) : s.touch.store = s.store := by
  have htape : (s.store.set s.cell).tape = s.store.tape := by
    funext n
    show (if n = s.pointer then s.cell else s.store.tape n) = s.store.tape n
    by_cases hn : n = s.pointer
    · rw [if_pos hn, hn]
      rfl
    · rw [if_neg hn]
  rw [State.touch, store_setCell]
  show Store.mk (s.store.set s.cell).tape s.pointer s.input = s.store
  rw [htape]
  rfl

/-! ## 3. One step -/

section Execute

variable (s : State) (here : Nat) {i : Instruction}

/-- An action does to the store of a state what it does to a store, and leads to the next place. -/
theorem execute_action (a : Action) (hc : i.command.item = a.command) :
    (s.store.act a = none ∧ execute s here i = .error .tapeStart) ∨
      ∃ s' o, execute s here i = .ok (s', here + 1, o) ∧ s'.program = s.program ∧
        s.store.act a = some (s'.store, o.getD []) := by
  cases a with
  | left =>
    by_cases hfirst : s.pointer = 0
    · refine .inl ⟨if_pos hfirst, ?_⟩
      simp only [execute, hc, Action.command, if_pos hfirst]
    · refine .inr ⟨State.touch { s with pointer := s.pointer - 1 }, none, ?_, rfl, ?_⟩
      · simp only [execute, hc, Action.command, if_neg hfirst]
      · rw [store_touch]
        exact if_neg hfirst
  | right =>
    refine .inr ⟨State.touch { s with pointer := s.pointer + 1 }, none, ?_, rfl, ?_⟩
    · simp only [execute, hc, Action.command]
    · rw [store_touch]
      rfl
  | increment =>
    refine .inr ⟨s.setCell (up s.cell), none, ?_, rfl, ?_⟩
    · simp only [execute, hc, Action.command]
    · rw [store_setCell]
      rfl
  | decrement =>
    refine .inr ⟨s.setCell (down s.cell), none, ?_, rfl, ?_⟩
    · simp only [execute, hc, Action.command]
    · rw [store_setCell]
      rfl
  | output =>
    refine .inr ⟨s.touch, some [cellChar s.cell], ?_, rfl, ?_⟩
    · simp only [execute, hc, Action.command]
    · rw [store_touch]
      rfl
  | input =>
    have hread : s.store.input = s.input := rfl
    cases hinput : s.input with
    | nil =>
      refine .inr ⟨s.setCell 0, none, ?_, rfl, ?_⟩
      · simp only [execute, hc, Action.command, hinput]
      · rw [store_setCell]
        simp only [Store.act, hread, hinput]
        rfl
    | cons c rest =>
      refine .inr ⟨{ s.setCell c.val with input := rest }, none, ?_, rfl, ?_⟩
      · simp only [execute, hc, Action.command, hinput]
      · have hstore : State.store { s.setCell c.val with input := rest } =
            { (s.setCell c.val).store with input := rest } := rfl
        rw [hstore, store_setCell]
        simp only [Store.act, hread, hinput]
        rfl

theorem execute_start (hc : i.command.item = .loopStart) :
    execute s here i = .ok (s.touch, if s.store.cell = 0 then i.partner.getD here + 1 else here + 1,
      none) := by
  have hcell : s.store.cell = s.cell := rfl
  by_cases hzero : s.cell = 0
  · simp only [execute, hc, hcell, if_pos hzero]
  · simp only [execute, hc, hcell, if_neg hzero]

theorem execute_end (hc : i.command.item = .loopEnd) :
    execute s here i = .ok (s.touch, if s.store.cell = 0 then here + 1 else i.partner.getD here,
      none) := by
  have hcell : s.store.cell = s.cell := rfl
  by_cases hzero : s.cell = 0
  · simp only [execute, hc, hcell, if_pos hzero]
  · simp only [execute, hc, hcell, if_neg hzero]

theorem execute_cases (i : Instruction) :
    (∃ s' place o, execute s here i = .ok (s', place, o)) ∨
      execute s here i = .error .tapeStart := by
  rcases Command.cases i.command.item with ⟨a, hc⟩ | hc | hc
  · rcases execute_action s here a hc with ⟨-, h⟩ | ⟨s', o, h, -⟩
    · exact .inr h
    · exact .inl ⟨s', here + 1, o, h⟩
  · exact .inl ⟨_, _, _, execute_start s here hc⟩
  · exact .inl ⟨_, _, _, execute_end s here hc⟩

end Execute

/-- **What a step can do**: it works, it falls off the tape, or there is nothing at its place. -/
theorem advance_cases (s : State) :
    (∃ o s', advance s = .ok (.writing o) s' ∧ s'.position ≠ none ∧
      (s.position ≠ none → location s ≠ none)) ∨
      (advance s = .fault .tapeStart s ∧ location s ≠ none) ∨
      (advance s = .breakdown .nothingThere s ∧ location s = none ∧ s.position ≠ none) := by
  cases hpos : s.position with
  | none =>
    refine .inl ⟨none, { s with position := some 0 }, ?_, Option.some_ne_none 0,
      fun h => absurd rfl h⟩
    simp only [advance, hpos]
    rfl
  | some here =>
    cases hi : s.program[here]? with
    | none =>
      refine .inr (.inr ⟨?_, ?_, Option.some_ne_none here⟩)
      · simp only [advance, hpos, hi]
      · simp only [location, hpos, Option.bind_some, hi, Option.map_none]
    | some i =>
      have hlive : location s ≠ none := by
        simp only [location, hpos, Option.bind_some, hi, Option.map_some]
        exact Option.some_ne_none _
      rcases execute_cases s here i with ⟨s', place, o, h⟩ | h
      · refine .inl ⟨o, { s' with position := some place }, ?_, Option.some_ne_none place,
          fun _ => hlive⟩
        simp only [advance, hpos, hi, h]
      · refine .inr (.inl ⟨?_, hlive⟩)
        simp only [advance, hpos, hi, h]

end Esolang.Brainfuck
