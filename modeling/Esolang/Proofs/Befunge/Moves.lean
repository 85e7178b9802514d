/-
  File:      Esolang/Proofs/Befunge/Moves.lean
  Subject:   What one step does, whichever way the pointer moves.

  A step executes the cell under the pointer and then moves the pointer. Everything but the movement
  is the same for every way of moving: the machine has been brought where the movement starts, or
  the step has failed and nothing moves. Only a bridge moves the pointer in between.

  * `advanceWith`: one step with a given movement; `advanceWith_move`: with the machine's own.
  * `Worked`: what an instruction can do to a state; `perform_worked`: every instruction but a
    bridge.
  * `Acts`, `acts`: what a step can do, for all movements at once.
-/
import Esolang.Befunge.Machine
import Esolang.Proofs.Text

namespace Esolang

namespace Befunge

/-! ## 1. Steps with any movement -/

/-- One instruction, with a given movement of the pointer. -/
def performWith (move : State → State) (m : Machine State) :
    Instruction → Attempt (Machine State) Effect
  | .bridge => .ok .none { m with state := move m.state }
  | i => perform m i

/-- One step, with a given movement of the pointer. -/
def advanceWith (move : State → State) (m : Machine State) : Attempt (Machine State) Progress :=
  match m.state.pointer with
  | none => .ok ⟨none, some m.state.padding, false, []⟩ { m with state.pointer := some (0, 0) }
  | some (x, y) =>
    match m.state.field.cell? x y with
    | none => .breakdown .nothingThere m
    | some c =>
      if m.state.stringMode ∧ c ≠ '"' then
        .ok .quiet { m with state := move (m.state.withStack (c.val :: m.state.stack)) }
      else
        match Instruction.ofCodePoint? c with
        | none => .fault .notAnInstruction m
        | some i =>
          (performWith move m i).andThen fun effect m' =>
            .ok ⟨effect.output, effect.edit.map ([·]), effect.ended, []⟩
              { m' with state := move m'.state }

theorem performWith_move (m : Machine State) (i : Instruction) :
    performWith State.move m i = perform m i := by
  cases i with
  | bridge => rfl
  | _ => rfl

/-- The machine's own movement gives the machine's own steps. -/
theorem advanceWith_move : advanceWith State.move = advance := by
  funext m
  unfold advanceWith advance
  simp only [performWith_move]
  rfl

/-! ## 2. Instructions -/

/-- What an instruction can make of a state: the pointer stays, at most one cell is written, and if
    the instruction fails the stack and the input are all that has changed. -/
structure Worked (s : State) (outcome : Except Failure Effect) (s' : State) : Prop where
  pointer : s'.pointer = s.pointer
  field : s'.field = s.field ∨ ∃ x y c, x < columns ∧ y < rowCount ∧ s'.field = s.field.write x y c
  failed : ∀ e, outcome = .error e →
    s'.field = s.field ∧ s'.direction = s.direction ∧ s'.stringMode = s.stringMode

theorem Worked.tame {s s' : State} {outcome : Except Failure Effect}
    (hpointer : s'.pointer = s.pointer) (hfield : s'.field = s.field)
    (hdirection : s'.direction = s.direction) (hmode : s'.stringMode = s.stringMode) :
    Worked s outcome s' :=
  ⟨hpointer, .inl hfield, fun _ _ => ⟨hfield, hdirection, hmode⟩⟩

theorem onField_lt {x y : Int} (h : onField x y = true) :
    x.toNat < columns ∧ y.toNat < rowCount := by
  simp only [onField, Bool.and_eq_true, decide_eq_true_eq] at h
  omega

theorem writeCell_worked (s : State) : Worked s (writeCell s).outcome (writeCell s).state := by
  unfold writeCell
  simp only
  split
  · next hon =>
    obtain ⟨hx, hy⟩ := onField_lt hon
    split
    · next c _ => exact ⟨rfl, .inr ⟨_, _, c, hx, hy, rfl⟩, nofun⟩
    · split
      · exact .tame rfl rfl rfl rfl
      · exact .tame rfl rfl rfl rfl
  · exact .tame rfl rfl rfl rfl

theorem readCell_worked (s : State) : Worked s (readCell s).outcome (readCell s).state := by
  unfold readCell
  simp only
  split
  · split
    · exact .tame rfl rfl rfl rfl
    · exact .tame rfl rfl rfl rfl
  · exact .tame rfl rfl rfl rfl

theorem execute_worked (s : State) {i : Instruction} (hi : i ≠ .bridge) :
    Worked s (execute s i).outcome (execute s i).state := by
  cases i with
  | bridge => exact absurd rfl hi
  | put => exact writeCell_worked s
  | get => exact readCell_worked s
  | turn d => exact ⟨rfl, .inl rfl, nofun⟩
  | branchHorizontally => exact ⟨rfl, .inl rfl, nofun⟩
  | branchVertically => exact ⟨rfl, .inl rfl, nofun⟩
  | toggleString => exact ⟨rfl, .inl rfl, nofun⟩
  | divide =>
    unfold execute
    simp only
    split
    · exact .tame rfl rfl rfl rfl
    · exact .tame rfl rfl rfl rfl
  | remainder =>
    unfold execute
    simp only
    split
    · exact .tame rfl rfl rfl rfl
    · split
      · exact .tame rfl rfl rfl rfl
      · exact .tame rfl rfl rfl rfl
  | writeNumber =>
    unfold execute
    simp only
    split
    · exact .tame rfl rfl rfl rfl
    · exact .tame rfl rfl rfl rfl
  | writeCharacter =>
    unfold execute
    simp only
    split
    · exact .tame rfl rfl rfl rfl
    · split
      · exact .tame rfl rfl rfl rfl
      · exact .tame rfl rfl rfl rfl
  | readNumber =>
    unfold execute
    simp only
    split
    · exact .tame rfl rfl rfl rfl
    · exact .tame rfl rfl rfl rfl
  | _ => exact .tame rfl rfl rfl rfl

theorem perform_eq (m : Machine State) {i : Instruction} (hi : i ≠ .turnRandomly) :
    perform m i = (execute m.state i).lift ({ m with state := · }) := by
  cases i with
  | turnRandomly => exact absurd rfl hi
  | _ => rfl

theorem perform_worked (m : Machine State) {i : Instruction} (hi : i ≠ .bridge) :
    Worked m.state (perform m i).outcome (perform m i).state.state := by
  by_cases hrandom : i = .turnRandomly
  · subst hrandom
    exact ⟨rfl, .inl rfl, nofun⟩
  · rw [perform_eq m hrandom]
    exact execute_worked m.state hi

/-! ## 3. Steps -/

/-- What a step can do, the same for all movements. -/
inductive Acts (m : Machine State) : Prop
  /-- The first step goes to the top left cell. -/
  | starts (hpointer : m.state.pointer = none)
      (h : ∀ move, advanceWith move m =
        .ok ⟨none, some m.state.padding, false, []⟩ { m with state.pointer := some (0, 0) })
  /-- The step fails, and the pointer stays. -/
  | stays (e : Failure) (m' : Machine State) (h : ∀ move, advanceWith move m = ⟨.error e, m'⟩)
      (hpointer : m'.state.pointer = m.state.pointer) (hfield : m'.state.field = m.state.field)
      (hdirection : m'.state.direction = m.state.direction) (hmode : m'.state.stringMode =
        m.state.stringMode)
  /-- The step works, and the pointer moves. A blank cell is data in string mode and does nothing
      else. -/
  | moves {x y : Nat} {c : CodePoint} (p : Progress) (m' : Machine State)
      (h : ∀ move, advanceWith move m = .ok p { m' with state := move m'.state })
      (hpointer : m.state.pointer = some (x, y)) (hcell : m.state.field.cell? x y = some c)
      (hstill : m'.state.pointer = m.state.pointer)
      (hfield : m'.state.field = m.state.field ∨
        ∃ x y c, x < columns ∧ y < rowCount ∧ m'.state.field = m.state.field.write x y c)
      (hblank : c = Text.space → m.state.stringMode = true ∧ m'.state.stringMode = true ∨
        m.state.stringMode = false ∧ m' = m ∧ p = .quiet)
  /-- A bridge moves the pointer twice. -/
  | bridges {x y : Nat} (h : ∀ move, advanceWith move m =
        .ok .quiet { m with state := move (move m.state) })
      (hpointer : m.state.pointer = some (x, y))
      (hcell : m.state.field.cell? x y = some (CodePoint.ofChar '#'))
      (hmode : m.state.stringMode = false)

theorem ofCodePoint?_bridge {c : CodePoint} (h : Instruction.ofCodePoint? c = some .bridge) :
    c = CodePoint.ofChar '#' := by
  unfold Instruction.ofCodePoint? at h
  split at h
  · cases h
  · -- of all characters only one stands for a bridge
    split at h <;> try cases h
    next hc => exact CodePoint.eq_of_char? hc

theorem performWith_of_ne (move : State → State) (m : Machine State) {i : Instruction}
    (hi : i ≠ .bridge) : performWith move m i = perform m i := by
  cases i with
  | bridge => exact absurd rfl hi
  | _ => rfl

/-- **What a step can do**, said once for all movements. -/
theorem acts (m : Machine State) : Acts m := by
  cases hpointer : m.state.pointer with
  | none => exact .starts hpointer fun move => by simp only [advanceWith, hpointer]
  | some place =>
    obtain ⟨x, y⟩ := place
    cases hcell : m.state.field.cell? x y with
    | none =>
      refine .stays (.breakdown .nothingThere) m (fun move => ?_) rfl rfl rfl rfl
      simp only [advanceWith, hpointer, hcell]
      rfl
    | some c =>
      by_cases hdata : m.state.stringMode ∧ c ≠ '"'
      · refine .moves .quiet { m with state := m.state.withStack (c.val :: m.state.stack) }
          (fun move => ?_) hpointer hcell rfl (.inl rfl) fun _ => .inl ⟨hdata.1, hdata.1⟩
        simp only [advanceWith, hpointer, hcell, if_pos hdata]
      · cases hi : Instruction.ofCodePoint? c with
        | none =>
          refine .stays (.fault .notAnInstruction) m (fun move => ?_) rfl rfl rfl rfl
          simp only [advanceWith, hpointer, hcell, if_neg hdata, hi]
          rfl
        | some i =>
          by_cases hbridge : i = .bridge
          · subst hbridge
            obtain rfl := ofCodePoint?_bridge hi
            refine .bridges (fun move => ?_) hpointer hcell ?_
            · simp only [advanceWith, hpointer, hcell, if_neg hdata, hi]
              rfl
            · exact Bool.eq_false_iff.mpr fun hmode => hdata ⟨hmode, by decide⟩
          · have hworked := perform_worked m hbridge
            cases ho : (perform m i).outcome with
            | error e =>
              obtain ⟨hfield, hdirection, hmode⟩ := hworked.failed e ho
              refine .stays e (perform m i).state (fun move => ?_) hworked.pointer hfield
                hdirection hmode
              simp only [advanceWith, hpointer, hcell, if_neg hdata, hi,
                performWith_of_ne move m hbridge, Attempt.andThen, ho]
            | ok effect =>
              refine .moves ⟨effect.output, effect.edit.map ([·]), effect.ended, []⟩
                (perform m i).state (fun move => ?_) hpointer hcell hworked.pointer hworked.field
                fun hspace => .inr ⟨?_, ?_⟩
              · simp only [advanceWith, hpointer, hcell, if_neg hdata, hi,
                  performWith_of_ne move m hbridge, Attempt.andThen, ho]
              · subst hspace
                exact Bool.eq_false_iff.mpr fun hmode => hdata ⟨hmode, by decide⟩
              · subst hspace
                cases hi
                cases ho
                exact ⟨rfl, rfl⟩

end Befunge

end Esolang
