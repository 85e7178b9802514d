/-
  File:      Esolang/Proofs/Befunge/ZerosBelow.lean
  Subject:   A program cannot tell an empty stack from zeros.

  An empty stack gives zero as often as it is asked. So two machines whose stacks differ by zeros at
  the bottom go through the same steps, also through those that fail, and only their panels show the
  difference.

  * `UpToZeros`: one of two stacks is the other with zeros below it; `UpToZeros.pop`,
    `UpToZeros.pop2`: the same values are popped of both.
  * `Attempt.Beside`: two attempts with the same outcome that leave states in a given relation.
  * `execute_beside`, `advance_beside`: an instruction, and a step, in two machines that are equal
    up to zeros.
  * `zeros_below_unseen`: what all steps and runs of two such machines tell.
-/
import Esolang.Proofs.Befunge.Moves
import Esolang.Proofs.Language

namespace Esolang

/-! ## 1. Attempts side by side -/

/-- Two attempts have the same answer or the same failure, and the states they leave are related. -/
structure Attempt.Beside {σ τ α : Type} (R : σ → τ → Prop) (a : Attempt σ α) (a' : Attempt τ α) :
    Prop where
  outcome : a'.outcome = a.outcome
  state : R a.state a'.state

namespace Attempt.Beside

variable {σ τ α β : Type} {R : σ → τ → Prop} {s : σ} {s' : τ}

theorem ok (x : α) (h : R s s') : Beside R (.ok x s) (.ok x s') := ⟨rfl, h⟩

theorem fault (f : Fault) (h : R s s') : Beside R (.fault f s : Attempt σ α) (.fault f s') :=
  ⟨rfl, h⟩

theorem breakdown (b : Breakdown) (h : R s s') :
    Beside R (.breakdown b s : Attempt σ α) (.breakdown b s') :=
  ⟨rfl, h⟩

theorem lift {σ' τ' : Type} {a : Attempt σ α} {a' : Attempt τ α} {Q : σ' → τ' → Prop} {f : σ → σ'}
    {f' : τ → τ'} (h : Beside (fun s s' => Q (f s) (f' s')) a a') :
    Beside Q (a.lift f) (a'.lift f') := ⟨h.outcome, h.state⟩

theorem andThen {a : Attempt σ α} {a' : Attempt τ α} {f : α → σ → Attempt σ β}
    {f' : α → τ → Attempt τ β} (h : Beside R a a')
    (hf : ∀ x s s', R s s' → Beside R (f x s) (f' x s')) :
    Beside R (a.andThen f) (a'.andThen f') := by
  obtain ⟨outcome, s⟩ := a
  obtain ⟨outcome', s'⟩ := a'
  obtain ⟨ho, hs⟩ := h
  cases ho
  cases outcome with
  | ok x => exact hf x s s' hs
  | error e => exact ⟨rfl, hs⟩

end Attempt.Beside

namespace Befunge

/-! ## 2. Stacks -/

/-- One of two stacks is the other with zeros below it. -/
def UpToZeros (a b : List Int) : Prop :=
  ∃ n, b = a ++ List.replicate n 0 ∨ a = b ++ List.replicate n 0

namespace UpToZeros

variable {a b : List Int}

theorem symm (h : UpToZeros a b) : UpToZeros b a := by
  obtain ⟨n, h⟩ := h
  exact ⟨n, h.symm⟩

theorem push (h : UpToZeros a b) (v : Int) : UpToZeros (v :: a) (v :: b) := by
  obtain ⟨n, rfl | rfl⟩ := h
  · exact ⟨n, .inl rfl⟩
  · exact ⟨n, .inr rfl⟩

theorem pop_append_zeros (a : List Int) (n : Nat) :
    ∃ v rest k, Befunge.pop a = (v, rest) ∧
      Befunge.pop (a ++ List.replicate n 0) = (v, rest ++ List.replicate k 0) := by
  cases a with
  | cons v rest => exact ⟨v, rest, n, rfl, rfl⟩
  | nil =>
    cases n with
    | zero => exact ⟨0, [], 0, rfl, rfl⟩
    | succ n => exact ⟨0, [], n, rfl, rfl⟩

/-- The same value is popped of both stacks, and they are still equal up to zeros. -/
theorem pop (h : UpToZeros a b) :
    ∃ v rest rest', Befunge.pop a = (v, rest) ∧ Befunge.pop b = (v, rest') ∧
      UpToZeros rest rest' := by
  obtain ⟨n, rfl | rfl⟩ := h
  · obtain ⟨v, rest, k, hshort, hlong⟩ := pop_append_zeros a n
    exact ⟨v, rest, _, hshort, hlong, k, .inl rfl⟩
  · obtain ⟨v, rest, k, hshort, hlong⟩ := pop_append_zeros b n
    exact ⟨v, _, rest, hlong, hshort, k, .inr rfl⟩

theorem pop2 (h : UpToZeros a b) :
    ∃ v w rest rest', Befunge.pop2 a = (v, w, rest) ∧ Befunge.pop2 b = (v, w, rest') ∧
      UpToZeros rest rest' := by
  obtain ⟨v, below, below', ha, hb, hbelow⟩ := h.pop
  obtain ⟨w, rest, rest', ha', hb', hrest⟩ := hbelow.pop
  refine ⟨v, w, rest, rest', ?_, ?_, hrest⟩
  · simp only [Befunge.pop2, ha, ha']
  · simp only [Befunge.pop2, hb, hb']

end UpToZeros

/-! ## 3. Instructions -/

/-- Two states are the same but for zeros at the bottom of their stacks. -/
def State.UpToZeros (s s' : State) : Prop :=
  ∃ stack, Befunge.UpToZeros s.stack stack ∧ s' = s.withStack stack

/-- Two machines with the same draws, in states that are equal up to zeros. -/
def SameUpToZeros (m m' : Machine State) : Prop := m'.draws = m.draws ∧ m.state.UpToZeros m'.state

section Instructions

variable {s : State} {stack : List Int} (h : UpToZeros s.stack stack)
include h

theorem combine_beside (f : Int → Int → Int) :
    Attempt.Beside State.UpToZeros (combine s f) (combine (s.withStack stack) f) := by
  obtain ⟨v, w, rest, rest', hs, hs', hrest⟩ := h.pop2
  simp only [combine, State.withStack, hs, hs']
  exact .ok _ ⟨_, hrest.push _, rfl⟩

theorem readCell_beside :
    Attempt.Beside State.UpToZeros (readCell s) (readCell (s.withStack stack)) := by
  obtain ⟨y, x, rest, rest', hs, hs', hrest⟩ := h.pop2
  simp only [readCell, State.withStack, hs, hs']
  split
  · split
    · exact .ok _ ⟨_, hrest.push _, rfl⟩
    · exact .breakdown _ ⟨_, hrest, rfl⟩
  · exact .fault _ ⟨_, h, rfl⟩

theorem writeCell_beside :
    Attempt.Beside State.UpToZeros (writeCell s) (writeCell (s.withStack stack)) := by
  obtain ⟨y, x, below, below', hs, hs', hbelow⟩ := h.pop2
  obtain ⟨v, rest, rest', hv, hv', hrest⟩ := hbelow.pop
  simp only [writeCell, State.withStack, hs, hs', hv, hv']
  split
  · split
    · exact .ok _ ⟨_, hrest, rfl⟩
    · split
      · exact .fault _ ⟨_, h, rfl⟩
      · exact .breakdown _ ⟨_, hrest, rfl⟩
  · exact .fault _ ⟨_, h, rfl⟩

/-- **An instruction does the same to two stacks that are equal up to zeros**, and where it fails
    both of them are back. -/
theorem execute_beside (i : Instruction) :
    Attempt.Beside State.UpToZeros (execute s i) (execute (s.withStack stack) i) := by
  obtain ⟨v, rest, rest', hs, hs', hrest⟩ := h.pop
  obtain ⟨a, b, below, below', hs2, hs2', hbelow⟩ := h.pop2
  cases i with
  | digit d => exact .ok _ ⟨_, h.push _, rfl⟩
  | add => exact combine_beside h _
  | subtract => exact combine_beside h _
  | multiply => exact combine_beside h _
  | greater => exact combine_beside h fun b a => if b > a then 1 else 0
  | get => exact readCell_beside h
  | put => exact writeCell_beside h
  | divide =>
    unfold execute
    simp only [State.withStack, hs2, hs2']
    split
    · exact .fault _ ⟨_, h, rfl⟩
    · exact .ok _ ⟨_, hbelow.push _, rfl⟩
  | remainder =>
    unfold execute
    simp only [State.withStack, hs2, hs2']
    split
    · exact .fault _ ⟨_, h, rfl⟩
    · split
      · exact .ok _ ⟨_, hbelow.push _, rfl⟩
      · exact .breakdown _ ⟨_, hbelow, rfl⟩
  | negate =>
    unfold execute
    simp only [State.withStack, hs, hs']
    exact .ok _ ⟨_, hrest.push _, rfl⟩
  | branchHorizontally =>
    unfold execute
    simp only [State.withStack, hs, hs']
    exact .ok _ ⟨_, hrest, rfl⟩
  | branchVertically =>
    unfold execute
    simp only [State.withStack, hs, hs']
    exact .ok _ ⟨_, hrest, rfl⟩
  | duplicate =>
    unfold execute
    simp only [State.withStack, hs, hs']
    exact .ok _ ⟨_, (hrest.push _).push _, rfl⟩
  | swap =>
    unfold execute
    simp only [State.withStack, hs2, hs2']
    exact .ok _ ⟨_, (hbelow.push _).push _, rfl⟩
  | discard =>
    unfold execute
    simp only [State.withStack, hs, hs']
    exact .ok _ ⟨_, hrest, rfl⟩
  | writeNumber =>
    unfold execute
    simp only [State.withStack, hs, hs']
    split
    · exact .ok _ ⟨_, hrest, rfl⟩
    · exact .breakdown _ ⟨_, hrest, rfl⟩
  | writeCharacter =>
    unfold execute
    simp only [State.withStack, hs, hs']
    split
    · exact .ok _ ⟨_, hrest, rfl⟩
    · split
      · exact .fault _ ⟨_, h, rfl⟩
      · exact .breakdown _ ⟨_, hrest, rfl⟩
  | readNumber =>
    unfold execute
    simp only [State.withStack]
    split
    · exact .ok _ ⟨_, h.push _, rfl⟩
    · exact ⟨rfl, _, h, rfl⟩
  | readCharacter => exact .ok _ ⟨_, h.push _, rfl⟩
  -- the others leave the stack alone
  | noop | turn | turnRandomly | toggleString | bridge | stop => exact .ok _ ⟨_, h, rfl⟩

end Instructions

/-! ## 4. Steps -/

theorem State.UpToZeros.move {s s' : State} (h : s.UpToZeros s') : s.move.UpToZeros s'.move := by
  obtain ⟨stack, hstack, rfl⟩ := h
  exact ⟨stack, hstack, rfl⟩

section Steps

variable {m m' : Machine State} (h : SameUpToZeros m m')
include h

theorem perform_beside (i : Instruction) :
    Attempt.Beside SameUpToZeros (perform m i) (perform m' i) := by
  obtain ⟨hdraws, stack, hstack, hstate⟩ := h
  by_cases hrandom : i = .turnRandomly
  · subst hrandom
    simp only [perform, hdraws, hstate]
    exact .ok _ ⟨rfl, stack, hstack, rfl⟩
  · rw [perform_eq m hrandom, perform_eq m' hrandom, hstate]
    obtain ⟨houtcome, hleft⟩ := execute_beside hstack i
    exact .lift ⟨houtcome, hdraws, hleft⟩

/-- **A step does the same in two machines that are equal up to zeros.** -/
theorem advance_beside : Attempt.Beside SameUpToZeros (advance m) (advance m') := by
  have hall := h
  obtain ⟨hdraws, stack, hstack, hstate⟩ := h
  have hpointer : m'.state.pointer = m.state.pointer := by rw [hstate]; rfl
  have hfield : m'.state.field = m.state.field := by rw [hstate]; rfl
  have hmode : m'.state.stringMode = m.state.stringMode := by rw [hstate]; rfl
  have hpadding : m'.state.padding = m.state.padding := by rw [hstate]; rfl
  unfold advance
  rw [hpointer, hfield, hmode, hpadding]
  split
  · exact .ok _ ⟨hdraws, stack, hstack, by rw [hstate]; rfl⟩
  · split
    · exact .breakdown _ hall
    · next c _ =>
      split
      · refine .ok _ ⟨hdraws, State.UpToZeros.move ⟨c.val :: stack, hstack.push _, ?_⟩⟩
        rw [hstate]
        rfl
      · split
        · exact .fault _ hall
        · next i _ =>
          exact (perform_beside hall i).andThen fun effect _ _ hleft =>
            .ok _ ⟨hleft.1, hleft.2.move⟩

end Steps

/-- What a step tells besides its panel: what it wrote, how the source has changed, where the next
    instruction stands, and the error; or the breakdown that took the place of all this. -/
def told (o : Except Breakdown StepResult) :
    Except Breakdown (Option Text × Option (List Edit) × Option Span × Option Fault) :=
  o.map fun r => (r.output, r.edits, r.next, r.error)

theorem step_beside {m m' : Machine State} (h : SameUpToZeros m m') :
    told (language.step m').outcome = told (language.step m).outcome ∧
      SameUpToZeros (language.step m).machine (language.step m').machine := by
  have hadvance : Attempt.Beside SameUpToZeros (language.advance m) (language.advance m') :=
    advance_beside h
  unfold Language.step
  generalize language.advance m = a at hadvance ⊢
  generalize language.advance m' = a' at hadvance ⊢
  obtain ⟨outcome, last⟩ := a
  obtain ⟨outcome', last'⟩ := a'
  obtain ⟨ho, hlast⟩ := hadvance
  cases ho
  have hlocation : language.location last'.state = language.location last.state := by
    obtain ⟨-, stack, -, hstate⟩ := hlast
    show location last'.state = location last.state
    rw [show last'.state = _ from hstate]
    rfl
  cases outcome with
  | ok p =>
    refine ⟨?_, hlast⟩
    simp only [told, Except.map, hlocation]
  | error e =>
    cases e with
    | fault f =>
      refine ⟨?_, hlast⟩
      simp only [told, Except.map, hlocation]
    | breakdown b => exact ⟨rfl, hlast⟩

/-! ## 5. Runs -/

theorem steps_beside {m m' : Machine State} (h : SameUpToZeros m m') (n : Nat) :
    (language.steps n m').1.map told = (language.steps n m).1.map told ∧
      SameUpToZeros (language.steps n m).2 (language.steps n m').2 := by
  induction n generalizing m m' with
  | zero => exact ⟨rfl, h⟩
  | succ n ih =>
    obtain ⟨hfirst, hnext⟩ := step_beside h
    obtain ⟨hrest, hlast⟩ := ih hnext
    exact ⟨List.cons_eq_cons.mpr ⟨hfirst, hrest⟩, hlast⟩

/-- The runs of two such machines tell the same, and they end after the same step and for the same
    reason. -/
theorem run_beside {m m' : Machine State} (h : SameUpToZeros m m') (budget : Nat) :
    (language.run budget m').stop = (language.run budget m).stop ∧
      (language.run budget m').outcomes.map told = (language.run budget m).outcomes.map told ∧
      SameUpToZeros (language.run budget m).machine (language.run budget m').machine := by
  induction budget generalizing m m' with
  | zero => exact ⟨rfl, rfl, h⟩
  | succ budget ih =>
    obtain ⟨htold, hnext⟩ := step_beside h
    unfold Language.run
    simp only
    cases ho : (language.step m).outcome with
    | error b =>
      rw [ho] at htold
      cases ho' : (language.step m').outcome with
      | error b' =>
        rw [ho'] at htold
        cases htold
        exact ⟨rfl, rfl, hnext⟩
      | ok r' =>
        rw [ho'] at htold
        cases htold
    | ok r =>
      rw [ho] at htold
      cases ho' : (language.step m').outcome with
      | error b' =>
        rw [ho'] at htold
        cases htold
      | ok r' =>
        rw [ho'] at htold
        have hsame : r'.next = r.next ∧ r'.error = r.error := by
          simp only [told, Except.map, Except.ok.injEq, Prod.mk.injEq] at htold
          exact htold.2.2
        obtain ⟨hplace, herror⟩ := hsame
        simp only [hplace, herror]
        split
        · exact ⟨rfl, congrArg ([·]) htold, hnext⟩
        · split
          · exact ⟨rfl, congrArg ([·]) htold, hnext⟩
          · obtain ⟨hstop, hrest, hlast⟩ := ih hnext
            exact ⟨hstop, List.cons_eq_cons.mpr ⟨htold, hrest⟩, hlast⟩

/-- **A program cannot tell an empty stack from zeros.** Two machines have the same draws and the
    same states, but one stack has any number of zeros more at the bottom than the other. Then a
    step tells the same in both: the output, the edits of the source, the next place and the error,
    or the same breakdown; and it leaves two machines that are again equal up to zeros at the
    bottom. So does any number of steps, whatever becomes of them, and so do two runs, which end in
    the same way. -/
theorem zeros_below_unseen {m m' : Machine State} (h : SameUpToZeros m m') :
    (told (language.step m').outcome = told (language.step m).outcome ∧
      SameUpToZeros (language.step m).machine (language.step m').machine) ∧
    (∀ n, (language.steps n m').1.map told = (language.steps n m).1.map told ∧
      SameUpToZeros (language.steps n m).2 (language.steps n m').2) ∧
    ∀ budget, (language.run budget m').stop = (language.run budget m).stop ∧
      (language.run budget m').outcomes.map told = (language.run budget m).outcomes.map told ∧
      SameUpToZeros (language.run budget m).machine (language.run budget m').machine :=
  ⟨step_beside h, steps_beside h, run_beside h⟩

/-- A program that exchanges, reads a cell, doubles and divides, with a given stack to begin
    with. -/
def swapping (stack : List Int) : Machine State :=
  ⟨{ State.fresh with field := fieldOf ["\\g.:/"], padding := padding ["\\g.:/"], stack }, []⟩

/-- Nothing is on the one stack and three zeros are on the other: both write the code of the first
    cell, and both fail at the division. -/
theorem zeros_below_unseen_swapping :
    language.load ⟨.fresh, []⟩ "\\g.:/" [] = .ok (swapping []) ∧
      SameUpToZeros (swapping []) (swapping [0, 0, 0]) ∧
      (language.steps 6 (swapping [0, 0, 0])).1.map told =
        (language.steps 6 (swapping [])).1.map told ∧
      (language.steps 6 (swapping [])).1.map (fun o => o.toOption.map StepResult.output) =
        [some none, some none, some none, some (some (Text.ofString "92 ")), some none, some none] ∧
      (language.steps 6 (swapping [])).1.map (fun o => o.toOption.map StepResult.error) =
        [some none, some none, some none, some none, some none, some (some .zeroDivisor)] ∧
      (language.steps 6 (swapping [])).2.state.stack = [0, 0] ∧
      (language.steps 6 (swapping [0, 0, 0])).2.state.stack = [0, 0] := by
  have hsame : SameUpToZeros (swapping []) (swapping [0, 0, 0]) :=
    ⟨rfl, [0, 0, 0], ⟨3, .inl rfl⟩, rfl⟩
  refine ⟨rfl, hsame, ((zeros_below_unseen hsame).2.1 6).1, ?_, ?_, ?_, ?_⟩
  · decide +kernel
  · decide +kernel
  · decide +kernel
  · decide +kernel

end Befunge

end Esolang
