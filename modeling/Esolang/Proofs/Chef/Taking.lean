/-
  File:      Esolang/Proofs/Chef/Taking.lean
  Subject:   The numbers of the input go to the `Take` statements in order, whichever call executes
             them.

  All calls share one input, while all else is copied for a call. Of all statements `Take` alone
  reads it. A `Take` that finds no number takes nothing but blanks; one whose ingredient is missing
  does take a number, but then the machine stays at this statement for good.

  * `State.taking?`: the ingredient into which the next statement takes a number;
    `step_keeps_input`: without one, a step leaves the input alone.
  * `State.Stuck`: the ingredient is missing; `stuck_step`: then no step works any more.
  * `taken`: how many `Take` statements worked in a number of steps; `steps_left`: as many numbers
    are gone.
  * `input_used_in_order`: what all questions take from an input, and what the `Take` statements of
    a run store.
-/
import Esolang.Proofs.Chef.Isolation
import Esolang.Proofs.Reading

namespace Esolang.Chef

/-! ## 1. Statements that leave the input alone -/

/-- The ingredient into which a call takes a number next. -/
def Frame.taking? (f : Frame) : Option Text :=
  match f.position with
  | none => none
  | some here =>
    match f.recipe.method[here]? with
    | some ⟨.take i, _⟩ => some i
    | _ => none

/-- The ingredient into which the next statement takes a number from the input. -/
def State.taking? (s : State) : Option Text :=
  match s.calls with
  | [] => none
  | top :: _ => top.taking?

theorem Frame.taking?_eq_some {f : Frame} {i : Text} (h : f.taking? = some i) :
    ∃ here span, f.position = some here ∧ f.recipe.method[here]? = some ⟨.take i, span⟩ := by
  unfold Frame.taking? at h
  split at h
  · cases h
  · next here hpos =>
    split at h
    · next i' span hs =>
      cases h
      exact ⟨here, span, hpos, hs⟩
    · cases h

theorem State.taking?_eq_some {s : State} {i : Text} (h : s.taking? = some i) :
    ∃ top outer, s.calls = top :: outer ∧ top.taking? = some i := by
  unfold State.taking? at h
  split at h
  · cases h
  · next top outer hcalls => exact ⟨top, outer, hcalls, h⟩

theorem stir_input (b : Bench) (id places : Int) : (b.stir id places).state.input = b.input := by
  unfold Bench.stir
  split
  · rfl
  · split
    · rfl
    · rfl

theorem perform_input {op : Operation} (h : ∀ i, op ≠ .take i) (b : Bench) :
    (b.perform op).state.input = b.input := by
  cases op with
  | take i => exact absurd rfl (h i)
  | put i id =>
    simp only [Bench.perform]
    split
    · rfl
    · rfl
  | fold i id =>
    simp only [Bench.perform, Bench.fold]
    split
    · rfl
    · split
      · rfl
      · rfl
  | arithmetic how i id =>
    simp only [Bench.perform, Bench.arithmetic]
    split
    · rfl
    · split
      · rfl
      · split
        · rfl
        · rfl
  | addDry id =>
    simp only [Bench.perform]
    split
    · rfl
    · rfl
  | liquefy i =>
    simp only [Bench.perform]
    split
    · rfl
    · rfl
  | stir id minutes => exact stir_input b id minutes
  | stirIngredient id i =>
    simp only [Bench.perform]
    split
    · rfl
    · exact stir_input b id _
  | _ => rfl

section Machine

variable {m : Machine State} {top : Frame} {outer : List Frame} {here : Nat}

/-- **Only a `Take` reads the input.** -/
theorem execute_input {op : Operation} (h : ∀ i, op ≠ .take i) :
    (execute m top outer here op).state.state.input = m.state.input := by
  cases hflow : op.isFlow with
  | false =>
    have hperform := perform_input h ⟨top.kitchen, m.state.input, m.draws⟩
    cases hb : Bench.perform ⟨top.kitchen, m.state.input, m.draws⟩ op with
    | mk outcome b =>
      rw [hb] at hperform
      cases outcome with
      | ok u =>
        rw [execute_kitchen_ok hflow hb]
        exact hperform
      | error x =>
        rw [execute_kitchen_error hflow hb]
        exact hperform
  | true =>
    cases op with
    | loopStart verb i closer => rfl
    | loopEnd verb i opener => rfl
    | setAside closer =>
      cases closer with
      | some c => rfl
      | none => rfl
    | serveWith callee =>
      show (m.state.call top outer callee here).state.input = m.state.input
      unfold State.call
      cases m.state.auxiliaries.get? callee with
      | none => rfl
      | some r => rfl
    | refrigerate hours =>
      simp only [execute]
      split
      · rfl
      · split
        · rfl
        · rfl
    | _ => cases hflow

theorem act_input (h : m.state.taking? = none) : (act m).state.state.input = m.state.input := by
  unfold act
  split
  · rfl
  · next top outer hcalls =>
    have htop : top.taking? = none := by
      unfold State.taking? at h
      rw [hcalls] at h
      exact h
    simp only
    split
    · rfl
    · next here hpos =>
      split
      · split
        · rfl
        · rfl
      · split
        · rfl
        · next step hs =>
          refine execute_input fun i hop => ?_
          obtain ⟨op, span⟩ := step
          obtain rfl : op = .take i := hop
          simp only [Frame.taking?, hpos, hs] at htop
          cases htop

end Machine

theorem settle_input (s : State) : s.settle.1.input = s.input := by
  unfold State.settle
  split
  · rfl
  · split
    · rfl
    · rfl

/-- A step whose statement takes no number leaves the input alone. -/
theorem step_keeps_input {m : Machine State} (h : m.state.taking? = none) :
    (language.step m).machine.state.input = m.state.input := by
  rw [language.step_machine, advance_eq]
  refine Attempt.state_andThen (P := fun m' : Machine State => m'.state.input = m.state.input)
    (act_input h) ?_
  intro _ m' hm'
  exact (settle_input m'.state).trans hm'

/-! ## 2. `Take` statements -/

section Take

variable {m : Machine State} {top : Frame} {outer : List Frame} {i : Text}
  (hcalls : m.state.calls = top :: outer) (htaking : top.taking? = some i)
include hcalls htaking

/-- A `Take` that works stores the number in the ingredient, and the call goes on. -/
theorem act_take_ok {old : Ingredient} (hold : top.kitchen.ingredients.get? i = some old) {n : Nat}
    {rest : Text} (hnumber : Input.number m.state.input = .ok n rest) :
    ∃ here, top.position = some here ∧ act m = .ok .none
      ⟨{ m.state with
          calls := (top.withKitchen
            (top.kitchen.setIngredient i { old with value := some (n : Int) })).goTo (here + 1)
              :: outer
          input := rest }, m.draws⟩ := by
  obtain ⟨here, span, hpos, hs⟩ := Frame.taking?_eq_some htaking
  have hperform : Bench.perform ⟨top.kitchen, m.state.input, m.draws⟩ (.take i) =
      .ok () ⟨top.kitchen.setIngredient i { old with value := some (n : Int) }, rest, m.draws⟩ := by
    simp only [Bench.perform, Bench.take, hnumber, Kitchen.ingredient, hold]
    rfl
  exact ⟨here, hpos, (act_statement hcalls hpos hs).trans (execute_kitchen_ok rfl hperform)⟩

/-- A `Take` that finds no number, or has no ingredient to put it in, fails, and the call stays
    where it is. -/
theorem act_take_error
    (h : top.kitchen.ingredients.get? i = none ∨
      ∃ f, Input.number m.state.input = .fault f m.state.input.trimStart) :
    ∃ x, act m =
      ⟨.error x,
        ⟨{ m.state with calls := top :: outer, input := (Input.number m.state.input).state },
      m.draws⟩⟩ := by
  obtain ⟨here, span, hpos, hs⟩ := Frame.taking?_eq_some htaking
  have hperform : ∃ x, Bench.perform ⟨top.kitchen, m.state.input, m.draws⟩ (.take i) =
      ⟨.error x, ⟨top.kitchen, (Input.number m.state.input).state, m.draws⟩⟩ := by
    simp only [Bench.perform, Bench.take]
    cases ho : (Input.number m.state.input).outcome with
    | error e => exact ⟨e, rfl⟩
    | ok n =>
      rcases h with hnone | ⟨f, hf⟩
      · simp only [Kitchen.ingredient, hnone]
        exact ⟨_, rfl⟩
      · rw [hf] at ho
        cases ho
  obtain ⟨x, hx⟩ := hperform
  exact ⟨x, (act_statement hcalls hpos hs).trans (execute_kitchen_error rfl hx)⟩

end Take

theorem step_of_act_ok {m m' : Machine State} {e : Effect} (h : act m = .ok e m') :
    Works (language.step m).outcome ∧ (language.step m).machine = settled m' := by
  have hadvance := advance_eq m
  rw [h] at hadvance
  unfold Language.step
  rw [hadvance]
  exact ⟨⟨_, rfl, rfl⟩, rfl⟩

theorem step_of_act_error {m m' : Machine State} {x : Failure} (h : act m = ⟨.error x, m'⟩) :
    ¬ Works (language.step m).outcome ∧ (language.step m).machine = m' := by
  refine ⟨fun hworks => ?_, ?_⟩
  · obtain ⟨e, m'', hact, -⟩ := act_of_works hworks
    rw [h] at hact
    cases hact
  · rw [language.step_machine, advance_eq, h]
    rfl

/-- The innermost call is at a `Take` whose ingredient it does not have. -/
def State.Stuck (s : State) : Prop :=
  ∃ top outer i, s.calls = top :: outer ∧ top.taking? = some i ∧
    top.kitchen.ingredients.get? i = none

/-- **Where an ingredient is missing the machine stays for good.** -/
theorem stuck_step {m : Machine State} (h : m.state.Stuck) :
    ¬ Works (language.step m).outcome ∧ (language.step m).machine.state.Stuck := by
  obtain ⟨top, outer, i, hcalls, htaking, hnone⟩ := h
  obtain ⟨x, hact⟩ := act_take_error hcalls htaking (.inl hnone)
  obtain ⟨hfails, hnext⟩ := step_of_act_error hact
  refine ⟨hfails, ?_⟩
  rw [hnext]
  exact ⟨top, outer, i, rfl, htaking, hnone⟩

/-! ## 3. Runs -/

/-- The next step executes a `Take`, and it works. -/
def TakesNumber (m : Machine State) : Prop :=
  m.state.taking?.isSome = true ∧ Works (language.step m).outcome

instance : DecidablePred TakesNumber := fun _ => instDecidableAnd

/-- How many of the next steps execute a `Take` that works. -/
def taken : Nat → Machine State → Nat
  | 0, _ => 0
  | n + 1, m => (if TakesNumber m then 1 else 0) + taken n (language.step m).machine

/-- What is left of an input in which the given numbers stood: these numbers, unless the machine is
    stuck. -/
def Left (ns : List Nat) (m : Machine State) : Prop := Input.Spells ns m.state.input ∨ m.state.Stuck

/-- A step at a `Take` uses up the first number that is left if it works, and no number if it fails,
    unless it is stuck from then on. -/
theorem take_left {m : Machine State} {ns : List Nat} (h : Input.Spells ns m.state.input) {i : Text}
    (hi : m.state.taking? = some i) :
    (∃ v vs, ns = v :: vs ∧ Works (language.step m).outcome ∧
      Input.Spells vs (language.step m).machine.state.input) ∨
      ¬ Works (language.step m).outcome ∧ Left ns (language.step m).machine := by
  obtain ⟨top, outer, hcalls, htaking⟩ := State.taking?_eq_some hi
  cases hold : top.kitchen.ingredients.get? i with
  | none =>
    have hstuck := stuck_step ⟨top, outer, i, hcalls, htaking, hold⟩
    exact .inr ⟨hstuck.1, .inr hstuck.2⟩
  | some old =>
    cases ns with
    | nil =>
      obtain ⟨f, hnumber, hleft⟩ := h.fault
      obtain ⟨x, hact⟩ := act_take_error hcalls htaking (.inr ⟨f, hnumber⟩)
      obtain ⟨hfails, hnext⟩ := step_of_act_error hact
      refine .inr ⟨hfails, .inl ?_⟩
      rw [hnext, hnumber]
      exact hleft
    | cons v vs =>
      obtain ⟨rest, hnumber, hleft⟩ := h.number
      obtain ⟨here, -, hact⟩ := act_take_ok hcalls htaking hold hnumber
      obtain ⟨hworks, hnext⟩ := step_of_act_ok hact
      refine .inl ⟨v, vs, rfl, hworks, ?_⟩
      rw [hnext, show (settled _).state.input = _ from settle_input _]
      exact hleft

theorem step_left {m : Machine State} {ns : List Nat} (h : Left ns m) :
    Left (ns.drop (if TakesNumber m then 1 else 0)) (language.step m).machine := by
  rcases h with h | hstuck
  · cases hi : m.state.taking? with
    | none =>
      have hnot : ¬ TakesNumber m := by
        rintro ⟨hsome, -⟩
        rw [hi] at hsome
        cases hsome
      rw [if_neg hnot]
      refine .inl ?_
      rw [step_keeps_input hi]
      exact h
    | some i =>
      rcases take_left h hi with ⟨v, vs, rfl, hworks, hleft⟩ | ⟨hfails, hleft⟩
      · have htakes : TakesNumber m := ⟨by rw [hi]; rfl, hworks⟩
        rw [if_pos htakes]
        exact .inl hleft
      · rw [if_neg fun htakes : TakesNumber m => hfails htakes.2]
        exact hleft
  · obtain ⟨hfails, hstill⟩ := stuck_step hstuck
    rw [if_neg fun htakes : TakesNumber m => hfails htakes.2]
    exact .inr hstill

/-- **As many numbers are gone as `Take` statements have worked.** -/
theorem steps_left {m : Machine State} {ns : List Nat} (h : Left ns m) (n : Nat) :
    Left (ns.drop (taken n m)) (language.steps n m).2 := by
  induction n generalizing m ns with
  | zero => exact h
  | succ n ih =>
    rw [taken, ← List.drop_drop]
    exact ih (step_left h)

/-- The next step puts a number into an ingredient of the innermost call: the call goes on to its
    next statement, all else is as it was but for the input, and then finished calls are given
    back. -/
def Stores (m : Machine State) (i : Text) (v : Nat) : Prop :=
  ∃ top outer old here rest, m.state.calls = top :: outer ∧ top.position = some here ∧
    top.kitchen.ingredients.get? i = some old ∧
    let stored := top.kitchen.setIngredient i { old with value := some (v : Int) }
    let m' : Machine State :=
      ⟨{ m.state with calls := (top.withKitchen stored).goTo (here + 1) :: outer, input := rest },
        m.draws⟩
    act m = .ok .none m' ∧ (language.step m).machine = settled m'

/-- A `Take` that works stores the first number that is left. -/
theorem take_stores {m : Machine State} {ns : List Nat} (h : Left ns m) {i : Text}
    (hi : m.state.taking? = some i) (hworks : Works (language.step m).outcome) :
    ∃ v, ns.head? = some v ∧ Stores m i v := by
  rcases h with h | hstuck
  · obtain ⟨top, outer, hcalls, htaking⟩ := State.taking?_eq_some hi
    cases hold : top.kitchen.ingredients.get? i with
    | none => exact absurd hworks (stuck_step ⟨top, outer, i, hcalls, htaking, hold⟩).1
    | some old =>
      rcases take_left h hi with ⟨v, vs, rfl, -, -⟩ | ⟨hfails, -⟩
      · obtain ⟨rest, hnumber, -⟩ := h.number
        obtain ⟨here, hpos, hact⟩ := act_take_ok hcalls htaking hold hnumber
        exact ⟨v, rfl, top, outer, old, here, rest, hcalls, hpos, hold, hact,
          (step_of_act_ok hact).2⟩
      · exact absurd hworks hfails
  · exact absurd hworks (stuck_step hstuck).1

/-- **Input is used up in order, without loss or repetition.** Whatever is asked of a text: the
    pieces that the questions take, one after another, and what is left then make up the text, and
    each piece is what `Input.Takes` says. A number that is asked for in vain is asked for in vain
    again. Where numbers stand one after another, as they do when they are written down with blanks
    between them, so many questions for a number are answered by so many of them, in their order.
    And when a machine has such a text as its input, whatever calls are under way: a `Take` that
    works after `k` others have worked stores the number that has `k` numbers in front of it,
    whichever call executes it. -/
theorem input_used_in_order (t : Text) :
    (∀ questions : List Input.Question, ∃ pieces : List Text, pieces.length = questions.length ∧
      (Input.askAll questions t).1.length = questions.length ∧
      t = pieces.flatten ++ (Input.askAll questions t).2 ∧
      ∀ k q piece answer, questions[k]? = some q → pieces[k]? = some piece →
        (Input.askAll questions t).1[k]? = some answer →
        Input.Takes q piece answer
          ((pieces.drop (k + 1)).flatten ++ (Input.askAll questions t).2)) ∧
    (∀ f, (Input.ask t .number).outcome = .error (.fault f) →
      Input.ask (Input.ask t .number).state .number = .fault f (Input.ask t .number).state) ∧
    (∀ entries behind, t = Input.written entries behind → (∀ c ∈ behind, c.isBlank = true) →
      (∀ e ∈ entries, ∀ c ∈ e.1, c.isBlank = true) → (∀ e ∈ entries.tail, e.1 ≠ []) →
      (∀ e ∈ entries, (Decimal.ofNat e.2).length ≤ Decimal.limit) →
      Input.Spells (entries.map Prod.snd) t) ∧
    ∀ ns, Input.Spells ns t →
      (∀ n ≤ ns.length, (Input.askAll (List.replicate n .number) t).1 = (ns.take n).map fun v =>
        .ok (v : Int)) ∧
      ∀ m : Machine State, m.state.input = t → ∀ n i,
        let m' := (language.steps n m).2
        m'.state.taking? = some i → Works (language.step m').outcome →
          ∃ v, ns[taken n m]? = some v ∧ Stores m' i v := by
  refine ⟨fun questions => Input.askAll_pieces questions t, fun f hf => Input.ask_number_again hf,
    ?_, ?_⟩
  · rintro entries behind rfl hbehind hblanks hgaps hshort
    exact Input.spells_written hbehind hblanks hgaps hshort
  · refine fun ns hns => ⟨fun n hn => (Input.askAll_spells hns hn).1, ?_⟩
    rintro m rfl n i m' hi hworks
    obtain ⟨v, hv, hstores⟩ := take_stores (steps_left (.inl hns) n) hi hworks
    rw [List.head?_drop] at hv
    exact ⟨v, hv, hstores⟩

/-- Two recipes that take numbers in turn. -/
def courses : Text :=
  Text.join "\n" ["Courses.", "",
    "Ingredients.", "a", "",
    "Method.", "Take a from refrigerator. Serve with sauce. Take a from refrigerator.", "",
    "sauce.", "",
    "Ingredients.", "b", "",
    "Method.", "Take b from refrigerator."]

/-- What is read of it. -/
def coursesProgram : Program where
  main := {
    name := "Courses"
    ingredients := [("a", ⟨.unknown, none⟩)]
    method := [
      ⟨.take "a", .within 6 0 24⟩,
      ⟨.serveWith "sauce", .within 6 25 42⟩,
      ⟨.take "a", .within 6 43 68⟩]
    serving := none }
  auxiliaries := [("sauce", {
    name := "sauce"
    ingredients := [("b", ⟨.unknown, none⟩)]
    method := [⟨.take "b", .within 14 0 24⟩]
    serving := none })]

theorem parse_courses : parse courses = .ok coursesProgram :=
  Except.eq_ok_of_toOption (by decide +kernel)

/-- The machine in which the program is about to begin. -/
def courseMachine : Machine State := ⟨State.start coursesProgram " 7 8\n9 ", []⟩

/-- The first number goes to the main recipe, the second to the sauce, and the third to the main
    recipe again. -/
theorem input_used_in_order_courses :
    language.load ⟨.fresh, []⟩ courses " 7 8\n9 " = .ok courseMachine ∧
      Input.Spells [7, 8, 9] " 7 8\n9 " ∧
      taken 3 courseMachine = 1 ∧ (language.steps 3 courseMachine).2.state.calls.length = 2 ∧
      Stores (language.steps 3 courseMachine).2 "b" 8 ∧
      taken 4 courseMachine = 2 ∧ (language.steps 4 courseMachine).2.state.calls.length = 1 ∧
      Stores (language.steps 4 courseMachine).2 "a" 9 := by
  obtain ⟨-, -, hwritten, hall⟩ := input_used_in_order " 7 8\n9 "
  have hspells : Input.Spells [7, 8, 9] " 7 8\n9 " :=
    hwritten [(" ", 7), (" ", 8), ("\n", 9)] " " (by decide +kernel) (by decide) (by decide)
      (by decide) (by decide +kernel)
  obtain ⟨-, hstores⟩ := hall _ hspells
  have hsauce : taken 3 courseMachine = 1 ∧
      (language.steps 3 courseMachine).2.state.calls.length = 2 ∧
      (language.steps 3 courseMachine).2.state.taking? = some "b" ∧
      Works (language.step (language.steps 3 courseMachine).2).outcome := by decide +kernel
  have hmain : taken 4 courseMachine = 2 ∧
      (language.steps 4 courseMachine).2.state.calls.length = 1 ∧
      (language.steps 4 courseMachine).2.state.taking? = some "a" ∧
      Works (language.step (language.steps 4 courseMachine).2).outcome := by decide +kernel
  obtain ⟨htaken, hdepth, htaking, hworks⟩ := hsauce
  obtain ⟨htaken', hdepth', htaking', hworks'⟩ := hmain
  obtain ⟨v, hv, hstored⟩ := hstores courseMachine rfl 3 "b" htaking hworks
  obtain ⟨v', hv', hstored'⟩ := hstores courseMachine rfl 4 "a" htaking' hworks'
  rw [htaken] at hv
  rw [htaken'] at hv'
  obtain rfl : 8 = v := Option.some.inj hv
  obtain rfl : 9 = v' := Option.some.inj hv'
  exact ⟨load_of_parse parse_courses ⟨.fresh, []⟩ _, hspells, htaken, hdepth, hstored, htaken',
    hdepth', hstored'⟩

end Esolang.Chef
