/-
  File:      Esolang/Proofs/Chef/FailedStatement.lean
  Subject:   A failing statement changes nothing, unless it serves.

  Every operation looks at all it needs before it changes anything. The end of a loop alone counts
  its ingredient down before it looks at the ingredient of the beginning; but this one has a value
  wherever the end is reached, so that nothing can fail any more.

  * `Kitchen.Alike`: the same ingredients, and the same contents of all bowls and dishes.
  * `perform_spares`: an operation that fails leaves such a kitchen; `leaveOrRepeat_spares`: the end
    of a loop fails before it counts down.
  * `Frame.AboutToServe`: what a call does next is to serve; `act_spares`: what any other statement
    leaves when it fails.
  * `failing_statement_changes_nothing`: all of it, with the result that is reported.
-/
import Esolang.Proofs.Chef.LoopValues
import Esolang.Proofs.Input

namespace Esolang.Chef

/-! ## 1. Kitchens -/

/-- Two kitchens with the same ingredients, and with the same contents of every bowl and dish. One
    of them may list an empty bowl that the other does not. -/
structure Kitchen.Alike (k k' : Kitchen) : Prop where
  ingredients : k'.ingredients = k.ingredients
  bowls : ∀ id, k'.bowl id = k.bowl id
  dishes : ∀ id, k'.dish id = k.dish id

theorem Kitchen.Alike.refl (k : Kitchen) : k.Alike k := ⟨rfl, fun _ => rfl, fun _ => rfl⟩

theorem alike_useBowl (k : Kitchen) (bowl : Int) : k.Alike (k.useBowl bowl) := by
  refine ⟨rfl, fun id => ?_, fun _ => rfl⟩
  unfold Kitchen.useBowl Kitchen.setBowl Kitchen.bowl
  by_cases he : id = bowl
  · rw [he, Table.get?_put_self]
    rfl
  · rw [Table.get?_put_of_ne _ _ he]

/-- What a failed operation leaves: a kitchen like the one it found, the draws, and the input
    without some blanks in front at most. -/
structure Bench.Spares (b b' : Bench) : Prop where
  kitchen : b.kitchen.Alike b'.kitchen
  draws : b'.draws = b.draws
  input : b'.input = b.input ∨ b'.input = b.input.trimStart

theorem Bench.Spares.refl (b : Bench) : b.Spares b := ⟨.refl _, rfl, .inl rfl⟩

section Bench

variable (b : Bench)

/-- A number is asked for first, and then the ingredient is there. -/
theorem take_spares {name : Text} (hname : b.kitchen.ingredients.has name = true) :
    (b.take name).OnFault fun _ b' => b.Spares b' := by
  obtain ⟨ingredient, hing⟩ := ingredient_of_has hname
  intro x hx
  unfold Bench.take at hx ⊢
  simp only [hing] at hx ⊢
  split at hx
  · next e he =>
    cases hx
    obtain ⟨hnumber, -⟩ := Input.number_fault he
    simp only [hnumber]
    exact ⟨.refl _, rfl, .inr rfl⟩
  · cases hx

theorem fold_spares (name : Text) (bowl : Int) :
    (b.fold name bowl).OnFault fun _ b' => b.Spares b' := by
  unfold Bench.fold
  simp only
  split
  · exact .fault (.refl b)
  · split
    · exact .fault ⟨alike_useBowl _ bowl, rfl, .inl rfl⟩
    · exact .ok _

theorem arithmetic_spares (how : Arithmetic) (name : Text) (bowl : Int) :
    (b.arithmetic how name bowl).OnFault fun _ b' => b.Spares b' := by
  unfold Bench.arithmetic
  simp only
  split
  · exact .fault (.refl b)
  · split
    · exact .fault ⟨alike_useBowl _ bowl, rfl, .inl rfl⟩
    · split
      · exact .fault (.refl b)
      · exact .ok _

/-- Stirring may be beyond the machine, but no program is to blame for it. -/
theorem stir_spares (bowl places : Int) : (b.stir bowl places).OnFault fun _ b' => b.Spares b' := by
  unfold Bench.stir
  split
  · exact .ok _
  · split
    · exact .breakdown _
    · exact .ok _

/-- **An operation that fails leaves the kitchen as it was**, if the ingredient it names is
    there. -/
theorem perform_spares {op : Operation}
    (hop : ∀ i, op.ingredient? = some i → b.kitchen.ingredients.has i = true) :
    (b.perform op).OnFault fun _ b' => b.Spares b' := by
  cases op with
  | take name => exact take_spares b (hop name rfl)
  | put name bowl =>
    simp only [Bench.perform]
    split
    · exact .fault (.refl b)
    · exact .ok _
  | fold name bowl => exact fold_spares b name bowl
  | arithmetic how name bowl => exact arithmetic_spares b how name bowl
  | addDry bowl =>
    simp only [Bench.perform]
    split
    · exact .fault (.refl b)
    · exact .ok _
  | liquefy name =>
    simp only [Bench.perform]
    split
    · exact .fault (.refl b)
    · exact .ok _
  | stir bowl minutes => exact stir_spares b bowl minutes
  | stirIngredient bowl name =>
    simp only [Bench.perform]
    split
    · exact .fault (.refl b)
    · exact stir_spares b bowl _
  | liquefyBowl | mix | clean | pour => exact .ok _
  | _ => exact .breakdown _

end Bench

/-! ## 2. Loops -/

section Loops

variable {f : Frame} {here : Nat}

theorem enterLoop_spares (i : Text) (closer : Option Nat) :
    (f.enterLoop here i closer).OnFault fun _ f' => f' = f := by
  unfold Frame.enterLoop
  split
  · exact .fault rfl
  · split
    · split
      · exact .ok _
      · exact .breakdown _
    · exact .ok _

/-- **The end of a loop fails only where its own ingredient has no value**, and then it has not
    counted anything. -/
theorem leaveOrRepeat_spares {auxiliaries : Table Text Recipe} (hsound : f.Sound auxiliaries)
    (hvalued : f.LoopsValued) (hpos : f.position = some here) {verb : Text} {count : Option Text}
    {opener : Option Nat} (hop : f.operations[here]? = some (.loopEnd verb count opener)) :
    (f.leaveOrRepeat here count opener).OnFault fun x f' =>
      f' = f ∧ ∃ i, count = some i ∧ f.kitchen.measured i = .error x ∧ x = .noValue i := by
  obtain ⟨o, rfl, hlt, v, i, hstart⟩ := hsound.recipe.loops.closer here verb count opener hop
  have hvalue : f.kitchen.HasValue i := hvalued here o here v i hpos hstart hlt (Nat.le_refl here)
  -- counting down takes no value away, so the beginning of the loop can be asked for one
  have hrepeat : ∀ k, f.kitchen.Retains k →
      ∀ P, ((f.withKitchen k).repeatLoop here (some o)).OnFault P := by
    intro k hk P
    have hstart' : ((f.withKitchen k).recipe.method.map (·.operation))[o]? =
        some (.loopStart v i (some here)) := hstart
    obtain ⟨item, hitem⟩ := hk i hvalue
    rw [repeatLoop_ok hstart' hitem]
    exact .ok _
  unfold Frame.leaveOrRepeat
  split
  · exact hrepeat f.kitchen (.refl _) _
  · next i' =>
    split
    · exact hrepeat f.kitchen (.refl _) _
    · obtain ⟨s, hs, hsop⟩ := getElem?_operation_iff.mp hop
      unfold Frame.countDown
      rcases measured_of_has (hsound.has hs (i := i') (by rw [hsop]; rfl)) with ⟨item, hm⟩ | hm
      · rw [hm]
        exact hrepeat _ (retains_setIngredient fun _ => ⟨_, rfl⟩) _
      · rw [hm]
        exact .fault ⟨rfl, i', rfl, hm, rfl⟩

end Loops

/-! ## 3. Statements -/

/-- At a place of a call a number of dishes is served: there is a `Refrigerate` with a number of
    hours, or the serving line. -/
def Frame.Serves (f : Frame) (here count : Nat) : Prop :=
  (∃ step hours, f.recipe.method[here]? = some step ∧ step.operation = .refrigerate (some hours) ∧
    count = hours.toNat) ∨
  here = f.recipe.method.length ∧ ∃ serving, f.recipe.serving = some serving ∧
    count = serving.dishes

/-- What a call does next is to serve. -/
def Frame.AboutToServe (f : Frame) : Prop :=
  ∃ here count, f.position = some here ∧ f.Serves here count

/-- The innermost call is about to serve. -/
def State.AboutToServe (s : State) : Prop := ∃ top outer, s.calls = top :: outer ∧ top.AboutToServe

/-- What a failing statement `step` at place `here` leaves of a machine: the same calls at the same
    places, with all ingredients, bowls and dishes as they were, and the input without some blanks
    in front at most. The end of a loop fails before it counts down. -/
structure Spared (m : Machine State) (top : Frame) (outer : List Frame) (step : Step) (x : Fault)
    (m' : Machine State) :
    Prop where
  calls : ∃ k, top.kitchen.Alike k ∧ m'.state.calls = top.withKitchen k :: outer
  book : m'.state.auxiliaries = m.state.auxiliaries
  draws : m'.draws = m.draws
  input : ∃ blanks : Text, (∀ c ∈ blanks, c.isBlank = true) ∧
    m.state.input = blanks ++ m'.state.input
  closer : ∀ verb count opener, step.operation = .loopEnd verb count opener →
    m'.state.calls = top :: outer ∧ ∃ i, count = some i ∧ top.kitchen.measured i = .error x ∧
      x = .noValue i

section Machine

variable {m : Machine State} {top : Frame} {outer : List Frame} {here : Nat} {step : Step}

theorem execute_spares (hsound : top.Sound m.state.auxiliaries) (hvalued : top.LoopsValued)
    (hpos : top.position = some here) (hs : top.recipe.method[here]? = some step)
    (hserves : ∀ hours, step.operation ≠ .refrigerate (some hours)) :
    (execute m top outer here step.operation).OnFault fun x m' => Spared m top outer step x m' := by
  have hop : top.operations[here]? = some step.operation :=
    getElem?_operation_iff.mpr ⟨step, hs, rfl⟩
  cases hflow : step.operation.isFlow with
  | false =>
    have hperform :=
      perform_spares ⟨top.kitchen, m.state.input, m.draws⟩ fun i hi => hsound.has hs hi
    cases hb : Bench.perform ⟨top.kitchen, m.state.input, m.draws⟩ step.operation with
    | mk outcome b =>
      rw [hb] at hperform
      cases outcome with
      | ok u =>
        rw [execute_kitchen_ok hflow hb]
        exact .ok _
      | error e =>
        rw [execute_kitchen_error hflow hb]
        intro x hx
        cases hx
        obtain ⟨hkitchen, hdraws, hinput⟩ := hperform x rfl
        refine ⟨⟨b.kitchen, hkitchen, rfl⟩, rfl, hdraws, Input.blanks_in_front hinput,
          fun verb count opener he => ?_⟩
        rw [he] at hflow
        cases hflow
  | true =>
    cases hcase : step.operation with
    | loopStart verb i closer =>
      refine .lift ((enterLoop_spares i closer).mono fun x f' hf => ?_)
      cases hf
      refine ⟨⟨top.kitchen, .refl _, rfl⟩, rfl, rfl, Input.blanks_in_front (.inl rfl),
        fun _ _ _ he => ?_⟩
      rw [hcase] at he
      cases he
    | loopEnd verb count opener =>
      rw [hcase] at hop
      refine .lift ((leaveOrRepeat_spares hsound hvalued hpos hop).mono fun x f' hf => ?_)
      obtain ⟨rfl, hwhy⟩ := hf
      refine ⟨⟨f'.kitchen, .refl _, rfl⟩, rfl, rfl, Input.blanks_in_front (.inl rfl),
        fun _ count' _ he => ⟨rfl, ?_⟩⟩
      rw [hcase] at he
      cases he
      exact hwhy
    | setAside closer =>
      cases closer with
      | none => exact .breakdown _
      | some c => exact .ok _
    | serveWith callee =>
      show ((m.state.call top outer callee here).lift fun s =>
        ({ m with state := s } : Machine State)).OnFault _
      unfold State.call
      cases m.state.auxiliaries.get? callee with
      | none => exact .breakdown _
      | some r => exact .ok _
    | refrigerate hours =>
      cases hours with
      | none => exact .ok _
      | some n => exact absurd hcase (hserves n)
    | _ => rw [hcase] at hflow; cases hflow

/-- **A statement that fails leaves everything as it was**, unless it serves. -/
theorem act_spares (hsound : m.state.Sound) (hvalued : m.state.LoopsValued)
    (hserves : ¬ m.state.AboutToServe) :
    (act m).OnFault fun x m' => ∃ top outer here step, m.state.calls = top :: outer ∧
      top.position = some here ∧
      top.recipe.method[here]? = some step ∧ Spared m top outer step x m' := by
  obtain ⟨top, outer, hcalls, hlive⟩ := hsound.live
  have htop : top ∈ m.state.calls := by
    rw [hcalls]
    exact List.mem_cons_self
  cases hpos : top.position with
  | none =>
    unfold act
    rw [hcalls]
    simp only [hpos]
    exact .ok _
  | some here =>
    rcases top.unfinished_cases hpos hlive with hlt | ⟨rfl, serving, hserving⟩
    · have hs := List.getElem?_eq_getElem hlt
      rw [act_statement hcalls hpos hs]
      refine (execute_spares (hsound.calls top htop) (hvalued top htop) hpos hs ?_).mono
        fun x m' hm' => ⟨top, outer, here, _, hcalls, hpos, hs, hm'⟩
      intro hours he
      exact hserves ⟨top, outer, hcalls, here, _, hpos, .inl ⟨_, hours, hs, he, rfl⟩⟩
    · exact absurd ⟨top, outer, hcalls, _, _, hpos, .inr ⟨rfl, serving, hserving, rfl⟩⟩ hserves

end Machine

/-- A step fails where its statement fails. -/
theorem act_of_fault {m : Machine State} {r : StepResult} {x : Fault}
    (hr : (language.step m).outcome = .ok r) (hx : r.error = some x) :
    ∃ m', act m = .fault x m' ∧ (language.step m).machine = m' ∧
      r = ⟨display m'.state, location m'.state, none, none, false, some x⟩ := by
  have hfault := language.fault_of_error hr hx
  rw [advance_eq] at hfault
  cases hact : act m with
  | mk outcome m' =>
    rw [hact] at hfault
    cases outcome with
    | ok e => cases hfault
    | error e =>
      cases hfault
      have hadvance : language.advance m = .fault x m' := by
        rw [advance_eq, hact]
        rfl
      have hstep := language.step_of_fault hadvance
      rw [hstep] at hr
      cases hr
      exact ⟨m', rfl, congrArg Turn.machine hstep, rfl⟩

/-- **A failing statement changes nothing, unless it serves.** A program that was read is loaded,
    and for as long as its steps work, the loops that its calls are in have ingredients with values.
    When the next step then reports an error, and its statement neither is a `Refrigerate` with a
    number of hours nor the serving line, all calls are there with their places, ingredients, bowls
    and dishes, of the input at most blanks in front are gone, and the result names the statement
    that failed. The end of a loop fails only for want of a value of its own ingredient, so never
    after it counted down. -/
theorem failing_statement_changes_nothing {code : Text} {program : Program}
    (h : parse code = .ok program) (before : Machine State) (input : Text) :
    ∃ m₀, language.load before code input = .ok m₀ ∧
      ∀ n, (∀ o ∈ (language.steps n m₀).1, Works o) →
        let m := (language.steps n m₀).2
        m.state.LoopsValued ∧
        ∀ r x, (language.step m).outcome = .ok r → r.error = some x → ¬ m.state.AboutToServe →
          ∃ top outer here step, m.state.calls = top :: outer ∧ top.position = some here ∧
            top.recipe.method[here]? = some step ∧ r.next = some step.span ∧
            Spared m top outer step x (language.step m).machine := by
  refine ⟨_, load_of_parse h before input, fun n hworks => ?_⟩
  have hrun := steps_loopsUnderWay h input before.draws hworks
  intro m
  refine ⟨hrun.values, fun r x hr hx hserves => ?_⟩
  obtain ⟨m', hact, hmachine, rfl⟩ := act_of_fault hr hx
  have hsound : m.state.Sound := hrun.sound_of_act (fun b hb => by rw [hact] at hb; cases hb)
  obtain ⟨top, outer, here, step, hcalls, hpos, hs, hspared⟩ :=
    act_spares hsound hrun.values hserves x (by rw [hact]; rfl)
  rw [hact] at hspared
  rw [hmachine]
  refine ⟨top, outer, here, step, hcalls, hpos, hs, ?_, hspared⟩
  obtain ⟨k, -, hcalls'⟩ := hspared.calls
  show location m'.state = some step.span
  rw [location, show m'.state.calls = _ from hcalls']
  show (top.withKitchen k).location = some step.span
  have hpos' : (top.withKitchen k).position = some here := hpos
  have hs' : (top.withKitchen k).recipe.method[here]? = some step := hs
  rw [Frame.location, hpos']
  simp only [hs']

/-- A loop whose end counts down an ingredient that has no value. -/
def sieve : Text :=
  Text.join "\n" ["Sieve.", "",
    "Ingredients.", "2 g a", "b", "",
    "Method.", "Sift the a. Put a into mixing bowl. Sift the b until sifted."]

/-- What is read of it. -/
def sieveProgram : Program where
  main := {
    name := "Sieve"
    ingredients := [("a", ⟨.dry, some 2⟩), ("b", ⟨.unknown, none⟩)]
    method := [
      ⟨.loopStart "sift" "a" (some 2), .within 7 0 10⟩,
      ⟨.put "a" 1, .within 7 11 34⟩,
      ⟨.loopEnd "sifted" (some "b") (some 0), .within 7 35 59⟩]
    serving := none }
  auxiliaries := []

theorem parse_sieve : parse sieve = .ok sieveProgram := Except.eq_ok_of_toOption (by decide +kernel)

/-- The kitchen in which the end of the loop is reached. -/
def sieveKitchen : Kitchen :=
  ⟨[("a", ⟨.dry, some 2⟩), ("b", ⟨.unknown, none⟩)], [(1, [⟨2, .dry⟩])], []⟩

/-- The end of the loop fails, and the loop can be tried again from there. -/
theorem failing_statement_changes_nothing_sieve :
    ∃ m₀, language.load ⟨.fresh, []⟩ sieve [] = .ok m₀ ∧ (∀ o ∈ (language.steps 3 m₀).1, Works o) ∧
      let m := (language.steps 3 m₀).2
      ¬ m.state.AboutToServe ∧ (language.step m).machine.state.calls = m.state.calls ∧
        ∃ r, (language.step m).outcome = .ok r ∧ r.error = some (.noValue "b") ∧
          r.next = some (.within 7 35 59) ∧ r.display = .chef [mainName] sieveKitchen := by
  obtain ⟨m₀, hload, hall⟩ := failing_statement_changes_nothing parse_sieve ⟨.fresh, []⟩ []
  obtain rfl := Except.ok.inj (hload.symm.trans (load_of_parse parse_sieve ⟨.fresh, []⟩ []))
  have hworks : ∀ o ∈ (language.steps 3 ⟨State.start sieveProgram [], []⟩).1, Works o := by
    decide +kernel
  have hshape : (language.steps 3 ⟨State.start sieveProgram [], []⟩).2.state.calls.map
      (fun f => (f.position, f.recipe.method)) = [(some 2, sieveProgram.main.method)] := by
        decide +kernel
  obtain ⟨top, hcalls, htop⟩ := List.map_eq_singleton_iff.mp hshape
  obtain ⟨hpos, hmethod⟩ := Prod.mk.inj htop
  have hr : (language.step (language.steps 3 ⟨State.start sieveProgram [], []⟩).2).outcome =
      .ok ⟨.chef [mainName] sieveKitchen, some (.within 7 35 59), none, none, false,
        some (.noValue "b")⟩ :=
    Except.eq_ok_of_toOption (by decide +kernel)
  have hserves : ¬ (language.steps 3 ⟨State.start sieveProgram [], []⟩).2.state.AboutToServe := by
    rintro ⟨top', outer, hcalls', hserving⟩
    rw [hcalls] at hcalls'
    cases hcalls'
    obtain ⟨here, count, hpos', hserving⟩ := hserving
    rw [hpos] at hpos'
    cases hpos'
    rcases hserving with ⟨step, hours, hs, hop, -⟩ | ⟨hlast, -⟩
    · rw [hmethod] at hs
      cases hs
      cases hop
    · rw [hmethod] at hlast
      cases hlast
  obtain ⟨top', outer, here, step, hcalls', hpos', hs, -, hspared⟩ :=
    (hall 3 hworks).2 _ _ hr rfl hserves
  rw [hcalls] at hcalls'
  cases hcalls'
  rw [hpos] at hpos'
  cases hpos'
  rw [hmethod] at hs
  cases hs
  obtain ⟨hsame, -⟩ := hspared.closer _ _ _ rfl
  exact ⟨_, hload, hworks, hserves, hsame.trans hcalls.symm, _, hr, rfl, rfl, rfl⟩

end Esolang.Chef
