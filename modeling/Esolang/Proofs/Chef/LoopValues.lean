/-
  File:      Esolang/Proofs/Chef/LoopValues.lean
  Subject:   Inside of a loop, the ingredient that decides about the loop has a value.

  A loop is entered through its beginning alone, and the beginning looks at the value of the
  ingredient. From then on the value may change, but it never goes away: no statement takes a value
  from an ingredient, and every jump leads out of loops or back to the beginning of one.

  * `Kitchen.Retains`: a kitchen has a value wherever another has one; `perform_retains`: no
    operation takes one away.
  * `Leads`: a way through a method that enters no loop but the one it begins at; one lemma for each
    kind of jump.
  * `Frame.LoopsValued`: the ingredients of all loops around the place of a call have values;
    `act_loopsValued`: a statement keeps this, and `steps_loopsValued`: so does a run.
-/
import Esolang.Proofs.Chef.Inventory
import Esolang.Proofs.Chef.Isolation

namespace Esolang.Chef

/-! ## 1. Values that stay -/

/-- An ingredient is there and has a value. -/
def Kitchen.HasValue (k : Kitchen) (i : Text) : Prop := ∃ item, k.measured i = .ok item

theorem hasValue_iff {k : Kitchen} {i : Text} :
    k.HasValue i ↔ ∃ ingredient v, k.ingredients.get? i = some ingredient ∧
      ingredient.value = some v := by
  unfold Kitchen.HasValue Kitchen.measured Kitchen.ingredient
  cases k.ingredients.get? i with
  | none => simp
  | some ingredient =>
    cases hv : ingredient.value with
    | none => simp [hv]
    | some v => simp [hv]

/-- Every ingredient that has a value in one kitchen has one in another. -/
def Kitchen.Retains (k k' : Kitchen) : Prop := ∀ i, k.HasValue i → k'.HasValue i

theorem Kitchen.Retains.refl (k : Kitchen) : k.Retains k := fun _ h => h

/-- An ingredient may be replaced by one that has a value if the old one has. -/
theorem retains_setIngredient {k : Kitchen} {name : Text} {ingredient : Ingredient}
    (h : k.HasValue name → ∃ v, ingredient.value = some v) :
    k.Retains (k.setIngredient name ingredient) := by
  intro i hi
  by_cases he : i = name
  · subst he
    obtain ⟨v, hv⟩ := h hi
    exact hasValue_iff.mpr ⟨ingredient, v, Table.get?_put_self _ _ _, hv⟩
  · obtain ⟨old, v, hold, hv⟩ := hasValue_iff.mp hi
    exact hasValue_iff.mpr ⟨old, v, (Table.get?_put_of_ne _ _ he).trans hold, hv⟩

section Bench

variable (b : Bench)

theorem take_retains (name : Text) : b.kitchen.Retains (b.take name).state.kitchen := by
  unfold Bench.take
  simp only
  split
  · exact .refl _
  · split
    · exact .refl _
    · exact retains_setIngredient fun _ => ⟨_, rfl⟩

theorem fold_retains (name : Text) (bowl : Int) :
    b.kitchen.Retains (b.fold name bowl).state.kitchen := by
  unfold Bench.fold
  simp only
  split
  · exact .refl _
  · split
    · exact .refl _
    · next top rest _ =>
      exact retains_setIngredient (k := b.kitchen.setBowl bowl rest) fun _ => ⟨top.value, rfl⟩

theorem arithmetic_retains (how : Arithmetic) (name : Text) (bowl : Int) :
    b.kitchen.Retains (b.arithmetic how name bowl).state.kitchen := by
  unfold Bench.arithmetic
  simp only
  split
  · exact .refl _
  · split
    · exact .refl _
    · split
      · exact .refl _
      · exact .refl _

theorem stir_retains (bowl places : Int) :
    b.kitchen.Retains (b.stir bowl places).state.kitchen := by
  unfold Bench.stir
  split
  · exact .refl _
  · split
    · exact .refl _
    · exact .refl _

/-- **No operation takes a value from an ingredient**, whether it works or fails. -/
theorem perform_retains (op : Operation) : b.kitchen.Retains (b.perform op).state.kitchen := by
  cases op with
  | take name => exact take_retains b name
  | put name bowl =>
    simp only [Bench.perform]
    split
    · exact .refl _
    · exact .refl _
  | fold name bowl => exact fold_retains b name bowl
  | arithmetic how name bowl => exact arithmetic_retains b how name bowl
  | addDry bowl =>
    simp only [Bench.perform]
    split
    · exact .refl _
    · exact .refl _
  | liquefy name =>
    simp only [Bench.perform]
    split
    · exact .refl _
    · next ingredient hing =>
      -- only the kind is new
      refine retains_setIngredient fun hvalue => ?_
      obtain ⟨old, v, hold, hv⟩ := hasValue_iff.mp hvalue
      unfold Kitchen.ingredient at hing
      rw [hold] at hing
      cases hing
      exact ⟨v, hv⟩
  | stir bowl minutes => exact stir_retains b bowl minutes
  | stirIngredient bowl name =>
    simp only [Bench.perform]
    split
    · exact .refl _
    · exact stir_retains b bowl _
  | _ => exact .refl _

end Bench

/-! ## 2. Ways through a method -/

/-- Whoever goes from place `here` to place `p` enters no loop, except one that begins at `here`:
    every other loop around `p` is around `here`. A loop is around its end, but not around its
    beginning. -/
def Leads (ops : List Operation) (here p : Nat) : Prop :=
  ∀ o c, LoopFrom ops o c → o < p → p ≤ c → o = here ∨ o < here ∧ here ≤ c

section Ways

variable {ops : List Operation} {here : Nat}

theorem leads_next (ops : List Operation) (here : Nat) : Leads ops here (here + 1) := by
  intro o c _ ho hc
  omega

variable (hloops : LoopsResolved ops)
include hloops

/-- Behind a loop one is in no loop that was not around all of it. -/
theorem leads_behind {i c : Nat} (hloop : LoopFrom ops i c) (hi : i ≤ here) (hc : here ≤ c) :
    Leads ops here (c + 1) := by
  intro o e hother ho he
  have hnested := hloops.nested i c o e hloop hother
  have hne : o ≠ c := by
    -- a loop ends at `c`, so none begins there
    rintro rfl
    obtain ⟨verb, ingredient, hstart⟩ := hloop
    obtain ⟨_, closing, count, hcloser, _, _, hend, _⟩ := hloops.opener i verb ingredient _ hstart
    cases hcloser
    obtain ⟨_, _, hstart'⟩ := hother
    rw [hend] at hstart'
    cases hstart'
  omega

/-- The end of a loop leads back to its beginning. -/
theorem leads_back {o : Nat} (hloop : LoopFrom ops o here) (ho : o < here) : Leads ops here o := by
  intro o' e hother ho' he
  have hnested := hloops.nested o here o' e hloop hother
  omega

theorem leads_aside {c : Nat} (haside : ops[here]? = some (.setAside (some c))) :
    Leads ops here (c + 1) := by
  obtain ⟨i, c', hc, hloop, hi, hlt, -⟩ := hloops.aside here (some c) haside
  cases hc
  exact leads_behind hloops hloop (Nat.le_of_lt hi) (Nat.le_of_lt hlt)

/-- Behind the last operation there are no loops. -/
theorem leads_end {p : Nat} (hp : ops.length ≤ p) : Leads ops here p := by
  rintro o c ⟨verb, ingredient, hstart⟩ _ hc
  obtain ⟨c', _, _, hcloser, _, hlt, _⟩ := hloops.opener o verb ingredient _ hstart
  cases hcloser
  omega

end Ways

/-! ## 3. Calls -/

/-- The operations of a call's method. -/
def Frame.operations (f : Frame) : List Operation := f.recipe.method.map (·.operation)

/-- The ingredients of all loops around the place of a call have values. -/
def Frame.LoopsValued (f : Frame) : Prop :=
  ∀ p o c verb i, f.position = some p → f.operations[o]? = some (.loopStart verb i (some c)) →
    o < p → p ≤ c → f.kitchen.HasValue i

section Calls

variable {f : Frame} {here : Nat}

/-- A call that goes on along a way, without taking values away, has entered at most the loop it
    stood at. -/
theorem Frame.LoopsValued.goOn (h : f.LoopsValued) (hpos : f.position = some here) {k : Kitchen}
    (hk : f.kitchen.Retains k) {p : Nat} (hway : Leads f.operations here p)
    (hbegun : ∀ verb i c, f.operations[here]? = some (.loopStart verb i c) → f.kitchen.HasValue i) :
    ((f.withKitchen k).goTo p).LoopsValued := by
  intro p' o c verb i hp hstart ho hc
  cases hp
  rcases hway o c ⟨verb, i, hstart⟩ ho hc with rfl | ⟨hlt, hle⟩
  · exact hk i (hbegun verb i _ hstart)
  · exact hk i (h here o c verb i hpos hstart hlt hle)

/-- An operation that begins no loop enters none. -/
theorem Frame.LoopsValued.goOn_plain (h : f.LoopsValued) (hpos : f.position = some here)
    {op : Operation} (hop : f.operations[here]? = some op)
    (hplain : ∀ verb i c, op ≠ .loopStart verb i c) {k : Kitchen} (hk : f.kitchen.Retains k)
    {p : Nat} (hway : Leads f.operations here p) : ((f.withKitchen k).goTo p).LoopsValued := by
  refine h.goOn hpos hk hway fun verb i c hstart => ?_
  rw [hop] at hstart
  exact absurd (Option.some.inj hstart) (hplain verb i c)

/-- A call that has just begun is in no loop. -/
theorem loopsValued_of_first (h : ∀ p, f.position = some p → p = 0) : f.LoopsValued := by
  intro p o c verb i hp _ ho _
  have hzero := h p hp
  omega

theorem loopsValued_receive (h : f.LoopsValued) (items : Stack) : (f.receive items).LoopsValued :=
  fun p o c verb i hp hstart ho hc => h p o c verb i hp hstart ho hc

variable (h : f.LoopsValued) (hloops : LoopsResolved f.operations) (hpos : f.position = some here)
include h hloops hpos

theorem enterLoop_loopsValued {verb i : Text} {closer : Option Nat}
    (hop : f.operations[here]? = some (.loopStart verb i closer)) :
    (f.enterLoop here i closer).Meets (fun _ f' => f'.LoopsValued) fun _ => True := by
  obtain ⟨c, _, _, rfl, hlt, _, _⟩ := hloops.opener here verb i closer hop
  cases hm : f.kitchen.measured i with
  | error x =>
    rw [enterLoop_error hm]
    exact .fault trivial
  | ok item =>
    have hbegun : ∀ verb' i' c', f.operations[here]? = some (.loopStart verb' i' c') →
        f.kitchen.HasValue i' := by
      intro verb' i' c' hstart
      rw [hop] at hstart
      cases hstart
      exact ⟨item, hm⟩
    rw [enterLoop_ok hm]
    refine .ok (h.goOn hpos (.refl _) ?_ hbegun)
    split
    · exact leads_behind hloops ⟨verb, i, hop⟩ (Nat.le_refl _) (Nat.le_of_lt hlt)
    · exact leads_next _ _

theorem leaveOrRepeat_loopsValued {verb : Text} {count : Option Text} {opener : Option Nat}
    (hop : f.operations[here]? = some (.loopEnd verb count opener)) :
    (f.leaveOrRepeat here count opener).Meets (fun _ f' => f'.LoopsValued) fun _ => True := by
  obtain ⟨o, rfl, hlt, v, i, hstart⟩ := hloops.closer here verb count opener hop
  have hback : Leads f.operations here o := leads_back hloops ⟨v, i, hstart⟩ hlt
  -- whatever was counted down, the way is on or back
  have hrepeat : ∀ k, f.kitchen.Retains k →
      ((f.withKitchen k).repeatLoop here (some o)).Meets (fun _ f' => f'.LoopsValued) fun _ =>
        True := by
    intro k hk
    have hstart' : ((f.withKitchen k).recipe.method.map (·.operation))[o]? =
        some (.loopStart v i (some here)) := hstart
    cases hm : (f.withKitchen k).kitchen.measured i with
    | error x =>
      rw [repeatLoop_error hstart' hm]
      exact .fault trivial
    | ok item =>
      rw [repeatLoop_ok hstart' hm]
      refine .ok (h.goOn_plain hpos hop (fun _ _ _ e => by cases e) hk ?_)
      split
      · exact leads_next _ _
      · exact hback
  unfold Frame.leaveOrRepeat
  split
  · exact hrepeat f.kitchen (.refl _)
  · next i' =>
    split
    · exact hrepeat f.kitchen (.refl _)
    · unfold Frame.countDown
      cases f.kitchen.measured i' with
      | error x => exact .fault trivial
      | ok item => exact hrepeat _ (retains_setIngredient fun _ => ⟨_, rfl⟩)

end Calls

theorem serve_kitchen (f : Frame) (count : Nat) :
    (f.serve count).Meets (fun _ f' => ∃ k, f.kitchen.Retains k ∧ f' = f.withKitchen k) fun _ =>
      True := by
  have hserve := Chef.serve_meets (p := True) f.kitchen count
  unfold Frame.serve
  cases hk : Chef.serve f.kitchen count with
  | mk outcome k =>
    rw [hk] at hserve
    cases outcome with
    | error e => trivial
    | ok t =>
      have hingredients : k.ingredients = f.kitchen.ingredients := hserve
      refine .ok ⟨k, fun i hi => ?_, rfl⟩
      rw [hasValue_iff] at hi ⊢
      rw [hingredients]
      exact hi

/-! ## 4. Steps and runs -/

/-- All calls of a state have values for the loops they are in. -/
def State.LoopsValued (s : State) : Prop := ∀ f ∈ s.calls, f.LoopsValued

section Machine

variable {m : Machine State} {top : Frame} {outer : List Frame} {here : Nat}

/-- What the innermost call does on its own. -/
theorem back_loopsValued (houter : ∀ f ∈ outer, f.LoopsValued) {a : Attempt Frame Effect}
    (ha : a.Meets (fun _ f' => f'.LoopsValued) fun _ => True) :
    (a.lift fun f => ({ m with state := { m.state with calls := f :: outer } } : Machine
      State)).Meets
      (fun _ m' => m'.state.LoopsValued) fun _ => True :=
  .lift (ha.mono (fun _ _ hf => List.forall_mem_cons.mpr ⟨hf, houter⟩) fun _ _ => trivial)

/-- A call begins in no loop. -/
theorem call_loopsValued {s : State} (h : ∀ f ∈ top.goTo (here + 1) :: outer, f.LoopsValued)
    (callee : Text) :
    (s.call top outer callee here).Meets (fun _ s' => s'.LoopsValued) fun _ => True := by
  unfold State.call
  cases s.auxiliaries.get? callee with
  | none => exact .breakdown trivial
  | some r =>
    exact .ok (List.forall_mem_cons.mpr ⟨loopsValued_of_first fun p hp => (Option.some.inj hp).symm,
      h⟩)

theorem execute_loopsValued (h : m.state.LoopsValued) (hcalls : m.state.calls = top :: outer)
    (hloops : LoopsResolved top.operations) (hpos : top.position = some here) {s : Step}
    (hs : top.recipe.method[here]? = some s) :
    (execute m top outer here s.operation).Meets (fun _ m' => m'.state.LoopsValued) fun _ =>
      True := by
  unfold State.LoopsValued at h
  rw [hcalls] at h
  obtain ⟨htop, houter⟩ := List.forall_mem_cons.mp h
  have hop : top.operations[here]? = some s.operation := getElem?_operation_iff.mpr ⟨s, hs, rfl⟩
  have hend : top.operations.length ≤ top.recipe.method.length := Nat.le_of_eq (List.length_map _)
  cases hflow : s.operation.isFlow with
  | false =>
    have hretains := perform_retains ⟨top.kitchen, m.state.input, m.draws⟩ s.operation
    cases hb : Bench.perform ⟨top.kitchen, m.state.input, m.draws⟩ s.operation with
    | mk outcome b =>
      rw [hb] at hretains
      cases outcome with
      | ok u =>
        rw [execute_kitchen_ok hflow hb]
        have hplain : ∀ verb i c, s.operation ≠ .loopStart verb i c := by
          intro verb i c he
          rw [he] at hflow
          cases hflow
        exact .ok (List.forall_mem_cons.mpr
          ⟨htop.goOn_plain hpos hop hplain hretains (leads_next _ _), houter⟩)
      | error x =>
        rw [execute_kitchen_error hflow hb]
        trivial
  | true =>
    have hdone : ∀ p, (∀ verb i c, s.operation ≠ .loopStart verb i c) →
        Leads top.operations here p →
        ∀ f ∈ top.goTo p :: outer, f.LoopsValued := fun p hplain hway =>
      List.forall_mem_cons.mpr ⟨htop.goOn_plain hpos hop hplain (.refl _) hway, houter⟩
    cases hcase : s.operation with
    | loopStart verb i closer =>
      rw [hcase] at hop
      exact back_loopsValued houter (enterLoop_loopsValued htop hloops hpos hop)
    | loopEnd verb count opener =>
      rw [hcase] at hop
      exact back_loopsValued houter (leaveOrRepeat_loopsValued htop hloops hpos hop)
    | setAside closer =>
      rw [hcase] at hdone hop
      cases closer with
      | none => exact .breakdown trivial
      | some c => exact .ok (hdone (c + 1) (fun _ _ _ e => by cases e) (leads_aside hloops hop))
    | serveWith callee =>
      rw [hcase] at hdone
      exact .lift (call_loopsValued (hdone (here + 1) (fun _ _ _ e => by cases e) (leads_next _ _))
        callee)
    | refrigerate hours =>
      rw [hcase] at hdone hop
      have hended :=
        hdone top.recipe.method.length (fun _ _ _ e => by cases e) (leads_end hloops hend)
      simp only [execute]
      split
      · exact .ok hended
      · split
        · exact .ok hended
        · refine back_loopsValued houter ((serve_kitchen _ _).mono (fun _ f' hf' => ?_) fun _ _ =>
            trivial)
          obtain ⟨k, hk, rfl⟩ := hf'
          exact htop.goOn_plain hpos hop (fun _ _ _ e => by cases e) hk (leads_end hloops hend)
    | _ => rw [hcase] at hflow; cases hflow

/-- **A statement enters no loop whose ingredient has no value.** -/
theorem act_loopsValued (h : m.state.LoopsValued) (hsound : m.state.Sound) :
    (act m).Meets (fun _ m' => m'.state.LoopsValued) fun _ => True := by
  obtain ⟨top, outer, hcalls, hlive⟩ := hsound.live
  have hloops : LoopsResolved top.operations := (hsound.cons hcalls).1.recipe.loops
  have hframes := h
  unfold State.LoopsValued at hframes
  rw [hcalls] at hframes
  obtain ⟨htop, houter⟩ := List.forall_mem_cons.mp hframes
  cases hpos : top.position with
  | none =>
    unfold act
    rw [hcalls]
    simp only [hpos]
    have hfirst : (top.goTo 0).LoopsValued :=
      loopsValued_of_first fun p hp => (Option.some.inj hp).symm
    exact .ok (List.forall_mem_cons.mpr ⟨hfirst, houter⟩)
  | some here =>
    rcases top.unfinished_cases hpos hlive with hlt | ⟨rfl, serving, hserving⟩
    · have hs := List.getElem?_eq_getElem hlt
      rw [act_statement hcalls hpos hs]
      exact execute_loopsValued h hcalls hloops hpos hs
    · rw [act_serving hcalls hpos hserving]
      refine back_loopsValued houter ((serve_kitchen top _).andThen fun e f' hf' => .ok ?_)
      obtain ⟨k, hk, rfl⟩ := hf'
      have hlength : top.operations.length = top.recipe.method.length := List.length_map _
      have hnone : top.operations[top.recipe.method.length]? = none := by
        rw [← hlength]
        exact List.getElem?_eq_none (Nat.le_refl _)
      refine htop.goOn hpos hk (leads_end hloops (by omega)) fun verb i c hstart => ?_
      rw [hnone] at hstart
      cases hstart

end Machine

/-- A program that is under way, with values for the loops that its calls are in. -/
structure LoopsUnderWay (program : Program) (m : Machine State) :
    Prop extends UnderWay program m where
  values : m.state.LoopsValued

/-- Where something is left to do, the calls are sound. -/
theorem UnderWay.sound_of_act {program : Program} {m : Machine State} (h : UnderWay program m)
    (hact : ∀ b, (act m).outcome ≠ .error (.breakdown b)) : m.state.Sound := by
  refine h.sound.resolve_left fun hnone => ?_
  unfold act at hact
  rw [hnone] at hact
  exact hact _ rfl

theorem LoopsUnderWay.step {program : Program} {m : Machine State} (h : LoopsUnderWay program m)
    (hworks : Works (language.step m).outcome) :
    LoopsUnderWay program (language.step m).machine := by
  refine ⟨h.toUnderWay.step hworks, ?_⟩
  obtain ⟨e, m', hact, hstep⟩ := act_of_works hworks
  have hsound : m.state.Sound := h.sound_of_act (fun b hb => by rw [hact] at hb; cases hb)
  have hvalues := act_loopsValued h.values hsound
  rw [hact] at hvalues
  rw [hstep]
  intro f hf
  obtain ⟨g, hg, rfl | ⟨items, rfl⟩⟩ := mem_settle hf
  · exact hvalues f hg
  · exact loopsValued_receive (hvalues g hg) items

/-- **After any number of steps that work, every loop that a call is in has an ingredient with a
    value.** -/
theorem steps_loopsUnderWay {code : Text} {program : Program} (h : parse code = .ok program)
    (input : Text) (draws : Draws) {n : Nat}
    (hworks : ∀ o ∈ (language.steps n ⟨State.start program input, draws⟩).1, Works o) :
    LoopsUnderWay program (language.steps n ⟨State.start program input, draws⟩).2 := by
  have hstart : (State.start program input).LoopsValued := by
    intro f hf
    rw [List.mem_singleton.mp hf]
    exact loopsValued_of_first fun p hp => by cases hp
  exact language.steps_preserves (P := LoopsUnderWay program) (fun _ hm hstep => hm.step hstep)
    ⟨⟨.inr (start_sound h input), rfl⟩, hstart⟩ hworks

end Esolang.Chef
