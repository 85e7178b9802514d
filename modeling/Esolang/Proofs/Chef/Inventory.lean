/-
  File:      Esolang/Proofs/Chef/Inventory.lean
  Subject:   A kitchen lists every ingredient, every bowl and every dish once.

  This holds of the kitchens of all calls under way and of the one that is shown at the end, after
  any step, also after one that failed.

  * `Kitchen.Orderly`: no name and no number is listed twice; `State.Orderly`: in no kitchen of a
    state.
  * `perform_orderly`, `serve_orderly`: what is done in a kitchen keeps it orderly.
  * `advance_orderly`: a step keeps a state orderly.
  * `start_orderly`: a program begins in an orderly state.
-/
import Esolang.Proofs.Chef.Safety
import Esolang.Proofs.Table

namespace Esolang.Chef

/-! ## 1. Kitchens -/

/-- No ingredient, bowl or dish is listed twice. -/
structure Kitchen.Orderly (k : Kitchen) : Prop where
  ingredients : k.ingredients.Distinct
  bowls : k.bowls.Distinct
  dishes : k.dishes.Distinct

namespace Kitchen.Orderly

variable {k : Kitchen}

theorem setBowl (h : k.Orderly) (id : Int) (s : Stack) : (k.setBowl id s).Orderly :=
  ⟨h.ingredients, h.bowls.put id s, h.dishes⟩

theorem setDish (h : k.Orderly) (id : Int) (s : Stack) : (k.setDish id s).Orderly :=
  ⟨h.ingredients, h.bowls, h.dishes.put id s⟩

theorem setIngredient (h : k.Orderly) (name : Text) (i : Ingredient) :
    (k.setIngredient name i).Orderly :=
  ⟨h.ingredients.put name i, h.bowls, h.dishes⟩

end Kitchen.Orderly

theorem stocked_orderly {box : Ingredients} (h : box.Distinct) : (Kitchen.stocked box).Orderly :=
  ⟨h, Table.distinct_nil, Table.distinct_nil⟩

section Bench

variable {b : Bench}

theorem take_orderly (h : b.kitchen.Orderly) (name : Text) :
    (b.take name).state.kitchen.Orderly := by
  unfold Bench.take
  simp only
  split
  · exact h
  · split
    · exact h
    · exact h.setIngredient name _

theorem fold_orderly (h : b.kitchen.Orderly) (name : Text) (bowl : Int) :
    (b.fold name bowl).state.kitchen.Orderly := by
  unfold Bench.fold
  simp only
  split
  · exact h
  · split
    · exact h.setBowl bowl _
    · exact (h.setBowl bowl _).setIngredient name _

theorem arithmetic_orderly (h : b.kitchen.Orderly) (how : Arithmetic) (name : Text) (bowl : Int) :
    (b.arithmetic how name bowl).state.kitchen.Orderly := by
  unfold Bench.arithmetic
  simp only
  split
  · exact h
  · split
    · exact h.setBowl bowl _
    · split
      · exact h
      · exact h.setBowl bowl _

theorem stir_orderly (h : b.kitchen.Orderly) (bowl places : Int) :
    (b.stir bowl places).state.kitchen.Orderly := by
  unfold Bench.stir
  split
  · exact h.setBowl bowl _
  · split
    · exact h.setBowl bowl _
    · exact h.setBowl bowl _

/-- **An operation lists nothing twice**, whether it works or fails. -/
theorem perform_orderly (h : b.kitchen.Orderly) (op : Operation) :
    (b.perform op).state.kitchen.Orderly := by
  cases op with
  | take name => exact take_orderly h name
  | put name bowl =>
    simp only [Bench.perform]
    split
    · exact h
    · exact h.setBowl bowl _
  | fold name bowl => exact fold_orderly h name bowl
  | arithmetic how name bowl => exact arithmetic_orderly h how name bowl
  | addDry bowl =>
    simp only [Bench.perform]
    split
    · exact h
    · exact h.setBowl bowl _
  | liquefy name =>
    simp only [Bench.perform]
    split
    · exact h
    · exact h.setIngredient name _
  | liquefyBowl bowl => exact h.setBowl bowl _
  | stir bowl minutes => exact stir_orderly h bowl minutes
  | stirIngredient bowl name =>
    simp only [Bench.perform]
    split
    · exact h
    · exact stir_orderly h bowl _
  | mix bowl => exact h.setBowl bowl _
  | clean bowl => exact h.setBowl bowl []
  | pour bowl dish => exact (h.setDish dish _).setBowl bowl _
  | _ => exact h

end Bench

theorem serveFrom_orderly {k : Kitchen} (h : k.Orderly) (first : Int) (count : Nat) :
    (serveFrom k first count).state.Orderly := by
  induction count generalizing k first with
  | zero => exact h
  | succ count ih =>
    refine Attempt.state_andThen (h.setDish first _) fun t k' hk' => ?_
    exact Attempt.state_andThen (ih hk' (first + 1)) fun _ _ hk'' => hk''

/-! ## 2. Calls -/

section Frame

variable {f : Frame}

/-- Serving lists nothing twice. -/
theorem serve_orderly (h : f.kitchen.Orderly) (count : Nat) :
    (f.serve count).state.kitchen.Orderly := by
  refine Attempt.state_andThen (P := fun f : Frame => f.kitchen.Orderly) ?_ fun _ _ hf => hf
  exact serveFrom_orderly h 1 count

theorem enterLoop_orderly (h : f.kitchen.Orderly) (here : Nat) (i : Text) (closer : Option Nat) :
    (f.enterLoop here i closer).state.kitchen.Orderly := by
  unfold Frame.enterLoop
  split
  · exact h
  · split
    · split
      · exact h
      · exact h
    · exact h

theorem repeatLoop_orderly (h : f.kitchen.Orderly) (here : Nat) (opener : Option Nat) :
    (f.repeatLoop here opener).state.kitchen.Orderly := by
  unfold Frame.repeatLoop
  split
  · exact h
  · split
    · exact h
    · exact h

theorem leaveOrRepeat_orderly (h : f.kitchen.Orderly) (here : Nat) (i : Option Text)
    (opener : Option Nat) : (f.leaveOrRepeat here i opener).state.kitchen.Orderly := by
  unfold Frame.leaveOrRepeat
  split
  · exact repeatLoop_orderly h here opener
  · split
    · exact repeatLoop_orderly h here opener
    · unfold Frame.countDown
      cases f.kitchen.measured _ with
      | error e => exact h
      | ok item => exact repeatLoop_orderly (h.setIngredient _ _) here opener

end Frame

/-! ## 3. States -/

/-- No kitchen lists anything twice: of the recipes that can be called, of the calls under way, and
    the one that is shown at the end. -/
structure State.Orderly (s : State) : Prop where
  book : ∀ name r, s.auxiliaries.get? name = some r → r.ingredients.Distinct
  calls : ∀ f ∈ s.calls, f.kitchen.Orderly
  last : s.lastKitchen.Orderly

section Machine

variable {m : Machine State} {top : Frame} {outer : List Frame}

theorem State.Orderly.cons {s : State} (h : s.Orderly) (hcalls : s.calls = top :: outer) :
    top.kitchen.Orderly ∧ ∀ f ∈ outer, f.kitchen.Orderly := by
  have hkitchens := h.calls
  rw [hcalls] at hkitchens
  exact List.forall_mem_cons.mp hkitchens

/-- The innermost call replaced. -/
theorem State.Orderly.back {s : State} (h : s.Orderly) (hcalls : s.calls = top :: outer) (f : Frame)
    (hf : f.kitchen.Orderly) (input : Text) :
    State.Orderly { s with calls := f :: outer, input := input } :=
  ⟨h.book, List.forall_mem_cons.mpr ⟨hf, (h.cons hcalls).2⟩, h.last⟩

/-- What the innermost call does on its own. -/
theorem back_orderly (h : m.state.Orderly) (hcalls : m.state.calls = top :: outer)
    {a : Attempt Frame Effect} (ha : a.state.kitchen.Orderly) :
    (a.lift fun f => ({ m with state := { m.state with calls := f :: outer } } : Machine
      State)).state.state.Orderly :=
  h.back hcalls a.state ha m.state.input

/-- A call begins with the ingredients of its recipe and with copies of its caller's bowls and
    dishes. -/
theorem call_orderly {s : State} (h : s.Orderly) (hcalls : s.calls = top :: outer) (callee : Text)
    (here : Nat) : (s.call top outer callee here).state.Orderly := by
  have htop := (h.cons hcalls).1
  unfold State.call
  simp only
  split
  · exact h.back hcalls (top.goTo (here + 1)) htop s.input
  · next r hr =>
    have hcaller := h.back hcalls (top.goTo (here + 1)) htop s.input
    have hkitchen : Kitchen.Orderly ⟨r.ingredients, top.kitchen.bowls, top.kitchen.dishes⟩ :=
      ⟨h.book callee r hr, htop.bowls, htop.dishes⟩
    exact ⟨h.book, List.forall_mem_cons.mpr ⟨hkitchen, hcaller.calls⟩, h.last⟩

theorem execute_orderly (h : m.state.Orderly) (hcalls : m.state.calls = top :: outer) (here : Nat)
    (op : Operation) : (execute m top outer here op).state.state.Orderly := by
  have htop := (h.cons hcalls).1
  cases hflow : op.isFlow with
  | false =>
    have hperform :
        (Bench.perform ⟨top.kitchen, m.state.input, m.draws⟩ op).state.kitchen.Orderly :=
      perform_orderly htop op
    cases hb : Bench.perform ⟨top.kitchen, m.state.input, m.draws⟩ op with
    | mk outcome b =>
      rw [hb] at hperform
      cases outcome with
      | ok u =>
        rw [execute_kitchen_ok hflow hb]
        exact h.back hcalls ((top.withKitchen b.kitchen).goTo (here + 1)) hperform b.input
      | error x =>
        rw [execute_kitchen_error hflow hb]
        exact h.back hcalls (top.withKitchen b.kitchen) hperform b.input
  | true =>
    cases op with
    | loopStart verb i closer => exact back_orderly h hcalls (enterLoop_orderly htop here i closer)
    | loopEnd verb i opener =>
      exact back_orderly h hcalls (leaveOrRepeat_orderly htop here i opener)
    | setAside closer =>
      cases closer with
      | some c => exact h.back hcalls (top.goTo (c + 1)) htop m.state.input
      | none => exact h
    | serveWith callee => exact call_orderly h hcalls callee here
    | refrigerate hours =>
      have hended : (top.goTo top.recipe.method.length).kitchen.Orderly := htop
      simp only [execute]
      split
      · exact h.back hcalls _ hended m.state.input
      · split
        · exact h.back hcalls _ hended m.state.input
        · exact back_orderly h hcalls (serve_orderly hended _)
    | _ => cases hflow

theorem act_orderly (h : m.state.Orderly) : (act m).state.state.Orderly := by
  unfold act
  split
  · exact h
  · next top outer hcalls =>
    have htop := (h.cons hcalls).1
    simp only
    split
    · exact h.back hcalls (top.goTo 0) htop m.state.input
    · split
      · split
        · exact h
        · refine back_orderly h hcalls ?_
          exact Attempt.state_andThen (P := fun f : Frame => f.kitchen.Orderly)
            (serve_orderly htop _) fun _ _ hf => hf
      · split
        · exact h
        · exact execute_orderly h hcalls _ _

end Machine

/-- Giving finished calls back lists nothing twice, neither in the kitchens that stay nor in the
    last one. -/
theorem foldCalls_orderly {finished : Frame} {outer : List Frame}
    (hfinished : finished.kitchen.Orderly) (houter : ∀ f ∈ outer, f.kitchen.Orderly) :
    (∀ f ∈ (foldCalls finished outer).1, f.kitchen.Orderly) ∧
      ∀ k, (foldCalls finished outer).2.1 = some k → k.Orderly := by
  induction outer generalizing finished with
  | nil =>
    exact ⟨fun f hf => absurd hf List.not_mem_nil, fun k hk => Option.some.inj hk ▸ hfinished⟩
  | cons caller outer ih =>
    obtain ⟨hcaller, hrest⟩ := List.forall_mem_cons.mp houter
    have hreceived := hcaller.setBowl 1 (finished.kitchen.bowl 1 ++ caller.kitchen.bowl 1)
    simp only [foldCalls]
    split
    · exact ih hreceived hrest
    · exact ⟨List.forall_mem_cons.mpr ⟨hreceived, hrest⟩, fun k hk => by cases hk⟩

theorem settle_orderly {s : State} (h : s.Orderly) : s.settle.1.Orderly := by
  unfold State.settle
  split
  · exact h
  · next top outer hcalls =>
    split
    · obtain ⟨htop, houter⟩ := h.cons hcalls
      obtain ⟨hcalls', hlast⟩ := foldCalls_orderly htop houter
      refine ⟨h.book, hcalls', ?_⟩
      show ((foldCalls top outer).2.1.getD s.lastKitchen).Orderly
      cases hkitchen : (foldCalls top outer).2.1 with
      | none => exact h.last
      | some k => exact hlast k hkitchen
    · exact h

/-- **A step lists nothing twice**, whatever becomes of it. -/
theorem advance_orderly {m : Machine State} (h : m.state.Orderly) :
    (advance m).state.state.Orderly :=
  Attempt.state_andThen (P := fun m : Machine State => m.state.Orderly) (act_orderly h)
    fun _ _ hm => settle_orderly hm

/-! ## 4. Programs -/

theorem ingredientsOn_distinct {page : Page} {box box' : Ingredients} (hbox : box.Distinct)
    (h : ingredientsOn box page = .ok box') : box'.Distinct := by
  induction page generalizing box with
  | nil =>
    cases h
    exact hbox
  | cons l rest ih =>
    rw [ingredientsOn] at h
    split at h
    · exact ih (hbox.put _ _) h
    · cases h
    · cases h

theorem recipe_distinct {ending : Span} {page rest : Page} {r : Recipe}
    (h : recipe ending page = .ok (r, rest)) : r.ingredients.Distinct := by
  unfold recipe at h
  obtain ⟨⟨name, p1⟩, -, h⟩ := Except.bind_ok h
  obtain ⟨p2, -, h⟩ := Except.bind_ok h
  obtain ⟨p3, -, h⟩ := Except.bind_ok h
  obtain ⟨p4, -, h⟩ := Except.bind_ok h
  obtain ⟨box, hbox, h⟩ := Except.bind_ok h
  obtain ⟨p5, -, h⟩ := Except.bind_ok h
  obtain ⟨p6, -, h⟩ := Except.bind_ok h
  obtain ⟨p7, -, h⟩ := Except.bind_ok h
  obtain ⟨p8, -, h⟩ := Except.bind_ok h
  obtain ⟨steps, -, h⟩ := Except.bind_ok h
  obtain ⟨⟨served, p9⟩, -, h⟩ := Except.bind_ok h
  cases h
  exact ingredientsOn_distinct Table.distinct_nil hbox

theorem fresh_orderly : State.fresh.Orderly where
  book name r hr := by cases hr
  calls f hf := absurd hf List.not_mem_nil
  last := stocked_orderly Table.distinct_nil

/-- **A program begins with nothing listed twice.** -/
theorem start_orderly {code : Text} {program : Program} (h : parse code = .ok program)
    (input : Text) : (State.start program input).Orderly := by
  have hrecipes : ∀ r ∈ program.recipes, r.ingredients.Distinct := by
    intro r hr
    obtain ⟨page, rest, -, hrecipe⟩ := (parse_inv h).1 r hr
    exact recipe_distinct hrecipe
  have hmain := stocked_orderly (hrecipes program.main List.mem_cons_self)
  exact ⟨fun name r hr => hrecipes r (mem_recipes_of_get? hr), List.forall_mem_singleton.mpr hmain,
    hmain⟩

end Esolang.Chef
