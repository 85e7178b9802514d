/-
  File:      Esolang/Proofs/Chef/FailedServing.lean
  Subject:   What is left of the dishes when serving fails.

  Serving takes the items from the dishes one by one and fails at the first liquid whose number is
  no character code. By then this item and all before it are gone. A `Refrigerate` has moreover
  ended its method before it serves, so that the next step is not made there, but at the serving
  line, or nowhere.

  * `serveStack_spoils`: what is left of a dish at which serving fails.
  * `Spoiled`: what is left of a kitchen; `serveFrom_spoils`: serving that fails leaves it.
  * `act_spoils`: where the call stands afterwards.
  * `failed_serving_loses_items`: all of it, with the result that is reported and the step that
    follows; `refrigerated_jelly_is_lost`: a dish and a place that are lost.
-/
import Esolang.Proofs.Chef.FailedStatement

namespace Esolang.Chef

/-! ## 1. Dishes -/

/-- A liquid whose number is no character code. -/
def Item.NoCharacter (item : Item) : Prop :=
  item.kind = .liquid ∧ CodePoint.ofInt? item.value = none

/-- An item that can be served. -/
def Item.Servable (item : Item) : Prop := ∃ t, serveItem item = .ok t

theorem serveItem_fault {item : Item} {x : Fault} (h : serveItem item = .error (.fault x)) :
    item.NoCharacter ∧ x = .characterCode item.value := by
  unfold serveItem at h
  cases hkind : item.kind with
  | liquid =>
    simp only [hkind] at h
    cases hcode : CodePoint.ofInt? item.value with
    | some c =>
      rw [hcode] at h
      cases h
    | none =>
      simp only [hcode, Decimal.noCharacter] at h
      split at h
      · cases h
      · cases h
        exact ⟨⟨hkind, hcode⟩, rfl⟩
  | dry | unknown =>
    -- a number can only be too long
    simp only [hkind] at h
    split at h
    · cases h
    · cases h

/-- A dish that was served is empty, and all its items could be served. -/
theorem serveStack_empties (s : Stack) :
    (serveStack s).Meets (fun _ left => left = [] ∧ ∀ item ∈ s, item.Servable) fun _ => True := by
  induction s with
  | nil => exact .ok ⟨rfl, fun _ hi => absurd hi List.not_mem_nil⟩
  | cons item rest ih =>
    rw [serveStack]
    cases hitem : serveItem item with
    | error e => trivial
    | ok t =>
      refine ih.andThen fun _ left hrest => .ok ?_
      exact ⟨hrest.1, List.forall_mem_cons.mpr ⟨⟨t, hitem⟩, hrest.2⟩⟩

/-- **A dish that cannot be served loses its items down to the first one that is to blame**, and
    this one as well. -/
theorem serveStack_spoils (s : Stack) :
    (serveStack s).OnFault fun x left => ∃ served item, s = served ++ item :: left ∧
      (∀ i ∈ served, i.Servable) ∧ item.NoCharacter ∧ x = .characterCode item.value := by
  induction s with
  | nil => exact .ok _
  | cons item rest ih =>
    rw [serveStack]
    cases hitem : serveItem item with
    | error e =>
      intro x hx
      cases hx
      obtain ⟨hno, hx⟩ := serveItem_fault hitem
      exact ⟨[], item, rfl, fun _ hi => absurd hi List.not_mem_nil, hno, hx⟩
    | ok t =>
      have hrest : (serveStack rest).OnFault fun x left => ∃ served culprit,
          item :: rest = served ++ culprit :: left ∧ (∀ i ∈ served, i.Servable) ∧
            culprit.NoCharacter ∧ x = .characterCode culprit.value := by
        refine ih.mono fun x left hleft => ?_
        obtain ⟨served, culprit, rfl, hserved, hno⟩ := hleft
        exact ⟨item :: served, culprit, rfl, List.forall_mem_cons.mpr ⟨⟨t, hitem⟩, hserved⟩, hno⟩
      exact hrest.andThen fun _ _ => .ok _

/-! ## 2. Kitchens -/

theorem dish_setDish_self (k : Kitchen) (d : Int) (s : Stack) : (k.setDish d s).dish d = s := by
  unfold Kitchen.setDish Kitchen.dish
  rw [Table.get?_put_self]
  rfl

theorem dish_setDish_of_ne (k : Kitchen) {d e : Int} (h : e ≠ d) (s : Stack) :
    (k.setDish d s).dish e = k.dish e := by
  unfold Kitchen.setDish Kitchen.dish
  rw [Table.get?_put_of_ne _ _ h]

/-- What is left of a kitchen when a number of dishes was to be served, beginning with `first`, and
    serving failed in dish `d`: the dishes before it are empty, and in this one everything is gone
    down to the item to blame. All else is as it was. -/
structure Spoiled (k : Kitchen) (first : Int) (count : Nat) (x : Fault) (k' : Kitchen) : Prop where
  ingredients : k'.ingredients = k.ingredients
  bowls : k'.bowls = k.bowls
  dishes : ∃ d served item, first ≤ d ∧ d < first + count ∧
    k.dish d = served ++ item :: k'.dish d ∧ (∀ i ∈ served, i.Servable) ∧ item.NoCharacter ∧
    x = .characterCode item.value ∧
    (∀ e, first ≤ e → e < d → k'.dish e = [] ∧ ∀ i ∈ k.dish e, i.Servable) ∧
    ∀ e, e < first ∨ d < e → k'.dish e = k.dish e

/-- Serving fails in the first dish. -/
theorem serveDish_spoils (k : Kitchen) (first : Int) (n : Nat) :
    (serveDish k first).OnFault fun x k' => Spoiled k first (n + 1) x k' := by
  refine .lift ((serveStack_spoils (k.dish first)).mono fun x left hleft => ?_)
  obtain ⟨served, item, hdish, hserved, hno, hx⟩ := hleft
  refine ⟨rfl, rfl, first, served, item, Int.le_refl first, by omega, ?_, hserved, hno, hx, ?_, ?_⟩
  · rw [dish_setDish_self]
    exact hdish
  · intro e hfirst hlt
    omega
  · intro e he
    exact dish_setDish_of_ne k (by omega) left

/-- Serving fails in a dish behind the first one, which is empty by then. -/
theorem Spoiled.behind {k k' : Kitchen} {first : Int} {n : Nat} {x : Fault}
    (h : Spoiled (k.setDish first []) (first + 1) n x k')
    (hfirst : ∀ i ∈ k.dish first, i.Servable) : Spoiled k first (n + 1) x k' := by
  obtain ⟨d, served, item, hle, hlt, hdish, hserved, hno, hx, hbefore, hothers⟩ := h.dishes
  rw [dish_setDish_of_ne k (by omega)] at hdish
  refine ⟨h.ingredients, h.bowls, d, served, item, by omega, by omega, hdish, hserved, hno, hx,
    ?_, ?_⟩
  · intro e hfe hed
    by_cases he : e = first
    · rw [he, hothers first (by omega), dish_setDish_self]
      exact ⟨rfl, hfirst⟩
    · have hafter := hbefore e (by omega) hed
      rw [dish_setDish_of_ne k he] at hafter
      exact hafter
  · intro e he
    rw [hothers e (by omega), dish_setDish_of_ne k (by omega)]

/-- **Serving that fails leaves a spoiled kitchen.** -/
theorem serveFrom_spoils (k : Kitchen) (first : Int) (n : Nat) :
    (serveFrom k first n).OnFault fun x k' => Spoiled k first n x k' := by
  induction n generalizing k first with
  | zero => exact .ok _
  | succ n ih =>
    rw [serveFrom]
    refine (serveDish_spoils k first n).andThen fun t ht => ?_
    have hempties := serveStack_empties (k.dish first)
    have hok : (serveStack (k.dish first)).outcome = .ok t := ht
    unfold Attempt.Meets at hempties
    rw [hok] at hempties
    obtain ⟨hleft, hservable⟩ := hempties
    have hstate : (serveDish k first).state = k.setDish first [] := congrArg (k.setDish first) hleft
    rw [hstate]
    refine ((ih (k.setDish first []) (first + 1)).mono fun x k' hk' => ?_).andThen fun _ _ => .ok _
    exact hk'.behind hservable

/-! ## 3. Statements -/

theorem Frame.serve_spoils (f : Frame) (count : Nat) :
    (f.serve count).OnFault fun x f' => ∃ k, Spoiled f.kitchen 1 count x k ∧
      f' = f.withKitchen k := by
  have hserve : ((Chef.serve f.kitchen count).lift f.withKitchen).OnFault fun x f' =>
      ∃ k, Spoiled f.kitchen 1 count x k ∧ f' = f.withKitchen k :=
    .lift ((serveFrom_spoils f.kitchen 1 count).mono fun x k hk => ⟨k, hk, rfl⟩)
  exact hserve.andThen fun _ _ => .ok _

section Machine

variable {m : Machine State} {top : Frame} {outer : List Frame} {here count : Nat}

/-- **When serving fails, the method has ended**, also where it had not before. -/
theorem act_spoils (hcalls : m.state.calls = top :: outer) (hpos : top.position = some here)
    (hserves : top.Serves here count) :
    (act m).OnFault fun x m' => ∃ k, Spoiled top.kitchen 1 count x k ∧
      m' = { m with
        state := { m.state with
          calls := (top.withKitchen k).goTo top.recipe.method.length :: outer } } := by
  rcases hserves with ⟨step, hours, hs, hop, rfl⟩ | ⟨rfl, serving, hserving, rfl⟩
  · rw [act_statement hcalls hpos hs, hop]
    simp only [execute]
    split
    · exact .ok _
    · refine .lift ((Frame.serve_spoils _ _).mono fun x f' hf' => ?_)
      obtain ⟨k, hk, rfl⟩ := hf'
      exact ⟨k, hk, rfl⟩
  · rw [act_serving hcalls hpos hserving]
    have hserve := (Frame.serve_spoils top serving.dishes).andThen
      (g := fun (e : Effect) (f : Frame) => .ok e (f.goTo (top.recipe.method.length + 1)))
        fun _ _ => .ok _
    refine .lift (hserve.mono fun x f' hf' => ?_)
    obtain ⟨k, hk, rfl⟩ := hf'
    -- the call stands at its serving line already
    have hstays : (top.withKitchen k).goTo top.recipe.method.length = top.withKitchen k := by
      unfold Frame.withKitchen Frame.goTo
      rw [← hpos]
    refine ⟨k, hk, ?_⟩
    rw [hstays]

/-- Where there is no serving line, nothing can be done behind the last statement. -/
theorem step_ended (hcalls : m.state.calls = top :: outer)
    (hpos : top.position = some top.recipe.method.length) (hserving : top.recipe.serving = none) :
    (language.step m).outcome = .error .noServings := by
  have hact : act m = .breakdown .noServings m := by
    unfold act
    rw [hcalls]
    simp only [hpos, if_true, hserving]
  have hadvance : language.advance m = .breakdown .noServings m := by
    rw [advance_eq, hact]
    rfl
  rw [language.step_of_breakdown hadvance]

/-- Where there is one, it is tried. -/
theorem step_serving_ne (hcalls : m.state.calls = top :: outer)
    (hpos : top.position = some top.recipe.method.length) {serving : Serving}
    (hserving : top.recipe.serving = some serving) :
    (language.step m).outcome ≠ .error .noServings := by
  have hkitchen : ((Chef.serve top.kitchen serving.dishes).lift top.withKitchen).Meets
      (fun _ _ => True) (Bearable False) :=
    .lift ((Chef.serve_meets top.kitchen serving.dishes).mono (fun _ _ _ => trivial) fun _ hb => hb)
  have hserve : (top.serve serving.dishes).Meets (fun _ _ => True) (Bearable False) :=
    hkitchen.andThen fun _ _ _ => .ok trivial
  have hact : (act m).Meets (fun _ _ => True) (Bearable False) := by
    rw [act_serving hcalls hpos hserving]
    exact .lift (hserve.andThen fun _ _ _ => .ok trivial)
  have hadvance : (language.advance m).Meets (fun _ _ => True) (Bearable False) := by
    rw [advance_eq]
    exact hact.andThen fun _ _ _ => .ok trivial
  intro ho
  rcases language.step_cases hadvance with ⟨p, r, hr, -⟩ | ⟨f, r, hr, -⟩ | ⟨b, hb, hbearable⟩
  · rw [hr] at ho
    cases ho
  · rw [hr] at ho
    cases ho
  · rw [hb] at ho
    cases ho
    cases hbearable

end Machine

/-- **Serving that fails loses items, and perhaps the place.** Whatever a machine has done before,
    the following holds of a next step that serves `count` dishes and reports an error. The error
    names the number of the first item that cannot be served. This item is gone, and so are all that
    were served before it; all other items, the ingredients, the bowls, the callers, the input and
    the draws are as they were. The call stands behind its last statement, and the result names the
    serving line, if there is one. Else it names no place, and the next step breaks down. -/
theorem failed_serving_loses_items {m : Machine State} {r : StepResult} {x : Fault}
    (hr : (language.step m).outcome = .ok r) (hx : r.error = some x) {top : Frame}
    {outer : List Frame} {here count : Nat} (hcalls : m.state.calls = top :: outer)
    (hpos : top.position = some here) (hserves : top.Serves here count) :
    let m' := (language.step m).machine
    (∃ k, Spoiled top.kitchen 1 count x k ∧
      m' = { m with
        state := { m.state with
          calls := (top.withKitchen k).goTo top.recipe.method.length :: outer } }) ∧
    r.output = none ∧ r.next = (top.recipe.serving.map fun s => .line s.row) ∧
    ((language.step m').outcome = .error .noServings ↔ top.recipe.serving = none) := by
  intro m'
  obtain ⟨m'', hact, hmachine, rfl⟩ := act_of_fault hr hx
  obtain ⟨k, hk, hm''⟩ := act_spoils hcalls hpos hserves x (by rw [hact]; rfl)
  have hspoiled : m' = { m with state := { m.state with
      calls := (top.withKitchen k).goTo top.recipe.method.length :: outer } } := by
    rw [hact] at hm''
    exact hmachine.trans hm''
  have hcalls' : m'.state.calls = (top.withKitchen k).goTo top.recipe.method.length :: outer := by
    rw [hspoiled]
  refine ⟨⟨k, hk, hspoiled⟩, rfl, ?_, ?_⟩
  · have hlast : top.recipe.method[top.recipe.method.length]? = none :=
      List.getElem?_eq_none (Nat.le_refl _)
    rw [← hmachine]
    show location m'.state = _
    rw [location, hcalls']
    simp only [Frame.location, Frame.goTo, Frame.withKitchen, hlast]
  · constructor
    · intro hbroken
      cases hserving : top.recipe.serving with
      | none => rfl
      | some serving => exact absurd hbroken (step_serving_ne hcalls' rfl hserving)
    · exact fun hserving => step_ended hcalls' rfl hserving

/-- Two dishes, of which the second has an item in its middle that cannot be served. -/
def trifle : Text :=
  Text.join "\n" ["Trifle.", "",
    "Ingredients.", "72 ml h", "1114112 ml x", "",
    "Method.", "Put h into mixing bowl. Pour contents of the mixing bowl into the baking dish.",
    "Put x into mixing bowl. Put h into mixing bowl.",
    "Pour contents of the mixing bowl into the 2nd baking dish.", "",
    "Serves 2."]

/-- What is read of it. -/
def trifleProgram : Program where
  main := {
    name := "Trifle"
    ingredients := [("h", ⟨.liquid, some 72⟩), ("x", ⟨.liquid, some 1114112⟩)]
    method := [
      ⟨.put "h" 1, .within 7 0 22⟩, ⟨.pour 1 1, .within 7 23 77⟩,
      ⟨.put "x" 1, .within 8 0 22⟩, ⟨.put "h" 1, .within 8 23 46⟩,
      ⟨.pour 1 2, .within 9 0 57⟩]
    serving := some ⟨11, 2⟩ }
  auxiliaries := []

theorem parse_trifle : parse trifle = .ok trifleProgram :=
  Except.eq_ok_of_toOption (by decide +kernel)

/-- What the calls of a state show of serving: the place, the method, the serving line and the first
    two dishes. -/
def State.servings (s : State) : List ((Option Nat × List Step × Option Serving) × Stack × Stack) :=
  s.calls.map fun f => ((f.position, f.recipe.method, f.recipe.serving), f.kitchen.dish 1,
    f.kitchen.dish 2)

/-- The first dish is emptied, and of the second one only the item at the bottom is left. -/
theorem failed_serving_loses_items_trifle :
    ∃ m₀, language.load ⟨.fresh, []⟩ trifle [] = .ok m₀ ∧ (∀ o ∈ (language.steps 6 m₀).1, Works o) ∧
      let m := (language.steps 6 m₀).2
      ∃ top k r, m.state.calls = [top] ∧ top.position = some 5 ∧ top.Serves 5 2 ∧
        top.kitchen.dish 1 = [⟨72, .liquid⟩] ∧
        top.kitchen.dish 2 = [⟨72, .liquid⟩, ⟨1114112, .liquid⟩, ⟨72, .liquid⟩] ∧
        (language.step m).outcome = .ok r ∧ r.error = some (.characterCode 1114112) ∧
        r.next = some (.line 11) ∧
        Spoiled top.kitchen 1 2 (.characterCode 1114112) k ∧ k.dish 1 = [] ∧
        k.dish 2 = [⟨72, .liquid⟩] ∧
        (language.step m).machine.state.calls = [(top.withKitchen k).goTo 5] ∧
        (language.step (language.step m).machine).outcome ≠ .error .noServings := by
  have hload := load_of_parse parse_trifle ⟨.fresh, []⟩ []
  have hworks : ∀ o ∈ (language.steps 6 ⟨State.start trifleProgram [], []⟩).1, Works o := by
    decide +kernel
  have hshape : (language.steps 6 ⟨State.start trifleProgram [], []⟩).2.state.servings =
      [((some 5, trifleProgram.main.method, some ⟨11, 2⟩), [⟨72, .liquid⟩],
        [⟨72, .liquid⟩, ⟨1114112, .liquid⟩, ⟨72, .liquid⟩])] := by decide +kernel
  obtain ⟨top, hcalls, htop⟩ := List.map_eq_singleton_iff.mp hshape
  obtain ⟨hrecipe, hdishes⟩ := Prod.mk.inj htop
  obtain ⟨hpos, hrecipe⟩ := Prod.mk.inj hrecipe
  obtain ⟨hmethod, hserving⟩ := Prod.mk.inj hrecipe
  obtain ⟨hfirst, hsecond⟩ := Prod.mk.inj hdishes
  have hend : top.recipe.method.length = 5 := congrArg List.length hmethod
  have hserves : top.Serves 5 2 := .inr ⟨hend.symm, _, hserving, rfl⟩
  obtain ⟨r, hr, hx⟩ :
      ∃ r, (language.step (language.steps 6 ⟨State.start trifleProgram [], []⟩).2).outcome = .ok r ∧
      r.error = some (.characterCode 1114112) :=
    ⟨⟨.chef [mainName] ⟨[("h", ⟨.liquid, some 72⟩), ("x", ⟨.liquid, some 1114112⟩)],
      [(1, [⟨72, .liquid⟩, ⟨1114112, .liquid⟩, ⟨72, .liquid⟩])], [(1, []), (2, [⟨72, .liquid⟩])]⟩,
      some (.line 11), none, none, false, some (.characterCode 1114112)⟩,
      Except.eq_ok_of_toOption (by decide +kernel), rfl⟩
  obtain ⟨⟨k, hk, hm'⟩, -, hnext, hagain⟩ := failed_serving_loses_items hr hx hcalls hpos hserves
  have hcalls' :
      (language.step (language.steps 6 ⟨State.start trifleProgram [], []⟩).2).machine.state.calls =
      [(top.withKitchen k).goTo 5] := by rw [hm', hend]
  have hleft :
      (language.step (language.steps 6 ⟨State.start trifleProgram [],
        []⟩).2).machine.state.calls.map
      (fun f => (f.kitchen.dish 1, f.kitchen.dish 2)) = [([], [⟨72, .liquid⟩])] := by decide +kernel
  rw [hcalls'] at hleft
  obtain ⟨hleft₁, hleft₂⟩ := Prod.mk.inj (List.cons.inj hleft).1
  rw [hserving] at hnext hagain
  have hgoesOn :
      (language.step (language.step
        (language.steps 6 ⟨State.start trifleProgram [], []⟩).2).machine).outcome ≠
      .error .noServings := by
    intro hbroken
    cases hagain.mp hbroken
  exact ⟨⟨State.start trifleProgram [], []⟩, hload, hworks, top, k, r, hcalls, hpos, hserves,
    hfirst, hsecond, hr, hx, hnext, hk, hleft₁, hleft₂, hcalls', hgoesOn⟩

/-- A dish with one item, which cannot be served. -/
def jelly : Text :=
  Text.join "\n" ["Jelly.", "",
    "Ingredients.", "1114112 ml x", "",
    "Method.",
    Text.ofString "Put x into mixing bowl. Pour contents of the mixing bowl into the baking dish. "
      ++ Text.ofString "Refrigerate for 1 hour."]

/-- What is read of it. -/
def jellyProgram : Program where
  main := {
    name := "Jelly"
    ingredients := [("x", ⟨.liquid, some 1114112⟩)]
    method := [
      ⟨.put "x" 1, .within 6 0 22⟩, ⟨.pour 1 1, .within 6 23 77⟩,
      ⟨.refrigerate (some 1), .within 6 78 101⟩]
    serving := none }
  auxiliaries := []

/-- **A failing `Refrigerate` is not tried again**: its item is gone from the dish, the call stands
    behind it, the result names no place, and the next step does not report the error again but
    breaks down. -/
theorem refrigerated_jelly_is_lost :
    language.load ⟨.fresh, []⟩ jelly [] = .ok ⟨State.start jellyProgram [], []⟩ ∧
      let m := (language.steps 3 ⟨State.start jellyProgram [], []⟩).2
      (∀ o ∈ (language.steps 3 ⟨State.start jellyProgram [], []⟩).1, Works o) ∧
        m.state.servings = [((some 2, jellyProgram.main.method, none), [⟨1114112, .liquid⟩], [])] ∧
        (∃ r, (language.step m).outcome = .ok r ∧ r.error = some (.characterCode 1114112) ∧
          r.next = none) ∧
        (language.step m).machine.state.servings =
          [((some 3, jellyProgram.main.method, none), [], [])] ∧
        (language.step (language.step m).machine).outcome = .error .noServings := by
  have hparse : parse jelly = .ok jellyProgram := Except.eq_ok_of_toOption (by decide +kernel)
  have hstep : (language.step (language.steps 3 ⟨State.start jellyProgram [], []⟩).2).outcome =
      .ok ⟨.chef [mainName] ⟨[("x", ⟨.liquid, some 1114112⟩)], [(1, [⟨1114112, .liquid⟩])],
        [(1, [])]⟩, none, none, none,
        false, some (.characterCode 1114112)⟩ := Except.eq_ok_of_toOption (by decide +kernel)
  have hafter :
      (language.step (language.steps 3 ⟨State.start jellyProgram [],
        []⟩).2).machine.state.servings =
      [((some 3, jellyProgram.main.method, none), [], [])] := by decide +kernel
  obtain ⟨top, hcalls, htop⟩ := List.map_eq_singleton_iff.mp hafter
  obtain ⟨hpos, hrecipe⟩ := Prod.mk.inj (Prod.mk.inj htop).1
  obtain ⟨hmethod, hserving⟩ := Prod.mk.inj hrecipe
  have hend : top.recipe.method.length = 3 := congrArg List.length hmethod
  rw [← hend] at hpos
  exact ⟨load_of_parse hparse ⟨.fresh, []⟩ [], by decide +kernel, by decide +kernel,
    ⟨_, hstep, rfl, rfl⟩, hafter, step_ended hcalls hpos hserving⟩

end Esolang.Chef
