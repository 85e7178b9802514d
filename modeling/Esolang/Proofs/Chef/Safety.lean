/-
  File:      Esolang/Proofs/Chef/Safety.lean
  Subject:   A program that was read cannot bring the machine down.

  As long as steps go on, every call has a sound recipe and all the ingredients the recipe declares,
  and the innermost call has something left to execute. Such a state has no way into any of the
  machine's inconsistencies.

  * `Frame.Sound`, `State.Sound`: the invariant of a call, and of a state.
  * `execute_meets`, `act_meets`: one statement keeps all calls sound and fails only in a bearable
    way.
  * `settle_sound`: giving finished calls back leaves a call with something to execute, or none at
    all.
  * `step_survives`, `step_sound`: what one step of a sound state gives, and that it stays sound.
  * `steps_survive`: hence every run.
-/
import Esolang.Chef.Machine
import Esolang.Proofs.Chef.Kitchen
import Esolang.Proofs.Chef.Loops

namespace Esolang.Chef

/-! ## 1. The invariant -/

/-- A call of a sound recipe, in a kitchen with all the ingredients the recipe declares. -/
structure Frame.Sound (auxiliaries : Table Text Recipe) (f : Frame) : Prop where
  recipe : f.recipe.Sound auxiliaries
  keeps : Keeps f.recipe.ingredients f.kitchen

/-- All recipes and all calls are sound. -/
structure State.CallsSound (s : State) : Prop where
  book : ∀ name r, s.auxiliaries.get? name = some r → r.Sound s.auxiliaries
  calls : ∀ f ∈ s.calls, f.Sound s.auxiliaries

/-- All calls are sound, and the innermost has something left to execute. -/
structure State.Sound (s : State) : Prop extends s.CallsSound where
  live : ∃ top outer, s.calls = top :: outer ∧ top.completed = false

/-- The next statement stirs an item beyond all places. -/
def State.Overlifts (s : State) : Prop :=
  ∃ top outer here step, s.calls = top :: outer ∧ top.position = some here ∧
    top.recipe.method[here]? = some step ∧ step.operation.Overlifts top.kitchen

section Statements

variable {auxiliaries : Table Text Recipe} {f : Frame} {here : Nat} {s : Step} {p : Prop}

/-- The ingredient a statement names is in the kitchen. -/
theorem Frame.Sound.has (hf : f.Sound auxiliaries) (hs : f.recipe.method[here]? = some s) {i : Text}
    (hi : s.operation.ingredient? = some i) : f.kitchen.ingredients.has i = true :=
  hf.keeps i (hf.recipe.declared s (List.mem_of_getElem? hs) i hi).2

theorem Frame.Sound.goTo (hf : f.Sound auxiliaries) (place : Nat) :
    (f.goTo place).Sound auxiliaries :=
  ⟨hf.recipe, hf.keeps⟩

/-- A call that is not finished stands at a statement, or at a serving line. -/
theorem Frame.unfinished_cases (hpos : f.position = some here) (h : f.completed = false) :
    here < f.recipe.method.length ∨
      here = f.recipe.method.length ∧ ∃ serving, f.recipe.serving = some serving := by
  simp only [Frame.completed, hpos] at h
  split at h
  · next hlt => exact .inl hlt
  · next hge =>
    split at h
    · cases h
    · next hle =>
      refine .inr ⟨by omega, ?_⟩
      cases hserving : f.recipe.serving with
      | none => rw [hserving] at h; cases h
      | some serving => exact ⟨serving, rfl⟩

/-! ## 2. One statement -/

theorem enterLoop_ok {i : Text} {item : Item} (hi : f.kitchen.measured i = .ok item) (c : Nat) :
    f.enterLoop here i (some c) =
      .ok .none (f.goTo (if item.value = 0 then c + 1 else here + 1)) := by
  simp only [Frame.enterLoop, Frame.valueOf, hi, Except.map]
  split
  · rfl
  · rfl

theorem enterLoop_error {i : Text} {x : Fault} (hi : f.kitchen.measured i = .error x)
    (closer : Option Nat) : f.enterLoop here i closer = .fault x f := by
  simp only [Frame.enterLoop, Frame.valueOf, hi, Except.map]

theorem enterLoop_meets (hf : f.Sound auxiliaries) (hs : f.recipe.method[here]? = some s)
    {verb i : Text} {closer : Option Nat} (hop : s.operation = .loopStart verb i closer) :
    (f.enterLoop here i closer).Meets (fun _ f' => f'.Sound auxiliaries) (Bearable p) := by
  have hat := getElem?_operation_iff.mpr ⟨s, hs, hop⟩
  obtain ⟨c, _, _, rfl, _⟩ := hf.recipe.loops.opener here verb i closer hat
  rcases measured_of_has (hf.has hs (i := i) (by rw [hop]; rfl)) with ⟨item, hm⟩ | hm
  · rw [enterLoop_ok hm]
    exact .ok (hf.goTo _)
  · rw [enterLoop_error hm]
    exact .fault (noValue_bearable i)

section Repeat

variable {verb i : Text} {o : Nat} {c : Option Nat}
  (hstart : (f.recipe.method.map (·.operation))[o]? = some (.loopStart verb i c))
include hstart

theorem loopAt?_start : f.loopAt? (some o) = some (o, i) := by
  obtain ⟨⟨op, span⟩, hstep, hop⟩ := getElem?_operation_iff.mp hstart
  obtain rfl : op = .loopStart verb i c := hop
  simp only [Frame.loopAt?, hstep]

theorem repeatLoop_ok {item : Item} (hi : f.kitchen.measured i = .ok item) :
    f.repeatLoop here (some o) = .ok .none (f.goTo (if item.value = 0 then here + 1 else o)) := by
  simp only [Frame.repeatLoop, loopAt?_start hstart, Frame.valueOf, hi, Except.map]

theorem repeatLoop_error {x : Fault} (hi : f.kitchen.measured i = .error x) :
    f.repeatLoop here (some o) = .fault x f := by
  simp only [Frame.repeatLoop, loopAt?_start hstart, Frame.valueOf, hi, Except.map]

end Repeat

/-- The end of a loop finds the loop it belongs to, and that loop's ingredient is there as well. -/
theorem repeatLoop_meets (hf : f.Sound auxiliaries) (hs : f.recipe.method[here]? = some s)
    {verb : Text} {count : Option Text} {opener : Option Nat}
    (hop : s.operation = .loopEnd verb count opener) :
    (f.repeatLoop here opener).Meets (fun _ f' => f'.Sound auxiliaries) (Bearable p) := by
  have hat := getElem?_operation_iff.mpr ⟨s, hs, hop⟩
  obtain ⟨o, rfl, _, v, i, hstart⟩ := hf.recipe.loops.closer here verb count opener hat
  obtain ⟨s', hs', hop'⟩ := getElem?_operation_iff.mp hstart
  rcases measured_of_has (hf.has hs' (i := i) (by rw [hop']; rfl)) with ⟨item, hm⟩ | hm
  · rw [repeatLoop_ok hstart hm]
    exact .ok (hf.goTo _)
  · rw [repeatLoop_error hstart hm]
    exact .fault (noValue_bearable i)

theorem leaveOrRepeat_meets (hf : f.Sound auxiliaries) (hs : f.recipe.method[here]? = some s)
    {verb : Text} {count : Option Text} {opener : Option Nat}
    (hop : s.operation = .loopEnd verb count opener) :
    (f.leaveOrRepeat here count opener).Meets (fun _ f' => f'.Sound auxiliaries) (Bearable p) := by
  unfold Frame.leaveOrRepeat
  cases count with
  | none => exact repeatLoop_meets hf hs hop
  | some i =>
    simp only
    split
    · exact repeatLoop_meets hf hs hop
    · unfold Frame.countDown
      rcases measured_of_has (hf.has hs (i := i) (by rw [hop]; rfl)) with ⟨item, hm⟩ | hm
      · rw [hm]
        -- counting down takes no ingredient away, so the way back is that of a sound call
        have hf' :
            (f.withKitchen (f.kitchen.setIngredient i ⟨item.kind, some (item.value - 1)⟩)).Sound
            auxiliaries := ⟨hf.recipe, hf.keeps.setIngredient i _⟩
        exact repeatLoop_meets hf' hs hop
      · rw [hm]
        exact .fault (noValue_bearable i)

theorem Frame.serve_meets (hf : f.Sound auxiliaries) (count : Nat) :
    (f.serve count).Meets (fun _ f' => f'.Sound auxiliaries) (Bearable p) := by
  have hserve : ((Chef.serve f.kitchen count).lift f.withKitchen).Meets
      (fun _ f' => f'.Sound auxiliaries) (Bearable p) := by
    refine .lift ((Chef.serve_meets f.kitchen count).mono (fun _ k hk => ?_) fun _ h => h)
    exact ⟨hf.recipe, fun i hi => by rw [Frame.withKitchen, hk]; exact hf.keeps i hi⟩
  exact hserve.andThen fun _ _ hf' => .ok hf'

end Statements

/-- What a statement leaves behind when it works: the same book, and sound calls. -/
def LeavesSound (s : State) (m : Machine State) : Prop :=
  m.state.auxiliaries = s.auxiliaries ∧ ∀ f ∈ m.state.calls, f.Sound s.auxiliaries

section Machine

variable {m : Machine State} {top : Frame} {outer : List Frame} {here : Nat} {s : Step}

theorem State.CallsSound.cons {s : State} (h : s.CallsSound) (hcalls : s.calls = top :: outer) :
    top.Sound s.auxiliaries ∧ ∀ f ∈ outer, f.Sound s.auxiliaries := by
  have hframes := h.calls
  rw [hcalls] at hframes
  exact List.forall_mem_cons.mp hframes

/-- With a sound call in the place of the innermost one, all calls are sound. -/
theorem State.CallsSound.back (h : m.state.CallsSound) (hcalls : m.state.calls = top :: outer)
    {f : Frame} (hf : f.Sound m.state.auxiliaries) (input : Text) (draws : Draws) :
    LeavesSound m.state ⟨{ m.state with calls := f :: outer, input }, draws⟩ :=
  ⟨rfl, List.forall_mem_cons.mpr ⟨hf, (h.cons hcalls).2⟩⟩

/-- A call of another recipe begins with all the ingredients this recipe declares. -/
theorem call_meets (h : m.state.CallsSound) (hcalls : m.state.calls = top :: outer)
    (hs : top.recipe.method[here]? = some s) {callee : Text} (hop : s.operation = .serveWith callee)
    {p : Prop} :
    (m.state.call top outer callee here).Meets (fun _ s' => LeavesSound m.state ⟨s', m.draws⟩)
      (Bearable p) := by
  obtain ⟨htop, houter⟩ := h.cons hcalls
  have hknown := htop.recipe.known s (List.mem_of_getElem? hs) callee hop
  obtain ⟨r, hr⟩ := Option.isSome_iff_exists.mp hknown
  have hcallee : Frame.Sound m.state.auxiliaries
      ⟨r, ⟨r.ingredients, top.kitchen.bowls, top.kitchen.dishes⟩, some 0, some callee⟩ :=
    ⟨h.book callee r hr, fun _ hi => hi⟩
  unfold State.call
  rw [hr]
  exact .ok ⟨rfl,
    List.forall_mem_cons.mpr ⟨hcallee, List.forall_mem_cons.mpr ⟨htop.goTo _, houter⟩⟩⟩

/-- An operation in the kitchen works on the kitchen of the innermost call, the input and the draws,
    and moves on to the next statement. -/
theorem execute_kitchen_ok {op : Operation} (hop : op.isFlow = false) {b : Bench}
    (h : Bench.perform ⟨top.kitchen, m.state.input, m.draws⟩ op = .ok () b) :
    execute m top outer here op = .ok .none
      ⟨{ m.state with
          calls := (top.withKitchen b.kitchen).goTo (here + 1) :: outer, input := b.input },
        b.draws⟩ := by
  cases op with
  | loopStart | loopEnd | setAside | serveWith | refrigerate => cases hop
  | _ =>
    simp only [execute, h]
    rfl

/-- When it fails, the call stays where it is. -/
theorem execute_kitchen_error {op : Operation} (hop : op.isFlow = false) {x : Failure} {b : Bench}
    (h : Bench.perform ⟨top.kitchen, m.state.input, m.draws⟩ op = ⟨.error x, b⟩) :
    execute m top outer here op =
      ⟨.error x, ⟨{ m.state with calls := top.withKitchen b.kitchen :: outer, input := b.input },
        b.draws⟩⟩ := by
  cases op with
  | loopStart | loopEnd | setAside | serveWith | refrigerate => cases hop
  | _ => simp only [execute, h]

/-- One statement of a sound call. -/
theorem execute_meets (h : m.state.CallsSound) (hcalls : m.state.calls = top :: outer)
    (hs : top.recipe.method[here]? = some s) :
    (execute m top outer here s.operation).Meets (fun _ m' => LeavesSound m.state m')
      (Bearable (s.operation.Overlifts top.kitchen)) := by
  obtain ⟨htop, -⟩ := h.cons hcalls
  have hback : ∀ f : Frame, f.Sound m.state.auxiliaries →
      LeavesSound m.state { m with state := { m.state with calls := f :: outer } } :=
    fun f hf => h.back hcalls hf m.state.input m.draws
  cases hflow : s.operation.isFlow with
  | false =>
    have hperform := perform_meets (b := ⟨top.kitchen, m.state.input, m.draws⟩) hflow htop.keeps
      fun i hi => (htop.recipe.declared s (List.mem_of_getElem? hs) i hi).2
    cases hb : Bench.perform ⟨top.kitchen, m.state.input, m.draws⟩ s.operation with
    | mk outcome b =>
      rw [hb] at hperform
      cases outcome with
      | ok u =>
        have htop' : ((top.withKitchen b.kitchen).goTo (here + 1)).Sound m.state.auxiliaries :=
          ⟨htop.recipe, hperform⟩
        rw [execute_kitchen_ok hflow hb]
        exact .ok (h.back hcalls htop' b.input b.draws)
      | error x =>
        rw [execute_kitchen_error hflow hb]
        exact hperform
  | true =>
    cases hop : s.operation with
    | loopStart verb i closer =>
      exact .lift ((enterLoop_meets htop hs hop).mono (fun _ f hf => hback f hf) fun _ hb => hb)
    | loopEnd verb i opener =>
      exact .lift ((leaveOrRepeat_meets htop hs hop).mono (fun _ f hf => hback f hf) fun _ hb => hb)
    | setAside closer =>
      have hat := getElem?_operation_iff.mpr ⟨s, hs, hop⟩
      obtain ⟨_, c, rfl, _⟩ := htop.recipe.loops.aside here closer hat
      exact .ok (hback _ (htop.goTo _))
    | serveWith callee => exact .lift (call_meets h hcalls hs hop)
    | refrigerate hours =>
      have hended := htop.goTo top.recipe.method.length
      simp only [execute]
      split
      · exact .ok (hback _ hended)
      · split
        · exact .ok (hback _ hended)
        · exact .lift ((Frame.serve_meets hended _).mono (fun _ f hf => hback f hf) fun _ hb => hb)
    | _ => rw [hop] at hflow; cases hflow

/-- At a statement, the innermost call executes it. -/
theorem act_statement (hcalls : m.state.calls = top :: outer) (hpos : top.position = some here)
    (hs : top.recipe.method[here]? = some s) : act m = execute m top outer here s.operation := by
  have hlt : here < top.recipe.method.length := (List.getElem?_eq_some_iff.mp hs).1
  unfold act
  rw [hcalls]
  simp only [hpos, if_neg (Nat.ne_of_lt hlt), hs]

/-- At its serving line, it serves. -/
theorem act_serving (hcalls : m.state.calls = top :: outer)
    (hpos : top.position = some top.recipe.method.length) {serving : Serving}
    (hserving : top.recipe.serving = some serving) :
    act m =
      ((top.serve serving.dishes).andThen fun e f =>
        .ok e (f.goTo (top.recipe.method.length + 1))).lift
      fun f => { m with state := { m.state with calls := f :: outer } } := by
  unfold act
  rw [hcalls]
  simp only [hpos, if_true, hserving]

/-- What the innermost call of a sound state does next. -/
theorem act_meets (h : m.state.Sound) :
    (act m).Meets (fun _ m' => LeavesSound m.state m') (Bearable m.state.Overlifts) := by
  obtain ⟨top, outer, hcalls, hlive⟩ := h.live
  obtain ⟨htop, -⟩ := h.cons hcalls
  have hback : ∀ f : Frame, f.Sound m.state.auxiliaries →
      LeavesSound m.state { m with state := { m.state with calls := f :: outer } } :=
    fun f hf => h.toCallsSound.back hcalls hf m.state.input m.draws
  cases hpos : top.position with
  | none =>
    unfold act
    rw [hcalls]
    simp only [hpos]
    exact .ok (hback _ (htop.goTo 0))
  | some here =>
    rcases top.unfinished_cases hpos hlive with hlt | ⟨rfl, serving, hserving⟩
    · have hs := List.getElem?_eq_getElem hlt
      rw [act_statement hcalls hpos hs]
      exact (execute_meets h.toCallsSound hcalls hs).mono (fun _ _ hm => hm)
        fun _ hb => hb.mono fun ho => ⟨top, outer, here, _, hcalls, hpos, hs, ho⟩
    · rw [act_serving hcalls hpos hserving]
      exact .lift ((Frame.serve_meets htop _).andThen fun e f hf => .ok (hback _ (hf.goTo _)))

end Machine

/-! ## 3. Finished calls -/

theorem Frame.Sound.setBowl {auxiliaries : Table Text Recipe} {f : Frame} (hf : f.Sound auxiliaries)
    (bowl : Int) (items : List Item) :
    (f.withKitchen (f.kitchen.setBowl bowl items)).Sound auxiliaries :=
  ⟨hf.recipe, hf.keeps⟩

/-- Giving finished calls back keeps the others sound, and ends at one that is not finished. -/
theorem foldCalls_sound {auxiliaries : Table Text Recipe} {outer : List Frame}
    (h : ∀ f ∈ outer, f.Sound auxiliaries) (finished : Frame) :
    (∀ f ∈ (foldCalls finished outer).1, f.Sound auxiliaries) ∧
      ((foldCalls finished outer).1 = [] ∨
        ∃ top rest, (foldCalls finished outer).1 = top :: rest ∧ top.completed = false) := by
  induction outer generalizing finished with
  | nil => exact ⟨fun _ hf => absurd hf List.not_mem_nil, .inl rfl⟩
  | cons caller outer ih =>
    obtain ⟨hcaller, houter⟩ := List.forall_mem_cons.mp h
    simp only [foldCalls]
    split
    · -- the caller is finished as well and is given back in turn
      exact ih houter _
    · next hlive =>
      have hcaller' := hcaller.setBowl 1 (finished.kitchen.bowl 1 ++ caller.kitchen.bowl 1)
      exact ⟨List.forall_mem_cons.mpr ⟨hcaller', houter⟩, .inr ⟨_, _, rfl, by simpa using hlive⟩⟩

theorem settle_sound {s : State} (h : s.CallsSound) :
    s.settle.1.CallsSound ∧ (s.settle.1.calls = [] ∨ s.settle.1.Sound) := by
  unfold State.settle
  split
  · next hnone => exact ⟨h, .inl hnone⟩
  · next top outer hcalls =>
    split
    · obtain ⟨hfolded, hend⟩ := foldCalls_sound (h.cons hcalls).2 top
      have hsound : State.CallsSound { s with
          calls := (foldCalls top outer).1
          lastKitchen := (foldCalls top outer).2.1.getD s.lastKitchen } := ⟨h.book, hfolded⟩
      exact ⟨hsound, hend.imp_right fun hlive => ⟨hsound, hlive⟩⟩
    · next hlive => exact ⟨h, .inr ⟨h, top, outer, hcalls, by simpa using hlive⟩⟩

/-! ## 4. Steps and runs -/

theorem advance_meets {m : Machine State} (h : m.state.Sound) :
    (advance m).Meets (fun p m' => p.halted = false ∧ (m'.state.calls = [] ∨ m'.state.Sound))
      (Bearable m.state.Overlifts) := by
  refine (act_meets h).andThen fun _ m' hm' => .ok ⟨rfl, ?_⟩
  obtain ⟨hbook, hcalls⟩ := hm'
  rw [← hbook] at hcalls
  have hsound : m'.state.CallsSound := ⟨hbook ▸ h.book, hcalls⟩
  exact (settle_sound hsound).2

/-- The outcomes that leave the machine intact: a result whose fault, if there is one, is not a
    missing ingredient, or a number that is too long to be read or written. Stirring an item beyond
    all places is the one further case. -/
def Survives (s : State) : Except Breakdown StepResult → Prop
  | .ok r => ∀ name, r.error ≠ some (.noIngredient name)
  | .error b =>
    b = .longNumber ∨ (∃ digits, b = .longNumeral digits) ∨ (b = .beyondPlace ∧ s.Overlifts)

theorem step_survives {m : Machine State} (h : m.state.Sound) :
    Survives m.state (language.step m).outcome := by
  rcases language.step_cases (advance_meets h) with ⟨p, r, hr, hok, -⟩ | ⟨f, r, hr, hf, hb⟩ |
    ⟨b, hb, hfail⟩
  · rw [hr]
    intro name hname
    rw [hok] at hname
    cases hname
  · rw [hr]
    intro name hname
    rw [hf] at hname
    cases hb with
    | fault _ hne => exact hne name (Option.some.inj hname)
  · rw [hb]
    cases hfail with
    | longNumber => exact .inl rfl
    | longNumeral digits => exact .inr (.inl ⟨digits, rfl⟩)
    | beyondPlace ho => exact .inr (.inr ⟨rfl, ho⟩)

theorem step_sound {m : Machine State} (h : m.state.Sound)
    (hgo : GoesOn (language.step m).outcome) : (language.step m).machine.state.Sound := by
  obtain ⟨r, hr, hok, hnext⟩ := hgo
  rcases language.step_cases (advance_meets h) with
    ⟨p, r', hr', -, -, hn, hrun, hend⟩ | ⟨f, r', hr', hf, -⟩ | ⟨b, hb, -⟩
  · obtain rfl : r = r' := Except.ok.inj (hr.symm.trans hr')
    -- without a call there would be no next place
    refine hend.resolve_left fun hnone => hnext ?_
    rw [hn, hrun]
    show (if false = true then none else location _) = none
    rw [location, hnone]
    rfl
  · obtain rfl : r = r' := Except.ok.inj (hr.symm.trans hr')
    rw [hok] at hf
    cases hf
  · rw [hr] at hb
    cases hb

theorem start_sound {code : Text} {program : Program} (h : parse code = .ok program)
    (input : Text) :
    (State.start program input).Sound where
  book name r hr := parse_sound h r (mem_recipes_of_get? hr)
  calls f hf := by
    obtain rfl := List.mem_singleton.mp hf
    exact ⟨parse_sound h _ List.mem_cons_self, fun _ hi => hi⟩
  live := ⟨_, _, rfl, rfl⟩

theorem load_of_parse {code : Text} {program : Program} (h : parse code = .ok program)
    (m : Machine State) (input : Text) :
    language.load m code input = .ok ⟨State.start program input, m.draws⟩ := by
  simp only [Language.load, language, h]
  rfl

/-- **A program that was read cannot bring the machine down**: it is loaded, and as long as steps go
    on, the next one leaves the machine intact. -/
theorem steps_survive {code : Text} {program : Program} (h : parse code = .ok program)
    (before : Machine State) (input : Text) :
    ∃ m, language.load before code input = .ok m ∧
      ∀ n, (∀ o ∈ (language.steps n m).1, GoesOn o) →
        Survives (language.steps n m).2.state (language.step (language.steps n m).2).outcome := by
  refine ⟨_, load_of_parse h before input, fun n hgo => step_survives ?_⟩
  exact language.steps_preserves (P := fun m => m.state.Sound)
    (fun _ hm hstep => step_sound hm hstep) (start_sound h input) hgo

theorem steps_survive_nestedLoops :
    ∃ m, language.load ⟨.fresh, []⟩ nestedLoops [] = .ok m ∧
      (∀ o ∈ (language.steps 16 m).1, GoesOn o) ∧
      Survives (language.steps 16 m).2.state (language.step (language.steps 16 m).2).outcome := by
  obtain ⟨m, hm, hall⟩ := steps_survive parse_nestedLoops ⟨.fresh, []⟩ []
  obtain rfl := Except.ok.inj (hm.symm.trans (load_of_parse parse_nestedLoops ⟨.fresh, []⟩ []))
  have hgo : ∀ o ∈ (language.steps 16 ⟨State.start nestedLoopsProgram [], []⟩).1, GoesOn o := by
    decide +kernel
  exact ⟨_, hm, hgo, hall 16 hgo⟩

end Esolang.Chef
