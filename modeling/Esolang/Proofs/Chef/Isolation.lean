/-
  File:      Esolang/Proofs/Chef/Isolation.lean
  Subject:   A call works on its own, and its caller waits untouched.

  A statement changes the innermost call alone, and puts at most one new call in front of it. Giving
  finished calls back changes the first call that is not finished, in its first bowl alone. So a
  caller is as it was for as long as there is a call in front of it, whatever this call does and
  calls in turn.

  * `act_leaves`: what a statement leaves of the calls.
  * `Covered`: a call is in front of its caller; `settle_covered`: what giving finished calls back
    makes of it.
  * `covered_run`: a call is in front of its caller until the caller is the innermost call or given
    back.
  * `calls_isolated`: what a call begins with, what it leaves of its caller, and what it gives back.
-/
import Esolang.Proofs.Chef.Finishing

namespace Esolang.Chef

/-! ## 1. One statement -/

/-- The same call gone on, perhaps to another place and with another kitchen. -/
structure Frame.Same (f f' : Frame) : Prop where
  recipe : f'.recipe = f.recipe
  calledAs : f'.calledAs = f.calledAs
  begun : f'.position ≠ none

theorem Frame.same_goTo (f : Frame) (p : Nat) : f.Same (f.goTo p) :=
  ⟨rfl, rfl, Option.some_ne_none p⟩

section Frame

variable (f : Frame) (here : Nat)

theorem enterLoop_same (i : Text) (closer : Option Nat) :
    (f.enterLoop here i closer).Meets (fun _ f' => f.Same f') fun _ => True := by
  unfold Frame.enterLoop
  split
  · exact .fault trivial
  · split
    · split
      · exact .ok (f.same_goTo _)
      · exact .breakdown trivial
    · exact .ok (f.same_goTo _)

theorem repeatLoop_same (opener : Option Nat) :
    (f.repeatLoop here opener).Meets (fun _ f' => f.Same f') fun _ => True := by
  unfold Frame.repeatLoop
  split
  · exact .breakdown trivial
  · split
    · exact .fault trivial
    · exact .ok (f.same_goTo _)

theorem leaveOrRepeat_same (i : Option Text) (opener : Option Nat) :
    (f.leaveOrRepeat here i opener).Meets (fun _ f' => f.Same f') fun _ => True := by
  unfold Frame.leaveOrRepeat
  split
  · exact repeatLoop_same f here opener
  · split
    · exact repeatLoop_same f here opener
    · unfold Frame.countDown
      cases f.kitchen.measured _ with
      | error x => exact .fault trivial
      | ok item =>
        refine (repeatLoop_same _ here opener).mono (fun _ f' hf => ?_) fun _ _ => trivial
        exact ⟨hf.recipe, hf.calledAs, hf.begun⟩

theorem serve_same (hbegun : f.position ≠ none) (count : Nat) :
    (f.serve count).Meets (fun _ f' => f.Same f') fun _ => True := by
  unfold Frame.serve
  cases Chef.serve f.kitchen count with
  | mk outcome k =>
    cases outcome with
    | ok t => exact .ok ⟨rfl, rfl, hbegun⟩
    | error e => trivial

end Frame

/-- The recipes are the same, the innermost call `top` has gone on, perhaps with calls of other
    recipes in front of it, and the calls `outer` behind it are as they were. -/
def Leaves (m : Machine State) (top : Frame) (outer : List Frame) (m' : Machine State) : Prop :=
  m'.state.auxiliaries = m.state.auxiliaries ∧
    ∃ front top', top.Same top' ∧ m'.state.calls = front ++ top' :: outer ∧
      ∀ f ∈ front, f.position ≠ none ∧ ∃ name, m.state.auxiliaries.get? name = some f.recipe

section Machine

variable {m : Machine State} {top : Frame} {outer : List Frame}

/-- No other recipe was called. -/
theorem Leaves.alone {m' : Machine State} (top' : Frame)
    (hbook : m'.state.auxiliaries = m.state.auxiliaries) (hsame : top.Same top')
    (hcalls : m'.state.calls = top' :: outer) : Leaves m top outer m' :=
  ⟨hbook, [], top', hsame, hcalls, fun _ hf => absurd hf List.not_mem_nil⟩

/-- What the innermost call does on its own. -/
theorem back_leaves {a : Attempt Frame Effect}
    (h : a.Meets (fun _ f' => top.Same f') fun _ => True) :
    (a.lift fun f => ({ m with state := { m.state with calls := f :: outer } } : Machine
      State)).Meets
      (fun _ m' => Leaves m top outer m') fun _ => True :=
  .lift (h.mono (fun _ f' hf => .alone f' rfl hf rfl) fun _ _ => trivial)

theorem execute_leaves (here : Nat) (op : Operation) :
    (execute m top outer here op).Meets (fun _ m' => Leaves m top outer m') fun _ => True := by
  cases hflow : op.isFlow with
  | false =>
    cases hb : Bench.perform ⟨top.kitchen, m.state.input, m.draws⟩ op with
    | mk outcome b =>
      cases outcome with
      | ok u =>
        rw [execute_kitchen_ok hflow hb]
        exact .ok (.alone ((top.withKitchen b.kitchen).goTo (here + 1)) rfl
          ⟨rfl, rfl, Option.some_ne_none _⟩ rfl)
      | error x =>
        rw [execute_kitchen_error hflow hb]
        trivial
  | true =>
    cases op with
    | loopStart verb i closer => exact back_leaves (enterLoop_same top here i closer)
    | loopEnd verb i opener => exact back_leaves (leaveOrRepeat_same top here i opener)
    | setAside closer =>
      cases closer with
      | some c => exact .ok (.alone (top.goTo (c + 1)) rfl (top.same_goTo _) rfl)
      | none => exact .breakdown trivial
    | serveWith callee =>
      refine .lift ?_
      unfold State.call
      cases hr : m.state.auxiliaries.get? callee with
      | none => exact .breakdown trivial
      | some r =>
        refine .ok ⟨rfl, [_], top.goTo (here + 1), top.same_goTo _, rfl, fun f hf => ?_⟩
        rw [List.mem_singleton.mp hf]
        exact ⟨Option.some_ne_none 0, callee, hr⟩
    | refrigerate hours =>
      have hended : ∀ count, ((top.goTo top.recipe.method.length).serve count).Meets
          (fun _ f' => top.Same f') fun _ => True := by
        intro count
        refine (serve_same _ (Option.some_ne_none _) count).mono (fun _ _ hf => ?_) fun _ _ =>
          trivial
        exact ⟨hf.recipe, hf.calledAs, hf.begun⟩
      simp only [execute]
      split
      · exact .ok (.alone (top.goTo top.recipe.method.length) rfl (top.same_goTo _) rfl)
      · split
        · exact .ok (.alone (top.goTo top.recipe.method.length) rfl (top.same_goTo _) rfl)
        · exact back_leaves (hended _)
    | _ => cases hflow

/-- **A statement changes the innermost call alone.** -/
theorem act_leaves (hcalls : m.state.calls = top :: outer) :
    (act m).Meets (fun _ m' => Leaves m top outer m') fun _ => True := by
  unfold act
  rw [hcalls]
  simp only
  split
  · exact .ok (.alone (top.goTo 0) rfl (top.same_goTo 0) rfl)
  · next hpos =>
    split
    · split
      · exact .breakdown trivial
      · have hbegun : top.position ≠ none := by
          rw [hpos]
          exact Option.some_ne_none _
        refine back_leaves ((serve_same top hbegun _).andThen fun e f hf => .ok ?_)
        exact ⟨hf.recipe, hf.calledAs, Option.some_ne_none _⟩
    · split
      · exact .breakdown trivial
      · exact execute_leaves _ _

end Machine

/-! ## 2. Finished calls -/

/-- The first bowls of some calls, one upon the other. -/
def returned (finished : List Frame) : Stack := finished.flatMap (·.kitchen.bowl 1)

/-- A call with items put on its first bowl, and otherwise as it was. -/
def Frame.receive (f : Frame) (items : Stack) : Frame :=
  f.withKitchen (f.kitchen.setBowl 1 (items ++ f.kitchen.bowl 1))

theorem bowl_receive (f : Frame) (items : Stack) :
    (f.receive items).kitchen.bowl 1 = items ++ f.kitchen.bowl 1 := by
  unfold Frame.receive Frame.withKitchen Kitchen.setBowl Kitchen.bowl
  rw [Table.get?_put_self]
  rfl

/-- What a finished call has received from another is given back with the rest of its first bowl. -/
theorem returned_receive (finished caller : Frame) (outer : List Frame) :
    returned (caller.receive (finished.kitchen.bowl 1) :: outer) =
      returned (finished :: caller :: outer) := by
  simp only [returned, List.flatMap_cons, bowl_receive, List.append_assoc]

theorem foldCalls_cons (finished caller : Frame) (outer : List Frame) :
    (foldCalls finished (caller :: outer)).1 =
      if caller.completed then (foldCalls (caller.receive (finished.kitchen.bowl 1)) outer).1
      else caller.receive (finished.kitchen.bowl 1) :: outer := by
  have hcompleted : (caller.receive (finished.kitchen.bowl 1)).completed = caller.completed := rfl
  rw [← hcompleted, foldCalls]
  show (if (caller.receive (finished.kitchen.bowl 1)).completed then _ else _ : _ × _ × _).1 = _
  split
  · rfl
  · rfl

theorem length_foldCalls_le (finished : Frame) (outer : List Frame) :
    (foldCalls finished outer).1.length ≤ outer.length := by
  induction outer generalizing finished with
  | nil => exact Nat.le_refl 0
  | cons caller outer ih =>
    rw [foldCalls_cons]
    split
    · exact Nat.le_succ_of_le (ih _)
    · exact Nat.le_refl _

/-- A call of `r` by the name `callee` is in front of its caller, with the calls it has made in turn
    before it. -/
def Covered (r : Recipe) (callee : Text) (caller : Frame) (below calls : List Frame) : Prop :=
  ∃ inner g, g.recipe = r ∧ g.calledAs = some callee ∧ calls = inner ++ g :: caller :: below

section Covered

variable {r : Recipe} {callee : Text} {caller g : Frame} {below : List Frame}

/-- The caller is the innermost call again, with some items put on its first bowl, or it is gone. -/
def Returns (caller : Frame) (below : List Frame) (items : Stack) (calls : List Frame) : Prop :=
  calls = caller.receive items :: below ∨ calls.length ≤ below.length

theorem Returns.length_le {items : Stack} {calls : List Frame}
    (h : Returns caller below items calls) : calls.length ≤ below.length + 1 := by
  rcases h with rfl | h
  · exact Nat.le_refl _
  · exact Nat.le_succ_of_le h

theorem foldCalls_returns (caller : Frame) (below : List Frame) (finished : Frame) :
    Returns caller below (finished.kitchen.bowl 1) (foldCalls finished (caller :: below)).1 := by
  rw [foldCalls_cons]
  split
  · exact .inr (length_foldCalls_le _ below)
  · exact .inl rfl

theorem foldCalls_covered (hr : g.recipe = r) (hcallee : g.calledAs = some callee)
    (inner : List Frame) (finished : Frame) :
    Covered r callee caller below (foldCalls finished (inner ++ g :: caller :: below)).1 ∨
      (∀ f ∈ inner ++ [g], f.completed = true) ∧
        Returns caller below (returned (finished :: (inner ++ [g])))
          (foldCalls finished (inner ++ g :: caller :: below)).1 := by
  induction inner generalizing finished with
  | nil =>
    rw [List.nil_append, List.nil_append, foldCalls_cons]
    by_cases hg : g.completed = true
    · rw [if_pos hg]
      have hreturns := foldCalls_returns caller below (g.receive (finished.kitchen.bowl 1))
      rw [bowl_receive] at hreturns
      refine .inr ⟨fun f hf => (List.mem_singleton.mp hf) ▸ hg, ?_⟩
      simpa [returned] using hreturns
    · rw [if_neg hg]
      exact .inl ⟨[], g.receive (finished.kitchen.bowl 1), hr, hcallee, rfl⟩
  | cons c inner ih =>
    rw [List.cons_append, List.cons_append, foldCalls_cons]
    by_cases hc : c.completed = true
    · rw [if_pos hc]
      rcases ih (c.receive (finished.kitchen.bowl 1)) with h | ⟨hall, h⟩
      · exact .inl h
      · refine .inr ⟨List.forall_mem_cons.mpr ⟨hc, hall⟩, ?_⟩
        rw [← returned_receive]
        exact h
    · rw [if_neg hc]
      exact .inl ⟨c.receive _ :: inner, g, hr, hcallee, rfl⟩

theorem settle_calls {s : State} {top : Frame} {outer : List Frame} (h : s.calls = top :: outer) :
    s.settle.1.calls = if top.completed then (foldCalls top outer).1 else top :: outer := by
  unfold State.settle
  rw [h]
  simp only
  split
  · rfl
  · exact h

theorem mem_foldCalls {finished f : Frame} {outer : List Frame}
    (h : f ∈ (foldCalls finished outer).1) : ∃ g ∈ outer, f = g ∨ ∃ items, f = g.receive items := by
  induction outer generalizing finished with
  | nil => exact absurd h List.not_mem_nil
  | cons caller outer ih =>
    rw [foldCalls_cons] at h
    split at h
    · obtain ⟨g, hg, hf⟩ := ih h
      exact ⟨g, List.mem_cons_of_mem _ hg, hf⟩
    · rcases List.mem_cons.mp h with rfl | h
      · exact ⟨caller, List.mem_cons_self, .inr ⟨_, rfl⟩⟩
      · exact ⟨f, List.mem_cons_of_mem _ h, .inl rfl⟩

/-- Giving finished calls back leaves calls that were there, perhaps with items put on their first
    bowls. -/
theorem mem_settle {s : State} {f : Frame} (h : f ∈ s.settle.1.calls) :
    ∃ g ∈ s.calls, f = g ∨ ∃ items, f = g.receive items := by
  cases hcalls : s.calls with
  | nil =>
    unfold State.settle at h
    rw [hcalls] at h
    simp only [hcalls] at h
    cases h
  | cons top outer =>
    rw [settle_calls hcalls] at h
    split at h
    · obtain ⟨g, hg, hf⟩ := mem_foldCalls h
      exact ⟨g, List.mem_cons_of_mem _ hg, hf⟩
    · exact ⟨f, h, .inl rfl⟩

theorem settle_auxiliaries (s : State) : s.settle.1.auxiliaries = s.auxiliaries := by
  unfold State.settle
  split
  · rfl
  · split
    · rfl
    · rfl

/-- Giving finished calls back leaves a call in front of its caller, or all of the calls there are
    finished and the caller receives what is in their first bowls. -/
theorem settle_covered {s : State} (hr : g.recipe = r) (hcallee : g.calledAs = some callee)
    {inner : List Frame} (h : s.calls = inner ++ g :: caller :: below) :
    Covered r callee caller below s.settle.1.calls ∨
      (∀ f ∈ inner ++ [g], f.completed = true) ∧
        Returns caller below (returned (inner ++ [g])) s.settle.1.calls := by
  cases inner with
  | nil =>
    rw [settle_calls h]
    by_cases hg : g.completed = true
    · rw [if_pos hg]
      refine .inr ⟨fun f hf => (List.mem_singleton.mp hf) ▸ hg, ?_⟩
      simpa [returned] using foldCalls_returns caller below g
    · rw [if_neg hg]
      exact .inl ⟨[], g, hr, hcallee, rfl⟩
  | cons top inner =>
    rw [settle_calls h]
    by_cases htop : top.completed = true
    · rw [if_pos htop]
      rcases foldCalls_covered hr hcallee inner top with hcovered | ⟨hall, hreturns⟩
      · exact .inl hcovered
      · exact .inr ⟨List.forall_mem_cons.mpr ⟨htop, hall⟩, hreturns⟩
    · rw [if_neg htop]
      exact .inl ⟨top :: inner, g, hr, hcallee, rfl⟩

/-- A statement of a call leaves the callers of this call alone. -/
theorem act_covered {m m' : Machine State} {e : Effect}
    (h : Covered r callee caller below m.state.calls) (hact : act m = .ok e m') :
    Covered r callee caller below m'.state.calls := by
  obtain ⟨inner, g, hr, hcallee, hcalls⟩ := h
  cases inner with
  | nil =>
    have hleaves := act_leaves hcalls
    rw [hact] at hleaves
    obtain ⟨-, front, g', hsame, hcalls', -⟩ := hleaves
    exact ⟨front, g', hsame.recipe.trans hr, hsame.calledAs.trans hcallee, hcalls'⟩
  | cons top inner =>
    have hleaves := act_leaves hcalls
    rw [hact] at hleaves
    obtain ⟨-, front, top', -, hcalls', -⟩ := hleaves
    exact ⟨front ++ top' :: inner, g, hr, hcallee,
      hcalls'.trans (List.append_assoc front (top' :: inner) _).symm⟩

end Covered

/-! ## 3. Steps and runs -/

/-- A step that works is a statement that works, and then finished calls are given back. -/
theorem act_of_works {m : Machine State} (h : Works (language.step m).outcome) :
    ∃ e m', act m = .ok e m' ∧ (language.step m).machine = settled m' := by
  obtain ⟨p, hadvance⟩ := language.advance_of_works h
  rw [advance_eq] at hadvance
  cases hact : act m with
  | mk outcome m' =>
    rw [hact] at hadvance
    cases outcome with
    | ok e => exact ⟨e, m', rfl, (Attempt.mk.inj hadvance).2.symm⟩
    | error x => cases hadvance

/-- `Serve with` begins the called recipe in front of its caller, which goes on behind the
    statement. -/
theorem act_call {m : Machine State} {top : Frame} {outer : List Frame} {here : Nat} {callee : Text}
    {span : Span} {r : Recipe} (hcalls : m.state.calls = top :: outer)
    (hpos : top.position = some here)
    (hstatement : top.recipe.method[here]? = some ⟨.serveWith callee, span⟩)
    (hr : m.state.auxiliaries.get? callee = some r) :
    let new : Frame :=
      ⟨r, ⟨r.ingredients, top.kitchen.bowls, top.kitchen.dishes⟩, some 0, some callee⟩
    ∃ e, act m =
      .ok e { m with state := { m.state with calls := new :: top.goTo (here + 1) :: outer } } := by
  rw [act_statement hcalls hpos hstatement]
  simp only [execute, State.call, hr]
  exact ⟨_, rfl⟩

/-- The calls of a program that is under way: they are sound, unless all are finished, and the
    recipes that can be called are those that were read. -/
structure UnderWay (program : Program) (m : Machine State) : Prop where
  sound : m.state.calls = [] ∨ m.state.Sound
  book : m.state.auxiliaries = program.auxiliaries

theorem UnderWay.step {program : Program} {m : Machine State} (h : UnderWay program m)
    (hworks : Works (language.step m).outcome) : UnderWay program (language.step m).machine := by
  obtain ⟨e, m', hact, hstep⟩ := act_of_works hworks
  rcases h.sound with hnone | hsound
  · -- without a call there is nothing to do
    unfold act at hact
    rw [hnone] at hact
    cases hact
  · have hleaves := act_meets hsound
    rw [hact] at hleaves
    obtain ⟨hbook, hcalls⟩ := hleaves
    have hsound' : m'.state.CallsSound := ⟨hbook ▸ hsound.book, hbook ▸ hcalls⟩
    rw [hstep]
    exact ⟨(settle_sound hsound').2, (settle_auxiliaries _).trans (hbook.trans h.book)⟩

/-- **A call is in front of its caller until the caller is the innermost call again or has been
    given back.** When neither has happened after the first steps, the statement of the next step
    finds the caller as it was and leaves it so. -/
theorem covered_run {m m₁ : Machine State} {e₁ : Effect} (hfirst : act m = .ok e₁ m₁) {r : Recipe}
    {callee : Text} {caller : Frame} {below : List Frame}
    (hcovered : Covered r callee caller below m₁.state.calls) {k : Nat}
    (hworks : ∀ o ∈ (language.steps (k + 1) m).1, Works o)
    (hdeep : ∀ i, 1 ≤ i → i ≤ k → below.length + 1 < (language.steps i m).2.state.calls.length) :
    ∃ e m', act (language.steps k m).2 = .ok e m' ∧ Covered r callee caller below m'.state.calls ∧
      (language.steps (k + 1) m).2 = settled m' := by
  induction k with
  | zero =>
    obtain ⟨e, m', hact, hstep⟩ := act_of_works (m := m) (hworks _ List.mem_cons_self)
    obtain ⟨-, rfl⟩ := Attempt.mk.inj (hfirst.symm.trans hact)
    exact ⟨e₁, m₁, hfirst, hcovered, hstep⟩
  | succ k ih =>
    rw [language.steps_succ] at hworks
    obtain ⟨hbefore, hlast⟩ := List.forall_mem_append.mp hworks
    obtain ⟨_, m', -, ⟨inner, g, hr, hcallee, hcalls⟩, hnext⟩ :=
      ih hbefore fun i hi hik => hdeep i hi (Nat.le_succ_of_le hik)
    have hdepth := hdeep (k + 1) (by omega) (Nat.le_refl _)
    have hstill : Covered r callee caller below (language.steps (k + 1) m).2.state.calls := by
      rw [hnext] at hdepth ⊢
      rcases settle_covered hr hcallee hcalls with h | ⟨-, h⟩
      · exact h
      · exact absurd h.length_le (Nat.not_le_of_lt hdepth)
    obtain ⟨e, m'', hact, hstep⟩ := act_of_works (hlast _ List.mem_cons_self)
    refine ⟨e, m'', hact, act_covered hstill hact, ?_⟩
    rw [language.steps_succ]
    exact hstep

/-- **Calls are isolated.** Whenever a statement calls a recipe, the new call begins at the recipe's
    first statement, with the ingredients that were read of the recipe and with the caller's bowls
    and dishes. As long as there are more calls than the caller and those below it, these are as
    they were right after the call. When the caller is the innermost call again, the calls that were
    in front of it are finished, and only its first bowl has changed: what is in their first bowls
    has been put on it. -/
theorem calls_isolated {code : Text} {program : Program} (h : parse code = .ok program)
    (before : Machine State) (input : Text) :
    ∃ m₀, language.load before code input = .ok m₀ ∧
      ∀ n, (∀ o ∈ (language.steps n m₀).1, Works o) →
      ∀ (top : Frame) (below : List Frame) (here : Nat) (callee : Text) (span : Span),
      let m := (language.steps n m₀).2
      let caller := top.goTo (here + 1)
      m.state.calls = top :: below → top.position = some here →
      top.recipe.method[here]? = some ⟨.serveWith callee, span⟩ →
      ∃ r, program.auxiliaries.get? callee = some r ∧
        let new : Frame :=
          ⟨r, ⟨r.ingredients, top.kitchen.bowls, top.kitchen.dishes⟩, some 0, some callee⟩
        (∃ e, act m = .ok e { m with state := { m.state with calls := new :: caller :: below } }) ∧
        ∀ k, (∀ o ∈ (language.steps (k + 1) m).1, Works o) →
          (∀ i, 1 ≤ i → i ≤ k → below.length + 1 < (language.steps i m).2.state.calls.length) →
          let calls := (language.steps (k + 1) m).2.state.calls
          (below.length + 1 < calls.length → ∃ inner, calls = inner ++ caller :: below) ∧
          (calls.length = below.length + 1 →
            ∃ e m' inner g, act (language.steps k m).2 = .ok e m' ∧
              m'.state.calls = inner ++ g :: caller :: below ∧ g.recipe = r ∧
              g.calledAs = some callee ∧ (∀ f ∈ inner ++ [g], f.completed = true) ∧
              calls = caller.receive (returned (inner ++ [g])) :: below) := by
  refine ⟨_, load_of_parse h before input, ?_⟩
  intro n hworks top below here callee span m caller hcalls hpos hstatement
  have hway : UnderWay program m := language.steps_preserves (P := UnderWay program)
    (fun _ hm hstep => hm.step hstep) ⟨.inr (start_sound h input), rfl⟩ hworks
  have hsound : m.state.Sound := by
    refine hway.sound.resolve_left fun hnone => ?_
    rw [hcalls] at hnone
    cases hnone
  have hknown := (hsound.cons hcalls).1.recipe.known _ (List.mem_of_getElem? hstatement) callee rfl
  obtain ⟨r, hr⟩ := Option.isSome_iff_exists.mp hknown
  obtain ⟨e₁, hfirst⟩ := act_call hcalls hpos hstatement hr
  rw [hway.book] at hr
  refine ⟨r, hr, ⟨e₁, hfirst⟩, fun k hworks' hdeep => ?_⟩
  have hcovered : Covered r callee caller below
      (⟨r, ⟨r.ingredients, top.kitchen.bowls, top.kitchen.dishes⟩, some 0, some callee⟩ :: caller ::
        below) :=
    ⟨[], _, rfl, rfl, rfl⟩
  obtain ⟨e, m', hact, ⟨inner, g, hrecipe, hname, hcalls'⟩, hnext⟩ :=
    covered_run hfirst hcovered hworks' hdeep
  rw [hnext]
  rcases settle_covered hrecipe hname hcalls' with ⟨inner', g', -, -, hstill⟩ |
    ⟨hall, hback | hgone⟩
  · have hlength : m'.state.settle.1.calls.length = inner'.length + (below.length + 2) := by
      rw [hstill, List.length_append]
      rfl
    refine ⟨fun _ => ⟨inner' ++ [g'], ?_⟩, fun hlen => ?_⟩
    · rw [List.append_assoc]
      exact hstill
    · have hshort : m'.state.settle.1.calls.length = below.length + 1 := hlen
      omega
  · have hlength : m'.state.settle.1.calls.length = below.length + 1 := by
      rw [hback]
      rfl
    refine ⟨fun hlen => absurd hlength (Nat.ne_of_gt hlen), fun _ => ?_⟩
    exact ⟨e, m', inner, g, hact, hcalls', hrecipe, hname, hall, hback⟩
  · refine ⟨fun hlen => ?_, fun hlen => ?_⟩
    · have hlong : below.length + 1 < m'.state.settle.1.calls.length := hlen
      omega
    · have hlong : m'.state.settle.1.calls.length = below.length + 1 := hlen
      omega

/-- Two steps after the call of another recipe, the caller has got back what is in its first
    bowl. -/
theorem calls_isolated_nestedLoops :
    ∃ m₀ top, language.load ⟨.fresh, []⟩ nestedLoops [] = .ok m₀ ∧
      (∀ o ∈ (language.steps 4 m₀).1, Works o) ∧ (language.steps 4 m₀).2.state.calls = [top] ∧
      top.position = some 4 ∧ top.recipe.method[4]? = some ⟨.serveWith "rest", .within 7 0 15⟩ ∧
      (∀ o ∈ (language.steps 3 (language.steps 4 m₀).2).1, Works o) ∧
      ∃ e m' inner g, act (language.steps 2 (language.steps 4 m₀).2).2 = .ok e m' ∧
        m'.state.calls = inner ++ [g, top.goTo 5] ∧ g.calledAs = some "rest" ∧
        (language.steps 3 (language.steps 4 m₀).2).2.state.calls =
          [(top.goTo 5).receive (returned (inner ++ [g]))] := by
  obtain ⟨m₀, hload, hall⟩ := calls_isolated parse_nestedLoops ⟨.fresh, []⟩ []
  obtain rfl := Except.ok.inj (hload.symm.trans (load_of_parse parse_nestedLoops ⟨.fresh, []⟩ []))
  have hworks : ∀ o ∈ (language.steps 4 ⟨State.start nestedLoopsProgram [], []⟩).1, Works o := by
    decide +kernel
  have hshape : (language.steps 4 ⟨State.start nestedLoopsProgram [], []⟩).2.state.calls.map
      (fun f => (f.position, f.recipe.method[4]?)) =
        [(some 4, some ⟨.serveWith "rest", .within 7 0 15⟩)] := by decide +kernel
  obtain ⟨top, hcalls, htop⟩ := List.map_eq_singleton_iff.mp hshape
  obtain ⟨hpos, hstatement⟩ := Prod.mk.inj htop
  have hworks' : ∀ o ∈ (language.steps 3
      (language.steps 4 ⟨State.start nestedLoopsProgram [], []⟩).2).1, Works o := by decide +kernel
  have hdepth : ∀ i < 3, 1 ≤ i → 1 < (language.steps i
      (language.steps 4 ⟨State.start nestedLoopsProgram [], []⟩).2).2.state.calls.length := by
        decide +kernel
  have hback : (language.steps 3
      (language.steps 4 ⟨State.start nestedLoopsProgram [], []⟩).2).2.state.calls.length = 1 := by
        decide +kernel
  obtain ⟨r, -, -, hrun⟩ := hall 4 hworks top [] 4 "rest" _ hcalls hpos hstatement
  obtain ⟨e, m', inner, g, hact, hinner, -, hname, -, hend⟩ :=
    (hrun 2 hworks' fun i hi hik => hdepth i (Nat.lt_succ_of_le hik) hi).2 hback
  exact ⟨_, top, hload, hworks, hcalls, hpos, hstatement, hworks', e, m', inner, g, hact, hinner,
    hname, hend⟩

end Esolang.Chef
