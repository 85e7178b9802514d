/-
  File:      Esolang/Proofs/Chef/Finishing.lean
  Subject:   Runs of the machine that come to the end of the program, one statement at a time.

  A statement may leave finished calls behind, and the end of the step gives them back. A run is
  followed here from one statement to the next, through machines in which this is still to be done:
  they depend on the machine after it only, so a finished call and its caller with the bowl put on
  are the same.

  * `Finishes`: the end of the program is reached in a number of steps; `completes_iff`: so it is
    when whole steps are taken.
  * `cooking`: the machine in which a call has a bench and stands at a place.
  * `finishes_kitchen`, `finishes_start`, `finishes_end`, `finishes_aside`, `finishes_refrigerate`,
    `finishes_call`: what each kind of statement does to a run that finishes.
  * `finishes_return`, `finishes_last`: what the end of a recipe does, with its serving line.
-/
import Esolang.Proofs.Chef.Safety
import Esolang.Proofs.Chef.Structured

namespace Esolang.Chef

/-! ## 1. Runs -/

/-- The machine after finished calls were given back. -/
def settled (m : Machine State) : Machine State := { m with state := m.state.settle.1 }

/-- From a machine in which finished calls are still to be given back, this many steps lead without
    a failure to the end of the program: they serve `out` and leave the machine `last`. -/
inductive Finishes : Nat → Machine State → Text → Machine State → Prop where
  | ended {m last : Machine State} (hlast : settled m = last) (hend : location last.state = none) :
      Finishes 0 m [] last
  | step {n : Nat} {m m' last : Machine State} {e : Effect} {out : Text}
      (hlive : location (settled m).state ≠ none) (hact : act (settled m) = .ok e m')
      (hrest : Finishes n m' out last) : Finishes (n + 1) m (e.output ++ out) last

theorem Finishes.congr {n : Nat} {m₁ m₂ last : Machine State} {out : Text}
    (h : Finishes n m₁ out last) (hm : settled m₁ = settled m₂) : Finishes n m₂ out last := by
  cases h with
  | ended hlast hend => exact .ended (hm ▸ hlast) hend
  | step hlive hact hrest => exact .step (hm ▸ hlive) (hm ▸ hact) hrest

theorem advance_eq (m : Machine State) :
    language.advance m = (act m).andThen fun e m' =>
      .ok ⟨if e.output.isEmpty then none else some e.output, none, false,
        e.notes ++ m'.state.settle.2⟩
        (settled m') := rfl

/-- A run that begins with a statement that works goes on from the machine after it. -/
theorem run_of_act {m m' : Machine State} {e : Effect} (h : act m = .ok e m') :
    ∃ r : StepResult, r.written = e.output ∧ ∀ budget, language.run (budget + 1) m =
      if (location (settled m').state).isNone then ⟨[.ok r], .done, settled m'⟩
      else { language.run budget (settled m') with
        outcomes := .ok r :: (language.run budget (settled m')).outcomes } := by
  have hadv := advance_eq m
  rw [h] at hadv
  refine ⟨⟨display (settled m').state, location (settled m').state,
    if e.output.isEmpty then none else some e.output, none, false, none⟩, ?_, fun budget => ?_⟩
  · show (if e.output.isEmpty then none else some e.output).getD [] = e.output
    cases e.output with
    | nil => rfl
    | cons c cs => rfl
  · rw [Language.run, Language.step, hadv]
    rfl

theorem run_of_act_error {m : Machine State} {f : Failure} (h : (act m).outcome = .error f)
    (budget : Nat) : (language.run budget m).stop ≠ .done := by
  have hadv := advance_eq m
  rw [Attempt.andThen, h] at hadv
  cases budget with
  | zero => exact fun c => nomatch c
  | succ budget =>
    rw [Language.run, Language.step, hadv]
    cases f with
    | fault f => exact fun c => nomatch c
    | breakdown b => exact fun c => nomatch c

theorem finishes_of_run {budget : Nat} {m m' : Machine State} {e : Effect} (hact : act m = .ok e m')
    (hdone : (language.run budget m).stop = .done) :
    ∃ n out, Finishes n m' out (language.run budget m).machine ∧
      (language.run budget m).written = e.output ++ out := by
  induction budget generalizing m m' e with
  | zero => cases hdone
  | succ budget ih =>
    obtain ⟨r, hout, hrun⟩ := run_of_act hact
    rw [hrun] at hdone ⊢
    cases hn : location (settled m').state with
    | none =>
      refine ⟨0, [], .ended rfl hn, ?_⟩
      simp [Language.Trace.written, hout]
    | some next =>
      rw [hn] at hdone
      have hlive : location (settled m').state ≠ none := hn ▸ Option.some_ne_none next
      cases hact' : act (settled m') with
      | mk outcome m'' =>
        cases outcome with
        | error f => exact absurd hdone (run_of_act_error (by rw [hact']) budget)
        | ok e' =>
          obtain ⟨n, out, hfin, hwritten⟩ := ih hact' hdone
          refine ⟨n + 1, e'.output ++ out, .step hlive hact' hfin, ?_⟩
          rw [← hwritten, ← hout]
          rfl

theorem completes_of_finishes {n : Nat} {m m' last : Machine State} {e : Effect} {out : Text}
    (hact : act m = .ok e m') (h : Finishes n m' out last) :
    language.Completes m (e.output ++ out) last := by
  induction h generalizing m e with
  | ended hlast hend =>
    obtain ⟨r, hout, hrun⟩ := run_of_act hact
    refine ⟨1, ?_⟩
    rw [hrun, hlast, hend]
    exact ⟨rfl, by simp [Language.Trace.written, hout], rfl⟩
  | step hlive hact' hrest ih =>
    obtain ⟨r, hout, hrun⟩ := run_of_act hact
    obtain ⟨budget, hdone, hwritten, hmachine⟩ := ih hact'
    obtain ⟨next, hnext⟩ := Option.ne_none_iff_exists'.mp hlive
    refine ⟨budget + 1, ?_⟩
    rw [hrun, hnext]
    refine ⟨hdone, ?_, hmachine⟩
    rw [← hwritten, ← hout]
    rfl

/-- **A run completes exactly when it finishes** from the machine after its first statement. -/
theorem completes_iff {m m' last : Machine State} {e : Effect} (hact : act m = .ok e m')
    {out : Text} :
    language.Completes m out last ↔ ∃ n out', Finishes n m' out' last ∧ out = e.output ++ out' := by
  constructor
  · rintro ⟨budget, hdone, hwritten, hmachine⟩
    obtain ⟨n, out', hfin, hout⟩ := finishes_of_run hact hdone
    exact ⟨n, out', hmachine ▸ hfin, hwritten ▸ hout⟩
  · rintro ⟨n, out', hfin, rfl⟩
    exact completes_of_finishes hact hfin

/-! ## 2. Calls at work -/

/-- The machine in which call `f` works on bench `b` and stands at place `p`. -/
def cooking (s : State) (f : Frame) (outer : List Frame) (p : Nat) (b : Bench) : Machine State :=
  ⟨{ s with calls := (f.withKitchen b.kitchen).goTo p :: outer, input := b.input }, b.draws⟩

section Cooking

variable {s : State} {f : Frame} {outer : List Frame} {p n : Nat} {b : Bench} {out : Text}
  {last : Machine State}

theorem settled_cooking (h : ((f.withKitchen b.kitchen).goTo p).completed = false) :
    settled (cooking s f outer p b) = cooking s f outer p b := by
  unfold settled cooking State.settle
  simp only [h]
  rfl

theorem settled_completed (h : ((f.withKitchen b.kitchen).goTo p).completed = true) :
    settled (cooking s f outer p b) =
      ⟨⟨s.auxiliaries, (foldCalls ((f.withKitchen b.kitchen).goTo p) outer).1, b.input,
        (foldCalls ((f.withKitchen b.kitchen).goTo p) outer).2.1.getD s.lastKitchen⟩, b.draws⟩ := by
  unfold settled cooking State.settle
  simp only [h]
  rfl

theorem location_cooking (h : ((f.withKitchen b.kitchen).goTo p).completed = false) :
    location (cooking s f outer p b).state ≠ none := by
  show ((f.withKitchen b.kitchen).goTo p).location ≠ none
  rcases Frame.unfinished_cases rfl h with hlt | ⟨hend, serving, hserving⟩
  · have hsome : f.recipe.method[p]? = some _ := List.getElem?_eq_getElem hlt
    simp only [Frame.location, Frame.goTo, Frame.withKitchen, hsome]
    exact Option.some_ne_none _
  · have hnone : f.recipe.method[p]? = none := List.getElem?_eq_none (Nat.le_of_eq hend.symm)
    have hline : f.recipe.serving = some serving := hserving
    simp only [Frame.location, Frame.goTo, Frame.withKitchen, hnone, hline]
    exact Option.some_ne_none _

/-- What a call does next either fails, or works with some `v` as `R` says. A run then finishes
    exactly when there is such a `v` and the run finishes from the machine that `v` leads to. -/
theorem finishes_iff {α : Type} {R : α → Prop} {next : α → Machine State} {served : α → Text}
    (hlive : ((f.withKitchen b.kitchen).goTo p).completed = false)
    (hworks : ∀ v, R v → ∃ notes, act (cooking s f outer p b) = .ok ⟨served v, notes⟩ (next v))
    (hfails : (∃ v, R v) ∨ ∃ x m', act (cooking s f outer p b) = ⟨.error x, m'⟩) :
    Finishes n (cooking s f outer p b) out last ↔
      ∃ n' v out', R v ∧ Finishes n' (next v) out' last ∧ n = n' + 1 ∧ out = served v ++ out' := by
  have hsettled : settled (cooking s f outer p b) = cooking s f outer p b := settled_cooking hlive
  have hloc : location (cooking s f outer p b).state ≠ none := location_cooking hlive
  constructor
  · intro h
    cases h with
    | ended hlast hend =>
      rw [← hlast, hsettled] at hend
      exact absurd hend hloc
    | step _ hact hrest =>
      rw [hsettled] at hact
      rcases hfails with ⟨v, hv⟩ | ⟨x, m', hx⟩
      · obtain ⟨notes, hv'⟩ := hworks v hv
        cases hv'.symm.trans hact
        exact ⟨_, v, _, hv, hrest, rfl, rfl⟩
      · cases hx.symm.trans hact
  · rintro ⟨n', v, out', hv, hrest, rfl, rfl⟩
    obtain ⟨notes, hact⟩ := hworks v hv
    rw [← hsettled] at hact hloc
    exact .step hloc hact hrest

/-! ## 3. One statement -/

section Statement

variable {op : Operation} (hop : (f.recipe.method.map (·.operation))[p]? = some op)
include hop

theorem unfinished_statement : ((f.withKitchen b.kitchen).goTo p).completed = false := by
  obtain ⟨step, hstep, -⟩ := getElem?_operation_iff.mp hop
  exact if_pos (List.getElem?_eq_some_iff.mp hstep).1

theorem act_cooking : act (cooking s f outer p b) =
    execute (cooking s f outer p b) ((f.withKitchen b.kitchen).goTo p) outer p op := by
  obtain ⟨step, hstep, rfl⟩ := getElem?_operation_iff.mp hop
  exact act_statement rfl rfl hstep

theorem finishes_kitchen (hflow : op.isFlow = false) :
    Finishes n (cooking s f outer p b) out last ↔
      ∃ n' b', b.perform op = .ok () b' ∧ Finishes n' (cooking s f outer (p + 1) b') out last ∧
        n = n' + 1 := by
  have hworks : ∀ b', b.perform op = .ok () b' →
      ∃ notes, act (cooking s f outer p b) = .ok ⟨[], notes⟩ (cooking s f outer (p + 1) b') := by
    intro b' hb
    exact ⟨[], (act_cooking hop).trans (execute_kitchen_ok hflow hb)⟩
  have hfails : (∃ b', b.perform op = .ok () b') ∨
      ∃ x m', act (cooking s f outer p b) = ⟨.error x, m'⟩ := by
    cases hb : b.perform op with
    | mk outcome b' =>
      cases outcome with
      | ok u => exact .inl ⟨b', rfl⟩
      | error x => exact .inr ⟨x, _, (act_cooking hop).trans (execute_kitchen_error hflow hb)⟩
  rw [finishes_iff (unfinished_statement hop) hworks hfails]
  simp

end Statement

/-- The beginning of a loop leads into it, or past its end when its ingredient is zero. -/
theorem finishes_start {verb i : Text} {c : Nat}
    (hop : (f.recipe.method.map (·.operation))[p]? = some (.loopStart verb i (some c))) :
    Finishes n (cooking s f outer p b) out last ↔
      ∃ n' item, b.kitchen.measured i = .ok item ∧
        Finishes n' (cooking s f outer (if item.value = 0 then c + 1 else p + 1) b) out last ∧
          n = n' + 1 := by
  have hact : act (cooking s f outer p b) =
      (((f.withKitchen b.kitchen).goTo p).enterLoop p i (some c)).lift
        fun f' => ⟨{ s with calls := f' :: outer, input := b.input }, b.draws⟩ := act_cooking hop
  have hworks : ∀ item, b.kitchen.measured i = .ok item → ∃ notes, act (cooking s f outer p b) =
      .ok ⟨[], notes⟩ (cooking s f outer (if item.value = 0 then c + 1 else p + 1) b) := by
    intro item hi
    rw [enterLoop_ok hi] at hact
    exact ⟨[], hact⟩
  have hfails : (∃ item, b.kitchen.measured i = .ok item) ∨
      ∃ x m', act (cooking s f outer p b) = ⟨.error x, m'⟩ := by
    cases hi : b.kitchen.measured i with
    | ok item => exact .inl ⟨item, rfl⟩
    | error x =>
      rw [enterLoop_error hi] at hact
      exact .inr ⟨.fault x, _, hact⟩
  rw [finishes_iff (unfinished_statement hop) hworks hfails]
  simp

section Leave

variable {count : Option Text} (hcount : count ≠ some [])
include hcount

theorem leaveOrRepeat_ok {b' : Bench} (h : b.countDown count = .ok b') (opener : Option Nat) :
    ((f.withKitchen b.kitchen).goTo p).leaveOrRepeat p count opener =
      ((f.withKitchen b'.kitchen).goTo p).repeatLoop p opener := by
  cases count with
  | none =>
    cases h
    rfl
  | some i =>
    have hempty : i.isEmpty = false := List.isEmpty_eq_false_iff.mpr fun e => hcount (by rw [e])
    have hkitchen : ((f.withKitchen b.kitchen).goTo p).kitchen = b.kitchen := rfl
    cases hm : b.kitchen.measured i with
    | error x => simp [Bench.countDown, hm] at h
    | ok item =>
      simp only [Bench.countDown, hm, Except.ok.injEq] at h
      subst h
      simp only [Frame.leaveOrRepeat, hempty, Frame.countDown, hkitchen, hm]
      rfl

theorem leaveOrRepeat_error {x : Fault} (h : b.countDown count = .error x) (opener : Option Nat) :
    ((f.withKitchen b.kitchen).goTo p).leaveOrRepeat p count opener =
      .fault x ((f.withKitchen b.kitchen).goTo p) := by
  cases count with
  | none => cases h
  | some i =>
    have hempty : i.isEmpty = false := List.isEmpty_eq_false_iff.mpr fun e => hcount (by rw [e])
    have hkitchen : ((f.withKitchen b.kitchen).goTo p).kitchen = b.kitchen := rfl
    cases hm : b.kitchen.measured i with
    | error y =>
      simp only [Bench.countDown, hm, Except.error.injEq] at h
      subst h
      simp only [Frame.leaveOrRepeat, hempty, Frame.countDown, hkitchen, hm]
      rfl
    | ok item => simp [Bench.countDown, hm] at h

end Leave

/-- The end of a loop counts down and leads back to the loop's beginning, or on when the loop's
    ingredient is zero by now. -/
theorem finishes_end {verb v i : Text} {count : Option Text} {o : Nat} {c : Option Nat}
    (hop : (f.recipe.method.map (·.operation))[p]? = some (.loopEnd verb count (some o)))
    (hstart : (f.recipe.method.map (·.operation))[o]? = some (.loopStart v i c))
    (hcount : count ≠ some []) :
    Finishes n (cooking s f outer p b) out last ↔
      ∃ n' b' item, b.countDown count = .ok b' ∧ b'.kitchen.measured i = .ok item ∧
        Finishes n' (cooking s f outer (if item.value = 0 then p + 1 else o) b') out last ∧
          n = n' + 1 := by
  have hact : act (cooking s f outer p b) =
      (((f.withKitchen b.kitchen).goTo p).leaveOrRepeat p count (some o)).lift
        fun f' => ⟨{ s with calls := f' :: outer, input := b.input }, b.draws⟩ := act_cooking hop
  -- counting down changes the kitchen alone
  have hdown : ∀ b', b.countDown count = .ok b' → act (cooking s f outer p b) =
      (((f.withKitchen b'.kitchen).goTo p).repeatLoop p (some o)).lift
        fun f' => ⟨{ s with calls := f' :: outer, input := b'.input }, b'.draws⟩ := by
    intro b' hb
    obtain ⟨hinput, hdraws⟩ := Bench.countDown_shared hb
    rw [hact, leaveOrRepeat_ok hcount hb, hinput, hdraws]
  have hworks : ∀ x : Bench × Item, b.countDown count = .ok x.1 ∧ x.1.kitchen.measured i = .ok x.2 →
      ∃ notes, act (cooking s f outer p b) =
        .ok ⟨[], notes⟩ (cooking s f outer (if x.2.value = 0 then p + 1 else o) x.1) := by
    rintro ⟨b', item⟩ ⟨hb, hi⟩
    refine ⟨[], (hdown b' hb).trans ?_⟩
    rw [repeatLoop_ok (f := (f.withKitchen b'.kitchen).goTo p) hstart hi]
    rfl
  have hfails : (∃ x : Bench × Item, b.countDown count = .ok x.1 ∧
    x.1.kitchen.measured i = .ok x.2) ∨
      ∃ x m', act (cooking s f outer p b) = ⟨.error x, m'⟩ := by
    cases hb : b.countDown count with
    | error x =>
      rw [leaveOrRepeat_error hcount hb] at hact
      exact .inr ⟨.fault x, _, hact⟩
    | ok b' =>
      cases hi : b'.kitchen.measured i with
      | error x =>
        have hstuck := hdown b' hb
        rw [repeatLoop_error (f := (f.withKitchen b'.kitchen).goTo p) hstart hi] at hstuck
        exact .inr ⟨.fault x, _, hstuck⟩
      | ok item => exact .inl ⟨(b', item), rfl, hi⟩
  rw [finishes_iff (unfinished_statement hop) hworks hfails]
  simp [and_assoc]

theorem finishes_aside {c : Nat}
    (hop : (f.recipe.method.map (·.operation))[p]? = some (.setAside (some c))) :
    Finishes n (cooking s f outer p b) out last ↔
      ∃ n', Finishes n' (cooking s f outer (c + 1) b) out last ∧ n = n' + 1 := by
  have hact : act (cooking s f outer p b) = .ok ⟨[], []⟩ (cooking s f outer (c + 1) b) :=
    act_cooking hop
  rw [finishes_iff (R := fun _ : Unit => True) (unfinished_statement hop) (fun _ _ => ⟨[], hact⟩)
    (.inl ⟨(), trivial⟩)]
  simp

/-- Serving, where it ends at place `q`. -/
theorem finishes_serve {count q : Nat}
    (hlive : ((f.withKitchen b.kitchen).goTo p).completed = false)
    (hworks : ∀ t k, Chef.serve b.kitchen count = .ok t k →
      act (cooking s f outer p b) = .ok ⟨t, []⟩ (cooking s f outer q (b.withKitchen k)))
    (hfails : ∀ x k, Chef.serve b.kitchen count = ⟨.error x, k⟩ →
      ∃ m', act (cooking s f outer p b) = ⟨.error x, m'⟩) :
    Finishes n (cooking s f outer p b) out last ↔
      ∃ n' t b' out', b.serve count = .ok t b' ∧ Finishes n' (cooking s f outer q b') out' last ∧
        n = n' + 1 ∧ out = t ++ out' := by
  have hworks' : ∀ x : Text × Bench, b.serve count = .ok x.1 x.2 →
      ∃ notes, act (cooking s f outer p b) = .ok ⟨x.1, notes⟩ (cooking s f outer q x.2) := by
    rintro ⟨t', b'⟩ hx
    unfold Bench.serve at hx
    cases hk : Chef.serve b.kitchen count with
    | mk outcome k =>
      rw [hk] at hx
      cases outcome with
      | ok t =>
        obtain ⟨hout, rfl⟩ := Attempt.mk.inj hx
        obtain rfl := Except.ok.inj hout
        exact ⟨[], hworks t k hk⟩
      | error y => cases hx
  have hfails' : (∃ x : Text × Bench, b.serve count = .ok x.1 x.2) ∨
      ∃ x m', act (cooking s f outer p b) = ⟨.error x, m'⟩ := by
    unfold Bench.serve
    cases hk : Chef.serve b.kitchen count with
    | mk outcome k =>
      cases outcome with
      | ok t => exact .inl ⟨(t, b.withKitchen k), rfl⟩
      | error x => exact .inr ⟨x, hfails x k hk⟩
  rw [finishes_iff hlive hworks' hfails']
  simp

/-- `Refrigerate` serves and leads to the end of the method. -/
theorem finishes_refrigerate {hours : Option Int}
    (hop : (f.recipe.method.map (·.operation))[p]? = some (.refrigerate hours)) :
    Finishes n (cooking s f outer p b) out last ↔
      ∃ n' t b' out', b.serve (hours.getD 0).toNat = .ok t b' ∧
        Finishes n' (cooking s f outer f.recipe.method.length b') out' last ∧ n = n' + 1 ∧
          out = t ++ out' := by
  have hlive : ((f.withKitchen b.kitchen).goTo p).completed = false := unfinished_statement hop
  have hact : act (cooking s f outer p b) =
      execute (cooking s f outer p b) ((f.withKitchen b.kitchen).goTo p) outer p
        (.refrigerate hours) :=
    act_cooking hop
  -- without hours nothing is served, and nothing can fail
  have hnothing :
      act (cooking s f outer p b) = .ok .none (cooking s f outer f.recipe.method.length b) →
      (Finishes n (cooking s f outer p b) out last ↔
        ∃ n' t b' out', b.serve 0 = .ok t b' ∧
          Finishes n' (cooking s f outer f.recipe.method.length b') out' last ∧ n = n' + 1 ∧
          out = t ++ out') := by
    intro hact
    refine finishes_serve hlive (fun t k hk => ?_) (fun x k hk => nomatch hk)
    cases hk
    exact hact
  cases hours with
  | none => exact hnothing hact
  | some m =>
    by_cases hm : m = 0
    · subst hm
      exact hnothing hact
    · have hserve : act (cooking s f outer p b) =
          (((Chef.serve b.kitchen m.toNat).lift
              ((f.withKitchen b.kitchen).goTo f.recipe.method.length).withKitchen).andThen
            fun t f' => .ok ⟨t, []⟩ f').lift
              fun f' => ⟨{ s with calls := f' :: outer, input := b.input }, b.draws⟩ :=
        hact.trans (if_neg hm)
      refine finishes_serve hlive (fun t k (hk : Chef.serve b.kitchen m.toNat = .ok t k) => ?_)
        (fun x k (hk : Chef.serve b.kitchen m.toNat = ⟨.error x, k⟩) => ?_)
      · rw [hserve, hk]
        rfl
      · exact ⟨cooking s f outer f.recipe.method.length (b.withKitchen k), by rw [hserve, hk]; rfl⟩

/-- `Serve with` begins the called recipe in front of its caller. -/
theorem finishes_call {callee : Text} {r : Recipe}
    (hop : (f.recipe.method.map (·.operation))[p]? = some (.serveWith callee))
    (hr : s.auxiliaries.get? callee = some r) :
    Finishes n (cooking s f outer p b) out last ↔
      ∃ n', Finishes n' (cooking s ⟨r, b.kitchen, none, some callee⟩
        ((f.withKitchen b.kitchen).goTo (p + 1) :: outer) 0 (b.enter r)) out last ∧ n = n' + 1 := by
  have hact : act (cooking s f outer p b) =
      ((cooking s f outer p b).state.call ((f.withKitchen b.kitchen).goTo p) outer callee p).lift
        fun s' => ⟨s', b.draws⟩ := act_cooking hop
  have hbook : (cooking s f outer p b).state.auxiliaries.get? callee = some r := hr
  rw [State.call, hbook] at hact
  obtain ⟨notes, hcall⟩ : ∃ notes, act (cooking s f outer p b) = .ok ⟨[], notes⟩
      (cooking s ⟨r, b.kitchen, none, some callee⟩
        ((f.withKitchen b.kitchen).goTo (p + 1) :: outer) 0 (b.enter r)) := ⟨_, hact⟩
  rw [finishes_iff (R := fun _ : Unit => True) (unfinished_statement hop)
    (fun _ _ => ⟨notes, hcall⟩)
    (.inl ⟨(), trivial⟩)]
  simp

/-! ## 4. The end of a recipe -/

/-- The number of serving lines a recipe has. -/
def Recipe.servingLines (r : Recipe) : Nat := if r.serving.isSome then 1 else 0

/-- The serving line, if there is one, comes last and leads behind the end of the method. -/
theorem finishes_serving :
    Finishes n (cooking s f outer f.recipe.method.length b) out last ↔
      ∃ n' t b' out', b.finish f.recipe = .ok t b' ∧
        Finishes n' (cooking s f outer (f.recipe.method.length + f.recipe.servingLines) b')
          out' last ∧
        n = n' + f.recipe.servingLines ∧ out = t ++ out' := by
  unfold Bench.finish Recipe.servingLines
  cases hserving : f.recipe.serving with
  | none =>
    constructor
    · intro h
      exact ⟨n, [], b, out, rfl, h, rfl, rfl⟩
    · rintro ⟨n', t, b', out', hb, h, rfl, rfl⟩
      cases hb
      exact h
  | some serving =>
    have hlive : ((f.withKitchen b.kitchen).goTo f.recipe.method.length).completed = false := by
      simp [Frame.completed, Frame.goTo, Frame.withKitchen, hserving]
    have hline : ((f.withKitchen b.kitchen).goTo f.recipe.method.length).recipe.serving =
        some serving := hserving
    have hact : act (cooking s f outer f.recipe.method.length b) =
        ((((Chef.serve b.kitchen serving.dishes).lift
            ((f.withKitchen b.kitchen).goTo f.recipe.method.length).withKitchen).andThen
              fun t f' => .ok ⟨t, []⟩ f').andThen fun e f' =>
                .ok e (f'.goTo (f.recipe.method.length + 1))).lift
              fun f' => ⟨{ s with calls := f' :: outer, input := b.input }, b.draws⟩ :=
      act_serving rfl rfl hline
    refine finishes_serve hlive (fun t k hk => ?_) (fun x k hk => ?_)
    · rw [hact, hk]
      rfl
    · exact ⟨cooking s f outer f.recipe.method.length (b.withKitchen k), by rw [hact, hk]; rfl⟩

theorem completed_behind : ((f.withKitchen b.kitchen).goTo
    (f.recipe.method.length + f.recipe.servingLines)).completed = true := by
  unfold Recipe.servingLines
  cases hserving : f.recipe.serving with
  | none => simp [Frame.completed, Frame.goTo, Frame.withKitchen, hserving]
  | some serving => simp [Frame.completed, Frame.goTo, Frame.withKitchen]

/-- A finished call in front of its caller is the caller with the bowl put on. -/
theorem settled_return {g : Frame} {k : Bench} {q : Nat} :
    settled (cooking s g ((f.withKitchen k.kitchen).goTo q :: outer)
      (g.recipe.method.length + g.recipe.servingLines) b) =
        settled (cooking s f outer q (k.takeBack b)) := by
  rw [settled_completed completed_behind]
  -- the caller after the bowl was put on is the caller on the bench it takes back
  obtain ⟨note, hfold⟩ : ∃ note, foldCalls ((g.withKitchen b.kitchen).goTo
      (g.recipe.method.length + g.recipe.servingLines))
        ((f.withKitchen k.kitchen).goTo q :: outer) =
        if ((f.withKitchen (k.takeBack b).kitchen).goTo q).completed then
          ((foldCalls ((f.withKitchen (k.takeBack b).kitchen).goTo q) outer).1,
            (foldCalls ((f.withKitchen (k.takeBack b).kitchen).goTo q) outer).2.1,
            note :: (foldCalls ((f.withKitchen (k.takeBack b).kitchen).goTo q) outer).2.2)
        else ((f.withKitchen (k.takeBack b).kitchen).goTo q :: outer, none, [note]) := ⟨_, rfl⟩
  rw [hfold]
  cases hc : ((f.withKitchen (k.takeBack b).kitchen).goTo q).completed with
  | true =>
    rw [settled_completed hc]
    rfl
  | false =>
    rw [settled_cooking hc]
    rfl

theorem settled_last : settled (cooking s f [] (f.recipe.method.length + f.recipe.servingLines) b) =
    ⟨⟨s.auxiliaries, [], b.input, b.kitchen⟩, b.draws⟩ :=
  settled_completed completed_behind

/-- The end of a called recipe leads back to its caller. -/
theorem finishes_return {g : Frame} {k : Bench} {q : Nat} :
    Finishes n (cooking s g ((f.withKitchen k.kitchen).goTo q :: outer) g.recipe.method.length b)
      out last ↔ ∃ n' t b' out', b.finish g.recipe = .ok t b' ∧
        Finishes n' (cooking s f outer q (k.takeBack b')) out' last ∧
        n = n' + g.recipe.servingLines ∧ out = t ++ out' := by
  rw [finishes_serving]
  constructor
  · rintro ⟨n', t, b', out', hb, hrest, hn, hout⟩
    exact ⟨n', t, b', out', hb, hrest.congr settled_return, hn, hout⟩
  · rintro ⟨n', t, b', out', hb, hrest, hn, hout⟩
    exact ⟨n', t, b', out', hb, hrest.congr settled_return.symm, hn, hout⟩

/-- The end of the main recipe is the end of the program. -/
theorem finishes_last :
    (∃ n, Finishes n (cooking s f [] f.recipe.method.length b) out last) ↔
      ∃ b', b.finish f.recipe = .ok out b' ∧
        last = ⟨⟨s.auxiliaries, [], b'.input, b'.kitchen⟩, b'.draws⟩ := by
  constructor
  · rintro ⟨n, h⟩
    obtain ⟨n', t, b', out', hb, hrest, -, rfl⟩ := finishes_serving.mp h
    cases hrest with
    | ended hlast _ =>
      rw [settled_last] at hlast
      rw [List.append_nil]
      exact ⟨b', hb, hlast.symm⟩
    | step hlive _ _ =>
      rw [settled_last] at hlive
      exact absurd rfl hlive
  · rintro ⟨b', hb, rfl⟩
    have hend := Finishes.ended (settled_last (s := s) (f := f) (b := b')) rfl
    exact ⟨_, finishes_serving.mpr ⟨0, out, b', [], hb, hend, rfl, (List.append_nil out).symm⟩⟩

end Cooking

end Esolang.Chef
