/-
  File:      Esolang/Proofs/Language.lean
  Subject:   Attempts and runs of steps, for every language.

  * `Attempt.Meets`: what an attempt guarantees when it works and when it fails, with one rule for
    each way to build an attempt.
  * `Attempt.OnFault`: what an attempt leaves behind when it fails through the program's own doing.
  * `GoesOn`: a step gave a result, nothing went wrong, and something is left to execute.
  * `Language.step_cases`: the outcomes of a step, from what its attempt guarantees.
  * `Works`: a step gave a result, and nothing went wrong.
  * `Language.steps_preserves`: what every step of a kind preserves holds after any number of them,
    and `Language.steps_invariant`: so does what every step preserves.
  * `Language.Completes`: a run that comes to the end of its program, with all it wrote, and
    `Language.Fails`: one that comes to a fault.
-/
import Esolang.Language

namespace Esolang

/-! ## 1. Answers and attempts -/

/-- What was computed in two stages was computed in the first and then in the second. -/
theorem Except.bind_ok {ε α β : Type} {e : Except ε α} {f : α → Except ε β} {b : β}
    (h : e >>= f = .ok b) : ∃ a, e = .ok a ∧ f a = .ok b := by
  cases e with
  | error err => cases h
  | ok a => exact ⟨a, rfl, h⟩

theorem Except.map_ok {ε α β : Type} {e : Except ε α} {f : α → β} {b : β} (h : e.map f = .ok b) :
    ∃ a, e = .ok a ∧ f a = b := by
  cases e with
  | error err => cases h
  | ok a => exact ⟨a, rfl, Except.ok.inj h⟩

theorem Except.mapError_ok {ε ε' α : Type} {e : Except ε α} {f : ε → ε'} {a : α} :
    e.mapError f = .ok a ↔ e = .ok a := by
  cases e with
  | error err => exact ⟨fun h => (nomatch h), fun h => (nomatch h)⟩
  | ok b =>
    exact ⟨fun h => congrArg Except.ok (Except.ok.inj h),
      fun h => congrArg Except.ok (Except.ok.inj h)⟩

theorem Except.eq_ok_of_toOption {ε α : Type} {e : Except ε α} {a : α} (h : e.toOption = some a) :
    e = .ok a := by
  cases e with
  | error err => cases h
  | ok a' => cases h; rfl

/-- Answers to many questions, if there is one to each. -/
theorem Except.map_eq_of_isOk {ε α β : Type} {f : α → Except ε β} {l : List α}
    (h : ∀ a ∈ l, (f a).isOk = true) : l.map f = (l.filterMap fun a => (f a).toOption).map .ok := by
  induction l with
  | nil => rfl
  | cons a l ih =>
    obtain ⟨ha, hl⟩ := List.forall_mem_cons.mp h
    cases hf : f a with
    | error err =>
      rw [hf] at ha
      cases ha
    | ok b =>
      rw [List.map_cons, hf, ih hl]
      simp [hf, Except.toOption]

/-- An attempt that works leaves an answer and a state as `done` says, and one that fails does so
    for a reason that `failed` allows. -/
def Attempt.Meets {σ α : Type} (a : Attempt σ α) (done : α → σ → Prop) (failed : Failure → Prop) :
    Prop :=
  match a.outcome with
  | .ok x => done x a.state
  | .error e => failed e

namespace Attempt.Meets

variable {σ τ α β : Type} {P : α → σ → Prop} {Q : β → σ → Prop} {F : Failure → Prop}

theorem ok {x : α} {s : σ} (h : P x s) : (Attempt.ok x s).Meets P F := h

theorem fault {f : Fault} {s : σ} (h : F (.fault f)) :
    (Attempt.fault f s : Attempt σ α).Meets P F := h

theorem breakdown {b : Breakdown} {s : σ} (h : F (.breakdown b)) :
    (Attempt.breakdown b s : Attempt σ α).Meets P F := h

theorem lift {a : Attempt σ α} {f : σ → τ} {R : α → τ → Prop}
    (h : a.Meets (fun x s => R x (f s)) F) :
    (a.lift f).Meets R F := h

theorem andThen {a : Attempt σ α} {f : α → σ → Attempt σ β} (ha : a.Meets P F)
    (hf : ∀ x s, P x s → (f x s).Meets Q F) : (a.andThen f).Meets Q F := by
  obtain ⟨outcome, s⟩ := a
  cases outcome with
  | ok x => exact hf x s ha
  | error e => exact ha

theorem mono {a : Attempt σ α} {P' : α → σ → Prop} {F' : Failure → Prop} (h : a.Meets P F)
    (hP : ∀ x s, P x s → P' x s) (hF : ∀ e, F e → F' e) : a.Meets P' F' := by
  obtain ⟨outcome, s⟩ := a
  cases outcome with
  | ok x => exact hP x s h
  | error e => exact hF e h

end Attempt.Meets

/-- Whenever an attempt fails through the program's own doing, the fault and the state it leaves are
    as `P` says. -/
def Attempt.OnFault {σ α : Type} (a : Attempt σ α) (P : Fault → σ → Prop) : Prop :=
  ∀ f, a.outcome = .error (.fault f) → P f a.state

namespace Attempt.OnFault

variable {σ τ α : Type} {P P' : Fault → σ → Prop} {s : σ}

theorem ok (x : α) : (Attempt.ok x s).OnFault P := by
  intro f h
  cases h

theorem fault {f : Fault} (h : P f s) : (Attempt.fault f s : Attempt σ α).OnFault P := by
  intro f' h'
  cases h'
  exact h

theorem breakdown (b : Breakdown) : (Attempt.breakdown b s : Attempt σ α).OnFault P := by
  intro f h
  cases h

theorem lift {a : Attempt σ α} {f : σ → τ} {Q : Fault → τ → Prop}
    (h : a.OnFault fun x s => Q x (f s)) :
    (a.lift f).OnFault Q := h

theorem andThen {β : Type} {a : Attempt σ α} {g : α → σ → Attempt σ β} (ha : a.OnFault P)
    (hg : ∀ x, a.outcome = .ok x → (g x a.state).OnFault P) : (a.andThen g).OnFault P := by
  obtain ⟨outcome, s⟩ := a
  cases outcome with
  | ok x => exact hg x rfl
  | error e =>
    intro f h
    cases h
    exact ha f rfl

theorem mono {a : Attempt σ α} (h : a.OnFault P) (hP : ∀ f s, P f s → P' f s) : a.OnFault P' :=
  fun f hf => hP f _ (h f hf)

end Attempt.OnFault

/-- What holds of the state of an attempt, and is kept by a further one, holds after both. -/
theorem Attempt.state_andThen {σ α β : Type} {a : Attempt σ α} {f : α → σ → Attempt σ β}
    {P : σ → Prop} (ha : P a.state) (hf : ∀ x s, P s → P (f x s).state) :
    P (a.andThen f).state := by
  obtain ⟨outcome, s⟩ := a
  cases outcome with
  | ok x => exact hf x s ha
  | error e => exact ha

/-! ## 2. Runs of steps -/

/-- A step gave a result, nothing went wrong, and something is left to execute. -/
def GoesOn (o : Except Breakdown StepResult) : Prop :=
  ∃ r, o = .ok r ∧ r.error = none ∧ r.next ≠ none

instance : DecidablePred GoesOn
  | .ok r => decidable_of_iff (r.error = none ∧ r.next ≠ none)
      ⟨fun h => ⟨r, rfl, h⟩, fun ⟨_, e, h⟩ => Except.ok.inj e ▸ h⟩
  | .error _ => .isFalse fun ⟨_, e, _⟩ => nomatch e

/-- A step gave a result, and nothing went wrong. -/
def Works (o : Except Breakdown StepResult) : Prop := ∃ r, o = .ok r ∧ r.error = none

instance : DecidablePred Works
  | .ok r =>
    decidable_of_iff (r.error = none) ⟨fun h => ⟨r, rfl, h⟩, fun ⟨_, e, h⟩ => Except.ok.inj e ▸ h⟩
  | .error _ => .isFalse fun ⟨_, e, _⟩ => nomatch e

namespace Language

variable {σ : Type} (L : Language σ)

/-- A step has a result without a fault, a result with a fault, or none, as the attempt behind it
    worked, failed through the program's own doing, or broke down. -/
theorem step_cases {m : Machine σ} {P : Progress → Machine σ → Prop} {F : Failure → Prop}
    (h : (L.advance m).Meets P F) :
    (∃ p r, (L.step m).outcome = .ok r ∧ r.error = none ∧ r.output = p.output ∧
        (r.next = if p.halted then none else L.location (L.step m).machine.state) ∧
        P p (L.step m).machine) ∨
      (∃ f r, (L.step m).outcome = .ok r ∧ r.error = some f ∧ F (.fault f)) ∨
      ∃ b, (L.step m).outcome = .error b ∧ F (.breakdown b) := by
  unfold step
  generalize L.advance m = a at h
  obtain ⟨outcome, m'⟩ := a
  cases outcome with
  | ok p => exact .inl ⟨p, _, rfl, rfl, rfl, rfl, h⟩
  | error e =>
    cases e with
    | fault f => exact .inr (.inl ⟨f, _, rfl, rfl, h⟩)
    | breakdown b => exact .inr (.inr ⟨b, rfl, h⟩)

/-- A step leaves the machine where its attempt leaves it, whatever became of it. -/
theorem step_machine (m : Machine σ) : (L.step m).machine = (L.advance m).state := by
  unfold step
  generalize L.advance m = a
  obtain ⟨outcome, m'⟩ := a
  cases outcome with
  | ok p => rfl
  | error e =>
    cases e with
    | fault f => rfl
    | breakdown b => rfl

/-- A step that works is an attempt that works, and its result says where the machine then stands,
    unless the program has ended. -/
theorem result_of_works {m : Machine σ} (h : Works (L.step m).outcome) :
    ∃ p r, L.advance m = .ok p (L.step m).machine ∧ (L.step m).outcome = .ok r ∧
      r.next = if p.halted then none else L.location (L.step m).machine.state := by
  obtain ⟨r, ho, hr⟩ := h
  unfold step at ho ⊢
  generalize L.advance m = a at ho ⊢
  obtain ⟨outcome, m'⟩ := a
  cases outcome with
  | ok p => exact ⟨p, _, rfl, rfl, rfl⟩
  | error e =>
    cases e with
    | fault f =>
      cases ho
      cases hr
    | breakdown b => cases ho

theorem advance_of_works {m : Machine σ} (h : Works (L.step m).outcome) :
    ∃ p, L.advance m = .ok p (L.step m).machine := by
  obtain ⟨p, r, hadvance, -⟩ := L.result_of_works h
  exact ⟨p, hadvance⟩

/-- What a step's result names as the next place is where the machine then stands. -/
theorem location_of_next {m : Machine σ} {res : StepResult} {l : Span}
    (ho : (L.step m).outcome = .ok res) (hnext : res.next = some l) :
    L.location (L.step m).machine.state = some l := by
  unfold step at ho ⊢
  generalize L.advance m = a at ho ⊢
  obtain ⟨outcome, m'⟩ := a
  cases outcome with
  | ok p =>
    cases ho
    simp only at hnext ⊢
    split at hnext
    · cases hnext
    · exact hnext
  | error e =>
    cases e with
    | fault f =>
      cases ho
      exact hnext
    | breakdown b => cases ho

/-- A result with an error comes from an attempt that failed through the program's own doing. -/
theorem fault_of_error {m : Machine σ} {r : StepResult} {f : Fault}
    (hr : (L.step m).outcome = .ok r) (hf : r.error = some f) :
    (L.advance m).outcome = .error (.fault f) := by
  unfold step at hr
  generalize L.advance m = a at hr ⊢
  obtain ⟨outcome, m'⟩ := a
  cases outcome with
  | ok p =>
    cases hr
    cases hf
  | error e =>
    cases e with
    | fault f' =>
      cases hr
      cases hf
      rfl
    | breakdown b => cases hr

theorem step_of_fault {m m' : Machine σ} {f : Fault} (h : L.advance m = .fault f m') :
    L.step m = ⟨.ok ⟨L.display m'.state, L.location m'.state, none, none, false, some f⟩, m',
      [L.remark (Text.ofString "runtime error: " ++ f.message)]⟩ := by
  unfold step
  rw [h]
  rfl

theorem step_of_breakdown {m m' : Machine σ} {b : Breakdown} (h : L.advance m = .breakdown b m') :
    L.step m = ⟨.error b, m', []⟩ := by
  unfold step
  rw [h]
  rfl

/-- A machine that was loaded stands as its source says, and its draws go on where they were. -/
theorem read_of_load {m m' : Machine σ} {code input : Text} (h : L.load m code input = .ok m') :
    ∃ start, L.read code = .ok start ∧ m' = { m with state := start input } := by
  unfold load at h
  cases hread : L.read code with
  | error e =>
    rw [hread] at h
    cases h
  | ok start =>
    rw [hread] at h
    cases h
    exact ⟨start, rfl, rfl⟩

/-- What every step with an outcome of some kind preserves holds after any number of such steps. -/
theorem steps_preserves {P : Machine σ → Prop} {Q : Except Breakdown StepResult → Prop}
    (hstep : ∀ m, P m → Q (L.step m).outcome → P (L.step m).machine) {n : Nat} {m : Machine σ}
    (h : P m) (hgo : ∀ o ∈ (L.steps n m).1, Q o) : P (L.steps n m).2 := by
  induction n generalizing m with
  | zero => exact h
  | succ n ih =>
    have hfirst : Q (L.step m).outcome := hgo _ List.mem_cons_self
    exact ih (hstep m h hfirst) fun o ho => hgo o (List.mem_cons_of_mem _ ho)

/-- What every step preserves, whatever becomes of it, holds after any number of them. -/
theorem steps_invariant {P : Machine σ → Prop} (hstep : ∀ m, P m → P (L.step m).machine)
    {m : Machine σ} (h : P m) (n : Nat) : P (L.steps n m).2 := by
  induction n generalizing m with
  | zero => exact h
  | succ n ih => exact ih (hstep m h)

/-- Steps are taken one after another. -/
theorem steps_add (n k : Nat) (m : Machine σ) :
    L.steps (n + k) m =
      ((L.steps n m).1 ++ (L.steps k (L.steps n m).2).1, (L.steps k (L.steps n m).2).2) := by
  induction n generalizing m with
  | zero => rw [Nat.zero_add]; rfl
  | succ n ih =>
    rw [Nat.succ_add, steps, ih]
    rfl

theorem steps_succ (n : Nat) (m : Machine σ) :
    L.steps (n + 1) m =
      ((L.steps n m).1 ++ [(L.step (L.steps n m).2).outcome], (L.step (L.steps n m).2).machine) :=
  L.steps_add n 1 m

/-- A step that leaves the machine as it is can be repeated, with the same outcome. -/
theorem steps_fixed {m : Machine σ} (h : (L.step m).machine = m) (n : Nat) :
    L.steps n m = (List.replicate n (L.step m).outcome, m) := by
  induction n with
  | zero => rfl
  | succ n ih => rw [steps, h, ih, List.replicate_succ]

/-- Everything the steps of a run wrote. -/
def Trace.written (t : Trace σ) : Text :=
  t.outcomes.flatMap fun
    | .ok r => r.written
    | .error _ => []

/-- Steps that all work lead to one after which nothing is left to execute: `out` is everything they
    wrote, and `last` the machine afterwards. -/
def Completes (m : Machine σ) (out : Text) (last : Machine σ) : Prop :=
  ∃ budget, (L.run budget m).stop = .done ∧ (L.run budget m).written = out ∧
    (L.run budget m).machine = last

/-- Steps that all work lead to one that reports the fault `f`: `out` is everything they wrote, and
    `last` the machine afterwards. -/
def Fails (m : Machine σ) (f : Fault) (out : Text) (last : Machine σ) : Prop :=
  ∃ budget, (L.run budget m).stop = .error ∧ (L.run budget m).written = out ∧
    (L.run budget m).machine = last ∧
    ∃ r, (L.run budget m).outcomes.getLast? = some (.ok r) ∧ r.error = some f

end Language

end Esolang
