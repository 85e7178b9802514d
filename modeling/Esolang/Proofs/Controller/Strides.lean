/-
  File:      Esolang/Proofs/Controller/Strides.lean
  Subject:   The steps that one run takes, among all that is requested.

  A run that goes on is the one that drives the machine, or it has not begun before. Each of its
  steps gives a result after which it rests, or it is the last. While it rests between two of its
  steps nobody else moves the machine.

  * `strides`: the steps that one run takes under a schedule.
  * `Stage.stride_cases`: what a step of a run makes of the stage.
  * `Stage.Exclusive.kept`: nothing moves the machine between two steps of a run.
-/
import Esolang.Proofs.Controller.Exclusion
import Esolang.Proofs.Language

namespace Esolang

/-! ## 1. The steps of one run -/

/-- Whether a request makes run number `k` go on. -/
def Request.asks (k : Nat) : Request → Bool
  | .ask j | .wake j => j = k
  | _ => false

theorem Request.asks_of_eq {k : Nat} {r : Request} (h : r = .ask k ∨ r = .wake k) :
    r.asks k = true := by
  rcases h with rfl | rfl
  · exact decide_eq_true rfl
  · exact decide_eq_true rfl

/-- A step that a run takes. -/
structure Stride (σ : Type) where
  /-- The stage before the step. -/
  before : Stage σ
  /-- The stage after the step. -/
  after : Stage σ

/-- The steps that run number `k` takes under a schedule, in order. -/
def strides {σ : Type} (L : Language σ) (k : Nat) : List Request → Stage σ → List (Stride σ)
  | [], _ => []
  | r :: rest, s =>
    if r.asks k ∧ s.told.length < (play L r s).told.length then
      ⟨s, play L r s⟩ :: strides L k rest (play L r s)
    else strides L k rest (play L r s)

section Strides

variable {σ : Type} {L : Language σ} {k : Nat}

end Strides

/-! ## 2. What a step of a run makes of the stage -/

/-- A step is delivered. -/
theorem Controller.Driven.told_lt {σ : Type} {L : Language σ} {c : Controller σ} {generation : Nat}
    {reply : Reply σ (Delivery × Run)} (h : c.Driven L generation reply) {s : Stage σ} {k : Nat} :
    s.told.length < (s.take k reply).told.length := by
  rw [Stage.take, List.length_append, h.told_length]
  exact Nat.lt_succ_self _

theorem Controller.Driven.run_ne_unstarted {σ : Type} {L : Language σ} {c : Controller σ}
    {generation : Nat} {reply : Reply σ (Delivery × Run)} (h : c.Driven L generation reply) :
    reply.answer.2 ≠ .unstarted := by
  cases h with
  | breaksDown ho => exact nofun
  | concludes ho hstops => exact nofun
  | goesOn ho herror hnext hwaiting hline => exact nofun

namespace Stage

variable {σ : Type} {L : Language σ} {s s' : Stage σ} {r : Request} {k : Nat}

/-- A step of a run is taken by the run that drives the machine, or by one that begins. -/
theorem Move.stride (hmove : s.Move L r s') (hr : r.asks k = true)
    (hlt : s.told.length < s'.told.length) :
    ∃ c reply,
      (c = s.controller ∧ s.Drives k ∨
        c = s.controller.begun ∧ ∃ asleep, s.runs[k]? = some ⟨.unstarted, asleep⟩) ∧
      c.Driven L c.generation reply ∧ s' = s.take k reply := by
  have hnumber : ∀ {j : Nat}, r = .ask j ∨ r = .wake j → j = k := by
    rintro j (rfl | rfl)
    · exact of_decide_eq_true hr
    · exact of_decide_eq_true hr
  cases hmove with
  | steps hallowed ho => cases hr
  | breaks hallowed ho => cases hr
  | begins hr' hk hallowed hreply =>
    obtain rfl := hnumber hr'
    exact ⟨_, _, .inr ⟨rfl, _, hk⟩, hreply, rfl⟩
  | drives hk hreply =>
    obtain rfl := hnumber (.inr rfl)
    exact ⟨_, _, .inl ⟨rfl, true, hk⟩, hreply, rfl⟩
  | _ => exact absurd hlt (Nat.lt_irrefl _)

/-- A step that gives a result is the last of its run, or the run rests before a line at which it
    need not stop. -/
theorem stride_cases (hmove : s.Move L r s') (hr : r.asks k = true)
    (hlt : s.told.length < s'.told.length) {res : StepResult}
    (ho : (L.step s.controller.machine).outcome = .ok res) :
    s'.Over k ∧ s.controller.Stops res ∧ s'.told = s.told ++ [.ok res.concluding] ∧
        s'.controller.status = Controller.statusAfter res ∨
      s'.Drives k ∧ s'.told = s.told ++ [.ok res] ∧ ∃ l, res.next = some l ∧
        l.startLine ∉ s.controller.breakpoints ∧
          L.location s'.controller.machine.state = some l := by
  obtain ⟨c, reply, hc, hreply, rfl⟩ := hmove.stride hr hlt
  -- the run that begins finds the same machine, lines and pause requests as one that goes on
  have hplace : k < s.runs.length := by
    rcases hc with ⟨-, asleep, hk⟩ | ⟨-, asleep, hk⟩
    · exact (List.getElem?_eq_some_iff.mp hk).choose
    · exact (List.getElem?_eq_some_iff.mp hk).choose
  obtain ⟨hmachine, hwaiting, hbreakpoints⟩ : c.machine = s.controller.machine ∧
      c.waiting = s.controller.waiting ∧ c.breakpoints = s.controller.breakpoints := by
    rcases hc with ⟨rfl, -⟩ | ⟨rfl, -⟩
    · exact ⟨rfl, rfl, rfl⟩
    · exact ⟨rfl, rfl, rfl⟩
  rw [← hmachine] at ho
  cases hreply with
  | breaksDown ho' =>
    rw [ho] at ho'
    cases ho'
  | concludes ho' hstops =>
    rw [ho] at ho'
    cases ho'
    refine .inl ⟨⟨_, List.getElem?_set_self hplace, .inr ⟨_, rfl⟩⟩, ?_, rfl, rfl⟩
    unfold Controller.Stops at hstops ⊢
    rw [hwaiting, hbreakpoints] at hstops
    exact hstops
  | @goesOn _ next _ ho' herror hnext _ hline =>
    rw [ho] at ho'
    cases ho'
    rw [hbreakpoints] at hline
    exact .inr ⟨⟨false, List.getElem?_set_self hplace⟩, rfl, next, hnext, hline,
      L.location_of_next ho hnext⟩

/-! ## 3. Between two steps of a run -/

/-- A run that drives the machine after a request has just taken a step, or it has driven the
    machine before and nobody has moved it. -/
theorem Exclusive.kept (h : s.Exclusive) (hmove : s.Move L r s') (hk : s'.Drives k) :
    r.asks k = true ∧ s.told.length < s'.told.length ∨
      s.Drives k ∧ s'.controller.machine = s.controller.machine := by
  have hexclusive := h.move hmove
  have hrunning := hexclusive.running hk
  cases hmove with
  | stays hr => exact .inr ⟨hk, rfl⟩
  | loads hallowed hload => cases hrunning
  | clears hr told => cases hrunning
  | marks lines => exact .inr ⟨hk, rfl⟩
  | waits hrunning' => exact .inr ⟨hk, rfl⟩
  | answers hrunning' => exact .inr ⟨hk, rfl⟩
  | steps hallowed ho => exact absurd hrunning (Controller.statusAfter_ne_running _)
  | breaks hallowed ho => exact absurd hrunning (Action.not_running hallowed)
  | creates =>
    obtain ⟨asleep, hk⟩ := hk
    exact .inr ⟨⟨asleep, get_create hk nofun⟩, rfl⟩
  | sleeps hk' =>
    obtain ⟨asleep, hk⟩ := hk
    rcases get_set hk with ⟨rfl, -⟩ | ⟨-, hk⟩
    · exact .inr ⟨⟨false, hk'⟩, rfl⟩
    · exact .inr ⟨⟨asleep, hk⟩, rfl⟩
  | @begins j r _ reply hr hk' hallowed hreply =>
    obtain ⟨asleep, hk⟩ := hk
    rcases get_set hk with ⟨rfl, -⟩ | ⟨-, hk⟩
    · exact .inl ⟨Request.asks_of_eq hr, hreply.told_lt⟩
    · -- no other run can be of the new generation
      have hle := h.generation_le hk rfl
      have hgeneration : (s.take j reply).controller.generation = _ := hreply.generation_eq
      rw [hgeneration] at hle
      exact absurd hle (Nat.not_succ_le_self _)
  | @drives j reply hk' hreply =>
    obtain ⟨asleep, hk⟩ := hk
    rcases get_set hk with ⟨rfl, -⟩ | ⟨hne, hk⟩
    · exact .inl ⟨Request.asks_of_eq (.inr rfl), hreply.told_lt⟩
    · have hgeneration : (s.take j reply).controller.generation = _ := hreply.generation_eq
      rw [hgeneration] at hk
      exact absurd (h.unique ⟨asleep, hk⟩ ⟨true, hk'⟩) hne
  | @leaves j generation _ _ _ hr hk' hrun hover =>
    obtain ⟨asleep, hk⟩ := hk
    rcases get_set hk with ⟨-, hk⟩ | ⟨-, hk⟩
    · cases hk
    · have hgeneration : (s.lose j generation).controller.generation = _ :=
        Controller.leave_generation s.controller generation
      rw [hgeneration] at hk
      exact .inr ⟨⟨asleep, hk⟩, Controller.leave_machine s.controller _⟩
  | drops hr hk' hrun =>
    obtain ⟨asleep, hk⟩ := hk
    rcases get_set hk with ⟨-, hk⟩ | ⟨-, hk⟩
    · cases hk
    · exact .inr ⟨⟨asleep, hk⟩, rfl⟩

/-- Run number `k` has begun, or it was refused or closed before it could. -/
def Started (s : Stage σ) (k : Nat) : Prop := ∃ held, s.runs[k]? = some held ∧ held.run ≠ .unstarted

theorem Started.set (h : s.Started k) {j : Nat} {x : HeldRun} (hruns : s'.runs = s.runs.set j x)
    (hx : j = k → x.run ≠ .unstarted) : s'.Started k := by
  obtain ⟨held, hk, hrun⟩ := h
  unfold Started
  rw [hruns]
  by_cases hj : j = k
  · subst hj
    obtain ⟨hlt, -⟩ := List.getElem?_eq_some_iff.mp hk
    exact ⟨x, List.getElem?_set_self hlt, hx rfl⟩
  · exact ⟨held, by rw [List.getElem?_set_ne hj, hk], hrun⟩

theorem Started.move (h : s.Started k) (hmove : s.Move L r s') : s'.Started k := by
  cases hmove with
  | creates =>
    obtain ⟨held, hk, hrun⟩ := h
    obtain ⟨hlt, -⟩ := List.getElem?_eq_some_iff.mp hk
    exact ⟨held, (List.getElem?_append_left hlt).trans hk, hrun⟩
  | sleeps hk => exact h.set rfl fun _ => nofun
  | begins hr hk hallowed hreply => exact h.set rfl fun _ => hreply.run_ne_unstarted
  | drives hk hreply => exact h.set rfl fun _ => hreply.run_ne_unstarted
  | leaves hr hk hrun hover => exact h.set rfl fun _ => nofun
  | drops hr hk hrun => exact h.set rfl fun _ => nofun
  | _ => exact h

/-- A step that is not the first of its run is taken while the run drives the machine. -/
theorem Started.drives (h : s.Started k) (hmove : s.Move L r s') (hr : r.asks k = true)
    (hlt : s.told.length < s'.told.length) : s.Drives k := by
  obtain ⟨c, reply, ⟨-, hk⟩ | ⟨-, asleep, hk⟩, -⟩ := hmove.stride hr hlt
  · exact hk
  · obtain ⟨held, hk', hrun⟩ := h
    rw [hk] at hk'
    cases hk'
    exact absurd rfl hrun

end Stage

end Esolang
