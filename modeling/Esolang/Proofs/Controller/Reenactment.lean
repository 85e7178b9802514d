/-
  File:      Esolang/Proofs/Controller/Reenactment.lean
  Subject:   A host that handles a whole run does nothing that single requests could not do.

  The run that a host handles is not among the runs of the stage, so a stage on which single
  requests reenact what the host does has more runs than the original. It contains the original: the
  controller, all that was delivered and answered, and the runs, each at a place of its own.

  * `Stage.Contains`: a stage with more runs than another.
  * `Stage.Leads`: single requests lead from one stage to another, and other runs stay as they are.
  * `Stage.Reenacts`: single requests do on every such stage what an action does on the original.
  * `Stage.handOut_reenacted`: a whole run in the hands of a host.
  * `playAll_singles`: every schedule.
-/
import Esolang.Proofs.Controller.Interleaving

namespace Esolang

namespace Stage

variable {σ : Type} {L : Language σ} {s t : Stage σ} {places : List Nat}
  {earlier : List (Ticket × Option StepResult)}

/-! ## 1. Stages with more runs -/

/-- The runs of `s` stand on `t` at the given places, and on `t` pause requests were answered
    earlier. -/
structure Contains (t : Stage σ) (places : List Nat) (earlier : List (Ticket × Option StepResult))
    (s : Stage σ) : Prop where
  controller : t.controller = s.controller
  told : t.told = s.told
  released : t.released = earlier ++ s.released
  length : places.length = s.runs.length
  runs : ∀ k : Nat, places[k]?.bind (t.runs[·]?) = s.runs[k]?
  nodup : places.Nodup

/-- Single requests lead from `t` to `t'`, and what stands on `t` at none of the places stays there,
    at none of the new ones. -/
structure Leads (L : Language σ) (t : Stage σ) (places : List Nat) (t' : Stage σ)
    (places' : List Nat) :
    Prop where
  schedule : ∃ schedule, schedule.all Request.single = true ∧ playAll L schedule t = t'
  untouched : ∀ j, j < t.runs.length → j ∉ places → j ∉ places' ∧ t'.runs[j]? = t.runs[j]?

namespace Leads

variable {t₁ t₂ t₃ : Stage σ} {places₁ places₂ places₃ : List Nat}

theorem refl (t : Stage σ) (places : List Nat) : Leads L t places t places :=
  ⟨⟨[], rfl, rfl⟩, fun _ _ hj => ⟨hj, rfl⟩⟩

theorem trans (h₁ : Leads L t₁ places₁ t₂ places₂) (h₂ : Leads L t₂ places₂ t₃ places₃) :
    Leads L t₁ places₁ t₃ places₃ := by
  obtain ⟨⟨schedule₁, hsingle₁, hplay₁⟩, huntouched₁⟩ := h₁
  obtain ⟨⟨schedule₂, hsingle₂, hplay₂⟩, huntouched₂⟩ := h₂
  refine ⟨⟨schedule₁ ++ schedule₂, ?_, ?_⟩, fun j hlt hj => ?_⟩
  · rw [List.all_append, hsingle₁, hsingle₂]
    rfl
  · rw [playAll_append, hplay₁, hplay₂]
  · obtain ⟨hj₂, hget₂⟩ := huntouched₁ j hlt hj
    have hlt₂ : j < t₂.runs.length := by
      rw [List.getElem?_eq_getElem hlt] at hget₂
      exact (List.getElem?_eq_some_iff.mp hget₂).choose
    obtain ⟨hj₃, hget₃⟩ := huntouched₂ j hlt₂ hj₂
    exact ⟨hj₃, hget₃.trans hget₂⟩

/-- One more place may be touched. -/
theorem widen (h : Leads L t₁ places₁ t₂ places₂) (j : Nat) :
    Leads L t₁ (j :: places₁) t₂ (j :: places₂) := by
  refine ⟨h.schedule, fun i hlt hi => ?_⟩
  obtain ⟨hne, hi⟩ := List.ne_and_not_mem_of_not_mem_cons hi
  obtain ⟨hi₂, hget⟩ := h.untouched i hlt hi
  exact ⟨List.not_mem_cons_of_ne_of_not_mem hne hi₂, hget⟩

/-- A schedule that leaves all runs where they are. -/
theorem still (schedule : List Request) (hsingle : schedule.all Request.single = true)
    (hplay : playAll L schedule t₁ = t₂) (hruns : t₂.runs = t₁.runs) :
    Leads L t₁ places₁ t₂ places₁ :=
  ⟨⟨schedule, hsingle, hplay⟩, fun j _ hj => ⟨hj, by rw [hruns]⟩⟩

/-- A schedule that moves one run, which stands at a place that may be touched. -/
theorem moving (schedule : List Request) {j : Nat} {x : HeldRun} (hj : j ∈ places₁)
    (hsingle : schedule.all Request.single = true) (hplay : playAll L schedule t₁ = t₂)
    (hruns : t₂.runs = t₁.runs.set j x) : Leads L t₁ places₁ t₂ places₁ := by
  refine ⟨⟨schedule, hsingle, hplay⟩, fun i _ hi => ⟨hi, ?_⟩⟩
  have hne : j ≠ i := by
    rintro rfl
    exact hi hj
  rw [hruns, List.getElem?_set_ne hne]

end Leads

namespace Contains

theorem place (h : t.Contains places earlier s) {k : Nat} {held : HeldRun}
    (hk : s.runs[k]? = some held) : ∃ j, places[k]? = some j ∧ t.runs[j]? = some held := by
  rw [← h.runs k] at hk
  exact Option.bind_eq_some_iff.mp hk

theorem lt_length (h : t.Contains places earlier s) {j : Nat} (hj : j ∈ places) :
    j < t.runs.length := by
  obtain ⟨k, hk⟩ := List.getElem?_of_mem hj
  obtain ⟨hlt, -⟩ := List.getElem?_eq_some_iff.mp hk
  rw [h.length] at hlt
  obtain ⟨j', hj', hget⟩ := h.place (List.getElem?_eq_getElem hlt)
  rw [hk] at hj'
  cases hj'
  exact (List.getElem?_eq_some_iff.mp hget).choose

/-- Which answers count as earlier ones is a matter of view. -/
theorem recount (h : t.Contains places earlier s)
    {earlier' released : List (Ticket × Option StepResult)}
    (heq : earlier' ++ released = earlier ++ s.released) :
    t.Contains places earlier' { s with released } :=
  { h with released := h.released.trans heq.symm }

/-- The controller answers alike on both stages. -/
theorem heed (h : t.Contains places earlier s) {α : Type} (f : Controller σ → Reply σ α) :
    (t.heed (f t.controller)).Contains places earlier (s.heed (f s.controller)) := by
  refine { h with controller := ?_, released := ?_ }
  · show (f t.controller).controller = _
    rw [h.controller]
    rfl
  · show t.released ++ (f t.controller).released =
      earlier ++ (s.released ++ (f s.controller).released)
    rw [h.controller, h.released, List.append_assoc]

/-- The same happens to a run and to its image. -/
theorem set (h : t.Contains places earlier s) {k j : Nat} (hj : places[k]? = some j)
    {s' t' : Stage σ} {x : HeldRun} (hs : s'.runs = s.runs.set k x) (ht : t'.runs = t.runs.set j x)
    (hcontroller : t'.controller = s'.controller) (htold : t'.told = s'.told)
    (hreleased : t'.released = earlier ++ s'.released) : t'.Contains places earlier s' := by
  refine ⟨hcontroller, htold, hreleased, ?_, fun k' => ?_, h.nodup⟩
  · rw [hs, List.length_set, h.length]
  · have hlt : k < places.length := (List.getElem?_eq_some_iff.mp hj).choose
    rw [hs, ht]
    by_cases hk : k = k'
    · subst hk
      rw [hj, List.getElem?_set_self (h.length ▸ hlt)]
      exact List.getElem?_set_self (h.lt_length (List.mem_of_getElem? hj))
    · rw [List.getElem?_set_ne hk, ← h.runs k']
      cases hj' : places[k']? with
      | none => rfl
      | some j' =>
        have hne : j ≠ j' := by
          rintro rfl
          exact hk ((List.getElem?_inj hlt h.nodup).mp (hj.trans hj'.symm))
        exact List.getElem?_set_ne hne

/-- Something happens elsewhere on `t`. -/
theorem elsewhere (h : t.Contains places earlier s) {j : Nat} (hj : j ∉ places) {s' t' : Stage σ}
    {x : HeldRun} {earlier' : List (Ticket × Option StepResult)} (hs : s'.runs = s.runs)
    (ht : t'.runs = t.runs.set j x) (hcontroller : t'.controller = s'.controller)
    (htold : t'.told = s'.told) (hreleased : t'.released = earlier' ++ s'.released) :
    t'.Contains places earlier' s' := by
  refine ⟨hcontroller, htold, hreleased, ?_, fun k => ?_, h.nodup⟩
  · rw [hs, h.length]
  · rw [hs, ht, ← h.runs k]
    cases hk : places[k]? with
    | none => rfl
    | some j' =>
      have hne : j ≠ j' := by
        rintro rfl
        exact hj (List.mem_of_getElem? hk)
      exact List.getElem?_set_ne hne

theorem create (h : t.Contains places earlier s) :
    Contains { t with runs := t.runs ++ [⟨.unstarted, false⟩] } (places ++ [t.runs.length]) earlier
      { s with runs := s.runs ++ [⟨.unstarted, false⟩] } := by
  refine ⟨h.controller, h.told, h.released, by simp [h.length], fun k => ?_, ?_⟩
  · rw [List.getElem?_append, List.getElem?_append, ← h.length]
    split
    · rw [← h.runs k]
      cases hk : places[k]? with
      | none => rfl
      | some j => exact List.getElem?_append_left (h.lt_length (List.mem_of_getElem? hk))
    · cases k - places.length with
      | zero => exact List.getElem?_concat_length
      | succ n => rfl
  · refine List.nodup_append.mpr ⟨h.nodup, by simp, fun j hj j' hj' => ?_⟩
    rw [List.mem_singleton.mp hj']
    exact Nat.ne_of_lt (h.lt_length hj)

theorem advance (h : t.Contains places earlier s) {k j : Nat} (hj : places[k]? = some j)
    (run : Run) : (t.advance L j run).Contains places earlier (s.advance L k run) := by
  refine h.set hj rfl ?_ ?_ ?_ ?_
  · show t.runs.set j ⟨(t.controller.advance L run).answer.2, false⟩ = _
    rw [h.controller]
  · show (t.controller.advance L run).controller = _
    rw [h.controller]
    rfl
  · show t.told ++ (t.controller.advance L run).answer.1.told = _
    rw [h.controller, h.told]
    rfl
  · show t.released ++ (t.controller.advance L run).released =
      earlier ++ (s.released ++ (s.controller.advance L run).released)
    rw [h.controller, h.released, List.append_assoc]

end Contains

/-! ## 2. Single requests -/

/-- Single requests do on every stage that contains another what an action does on that one. -/
def Reenacts (L : Language σ) (act : Stage σ → Stage σ) : Prop :=
  ∀ places earlier (s t : Stage σ), t.Contains places earlier s →
    ∃ t' places', Leads L t places t' places' ∧ t'.Contains places' earlier (act s)

theorem Reenacts.id : Reenacts L (fun s => s) :=
  fun places _ _ t h => ⟨t, places, .refl t places, h⟩

theorem Reenacts.comp {act₁ act₂ : Stage σ → Stage σ} (h₁ : Reenacts L act₁)
    (h₂ : Reenacts L act₂) : Reenacts L (fun s => act₂ (act₁ s)) := by
  intro places earlier s t h
  obtain ⟨t₁, places₁, hleads₁, hcontains₁⟩ := h₁ _ _ _ _ h
  obtain ⟨t₂, places₂, hleads₂, hcontains₂⟩ := h₂ _ _ _ _ hcontains₁
  exact ⟨t₂, places₂, hleads₁.trans hleads₂, hcontains₂⟩

/-- A request that leaves all runs where they are is its own reenactment. -/
theorem reenacts_of_contains {r : Request} (hr : r.single = true)
    (hact : ∀ places earlier (s t : Stage σ), t.Contains places earlier s →
      (play L r t).Contains places earlier (play L r s))
    (hruns : ∀ t : Stage σ, (play L r t).runs = t.runs) : Reenacts L (play L r) := by
  intro places earlier s t h
  have hsingle : [r].all Request.single = true := by simp [hr]
  exact ⟨play L r t, places, .still [r] hsingle rfl (hruns t), hact _ _ _ _ h⟩

/-- A request to one run is reenacted by the same request to its image, if the run is there. -/
theorem reenacts_of_place {k : Nat} {request : Nat → Request} (hr : ∀ j, (request j).single = true)
    (hnone : ∀ s : Stage σ, s.runs[k]? = none → play L (request k) s = s)
    (hact : ∀ places earlier (s t : Stage σ) (j : Nat) (held : HeldRun),
      t.Contains places earlier s →
      places[k]? = some j → s.runs[k]? = some held → t.runs[j]? = some held →
      (play L (request j) t).Contains places earlier (play L (request k) s) ∧
        ((play L (request j) t).runs = t.runs ∨
          ∃ x, (play L (request j) t).runs = t.runs.set j x)) :
    Reenacts L (play L (request k)) := by
  intro places earlier s t h
  cases hk : s.runs[k]? with
  | none =>
    rw [hnone s hk]
    exact ⟨t, places, .refl t places, h⟩
  | some held =>
    obtain ⟨j, hj, hget⟩ := h.place hk
    obtain ⟨hcontains, hruns⟩ := hact _ _ _ _ _ _ h hj hk hget
    have hsingle : [request j].all Request.single = true := by simp [hr]
    refine ⟨play L (request j) t, places, ?_, hcontains⟩
    rcases hruns with hruns | ⟨x, hruns⟩
    · exact .still [request j] hsingle rfl hruns
    · exact .moving [request j] (List.mem_of_getElem? hj) hsingle rfl hruns

theorem ask_reenacted (k : Nat) : Reenacts L (play L (.ask k)) := by
  refine reenacts_of_place (fun j => rfl) (fun s hk => ?_) fun places earlier s t j held h hj hk
    hget => ?_
  · show s.ask L k = s
    simp only [ask, hk]
  · show (t.ask L j).Contains places earlier (s.ask L k) ∧
      ((t.ask L j).runs = t.runs ∨ ∃ x, (t.ask L j).runs = t.runs.set j x)
    obtain ⟨run, asleep⟩ := held
    simp only [ask, hk, hget]
    cases run with
    | unstarted => exact ⟨h.advance hj _, .inr ⟨_, rfl⟩⟩
    | concluded generation => exact ⟨h.advance hj _, .inr ⟨_, rfl⟩⟩
    | finished => exact ⟨h, .inl rfl⟩
    | active generation =>
      cases asleep with
      | true => exact ⟨h, .inl rfl⟩
      | false =>
        simp only [h.controller]
        split
        · exact ⟨h.set hj rfl rfl rfl h.told h.released, .inr ⟨_, rfl⟩⟩
        · exact ⟨h.advance hj _, .inr ⟨_, rfl⟩⟩

theorem wake_reenacted (k : Nat) : Reenacts L (play L (.wake k)) := by
  refine reenacts_of_place (fun j => rfl) (fun s hk => ?_) fun places earlier s t j held h hj hk
    hget => ?_
  · show s.wake L k = s
    simp only [wake, hk]
  · show (t.wake L j).Contains places earlier (s.wake L k) ∧
      ((t.wake L j).runs = t.runs ∨ ∃ x, (t.wake L j).runs = t.runs.set j x)
    obtain ⟨run, asleep⟩ := held
    simp only [wake, hk, hget]
    cases asleep with
    | true => exact ⟨h.advance hj _, .inr ⟨_, rfl⟩⟩
    | false => exact ⟨h, .inl rfl⟩

theorem close_reenacted (k : Nat) : Reenacts L (play L (.close k)) := by
  refine reenacts_of_place (fun j => rfl) (fun s hk => ?_) fun places earlier s t j held h hj hk
    hget => ?_
  · show s.close k = s
    simp only [close, hk]
  · show (t.close j).Contains places earlier (s.close k) ∧
      ((t.close j).runs = t.runs ∨ ∃ x, (t.close j).runs = t.runs.set j x)
    simp only [close, hk, hget, h.controller]
    refine ⟨h.set hj rfl rfl rfl h.told ?_, .inr ⟨_, rfl⟩⟩
    show t.released ++ _ = earlier ++ (s.released ++ _)
    rw [h.released, List.append_assoc]

theorem step_reenacted : Reenacts L (play L .step) := by
  refine reenacts_of_contains rfl (fun places earlier s t h => ?_) fun t => rfl
  refine ⟨?_, ?_, ?_, h.length, h.runs, h.nodup⟩
  · show (t.controller.step L).controller = (s.controller.step L).controller
    rw [h.controller]
  · show (t.step L).told = (s.step L).told
    unfold step
    rw [h.controller, h.told]
  · show t.released ++ (t.controller.step L).released =
      earlier ++ (s.released ++ (s.controller.step L).released)
    rw [h.controller, h.released, List.append_assoc]

theorem create_reenacted : Reenacts L (play L .create) := by
  intro places earlier s t h
  refine ⟨play L .create t, places ++ [t.runs.length],
    ⟨⟨[.create], rfl, rfl⟩, fun j hlt hj => ⟨?_, ?_⟩⟩, h.create⟩
  · intro hmem
    rcases List.mem_append.mp hmem with hmem | hmem
    · exact hj hmem
    · exact absurd (List.mem_singleton.mp hmem) (Nat.ne_of_lt hlt)
  · exact List.getElem?_append_left hlt

theorem heed_reenacted {α : Type} {r : Request} (hr : r.single = true)
    (f : Controller σ → Reply σ α) (hplay : ∀ s : Stage σ, play L r s = s.heed (f s.controller)) :
    Reenacts L (play L r) := by
  refine reenacts_of_contains hr (fun places earlier s t h => ?_) fun t => ?_
  · rw [hplay, hplay]
    exact h.heed f
  · rw [hplay]
    rfl

theorem setBreakpoints_reenacted (lines : List Int) :
    Reenacts L (play L (.setBreakpoints lines)) := by
  refine reenacts_of_contains rfl (fun places earlier s t h => ?_) fun t => rfl
  refine { h with controller := ?_ }
  show t.controller.setBreakpoints lines = s.controller.setBreakpoints lines
  rw [h.controller]

/-! ## 3. Hosts -/

theorem playAll_pauses (tickets : List Ticket) (t : Stage σ) :
    playAll L (tickets.map .pause) t = t.heed (t.controller.pauseAll tickets) := by
  induction tickets generalizing t with
  | nil => exact (heed_unchanged t ()).symm
  | cons ticket rest ih =>
    show playAll L (rest.map .pause) (t.heed (t.controller.pause ticket)) = _
    rw [ih]
    show Stage.mk _ _ _ ((t.released ++ _) ++ _) = Stage.mk _ _ _ (t.released ++ (_ ++ _))
    rw [List.append_assoc]
    rfl

/-- Pause requests do the same on both stages. -/
theorem pauses_reenacted (tickets : List Ticket) :
    Reenacts L (fun s => s.heed (s.controller.pauseAll tickets)) := by
  intro places earlier s t h
  refine ⟨_, places, .still (tickets.map .pause) ?_ (playAll_pauses tickets t) rfl,
    h.heed fun c => c.pauseAll tickets⟩
  rw [List.all_map, List.all_eq_true]
  exact fun _ _ => rfl

/-- A run that does not sleep is brought to its next result. -/
theorem goes_on {j : Nat} {run : Run} (hj : t.runs[j]? = some ⟨run, false⟩) (places : List Nat) :
    Leads L t (j :: places) (t.advance L j run) (j :: places) := by
  have hmem : j ∈ j :: places := List.mem_cons_self
  cases run with
  | unstarted =>
    refine .moving [.ask j] hmem rfl ?_ rfl
    show t.ask L j = _
    simp only [ask, hj]
  | active generation =>
    by_cases h : generation = t.controller.generation
    · -- it falls asleep when it is asked, and nothing happens before it wakes
      refine .moving [.ask j, .wake j] hmem rfl ?_ rfl
      show (t.ask L j).wake L j = _
      obtain ⟨hlt, -⟩ := List.getElem?_eq_some_iff.mp hj
      simp only [ask, hj, if_pos h, wake, List.getElem?_set_self hlt, advance, List.set_set]
    · refine .moving [.ask j] hmem rfl ?_ rfl
      show t.ask L j = _
      simp only [ask, hj, if_neg h]
  | concluded generation =>
    refine .moving [.ask j] hmem rfl ?_ rfl
    show t.ask L j = _
    simp only [ask, hj]
  | finished =>
    refine .moving [] hmem rfl ?_ rfl
    obtain ⟨hlt, heq⟩ := List.getElem?_eq_some_iff.mp hj
    simp only [playAll, advance, Controller.advance, Controller.unchanged, Delivery.told,
      List.append_nil]
    rw [← heq, List.set_getElem_self]

theorem closes {j : Nat} {run : Run} (hj : t.runs[j]? = some ⟨run, false⟩) (places : List Nat) :
    Leads L t (j :: places) (t.close j) (j :: places) := by
  have hruns : (t.close j).runs = t.runs.set j ⟨(t.controller.close run).answer, false⟩ := by
    simp only [Stage.close, hj]
  exact .moving [.close j] List.mem_cons_self rfl rfl hruns

/-- What a host leaves behind. -/
def handed (reply : Reply σ (Controller.Execution (Attention σ))) : Stage σ :=
  { controller := reply.controller
    runs := reply.answer.account.runs
    told := reply.answer.account.told ++ (reply.answer.trouble.map Trouble.told).getD []
    released := reply.released }

/-- A result is handed to a host, and the host reacts. -/
theorem attend_reenacted {a : Attention σ} {r : StepResult} {c : Controller σ}
    (h : t.Contains places earlier ⟨c, a.runs, a.told ++ [.ok r], []⟩)
    (hx : ∀ x ∈ a.reactions, Reenacts L x.act) :
    ∃ t' places', Leads L t places t' places' ∧
      t'.Contains places' earlier
        ⟨(attend a r c).controller, (attend a r c).answer.account.runs,
          (attend a r c).answer.account.told, (attend a r c).released⟩ ∧
      ∀ x ∈ (attend a r c).answer.account.reactions, Reenacts L x.act := by
  obtain ⟨runs, told, reactions⟩ := a
  cases reactions with
  | nil => exact ⟨t, places, .refl t places, h, fun x hx => absurd hx List.not_mem_nil⟩
  | cons x rest =>
    obtain ⟨hfirst, hrest⟩ := List.forall_mem_cons.mp hx
    obtain ⟨t', places', hleads, hcontains⟩ := hfirst _ _ _ _ h
    exact ⟨t', places', hleads, hcontains, hrest⟩

/-- The run that a host handles stands at a place of its own and is brought to its next result. -/
theorem Contains.advance_apart {c : Controller σ} {runs : List HeldRun}
    {told : List (Except Breakdown StepResult)} {j : Nat}
    (h : t.Contains places earlier ⟨c, runs, told, []⟩) (hj : j ∉ places) (run : Run) :
    (t.advance L j run).Contains places earlier
      ⟨(c.advance L run).controller, runs, told ++ (c.advance L run).answer.1.told,
        (c.advance L run).released⟩ := by
  have hc : t.controller = c := h.controller
  have htold : t.told = told := h.told
  have hreleased : t.released = earlier ++ [] := h.released
  refine h.elsewhere hj rfl rfl ?_ ?_ ?_
  · show (t.controller.advance L run).controller = _
    rw [hc]
  · show t.told ++ (t.controller.advance L run).answer.1.told = _
    rw [hc, htold]
  · show t.released ++ (t.controller.advance L run).released = _
    rw [hc, hreleased, List.append_nil]

/-- That run is closed. -/
theorem Contains.close_apart {c : Controller σ} {runs : List HeldRun}
    {told : List (Except Breakdown StepResult)} {run : Run} {j : Nat}
    (h : t.Contains places earlier ⟨c, runs, told, []⟩) (hj : j ∉ places)
    (hget : t.runs[j]? = some ⟨run, false⟩) :
    (t.close j).Contains places earlier ⟨(c.close run).controller, runs, told,
      (c.close run).released⟩ := by
  have hc : t.controller = c := h.controller
  have hreleased : t.released = earlier ++ [] := h.released
  unfold Stage.close
  rw [hget, hc]
  refine h.elsewhere hj rfl rfl rfl h.told ?_
  show t.released ++ (c.close run).released = _
  rw [hreleased, List.append_nil]

/-- **A whole run in the hands of a host**: single requests to a run that stands apart do the
    same. -/
theorem handOut_reenacted (budget : Nat) {e : Controller.Execution (Attention σ)} {run : Run}
    {c : Controller σ} {j : Nat} (htrouble : e.trouble = none)
    (hx : ∀ x ∈ e.account.reactions, Reenacts L x.act)
    (h : t.Contains places earlier ⟨c, e.account.runs, e.account.told, []⟩) (hj : j ∉ places)
    (hget : t.runs[j]? = some ⟨run, false⟩) :
    ∃ t' places', Leads L t (j :: places) t' (j :: places') ∧
      t'.Contains places' earlier (handed (Controller.handOut L attend budget e run c)) := by
  induction budget generalizing e run c t places earlier with
  | zero =>
    refine ⟨t, places, .refl t _, ?_⟩
    show t.Contains places earlier
      ⟨c, e.account.runs, e.account.told ++ (e.trouble.map Trouble.told).getD [], []⟩
    rw [htrouble]
    simpa using h
  | succ budget ih =>
    obtain ⟨hlt, -⟩ := List.getElem?_eq_some_iff.mp hget
    have hleads₁ : Leads L t (j :: places) (t.advance L j run) (j :: places) := goes_on hget places
    have hcontains₁ := h.advance_apart (L := L) hj run
    have hget₁ : (t.advance L j run).runs[j]? = some ⟨(c.advance L run).answer.2, false⟩ := by
      show (t.runs.set j ⟨(t.controller.advance L run).answer.2, false⟩)[j]? = _
      rw [List.getElem?_set_self hlt, h.controller]
    cases hanswer : (c.advance L run).answer with
    | mk delivery run' =>
      rw [hanswer] at hcontains₁ hget₁
      simp only [Controller.handOut, hanswer]
      cases delivery with
      | ended =>
        refine ⟨_, places, hleads₁, ?_⟩
        simp only [handed, htrouble]
        exact hcontains₁
      | trouble trouble => exact ⟨_, places, hleads₁, hcontains₁⟩
      | result r =>
        -- the answers given so far count as earlier ones while the host reacts
        have hseen : (t.advance L j run).Contains places (earlier ++ (c.advance L run).released)
            ⟨(c.advance L run).controller, e.account.runs, e.account.told ++ [.ok r], []⟩ :=
          hcontains₁.recount (List.append_nil _)
        obtain ⟨t₂, places₂, hleads₂, hcontains₂, hleft⟩ := attend_reenacted hseen hx
        obtain ⟨hj₂, hget₂⟩ := hleads₂.untouched j (List.getElem?_eq_some_iff.mp hget₁).choose hj
        rw [hget₁] at hget₂
        have hleads := hleads₁.trans (hleads₂.widen j)
        simp only
        generalize attend e.account r (c.advance L run).controller = seen at hcontains₂ hleft ⊢
        generalize (c.advance L run).released = out at hcontains₂ ⊢
        split
        · -- the pause requests that the host has made come before the next result
          obtain ⟨t₃, places₃, hleads₃, hcontains₃⟩ :=
            pauses_reenacted seen.answer.tickets _ _ _ _ hcontains₂
          obtain ⟨hj₃, hget₃⟩ := hleads₃.untouched j (List.getElem?_eq_some_iff.mp hget₂).choose hj₂
          rw [hget₂] at hget₃
          have hgood : Controller.Execution.trouble ⟨seen.answer.account, some r, e.trouble,
            e.givenUp⟩ = none :=
            htrouble
          obtain ⟨t₄, places₄, hleads₄, hcontains₄⟩ :=
            ih hgood hleft (hcontains₃.recount (List.append_nil _)) hj₃ hget₃
          refine ⟨t₄, places₄, (hleads.trans (hleads₃.widen j)).trans hleads₄,
            hcontains₄.recount ?_⟩
          simp only [heed, handed, List.append_assoc]
        · -- the run is closed first when the host has failed
          have hclosed := (hcontains₂.recount (List.append_nil _)).close_apart hj₂ hget₂
          have hleads₃ : Leads L t₂ (j :: places₂) (t₂.close j) (j :: places₂) :=
            closes hget₂ places₂
          obtain ⟨t₄, places₄, hleads₄, hcontains₄⟩ :=
            pauses_reenacted seen.answer.tickets _ _ _ _ hclosed
          refine ⟨t₄, places₄, (hleads.trans hleads₃).trans (hleads₄.widen j), ?_⟩
          simp only [handed, htrouble, Option.map_none, Option.getD_none, List.append_nil]
          refine hcontains₄.recount ?_
          simp only [heed, List.append_assoc]

/-- A host's handling of a new run, reenacted by a run that is created for the purpose. -/
theorem executeAll_reenacted (budget : Nat) {reactions : List (Reaction σ)}
    (hx : ∀ x ∈ reactions, Reenacts L x.act) :
    Reenacts L (fun s => s.executeAll L budget reactions) := by
  intro places earlier s t h
  have hcreated : Leads L t places (play L .create t) places :=
    ⟨⟨[.create], rfl, rfl⟩, fun j hlt hj => ⟨hj, List.getElem?_append_left hlt⟩⟩
  have hnew : t.runs.length ∉ places := fun hmem => Nat.lt_irrefl _ (h.lt_length hmem)
  have hcontains : (play L .create t).Contains places (earlier ++ s.released)
      ⟨s.controller, s.runs, s.told, []⟩ := by
    refine ⟨h.controller, h.told, ?_, h.length, fun k => ?_, h.nodup⟩
    · show t.released = _
      rw [h.released, List.append_nil]
    · rw [← h.runs k]
      cases hk : places[k]? with
      | none => rfl
      | some j => exact List.getElem?_append_left (h.lt_length (List.mem_of_getElem? hk))
  have hgood : Controller.Execution.trouble
      (⟨⟨s.runs, s.told, reactions⟩, none, none, false⟩ : Controller.Execution (Attention σ)) =
        none := rfl
  obtain ⟨t', places', hleads, hcontains'⟩ :=
    handOut_reenacted budget hgood hx hcontains hnew List.getElem?_concat_length
  refine ⟨t', places', ⟨(hcreated.widen t.runs.length).trans hleads |>.schedule,
    fun j hlt hj => ?_⟩,
    hcontains'.recount ?_⟩
  · -- the run that was created is behind all others
    have hj' : j ∉ t.runs.length :: places :=
      List.not_mem_cons_of_ne_of_not_mem (Nat.ne_of_lt hlt) hj
    obtain ⟨hout, hget⟩ := ((hcreated.widen t.runs.length).trans hleads).untouched j hlt hj'
    exact ⟨(List.ne_and_not_mem_of_not_mem_cons hout).2, hget⟩
  · exact (List.append_assoc _ _ _).symm

end Stage

/-! ## 4. Schedules -/

section Schedules

variable {σ : Type} (L : Language σ)

mutual

theorem play_reenacted (r : Request) : Stage.Reenacts L (play L r) := by
  cases r with
  | prepare code input =>
    exact Stage.heed_reenacted rfl (fun c => c.prepare L code input) fun _ => rfl
  | stop => exact Stage.heed_reenacted rfl (fun c => c.stop L) fun _ => rfl
  | reset => exact Stage.heed_reenacted rfl (fun c => c.reset L) fun _ => rfl
  | setBreakpoints lines => exact Stage.setBreakpoints_reenacted lines
  | pause t => exact Stage.heed_reenacted rfl (fun c => c.pause t) fun _ => rfl
  | step => exact Stage.step_reenacted
  | create => exact Stage.create_reenacted
  | ask k => exact Stage.ask_reenacted k
  | wake k => exact Stage.wake_reenacted k
  | close k => exact Stage.close_reenacted k
  | executeAll budget callbacks =>
    exact Stage.executeAll_reenacted budget (reactions_reenacted callbacks)

theorem playAll_reenacted (schedule : List Request) : Stage.Reenacts L (playAll L schedule) := by
  cases schedule with
  | nil => exact .id
  | cons r rest => exact (play_reenacted r).comp (playAll_reenacted rest)

theorem reactions_reenacted (callbacks : List Callback) :
    ∀ x ∈ reactions L callbacks, Stage.Reenacts L x.act := by
  cases callbacks with
  | nil => exact fun x hx => absurd hx List.not_mem_nil
  | cons callback rest =>
    cases callback with
    | mk requests tickets raises =>
      exact List.forall_mem_cons.mpr ⟨playAll_reenacted requests, reactions_reenacted rest⟩

end

/-- **Hosts add nothing**: what any schedule makes of the controller, delivers and answers, a
    schedule of single requests does as well. -/
theorem playAll_singles (draws : Draws) (schedule : List Request) :
    ∃ singles, singles.all Request.single = true ∧
      (playAll L singles (.opening L draws)).controller = (playAll L schedule
        (.opening L draws)).controller ∧
      (playAll L singles (.opening L draws)).told = (playAll L schedule (.opening L draws)).told ∧
      (playAll L singles (.opening L draws)).released =
        (playAll L schedule (.opening L draws)).released := by
  have hself : (Stage.opening L draws).Contains [] [] (.opening L draws) :=
    ⟨rfl, rfl, rfl, rfl, fun _ => rfl, .nil⟩
  obtain ⟨s, places, ⟨⟨singles, hsingle, rfl⟩, -⟩, hcontains⟩ :=
    playAll_reenacted L schedule _ _ _ _ hself
  exact ⟨singles, hsingle, hcontains.controller, hcontains.told, hcontains.released⟩

end Schedules

end Esolang
