/-
  File:      Esolang/Proofs/Controller/Exclusion.lean
  Subject:   There is never more than one run that drives the machine.

  Runs outlive what they were created for: a run can be asked or closed after its program was given
  up, after another run has begun, or after it has given its last result. The generation tells them
  apart. A run of the controller's own generation that rests between two steps is there exactly
  while the status is `running`, and all other runs end without touching anything.

  * `Stage.Drives`: a run that drives the machine.
  * `Stage.Exclusive`: the invariant; `Stage.Exclusive.move`: every single request preserves it.
  * `one_run_drives`: what holds after every schedule of single requests.
-/
import Esolang.Deadfish
import Esolang.Proofs.Controller.Interleaving

namespace Esolang

/-- The generation of a run that has begun and is not over. -/
def Run.generation? : Run → Option Nat
  | .active generation | .concluded generation => some generation
  | .unstarted | .finished => none

theorem Action.not_running {a : Action} {status : Status} (h : a.allowedIn status = true) :
    status ≠ .running := by
  rintro rfl
  cases a with
  | prepare => cases h
  | run => cases h
  | step => cases h

namespace Stage

variable {σ : Type} {L : Language σ} {s : Stage σ}

/-! ## 1. The invariant -/

/-- Run number `k` drives the machine: it has begun, rests between two steps, and is of the
    controller's generation. -/
def Drives (s : Stage σ) (k : Nat) : Prop :=
  ∃ asleep, s.runs[k]? = some ⟨.active s.controller.generation, asleep⟩

/-- At most one run drives the machine, and one does exactly while the status is `running`. -/
structure Exclusive (s : Stage σ) : Prop where
  /-- No run is of a later generation than the controller. -/
  generation_le : ∀ {k : Nat} {held : HeldRun} {generation : Nat}, s.runs[k]? = some held →
    held.run.generation? = some generation → generation ≤ s.controller.generation
  running : ∀ {k : Nat}, s.Drives k → s.controller.status = .running
  driven : s.controller.status = .running → ∃ k, s.Drives k
  unique : ∀ {k k' : Nat}, s.Drives k → s.Drives k' → k = k'
  /-- A run that has given its last result is not of the generation of one that drives the
      machine. -/
  concluded : ∀ {k : Nat} {asleep : Bool}, s.runs[k]? = some ⟨.concluded s.controller.generation,
    asleep⟩ →
    s.controller.status ≠ .running
  /-- Only a run that rests between two steps can be asleep. -/
  asleep : ∀ {k : Nat} {run : Run}, s.runs[k]? = some ⟨run, true⟩ →
    ∃ generation, run = .active generation

theorem exclusive_opening (L : Language σ) (draws : Draws) : (opening L draws).Exclusive where
  generation_le h := nomatch h
  running h := nomatch h
  driven h := nomatch h
  unique h := nomatch h
  concluded h := nomatch h
  asleep h := nomatch h

theorem get_set {runs : List HeldRun} {k k' : Nat} {x held : HeldRun}
    (h : (runs.set k x)[k']? = some held) : k' = k ∧ held = x ∨ k' ≠ k ∧ runs[k']? = some held := by
  rw [List.getElem?_set] at h
  split at h
  · next heq =>
    split at h
    · cases h
      exact .inl ⟨heq.symm, rfl⟩
    · cases h
  · next hne => exact .inr ⟨fun heq => hne heq.symm, h⟩

theorem get_create {runs : List HeldRun} {k : Nat} {held : HeldRun}
    (h : (runs ++ [⟨.unstarted, false⟩])[k]? = some held) (hne : held ≠ ⟨.unstarted, false⟩) :
    runs[k]? = some held := by
  rw [List.getElem?_append] at h
  split at h
  · exact h
  · exact absurd (List.mem_singleton.mp (List.mem_of_getElem? h)) hne

/-! ## 2. Moves that leave the runs alone -/

namespace Exclusive

/-- What matters of a controller are its generation and whether it is running. -/
theorem keep (h : s.Exclusive) {s' : Stage σ} (hruns : s'.runs = s.runs)
    (hgeneration : s'.controller.generation = s.controller.generation)
    (hstatus : s'.controller.status = .running ↔ s.controller.status = .running) :
    s'.Exclusive := by
  have hdrives : ∀ {k : Nat}, s'.Drives k ↔ s.Drives k := by
    intro k
    unfold Drives
    rw [hruns, hgeneration]
  refine ⟨fun hk hg => ?_, fun hk => ?_, fun hrunning => ?_, fun hk hk' => ?_, fun hk => ?_,
    fun hk => ?_⟩
  · rw [hgeneration]
    exact h.generation_le (hruns ▸ hk) hg
  · exact hstatus.mpr (h.running (hdrives.mp hk))
  · obtain ⟨k, hk⟩ := h.driven (hstatus.mp hrunning)
    exact ⟨k, hdrives.mpr hk⟩
  · exact h.unique (hdrives.mp hk) (hdrives.mp hk')
  · rw [hruns, hgeneration] at hk
    exact fun hrunning => h.concluded hk (hstatus.mp hrunning)
  · exact h.asleep (hruns ▸ hk)

/-- A new generation makes all runs obsolete. -/
theorem outdate (h : s.Exclusive) {s' : Stage σ} (hruns : s'.runs = s.runs)
    (hgeneration : s'.controller.generation = s.controller.generation + 1)
    (hstatus : s'.controller.status ≠ .running) : s'.Exclusive := by
  have hnone : ∀ {k : Nat}, ¬ s'.Drives k := by
    rintro k ⟨asleep, hk⟩
    have hle := h.generation_le (hruns ▸ hk) rfl
    omega
  refine ⟨fun hk hg => ?_, fun hk => absurd hk hnone, fun hrunning => absurd hrunning hstatus,
    fun hk => absurd hk hnone, fun _ => hstatus, fun hk => h.asleep (hruns ▸ hk)⟩
  have hle := h.generation_le (hruns ▸ hk) hg
  omega

theorem create (h : s.Exclusive) :
    Exclusive { s with runs := s.runs ++ [⟨.unstarted, false⟩] } := by
  have hold : ∀ {k : Nat} {held : HeldRun}, s.runs[k]? = some held →
      (s.runs ++ [⟨.unstarted, false⟩])[k]? = some held := by
    intro k held hk
    obtain ⟨hlt, -⟩ := List.getElem?_eq_some_iff.mp hk
    rw [List.getElem?_append_left hlt]
    exact hk
  refine ⟨fun hk hg => h.generation_le (get_create hk ?_) hg,
    fun ⟨asleep, hk⟩ => h.running ⟨asleep, get_create hk nofun⟩, fun hrunning => ?_,
    fun ⟨asleep, hk⟩ ⟨asleep', hk'⟩ => h.unique ⟨asleep, get_create hk nofun⟩
      ⟨asleep', get_create hk' nofun⟩,
    fun hk => h.concluded (get_create hk nofun), fun hk => h.asleep (get_create hk nofun)⟩
  · rintro rfl
    cases hg
  · obtain ⟨k, asleep, hk⟩ := h.driven hrunning
    exact ⟨k, asleep, hold hk⟩

/-! ## 3. Moves of one run -/

/-- While the machine is driven, all other runs are of earlier generations. -/
theorem others (h : s.Exclusive) {k k' : Nat} {held : HeldRun} {generation : Nat} (hk : s.Drives k)
    (hne : k' ≠ k) (hk' : s.runs[k']? = some held) (hg : held.run.generation? = some generation) :
    generation < s.controller.generation := by
  refine Nat.lt_of_le_of_ne (h.generation_le hk' hg) fun heq => ?_
  obtain ⟨run, asleep⟩ := held
  cases run with
  | unstarted => cases hg
  | finished => cases hg
  | active g =>
    cases hg
    subst heq
    exact hne (h.unique ⟨asleep, hk'⟩ hk)
  | concluded g =>
    cases hg
    subst heq
    exact h.concluded hk' (h.running hk)

/-- One run is moved, and all others are of earlier generations. -/
theorem set (h : s.Exclusive) {s' : Stage σ} {k : Nat} {held : HeldRun} {run : Run} {asleep : Bool}
    (hk : s.runs[k]? = some held) (hruns : s'.runs = s.runs.set k ⟨run, asleep⟩)
    (hothers : ∀ {k' : Nat} {held' : HeldRun} {generation : Nat}, k' ≠ k →
      s.runs[k']? = some held' →
      held'.run.generation? = some generation → generation < s'.controller.generation)
    (hrun : run = .active s'.controller.generation ∧ s'.controller.status = .running ∨
      (run = .concluded s'.controller.generation ∨ run = .finished) ∧
        s'.controller.status ≠ .running ∧ asleep = false) : s'.Exclusive := by
  -- no other run is of the controller's generation, so only the one that is moved can drive the
  -- machine
  have hdrives : ∀ {k' : Nat}, s'.Drives k' → k' = k ∧ run = .active s'.controller.generation := by
    rintro k' ⟨asleep', hk'⟩
    rw [hruns] at hk'
    rcases get_set hk' with ⟨rfl, h'⟩ | ⟨hne, h'⟩
    · cases h'
      exact ⟨rfl, rfl⟩
    · exact absurd (hothers hne h' rfl) (Nat.lt_irrefl _)
  refine ⟨fun hk' hg => ?_, fun hk' => ?_, fun hrunning => ?_, fun h₁ h₂ => ?_, fun hk' => ?_,
    fun hk' => ?_⟩
  · rw [hruns] at hk'
    rcases get_set hk' with ⟨-, rfl⟩ | ⟨hne, h'⟩
    · rcases hrun with ⟨rfl, -⟩ | ⟨rfl | rfl, -⟩
      · exact Nat.le_of_eq (Option.some.inj hg).symm
      · exact Nat.le_of_eq (Option.some.inj hg).symm
      · cases hg
    · exact Nat.le_of_lt (hothers hne h' hg)
  · obtain ⟨-, rfl⟩ := hdrives hk'
    rcases hrun with ⟨-, hrunning⟩ | ⟨h' | h', -⟩
    · exact hrunning
    · cases h'
    · cases h'
  · rcases hrun with ⟨rfl, -⟩ | ⟨-, hne, -⟩
    · obtain ⟨hlt, -⟩ := List.getElem?_eq_some_iff.mp hk
      exact ⟨k, asleep, by rw [hruns]; exact List.getElem?_set_self hlt⟩
    · exact absurd hrunning hne
  · rw [(hdrives h₁).1, (hdrives h₂).1]
  · rw [hruns] at hk'
    rcases get_set hk' with ⟨-, h'⟩ | ⟨hne, h'⟩
    · rcases hrun with ⟨rfl, -⟩ | ⟨-, hne, -⟩
      · cases h'
      · exact hne
    · exact absurd (hothers hne h' rfl) (Nat.lt_irrefl _)
  · rw [hruns] at hk'
    rcases get_set hk' with ⟨-, h'⟩ | ⟨-, h'⟩
    · rcases hrun with ⟨rfl, -⟩ | ⟨-, -, rfl⟩
      · cases h'
        exact ⟨_, rfl⟩
      · cases h'
    · exact h.asleep h'

/-- A run that does not drive the machine is over, and nothing else happens. -/
theorem lose (h : s.Exclusive) {k : Nat} (hk : ¬ s.Drives k) :
    Exclusive { s with runs := s.runs.set k ⟨.finished, false⟩ } := by
  have hold : ∀ {k' : Nat} {held : HeldRun}, (s.runs.set k ⟨.finished, false⟩)[k']? = some held →
      held ≠ ⟨.finished, false⟩ → s.runs[k']? = some held := by
    intro k' held hk' hne
    rcases get_set hk' with ⟨-, rfl⟩ | ⟨-, h'⟩
    · exact absurd rfl hne
    · exact h'
  refine ⟨fun hk' hg => h.generation_le (hold hk' ?_) hg,
    fun ⟨asleep, hk'⟩ => h.running ⟨asleep, hold hk' nofun⟩, fun hrunning => ?_,
    fun ⟨_, h₁⟩ ⟨_, h₂⟩ => h.unique ⟨_, hold h₁ nofun⟩ ⟨_, hold h₂ nofun⟩,
    fun hk' => h.concluded (hold hk' nofun), fun hk' => h.asleep (hold hk' nofun)⟩
  · rintro rfl
    cases hg
  · obtain ⟨k₀, asleep, hk₀⟩ := h.driven hrunning
    have hne : k ≠ k₀ := by
      rintro rfl
      exact hk ⟨asleep, hk₀⟩
    exact ⟨k₀, asleep, by rw [List.getElem?_set_ne hne]; exact hk₀⟩

/-- The step of a run that drives the machine, or has just begun to. -/
theorem take (h : s.Exclusive) {c : Controller σ} {k : Nat} {held : HeldRun}
    {reply : Reply σ (Delivery × Run)} (hk : s.runs[k]? = some held)
    (hothers : ∀ {k' : Nat} {held' : HeldRun} {generation : Nat}, k' ≠ k →
      s.runs[k']? = some held' →
      held'.run.generation? = some generation → generation < c.generation)
    (hrunning : c.status = .running) (hreply : c.Driven L c.generation reply) :
    (s.take k reply).Exclusive := by
  cases hreply with
  | breaksDown ho =>
    have hleave :
        Controller.leave { c with machine := (L.step c.machine).machine } c.generation = _ :=
      Controller.leave_of_driving ⟨rfl, hrunning⟩
    simp only [Stage.take, hleave]
    exact h.set hk rfl hothers (.inr ⟨.inr rfl, nofun, rfl⟩)
  | concludes ho hstops =>
    exact h.set hk rfl hothers (.inr ⟨.inl rfl, Controller.statusAfter_ne_running _, rfl⟩)
  | goesOn ho herror hnext hwaiting hline => exact h.set hk rfl hothers (.inl ⟨rfl, hrunning⟩)

/-! ## 4. All moves -/

theorem move (h : s.Exclusive) {r : Request} {s' : Stage σ} (hmove : s.Move L r s') :
    s'.Exclusive := by
  cases hmove with
  | stays hr => exact h
  | loads hallowed hload =>
    exact h.keep rfl rfl ⟨nofun, fun hrunning => absurd hrunning (Action.not_running hallowed)⟩
  | clears hr told => exact h.outdate rfl rfl nofun
  | marks lines => exact h.keep rfl rfl Iff.rfl
  | waits hrunning => exact h.keep rfl rfl Iff.rfl
  | answers hrunning => exact h.keep rfl rfl Iff.rfl
  | steps hallowed ho =>
    refine h.keep rfl rfl ⟨fun hrunning => ?_, fun hrunning => absurd hrunning
      (Action.not_running hallowed)⟩
    exact absurd hrunning (Controller.statusAfter_ne_running _)
  | breaks hallowed ho => exact h.keep rfl rfl Iff.rfl
  | creates => exact h.create
  | @sleeps k hk =>
    have hdrives : s.Drives k := ⟨false, hk⟩
    exact h.set hk rfl (fun hne hk' hg => h.others hdrives hne hk' hg)
      (.inl ⟨rfl, h.running hdrives⟩)
  | begins hr hk hallowed hreply =>
    -- the new generation is later than that of any run
    refine h.take hk (fun hne hk' hg => ?_) rfl hreply
    exact Nat.lt_succ_of_le (h.generation_le hk' hg)
  | drives hk hreply =>
    exact h.take hk (fun hne hk' hg => h.others ⟨true, hk⟩ hne hk' hg) (h.running ⟨true, hk⟩) hreply
  | @leaves k generation r run asleep hr hk hrun hover =>
    by_cases hdriving : generation = s.controller.generation ∧ s.controller.status = .running
    · obtain ⟨rfl, hrunning⟩ := hdriving
      simp only [Stage.lose, Controller.leave_of_driving ⟨rfl, hrunning⟩]
      rcases hrun with rfl | rfl
      · exact h.set hk rfl (fun hne hk' hg => h.others ⟨asleep, hk⟩ hne hk' hg)
          (.inr ⟨.inr rfl, nofun, rfl⟩)
      · exact absurd hrunning (h.concluded hk)
    · simp only [Stage.lose, Controller.leave_of_not_driving hdriving, Controller.unchanged,
        List.append_nil]
      refine h.lose ?_
      rintro ⟨asleep', hk'⟩
      rw [hk] at hk'
      cases hk'
      rcases hrun with hrun | hrun
      · exact hdriving ⟨(Run.active.inj hrun).symm, h.running ⟨asleep, hk⟩⟩
      · cases hrun
  | drops hr hk hrun =>
    refine h.lose ?_
    rintro ⟨asleep, hk'⟩
    rw [hk] at hk'
    cases hk'
    rcases hrun with hrun | ⟨hrun, -⟩
    · cases hrun
    · cases hrun

/-- While a run drives the machine, a step is only taken when that run wakes. -/
theorem only_driver (h : s.Exclusive) {k : Nat} (hk : s.Drives k) {r : Request} {s' : Stage σ}
    (hmove : s.Move L r s') (hr : r ≠ .wake k) :
    s'.told = s.told ∧ (s'.controller.machine = s.controller.machine ∨
      (r = .stop ∨ r = .reset) ∧ s'.controller.machine = L.clear s.controller.machine) := by
  have hrunning := h.running hk
  cases hmove with
  | stays hr' => exact ⟨rfl, .inl rfl⟩
  | loads hallowed hload => exact absurd hrunning (Action.not_running hallowed)
  | clears hr' told => exact ⟨rfl, .inr ⟨hr', rfl⟩⟩
  | marks lines => exact ⟨rfl, .inl rfl⟩
  | waits hrunning' => exact ⟨rfl, .inl rfl⟩
  | answers hrunning' => exact ⟨rfl, .inl rfl⟩
  | steps hallowed ho => exact absurd hrunning (Action.not_running hallowed)
  | breaks hallowed ho => exact absurd hrunning (Action.not_running hallowed)
  | creates => exact ⟨rfl, .inl rfl⟩
  | sleeps hk' => exact ⟨rfl, .inl rfl⟩
  | begins hr' hk' hallowed hreply => exact absurd hrunning (Action.not_running hallowed)
  | drives hk' hreply =>
    obtain rfl := h.unique ⟨true, hk'⟩ hk
    exact absurd rfl hr
  | leaves hr' hk' hrun hover => exact ⟨rfl, .inl (Controller.leave_machine s.controller _)⟩
  | drops hr' hk' hrun => exact ⟨rfl, .inl rfl⟩

/-- A run that has begun and does not drive the machine does not drive it when it leaves either. -/
theorem not_driving (h : s.Exclusive) {k generation : Nat} {run : Run} {asleep : Bool}
    (hk : s.runs[k]? = some ⟨run, asleep⟩) (hg : run.generation? = some generation)
    (hd : ¬ s.Drives k) :
    ¬(generation = s.controller.generation ∧ s.controller.status = .running) := by
  rintro ⟨rfl, hrunning⟩
  cases run with
  | unstarted => cases hg
  | finished => cases hg
  | active g =>
    cases hg
    exact hd ⟨asleep, hk⟩
  | concluded g =>
    cases hg
    exact h.concluded hk hrunning

/-- A run that is over without having driven the machine leaves everything else as it is. -/
theorem lose_alone (h : s.Exclusive) {k generation : Nat} {run : Run} {asleep : Bool}
    (hk : s.runs[k]? = some ⟨run, asleep⟩) (hg : run.generation? = some generation)
    (hd : ¬ s.Drives k) :
    s.lose k generation = { s with runs := s.runs.set k ⟨.finished, false⟩ } := by
  simp only [Stage.lose, Controller.leave_of_not_driving (h.not_driving hk hg hd),
    Controller.unchanged, List.append_nil]

/-- Such a run ends without touching anything, however it is made to end. -/
theorem ends_alone (h : s.Exclusive) {k : Nat} {held : HeldRun} (hk : s.runs[k]? = some held)
    (hbegun : held.run ≠ .unstarted) (hd : ¬ s.Drives k) {r : Request}
    (hr : r = .close k ∨ r = if held.asleep then .wake k else .ask k) :
    play L r s = { s with runs := s.runs.set k ⟨.finished, false⟩ } := by
  obtain ⟨run, asleep⟩ := held
  rcases hr with rfl | rfl
  · show s.close k = _
    unfold Stage.close
    rw [hk]
    cases run with
    | unstarted => exact absurd rfl hbegun
    | active g => exact h.lose_alone hk rfl hd
    | concluded g => exact h.lose_alone hk rfl hd
    | finished => simp only [Controller.close, Controller.unchanged, List.append_nil]
  · cases asleep with
    | true =>
      obtain ⟨g, rfl⟩ := h.asleep hk
      have hne : g ≠ s.controller.generation := fun heq => hd ⟨true, heq ▸ hk⟩
      show s.wake L k = _
      unfold Stage.wake
      simp only [hk]
      rw [advance_stale hne]
      exact h.lose_alone hk rfl hd
    | false =>
      show s.ask L k = _
      unfold Stage.ask
      simp only [hk]
      cases run with
      | unstarted => exact absurd rfl hbegun
      | active g =>
        have hne : g ≠ s.controller.generation := fun heq => hd ⟨false, heq ▸ hk⟩
        simp only [if_neg hne]
        rw [advance_stale hne]
        exact h.lose_alone hk rfl hd
      | concluded g =>
        simp only
        rw [advance_concluded]
        exact h.lose_alone hk rfl hd
      | finished =>
        obtain ⟨hlt, heq⟩ := List.getElem?_eq_some_iff.mp hk
        simp only
        rw [← heq, List.set_getElem_self]

end Exclusive

/-! ## 5. All schedules -/

theorem Reached.exclusive (h : s.Reached L) : s.Exclusive := by
  obtain ⟨draws, schedule, hs, rfl⟩ := h
  exact playAll_preserves (fun r s hr h => h.move (play_move hr s)) hs (exclusive_opening L draws)

end Stage

/-- **There is never more than one run that drives the machine.** After every schedule of single
    requests the status is `running` exactly while a run drives the machine; there is only one such
    run, and only its waking takes a step. Every other run that has begun ends alone when it is
    asked or closed, whether it is of an earlier generation or has given its last result. What the
    status does not allow is refused and changes nothing. -/
theorem one_run_drives {σ : Type} {L : Language σ} {s : Stage σ} (h : s.Reached L) :
    (s.controller.status = .running ↔ ∃ k, s.Drives k) ∧
    (∀ k, s.Drives k →
      (∀ k', s.Drives k' → k' = k) ∧
      ∀ r, r.single = true → r ≠ .wake k →
        (play L r s).told = s.told ∧
          ((play L r s).controller.machine = s.controller.machine ∨
            (r = .stop ∨ r = .reset) ∧
              (play L r s).controller.machine = L.clear s.controller.machine)) ∧
    (∀ k held, s.runs[k]? = some held → held.run ≠ .unstarted → ¬ s.Drives k →
      ∀ r, r = .close k ∨ r = (if held.asleep then .wake k else .ask k) →
        play L r s = { s with runs := s.runs.set k ⟨.finished, false⟩ }) ∧
    (s.controller.status = .running ∨ s.controller.status = .paused →
      ∀ code input, s.controller.prepare L code input =
        s.controller.unchanged (.error (.notNow .prepare s.controller.status))) ∧
    (s.controller.status ≠ .ready ∧ s.controller.status ≠ .paused →
      s.controller.step L = s.controller.unchanged (.error (.notNow .step s.controller.status)) ∧
      s.controller.advance L .unstarted =
        s.controller.unchanged (.trouble (.notNow .run s.controller.status), .finished)) := by
  have hexclusive := h.exclusive
  refine ⟨⟨hexclusive.driven, fun ⟨k, hk⟩ => hexclusive.running hk⟩,
    fun k hk => ⟨fun k' hk' => ?_, fun r hr hne => ?_⟩, fun k held hk hbegun hd r hr => ?_,
    fun hstatus code input => ?_, fun ⟨hready, hpaused⟩ => ⟨?_, ?_⟩⟩
  · exact hexclusive.unique hk' hk
  · exact hexclusive.only_driver hk (play_move hr s) hne
  · exact hexclusive.ends_alone hk hbegun hd hr
  · have hnot : Action.allowedIn .prepare s.controller.status = false := by
      rcases hstatus with hstatus | hstatus
      · rw [hstatus]; rfl
      · rw [hstatus]; rfl
    simp [Controller.prepare, hnot]
  · simp [Controller.step, Action.allowedIn, hready, hpaused]
  · simp [Controller.advance, Action.allowedIn, hready, hpaused]

/-- A run whose program was given up, one that has delivered its last result, and one that drives
    another program. -/
def overtaken : Stage Deadfish.State :=
  playAll Deadfish.language
    [.create, .create, .create, .prepare "ii" [], .ask 0, .stop, .prepare "so" [],
      .setBreakpoints [0], .ask 1, .setBreakpoints [], .ask 2]
    (.opening Deadfish.language [])

theorem one_run_drives_overtaken :
    overtaken.Reached Deadfish.language ∧ overtaken.controller.status = .running ∧
      overtaken.Drives 2 ∧
      overtaken.runs = [⟨.active 1, false⟩, ⟨.concluded 3, false⟩, ⟨.active 4, false⟩] ∧
      play Deadfish.language (.ask 0) overtaken =
        { overtaken with runs := overtaken.runs.set 0 ⟨.finished, false⟩ } ∧
      play Deadfish.language (.close 1) overtaken =
        { overtaken with runs := overtaken.runs.set 1 ⟨.finished, false⟩ } := by
  have hreached : overtaken.Reached Deadfish.language := ⟨[], _, rfl, rfl⟩
  have hruns : overtaken.runs = [⟨.active 1, false⟩, ⟨.concluded 3, false⟩,
    ⟨.active 4, false⟩] := by
    decide +kernel
  have hgeneration : overtaken.controller.generation = 4 := by decide +kernel
  have hdrives : overtaken.Drives 2 := ⟨false, by rw [hruns, hgeneration]; rfl⟩
  obtain ⟨hrunning, hone, hothers, -⟩ := one_run_drives hreached
  obtain ⟨honly, -⟩ := hone 2 hdrives
  refine ⟨hreached, hrunning.mpr ⟨2, hdrives⟩, hdrives, hruns, ?_, ?_⟩
  · exact hothers 0 ⟨.active 1, false⟩ (by rw [hruns]; rfl) nofun (fun h => nomatch honly 0 h)
      _ (.inr rfl)
  · exact hothers 1 ⟨.concluded 3, false⟩ (by rw [hruns]; rfl) nofun (fun h => nomatch honly 1 h)
      _ (.inl rfl)

end Esolang
