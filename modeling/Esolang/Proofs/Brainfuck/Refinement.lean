/-
  File:      Esolang/Proofs/Brainfuck/Refinement.lean
  Subject:   The machine with jumps does what the tree of a program says.

  The two sides meet where a tree is laid out in the program. From the first place of the tree, the
  machine comes to the place behind it or falls off the tape, and on the way it does to its store
  what the evaluation of the tree does.

  * `Reaches`: steps that work, one after another; `Ending.Rests`: the machine has come to an end.
  * `Stands`: a tree is laid out in a program; `Comes`: what steps do, seen from the store.
  * `Runs.reaches`, `Reaches.runs`: the simulation, in both directions.
  * `jumps_refine_loops`: a program comes to its end, or falls off the tape, exactly as its tree
    does.
-/
import Esolang.Proofs.Brainfuck.Structured
import Esolang.Proofs.Language
import Esolang.Proofs.Lists

namespace Esolang.Brainfuck

/-! ## 1. Steps that work -/

/-- This many steps that all work write `out` and lead to the state `last`. -/
inductive Reaches : Nat → State → Text → State → Prop where
  | here {s : State} : Reaches 0 s [] s
  | step {n : Nat} {s s₁ last : State} {o : Option Text} {out : Text} (hstep : advance s =
        .ok (.writing o) s₁)
      (hrest : Reaches n s₁ out last) : Reaches (n + 1) s (o.getD [] ++ out) last

namespace Reaches

variable {n k : Nat} {s s₁ last : State} {t out : Text}

theorem trans (h : Reaches n s t s₁) (hrest : Reaches k s₁ out last) :
    Reaches (n + k) s (t ++ out) last := by
  induction h with
  | here =>
    rw [Nat.zero_add]
    exact hrest
  | step hstep _ ih =>
    rw [Nat.succ_add, List.append_assoc]
    exact .step hstep (ih hrest)

/-- The step from a state is one and the same, so steps up to where no step works begin with any
    others. -/
theorem split (h : Reaches n s out last) (hlast : ∀ o s', advance last ≠ .ok (.writing o) s')
    (hfirst : Reaches k s t s₁) :
    ∃ n' out', Reaches n' s₁ out' last ∧ n = k + n' ∧ out = t ++ out' := by
  induction hfirst generalizing n out with
  | here => exact ⟨n, out, h, (Nat.zero_add n).symm, rfl⟩
  | @step _ _ _ _ o _ hstep _ ih =>
    cases h with
    | here => exact absurd hstep (hlast o _)
    | step hstep' hrest =>
      obtain ⟨hprogress, rfl⟩ := Attempt.mk.inj (hstep.symm.trans hstep')
      cases hprogress
      obtain ⟨n', out', h', rfl, rfl⟩ := ih hrest
      exact ⟨n', out', h', by omega, (List.append_assoc _ _ _).symm⟩

end Reaches

/-- Why no step works at the end. -/
def Ending.failure : Ending → Failure
  | .through => .breakdown .nothingThere
  | .fellOff => .fault .tapeStart

/-- The machine has come to an end. -/
def Ending.Rests (e : Ending) (s : State) : Prop := advance s = ⟨.error e.failure, s⟩

theorem Ending.Rests.stuck {e : Ending} {s : State} (h : e.Rests s) (o : Option Text) (s' : State) :
    advance s ≠ .ok (.writing o) s' := by
  intro hok
  cases h.symm.trans hok

theorem Ending.Rests.eq {e e' : Ending} {s : State} (h : e.Rests s) (h' : e'.Rests s) : e = e' := by
  have hfailure : e.failure = e'.failure := Except.error.inj (Attempt.mk.inj (h.symm.trans h')).1
  cases e <;> cases e' <;> first | rfl | cases hfailure

theorem Reaches.of_rests {n : Nat} {s last : State} {out : Text} (h : Reaches n s out last)
    {e : Ending} (hs : e.Rests s) : n = 0 ∧ out = [] ∧ s = last := by
  cases h with
  | here => exact ⟨rfl, rfl, rfl⟩
  | step hstep _ => exact absurd hstep (hs.stuck _ _)

/-! ## 2. Trees in a program -/

/-- A tree is laid out in a program from place `base` on. -/
def Stands (program : List Instruction) (base : Nat) (b : Block) : Prop :=
  ∃ back, (program.map (·.entry)).drop base = b.lay base ++ back

namespace Stands

variable {program : List Instruction} {base : Nat}

theorem act {a : Action} {rest : Block} (h : Stands program base (.act a rest)) :
    (program.map (·.entry))[base]? = some (a.command, none) ∧ Stands program (base + 1) rest := by
  obtain ⟨back, h⟩ := h
  exact ⟨List.getElem?_of_drop h, back, List.drop_of_cons h⟩

/-- A loop: its bracket, what is inside, the other bracket, and what follows. -/
theorem loop {body rest : Block} (h : Stands program base (.loop body rest)) :
    (program.map (·.entry))[base]? = some (.loopStart, some (base + 1 + body.size)) ∧
      Stands program (base + 1) body ∧
      (program.map (·.entry))[base + 1 + body.size]? = some (.loopEnd, some base) ∧
      Stands program (base + 1 + body.size + 1) rest := by
  obtain ⟨back, h⟩ := h
  rw [Block.lay, List.cons_append, List.append_assoc, List.cons_append] at h
  have hinside : (program.map (·.entry)).drop (base + 1) =
      body.lay (base + 1) ++ (.loopEnd, some base) ::
        (rest.lay (base + 1 + body.size + 1) ++ back) := List.drop_of_cons h
  have hend := List.drop_of_append hinside (body.length_lay (base + 1))
  exact ⟨List.getElem?_of_drop h, ⟨_, hinside⟩, List.getElem?_of_drop hend, back,
    List.drop_of_cons hend⟩

end Stands

/-- The places that evaluating a tree can begin at: its first one and, for a loop, its closing
    bracket, where the machine decides about the loop as well. -/
def Block.Entry (b : Block) (base place : Nat) : Prop :=
  place = base ∨ ∃ body rest, b = .loop body rest ∧ place = base + 1 + body.size

theorem Block.Entry.first {b : Block} {base place : Nat} (h : b.Entry base place)
    (hb : ∀ body rest, b ≠ .loop body rest) : place = base := by
  rcases h with h | ⟨body, rest, hloop, -⟩
  · exact h
  · exact absurd hloop (hb body rest)

/-- Steps, at least one, that all work: they write `t` and lead to the place `place` and the store
    `σ`. -/
structure Comes (s : State) (t : Text) (place : Nat) (σ : Store) (s' : State) : Prop where
  steps : ∃ k, Reaches (k + 1) s t s'
  program : s'.program = s.program
  position : s'.position = some place
  store : s'.store = σ

theorem Comes.trans {s s₁ s₂ : State} {t₁ t₂ : Text} {p₁ p₂ : Nat} {σ₁ σ₂ : Store}
    (h₁ : Comes s t₁ p₁ σ₁ s₁) (h₂ : Comes s₁ t₂ p₂ σ₂ s₂) : Comes s (t₁ ++ t₂) p₂ σ₂ s₂ := by
  obtain ⟨k₁, hk₁⟩ := h₁.steps
  obtain ⟨k₂, hk₂⟩ := h₂.steps
  exact ⟨⟨k₁ + 1 + k₂, hk₁.trans hk₂⟩, h₂.program.trans h₁.program, h₂.position, h₂.store⟩

theorem instruction_at {program : List Instruction} {place : Nat} {c : Command} {q : Option Nat}
    (h : (program.map (·.entry))[place]? = some (c, q)) :
    ∃ i, program[place]? = some i ∧ i.command.item = c ∧ i.partner = q := by
  rw [List.getElem?_map] at h
  obtain ⟨i, hi, hentry⟩ := Option.map_eq_some_iff.mp h
  exact ⟨i, hi, Prod.mk.inj hentry⟩

section Step

variable {s : State} {here : Nat} (hpos : s.position = some here)
include hpos

theorem comes_of_execute {i : Instruction} {s₁ : State} {place : Nat} {o : Option Text}
    (hi : s.program[here]? = some i) (h : execute s here i = .ok (s₁, place, o))
    (hprogram : s₁.program = s.program) :
    Comes s (o.getD []) place s₁.store { s₁ with position := some place } := by
  have hstep : advance s = .ok (.writing o) { s₁ with position := some place } := by
    simp only [advance, hpos, hi, h]
  have hreaches := Reaches.step hstep .here
  rw [List.append_nil] at hreaches
  exact ⟨⟨0, hreaches⟩, hprogram, rfl, rfl⟩

/-- An action falls off the tape where it does so on the store, and otherwise leads to the next
    place. -/
theorem comes_action {a : Action} {q : Option Nat}
    (hat : (s.program.map (·.entry))[here]? = some (a.command, q)) :
    (s.store.act a = none ∧ Ending.fellOff.Rests s) ∨
      ∃ σ t s', s.store.act a = some (σ, t) ∧ Comes s t (here + 1) σ s' := by
  obtain ⟨i, hi, hc, -⟩ := instruction_at hat
  rcases execute_action s here a hc with ⟨hnone, h⟩ | ⟨s₁, o, h, hprogram, hsome⟩
  · refine .inl ⟨hnone, ?_⟩
    unfold Ending.Rests
    simp only [advance, hpos, hi, h]
    rfl
  · exact .inr ⟨_, _, _, hsome, comes_of_execute hpos hi h hprogram⟩

theorem comes_start {c : Nat} (hat : (s.program.map (·.entry))[here]? = some (.loopStart, some c)) :
    ∃ s', Comes s [] (if s.store.cell = 0 then c + 1 else here + 1) s.store s' := by
  obtain ⟨i, hi, hc, hpartner⟩ := instruction_at hat
  have hcomes := comes_of_execute hpos hi (execute_start s here hc) rfl
  rw [store_touch, hpartner] at hcomes
  exact ⟨_, hcomes⟩

theorem comes_end {c : Nat} (hat : (s.program.map (·.entry))[here]? = some (.loopEnd, some c)) :
    ∃ s', Comes s [] (if s.store.cell = 0 then here + 1 else c) s.store s' := by
  obtain ⟨i, hi, hc, hpartner⟩ := instruction_at hat
  have hcomes := comes_of_execute hpos hi (execute_end s here hc) rfl
  rw [store_touch, hpartner] at hcomes
  exact ⟨_, hcomes⟩

variable {base : Nat} {body rest : Block} (hst : Stands s.program base (.loop body rest))
  (hentry : (Block.loop body rest).Entry base here)
include hst hentry

/-- Both brackets lead behind a loop that is over. -/
theorem comes_after (hzero : s.store.cell = 0) :
    ∃ s', Comes s [] (base + 1 + body.size + 1) s.store s' := by
  obtain ⟨hstart, -, hend, -⟩ := hst.loop
  rcases hentry with rfl | ⟨body', rest', hb, rfl⟩
  · obtain ⟨s', h⟩ := comes_start hpos hstart
    rw [if_pos hzero] at h
    exact ⟨s', h⟩
  · cases hb
    obtain ⟨s', h⟩ := comes_end hpos hend
    rw [if_pos hzero] at h
    exact ⟨s', h⟩

/-- Both brackets lead into a loop that is not over, the closing one by way of the other. -/
theorem comes_inside (hne : s.store.cell ≠ 0) : ∃ s', Comes s [] (base + 1) s.store s' := by
  have hfirst : ∀ s₁ : State, s₁.program = s.program → s₁.position = some base →
      s₁.store = s.store → ∃ s', Comes s₁ [] (base + 1) s.store s' := by
    intro s₁ hprogram hbase hstore
    rw [← hprogram] at hst
    obtain ⟨s', h⟩ := comes_start hbase hst.loop.1
    rw [hstore, if_neg hne] at h
    exact ⟨s', h⟩
  rcases hentry with rfl | ⟨body', rest', hb, rfl⟩
  · exact hfirst s rfl hpos rfl
  · cases hb
    obtain ⟨s₁, h₁⟩ := comes_end hpos hst.loop.2.2.1
    rw [if_neg hne] at h₁
    obtain ⟨s', h⟩ := hfirst s₁ h₁.program h₁.position h₁.store
    exact ⟨s', h₁.trans h⟩

end Step

/-! ## 3. Simulation -/

/-- Where an ending leads to: behind the tree, or nowhere. -/
def Ending.Leads (program : List Instruction) (place : Nat) (s : State) : Ending → Prop
  | .through => s.program = program ∧ s.position = some place
  | .fellOff => Ending.fellOff.Rests s

/-- **The machine follows an evaluation** from where the tree begins to where its ending leads. -/
theorem Runs.reaches {b : Block} {σ σ' : Store} {e : Ending} {out : Text} (h : Runs b σ e out σ')
    {s : State} {base place : Nat} (hst : Stands s.program base b) (hentry : b.Entry base place)
    (hpos : s.position = some place) (hstore : s.store = σ) :
    ∃ n s', Reaches n s out s' ∧ s'.store = σ' ∧ e.Leads s.program (base + b.size) s' := by
  induction h generalizing s base place with
  | done =>
    obtain rfl := hentry.first fun _ _ hb => by cases hb
    exact ⟨0, s, .here, hstore, rfl, hpos⟩
  | @act a rest σ σ₁ σ' e t out ha _ ih =>
    obtain rfl := hentry.first fun _ _ hb => by cases hb
    subst hstore
    obtain ⟨hat, hst'⟩ := hst.act
    rcases comes_action hpos hat with ⟨hnone, -⟩ | ⟨σ₂, t₂, s₁, hsome, hcomes⟩
    · cases hnone.symm.trans ha
    · cases hsome.symm.trans ha
      rw [← hcomes.program] at hst'
      obtain ⟨n, s', hreaches, hs', hleads⟩ := ih hst' (.inl rfl) hcomes.position hcomes.store
      obtain ⟨k, hk⟩ := hcomes.steps
      rw [hcomes.program, ← Block.end_act] at hleads
      exact ⟨_, s', hk.trans hreaches, hs', hleads⟩
  | fall ha =>
    obtain rfl := hentry.first fun _ _ hb => by cases hb
    subst hstore
    rcases comes_action hpos hst.act.1 with ⟨-, hrests⟩ | ⟨σ₂, t₂, s₁, hsome, -⟩
    · exact ⟨0, s, .here, rfl, hrests⟩
    · cases ha.symm.trans hsome
  | @skip body rest σ σ' e out hzero _ ih =>
    subst hstore
    obtain ⟨s₁, hcomes⟩ := comes_after hpos hst hentry hzero
    have hst' : Stands s₁.program (base + 1 + body.size + 1) rest := hcomes.program ▸ hst.loop.2.2.2
    obtain ⟨n, s', hreaches, hs', hleads⟩ := ih hst' (.inl rfl) hcomes.position hcomes.store
    obtain ⟨k, hk⟩ := hcomes.steps
    rw [hcomes.program, ← Block.end_loop] at hleads
    exact ⟨_, s', hk.trans hreaches, hs', hleads⟩
  | @again body rest σ σ₁ σ' e out₁ out hne _ _ ihbody ihloop =>
    subst hstore
    obtain ⟨s₁, hcomes⟩ := comes_inside hpos hst hentry hne
    have hbody : Stands s₁.program (base + 1) body := hcomes.program ▸ hst.loop.2.1
    obtain ⟨n₁, s₂, hreaches₁, hstore₂, hprogram₂, hpos₂⟩ :=
      ihbody hbody (.inl rfl) hcomes.position hcomes.store
    -- behind its body the loop is at its closing bracket
    rw [hcomes.program] at hprogram₂
    obtain ⟨n₂, s', hreaches₂, hs', hleads⟩ :=
      ihloop (hprogram₂ ▸ hst) (.inr ⟨body, rest, rfl, rfl⟩) hpos₂ hstore₂
    obtain ⟨k, hk⟩ := hcomes.steps
    rw [hprogram₂] at hleads
    exact ⟨_, s', hk.trans (hreaches₁.trans hreaches₂), hs', hleads⟩
  | fallInside hne _ ihbody =>
    subst hstore
    obtain ⟨s₁, hcomes⟩ := comes_inside hpos hst hentry hne
    have hbody := hst.loop.2.1
    rw [← hcomes.program] at hbody
    obtain ⟨n, s', hreaches, hs', hrests⟩ := ihbody hbody (.inl rfl) hcomes.position hcomes.store
    obtain ⟨k, hk⟩ := hcomes.steps
    exact ⟨_, s', hk.trans hreaches, hs', hrests⟩

/-- **A run of the machine up to its end begins with an evaluation** of the tree it stands at, and
    goes on from where the tree's ending leads. -/
theorem Reaches.runs {n : Nat} {s last : State} {out : Text} (h : Reaches n s out last) {e : Ending}
    (hlast : e.Rests last) {b : Block} {base place : Nat} (hst : Stands s.program base b)
    (hentry : b.Entry base place) (hpos : s.position = some place) :
    ∃ e₁ out₁ s₁ n' out₂, Runs b s.store e₁ out₁ s₁.store ∧ e₁.Leads s.program (base + b.size) s₁ ∧
      Reaches n' s₁ out₂ last ∧ n' ≤ n ∧ out = out₁ ++ out₂ := by
  -- every tree but the empty one takes a step, and what follows the step is a shorter run
  induction n using Nat.strongRecOn generalizing s out b base place with
  | ind n ih =>
    cases b with
    | done =>
      obtain rfl := hentry.first fun _ _ hb => by cases hb
      exact ⟨.through, [], s, n, out, .done, ⟨rfl, hpos⟩, h, Nat.le_refl n, rfl⟩
    | act a rest =>
      obtain rfl := hentry.first fun _ _ hb => by cases hb
      obtain ⟨hat, hst'⟩ := hst.act
      rcases comes_action hpos hat with ⟨hnone, hrests⟩ | ⟨σ, t, s₁, hsome, hcomes⟩
      · obtain ⟨rfl, rfl, rfl⟩ := h.of_rests hrests
        exact ⟨.fellOff, [], s, 0, [], .fall hnone, hrests, .here, Nat.le_refl 0, rfl⟩
      · obtain ⟨k, hk⟩ := hcomes.steps
        obtain ⟨n₁, out₁, h₁, rfl, rfl⟩ := h.split hlast.stuck hk
        rw [← hcomes.program] at hst'
        obtain ⟨e₁, out₂, s₂, n₂, out₃, hruns, hleads, h₂, hle, rfl⟩ :=
          ih n₁ (by omega) h₁ hst' (.inl rfl) hcomes.position
        rw [hcomes.program, ← Block.end_act] at hleads
        rw [hcomes.store] at hruns
        exact ⟨e₁, t ++ out₂, s₂, n₂, out₃, .act hsome hruns, hleads, h₂, by omega,
          (List.append_assoc _ _ _).symm⟩
    | loop body rest =>
      by_cases hzero : s.store.cell = 0
      · obtain ⟨s₁, hcomes⟩ := comes_after hpos hst hentry hzero
        obtain ⟨k, hk⟩ := hcomes.steps
        obtain ⟨n₁, out₁, h₁, rfl, rfl⟩ := h.split hlast.stuck hk
        have hst' : Stands s₁.program (base + 1 + body.size + 1) rest :=
          hcomes.program ▸ hst.loop.2.2.2
        obtain ⟨e₁, out₂, s₂, n₂, out₃, hruns, hleads, h₂, hle, rfl⟩ :=
          ih n₁ (by omega) h₁ hst' (.inl rfl) hcomes.position
        rw [hcomes.program, ← Block.end_loop] at hleads
        rw [hcomes.store] at hruns
        exact ⟨e₁, out₂, s₂, n₂, out₃, .skip hzero hruns, hleads, h₂, by omega, rfl⟩
      · obtain ⟨s₁, hcomes⟩ := comes_inside hpos hst hentry hzero
        obtain ⟨k, hk⟩ := hcomes.steps
        obtain ⟨n₁, out₁, h₁, rfl, rfl⟩ := h.split hlast.stuck hk
        have hbody : Stands s₁.program (base + 1) body := hcomes.program ▸ hst.loop.2.1
        obtain ⟨e₁, out₂, s₂, n₂, out₃, hruns, hleads, h₂, hle, rfl⟩ :=
          ih n₁ (by omega) h₁ hbody (.inl rfl) hcomes.position
        rw [hcomes.program] at hleads
        rw [hcomes.store] at hruns
        cases e₁ with
        | fellOff =>
          exact ⟨.fellOff, out₂, s₂, n₂, out₃, .fallInside hzero hruns, hleads, h₂, by omega, rfl⟩
        | through =>
          -- behind its body the loop is at its closing bracket
          obtain ⟨hprogram, hpos₂⟩ := hleads
          obtain ⟨e₂, out₄, s₃, n₃, out₅, hloop, hleads, h₃, hle₃, rfl⟩ :=
            ih n₂ (by omega) h₂ (hprogram ▸ hst) (.inr ⟨body, rest, rfl, rfl⟩) hpos₂
          rw [hprogram] at hleads
          exact ⟨e₂, out₂ ++ out₄, s₃, n₃, out₅, .again hzero hruns hloop, hleads, h₃, by omega,
            (List.append_assoc _ _ _).symm⟩

/-- From the first place of a program, the machine comes to an end exactly as the program's tree
    does. -/
theorem rests_iff_runs {s : State} {b : Block} (hlay : s.program.map (·.entry) = b.lay 0)
    (hpos : s.position = some 0) (e : Ending) (out : Text) (σ : Store) :
    (∃ n last, Reaches n s out last ∧ e.Rests last ∧ last.store = σ) ↔ Runs b s.store e out σ := by
  have hst : Stands s.program 0 b := ⟨[], by rw [List.drop_zero, List.append_nil, hlay]⟩
  -- behind the last command there is nothing
  have hbehind : ∀ s' : State, s'.program = s.program → s'.position = some (0 + b.size) →
      Ending.through.Rests s' := by
    intro s' hprogram hpos'
    have hlength : s.program.length = b.size := by
      rw [← b.length_lay 0, ← hlay, List.length_map]
    have hnone : s'.program[0 + b.size]? = none := by
      rw [hprogram, Nat.zero_add]
      exact List.getElem?_eq_none (Nat.le_of_eq hlength)
    unfold Ending.Rests
    simp only [advance, hpos', hnone]
    rfl
  have hend : ∀ e' s', Ending.Leads s.program (0 + b.size) s' e' → e'.Rests s' := by
    intro e' s' hleads
    cases e' with
    | through => exact hbehind s' hleads.1 hleads.2
    | fellOff => exact hleads
  constructor
  · rintro ⟨n, last, h, hlast, rfl⟩
    obtain ⟨e₁, out₁, s₁, n', out₂, hruns, hleads, h', -, rfl⟩ := h.runs hlast hst (.inl rfl) hpos
    have hrests := hend e₁ s₁ hleads
    obtain ⟨-, rfl, rfl⟩ := h'.of_rests hrests
    obtain rfl := hlast.eq hrests
    rw [List.append_nil]
    exact hruns
  · intro h
    obtain ⟨n, last, hreaches, hstore, hleads⟩ := h.reaches hst (.inl rfl) hpos rfl
    exact ⟨n, last, hreaches, hend e last hleads, hstore⟩

/-! ## 4. Runs -/

/-- A trace that stops as an ending does. -/
def Ending.Shows (t : Language.Trace State) : Ending → Prop
  | .through => t.stop = .done
  | .fellOff =>
    t.stop = .error ∧ ∃ r, t.outcomes.getLast? = some (.ok r) ∧ r.error = some .tapeStart

theorem stop_of_shows {e : Ending} {t : Language.Trace State} (h : Ending.Shows t e) :
    t.stop = .done ∧ e = .through ∨ t.stop = .error ∧ e = .fellOff := by
  cases e with
  | through => exact .inl ⟨h, rfl⟩
  | fellOff => exact .inr ⟨h.1, rfl⟩

theorem shows_cons {e : Ending} {t : Language.Trace State} {r : StepResult} (hr : r.error = none) :
    Ending.Shows { t with outcomes := .ok r :: t.outcomes } e ↔ Ending.Shows t e := by
  cases e with
  | through => exact Iff.rfl
  | fellOff =>
    show (t.stop = .error ∧ ∃ r', (.ok r :: t.outcomes).getLast? = some (.ok r') ∧
      r'.error = some .tapeStart) ↔
      (t.stop = .error ∧ ∃ r', t.outcomes.getLast? = some (.ok r') ∧ r'.error = some .tapeStart)
    rw [List.getLast?_cons]
    cases t.outcomes.getLast? with
    | none => simp [hr]
    | some o => simp

section Runs

variable {s₀ s : State} {o : Option Text} (draws : Draws)

theorem language_advance (s : State) :
    language.advance ⟨s, draws⟩ = (advance s).lift fun s' => ⟨s', draws⟩ := rfl

/-- A run that begins with a step that works goes on from the state after it. -/
theorem run_of_ok (h : advance s₀ = .ok (.writing o) s) :
    ∃ r : StepResult, r.error = none ∧ r.written = o.getD [] ∧ ∀ budget,
      language.run (budget + 1) ⟨s₀, draws⟩ =
        if (location s).isNone then ⟨[.ok r], .done, ⟨s, draws⟩⟩
        else { language.run budget ⟨s, draws⟩ with
          outcomes := .ok r :: (language.run budget ⟨s, draws⟩).outcomes } := by
  have hadvance : language.advance ⟨s₀, draws⟩ = .ok (.writing o) ⟨s, draws⟩ := by
    rw [language_advance, h]
    rfl
  refine ⟨⟨display s, location s, o, none, false, none⟩, rfl, rfl, fun budget => ?_⟩
  rw [Language.run, Language.step, hadvance]
  rfl

theorem run_of_fault {f : Fault} (h : advance s = .fault f s) :
    ∃ r : StepResult, r.error = some f ∧ r.written = [] ∧ ∀ budget,
      language.run (budget + 1) ⟨s, draws⟩ = ⟨[.ok r], .error, ⟨s, draws⟩⟩ := by
  have hadvance : language.advance ⟨s, draws⟩ = .fault f ⟨s, draws⟩ := by
    rw [language_advance, h]
    rfl
  refine ⟨⟨display s, location s, none, none, false, some f⟩, rfl, rfl, fun budget => ?_⟩
  rw [Language.run, Language.step, hadvance]
  rfl

theorem position_of_ok (h : advance s₀ = .ok (.writing o) s) : s.position ≠ none := by
  rcases advance_cases s₀ with ⟨o', s', hok, hpos, -⟩ | ⟨hfault, -⟩ | ⟨hbreak, -⟩
  · obtain ⟨-, rfl⟩ := Attempt.mk.inj (h.symm.trans hok)
    exact hpos
  · cases h.symm.trans hfault
  · cases h.symm.trans hbreak

theorem run_of_reaches (h : advance s₀ = .ok (.writing o) s) {n : Nat} {out : Text} {last : State}
    (hreaches : Reaches n s out last) {e : Ending} (hlast : e.Rests last) :
    ∃ budget, Ending.Shows (language.run budget ⟨s₀, draws⟩) e ∧
      (language.run budget ⟨s₀, draws⟩).written = o.getD [] ++ out ∧
      (language.run budget ⟨s₀, draws⟩).machine = ⟨last, draws⟩ := by
  obtain ⟨r, hr, hwritten, hrun⟩ := run_of_ok draws h
  induction hreaches generalizing s₀ o r with
  | @here s =>
    rcases advance_cases s with ⟨o', s', hok, -⟩ | ⟨hfault, hlive⟩ | ⟨hbreak, hend, -⟩
    · exact absurd hok (hlast.stuck _ _)
    · obtain rfl : e = .fellOff := hlast.eq hfault
      obtain ⟨r', hr', hwritten', hrun'⟩ := run_of_fault draws hfault
      obtain ⟨next, hnext⟩ := Option.ne_none_iff_exists'.mp hlive
      refine ⟨2, ?_⟩
      rw [hrun, hrun', hnext]
      exact ⟨⟨rfl, r', rfl, hr'⟩, by simp [Language.Trace.written, hwritten, hwritten'], rfl⟩
    · obtain rfl : e = .through := hlast.eq hbreak
      refine ⟨1, ?_⟩
      rw [hrun, hend]
      exact ⟨rfl, by simp [Language.Trace.written, hwritten], rfl⟩
  | @step n s s₁ last o' out hstep hrest ih =>
    obtain ⟨r', hr', hwritten', hrun'⟩ := run_of_ok draws hstep
    obtain ⟨budget, hshows, hout, hmachine⟩ := ih hstep hlast r' hr' hwritten' hrun'
    have hlive : location s ≠ none := by
      rcases advance_cases s with ⟨_, _, -, -, hlive⟩ | ⟨hfault, -⟩ | ⟨hbreak, -⟩
      · exact hlive (position_of_ok h)
      · cases hstep.symm.trans hfault
      · cases hstep.symm.trans hbreak
    obtain ⟨next, hnext⟩ := Option.ne_none_iff_exists'.mp hlive
    refine ⟨budget + 1, ?_⟩
    rw [hrun, hnext]
    refine ⟨(shows_cons hr).mpr hshows, ?_, hmachine⟩
    rw [← hout, ← hwritten]
    rfl

theorem reaches_of_run (h : advance s₀ = .ok (.writing o) s) {budget : Nat} {e : Ending}
    (hshows : Ending.Shows (language.run budget ⟨s₀, draws⟩) e) :
    ∃ n out last, Reaches n s out last ∧ e.Rests last ∧
      (language.run budget ⟨s₀, draws⟩).written = o.getD [] ++ out ∧
      (language.run budget ⟨s₀, draws⟩).machine = ⟨last, draws⟩ := by
  induction budget generalizing s₀ s o with
  | zero => rcases stop_of_shows hshows with ⟨hstop, -⟩ | ⟨hstop, -⟩ <;> cases hstop
  | succ budget ih =>
    obtain ⟨r, hr, hwritten, hrun⟩ := run_of_ok draws h
    rw [hrun] at hshows ⊢
    rcases advance_cases s with ⟨o', s', hok, -, hlive⟩ | ⟨hfault, hlive⟩ | ⟨hbreak, hend, -⟩
    · obtain ⟨next, hnext⟩ := Option.ne_none_iff_exists'.mp (hlive (position_of_ok h))
      rw [hnext] at hshows ⊢
      obtain ⟨n, out, last, hreaches, hlast, hout, hmachine⟩ := ih hok ((shows_cons hr).mp hshows)
      refine ⟨n + 1, o'.getD [] ++ out, last, .step hok hreaches, hlast, ?_, hmachine⟩
      rw [← hout, ← hwritten]
      rfl
    · obtain ⟨next, hnext⟩ := Option.ne_none_iff_exists'.mp hlive
      rw [hnext] at hshows ⊢
      have hrest := (shows_cons hr).mp hshows
      cases budget with
      | zero => rcases stop_of_shows hrest with ⟨hstop, -⟩ | ⟨hstop, -⟩ <;> cases hstop
      | succ budget =>
        obtain ⟨r', -, hwritten', hrun'⟩ := run_of_fault draws hfault
        rw [hrun'] at hrest ⊢
        rcases stop_of_shows hrest with ⟨hstop, -⟩ | ⟨-, rfl⟩
        · cases hstop
        · exact ⟨0, [], s, .here, hfault, by simp [Language.Trace.written, hwritten, hwritten'],
            rfl⟩
    · rw [hend] at hshows ⊢
      rcases stop_of_shows hshows with ⟨-, rfl⟩ | ⟨hstop, -⟩
      · exact ⟨0, [], s, .here, hbreak, by simp [Language.Trace.written, hwritten], rfl⟩
      · cases hstop

end Runs

/-- Every step of a loaded program up to its end has a result, and the only fault it reports is a
    move left of the first cell. -/
theorem step_faults {m : Machine State} (h : m.state.position = none ∨ location m.state ≠ none) :
    ∃ r, (language.step m).outcome = .ok r ∧ (r.error = none ∨ r.error = some .tapeStart) := by
  have hmeets : (language.advance m).Meets (fun _ _ => True) (· = .fault .tapeStart) := by
    rw [language_advance]
    rcases advance_cases m.state with ⟨o, s', hok, -⟩ | ⟨hfault, -⟩ | ⟨-, hend, hpos⟩
    · rw [hok]
      trivial
    · rw [hfault]
      exact .fault rfl
    · rcases h with h | h
      · exact absurd h hpos
      · exact absurd hend h
  rcases language.step_cases hmeets with ⟨p, r, ho, herr, -⟩ | ⟨f, r, ho, herr, hf⟩ | ⟨b, -, hb⟩
  · exact ⟨r, ho, .inl herr⟩
  · cases hf
    exact ⟨r, ho, .inr herr⟩
  · cases hb

theorem steps_faults {m : Machine State} (h : m.state.position = none) {n : Nat}
    (hgo : ∀ o ∈ (language.steps n m).1, GoesOn o) :
    ∃ r, (language.step (language.steps n m).2).outcome = .ok r ∧
      (r.error = none ∨ r.error = some .tapeStart) := by
  refine step_faults (language.steps_preserves
    (P := fun m => m.state.position = none ∨ location m.state ≠ none) ?_ (.inl h) hgo)
  rintro m' - ⟨r, ho, -, hnext⟩
  obtain ⟨next, hnext⟩ := Option.ne_none_iff_exists'.mp hnext
  have hlocation : location (language.step m').machine.state = some next :=
    language.location_of_next ho hnext
  rw [hlocation]
  exact .inr (Option.some_ne_none next)

/-- A run from a loaded program shows an ending exactly when the program's tree comes to it. -/
theorem shows_iff_runs {program : List Instruction} {b : Block}
    (hlay : program.map (·.entry) = b.lay 0) (input : Text) (draws : Draws) (e : Ending)
    (out : Text) (σ : Store) :
    (∃ budget, Ending.Shows (language.run budget ⟨{ State.fresh with program, input }, draws⟩) e ∧
      (language.run budget ⟨{ State.fresh with program, input }, draws⟩).written = out ∧
      (language.run budget ⟨{ State.fresh with program, input }, draws⟩).machine.state.store = σ) ↔
      Runs b (.blank input) e out σ := by
  -- the first step only goes to the first place
  have hfirst : advance { State.fresh with program, input } =
      .ok (.writing none) { State.fresh with program, input, position := some 0 } := rfl
  rw [← show State.store { State.fresh with program, input, position := some 0 } =
    .blank input from rfl,
    ← rests_iff_runs hlay rfl]
  constructor
  · rintro ⟨budget, hshows, rfl, rfl⟩
    obtain ⟨n, out, last, hreaches, hlast, hout, hmachine⟩ := reaches_of_run draws hfirst hshows
    rw [hout, hmachine]
    exact ⟨n, last, hreaches, hlast, rfl⟩
  · rintro ⟨n, last, hreaches, hlast, rfl⟩
    obtain ⟨budget, hshows, hout, hmachine⟩ := run_of_reaches draws hfirst hreaches hlast
    exact ⟨budget, hshows, hout, by rw [hmachine]⟩

/-- **The machine with jumps refines the loops of a program's tree.** A source that is read has such
    a tree, and no bracket of its program lacks a partner. Every step up to the last has a result,
    and the only fault is a move left of the first cell. The program comes to its end with some
    output, tape, pointer and input left if and only if the evaluation of the tree does, and
    likewise it moves left of the first cell. -/
theorem jumps_refine_loops {code : Text} {program : List Instruction} (h : parse code = .ok program)
    (before : Machine State) (input : Text) :
    ∃ b m, Block.ofCommands (code.filterMap Command.ofCodePoint?) = some b ∧
      language.load before code input = .ok m ∧ m.state.program = program ∧
      (∀ i ∈ program, i.command.item = .loopStart ∨ i.command.item = .loopEnd → i.partner ≠ none) ∧
      (∀ n, (∀ o ∈ (language.steps n m).1, GoesOn o) →
        ∃ r, (language.step (language.steps n m).2).outcome = .ok r ∧
          (r.error = none ∨ r.error = some .tapeStart)) ∧
      (∀ out σ, (∃ last, language.Completes m out last ∧ last.state.store = σ) ↔
        Runs b (.blank input) .through out σ) ∧
      ∀ out σ, (∃ last, language.Fails m .tapeStart out last ∧ last.state.store = σ) ↔
        Runs b (.blank input) .fellOff out σ := by
  obtain ⟨b, htree, hlay⟩ := parse_lay h
  have hread : language.read code = .ok fun input => { State.fresh with program, input } := by
    simp only [language, h]
  have hload : language.load before code input = .ok ⟨{ State.fresh with program, input },
    before.draws⟩ := by
    rw [Language.load, hread]
    rfl
  refine ⟨b, _, htree, hload, rfl, ?_, fun n hgo => steps_faults rfl hgo, fun out σ => ?_,
    fun out σ => ?_⟩
  · intro i hi hbracket
    have hentry : i.entry ∈ b.lay 0 := hlay ▸ List.mem_map_of_mem hi
    exact b.partner_ne_none hentry hbracket
  · rw [← shows_iff_runs hlay input before.draws]
    constructor
    · rintro ⟨last, ⟨budget, hstop, hout, rfl⟩, hstore⟩
      exact ⟨budget, hstop, hout, hstore⟩
    · rintro ⟨budget, hstop, hout, hstore⟩
      exact ⟨_, ⟨budget, hstop, hout, rfl⟩, hstore⟩
  · rw [← shows_iff_runs hlay input before.draws]
    constructor
    · rintro ⟨last, ⟨budget, hstop, hout, rfl, hfault⟩, hstore⟩
      exact ⟨budget, ⟨hstop, hfault⟩, hout, hstore⟩
    · rintro ⟨budget, ⟨hstop, hfault⟩, hout, hstore⟩
      exact ⟨_, ⟨budget, hstop, hout, rfl, hfault⟩, hstore⟩

/-- A loop inside of a loop: what is read is written, and then the pointer leaves the tape. -/
def echo : Text := "+[>,[.,]<-]\nback<"

/-- What is read of it. -/
def echoProgram : List Instruction := [
  ⟨⟨.increment, 0, 0⟩, none⟩,
  ⟨⟨.loopStart, 0, 1⟩, some 10⟩,
  ⟨⟨.right, 0, 2⟩, none⟩,
  ⟨⟨.input, 0, 3⟩, none⟩,
  ⟨⟨.loopStart, 0, 4⟩, some 7⟩,
  ⟨⟨.output, 0, 5⟩, none⟩,
  ⟨⟨.input, 0, 6⟩, none⟩,
  ⟨⟨.loopEnd, 0, 7⟩, some 4⟩,
  ⟨⟨.left, 0, 8⟩, none⟩,
  ⟨⟨.decrement, 0, 9⟩, none⟩,
  ⟨⟨.loopEnd, 0, 10⟩, some 1⟩,
  ⟨⟨.left, 1, 4⟩, none⟩]

theorem parse_echo : parse echo = .ok echoProgram := rfl

theorem jumps_refine_loops_echo :
    parse echo = .ok echoProgram ∧
      ∃ b m last, Block.ofCommands (echo.filterMap Command.ofCodePoint?) = some b ∧
        language.load ⟨.fresh, []⟩ echo "ab" = .ok m ∧ language.Fails m .tapeStart "ab" last ∧
        Runs b (.blank "ab") .fellOff "ab" last.state.store := by
  obtain ⟨b, m, htree, hload, -, -, -, -, hfails⟩ := jumps_refine_loops parse_echo ⟨.fresh, []⟩ "ab"
  have hm : m = ⟨{ State.fresh with program := echoProgram, input := "ab" }, []⟩ :=
    (Except.ok.inj hload).symm
  subst hm
  have hrun : language.Fails ⟨{ State.fresh with program := echoProgram, input := "ab" }, []⟩
    .tapeStart "ab"
      (language.run 40 ⟨{ State.fresh with program := echoProgram, input := "ab" }, []⟩).machine :=
    ⟨40, by decide +kernel, by decide +kernel, rfl, _, rfl, rfl⟩
  exact ⟨parse_echo, b, _, _, htree, hload, hrun, (hfails _ _).mp ⟨_, hrun, rfl⟩⟩

end Esolang.Brainfuck
