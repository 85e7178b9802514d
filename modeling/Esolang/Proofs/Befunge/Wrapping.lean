/-
  File:      Esolang/Proofs/Befunge/Wrapping.lean
  Subject:   Wrapping around the occupied part does the same as wrapping around the whole field.

  A second machine is the same as the first but for one thing: its pointer wraps around the whole
  field in and outside string mode. Where the first machine skips to the other end of the occupied
  part, the second slides there over cells that are all blank. So both execute the same cells in the
  same states, blank ones apart, until a bridge passes over a cell that only one of them has in
  front of it.

  * `around`: the second machine.
  * `Slides`: the second machine passes over blank cells only.
  * `step_slides`: a step of the first machine is one of the second and such a slide.
  * `Event`, `events`: what is executed, blank cells apart.
  * `wraps_agree`: both machines execute the same.
-/
import Esolang.Proofs.Befunge.Bounds

namespace Esolang.Befunge

/-! ## 1. The second machine -/

/-- The state with the pointer one cell further, around the whole field. -/
def State.moveAround (s : State) : State :=
  { s with pointer := s.pointer.map fun (x, y) => ahead s.field s.direction true x y }

/-- The language with another movement of the pointer, and all else the same. -/
def wandering (move : State → State) : Language State :=
  { language with advance := advanceWith move }

theorem wandering_move : wandering State.move = language := by
  unfold wandering
  rw [advanceWith_move]
  rfl

/-- The language with a pointer that always wraps around the whole field. -/
def around : Language State := wandering State.moveAround

namespace State

/-- The cell under the pointer. -/
def cell? (s : State) : Option CodePoint := s.pointer.bind fun (x, y) => s.field.cell? x y

/-- Whether a blank cell is about to be executed. -/
def blank (s : State) : Bool := !s.stringMode && s.cell? = some Text.space

/-- Whether a bridge is about to be executed. -/
def onBridge (s : State) : Bool := !s.stringMode && s.cell? = some (CodePoint.ofChar '#')

variable {s : State}

theorem blank_iff : s.blank = true ↔ s.stringMode = false ∧ s.cell? = some Text.space := by
  simp [blank]

theorem onBridge_of_blank (h : s.blank = true) : s.onBridge = false := by
  obtain ⟨-, hcell⟩ := blank_iff.mp h
  unfold onBridge
  rw [hcell]
  simp only [Bool.and_eq_false_iff]
  exact .inr (by decide)

end State

theorem around_step (m : Machine State) :
    (around.step m).machine = (advanceWith State.moveAround m).state :=
  Language.step_machine around m

/-- A blank cell does nothing, and the pointer goes on. -/
theorem advanceWith_blank {m : Machine State} (h : m.state.blank = true) (move : State → State) :
    advanceWith move m = .ok .quiet { m with state := move m.state } := by
  obtain ⟨hmode, hcell⟩ := State.blank_iff.mp h
  obtain ⟨⟨x, y⟩, hpointer, hcell⟩ := Option.bind_eq_some_iff.mp hcell
  have hdata : ¬(m.state.stringMode = true ∧ Text.space ≠ CodePoint.ofChar '"') := by
    rw [hmode]
    exact fun h => nomatch h.1
  have hnoop : Instruction.ofCodePoint? Text.space = some .noop := by decide
  simp only [advanceWith, hpointer, hcell, if_neg hdata, hnoop]
  rfl

/-! ## 2. Slides -/

/-- The second machine gets from one place to another over blank cells only. -/
inductive Slides : Machine State → Machine State → Prop
  | arrived (m : Machine State) : Slides m m
  | on {m m' : Machine State} (hblank : m.state.blank = true)
      (h : Slides { m with state := m.state.moveAround } m') : Slides m m'

section Track

-- the row or column that the pointer moves along, with everything beyond `last` blank
variable (track : Nat → Machine State) {size last : Nat}

/-- Forward, from anywhere beyond the last place to the first. -/
theorem slides_to_first (hblank : ∀ i, last < i → i < size → (track i).state.blank = true)
    (hnext : ∀ i, { track i with state := (track i).state.moveAround } = track ((i + 1) % size))
    {i : Nat} (hi : last < i) (hlt : i < size) : Slides (track i) (track 0) := by
  induction hleft : size - i generalizing i with
  | zero => omega
  | succ left ih =>
    refine .on (hblank i hi hlt) ?_
    rw [hnext]
    by_cases hend : i + 1 = size
    · rw [hend, Nat.mod_self]
      exact .arrived _
    · rw [Nat.mod_eq_of_lt (by omega)]
      exact ih (by omega) (by omega) (by omega)

/-- Backward, from anywhere beyond the last place to the last place. -/
theorem slides_to_last (hblank : ∀ i, last < i → i < size → (track i).state.blank = true)
    (hnext : ∀ i, { track i with state := (track i).state.moveAround } =
    track ((i + size - 1) % size)) {i : Nat} (hi : last ≤ i) (hlt : i < size) :
    Slides (track i) (track last) := by
  induction i with
  | zero =>
    obtain rfl : last = 0 := by omega
    exact .arrived _
  | succ i ih =>
    by_cases hend : last = i + 1
    · rw [hend]
      exact .arrived _
    · refine .on (hblank (i + 1) (by omega) hlt) ?_
      have hback : (i + 1 + size - 1) % size = i := by
        rw [show i + 1 + size - 1 = i + size by omega, Nat.add_mod_right,
          Nat.mod_eq_of_lt (by omega)]
      rw [hnext, hback]
      exact ih (by omega) (by omega)

theorem slides_onward (hblank : ∀ i, last < i → i < size → (track i).state.blank = true)
    (hnext : ∀ i, { track i with state := (track i).state.moveAround } = track ((i + 1) % size))
    {n : Nat} (hn : n ≤ last) (hlast : last < size) :
    Slides (track ((n + 1) % size)) (track (onward last n)) := by
  unfold onward
  split
  · by_cases hend : n + 1 = size
    · rw [hend, Nat.mod_self]
      exact .arrived _
    · rw [Nat.mod_eq_of_lt (by omega)]
      exact slides_to_first track hblank hnext (by omega) (by omega)
  · rw [Nat.mod_eq_of_lt (by omega)]
    exact .arrived _

theorem slides_backward (hblank : ∀ i, last < i → i < size → (track i).state.blank = true)
    (hnext : ∀ i, { track i with state := (track i).state.moveAround } =
    track ((i + size - 1) % size)) {n : Nat} (hn : n ≤ last) (hlast : last < size) :
    Slides (track ((n + size - 1) % size)) (track (backward last n)) := by
  unfold backward
  split
  · next hzero =>
    subst hzero
    rw [Nat.zero_add, Nat.mod_eq_of_lt (by omega)]
    exact slides_to_last track hblank hnext (by omega) (by omega)
  · have hback : (n + size - 1) % size = n - 1 := by
      rw [show n + size - 1 = n - 1 + size by omega, Nat.add_mod_right, Nat.mod_eq_of_lt (by omega)]
    rw [if_neg (by omega), hback]
    exact .arrived _

end Track

/-- **From where the second machine goes it slides to where the first one goes.** -/
theorem slides_ahead {m : Machine State} {x y : Nat} (hcovers : m.state.field.Covers)
    (hmode : m.state.stringMode = false) (hx : x < columns) (hy : y < rowCount)
    (halong : m.state.field.Along m.state.direction x y) :
    Slides { m with state.pointer := some (ahead m.state.field m.state.direction true x y) }
      { m with state.pointer := some (ahead m.state.field m.state.direction false x y) } := by
  have hrow := hcovers.rowExtent_le y
  have hcolumn := hcovers.columnExtent_le x
  have hcolumns : columns = 80 := rfl
  have hrows : rowCount = 25 := rfl
  -- beyond the extents the row and the column are blank
  have hblankRow : ∀ i, m.state.field.rowExtent y - 1 < i → i < columns →
      ({ m with state.pointer := some (i, y) } : Machine State).state.blank = true :=
        fun i hi hlt =>
    State.blank_iff.mpr ⟨hmode, hcovers.blank_of_rowExtent_le hlt hy (by omega)⟩
  have hblankColumn : ∀ i, m.state.field.columnExtent x - 1 < i → i < rowCount →
      ({ m with state.pointer := some (x, i) } : Machine State).state.blank = true :=
        fun i hi hlt =>
    State.blank_iff.mpr ⟨hmode, hcovers.blank_of_columnExtent_le hx hlt (by omega)⟩
  cases hd : m.state.direction with
  | right =>
    rw [hd] at halong
    refine slides_onward (fun i => { m with state.pointer := some (i, y) }) hblankRow (fun i => ?_)
      halong (by omega)
    simp only [State.moveAround, Option.map_some, hd]
    rfl
  | left =>
    rw [hd] at halong
    refine slides_backward (fun i => { m with state.pointer := some (i, y) }) hblankRow
      (fun i => ?_) halong (by omega)
    simp only [State.moveAround, Option.map_some, hd]
    rfl
  | down =>
    rw [hd] at halong
    refine slides_onward (fun i => { m with state.pointer := some (x, i) }) hblankColumn
      (fun i => ?_) halong (by omega)
    simp only [State.moveAround, Option.map_some, hd]
    rfl
  | up =>
    rw [hd] at halong
    refine slides_backward (fun i => { m with state.pointer := some (x, i) }) hblankColumn
      (fun i => ?_) halong (by omega)
    simp only [State.moveAround, Option.map_some, hd]
    rfl

/-- **A step of the first machine is one of the second and a slide**, unless it executes a
    bridge. -/
theorem step_slides {m : Machine State} (h : m.state.Fits) (hbridge : m.state.onBridge = false) :
    Slides (around.step m).machine (language.step m).machine := by
  rw [around_step, language_step]
  cases acts m with
  | starts hpointer hall =>
    rw [hall, hall]
    exact .arrived _
  | stays e m' hall hpointer hfield hdirection hmode =>
    rw [hall, hall]
    exact .arrived _
  | @moves x y c p m' hall hpointer hcell hstill hfield hblank =>
    rw [hall, hall]
    rw [hpointer] at hstill
    have hplaced : m'.state.Placed := h.toPlaced.act (hstill.trans hpointer.symm) hfield
    have hmove : m'.state.move = { m'.state with
        pointer := some (ahead m'.state.field m'.state.direction m'.state.stringMode x y) } := by
      simp only [State.move, hstill, Option.map_some]
    have haround : m'.state.moveAround = { m'.state with
        pointer := some (ahead m'.state.field m'.state.direction true x y) } := by
      simp only [State.moveAround, hstill, Option.map_some]
    show Slides { m' with state := m'.state.moveAround } { m' with state := m'.state.move }
    rw [hmove, haround]
    cases hmode : m'.state.stringMode with
    | true => exact .arrived _
    | false =>
      obtain ⟨hx, hy⟩ := h.pointer hpointer
      refine slides_ahead hplaced.covers hmode hx hy ?_
      by_cases hspace : c = Text.space
      · rcases hblank hspace with ⟨-, hmode'⟩ | ⟨hmode', rfl, -⟩
        · rw [hmode] at hmode'
          cases hmode'
        · exact h.along hpointer hmode'
      · -- something stands here, so the pointer is well placed for any turn it has taken
        have halong := h.covers.along hcell hspace m'.state.direction
        rcases hfield with hfield | ⟨x', y', c', -, -, hfield⟩
        · rw [hfield]
          exact halong
        · rw [hfield]
          exact halong.write x' y' c'
  | bridges hall hpointer hcell hmode =>
    have honBridge : m.state.onBridge = true := by
      simp [State.onBridge, State.cell?, hmode, hpointer, hcell]
    rw [hbridge] at honBridge
    cases honBridge

/-! ## 3. What is executed -/

/-- A step on a cell that is not blank: the machine before it, what the step gave, and the machine
    after it, where only the place of the next instruction is left out. -/
structure Event where
  /-- The machine before the step. -/
  before : Machine State
  /-- The step's result without the next place, and whether there is one. -/
  outcome : Except Breakdown (StepResult × Bool)
  /-- The machine after the step, without its pointer. -/
  after : Machine State

/-- The event of one step. -/
def event (L : Language State) (m : Machine State) : Event :=
  { before := m
    outcome := (L.step m).outcome.map fun r => ({ r with next := none }, r.next.isSome)
    after := { (L.step m).machine with state.pointer := none } }

/-- The events of a number of steps; blank cells make none. -/
def events (L : Language State) : Nat → Machine State → List Event
  | 0, _ => []
  | n + 1, m => (if m.state.blank then [] else [event L m]) ++ events L n (L.step m).machine

/-- A movement changes nothing but the place of the pointer. -/
def Steers (move : State → State) : Prop :=
  ∀ s : State, ∃ place, move s = { s with pointer := place } ∧ place.isSome = s.pointer.isSome

theorem steers_move : Steers State.move := fun _ => ⟨_, rfl, Option.isSome_map⟩

theorem steers_moveAround : Steers State.moveAround := fun _ => ⟨_, rfl, Option.isSome_map⟩

theorem Steers.twice {move : State → State} (h : Steers move) : Steers fun s => move (move s) := by
  intro s
  obtain ⟨place, hs, hsome⟩ := h s
  obtain ⟨place', hs', hsome'⟩ := h (move s)
  refine ⟨place', ?_, ?_⟩
  · show move (move s) = _
    rw [hs', hs]
  · rw [hsome', hs]
    exact hsome

section Movements

variable {move₁ move₂ : State → State} {m : Machine State}

theorem event_congr (h : advanceWith move₁ m = advanceWith move₂ m) :
    event (wandering move₁) m = event (wandering move₂) m := by
  have hstep : (wandering move₁).step m = (wandering move₂).step m := by
    unfold Language.step
    rw [show (wandering move₁).advance m = (wandering move₂).advance m from h]
    rfl
  unfold event
  rw [hstep]

/-- Where the pointer goes makes no difference to the event. -/
theorem event_moved (m' : Machine State) {p : Progress} {s₁ s₂ : State}
    (h₁ : advanceWith move₁ m = .ok p { m' with state := s₁ })
    (h₂ : advanceWith move₂ m = .ok p { m' with state := s₂ })
    (hs₁ : ∃ place, s₁ = { m'.state with pointer := place } ∧
    place.isSome = m'.state.pointer.isSome)
    (hs₂ : ∃ place, s₂ = { m'.state with pointer := place } ∧
      place.isSome = m'.state.pointer.isSome) :
    event (wandering move₁) m = event (wandering move₂) m := by
  obtain ⟨place₁, rfl, hsome₁⟩ := hs₁
  obtain ⟨place₂, rfl, hsome₂⟩ := hs₂
  simp only [event, Language.step, wandering, h₁, h₂, Attempt.ok, Except.map, language, location]
  cases p.halted with
  | true => rfl
  | false => simp [hsome₁, hsome₂]

/-- One step from the same machine differs in the next place only, whichever way the pointer
    moves. -/
theorem event_wandering (hmove₁ : Steers move₁) (hmove₂ : Steers move₂) (m : Machine State) :
    event (wandering move₁) m = event (wandering move₂) m := by
  cases acts m with
  | starts hpointer hall => exact event_congr ((hall move₁).trans (hall move₂).symm)
  | stays e m' hall hpointer hfield hdirection hmode =>
    exact event_congr ((hall move₁).trans (hall move₂).symm)
  | moves p m' hall hpointer hcell hstill hfield hblank =>
    exact event_moved m' (hall move₁) (hall move₂) (hmove₁ m'.state) (hmove₂ m'.state)
  | bridges hall hpointer hcell hmode =>
    exact event_moved m (hall move₁) (hall move₂) (hmove₁.twice m.state) (hmove₂.twice m.state)

end Movements

theorem event_around (m : Machine State) : event around m = event language m := by
  have hevent := event_wandering steers_moveAround steers_move m
  rw [wandering_move] at hevent
  exact hevent

section Events

variable {L : Language State} {m m' : Machine State}

theorem events_blank (h : m.state.blank = true) (n : Nat) :
    events L (n + 1) m = events L n (L.step m).machine := by
  rw [events, if_pos h, List.nil_append]

theorem events_busy (h : m.state.blank = false) (n : Nat) :
    events L (n + 1) m = event L m :: events L n (L.step m).machine := by
  rw [events, if_neg (by rw [h]; exact nofun), List.singleton_append]

theorem events_add (n k : Nat) (m : Machine State) :
    events L (n + k) m = events L n m ++ events L k (L.steps n m).2 := by
  induction n generalizing m with
  | zero =>
    rw [Nat.zero_add]
    rfl
  | succ n ih =>
    rw [Nat.succ_add, events, events, ih, List.append_assoc]
    rfl

/-- A slide makes no events. -/
theorem Slides.events_eq (h : Slides m m') :
    ∃ t, (∀ n, events around (t + n) m = events around n m') ∧ ∀ n, n ≤ t →
      events around n m = [] := by
  induction h with
  | arrived m =>
    refine ⟨0, fun n => by rw [Nat.zero_add], fun n hn => ?_⟩
    obtain rfl := Nat.le_zero.mp hn
    rfl
  | @on m m' hblank h ih =>
    obtain ⟨t, hlater, hnone⟩ := ih
    have hstep : (around.step m).machine = { m with state := m.state.moveAround } := by
      rw [around_step, advanceWith_blank hblank]
      rfl
    refine ⟨t + 1, fun n => ?_, fun n hn => ?_⟩
    · rw [Nat.succ_add, events_blank hblank, hstep, hlater]
    · cases n with
      | zero => rfl
      | succ n =>
        rw [events_blank hblank, hstep]
        exact hnone n (Nat.le_of_succ_le_succ hn)

/-- No bridge is executed, except perhaps at the very end. -/
def Unbridged (es : List Event) : Prop := ∀ e ∈ es.dropLast, e.before.state.onBridge = false

theorem Unbridged.tail {e : Event} {es : List Event} (h : Unbridged (e :: es)) : Unbridged es := by
  intro e' he'
  cases es with
  | nil => exact absurd he' List.not_mem_nil
  | cons e'' es => exact h e' (List.mem_cons_of_mem _ he')

theorem Unbridged.head {e : Event} {es : List Event} (h : Unbridged (e :: es)) (hne : es ≠ []) :
    e.before.state.onBridge = false := by
  cases es with
  | nil => exact absurd rfl hne
  | cons e' es => exact h e List.mem_cons_self

end Events

/-! ## 4. Both machines -/

section Agreement

variable {m : Machine State}

/-- Whatever the first machine executes, the second executes too. -/
theorem around_follows (h : m.state.Fits) (n : Nat) (hn : Unbridged (events language n m)) :
    ∃ n', events around n' m = events language n m := by
  induction n generalizing m with
  | zero => exact ⟨0, rfl⟩
  | succ n ih =>
    cases hblank : m.state.blank with
    | true =>
      rw [events_blank hblank] at hn ⊢
      obtain ⟨n', hevents⟩ := ih h.step hn
      obtain ⟨t, hslide, -⟩ := (step_slides h (State.onBridge_of_blank hblank)).events_eq
      exact ⟨t + n' + 1, by rw [events_blank hblank, hslide, hevents]⟩
    | false =>
      rw [events_busy hblank] at hn ⊢
      by_cases hlast : events language n (language.step m).machine = []
      · exact ⟨1, by rw [events_busy hblank, event_around, hlast]; rfl⟩
      · obtain ⟨n', hevents⟩ := ih h.step hn.tail
        obtain ⟨t, hslide, -⟩ := (step_slides h (hn.head hlast)).events_eq
        exact ⟨t + n' + 1, by rw [events_busy hblank, event_around, hslide, hevents]⟩

/-- Whatever the second machine executes, the first executes too. -/
theorem follows_around (h : m.state.Fits) (n : Nat) (hn : Unbridged (events around n m)) :
    ∃ n', events language n' m = events around n m := by
  -- the second machine takes more steps than one to a step of the first
  induction n using Nat.strongRecOn generalizing m with
  | ind n ih =>
    cases n with
    | zero => exact ⟨0, rfl⟩
    | succ n =>
      cases hblank : m.state.blank with
      | true =>
        rw [events_blank hblank] at hn ⊢
        obtain ⟨t, hslide, hnone⟩ := (step_slides h (State.onBridge_of_blank hblank)).events_eq
        rcases Nat.le_total n t with hle | hle
        · exact ⟨0, (hnone n hle).symm⟩
        · obtain ⟨rest, rfl⟩ := Nat.exists_eq_add_of_le hle
          rw [hslide] at hn ⊢
          obtain ⟨n', hevents⟩ := ih rest (by omega) h.step hn
          exact ⟨n' + 1, by rw [events_blank hblank, hevents]⟩
      | false =>
        rw [events_busy hblank] at hn ⊢
        rw [event_around]
        by_cases hlast : events around n (around.step m).machine = []
        · exact ⟨1, by rw [events_busy hblank, hlast]; rfl⟩
        · obtain ⟨t, hslide, hnone⟩ := (step_slides h (hn.head hlast)).events_eq
          rcases Nat.le_total n t with hle | hle
          · exact absurd (hnone n hle) hlast
          · obtain ⟨rest, rfl⟩ := Nat.exists_eq_add_of_le hle
            rw [hslide] at hn ⊢
            obtain ⟨n', hevents⟩ := ih rest (by omega) h.step hn.tail
            exact ⟨n' + 1, by rw [events_busy hblank, hevents]⟩

/-- If the first machine never executes a bridge, neither does the second. -/
theorem unbridged_around (h : m.state.Fits)
    (hnever : ∀ n, ∀ e ∈ events language n m, e.before.state.onBridge = false) (n : Nat) :
    ∀ e ∈ events around n m, e.before.state.onBridge = false := by
  induction n with
  | zero => exact fun e he => absurd he List.not_mem_nil
  | succ n ih =>
    have hunbridged : Unbridged (events around (n + 1) m) := by
      intro e he
      rw [events_add] at he
      cases hblank : (around.steps n m).2.state.blank with
      | true =>
        rw [events_blank hblank, events, List.append_nil] at he
        exact ih e (List.dropLast_subset _ he)
      | false =>
        rw [events_busy hblank, events, List.dropLast_concat] at he
        exact ih e he
    obtain ⟨n', hevents⟩ := follows_around h (n + 1) hunbridged
    rw [← hevents]
    exact hnever n'

end Agreement

/-! ## 5. Blank cells -/

/-- A blank cell moves the pointer and does nothing else. -/
theorem blank_step {move : State → State} (hmove : Steers move) {m : Machine State}
    (h : m.state.blank = true) :
    ∃ res place, ((wandering move).step m).outcome = .ok res ∧ res.output = none ∧
      res.edits = none ∧ res.error = none ∧ res.next ≠ none ∧
      ((wandering move).step m).machine = { m with state.pointer := some place } := by
  obtain ⟨-, hcell⟩ := State.blank_iff.mp h
  obtain ⟨place, hpointer, -⟩ := Option.bind_eq_some_iff.mp hcell
  obtain ⟨next, hs, hsome⟩ := hmove m.state
  have hadvance : (wandering move).advance m = .ok .quiet { m with state := move m.state } :=
    advanceWith_blank h move
  rw [hpointer] at hsome
  obtain ⟨place', rfl⟩ := Option.isSome_iff_exists.mp hsome
  have hstep : ((wandering move).step m).machine = { m with state.pointer := some place' } := by
    rw [Language.step_machine, hadvance, hs]
    rfl
  refine ⟨⟨language.display m.state, location { m.state with pointer := some place' }, none, none,
    false, none⟩, place', ?_, rfl, rfl, rfl, nofun, hstep⟩
  unfold Language.step
  rw [hadvance, hs]
  rfl

/-- From some step on, all cells are blank. -/
def Idles (L : Language State) (m : Machine State) : Prop :=
  ∃ n, ∀ k, (L.steps (n + k) m).2.state.blank = true

section Idling

variable {L : Language State} {m : Machine State}

theorem events_eq_nil_iff : (∀ k, events L k m = []) ↔ ∀ k, (L.steps k m).2.state.blank = true := by
  constructor
  · intro h k
    cases hblank : (L.steps k m).2.state.blank with
    | true => rfl
    | false =>
      have hone := h (k + 1)
      rw [events_add, events_busy hblank] at hone
      exact absurd hone (List.append_ne_nil_of_right_ne_nil _ nofun)
  · intro h k
    induction k with
    | zero => rfl
    | succ k ih =>
      rw [events_add, ih, events_blank (h k)]
      rfl

theorem idles_iff : Idles L m ↔ ∃ n, ∀ k, events L (n + k) m = events L n m := by
  have hsteps : ∀ n k, (L.steps (n + k) m).2 = (L.steps k (L.steps n m).2).2 :=
    fun n k => by rw [Language.steps_add]
  constructor
  · rintro ⟨n, h⟩
    refine ⟨n, fun k => ?_⟩
    have hnone := events_eq_nil_iff.mpr fun k => hsteps n k ▸ h k
    rw [events_add, hnone k, List.append_nil]
  · rintro ⟨n, h⟩
    refine ⟨n, fun k => ?_⟩
    rw [hsteps]
    refine events_eq_nil_iff.mp (fun k => ?_) k
    have hsame := h k
    rw [events_add] at hsame
    exact List.append_right_eq_self.mp hsame

/-- Two machines with the same events go on over blank cells together. -/
theorem Idles.transfer {L' : Language State} (h : Idles L m)
    (hto : ∀ n, ∃ n', events L' n' m = events L n m)
    (hfrom : ∀ n, ∃ n', events L n' m = events L' n m) : Idles L' m := by
  obtain ⟨n, hidle⟩ := idles_iff.mp h
  -- no number of steps makes more events than the first `n` do
  have hmost : ∀ k, (events L k m).length ≤ (events L n m).length := by
    intro k
    rcases Nat.le_total k n with hle | hle
    · obtain ⟨rest, rfl⟩ := Nat.exists_eq_add_of_le hle
      rw [events_add, List.length_append]
      exact Nat.le_add_right _ _
    · obtain ⟨rest, rfl⟩ := Nat.exists_eq_add_of_le hle
      exact Nat.le_of_eq (congrArg List.length (hidle rest))
  obtain ⟨n', hn'⟩ := hto n
  refine idles_iff.mpr ⟨n', fun k => ?_⟩
  obtain ⟨j, hj⟩ := hfrom (n' + k)
  have hle := hmost j
  rw [hj, ← hn', events_add, List.length_append] at hle
  have hnone : events L' k (L'.steps n' m).2 = [] := List.eq_nil_of_length_eq_zero (by omega)
  rw [events_add, hnone, List.append_nil]

end Idling

/-- **Wrapping around the occupied part does the same as wrapping around the whole field.** For
    every source that can be loaded, every input and all draws, the machine and one that differs
    from it only in that its pointer always wraps around the whole field make the same events: they
    execute the same cells that are not blank, or that are data, at the same places, with the same
    field, stack, direction, mode, input and draws before and after each, and with the same outputs,
    edits and faults, for as long as no bridge was executed. In between they only pass over blank
    cells, which do nothing. If one of them does so forever, so does the other. -/
theorem wraps_agree {m m₀ : Machine State} {code input : Text}
    (hload : language.load m code input = .ok m₀) :
    language = wandering State.move ∧ around = wandering State.moveAround ∧
    (∀ n, Unbridged (events language n m₀) → ∃ n', events around n' m₀ = events language n m₀) ∧
    (∀ n, Unbridged (events around n m₀) → ∃ n', events language n' m₀ = events around n m₀) ∧
    (∀ L m, L = language ∨ L = around → m.state.blank = true →
      ∃ res place, (L.step m).outcome = .ok res ∧ res.output = none ∧ res.edits = none ∧
        res.error = none ∧
        res.next ≠ none ∧ (L.step m).machine = { m with state.pointer := some place }) ∧
    ((∀ n, ∀ e ∈ events language n m₀, e.before.state.onBridge = false) →
      (Idles language m₀ ↔ Idles around m₀)) := by
  have hfits : m₀.state.Fits := fits_load hload
  refine ⟨wandering_move.symm, rfl, around_follows hfits, follows_around hfits,
    fun L m hL hblank => ?_,
    fun hnever => ?_⟩
  · rcases hL with rfl | rfl
    · rw [← wandering_move]
      exact blank_step steers_move hblank
    · exact blank_step steers_moveAround hblank
  · have hto : ∀ n, ∃ n', events around n' m₀ = events language n m₀ := fun n =>
      around_follows hfits n fun e he => hnever n e (List.dropLast_subset _ he)
    have hfrom : ∀ n, ∃ n', events language n' m₀ = events around n m₀ := fun n =>
      follows_around hfits n fun e he => unbridged_around hfits hnever n e
        (List.dropLast_subset _ he)
    exact ⟨fun h => h.transfer hto hfrom, fun h => h.transfer hfrom hto⟩

/-- A program whose first instruction turns the pointer away from the rest of its row. -/
def turnedBack : Machine State :=
  ⟨{ State.fresh with field := fieldOf ["<@.1"], padding := padding ["<@.1"] }, []⟩

theorem wraps_agree_turnedBack :
    language.load ⟨.fresh, []⟩ "<@.1" [] = .ok turnedBack ∧
      Unbridged (events language 5 turnedBack) ∧
      (events language 5 turnedBack).length = 5 ∧ (events around 5 turnedBack).length = 2 ∧
      ∃ n, events around n turnedBack = events language 5 turnedBack := by
  have hload : language.load ⟨.fresh, []⟩ "<@.1" [] = .ok turnedBack := rfl
  have hall : ((events language 5 turnedBack).dropLast.all fun e => !e.before.state.onBridge) =
      true := by
    decide +kernel
  have hunbridged : Unbridged (events language 5 turnedBack) := by
    intro e he
    exact (Bool.not_eq_true' _).mp (List.all_eq_true.mp hall e he)
  have hlength : (events language 5 turnedBack).length = 5 := by decide +kernel
  have hlength' : (events around 5 turnedBack).length = 2 := by decide +kernel
  obtain ⟨-, -, hagree, -⟩ := wraps_agree hload
  exact ⟨hload, hunbridged, hlength, hlength', hagree 5 hunbridged⟩

end Esolang.Befunge
