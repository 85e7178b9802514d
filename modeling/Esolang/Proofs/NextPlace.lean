/-
  File:      Esolang/Proofs/NextPlace.lean
  Subject:   A result names the place of the instruction that the next step executes.

  Hosts show the next place, pause before its line, and take it for granted that a program without
  one has ended. Each language finds the place in its own way, and each keeps an invariant that
  makes it right.

  * `Language.Names`: the results of a language name what is executed next; `Language.names`: an
    invariant of its steps is enough.
  * `Deadfish.Executes`, `Brainfuck.Executes`, `Befunge.Executes`, `Chef.Executes`: what the next
    step executes, and where this stands.
  * `next_names_instruction`: all of this, for every language.
-/
import Esolang.Proofs.Befunge.Invariant
import Esolang.Proofs.Brainfuck.Nesting
import Esolang.Proofs.Brainfuck.Structured
import Esolang.Proofs.Chef.Isolation
import Esolang.Proofs.Chef.SourceMap
import Esolang.Registry

namespace Esolang

/-! ## 1. All languages -/

namespace Language

variable {σ : Type} (L : Language σ)

/-- In a run without failures every result names the place of what the step after it executes, and
    it names none exactly when nothing is left. -/
def Names (Executes : Text → Machine σ → Span → Prop)
    (Exhausted : Text → Machine σ → Machine σ → Prop) : Prop :=
  ∀ m m₀ code input, L.load m code input = .ok m₀ → ∀ k, (∀ o ∈ (L.steps (k + 1) m₀).1, Works o) →
    ∃ r, (L.steps (k + 1) m₀).1.getLast? = some (.ok r) ∧
      (∀ l, r.next = some l → Executes code (L.steps (k + 1) m₀).2 l) ∧
      (r.next = none ↔ Exhausted code (L.steps k m₀).2 (L.steps (k + 1) m₀).2)

/-- An invariant of the steps that work is enough, if it says after each of them what comes next. -/
theorem names {Executes : Text → Machine σ → Span → Prop}
    {Exhausted : Text → Machine σ → Machine σ → Prop} (P : Text → Machine σ → Prop)
    (hload : ∀ {m m₀ code input}, L.load m code input = .ok m₀ → P code m₀)
    (hadvance : ∀ {code m p m'}, P code m → L.advance m = .ok p m' → P code m' ∧
      (∀ l, p.halted = false → L.location m'.state = some l → Executes code m' l) ∧
      (p.halted = true ∨ L.location m'.state = none ↔ Exhausted code m m')) :
    L.Names Executes Exhausted := by
  intro m m₀ code input hm₀ k hworks
  have hsplit := L.steps_succ k m₀
  rw [hsplit] at hworks ⊢
  obtain ⟨hbefore, hlast⟩ := List.forall_mem_append.mp hworks
  have hinv : P code (L.steps k m₀).2 := by
    refine L.steps_preserves (P := P code) (fun m hm hstep => ?_) (hload hm₀) hbefore
    obtain ⟨p, hp⟩ := L.advance_of_works hstep
    exact (hadvance hm hp).1
  obtain ⟨p, r, hp, hr, hnext⟩ := L.result_of_works (hlast _ List.mem_cons_self)
  obtain ⟨-, hexecutes, hexhausted⟩ := hadvance hinv hp
  refine ⟨r, by rw [List.getLast?_concat, hr], fun l hl => ?_, ?_⟩
  · rw [hnext] at hl
    cases hhalted : p.halted with
    | true =>
      rw [hhalted] at hl
      cases hl
    | false =>
      rw [hhalted] at hl
      exact hexecutes l hhalted hl
  · rw [← hexhausted, hnext]
    cases p.halted with
    | true => simp
    | false => simp

end Language

/-- An attempt that works is a step that works. -/
theorem Language.works_of_advance {σ : Type} (L : Language σ) {m m' : Machine σ} {p : Progress}
    (h : L.advance m = .ok p m') : Works (L.step m).outcome ∧ (L.step m).machine = m' := by
  unfold Language.step
  rw [h]
  exact ⟨⟨_, rfl, rfl⟩, rfl⟩

theorem Attempt.lift_eq_ok {σ τ α : Type} {a : Attempt σ α} {f : σ → τ} {x : α} {t : τ}
    (h : a.lift f = .ok x t) : ∃ s, a = .ok x s ∧ f s = t := by
  obtain ⟨ho, hs⟩ := Attempt.mk.inj h
  exact ⟨a.state, congrArg (Attempt.mk · a.state) ho, hs⟩

/-! ## 2. Rows of commands -/

/-- The code point at a place of the source stands for a command. -/
def StandsAt {α : Type} (decode : CodePoint → Option α) (code : Text) (command : α) (l : Span) :
    Prop :=
  ∃ c, l.covered code.lines = some [c] ∧ decode c = some command

theorem standsAt_of_mem {α : Type} {decode : CodePoint → Option α} {code : Text} {p : Placed α}
    (h : p ∈ placed decode code) : StandsAt decode code p.item p.span := by
  obtain ⟨c, hc, hdecode⟩ := charAt_of_mem_placed h
  exact ⟨c, covered_cell hc, hdecode⟩

section Rows

variable {α : Type} {row : List α} {position : Option Nat} {span : α → Span}

theorem place_eq_none_iff (hbegun : position ≠ none)
    (hle : ∀ p, position = some p → p ≤ row.length) :
    (position.bind (row[·]?)).map span = none ↔ position = some row.length := by
  obtain ⟨p, rfl⟩ := Option.ne_none_iff_exists'.mp hbegun
  have hp : p ≤ row.length := hle p rfl
  rw [Option.bind_some, Option.map_eq_none_iff, List.getElem?_eq_none_iff, Option.some_inj]
  omega

theorem place_eq_some {l : Span} (h : (position.bind (row[·]?)).map span = some l) :
    ∃ p x, position = some p ∧ row[p]? = some x ∧ span x = l := by
  obtain ⟨x, hx, hl⟩ := Option.map_eq_some_iff.mp h
  obtain ⟨p, hp, hx⟩ := Option.bind_eq_some_iff.mp hx
  exact ⟨p, x, hp, hx, hl⟩

end Rows

namespace Deadfish

/-- The step that executes a command at a place of the program. -/
def carryOut (s : State) (here : Nat) (command : Command) : Attempt State Progress :=
  match apply s.value command with
  | .ok (value, output) => .ok (.writing output) { s with value, position := some (here + 1) }
  | .error b => .breakdown b s

/-- The next step executes the command that stands at `l` in the source. -/
def Executes (code : Text) (m : Machine State) (l : Span) : Prop :=
  ∃ here c, m.state.position = some here ∧ (program code)[here]? = some c ∧ c.span = l ∧
    StandsAt Command.ofCodePoint? code c.item l ∧ advance m.state = carryOut m.state here c.item

/-- The last command of the source has been passed. -/
def Passed (code : Text) (s : State) : Prop := s.position = some (program code).length

/-- The program is that of the source, and the place is in it or right behind it. -/
structure OnCourse (code : Text) (s : State) : Prop where
  program : s.program = Deadfish.program code
  place : ∀ p, s.position = some p → p ≤ s.program.length

theorem onCourse_load {m m₀ : Machine State} {code input : Text}
    (h : language.load m code input = .ok m₀) : OnCourse code m₀.state := by
  obtain ⟨start, hread, rfl⟩ := language.read_of_load h
  cases hread
  exact ⟨rfl, fun p hp => by cases hp⟩

theorem advance_statement {s : State} {here : Nat} {c : Placed Command}
    (hpos : s.position = some here) (hc : s.program[here]? = some c) :
    advance s = carryOut s here c.item := by
  cases happly : apply s.value c.item with
  | ok v => simp only [advance, hpos, hc, carryOut, happly]
  | error b => simp only [advance, hpos, hc, carryOut, happly]

theorem OnCourse.advance {code : Text} {s s' : State} {p : Progress} (h : OnCourse code s)
    (ha : advance s = .ok p s') : OnCourse code s' ∧ s'.position ≠ none ∧ p.halted = false := by
  cases hpos : s.position with
  | none =>
    simp only [Deadfish.advance, hpos] at ha
    cases ha
    exact ⟨⟨h.program, fun q hq => by cases hq; exact Nat.zero_le _⟩, Option.some_ne_none 0, rfl⟩
  | some here =>
    cases hc : s.program[here]? with
    | none =>
      simp only [Deadfish.advance, hpos, hc] at ha
      cases ha
    | some c =>
      have hlt : here < s.program.length := (List.getElem?_eq_some_iff.mp hc).1
      rw [advance_statement hpos hc, carryOut] at ha
      split at ha
      · cases ha
        exact ⟨⟨h.program, fun q hq => by cases hq; exact hlt⟩, Option.some_ne_none _, rfl⟩
      · cases ha

theorem names : language.Names Executes fun code _ m' => Passed code m'.state := by
  refine language.names (fun code m => OnCourse code m.state) onCourse_load
    fun {code m p m'} hm hp => ?_
  have hlift : (advance m.state).lift (fun s => { m with state := s }) = .ok p m' := hp
  obtain ⟨s', ha, rfl⟩ := Attempt.lift_eq_ok hlift
  obtain ⟨hcourse, hbegun, hhalted⟩ := hm.advance ha
  refine ⟨hcourse, fun l _ hl => ?_, ?_⟩
  · obtain ⟨here, c, hpos, hc, hspan⟩ := place_eq_some hl
    have hmem : c ∈ program code := hcourse.program ▸ List.mem_of_getElem? hc
    have hstands := standsAt_of_mem hmem
    rw [show c.span = l from hspan] at hstands
    exact ⟨here, c, hpos, hcourse.program ▸ hc, hspan, hstands, advance_statement hpos hc⟩
  · have hplace : location s' = none ↔ s'.position = some s'.program.length :=
      place_eq_none_iff hbegun hcourse.place
    rw [hhalted, Passed, ← hcourse.program, ← hplace]
    simp [language]

end Deadfish

namespace Brainfuck

/-- The step that executes an instruction at a place of the program. -/
def carryOut (s : State) (here : Nat) (i : Instruction) : Attempt State Progress :=
  match execute s here i with
  | .ok (s', place, output) => .ok (.writing output) { s' with position := some place }
  | .error f => .fault f s

/-- The next step executes the command that stands at `l` in the source. -/
def Executes (code : Text) (m : Machine State) (l : Span) : Prop :=
  ∃ program here i, parse code = .ok program ∧ m.state.position = some here ∧
    program[here]? = some i ∧
    i.span = l ∧ StandsAt Command.ofCodePoint? code i.command.item l ∧
    advance m.state = carryOut m.state here i

/-- The last command of the source has been passed. -/
def Passed (code : Text) (s : State) : Prop :=
  ∃ program, parse code = .ok program ∧ s.position = some program.length

/-- The program is that of the source, and the place is in it or right behind it. -/
structure OnCourse (code : Text) (s : State) : Prop where
  program : parse code = .ok s.program
  place : ∀ p, s.position = some p → p ≤ s.program.length

theorem onCourse_load {m m₀ : Machine State} {code input : Text}
    (h : language.load m code input = .ok m₀) : OnCourse code m₀.state := by
  obtain ⟨start, hread, rfl⟩ := language.read_of_load h
  simp only [language] at hread
  split at hread
  · next program hparse =>
    cases hread
    exact ⟨hparse, fun p hp => by cases hp⟩
  · cases hread

theorem advance_statement {s : State} {here : Nat} {i : Instruction} (hpos : s.position = some here)
    (hi : s.program[here]? = some i) : advance s = carryOut s here i := by
  cases hexecute : execute s here i with
  | ok v => simp only [advance, hpos, hi, carryOut, hexecute]
  | error f => simp only [advance, hpos, hi, carryOut, hexecute]

/-- The partner of a bracket is in the program. -/
theorem OnCourse.partner_lt {code : Text} {s : State} (h : OnCourse code s) {i : Instruction}
    (hi : i ∈ s.program) {q : Nat} (hq : i.partner = some q) : q < s.program.length := by
  obtain ⟨-, b, hentries⟩ := parse_shows h.program
  have hentry : i.entry ∈ b.lay 0 := hentries ▸ List.mem_map_of_mem hi
  have hlength : s.program.length = b.size := by
    rw [← List.length_map (·.entry), hentries, Block.length_lay]
  have hlt := b.partner_lt hentry hq
  omega

/-- An instruction leads to a place in the program or right behind it. -/
theorem OnCourse.execute_place {code : Text} {s s' : State} (h : OnCourse code s) {here place : Nat}
    {i : Instruction} (hi : s.program[here]? = some i) {o : Option Text}
    (he : execute s here i = .ok (s', place, o)) :
    s'.program = s.program ∧ place ≤ s.program.length := by
  have hlt : here < s.program.length := (List.getElem?_eq_some_iff.mp hi).1
  have hpartner : i.partner.getD here < s.program.length := by
    cases hq : i.partner with
    | none => exact hlt
    | some q => exact h.partner_lt (List.mem_of_getElem? hi) hq
  rcases Command.cases i.command.item with ⟨a, hc⟩ | hc | hc
  · rcases execute_action s here a hc with ⟨-, herror⟩ | ⟨s₁, o₁, hok, hprogram, -⟩
    · cases he.symm.trans herror
    · cases he.symm.trans hok
      exact ⟨hprogram, hlt⟩
  · cases he.symm.trans (execute_start s here hc)
    refine ⟨rfl, ?_⟩
    split
    · exact hpartner
    · exact hlt
  · cases he.symm.trans (execute_end s here hc)
    refine ⟨rfl, ?_⟩
    split
    · exact hlt
    · exact Nat.le_of_lt hpartner

theorem OnCourse.advance {code : Text} {s s' : State} {p : Progress} (h : OnCourse code s)
    (ha : advance s = .ok p s') : OnCourse code s' ∧ s'.position ≠ none ∧ p.halted = false := by
  cases hpos : s.position with
  | none =>
    simp only [Brainfuck.advance, hpos] at ha
    cases ha
    exact ⟨⟨h.program, fun q hq => by cases hq; exact Nat.zero_le _⟩, Option.some_ne_none 0, rfl⟩
  | some here =>
    cases hi : s.program[here]? with
    | none =>
      simp only [Brainfuck.advance, hpos, hi] at ha
      cases ha
    | some i =>
      rw [advance_statement hpos hi, carryOut] at ha
      split at ha
      · next s₁ place o he =>
        obtain ⟨hprogram, hplace⟩ := h.execute_place hi he
        cases ha
        refine ⟨⟨hprogram ▸ h.program, fun q hq => ?_⟩, Option.some_ne_none _, rfl⟩
        cases hq
        exact hprogram ▸ hplace
      · cases ha

theorem names : language.Names Executes fun code _ m' => Passed code m'.state := by
  refine language.names (fun code m => OnCourse code m.state) onCourse_load
    fun {code m p m'} hm hp => ?_
  have hlift : (advance m.state).lift (fun s => { m with state := s }) = .ok p m' := hp
  obtain ⟨s', ha, rfl⟩ := Attempt.lift_eq_ok hlift
  obtain ⟨hcourse, hbegun, hhalted⟩ := hm.advance ha
  refine ⟨hcourse, fun l _ hl => ?_, ?_⟩
  · obtain ⟨here, i, hpos, hi, hspan⟩ := place_eq_some hl
    have hmem : i.command ∈ placed Command.ofCodePoint? code :=
      (parse_shows hcourse.program).1 ▸ List.mem_map_of_mem (List.mem_of_getElem? hi)
    have hstands := standsAt_of_mem hmem
    rw [show i.command.span = l from hspan] at hstands
    exact ⟨s'.program, here, i, hcourse.program, hpos, hi, hspan, hstands,
      advance_statement hpos hi⟩
  · have hplace : location s' = none ↔ s'.position = some s'.program.length :=
      place_eq_none_iff hbegun hcourse.place
    have hpassed : Passed code s' ↔ s'.position = some s'.program.length := by
      constructor
      · rintro ⟨program, hparse, hpos⟩
        obtain rfl := Except.ok.inj (hparse.symm.trans hcourse.program)
        exact hpos
      · exact fun hpos => ⟨s'.program, hcourse.program, hpos⟩
    rw [hhalted, hpassed, ← hplace]
    simp [language]

end Brainfuck

/-! ## 3. The playfield -/

namespace Befunge

/-- The step that executes a cell. -/
def enact (m : Machine State) (c : CodePoint) : Attempt (Machine State) Progress :=
  if m.state.stringMode ∧ c ≠ '"' then .ok .quiet { m with state := m.state.takeCell c }
  else
    match Instruction.ofCodePoint? c with
    | none => .fault .notAnInstruction m
    | some i =>
      (perform m i).andThen fun effect m' =>
        .ok ⟨effect.output, effect.edit.map ([·]), effect.ended, []⟩
          { m' with state := m'.state.move }

/-- The next step executes the cell at `l`, which is the one under the pointer. -/
def Executes (m : Machine State) (l : Span) : Prop :=
  ∃ x y c, m.state.pointer = some (x, y) ∧ m.state.field.cell? x y = some c ∧ l = .cell y x ∧
    advance m = enact m c

/-- The next step executes `@`, which is data in string mode. -/
def Stops (s : State) : Prop :=
  ∃ x y, s.pointer = some (x, y) ∧ s.field.cell? x y = some (CodePoint.ofChar '@') ∧
    s.stringMode = false

theorem ofCodePoint?_stop {c : CodePoint} (h : Instruction.ofCodePoint? c = some .stop) :
    c = CodePoint.ofChar '@' := by
  unfold Instruction.ofCodePoint? at h
  split at h
  · cases h
  · split at h <;> try cases h
    next hc => exact CodePoint.eq_of_char? hc

theorem stops_iff {s : State} : s.instruction? = some .stop ↔ Stops s := by
  constructor
  · intro h
    obtain ⟨⟨x, y⟩, hpointer, h⟩ := Option.bind_eq_some_iff.mp h
    obtain ⟨c, hcell, h⟩ := Option.bind_eq_some_iff.mp h
    split at h
    · cases h
    · next hdata =>
      obtain rfl := ofCodePoint?_stop h
      refine ⟨x, y, hpointer, hcell, Bool.eq_false_iff.mpr fun hmode => hdata ⟨hmode, by decide⟩⟩
  · rintro ⟨x, y, hpointer, hcell, hmode⟩
    simp only [State.instruction?, hpointer, hcell, hmode, Option.bind_some]
    rfl

/-- Only `@` ends a program. -/
theorem execute_ended (s : State) (i : Instruction) :
    (execute s i).Meets (fun effect _ => effect.ended = decide (i = .stop)) fun _ => True := by
  cases i with
  | divide =>
    unfold execute
    simp only
    split
    · exact .fault trivial
    · exact .ok rfl
  | remainder =>
    unfold execute
    simp only
    split
    · exact .fault trivial
    · split
      · exact .ok rfl
      · exact .breakdown trivial
  | writeNumber =>
    unfold execute
    simp only
    split
    · exact .ok rfl
    · exact .breakdown trivial
  | writeCharacter =>
    unfold execute
    simp only
    split
    · exact .ok rfl
    · split
      · exact .fault trivial
      · exact .breakdown trivial
  | get =>
    unfold execute readCell
    simp only
    split
    · split
      · exact .ok rfl
      · exact .breakdown trivial
    · exact .fault trivial
  | put =>
    unfold execute writeCell
    simp only
    split
    · split
      · exact .ok rfl
      · split
        · exact .fault trivial
        · exact .breakdown trivial
    · exact .fault trivial
  | readNumber =>
    unfold execute
    simp only
    split
    · exact .ok rfl
    · trivial
  | _ => exact .ok rfl

theorem perform_ended (m : Machine State) (i : Instruction) :
    (perform m i).Meets (fun effect _ => effect.ended = decide (i = .stop)) fun _ => True := by
  by_cases hrandom : i = .turnRandomly
  · subst hrandom
    exact .ok rfl
  · rw [perform_eq m hrandom]
    exact .lift (execute_ended m.state i)

theorem halted_iff {m m' : Machine State} (hm : m.state.Placed) {p : Progress}
    (h : advance m = .ok p m') : p.halted = true ↔ Stops m.state := by
  rw [← stops_iff]
  cases advances hm with
  | starts hpointer ha =>
    obtain ⟨hp, -⟩ := Attempt.mk.inj (h.symm.trans ha)
    cases hp
    simp [State.instruction?, hpointer]
  | takes c hnone ha =>
    obtain ⟨hp, -⟩ := Attempt.mk.inj (h.symm.trans ha)
    cases hp
    simp [hnone, Progress.quiet]
  | refuses hnone ha => cases h.symm.trans ha
  | performs i hi ha =>
    have hended := perform_ended m i
    cases hperform : perform m i with
    | mk outcome m₁ =>
      rw [hperform] at ha hended
      cases outcome with
      | error e => cases h.symm.trans ha
      | ok effect =>
        obtain ⟨hp, -⟩ := Attempt.mk.inj (h.symm.trans ha)
        cases hp
        rw [hi, Option.some_inj, ← decide_eq_true_iff (p := i = .stop), ← show effect.ended =
          _ from hended]

theorem advance_enacts {m : Machine State} {x y : Nat} {c : CodePoint}
    (hpointer : m.state.pointer = some (x, y)) (hcell : m.state.field.cell? x y = some c) :
    advance m = enact m c := by
  by_cases hdata : m.state.stringMode ∧ c ≠ '"'
  · simp only [advance, hpointer, hcell, enact, if_pos hdata]
  · cases hi : Instruction.ofCodePoint? c with
    | none => simp only [advance, hpointer, hcell, enact, if_neg hdata, hi]
    | some i => simp only [advance, hpointer, hcell, enact, if_neg hdata, hi]

theorem names : language.Names (fun _ m l => Executes m l) fun _ m _ => Stops m.state := by
  refine language.names (fun _ m => m.state.Fits) fits_load fun {code m p m'} hm hp => ?_
  obtain ⟨-, rfl⟩ := language.works_of_advance hp
  have hfits : (language.step m).machine.state.Fits := hm.step
  have hbegun : (language.step m).machine.state.pointer ≠ none :=
    pointer_steps (m := m) Nat.zero_lt_one
  refine ⟨hfits, fun l _ hl => ?_, ?_⟩
  · obtain ⟨⟨x, y⟩, hpointer, rfl⟩ := Option.map_eq_some_iff.mp hl
    obtain ⟨hx, hy⟩ := hfits.pointer hpointer
    obtain ⟨c, hcell⟩ := hfits.covers.cell hx hy
    exact ⟨x, y, c, hpointer, hcell, rfl, advance_enacts hpointer hcell⟩
  · rw [← halted_iff hm.toPlaced hp]
    have hsome : language.location (language.step m).machine.state ≠ none := by
      intro hnone
      exact hbegun (Option.map_eq_none_iff.mp hnone)
    simp [hsome]

end Befunge

/-! ## 4. Calls of recipes -/

namespace Chef

/-- What the next step executes, and where it stands in the source: a statement in the method of the
    innermost call, or the line that says how many dishes it serves. -/
inductive Executes (code : Text) (m : Machine State) (l : Span) : Prop
  | statement (top : Frame) (outer : List Frame) (here : Nat) (s : Step) (hcalls : m.state.calls =
        top :: outer)
      (hlive : top.completed = false) (hplace : top.position = some here)
      (hstatement : top.recipe.method[here]? = some s) (hspan : s.span = l)
        (hwritten : s.Written code.lines)
      (hact : act m = execute m top outer here s.operation)
  | serving (top : Frame) (outer : List Frame) (s : Serving) (hcalls : m.state.calls = top :: outer)
      (hlive : top.completed = false) (hplace : top.position = some top.recipe.method.length)
      (hserving : top.recipe.serving = some s) (hspan : .line s.row = l)
        (hwritten : s.Written code.lines)
      (hact : act m =
        ((top.serve s.dishes).andThen fun e f => .ok e (f.goTo (top.recipe.method.length + 1))).lift
          fun f => { m with state := { m.state with calls := f :: outer } })

/-- Giving finished calls back leaves calls that were there, at their places. -/
theorem settle_members (s : State) :
    ∀ f ∈ s.settle.1.calls, ∃ g ∈ s.calls, f.recipe = g.recipe ∧ f.position = g.position := by
  intro f hf
  obtain ⟨g, hg, rfl | ⟨items, rfl⟩⟩ := mem_settle hf
  · exact ⟨f, hg, rfl, rfl⟩
  · exact ⟨g, hg, rfl, rfl⟩

/-- The calls of a program that is under way: they are calls of its recipes, and all callers have
    begun. -/
structure OnCourse (program : Program) (m : Machine State) : Prop extends UnderWay program m where
  recipe : ∀ f ∈ m.state.calls, f.recipe ∈ program.recipes
  caller : ∀ f ∈ m.state.calls.tail, f.position ≠ none

theorem onCourse_load {m m₀ : Machine State} {code input : Text}
    (h : language.load m code input = .ok m₀) :
    ∃ program, parse code = .ok program ∧ OnCourse program m₀ := by
  obtain ⟨start, hread, rfl⟩ := language.read_of_load h
  simp only [language] at hread
  split at hread
  · next program hparse =>
    cases hread
    refine ⟨program, hparse, ⟨.inr (start_sound hparse input), rfl⟩, fun f hf => ?_,
      fun f hf => absurd hf List.not_mem_nil⟩
    rw [List.mem_singleton.mp hf]
    exact List.mem_cons_self
  · cases hread

/-- After a step, all calls have begun. -/
theorem OnCourse.step {program : Program} {m : Machine State} (h : OnCourse program m)
    (hworks : Works (language.step m).outcome) :
    OnCourse program (language.step m).machine ∧
      ∀ f ∈ (language.step m).machine.state.calls, f.position ≠ none := by
  obtain ⟨e, m', hact, hstep⟩ := act_of_works hworks
  obtain ⟨top, outer, hcalls⟩ : ∃ top outer, m.state.calls = top :: outer := by
    rcases h.sound with hnone | hsound
    · unfold act at hact
      rw [hnone] at hact
      cases hact
    · obtain ⟨top, outer, hcalls, -⟩ := hsound.live
      exact ⟨top, outer, hcalls⟩
  have hleaves := act_leaves hcalls
  rw [hact] at hleaves
  obtain ⟨-, front, top', hsame, hafter, hfront⟩ := hleaves
  have hcalls' : m'.state.calls = front ++ top' :: outer := hafter
  have hrecipe := h.recipe
  have hcaller := h.caller
  rw [hcalls] at hrecipe hcaller
  have hmembers : ∀ f ∈ m'.state.calls, f.recipe ∈ program.recipes ∧ f.position ≠ none := by
    intro f hf
    rw [hcalls'] at hf
    rcases List.mem_append.mp hf with hf | hf
    · obtain ⟨hbegun, name, hname⟩ := hfront f hf
      rw [h.book] at hname
      exact ⟨mem_recipes_of_get? hname, hbegun⟩
    · rcases List.mem_cons.mp hf with rfl | hf
      · exact ⟨hsame.recipe ▸ hrecipe top List.mem_cons_self, hsame.begun⟩
      · exact ⟨hrecipe f (List.mem_cons_of_mem _ hf), hcaller f hf⟩
  have hsettled : ∀ f ∈ (language.step m).machine.state.calls, f.recipe ∈ program.recipes ∧
      f.position ≠ none := by
    intro f hf
    rw [hstep] at hf
    obtain ⟨g, hg, hr, hp⟩ := settle_members m'.state f hf
    rw [hr, hp]
    exact hmembers g hg
  exact ⟨⟨h.toUnderWay.step hworks, fun f hf => (hsettled f hf).1,
    fun f hf => (hsettled f (List.mem_of_mem_tail hf)).2⟩, fun f hf => (hsettled f hf).2⟩

/-- **The innermost call has something left to execute**, and stands at it. -/
theorem OnCourse.executes {code : Text} {program : Program} (hparse : parse code = .ok program)
    {m : Machine State} (h : OnCourse program m) (hbegun : ∀ f ∈ m.state.calls, f.position ≠ none)
    (hcalls : m.state.calls ≠ []) : ∃ l, location m.state = some l ∧ Executes code m l := by
  obtain ⟨top, outer, hcalls, hlive⟩ := (h.sound.resolve_left hcalls).live
  have hmem : top ∈ m.state.calls := hcalls ▸ List.mem_cons_self
  have hwritten : top.recipe.Written code.lines := parse_written hparse _ (h.recipe top hmem)
  obtain ⟨here, hpos⟩ := Option.ne_none_iff_exists'.mp (hbegun top hmem)
  rcases top.unfinished_cases hpos hlive with hlt | ⟨rfl, s, hserving⟩
  · have hs := List.getElem?_eq_getElem hlt
    refine ⟨top.recipe.method[here].span, ?_, .statement top outer here _ hcalls hlive hpos hs rfl
      (hwritten.step _ (List.getElem_mem hlt)) (act_statement hcalls hpos hs)⟩
    simp only [location, hcalls, Frame.location, hpos, hs]
  · have hnone : top.recipe.method[top.recipe.method.length]? = none :=
      List.getElem?_eq_none (Nat.le_refl _)
    refine ⟨.line s.row, ?_, .serving top outer s hcalls hlive hpos hserving rfl
      (hwritten.serving s hserving)
      (act_serving hcalls hpos hserving)⟩
    simp only [location, hcalls, Frame.location, hpos, hnone, hserving, Option.map_some]

theorem names : language.Names Executes fun _ _ m' => m'.state.calls = [] := by
  refine language.names (fun code m => ∃ program, parse code = .ok program ∧
    OnCourse program m) onCourse_load
    fun {code m p m'} hm hp => ?_
  obtain ⟨program, hparse, hcourse⟩ := hm
  obtain ⟨hworks, rfl⟩ := language.works_of_advance hp
  obtain ⟨hcourse', hbegun⟩ := hcourse.step hworks
  have hhalted : p.halted = false := by
    rw [advance_eq] at hp
    cases hact : act m with
    | mk outcome m₁ =>
      rw [hact] at hp
      cases outcome with
      | ok e =>
        obtain ⟨hq, -⟩ := Attempt.mk.inj hp
        cases hq
        rfl
      | error x => cases hp
  refine ⟨⟨program, hparse, hcourse'⟩, fun l _ hl => ?_, ?_⟩
  · have hcalls : (language.step m).machine.state.calls ≠ [] := by
      intro hnone
      have hplace : location (language.step m).machine.state = some l := hl
      rw [location, hnone] at hplace
      cases hplace
    obtain ⟨l', hl', hexecutes⟩ := hcourse'.executes hparse hbegun hcalls
    obtain rfl := Option.some.inj (hl.symm.trans hl')
    exact hexecutes
  · rw [hhalted]
    constructor
    · rintro (hfalse | hnone)
      · cases hfalse
      · refine Classical.byContradiction fun hcalls => ?_
        obtain ⟨l, hl, -⟩ := hcourse'.executes hparse hbegun hcalls
        cases hl.symm.trans hnone
    · intro hnone
      refine .inr ?_
      show location (language.step m).machine.state = none
      rw [location, hnone]

end Chef

/-! ## 5. Every language -/

/-- The next step executes what stands at a place: a cell of the playfield, a command of the source,
    or a statement or serving line of a recipe. -/
def LanguageId.Executes : (id : LanguageId) → Text → Machine id.State → Span → Prop
  | .befunge93 => fun _ m l => Befunge.Executes m l
  | .brainfuck => Brainfuck.Executes
  | .chef => Chef.Executes
  | .deadfish => Deadfish.Executes

/-- The step from `m` to `m'` leaves nothing to execute: it has executed `@`, has passed the last
    command, or has finished the last call. -/
def LanguageId.Exhausted : (id : LanguageId) → Text → (m m' : Machine id.State) → Prop
  | .befunge93 => fun _ m _ => Befunge.Stops m.state
  | .brainfuck => fun code _ m' => Brainfuck.Passed code m'.state
  | .chef => fun _ _ m' => m'.state.calls = []
  | .deadfish => fun code _ m' => Deadfish.Passed code m'.state

/-- **The next place of a result is that of the instruction which the next step executes**, in every
    language, for every source that can be loaded, every input and all draws, after any number of
    steps that work. A result names no place exactly when nothing is left to execute. -/
theorem next_names_instruction (id : LanguageId) {m m₀ : Machine id.State} {code input : Text}
    (hload : id.language.load m code input = .ok m₀) {k : Nat}
    (hworks : ∀ o ∈ (id.language.steps (k + 1) m₀).1, Works o) :
    ∃ r, (id.language.steps (k + 1) m₀).1.getLast? = some (.ok r) ∧
      (∀ l, r.next = some l → id.Executes code (id.language.steps (k + 1) m₀).2 l) ∧
      (r.next = none ↔
        id.Exhausted code (id.language.steps k m₀).2 (id.language.steps (k + 1) m₀).2) := by
  cases id with
  | befunge93 => exact Befunge.names m m₀ code input hload k hworks
  | brainfuck => exact Brainfuck.names m m₀ code input hload k hworks
  | chef => exact Chef.names m m₀ code input hload k hworks
  | deadfish => exact Deadfish.names m m₀ code input hload k hworks

/-- The seventh step ends a call, and the caller goes on at the end of its loop. -/
theorem next_names_instruction_nestedLoops :
    let m₀ : Machine Chef.State := ⟨.start Chef.nestedLoopsProgram [], []⟩
    Chef.language.load ⟨.fresh, []⟩ Chef.nestedLoops [] = .ok m₀ ∧
      (∀ o ∈ (Chef.language.steps 7 m₀).1, Works o) ∧
      ∃ r, (Chef.language.steps 7 m₀).1.getLast? = some (.ok r) ∧ r.next = some (.within 7 16 40) ∧
        Chef.Executes Chef.nestedLoops (Chef.language.steps 7 m₀).2 (.within 7 16 40) ∧
        (Chef.language.steps 7 m₀).2.state.calls ≠ [] := by
  intro m₀
  have hload : Chef.language.load ⟨.fresh, []⟩ Chef.nestedLoops [] = .ok m₀ :=
    Chef.load_of_parse Chef.parse_nestedLoops ⟨.fresh, []⟩ []
  have hworks : ∀ o ∈ (Chef.language.steps 7 m₀).1, Works o := by decide +kernel
  have hplace : ((Chef.language.steps 7 m₀).1.getLast?.bind (·.toOption)).map (·.next) =
      some (some (.within 7 16 40)) := by
    decide +kernel
  -- from here on it does not matter which program it is
  clear_value m₀
  obtain ⟨r, hr, hexecutes, hexhausted⟩ := next_names_instruction .chef hload hworks
  have hlast : (Chef.language.steps 7 m₀).1.getLast? = some (.ok r) := hr
  rw [hlast] at hplace
  have hnext : r.next = some (.within 7 16 40) := Option.some.inj hplace
  refine ⟨hload, hworks, r, hlast, hnext, hexecutes _ hnext, fun hcalls => ?_⟩
  cases hnext.symm.trans (hexhausted.mpr hcalls)

end Esolang
