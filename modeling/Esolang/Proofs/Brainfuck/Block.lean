/-
  File:      Esolang/Proofs/Brainfuck/Block.lean
  Subject:   A program as a tree of loops, written out, read, and laid out with jump targets.

  * `Action`: a command that is no bracket; `Block`: a stretch of a program as a tree.
  * `Block.commands`: a tree written out; `Block.ofCommands`: the tree of a row of commands, and
    `ofCommands_eq_some_iff`, which says that reading undoes writing.
  * `Block.lay`: the commands of a tree from a given place on, every bracket with the place of its
    partner.
-/
import Esolang.Brainfuck.Program

namespace Esolang.Brainfuck

/-! ## 1. Trees -/

/-- A command that is no bracket. -/
inductive Action where
  | left
  | right
  | increment
  | decrement
  | output
  | input
deriving DecidableEq

/-- The command of an action. -/
def Action.command : Action → Command
  | .left => .left
  | .right => .right
  | .increment => .increment
  | .decrement => .decrement
  | .output => .output
  | .input => .input

/-- A stretch of a program as a tree. -/
inductive Block where
  /-- Nothing. -/
  | done
  /-- An action, and what follows it. -/
  | act (action : Action) (rest : Block)
  /-- A loop with what is inside, and what follows it. -/
  | loop (body rest : Block)
deriving DecidableEq

namespace Block

/-- The number of commands in a tree. -/
def size : Block → Nat
  | done => 0
  | act _ rest => rest.size + 1
  | loop body rest => body.size + rest.size + 2

/-- Where a tree ends that begins with an action at place `base`. -/
theorem end_act (a : Action) (rest : Block) (base : Nat) :
    base + (act a rest).size = base + 1 + rest.size := by
  rw [size]
  omega

/-- Where a tree ends that begins with a loop at place `base`. -/
theorem end_loop (body rest : Block) (base : Nat) :
    base + (loop body rest).size = base + 1 + body.size + 1 + rest.size := by
  rw [size]
  omega

/-- One tree after another. -/
def append : Block → Block → Block
  | done, b => b
  | act a rest, b => act a (rest.append b)
  | loop body rest, b => loop body (rest.append b)

@[simp] theorem append_done (b : Block) : b.append done = b := by
  induction b with
  | done => rfl
  | act a rest ih => rw [append, ih]
  | loop body rest _ ih => rw [append, ih]

/-! ## 2. Writing and reading -/

/-- The commands of a tree. -/
def commands : Block → List Command
  | done => []
  | act a rest => a.command :: rest.commands
  | loop body rest => .loopStart :: (body.commands ++ .loopEnd :: rest.commands)

/-- The tree of a row of commands up to the first closing bracket that was opened before it, and the
    trees behind all such brackets; none when a bracket is not closed. -/
def read : List Command → Option (Block × List Block)
  | [] => some (done, [])
  | c :: cs =>
    match read cs with
    | none => none
    | some (block, ends) =>
      match c with
      | .loopStart =>
        match ends with
        | [] => none
        | rest :: outer => some (loop block rest, outer)
      | .loopEnd => some (done, block :: ends)
      | .left => some (act .left block, ends)
      | .right => some (act .right block, ends)
      | .increment => some (act .increment block, ends)
      | .decrement => some (act .decrement block, ends)
      | .output => some (act .output block, ends)
      | .input => some (act .input block, ends)

/-- The tree of a row of commands; none when its brackets do not match. -/
def ofCommands (cs : List Command) : Option Block :=
  match read cs with
  | some (b, []) => some b
  | _ => none

theorem read_action {cs : List Command} {b : Block} {ends : List Block} (a : Action)
    (h : read cs = some (b, ends)) : read (a.command :: cs) = some (act a b, ends) := by
  cases a <;> simp [Action.command, read, h]

/-- Reading goes through a tree that was written out and on with whatever follows it. -/
theorem read_commands_append (b : Block) {cs : List Command} {rest : Block} {ends : List Block}
    (h : read cs = some (rest, ends)) : read (b.commands ++ cs) = some (b.append rest, ends) := by
  induction b generalizing cs rest ends with
  | done => exact h
  | act a b' ih =>
    rw [commands, List.cons_append]
    exact read_action a (ih h)
  | loop body b' ihb ihr =>
    -- reading comes from the right: what follows the loop, its end, what is inside, and its
    -- beginning last
    have hclose : read (.loopEnd :: (b'.commands ++ cs)) = some (done, b'.append rest :: ends) := by
      rw [read, ihr h]
    have hbody := ihb hclose
    rw [append_done] at hbody
    rw [commands, List.cons_append, List.append_assoc, List.cons_append, read, hbody]
    rfl

theorem read_eq {cs : List Command} {b : Block} {ends : List Block} (h : read cs = some (b, ends)) :
    cs = b.commands ++ ends.flatMap fun e => .loopEnd :: e.commands := by
  induction cs generalizing b ends with
  | nil =>
    cases h
    rfl
  | cons c cs ih =>
    rw [read] at h
    cases hread : read cs with
    | none =>
      rw [hread] at h
      cases h
    | some found =>
      obtain ⟨b', ends'⟩ := found
      have hcs := ih hread
      rw [hread] at h
      cases c with
      | loopStart =>
        cases ends' with
        | nil => cases h
        | cons rest outer =>
          cases h
          rw [hcs]
          simp [commands]
      | loopEnd =>
        cases h
        rw [hcs]
        simp [commands]
      | left | right | increment | decrement | output | input =>
        cases h
        rw [hcs]
        rfl

/-- **A row of commands has the tree that it writes out, and no other.** -/
theorem ofCommands_eq_some_iff {cs : List Command} {b : Block} :
    ofCommands cs = some b ↔ cs = b.commands := by
  constructor
  · intro h
    unfold ofCommands at h
    split at h
    · next hread =>
      cases h
      have hcs := read_eq hread
      rw [List.flatMap_nil, List.append_nil] at hcs
      exact hcs
    · cases h
  · rintro rfl
    have hnil : read [] = some (done, []) := rfl
    have hread := read_commands_append b hnil
    rw [List.append_nil, append_done] at hread
    rw [ofCommands, hread]

/-! ## 3. Laying out -/

/-- The commands of a tree from place `base` on, every bracket with the place of its partner. -/
def lay (base : Nat) : Block → List (Command × Option Nat)
  | done => []
  | act a rest => (a.command, none) :: rest.lay (base + 1)
  | loop body rest =>
    (.loopStart, some (base + 1 + body.size)) ::
      (body.lay (base + 1) ++ (.loopEnd, some base) :: rest.lay (base + 1 + body.size + 1))

@[simp] theorem length_lay (b : Block) (base : Nat) : (b.lay base).length = b.size := by
  induction b generalizing base with
  | done => rfl
  | act a rest ih => simp [lay, size, ih]
  | loop body rest ihb ihr =>
    simp only [lay, size, List.length_cons, List.length_append, ihb, ihr]
    omega

theorem lay_append (a b : Block) (base : Nat) :
    (a.append b).lay base = a.lay base ++ b.lay (base + a.size) := by
  induction a generalizing base with
  | done => rfl
  | act x rest ih => simp [append, lay, end_act, ih]
  | loop body rest _ ih => simp [append, lay, end_loop, ih]

theorem map_fst_lay (b : Block) (base : Nat) : (b.lay base).map Prod.fst = b.commands := by
  induction b generalizing base with
  | done => rfl
  | act a rest ih => simp [lay, commands, ih]
  | loop body rest ihb ihr => simp [lay, commands, ihb, ihr]

/-- Every bracket has its partner. -/
theorem partner_ne_none (b : Block) {base : Nat} {entry : Command × Option Nat}
    (h : entry ∈ b.lay base) (hbracket : entry.1 = .loopStart ∨ entry.1 = .loopEnd) :
    entry.2 ≠ none := by
  induction b generalizing base with
  | done => cases h
  | act a rest ih =>
    rcases List.mem_cons.mp h with rfl | h
    · cases a <;> rcases hbracket with e | e <;> cases e
    · exact ih h
  | loop body rest ihb ihr =>
    rcases List.mem_cons.mp h with rfl | h
    · exact Option.some_ne_none _
    · rcases List.mem_append.mp h with h | h
      · exact ihb h
      · rcases List.mem_cons.mp h with rfl | h
        · exact Option.some_ne_none _
        · exact ihr h

/-- The partner of a bracket is in the tree. -/
theorem partner_lt (b : Block) {base : Nat} {entry : Command × Option Nat} (h : entry ∈ b.lay base)
    {q : Nat} (hq : entry.2 = some q) : q < base + b.size := by
  induction b generalizing base with
  | done => cases h
  | act a rest ih =>
    rw [end_act]
    rcases List.mem_cons.mp h with rfl | h
    · cases hq
    · exact ih h
  | loop body rest ihb ihr =>
    have hend : base + (loop body rest).size = base + 1 + body.size + 1 + rest.size :=
      end_loop body rest base
    rcases List.mem_cons.mp h with rfl | h
    · obtain rfl := Option.some.inj hq
      omega
    · rcases List.mem_append.mp h with h | h
      · have hbody := ihb h
        omega
      · rcases List.mem_cons.mp h with rfl | h
        · obtain rfl := Option.some.inj hq
          omega
        · rw [hend]
          exact ihr h

end Block

end Esolang.Brainfuck
