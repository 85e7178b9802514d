/-
  File:      Esolang/Proofs/Chef/Block.lean
  Subject:   A method as a tree, and the tree laid out flat.

  A method is a row of operations that refer to each other by their places. The same method is a
  tree: a sequence of operations and loops, where a loop has a block of its own inside. Laying out a
  tree gives every loop the places of its two ends and every `Set aside` the end of the loop it
  stands in.

  * `Block`: a stretch of a method as a tree; `Block.Nests`: its verbs go together, and a
    `Set aside` stands inside of a loop.
  * `Block.lay`: the operations of a tree from a given place on.
  * `Block.read`, `Block.ofMethod`: the tree of a row of operations, read by its loop verbs alone,
    and `ofMethod_lay`, which says that reading finds the tree that was laid out.
  * `Block.Holds`: which operation a laid out tree has at which place.
-/
import Esolang.Chef.Method
import Esolang.Proofs.Lists

namespace Esolang.Chef

/-! ## 1. Trees -/

/-- Whether an operation takes part in a loop: it begins one, ends one, or leaves one. -/
def Operation.isLoop : Operation → Bool
  | .loopStart .. | .loopEnd .. | .setAside .. => true
  | _ => false

/-- A stretch of a method as a tree. -/
inductive Block where
  /-- Nothing. -/
  | done
  /-- An operation that takes no part in a loop, and what follows it. -/
  | plain (op : Operation) (rest : Block)
  /-- `Set aside`, and what follows it. -/
  | aside (rest : Block)
  /-- A loop, and what follows it: the words it begins with, what is inside, and the words it ends
      with. -/
  | loop (verb ingredient : Text) (body : Block) (closing : Text) (count : Option Text)
      (rest : Block)
deriving DecidableEq

namespace Block

/-- The number of operations in a tree. -/
def size : Block → Nat
  | done => 0
  | plain _ rest => rest.size + 1
  | aside rest => rest.size + 1
  | loop _ _ body _ _ rest => body.size + rest.size + 2

/-- One tree after another. -/
def append : Block → Block → Block
  | done, b => b
  | plain op rest, b => plain op (rest.append b)
  | aside rest, b => aside (rest.append b)
  | loop verb i body closing count rest, b => loop verb i body closing count (rest.append b)

/-- The verbs of all loops go together, and `Set aside` stands inside of a loop; the outermost block
    is inside of one when `inLoop` says so. -/
def Nests (inLoop : Bool) : Block → Prop
  | done => True
  | plain op rest => op.isLoop = false ∧ rest.Nests inLoop
  | aside rest => inLoop = true ∧ rest.Nests inLoop
  | loop verb _ body closing _ rest =>
    closes verb closing = true ∧ body.Nests true ∧ rest.Nests inLoop

/-- The operations of a tree from place `base` on, inside of a loop that ends at `closer`. -/
def lay (base : Nat) (closer : Option Nat) : Block → List Operation
  | done => []
  | plain op rest => op :: rest.lay (base + 1) closer
  | aside rest => .setAside closer :: rest.lay (base + 1) closer
  | loop verb i body closing count rest =>
    .loopStart verb i (some (base + 1 + body.size)) ::
      (body.lay (base + 1) (some (base + 1 + body.size)) ++
        .loopEnd closing count (some base) :: rest.lay (base + 1 + body.size + 1) closer)

@[simp] theorem append_done (b : Block) : b.append done = b := by
  induction b with
  | done => rfl
  | plain op rest ih => rw [append, ih]
  | aside rest ih => rw [append, ih]
  | loop verb i body closing count rest _ ih => rw [append, ih]

theorem nests_append {l : Bool} {a b : Block} (ha : a.Nests l) (hb : b.Nests l) :
    (a.append b).Nests l := by
  induction a with
  | done => exact hb
  | plain op rest ih => exact ⟨ha.1, ih ha.2⟩
  | aside rest ih => exact ⟨ha.1, ih ha.2⟩
  | loop verb i body closing count rest _ ih => exact ⟨ha.1, ha.2.1, ih ha.2.2⟩

@[simp] theorem length_lay (b : Block) (base : Nat) (closer : Option Nat) :
    (b.lay base closer).length = b.size := by
  induction b generalizing base closer with
  | done => rfl
  | plain op rest ih => simp [lay, size, ih]
  | aside rest ih => simp [lay, size, ih]
  | loop verb i body closing count rest ihb ihr =>
    simp only [lay, size, List.length_cons, List.length_append, ihb, ihr]
    omega

theorem lay_append (a b : Block) (base : Nat) (closer : Option Nat) :
    (a.append b).lay base closer = a.lay base closer ++ b.lay (base + a.size) closer := by
  induction a generalizing base with
  | done => simp [append, lay, size]
  | plain op rest ih =>
    have e : base + 1 + rest.size = base + (rest.size + 1) := by omega
    simp [append, lay, size, ih, e]
  | aside rest ih =>
    have e : base + 1 + rest.size = base + (rest.size + 1) := by omega
    simp [append, lay, size, ih, e]
  | loop verb i body closing count rest _ ih =>
    have e : base + 1 + body.size + 1 + rest.size = base + (body.size + rest.size + 2) := by omega
    simp [append, lay, size, ih, e]

/-! ## 2. Reading a tree -/

/-- The end of a loop whose beginning has not been found yet: its words, and the tree behind it. -/
structure Closing where
  /-- Its verb. -/
  verb : Text
  /-- The ingredient it counts down. -/
  count : Option Text
  /-- What follows it. -/
  rest : Block
deriving DecidableEq

/-- The tree of a row of operations up to the first end of a loop that was begun before it, and all
    such ends in order; none when a loop does not end. Places are not looked at. -/
def read : List Operation → Option (Block × List Closing)
  | [] => some (done, [])
  | op :: ops =>
    match read ops with
    | none => none
    | some (block, ends) =>
      match op with
      | .loopStart verb i _ =>
        match ends with
        | [] => none
        | e :: outer => some (loop verb i block e.verb e.count e.rest, outer)
      | .loopEnd verb i _ => some (done, ⟨verb, i, block⟩ :: ends)
      | .setAside _ => some (aside block, ends)
      | op => some (plain op block, ends)

/-- The tree of a method; none when its loops do not match. -/
def ofMethod (steps : List Step) : Option Block :=
  match read (steps.map (·.operation)) with
  | some (b, []) => some b
  | _ => none

theorem read_plain {op : Operation} {ops : List Operation} {b : Block} {ends : List Closing}
    (hop : op.isLoop = false) (h : read ops = some (b, ends)) :
    read (op :: ops) = some (plain op b, ends) := by
  cases op <;> simp_all [read, Operation.isLoop]

/-- Reading goes through a laid out tree and on with whatever follows it. -/
theorem read_lay_append {l : Bool} {b : Block} (hb : b.Nests l) {ops : List Operation}
    {rest : Block} {ends : List Closing} (h : read ops = some (rest, ends)) (base : Nat)
    (closer : Option Nat) : read (b.lay base closer ++ ops) = some (b.append rest, ends) := by
  induction b generalizing l base closer ops rest ends with
  | done => exact h
  | plain op b' ih =>
    rw [lay, List.cons_append]
    exact read_plain hb.1 (ih hb.2 h (base + 1) closer)
  | aside b' ih =>
    rw [lay, List.cons_append, read, ih hb.2 h (base + 1) closer]
    rfl
  | loop verb i body closing count b' ihb ihr =>
    -- reading comes from the right: what follows the loop, its end, its block, and its beginning
    -- last
    have hend := ihr hb.2.2 h (base + 1 + body.size + 1) closer
    have hclose : read (.loopEnd closing count (some base) ::
        (b'.lay (base + 1 + body.size + 1) closer ++ ops)) =
          some (done, ⟨closing, count, b'.append rest⟩ :: ends) := by
      rw [read, hend]
    have hbody := ihb hb.2.1 hclose (base + 1) (some (base + 1 + body.size))
    rw [lay, List.cons_append, List.append_assoc, List.cons_append, read, hbody]
    simp only [append_done]
    rfl

/-- **Reading finds the tree that was laid out**, whatever the places are. -/
theorem ofMethod_lay {l : Bool} {b : Block} (hb : b.Nests l) {steps : List Step} {base : Nat}
    {closer : Option Nat} (h : steps.map (·.operation) = b.lay base closer) :
    ofMethod steps = some b := by
  have hnil : read [] = some (done, []) := rfl
  have hr := read_lay_append hb hnil base closer
  rw [List.append_nil, append_done] at hr
  rw [ofMethod, h, hr]

/-! ## 3. What stands where -/

/-- The tree, laid out from place `base` on inside of a loop that ends at `closer`, has operation
    `op` at place `p`. -/
def Holds (base : Nat) (closer : Option Nat) : Block → Nat → Operation → Prop
  | done, _, _ => False
  | plain o rest, p, op => (p = base ∧ op = o) ∨ rest.Holds (base + 1) closer p op
  | aside rest, p, op => (p = base ∧ op = .setAside closer) ∨ rest.Holds (base + 1) closer p op
  | loop verb i body closing count rest, p, op =>
    (p = base ∧ op = .loopStart verb i (some (base + 1 + body.size))) ∨
    body.Holds (base + 1) (some (base + 1 + body.size)) p op ∨
    (p = base + 1 + body.size ∧ op = .loopEnd closing count (some base)) ∨
    rest.Holds (base + 1 + body.size + 1) closer p op

theorem Holds.bounds {b : Block} {base p : Nat} {closer : Option Nat} {op : Operation}
    (h : b.Holds base closer p op) : base ≤ p ∧ p < base + b.size := by
  induction b generalizing base closer with
  | done => exact h.elim
  | plain o rest ih =>
    rw [size]
    rcases h with ⟨rfl, _⟩ | h
    · omega
    · have := ih h
      omega
  | aside rest ih =>
    rw [size]
    rcases h with ⟨rfl, _⟩ | h
    · omega
    · have := ih h
      omega
  | loop verb i body closing count rest ihb ihr =>
    rw [size]
    rcases h with ⟨rfl, _⟩ | h | ⟨rfl, _⟩ | h
    · omega
    · have := ihb h
      omega
    · omega
    · have := ihr h
      omega

/-- What a laid out tree holds is what the row of its operations has, counted from `base`. -/
theorem holds_iff (b : Block) (base p : Nat) (closer : Option Nat) (op : Operation) :
    b.Holds base closer p op ↔ base ≤ p ∧ (b.lay base closer)[p - base]? = some op := by
  induction b generalizing base closer with
  | done => simp [Holds, lay]
  | plain o rest ih => rw [Holds, lay, List.getElem?_cons_from, ih]
  | aside rest ih => rw [Holds, lay, List.getElem?_cons_from, ih]
  | loop verb i body closing count rest ihb ihr =>
    rw [Holds, lay, List.getElem?_cons_from, List.getElem?_append_from, length_lay,
      List.getElem?_cons_from, ihb, ihr]

/-- The operations of a whole method are what its tree holds. -/
theorem getElem?_lay_iff (b : Block) (p : Nat) (op : Operation) :
    (b.lay 0 none)[p]? = some op ↔ b.Holds 0 none p op := by
  rw [holds_iff]
  simp

end Block

theorem getElem?_operation_iff {steps : List Step} {p : Nat} {op : Operation} :
    (steps.map (·.operation))[p]? = some op ↔ ∃ s, steps[p]? = some s ∧ s.operation = op := by
  rw [List.getElem?_map, Option.map_eq_some_iff]

end Esolang.Chef
