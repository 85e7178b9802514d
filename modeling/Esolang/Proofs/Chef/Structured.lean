/-
  File:      Esolang/Proofs/Chef/Structured.lean
  Subject:   What a recipe means, by its tree and without places.

  A block works on a bench: a kitchen with the input and the draws it shares with all other calls. A
  loop is a loop, a called recipe is evaluated on the spot, and the two statements that leave
  something early are endings of the block they stand in.

  * `Ending`: how a block comes to its end.
  * `Cooks`: the evaluation of a block, which gives the ending, what was served, and the bench
    afterwards.
  * `Evaluates`: the evaluation of a whole recipe, with its serving line last.
-/
import Esolang.Chef.Cooking
import Esolang.Proofs.Chef.Block

namespace Esolang.Chef

/-! ## 1. Benches -/

namespace Bench

/-- The bench of a recipe that is called: its own ingredients, and copies of the caller's bowls and
    dishes. -/
def enter (b : Bench) (r : Recipe) : Bench :=
  b.withKitchen ⟨r.ingredients, b.kitchen.bowls, b.kitchen.dishes⟩

/-- The caller's bench when the called recipe has come to its end: the first bowl of the called
    recipe is put on the caller's first bowl, and nothing else of its kitchen is kept. -/
def takeBack (b called : Bench) : Bench :=
  ⟨b.kitchen.setBowl 1 (called.kitchen.bowl 1 ++ b.kitchen.bowl 1), called.input, called.draws⟩

/-- An ingredient counted down, if there is one to count down. -/
def countDown (b : Bench) : Option Text → Except Fault Bench
  | none => .ok b
  | some i =>
    match b.kitchen.measured i with
    | .error f => .error f
    | .ok item => .ok (b.withKitchen (b.kitchen.setIngredient i ⟨item.kind, some (item.value - 1)⟩))

theorem countDown_shared {b b' : Bench} {i : Option Text} (h : b.countDown i = .ok b') :
    b'.input = b.input ∧ b'.draws = b.draws := by
  cases i with
  | none =>
    cases h
    exact ⟨rfl, rfl⟩
  | some i =>
    unfold countDown at h
    simp only at h
    split at h
    · cases h
    · cases h
      exact ⟨rfl, rfl⟩

/-- The first dishes served. -/
def serve (b : Bench) (count : Nat) : Attempt Bench Text :=
  (Chef.serve b.kitchen count).lift b.withKitchen

/-- The serving line of a recipe, if it has one. -/
def finish (b : Bench) (r : Recipe) : Attempt Bench Text :=
  match r.serving with
  | none => .ok [] b
  | some s => b.serve s.dishes

end Bench

/-! ## 2. Evaluation -/

/-- How a block comes to its end. -/
inductive Ending where
  /-- At the last of its statements. -/
  | through
  /-- At a `Set aside`, which leaves the loop around the block. -/
  | aside
  /-- At a `Refrigerate`, which leaves the method. -/
  | refrigerated
deriving DecidableEq

/-- A block evaluated on a bench, with the recipes of a book at hand: its ending, what was served,
    and the bench afterwards. -/
inductive Cooks (book : Table Text Recipe) : Block → Bench → Ending → Text → Bench → Prop where
  | done {b : Bench} : Cooks book .done b .through [] b
  /-- An operation in the kitchen. -/
  | kitchen {op : Operation} {rest : Block} {b b' b'' : Bench} {e : Ending} {out : Text}
      (hflow : op.isFlow = false) (hop : b.perform op = .ok () b')
        (hrest : Cooks book rest b' e out b'') :
      Cooks book (.plain op rest) b e out b''
  /-- `Serve with`: the recipe is evaluated up to its own end, its serving line included. -/
  | call {callee : Text} {r : Recipe} {body rest : Block} {b b₁ b₂ b' : Bench} {e₁ e : Ending}
      {out₁ out₂ out : Text} (hr : book.get? callee = some r) (htree : Block.ofMethod r.method =
        some body)
      (hbody : Cooks book body (b.enter r) e₁ out₁ b₁) (hend : e₁ ≠ .aside)
      (hserve : b₁.finish r = .ok out₂ b₂) (hrest : Cooks book rest (b.takeBack b₂) e out b') :
      Cooks book (.plain (.serveWith callee) rest) b e (out₁ ++ out₂ ++ out) b'
  /-- `Refrigerate`: as many dishes are served as hours are named, and the rest is skipped. -/
  | refrigerate {hours : Option Int} {rest : Block} {b b' : Bench} {out : Text}
      (hserve : b.serve (hours.getD 0).toNat = .ok out b') :
      Cooks book (.plain (.refrigerate hours) rest) b .refrigerated out b'
  | aside {rest : Block} {b : Bench} : Cooks book (.aside rest) b .aside [] b
  /-- A loop whose ingredient is zero. -/
  | skip {verb i : Text} {body : Block} {closing : Text} {count : Option Text} {rest : Block}
      {b b' : Bench} {item : Item} {e : Ending} {out : Text} (hi : b.kitchen.measured i = .ok item)
      (hzero : item.value = 0) (hrest : Cooks book rest b e out b') :
      Cooks book (.loop verb i body closing count rest) b e out b'
  /-- A loop whose body comes to its last statement: the ingredient it ends with is counted down,
      and the loop is evaluated again. -/
  | again {verb i : Text} {body : Block} {closing : Text} {count : Option Text} {rest : Block}
      {b b₁ b₂ b' : Bench} {item : Item} {e : Ending} {out₁ out : Text}
      (hi : b.kitchen.measured i = .ok item) (hne : item.value ≠ 0)
      (hbody : Cooks book body b .through out₁ b₁) (hcount : b₁.countDown count = .ok b₂)
      (hloop : Cooks book (.loop verb i body closing count rest) b₂ e out b') :
      Cooks book (.loop verb i body closing count rest) b e (out₁ ++ out) b'
  /-- A loop that its body leaves. -/
  | leave {verb i : Text} {body : Block} {closing : Text} {count : Option Text} {rest : Block}
      {b b₁ b' : Bench} {item : Item} {e : Ending} {out₁ out : Text}
      (hi : b.kitchen.measured i = .ok item) (hne : item.value ≠ 0)
      (hbody : Cooks book body b .aside out₁ b₁) (hrest : Cooks book rest b₁ e out b') :
      Cooks book (.loop verb i body closing count rest) b e (out₁ ++ out) b'
  /-- A loop whose body leaves the method. -/
  | refrigerateInside {verb i : Text} {body : Block} {closing : Text} {count : Option Text}
      {rest : Block} {b b' : Bench} {item : Item} {out : Text}
      (hi : b.kitchen.measured i = .ok item) (hne : item.value ≠ 0)
      (hbody : Cooks book body b .refrigerated out b') :
      Cooks book (.loop verb i body closing count rest) b .refrigerated out b'

/-- A recipe evaluated on a bench: its method as a tree, and then the serving line. -/
def Evaluates (book : Table Text Recipe) (r : Recipe) (b : Bench) (out : Text) (b' : Bench) :
    Prop :=
  ∃ body e out₁ b₁ out₂, Block.ofMethod r.method = some body ∧ Cooks book body b e out₁ b₁ ∧
    e ≠ .aside ∧ b₁.finish r = .ok out₂ b' ∧ out = out₁ ++ out₂

/-- A block that stands in no loop is not left by a `Set aside`. -/
theorem Cooks.ending_ne_aside {book : Table Text Recipe} {block : Block} {b b' : Bench} {e : Ending}
    {out : Text} (h : Cooks book block b e out b') (hb : block.Nests false) : e ≠ .aside := by
  induction h with
  | done => exact fun c => nomatch c
  | kitchen _ _ _ ih => exact ih hb.2
  | call _ _ _ _ _ _ _ ih => exact ih hb.2
  | refrigerate => exact fun c => nomatch c
  | aside => exact absurd hb.1 Bool.false_ne_true
  | skip _ _ _ ih => exact ih hb.2.2
  | again _ _ _ _ _ _ ih => exact ih hb
  | leave _ _ _ _ _ ih => exact ih hb.2.2
  | refrigerateInside => exact fun c => nomatch c

end Esolang.Chef
