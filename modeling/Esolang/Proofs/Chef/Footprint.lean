/-
  File:      Esolang/Proofs/Chef/Footprint.lean
  Subject:   What an operation changes in a kitchen, and what it leaves alone.

  An operation names at most one ingredient, one bowl and one dish. All else in the kitchen keeps
  its values, kinds and contents, where a bowl or dish that was never used counts as empty; and no
  item gets lost but those that an operation is there to remove.

  * `Draws.shuffle_perm`: a list in an order decided by draws has the same entries.
  * `Stirred`: the top of a stack sunk by a number of places; `sink_stirred`: so `sink` does.
  * `Kitchen.OnlyAt`: two kitchens that differ in one ingredient, one bowl and one dish at most.
  * `Operation.Does`: what each operation does to what it names.
  * `operations_touch_named`: an operation that works does this, and touches nothing else.
-/
import Esolang.Chef.Cooking
import Esolang.Proofs.Chef.FailedServing

namespace Esolang

/-! ## 1. Stacks in another order -/

namespace Draws

variable {α : Type}

theorem exchange_perm (xs : List α) (i j : Nat) : (exchange xs i j).Perm xs := by
  unfold exchange
  split
  · next a b hi hj =>
    obtain ⟨hilt, rfl⟩ := List.getElem?_eq_some_iff.mp hi
    obtain ⟨hjlt, rfl⟩ := List.getElem?_eq_some_iff.mp hj
    exact List.set_set_perm hilt hjlt
  · exact .refl xs

theorem shuffleFrom_perm (i : Nat) (xs : List α) (ds : Draws) :
    (shuffleFrom i xs ds).1.Perm xs := by
  induction i generalizing xs ds with
  | zero => exact .refl xs
  | succ i ih => exact (ih _ _).trans (exchange_perm xs _ _)

/-- **Whatever is drawn, a shuffled list has the same entries.** -/
theorem shuffle_perm (xs : List α) (ds : Draws) : (shuffle xs ds).1.Perm xs :=
  shuffleFrom_perm _ xs ds

end Draws

namespace Chef

theorem shuffled_perm (s : Stack) (draws : Draws) : (shuffled s draws).1.Perm s :=
  (List.reverse_perm _).trans ((Draws.shuffle_perm s.reverse draws).trans (List.reverse_perm s))

/-- The top of a stack sunk by a number of places, at most to the bottom: all other items are above
    and below it in the order they had. A negative number sinks nothing. -/
structure Stirred (places : Int) (s s' : Stack) : Prop where
  perm : s'.Perm s
  still : places < 0 ∨ s = [] → s' = s
  sunk : ∀ top rest, s = top :: rest → 0 ≤ places →
    s'[min places.toNat (s.length - 1)]? = some top ∧
      s'.eraseIdx (min places.toNat (s.length - 1)) = rest

theorem sink_stirred (places : Int) (s : Stack) : Stirred places s (sink places s) := by
  cases s with
  | nil =>
    exact ⟨.refl [], fun _ => rfl, fun top rest h => absurd h (List.cons_ne_nil top rest).symm⟩
  | cons top rest =>
    have hdepth : (rest.take places.toNat).length = min places.toNat (rest.length + 1 - 1) :=
      List.length_take
    refine ⟨?_, fun h => ?_, fun top' rest' h _ => ?_⟩
    · refine List.perm_middle.trans ?_
      rw [List.take_append_drop]
    · rcases h with h | h
      · have hnone : places.toNat = 0 := by omega
        rw [sink, hnone]
        rfl
      · cases h
    · cases h
      rw [sink, List.length_cons, ← hdepth, List.getElem?_append_right (Nat.le_refl _),
        List.eraseIdx_append_of_length_le (Nat.le_refl _), Nat.sub_self]
      exact ⟨rfl, List.take_append_drop _ _⟩

/-! ## 2. Kitchens that differ in a few places -/

/-- All ingredients, bowls and dishes but the given ones are as they were. -/
structure Kitchen.OnlyAt (k : Kitchen) (name : Option Text) (bowl dish : Option Int)
    (k' : Kitchen) : Prop where
  ingredients : ∀ i, name ≠ some i → k'.ingredients.get? i = k.ingredients.get? i
  bowls : ∀ id, bowl ≠ some id → k'.bowl id = k.bowl id
  dishes : ∀ id, dish ≠ some id → k'.dish id = k.dish id

theorem bowl_setBowl_self (k : Kitchen) (id : Int) (s : Stack) : (k.setBowl id s).bowl id = s := by
  unfold Kitchen.setBowl Kitchen.bowl
  rw [Table.get?_put_self]
  rfl

theorem bowl_setBowl_of_ne (k : Kitchen) {id other : Int} (h : other ≠ id) (s : Stack) :
    (k.setBowl id s).bowl other = k.bowl other := by
  unfold Kitchen.setBowl Kitchen.bowl
  rw [Table.get?_put_of_ne _ _ h]

namespace Kitchen.OnlyAt

variable {k k' : Kitchen} {name : Option Text} {bowl dish : Option Int}

theorem refl (k : Kitchen) (name : Option Text) (bowl dish : Option Int) :
    k.OnlyAt name bowl dish k :=
  ⟨fun _ _ => rfl, fun _ _ => rfl, fun _ _ => rfl⟩

theorem setIngredient {i : Text} (h : k.OnlyAt (some i) bowl dish k') (new : Ingredient) :
    k.OnlyAt (some i) bowl dish (k'.setIngredient i new) where
  ingredients j hj :=
    (Table.get?_put_of_ne _ _ fun e => hj (congrArg some e.symm)).trans (h.ingredients j hj)
  bowls := h.bowls
  dishes := h.dishes

theorem setBowl {id : Int} (h : k.OnlyAt name (some id) dish k') (s : Stack) :
    k.OnlyAt name (some id) dish (k'.setBowl id s) where
  ingredients := h.ingredients
  bowls other hother :=
    (bowl_setBowl_of_ne k' (fun e => hother (congrArg some e.symm)) s).trans (h.bowls other hother)
  dishes := h.dishes

theorem setDish {id : Int} (h : k.OnlyAt name bowl (some id) k') (s : Stack) :
    k.OnlyAt name bowl (some id) (k'.setDish id s) where
  ingredients := h.ingredients
  bowls := h.bowls
  dishes other hother :=
    (dish_setDish_of_ne k' (fun e => hother (congrArg some e.symm)) s).trans (h.dishes other hother)

end Kitchen.OnlyAt

/-! ## 3. Operations -/

namespace Operation

/-- The bowl an operation names. -/
def bowl? : Operation → Option Int
  | .put _ id | .fold _ id | .arithmetic _ _ id | .addDry id | .liquefyBowl id | .stir id
      _ | .stirIngredient id _
  | .mix id | .clean id | .pour id _ => some id
  | _ => none

/-- The dish an operation names. -/
def dish? : Operation → Option Int
  | .pour _ id => some id
  | _ => none

/-- What an operation does to the ingredient, the bowl and the dish that it names. -/
def Does (op : Operation) (b b' : Bench) : Prop :=
  let k := b.kitchen
  let k' := b'.kitchen
  match op with
  | .take i => ∃ old n, k.ingredients.get? i = some old ∧ Input.number b.input = .ok n b'.input ∧
      k'.ingredients.get? i = some { old with value := some (n : Int) }
  | .put i id => k'.ingredients = k.ingredients ∧
      ∃ item, k.measured i = .ok item ∧ k'.bowl id = item :: k.bowl id
  | .fold i id =>
    ∃ top, k.bowl id = top :: k'.bowl id ∧ k'.ingredients.get? i = some ⟨top.kind, some top.value⟩
  | .arithmetic how i id => k'.ingredients = k.ingredients ∧
      ∃ item top rest, k.measured i = .ok item ∧ k.bowl id = top :: rest ∧
        k'.bowl id = ⟨how.apply top.value item.value, .unknown⟩ :: rest
  | .addDry id => k'.ingredients = k.ingredients ∧
      ∃ total, drySum k.ingredients = .ok total ∧ k'.bowl id = ⟨total, .dry⟩ :: k.bowl id
  | .liquefy i => ∃ old, k.ingredients.get? i = some old ∧
      k'.ingredients.get? i = some { old with kind := .liquid }
  | .liquefyBowl id => (k'.bowl id).map Item.value = (k.bowl id).map Item.value ∧
      ∀ item ∈ k'.bowl id, item.kind = .liquid
  | .stir id minutes => Stirred minutes (k.bowl id) (k'.bowl id)
  | .stirIngredient id i => k'.ingredients = k.ingredients ∧
      ∃ item, k.measured i = .ok item ∧ Stirred item.value (k.bowl id) (k'.bowl id)
  | .mix id => (k'.bowl id).Perm (k.bowl id)
  | .clean id => k'.bowl id = []
  | .pour id dish => k'.bowl id = k.bowl id ∧ k'.dish dish = k.bowl id ++ k.dish dish
  | _ => False

end Operation

section Operations

variable {b b' : Bench}

theorem ingredient_get? {k : Kitchen} {i : Text} {found : Ingredient}
    (h : k.ingredient i = .ok found) : k.ingredients.get? i = some found := by
  unfold Kitchen.ingredient at h
  split at h
  · next old hold =>
    cases h
    exact hold
  · cases h

theorem take_does {i : Text} (h : b.take i = .ok () b') :
    b.kitchen.OnlyAt (some i) none none b'.kitchen ∧ (Operation.take i).Does b b' := by
  unfold Bench.take at h
  cases hnumber : Input.number b.input with
  | mk outcome rest =>
    cases outcome with
    | error e =>
      simp only [hnumber] at h
      cases h
    | ok n =>
      simp only [hnumber] at h
      split at h
      · cases h
      · next old hold =>
        cases h
        exact ⟨(Kitchen.OnlyAt.refl _ _ _ _).setIngredient _, old, n, ingredient_get? hold, hnumber,
          Table.get?_put_self _ _ _⟩

theorem fold_does {i : Text} {id : Int} (h : b.fold i id = .ok () b') :
    b.kitchen.OnlyAt (some i) (some id) none b'.kitchen ∧ (Operation.fold i id).Does b b' := by
  unfold Bench.fold at h
  simp only at h
  split at h
  · cases h
  · split at h
    · cases h
    · next top rest hbowl =>
      cases h
      refine ⟨((Kitchen.OnlyAt.refl _ _ _ _).setBowl _).setIngredient _, top, ?_,
        Table.get?_put_self _ _ _⟩
      show b.kitchen.bowl id = top :: (b.kitchen.setBowl id rest).bowl id
      rw [bowl_setBowl_self, hbowl]

theorem arithmetic_does {how : Arithmetic} {i : Text} {id : Int}
    (h : b.arithmetic how i id = .ok () b') :
    b.kitchen.OnlyAt (some i) (some id) none b'.kitchen ∧
      (Operation.arithmetic how i id).Does b b' := by
  unfold Bench.arithmetic at h
  simp only at h
  split at h
  · cases h
  · next item hitem =>
    split at h
    · cases h
    · next top rest hbowl =>
      split at h
      · cases h
      · cases h
        exact ⟨(Kitchen.OnlyAt.refl _ _ _ _).setBowl _, rfl, item, top, rest, hitem, hbowl,
          bowl_setBowl_self _ _ _⟩

theorem stir_does {id places : Int} (h : b.stir id places = .ok () b') (name : Option Text) :
    b.kitchen.OnlyAt name (some id) none b'.kitchen ∧
      b'.kitchen.ingredients = b.kitchen.ingredients ∧
      Stirred places (b.kitchen.bowl id) (b'.kitchen.bowl id) := by
  unfold Bench.stir at h
  split at h
  · next hbowl =>
    cases h
    have hsame : (b.kitchen.useBowl id).bowl id = sink places (b.kitchen.bowl id) := by
      unfold Kitchen.useBowl
      rw [bowl_setBowl_self, hbowl]
      rfl
    refine ⟨(Kitchen.OnlyAt.refl _ _ _ _).setBowl _, rfl, ?_⟩
    show Stirred places (b.kitchen.bowl id) ((b.kitchen.useBowl id).bowl id)
    rw [hsame]
    exact sink_stirred _ _
  · next top rest hbowl =>
    split at h
    · cases h
    · cases h
      refine ⟨(Kitchen.OnlyAt.refl _ _ _ _).setBowl _, rfl, ?_⟩
      show Stirred places (b.kitchen.bowl id)
        ((b.kitchen.setBowl id (sink places (top :: rest))).bowl id)
      rw [bowl_setBowl_self, ← hbowl]
      exact sink_stirred _ _

/-- **Operations touch only what they name, and lose no items.** Whatever a kitchen holds, whatever
    is left of the input and whatever is drawn: an operation that works leaves all ingredients,
    bowls and dishes but the ones it names as they were, and does to these what `Operation.Does`
    says. -/
theorem operations_touch_named {op : Operation} (h : b.perform op = .ok () b') :
    b.kitchen.OnlyAt op.ingredient? op.bowl? op.dish? b'.kitchen ∧ op.Does b b' := by
  cases op with
  | take i => exact take_does h
  | put i id =>
    simp only [Bench.perform] at h
    split at h
    · cases h
    · next item hitem =>
      cases h
      exact ⟨(Kitchen.OnlyAt.refl _ _ _ _).setBowl _, rfl, item, hitem, bowl_setBowl_self _ _ _⟩
  | fold i id => exact fold_does h
  | arithmetic how i id => exact arithmetic_does h
  | addDry id =>
    simp only [Bench.perform] at h
    split at h
    · cases h
    · next total htotal =>
      cases h
      exact ⟨(Kitchen.OnlyAt.refl _ _ _ _).setBowl _, rfl, total, htotal, bowl_setBowl_self _ _ _⟩
  | liquefy i =>
    simp only [Bench.perform] at h
    split at h
    · cases h
    · next old hold =>
      cases h
      exact ⟨(Kitchen.OnlyAt.refl _ _ _ _).setIngredient _, old, ingredient_get? hold,
        Table.get?_put_self _ _ _⟩
  | liquefyBowl id =>
    simp only [Bench.perform] at h
    cases h
    refine ⟨(Kitchen.OnlyAt.refl _ _ _ _).setBowl _, ?_⟩
    have hbowl :=
      bowl_setBowl_self b.kitchen id ((b.kitchen.bowl id).map fun item =>
        { item with kind := .liquid })
    refine ⟨?_, fun item hitem => ?_⟩
    · refine (congrArg (List.map Item.value) hbowl).trans ?_
      rw [List.map_map]
      rfl
    · obtain ⟨old, -, rfl⟩ := List.mem_map.mp (hbowl ▸ hitem)
      rfl
  | stir id minutes =>
    obtain ⟨honly, -, hstirred⟩ := stir_does h none
    exact ⟨honly, hstirred⟩
  | stirIngredient id i =>
    simp only [Bench.perform] at h
    split at h
    · cases h
    · next item hitem =>
      obtain ⟨honly, hsame, hstirred⟩ := stir_does h (some i)
      exact ⟨honly, hsame, item, hitem, hstirred⟩
  | mix id =>
    simp only [Bench.perform] at h
    cases h
    refine ⟨(Kitchen.OnlyAt.refl _ _ _ _).setBowl _, ?_⟩
    refine (List.Perm.of_eq
      (bowl_setBowl_self b.kitchen id (shuffled (b.kitchen.bowl id) b.draws).1)).trans ?_
    exact shuffled_perm _ _
  | clean id =>
    simp only [Bench.perform] at h
    cases h
    exact ⟨(Kitchen.OnlyAt.refl _ _ _ _).setBowl _, bowl_setBowl_self _ _ _⟩
  | pour id dish =>
    simp only [Bench.perform] at h
    cases h
    refine ⟨((Kitchen.OnlyAt.refl _ _ _ _).setDish _).setBowl _, ?_, ?_⟩
    · exact bowl_setBowl_self _ _ _
    · exact dish_setDish_self _ _ _
  -- the others are not for a kitchen
  | _ => cases h

end Operations

/-- Two bowls, one of them with four items, before the first one is stirred. -/
def larder (first : Stack) : Bench :=
  ⟨⟨[("a", ⟨.dry, some 2⟩)], [(1, first), (2, [⟨9, .liquid⟩])], [(1, [⟨3, .dry⟩])]⟩, "4", [1]⟩

/-- The top goes down by two places, and all else stays where it is. -/
theorem operations_touch_named_larder :
    let b := larder [⟨5, .dry⟩, ⟨6, .liquid⟩, ⟨7, .unknown⟩, ⟨8, .dry⟩]
    let b' := larder [⟨6, .liquid⟩, ⟨7, .unknown⟩, ⟨5, .dry⟩, ⟨8, .dry⟩]
    b.perform (.stirIngredient 1 "a") = .ok () b' ∧
      Stirred 2 (b.kitchen.bowl 1) (b'.kitchen.bowl 1) ∧
      b'.kitchen.bowl 2 = [⟨9, .liquid⟩] ∧ b'.kitchen.dish 1 = [⟨3, .dry⟩] ∧
      b'.kitchen.ingredients = b.kitchen.ingredients := by
  intro b b'
  have hperform : b.perform (.stirIngredient 1 "a") = .ok () b' := rfl
  obtain ⟨honly, hsame, item, hitem, hstirred⟩ := operations_touch_named hperform
  cases hitem
  exact ⟨hperform, hstirred, honly.bowls 2 (by decide), honly.dishes 1 (by decide), hsame⟩

end Chef

end Esolang
