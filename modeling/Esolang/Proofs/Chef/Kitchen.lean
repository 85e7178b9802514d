/-
  File:      Esolang/Proofs/Chef/Kitchen.lean
  Subject:   What can go wrong in a kitchen that has all the ingredients an operation names.

  Nothing in a kitchen takes an ingredient away. When the one an operation names is there, the
  operation fails only through a missing value, an empty bowl, a division by zero, the input, or a
  number that is too long to be read or written; and stirring fails when the item would be lifted
  beyond all places.

  * `Keeps`: a kitchen has at least the ingredients of another.
  * `Operation.Overlifts`: an operation that stirs an item beyond all places.
  * `Bearable`: the failures that remain.
  * `perform_meets`, `serve_meets`: an operation, and serving, meet this.
-/
import Esolang.Chef.Cooking
import Esolang.Proofs.Language
import Esolang.Proofs.Table

namespace Esolang.Chef

/-! ## 1. Ingredients -/

/-- A kitchen has at least the given ingredients. -/
def Keeps (known : Ingredients) (k : Kitchen) : Prop :=
  ∀ i, known.has i = true → k.ingredients.has i = true

theorem Keeps.setIngredient {known : Ingredients} {k : Kitchen} (h : Keeps known k) (name : Text)
    (i : Ingredient) : Keeps known (k.setIngredient name i) :=
  fun j hj => Table.has_put name i (h j hj)

theorem ingredient_of_has {k : Kitchen} {name : Text} (h : k.ingredients.has name = true) :
    ∃ i, k.ingredient name = .ok i := by
  obtain ⟨i, hi⟩ := Option.isSome_iff_exists.mp h
  exact ⟨i, by rw [Kitchen.ingredient, hi]⟩

theorem measured_of_has {k : Kitchen} {name : Text} (h : k.ingredients.has name = true) :
    (∃ item, k.measured name = .ok item) ∨ k.measured name = .error (.noValue name) := by
  obtain ⟨i, hi⟩ := ingredient_of_has h
  unfold Kitchen.measured
  rw [hi]
  cases hv : i.value with
  | none => exact .inr (by simp only [hv])
  | some v => exact .inl ⟨⟨v, i.kind⟩, by simp only [hv]⟩

theorem drySum_error {box : Ingredients} {f : Fault} (h : drySum box = .error f) :
    ∃ name, f = .noValue name := by
  induction box with
  | nil => cases h
  | cons e rest ih =>
    obtain ⟨name, i⟩ := e
    rw [drySum] at h
    split at h
    · split at h
      · cases h
        exact ⟨name, rfl⟩
      · cases hr : drySum rest with
        | error f' => rw [hr] at h; cases h; exact ih hr
        | ok n => rw [hr] at h; cases h
    · exact ih h

/-! ## 2. Failures -/

/-- An operation that stirs the top of a bowl beyond all places. -/
def Operation.Overlifts (k : Kitchen) : Operation → Prop
  | .stir bowl minutes => Bench.lastPlace < (k.bowl bowl).tail.length - minutes
  | .stirIngredient bowl i =>
    ∃ item, k.measured i = .ok item ∧ Bench.lastPlace < (k.bowl bowl).tail.length - item.value
  | _ => False

/-- What may still go wrong. -/
inductive Bearable (overlifts : Prop) : Failure → Prop where
  /-- Any fault but a missing ingredient. -/
  | fault (f : Fault) (h : ∀ name, f ≠ .noIngredient name) : Bearable overlifts (.fault f)
  /-- A number that is too long to be written. -/
  | longNumber : Bearable overlifts (.breakdown .longNumber)
  /-- A row of digits that is too long to be read. -/
  | longNumeral (digits : Nat) : Bearable overlifts (.breakdown (.longNumeral digits))
  /-- An item that would be lifted beyond all places, where this happens. -/
  | beyondPlace (h : overlifts) : Bearable overlifts (.breakdown .beyondPlace)

theorem Bearable.mono {p q : Prop} {e : Failure} (h : Bearable p e) (hpq : p → q) :
    Bearable q e := by
  cases h with
  | fault f hf => exact .fault f hf
  | longNumber => exact .longNumber
  | longNumeral digits => exact .longNumeral digits
  | beyondPlace hp => exact .beyondPlace (hpq hp)

/-! ## 3. Operations -/

section Operations

variable {known : Ingredients} {p : Prop}

theorem number_meets (t : Text) : (Input.number t).Meets (fun _ _ => True) (Bearable p) := by
  unfold Input.number
  dsimp only
  split
  · exact .fault (.fault _ fun _ e => by cases e)
  · split
    · cases hr : Decimal.read _ with
      | ok n => exact .ok trivial
      | error b =>
        unfold Decimal.read at hr
        split at hr
        · cases hr
          exact .breakdown (.longNumeral _)
        · cases hr
    · exact .fault (.fault _ fun _ e => by cases e)

theorem noValue_bearable (name : Text) : Bearable p (.fault (.noValue name)) :=
  .fault _ fun _ e => by cases e

theorem emptyBowl_bearable (bowl : Int) : Bearable p (.fault (.emptyBowl bowl)) :=
  .fault _ fun _ e => by cases e

variable {b : Bench} {i : Text}

theorem take_meets (hk : Keeps known b.kitchen) (hi : known.has i = true) :
    (b.take i).Meets (fun _ b' => Keeps known b'.kitchen) (Bearable p) := by
  obtain ⟨ing, hing⟩ := ingredient_of_has (hk i hi)
  have hnum := number_meets (p := p) b.input
  unfold Attempt.Meets at hnum
  unfold Bench.take
  simp only [hing]
  split
  · rename_i e he
    rw [he] at hnum
    exact hnum
  · exact .ok (hk.setIngredient i _)

theorem fold_meets (hk : Keeps known b.kitchen) (hi : known.has i = true) (bowl : Int) :
    (b.fold i bowl).Meets (fun _ b' => Keeps known b'.kitchen) (Bearable p) := by
  obtain ⟨ing, hing⟩ := ingredient_of_has (hk i hi)
  unfold Bench.fold
  simp only [hing]
  split
  · exact .fault (emptyBowl_bearable bowl)
  · exact .ok fun j hj => Table.has_put i _ (hk j hj)

theorem arithmetic_meets (hk : Keeps known b.kitchen) (hi : known.has i = true) (how : Arithmetic)
    (bowl : Int) :
    (b.arithmetic how i bowl).Meets (fun _ b' => Keeps known b'.kitchen) (Bearable p) := by
  unfold Bench.arithmetic
  rcases measured_of_has (hk i hi) with ⟨item, hm⟩ | hm
  · simp only [hm]
    split
    · exact .fault (emptyBowl_bearable bowl)
    · split
      · exact .fault (.fault _ fun _ e => by cases e)
      · exact .ok hk
  · simp only [hm]
    exact .fault (noValue_bearable i)

theorem stir_meets (hk : Keeps known b.kitchen) {bowl places : Int}
    (hp : Bench.lastPlace < (b.kitchen.bowl bowl).tail.length - places → p) :
    (b.stir bowl places).Meets (fun _ b' => Keeps known b'.kitchen) (Bearable p) := by
  unfold Bench.stir
  split
  · exact .ok hk
  · rename_i top rest hb
    rw [hb, List.tail_cons] at hp
    split
    · rename_i hlt
      exact .breakdown (.beyondPlace (hp hlt))
    · exact .ok hk

/-- **An operation whose ingredient is there fails only in a bearable way, and takes no ingredient
    away.** -/
theorem perform_meets {op : Operation} (hflow : op.isFlow = false) (hk : Keeps known b.kitchen)
    (hd : ∀ i, op.ingredient? = some i → known.has i = true) :
    (b.perform op).Meets (fun _ b' => Keeps known b'.kitchen)
      (Bearable (op.Overlifts b.kitchen)) := by
  cases op with
  | take i => exact take_meets hk (hd i rfl)
  | put i bowl =>
    unfold Bench.perform
    rcases measured_of_has (hk i (hd i rfl)) with ⟨item, hm⟩ | hm
    · simp only [hm]
      exact .ok hk
    · simp only [hm]
      exact .fault (noValue_bearable i)
  | fold i bowl => exact fold_meets hk (hd i rfl) bowl
  | arithmetic how i bowl => exact arithmetic_meets hk (hd i rfl) how bowl
  | addDry bowl =>
    unfold Bench.perform
    cases hs : drySum b.kitchen.ingredients with
    | error f =>
      obtain ⟨name, rfl⟩ := drySum_error hs
      simp only [hs]
      exact .fault (noValue_bearable name)
    | ok total =>
      simp only [hs]
      exact .ok hk
  | liquefy i =>
    obtain ⟨ing, hing⟩ := ingredient_of_has (hk i (hd i rfl))
    unfold Bench.perform
    simp only [hing]
    exact .ok (hk.setIngredient i _)
  | liquefyBowl bowl => exact .ok hk
  | stir bowl minutes => exact stir_meets hk id
  | stirIngredient bowl i =>
    unfold Bench.perform
    rcases measured_of_has (hk i (hd i rfl)) with ⟨item, hm⟩ | hm
    · simp only [hm]
      exact stir_meets hk fun hlt => ⟨item, hm, hlt⟩
    · simp only [hm]
      exact .fault (noValue_bearable i)
  | mix bowl => exact .ok hk
  | clean bowl => exact .ok hk
  | pour bowl dish => exact .ok hk
  -- the others steer the machine and never get here
  | _ => cases hflow

end Operations

/-! ## 4. Serving -/

theorem noCharacter_bearable {p : Prop} (n : Int) : Bearable p (Decimal.noCharacter n) := by
  unfold Decimal.noCharacter
  cases Decimal.isLong n with
  | true =>
    rw [if_pos rfl]
    exact .longNumber
  | false =>
    rw [if_neg Bool.false_ne_true]
    exact .fault _ fun _ e => by cases e

theorem print_error {n : Int} {b : Breakdown} (h : Decimal.print n = .error b) :
    b = .longNumber := by
  unfold Decimal.print at h
  cases hl : Decimal.isLong n with
  | true =>
    rw [hl, if_pos rfl] at h
    cases h
    rfl
  | false =>
    rw [hl, if_neg Bool.false_ne_true] at h
    cases h

theorem serveItem_error {p : Prop} {item : Item} {e : Failure} (h : serveItem item = .error e) :
    Bearable p e := by
  unfold serveItem at h
  split at h
  · split at h
    · cases h
    · rw [← Except.error.inj h]
      exact noCharacter_bearable item.value
  · split at h
    · cases h
    · rename_i hb
      cases h
      rw [print_error hb]
      exact .longNumber

theorem serveStack_meets {p : Prop} (s : Stack) :
    (serveStack s).Meets (fun _ _ => True) (Bearable p) := by
  induction s with
  | nil => exact .ok trivial
  | cons item rest ih =>
    rw [serveStack]
    cases h : serveItem item with
    | error e => exact serveItem_error h
    | ok t => exact ih.andThen fun _ _ _ => .ok trivial

theorem serveFrom_meets {p : Prop} (k : Kitchen) (first : Int) (n : Nat) :
    (serveFrom k first n).Meets (fun _ k' => k'.ingredients = k.ingredients) (Bearable p) := by
  induction n generalizing k first with
  | zero => exact .ok rfl
  | succ n ih =>
    have hdish : (serveDish k first).Meets (fun _ k' => k'.ingredients = k.ingredients)
        (Bearable p) :=
      .lift ((serveStack_meets _).mono (fun _ _ _ => rfl) fun _ h => h)
    refine hdish.andThen fun t k' hk' => ?_
    refine (ih k' (first + 1)).andThen fun more k'' hk'' => .ok ?_
    rw [hk'', hk']

/-- **Serving fails only in a bearable way, and leaves the ingredients alone.** -/
theorem serve_meets {p : Prop} (k : Kitchen) (count : Nat) :
    (serve k count).Meets (fun _ k' => k'.ingredients = k.ingredients) (Bearable p) :=
  serveFrom_meets k 1 count

end Esolang.Chef
