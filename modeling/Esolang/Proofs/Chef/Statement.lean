/-
  File:      Esolang/Proofs/Chef/Statement.lean
  Subject:   What every statement that can be read has in common.

  Names, verbs and numbers of operations come from a few readers, so they all look alike: an
  ingredient has letters and spaces, a verb small letters, and a number is not too long. A phrase
  that begins like another one is only tried when that one does not apply, which leaves its mark on
  the names: no statement adds the dry ingredients one by one. Places in the method are left open.

  * `Operation.Proper`: an operation as a statement says it.
  * `Tells`: what a phrase makes of a line is an operation with a property, if it is an operation at
    all.
  * `ofStatement_proper`: every statement says a proper operation.
  * `Operation.Unplaced`, `ofStatement_unplaced`: what matters of it while loops are resolved.
-/
import Esolang.Chef.Statement
import Esolang.Proofs.Number.Decimal
import Esolang.Proofs.Phrase
import Esolang.Proofs.Text

namespace Esolang.Chef

/-! ## 1. Operations as statements say them -/

/-- The name of an ingredient: letters and spaces. -/
def IsName (i : Text) : Prop := i ≠ [] ∧ ∀ c ∈ i, isNameChar c = true

/-- The name of a called recipe: letters, digits and spaces. -/
def IsTitle (t : Text) : Prop := t ≠ [] ∧ ∀ c ∈ t, isTitleChar c = true

/-- A verb of a loop, as it is kept: small letters. -/
def IsVerb (verb : Text) : Prop := verb ≠ [] ∧ ∀ c ∈ verb, 97 ≤ c.val ∧ c.val ≤ 122

/-- A number that can stand in a statement: a natural one that is not too long to be read. -/
def IsNumeral (n : Int) : Prop := ∃ k : Nat, n = k ∧ (Decimal.ofNat k).length ≤ Decimal.limit

/-- An operation as a statement says it. What would be another statement is no name:
    `dry ingredients` cannot be the beginning of a name that is added, and `contents of the` not of
    one that is liquefied. Nor is the beginning of a loop one that could be its end. -/
def Operation.Proper : Operation → Prop
  | .take i => IsName i
  | .put i bowl => IsName i ∧ IsNumeral bowl
  | .fold i bowl => IsName i ∧ IsNumeral bowl
  | .arithmetic how i bowl =>
    IsName i ∧ IsNumeral bowl ∧
      (how = .add → i.startsWith (Text.ofString "dry ingredients") = false)
  | .addDry bowl => IsNumeral bowl
  | .liquefy i => IsName i ∧ i.startsWith (Text.ofString "contents of the ") = false
  | .liquefyBowl bowl => IsNumeral bowl
  | .stir bowl minutes => IsNumeral bowl ∧ IsNumeral minutes
  | .stirIngredient bowl i => IsNumeral bowl ∧ IsName i
  | .mix bowl => IsNumeral bowl
  | .clean bowl => IsNumeral bowl
  | .pour bowl dish => IsNumeral bowl ∧ IsNumeral dish
  | .loopStart verb i closer =>
    IsVerb verb ∧ IsName i ∧
      (Text.ofString " the " ++ i).includes (Text.ofString " until ") = false ∧ closer = none
  | .loopEnd verb i opener => IsVerb verb ∧ (∀ n, i = some n → IsName n) ∧ opener = none
  | .setAside closer => closer = none
  | .serveWith recipe => IsTitle recipe
  | .refrigerate hours => ∀ n, hours = some n → IsNumeral n

/-- What a phrase makes of a line is an operation with a property, if it is an operation at all. -/
def Tells (P : Operation → Prop) (e : Except LineError Operation) : Prop := ∀ op, e = .ok op → P op

namespace Tells

variable {P : Operation → Prop}

theorem ok {op : Operation} (h : P op) : Tells P (.ok op) := by
  intro o e
  cases e
  exact h

theorem error (e : LineError) : Tells P (.error e) := by
  intro o h
  cases h

theorem map {α : Type} {e : Except LineError α} {make : α → Operation}
    (h : ∀ a, e = .ok a → P (make a)) : Tells P (e.map make) := by
  cases e with
  | error e => exact error e
  | ok a => exact ok (h a rfl)

theorem bind {α : Type} {e : Except LineError α} {f : α → Except LineError Operation}
    (h : ∀ a, e = .ok a → Tells P (f a)) : Tells P (e >>= f) := by
  cases e with
  | error e => exact error e
  | ok a => exact h a rfl

/-- Only a statement that does not begin like one kind is tried as another. -/
theorem ite {c : Prop} [Decidable c] {a b : Except LineError Operation} (ha : Tells P a)
    (hb : ¬ c → Tells P b) : Tells P (if c then a else b) := by
  split
  · exact ha
  · next hc => exact hb hc

end Tells

/-- A line that has to fit a phrase says what the phrase says. -/
theorem fits_tells {P : Operation → Prop} {p : Phrase (Except LineError Operation)} {line : Text}
    (h : ∀ e, p.read? line = some e → Tells P e) : Tells P (fits p line) := by
  unfold fits
  cases he : p.read? line with
  | none => exact .error _
  | some e => exact h e he

/-! ## 2. Numbers and verbs -/

theorem digitValues_lt (ds : Text) : ∀ d ∈ digitValues ds, d < 10 := by
  intro d hd
  obtain ⟨c, -, rfl⟩ := List.mem_map.mp hd
  cases hdigit : c.digit? with
  | none => exact Nat.zero_lt_succ 9
  | some n => exact CodePoint.digit?_lt hdigit

theorem read_isNumeral {ds : Text} {k : Nat} (h : Decimal.read (digitValues ds) = .ok k) :
    IsNumeral (k : Int) := by
  unfold IsNumeral
  unfold Decimal.read at h
  split at h
  · cases h
  · next hlength =>
    cases h
    have hvalue := Decimal.value_lt (digitValues_lt ds)
    have hlimit : 0 < Decimal.limit := by decide
    generalize Decimal.limit = limit at hlength hlimit ⊢
    have hpower : Nat.pow 10 (digitValues ds).length ≤ Nat.pow 10 limit :=
      Nat.pow_le_pow_right (by decide) (Nat.le_of_not_lt hlength)
    exact ⟨_, rfl, Decimal.length_ofNat_le hlimit (Nat.lt_of_lt_of_le hvalue hpower)⟩

theorem number_isNumeral {ds : Text} {k : Nat} (h : number ds = .ok k) : IsNumeral (k : Int) := by
  unfold number at h
  split at h
  · next n hn =>
    cases h
    exact read_isNumeral hn
  · cases h

theorem one_isNumeral : IsNumeral 1 := ⟨1, rfl, by decide⟩

theorem vessel_isNumeral {n : Option Text} {k : Int} (h : vessel n = .ok k) : IsNumeral k := by
  unfold vessel at h
  split at h
  · cases h
    exact one_isNumeral
  · split at h
    · next hn =>
      cases h
      exact read_isNumeral hn
    · cases h

theorem lower_letter {c : CodePoint} (h : c.isLetter = true) :
    97 ≤ c.lower.val ∧ c.lower.val ≤ 122 := by
  simp only [CodePoint.isLetter, Bool.or_eq_true, Bool.and_eq_true, decide_eq_true_eq] at h
  unfold CodePoint.lower
  split
  · show 97 ≤ c.val + 32 ∧ c.val + 32 ≤ 122
    omega
  · split
    · omega
    · omega

theorem lower_isVerb {run : Text} (h : run ≠ [] ∧ ∀ c ∈ run, c.isLetter = true) :
    IsVerb run.lower := by
  refine ⟨fun he => h.1 (List.map_eq_nil_iff.mp he), fun c hc => ?_⟩
  obtain ⟨d, hd, rfl⟩ := List.mem_map.mp hc
  exact lower_letter (h.2 d hd)

/-! ## 3. Phrases -/

open Phrase

theorem takePhrase_proper : takePhrase.Gives (Tells Operation.Proper) := by
  refine .skip fun _ => .bind (shortest_gives _) fun i hi => ?_
  repeat with_reducible refine .skip fun _ => ?_
  exact .pure (.ok hi)

theorem intoBowlPhrase_proper (verb : String) {make : Text → Int → Operation}
    (h : ∀ i bowl, IsName i → IsNumeral bowl → (make i bowl).Proper) :
    (intoBowlPhrase verb make).Gives (Tells Operation.Proper) := by
  refine .skip fun _ => .skip fun _ => .skip fun _ => .bind (shortest_gives _) fun i hi => ?_
  repeat with_reducible refine .skip fun _ => ?_
  exact .pure (.map fun bowl hbowl => h i bowl hi (vessel_isNumeral hbowl))

theorem addDryPhrase_proper : addDryPhrase.Gives (Tells Operation.Proper) := by
  unfold addDryPhrase
  repeat with_reducible refine .skip fun _ => ?_
  exact .pure (.map fun _ => vessel_isNumeral)

theorem arithmeticOf_proper {how : Arithmetic} {i : Text} (hi : IsName i)
    (hadd : how = .add → i.startsWith (Text.ofString "dry ingredients") = false)
    (bowl : Option (Preposition × Option Text)) :
    Tells Operation.Proper (arithmeticOf how i bowl) := by
  cases bowl with
  | none => exact .ok ⟨hi, one_isNumeral, hadd⟩
  | some pn => exact .ite (.map fun _ hn => ⟨hi, vessel_isNumeral hn, hadd⟩) fun _ => .error _

/-- A name that is added is not `dry ingredients`, or the statement would have been another one. -/
theorem arithmeticPhrase_proper {line : Text}
    (hdry : ¬ line.startsWith (Text.ofString "Add dry ingredients") = true) :
    Tells Operation.Proper (fits arithmeticPhrase line) := by
  refine fits_tells fun e he => ?_
  obtain ⟨way, hway, rfl⟩ := mem_of_read? he
  obtain ⟨how, hhow, hway⟩ := mem_bind.mp hway
  obtain ⟨blank, hblank, hway⟩ := mem_bind.mp hway
  obtain ⟨i, hi, hway⟩ := mem_bind.mp hway
  obtain ⟨bowl, -, hway⟩ := mem_bind.mp hway
  obtain ⟨done, -, hway⟩ := mem_bind.mp hway
  rw [List.mem_singleton.mp hway]
  obtain ⟨w, hw, rfl⟩ := mem_oneOf hhow
  have hspace := mem_word hblank
  obtain ⟨hname, hi⟩ := mem_shortest hi
  refine arithmeticOf_proper hi (fun hadd => Bool.eq_false_iff.mpr fun hstarts => hdry ?_) _
  have hword : w = "Add" := by
    rw [hadd] at hw
    simpa [arithmeticWords] using hw
  -- all of `Add dry ingredients` is at the beginning of the line then
  have hline : Text.ofString w ++ how.2 = Text.ofString "Add " ++ (i.1 ++ i.2) := by
    rw [hword, hspace, hname]
    rfl
  rw [hline]
  have hfront : Text.ofString "dry ingredients" <+: i.1 ++ i.2 :=
    (List.isPrefixOf_iff_prefix.mp hstarts).trans (List.prefix_append _ _)
  exact List.isPrefixOf_iff_prefix.mpr ((List.prefix_append_right_inj (Text.ofString "Add ")).mpr
    hfront)

theorem liquefyBowlPhrase_proper : liquefyBowlPhrase.Gives (Tells Operation.Proper) := by
  unfold liquefyBowlPhrase
  repeat with_reducible refine .skip fun _ => ?_
  exact .pure (.map fun _ => vessel_isNumeral)

/-- A name that is liquefied does not begin like the contents of a bowl. -/
theorem liquefyPhrase_proper {line : Text}
    (hbowl : ¬ (line.startsWith (Text.ofString "Liquefy contents of the ") ||
      line.startsWith (Text.ofString "Liquefy the contents of the ")) = true) :
    Tells Operation.Proper (fits liquefyPhrase line) := by
  refine fits_tells fun e he => ?_
  obtain ⟨way, hway, rfl⟩ := mem_of_read? he
  obtain ⟨first, hfirst, hway⟩ := mem_bind.mp hway
  obtain ⟨article, harticle, hway⟩ := mem_bind.mp hway
  obtain ⟨blank, hblank, hway⟩ := mem_bind.mp hway
  obtain ⟨i, hi, hway⟩ := mem_bind.mp hway
  obtain ⟨done, -, hway⟩ := mem_bind.mp hway
  rw [List.mem_singleton.mp hway]
  obtain ⟨hname, hi⟩ := mem_shortest hi
  have hrest : article.2 = Text.ofString " " ++ (i.1 ++ i.2) := by
    rw [mem_word hblank, hname]
  refine .ok ⟨hi, Bool.eq_false_iff.mpr fun hstarts => hbowl ?_⟩
  have hcontents : Text.ofString "contents of the " <+: i.1 ++ i.2 :=
    (List.isPrefixOf_iff_prefix.mp hstarts).trans (List.prefix_append _ _)
  have hline := mem_word hfirst
  rw [Bool.or_eq_true]
  rcases mem_maybe harticle with ⟨the, hthe, harticle⟩ | harticle
  · have hthe := mem_word hthe
    rw [harticle] at hrest
    have hwhole : line = Text.ofString "Liquefy the " ++ (i.1 ++ i.2) := by
      rw [hline, hthe, show the.2 = _ from hrest]
      rfl
    rw [hwhole]
    exact .inr (List.isPrefixOf_iff_prefix.mpr
      ((List.prefix_append_right_inj (Text.ofString "Liquefy the ")).mpr hcontents))
  · rw [harticle] at hrest
    have hwhole : line = Text.ofString "Liquefy " ++ (i.1 ++ i.2) := by
      rw [hline, show first.2 = _ from hrest]
      rfl
    rw [hwhole]
    exact .inl (List.isPrefixOf_iff_prefix.mpr
      ((List.prefix_append_right_inj (Text.ofString "Liquefy ")).mpr hcontents))

theorem stirPhrase_proper : stirPhrase.Gives (Tells Operation.Proper) := by
  unfold stirPhrase
  repeat with_reducible refine .skip fun _ => ?_
  exact .pure (.bind fun _ hbowl => .bind fun _ hminutes => .ok ⟨vessel_isNumeral hbowl,
    number_isNumeral hminutes⟩)

theorem stirIngredientPhrase_proper : stirIngredientPhrase.Gives (Tells Operation.Proper) := by
  refine .skip fun _ => .bind (shortest_gives _) fun i hi => ?_
  repeat with_reducible refine .skip fun _ => ?_
  exact .pure (.map fun _ hbowl => ⟨vessel_isNumeral hbowl, hi⟩)

theorem mixPhrase_proper : mixPhrase.Gives (Tells Operation.Proper) := by
  unfold mixPhrase
  repeat with_reducible refine .skip fun _ => ?_
  exact .pure (.map fun _ => vessel_isNumeral)

theorem cleanPhrase_proper : cleanPhrase.Gives (Tells Operation.Proper) := by
  unfold cleanPhrase
  repeat with_reducible refine .skip fun _ => ?_
  exact .pure (.map fun _ => vessel_isNumeral)

theorem pourPhrase_proper : pourPhrase.Gives (Tells Operation.Proper) := by
  unfold pourPhrase
  repeat with_reducible refine .skip fun _ => ?_
  exact .pure (.bind fun _ hbowl => .bind fun _ hdish => .ok ⟨vessel_isNumeral hbowl,
    vessel_isNumeral hdish⟩)

theorem serveWithPhrase_proper : serveWithPhrase.Gives (Tells Operation.Proper) :=
  .skip fun _ => .bind (longest_gives _) fun _ hr => .skip fun _ => .pure (.ok hr)

theorem refrigeratePhrase_proper : refrigeratePhrase.Gives (Tells Operation.Proper) := by
  refine .skip fun _ => .skip fun hours => .skip fun _ => .pure ?_
  cases hours with
  | none => exact .ok fun n hn => by cases hn
  | some ds =>
    refine .map fun h hh n hn => ?_
    cases hn
    cases hk : number ds with
    | error e =>
      rw [hk] at hh
      cases hh
    | ok k =>
      rw [hk] at hh
      cases hh
      exact number_isNumeral hk

/-- The ingredient at the end of a loop may be left out. -/
theorem loopEndPhrase_proper : loopEndPhrase.Gives (Tells Operation.Proper) := by
  have hname : (do word " "; name : Phrase Text).Gives IsName := .skip fun _ => shortest_gives _
  refine .skip fun _ => .skip fun _ => .bind (.maybe hname) fun i hi => ?_
  refine .skip fun _ => .bind (longest_gives _) fun verb hverb => .skip fun _ => ?_
  exact .pure (.ok ⟨lower_isVerb hverb, hi, rfl⟩)

/-- No ` until ` begins in ` the`. -/
theorem includes_the (i : Text) : (Text.ofString " the " ++ i).includes (Text.ofString " until ") =
    (Text.ofString " " ++ i).includes (Text.ofString " until ") := rfl

/-- The beginning of a loop has no ` until ` in it, or it would be an end. -/
theorem loopStartPhrase_proper {line : Text}
    (huntil : ¬ line.includes (Text.ofString " until ") = true) :
    Tells Operation.Proper (fits loopStartPhrase line) := by
  refine fits_tells fun e he => ?_
  obtain ⟨way, hway, rfl⟩ := mem_of_read? he
  obtain ⟨verb, hverb, hway⟩ := mem_bind.mp hway
  obtain ⟨article, harticle, hway⟩ := mem_bind.mp hway
  obtain ⟨blank, hblank, hway⟩ := mem_bind.mp hway
  obtain ⟨i, hi, hway⟩ := mem_bind.mp hway
  obtain ⟨done, -, hway⟩ := mem_bind.mp hway
  rw [List.mem_singleton.mp hway]
  obtain ⟨hline, hverb⟩ := mem_shortest hverb
  obtain ⟨hname, hi⟩ := mem_longest hi
  have hrest : article.2 = (Text.ofString " " ++ i.1) ++ i.2 := by
    rw [mem_word hblank, hname, List.append_assoc]
  have hend : article.2 <:+: line := by
    have hsuffix : article.2 <:+ verb.2 := by
      rcases mem_maybe harticle with ⟨the, hthe, harticle⟩ | harticle
      · rw [harticle, mem_word hthe]
        exact List.suffix_append _ _
      · have heq : article.2 = verb.2 := congrArg Prod.snd harticle
        exact heq ▸ List.suffix_refl _
    rw [hline]
    exact (hsuffix.trans (List.suffix_append _ _)).isInfix
  refine .ok ⟨lower_isVerb hverb, hi, Bool.eq_false_iff.mpr fun hincludes => huntil ?_, rfl⟩
  rw [includes_the, Text.includes_iff] at hincludes
  rw [hrest] at hend
  exact Text.includes_iff.mpr ((hincludes.trans (List.prefix_append _ _).isInfix).trans hend)

/-! ## 4. Statements -/

/-- **Every statement says a proper operation.** -/
theorem ofStatement_proper {line : Text} {op : Operation}
    (h : Operation.ofStatement line = .ok op) : op.Proper := by
  suffices hs : Tells Operation.Proper (Operation.ofStatement line) from hs op h
  have hgives : ∀ {p : Phrase (Except LineError Operation)}, p.Gives (Tells Operation.Proper) →
      Tells Operation.Proper (fits p line) := fun hp => fits_tells fun _ he => hp.read? he
  have hinto : ∀ verb, ∀ {make : Text → Int → Operation}, (∀ i bowl, (make i bowl).Proper =
    (IsName i ∧ IsNumeral bowl)) →
      Tells Operation.Proper (fits (intoBowlPhrase verb make) line) := fun verb _ hmake =>
    hgives (intoBowlPhrase_proper verb fun i bowl hi hbowl => (hmake i bowl).mpr ⟨hi, hbowl⟩)
  unfold Operation.ofStatement
  -- in the order in which the phrases are tried
  refine .ite (hgives takePhrase_proper) fun _ => ?_
  refine .ite (hinto _ fun _ _ => rfl) fun _ => ?_
  refine .ite (hinto _ fun _ _ => rfl) fun _ => ?_
  refine .ite (hgives addDryPhrase_proper) fun hdry => ?_
  refine .ite (arithmeticPhrase_proper hdry) fun _ => ?_
  refine .ite (hgives liquefyBowlPhrase_proper) fun hbowl => ?_
  refine .ite (liquefyPhrase_proper hbowl) fun _ => ?_
  refine .ite (hgives stirPhrase_proper) fun _ => ?_
  refine .ite (hgives stirIngredientPhrase_proper) fun _ => ?_
  refine .ite (hgives mixPhrase_proper) fun _ => ?_
  refine .ite (hgives cleanPhrase_proper) fun _ => ?_
  refine .ite (hgives pourPhrase_proper) fun _ => ?_
  refine .ite (.ok rfl) fun _ => ?_
  refine .ite (hgives serveWithPhrase_proper) fun _ => ?_
  refine .ite (hgives refrigeratePhrase_proper) fun _ => ?_
  exact .ite (hgives loopEndPhrase_proper) fun huntil => loopStartPhrase_proper huntil

/-! ## 5. Open places -/

/-- The other end of the loop that an operation begins, ends or leaves. -/
def Operation.target? : Operation → Option Nat
  | .loopStart _ _ closer => closer
  | .setAside closer => closer
  | .loopEnd _ _ opener => opener
  | _ => none

/-- Where the other end of a loop is stays open, and an ingredient that is named has a name that is
    not empty. -/
structure Operation.Unplaced (op : Operation) : Prop where
  target : op.target? = none
  named : ∀ i, op.ingredient? = some i → i ≠ []

/-- The operation with the other end of its loop left open. -/
def Operation.bare : Operation → Operation
  | .loopStart verb i _ => .loopStart verb i none
  | .setAside _ => .setAside none
  | .loopEnd verb i _ => .loopEnd verb i none
  | op => op

theorem Operation.Unplaced.bare_eq {op : Operation} (h : op.Unplaced) : op.bare = op := by
  have htarget := h.target
  cases op with
  | loopStart verb i closer => rw [Operation.bare, show closer = none from htarget]
  | setAside closer => rw [Operation.bare, show closer = none from htarget]
  | loopEnd verb i opener => rw [Operation.bare, show opener = none from htarget]
  | _ => rfl

theorem Operation.Proper.target {op : Operation} (h : op.Proper) : op.target? = none := by
  cases op with
  | loopStart => exact h.2.2.2
  | loopEnd => exact h.2.2
  | setAside => exact h
  | _ => rfl

theorem Operation.Proper.isName {op : Operation} (h : op.Proper) {i : Text}
    (hi : op.ingredient? = some i) : IsName i := by
  cases op with
  | take => cases hi; exact h
  | put | fold | arithmetic | liquefy => cases hi; exact h.1
  | stirIngredient => cases hi; exact h.2
  | loopStart => cases hi; exact h.2.1
  | loopEnd => exact h.2.1 i hi
  | _ => cases hi

/-- **Every statement leaves the places of its operation open and names its ingredient.** -/
theorem ofStatement_unplaced {line : Text} {op : Operation}
    (h : Operation.ofStatement line = .ok op) : op.Unplaced :=
  have hproper := ofStatement_proper h
  ⟨hproper.target, fun _ hi => (hproper.isName hi).1⟩

end Esolang.Chef
