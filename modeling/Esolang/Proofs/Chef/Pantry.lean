/-
  File:      Esolang/Proofs/Chef/Pantry.lean
  Subject:   Which lines list an ingredient, and what they say.

  An amount, a measure and a name stand in a line one after another, and all but the name may be
  missing. The words of a name can look like any of the other parts. So a name must not begin with
  what would be taken for a missing part, and with this one condition a line can be taken apart in
  one way only.

  * `Amount`, `Measure`, `Listing`: the parts of a line, and all of them together;
    `Listing.meaning`: what they mean.
  * `takeAmount_eq`, `takeMeasure_eq`: what is taken from the front of the words.
  * `Listing.words_injective`: a line can be taken apart in one way only.
  * `Refused`: the lines that list nothing, and why; `listed_or_refused`: there are no others.
  * `ingredient_lines_decode`: all lines at once.
-/
import Esolang.Chef.Pantry
import Esolang.Proofs.Words

namespace Esolang.Chef

open Text (ofString)

/-! ## 1. The parts of a line -/

/-- What can stand in front of the digits of an amount. -/
inductive Sign where
  | absent
  | plus
  | minus
deriving DecidableEq

/-- How a sign is written. -/
def Sign.text : Sign → Text
  | .absent => []
  | .plus => "+"
  | .minus => "-"

/-- What a sign makes of a number. -/
def Sign.factor : Sign → Int
  | .absent | .plus => 1
  | .minus => -1

/-- An amount as it is written: a row of decimal digits of any script, perhaps with a sign. -/
structure Amount where
  sign : Sign
  digits : Text
  nonempty : digits ≠ []
  decimal : ∀ c ∈ digits, c.isDigit = true

/-- How an amount is written. -/
def Amount.text (a : Amount) : Text := a.sign.text ++ a.digits

/-- The number that an amount spells. -/
def Amount.value (a : Amount) : Int := a.sign.factor * (Decimal.value (digitValues a.digits) : Nat)

/-- Whether an amount has not too many digits to be read. -/
def Amount.IsShort (a : Amount) : Prop := a.digits.length ≤ Decimal.limit

instance (a : Amount) : Decidable a.IsShort := inferInstanceAs (Decidable (_ ≤ _))

/-- How a measure can be filled. -/
inductive Filling where
  | heaped
  | level
deriving DecidableEq

/-- The word for a filling. -/
def Filling.text : Filling → Text
  | .heaped => "heaped"
  | .level => "level"

/-- One of the measures, perhaps with how it is filled. -/
structure Measure where
  filling : Option Filling
  word : String
  kind : Kind
  listed : (word, kind) ∈ measures

/-- The words of a measure. -/
def Measure.words (m : Measure) : List Text :=
  match m.filling with
  | none => [ofString m.word]
  | some f => [f.text, ofString m.word]

/-- The words of an amount that may be missing. -/
def amountWords (a : Option Amount) : List Text := (a.map Amount.text).toList

/-- The words of a measure that may be missing. -/
def measureWords (m : Option Measure) : List Text := (m.map Measure.words).getD []

/-- Words that do not begin with an amount. -/
def NoAmount (ws : List Text) : Prop := ∀ a : Amount, ws.head? ≠ some a.text

/-- Words that do not begin with one of the measures. -/
def NoMeasureWord (ws : List Text) : Prop := ∀ entry ∈ measures, ws.head? ≠ some (ofString entry.1)

/-- Words that begin neither with one of the measures nor with how one is filled. -/
def NoMeasure (ws : List Text) : Prop := NoMeasureWord ws ∧ ∀ f : Filling, ws.head? ≠ some f.text

/-- What a line lists: an ingredient with its amount and its measure, as far as it has them. The
    name does not begin with what would be taken for a part that is missing. -/
structure Listing where
  amount : Option Amount
  measure : Option Measure
  name : List Text
  named : name ≠ []
  isWord : ∀ w ∈ name, w.IsWord
  unmeasured : measure = none → NoMeasure name
  uncounted : measure = none → amount = none → NoAmount name

namespace Listing

/-- The words of a line. -/
def words (l : Listing) : List Text := amountWords l.amount ++ (measureWords l.measure ++ l.name)

/-- Whether the amount, if there is one, can be read. -/
def IsShort (l : Listing) : Prop := ∀ a, l.amount = some a → a.IsShort

/-- The name and the ingredient: the words of the name with single spaces between them, the kind
    that the measure gives, and the number that the amount spells. -/
def meaning (l : Listing) : Text × Ingredient :=
  (Text.join [Text.space] l.name, ⟨(l.measure.map Measure.kind).getD .unknown,
    l.amount.map Amount.value⟩)

end Listing

/-! ## 2. Amounts -/

theorem digits_eq_some {ds : Text} {negative : Bool} {r : Bool × Text} :
    (if !ds.isEmpty && ds.all CodePoint.isDigit then some (negative, ds) else none) = some r ↔
      ds ≠ [] ∧ (∀ c ∈ ds, c.isDigit = true) ∧ r = (negative, ds) := by
  rw [Option.ite_none_right_eq_some, Bool.and_eq_true, Bool.not_eq_true', List.isEmpty_eq_false_iff,
    List.all_eq_true, Option.some.injEq, and_assoc, eq_comm (a := r)]

/-- An amount is read as its sign and its digits. -/
theorem amount?_text (a : Amount) : ∃ negative, amount? a.text = some (negative, a.digits) ∧
    a.sign.factor = if negative then -1 else 1 := by
  obtain ⟨sign, digits, hne, hdigits⟩ := a
  cases sign with
  | minus => exact ⟨true, digits_eq_some.mpr ⟨hne, hdigits, rfl⟩, rfl⟩
  | plus => exact ⟨false, digits_eq_some.mpr ⟨hne, hdigits, rfl⟩, rfl⟩
  | absent =>
    obtain ⟨c, cs, rfl⟩ := List.exists_cons_of_ne_nil hne
    -- a digit is no sign
    have hminus : c ≠ '-' := fun h => absurd (h ▸ hdigits c List.mem_cons_self) (by decide)
    have hplus : c ≠ '+' := fun h => absurd (h ▸ hdigits c List.mem_cons_self) (by decide)
    refine ⟨false, ?_, rfl⟩
    simp only [amount?, Amount.text, Sign.text, List.nil_append, if_neg hminus, if_neg hplus]
    exact digits_eq_some.mpr ⟨hne, hdigits, rfl⟩

/-- Whatever is read as an amount is one. -/
theorem exists_amount {w ds : Text} {negative : Bool} (h : amount? w = some (negative, ds)) :
    ∃ a : Amount, w = a.text ∧ ds = a.digits := by
  cases w with
  | nil => cases h
  | cons c cs =>
    unfold amount? at h
    by_cases hminus : c = '-'
    · simp only [if_pos hminus] at h
      obtain ⟨hne, hdigits, hread⟩ := digits_eq_some.mp h
      exact ⟨⟨.minus, cs, hne, hdigits⟩, by rw [hminus]; rfl, (Prod.mk.inj hread).2⟩
    · simp only [if_neg hminus] at h
      by_cases hplus : c = '+'
      · simp only [if_pos hplus] at h
        obtain ⟨hne, hdigits, hread⟩ := digits_eq_some.mp h
        exact ⟨⟨.plus, cs, hne, hdigits⟩, by rw [hplus]; rfl, (Prod.mk.inj hread).2⟩
      · simp only [if_neg hplus] at h
        obtain ⟨hne, hdigits, hread⟩ := digits_eq_some.mp h
        exact ⟨⟨.absent, c :: cs, hne, hdigits⟩, rfl, (Prod.mk.inj hread).2⟩

theorem Sign.text_injective (s s' : Sign) : s.text = s'.text → s = s' := by
  cases s <;> cases s' <;> decide

/-- Different amounts are written differently. -/
theorem Amount.text_injective {a a' : Amount} (h : a.text = a'.text) : a = a' := by
  obtain ⟨negative, hread, -⟩ := amount?_text a
  obtain ⟨negative', hread', -⟩ := amount?_text a'
  rw [h, hread'] at hread
  obtain ⟨-, hdigits⟩ := Prod.mk.inj (Option.some.inj hread)
  obtain ⟨sign, digits, hne, hdecimal⟩ := a
  obtain ⟨sign', digits', hne', hdecimal'⟩ := a'
  obtain rfl : digits' = digits := hdigits
  obtain rfl := Sign.text_injective _ _ (List.append_cancel_right h)
  rfl

theorem amount_short {a : Amount} (h : a.IsShort) {negative : Bool}
    (hsign : a.sign.factor = if negative then -1 else 1) :
    amount negative a.digits = .ok a.value := by
  have hread : Decimal.read (digitValues a.digits) =
      .ok (Decimal.value (digitValues a.digits)) := by
    unfold Decimal.read digitValues
    rw [List.length_map, if_neg (Nat.not_lt.mpr h)]
  unfold amount number Amount.value
  rw [hread, hsign]
  cases negative with
  | true => exact congrArg Except.ok (Int.neg_one_mul _).symm
  | false => exact congrArg Except.ok (Int.one_mul _).symm

theorem amount_long {a : Amount} (h : ¬ a.IsShort) (negative : Bool) :
    amount negative a.digits = .error (.broken (.longNumeral a.digits.length)) := by
  have hread : Decimal.read (digitValues a.digits) = .error (.longNumeral a.digits.length) := by
    unfold Decimal.read digitValues
    rw [List.length_map, if_pos (Nat.lt_of_not_le h)]
  unfold amount number
  rw [hread]
  rfl

/-- An amount that is too long cannot be taken. -/
theorem takeAmount_long {a : Amount} (h : ¬ a.IsShort) (ws : List Text) :
    takeAmount (a.text :: ws) = .error (.broken (.longNumeral a.digits.length)) := by
  obtain ⟨negative, hread, -⟩ := amount?_text a
  rw [takeAmount, hread]
  simp only [amount_long h]
  rfl

/-- **The amount is taken**, if there is one and it can be read. -/
theorem takeAmount_eq {a : Option Amount} {ws : List Text} (hshort : ∀ x, a = some x → x.IsShort)
    (hnone : a = none → NoAmount ws) :
    takeAmount (amountWords a ++ ws) = .ok (a.map Amount.value, ws) := by
  cases a with
  | some a =>
    obtain ⟨negative, hread, hsign⟩ := amount?_text a
    show takeAmount (a.text :: ws) = _
    rw [takeAmount, hread]
    simp only [amount_short (hshort a rfl) hsign]
    rfl
  | none =>
    cases ws with
    | nil => rfl
    | cons w ws =>
      have hread : amount? w = none := by
        cases hw : amount? w with
        | none => rfl
        | some r =>
          obtain ⟨a, rfl, -⟩ := exists_amount hw
          exact absurd rfl (hnone rfl a)
      show takeAmount (w :: ws) = _
      rw [takeAmount, hread]
      rfl

/-! ## 3. Measures -/

theorem isFilling_text (f : Filling) : isFilling f.text = true := by
  cases f <;> decide

theorem exists_filling {w : Text} (h : isFilling w = true) : ∃ f : Filling, w = f.text := by
  rcases Bool.or_eq_true_iff.mp h with h | h
  · exact ⟨.heaped, of_decide_eq_true h⟩
  · exact ⟨.level, of_decide_eq_true h⟩

theorem measures_distinct : ∀ entry ∈ measures, measure? (ofString entry.1) = some entry.2 ∧
    isFilling (ofString entry.1) = false ∧ amount? (ofString entry.1) = none ∧
    ∀ entry' ∈ measures, ofString entry.1 = ofString entry'.1 → entry = entry' := by
  decide +kernel

theorem measure?_eq_none {w : Text} (h : ∀ entry ∈ measures, w ≠ ofString entry.1) :
    measure? w = none := by
  have hfind : measures.find? (ofString ·.1 = w) = none :=
    List.find?_eq_none.mpr fun entry he hw => h entry he (of_decide_eq_true hw).symm
  rw [measure?, hfind]
  rfl

/-- A filling without a measure is an error. -/
theorem takeMeasure_filling (f : Filling) {ws : List Text} (h : NoMeasureWord ws) :
    takeMeasure (f.text :: ws) = .error (.wrong .badMeasure) := by
  unfold takeMeasure
  simp only [if_pos (isFilling_text f)]
  cases ws with
  | nil => rfl
  | cons w ws =>
    have hnone : measure? w = none :=
      measure?_eq_none fun entry he hw => h entry he (congrArg some hw)
    simp only [hnone]

/-- **The measure is taken**, if there is one. -/
theorem takeMeasure_eq {m : Option Measure} {ws : List Text} (hnone : m = none → NoMeasure ws) :
    takeMeasure (measureWords m ++ ws) = .ok (m.map Measure.kind, ws) := by
  cases m with
  | some m =>
    obtain ⟨filling, word, kind, hlisted⟩ := m
    obtain ⟨hkind, hfilling, -⟩ := measures_distinct _ hlisted
    cases filling with
    | none =>
      show takeMeasure (ofString word :: ws) = _
      unfold takeMeasure
      simp only [if_neg (Bool.eq_false_iff.mp hfilling), hkind]
      rfl
    | some f =>
      show takeMeasure (f.text :: ofString word :: ws) = _
      unfold takeMeasure
      simp only [if_pos (isFilling_text f), hkind]
      rfl
  | none =>
    cases ws with
    | nil => rfl
    | cons w ws =>
      obtain ⟨hmeasure, hfilling⟩ := hnone rfl
      have hkind : measure? w = none :=
        measure?_eq_none fun entry he hw => hmeasure entry he (congrArg some hw)
      have hfill : ¬ isFilling w = true := by
        intro h
        obtain ⟨f, rfl⟩ := exists_filling h
        exact hfilling f rfl
      show takeMeasure (w :: ws) = _
      unfold takeMeasure
      simp only [if_neg hfill, hkind]
      rfl

/-! ## 4. One way to take a line apart -/

theorem amountWords_inj {a a' : Option Amount} {ws ws' : List Text}
    (h : amountWords a ++ ws = amountWords a' ++ ws') (hnone : a = none → NoAmount ws)
    (hnone' : a' = none → NoAmount ws') : a = a' ∧ ws = ws' := by
  cases a with
  | none =>
    cases a' with
    | none => exact ⟨rfl, h⟩
    | some a' =>
      obtain rfl : ws = a'.text :: ws' := h
      exact absurd rfl (hnone rfl a')
  | some a =>
    cases a' with
    | none =>
      obtain rfl : a.text :: ws = ws' := h
      exact absurd rfl (hnone' rfl a)
    | some a' =>
      obtain ⟨htext, hws⟩ := List.cons.inj h
      exact ⟨congrArg some (Amount.text_injective htext), hws⟩

theorem Filling.text_injective (f f' : Filling) : f.text = f'.text → f = f' := by
  cases f <;> cases f' <;> decide

theorem not_noMeasure_words (m : Measure) (ws : List Text) : ¬ NoMeasure (m.words ++ ws) := by
  obtain ⟨filling, word, kind, hlisted⟩ := m
  intro h
  cases filling with
  | none => exact h.1 _ hlisted rfl
  | some f => exact h.2 f rfl

/-- A measure is no filling, so the words of two measures tell them apart. -/
theorem Measure.words_inj {m m' : Measure} {ws ws' : List Text}
    (h : m.words ++ ws = m'.words ++ ws') : m = m' ∧ ws = ws' := by
  obtain ⟨filling, word, kind, hlisted⟩ := m
  obtain ⟨filling', word', kind', hlisted'⟩ := m'
  obtain ⟨-, hfilling, -, hsame⟩ := measures_distinct _ hlisted
  obtain ⟨-, hfilling', -⟩ := measures_distinct _ hlisted'
  cases filling with
  | none =>
    cases filling' with
    | none =>
      obtain ⟨hword, hws⟩ := List.cons.inj h
      cases hsame _ hlisted' hword
      exact ⟨rfl, hws⟩
    | some f' =>
      have hword : ofString word = f'.text := (List.cons.inj h).1
      rw [hword, isFilling_text] at hfilling
      cases hfilling
  | some f =>
    cases filling' with
    | none =>
      have hword : f.text = ofString word' := (List.cons.inj h).1
      rw [← hword, isFilling_text] at hfilling'
      cases hfilling'
    | some f' =>
      obtain ⟨hfill, hrest⟩ := List.cons.inj h
      obtain ⟨hword, hws⟩ := List.cons.inj hrest
      cases hsame _ hlisted' hword
      obtain rfl := Filling.text_injective _ _ hfill
      exact ⟨rfl, hws⟩

theorem measureWords_inj {m m' : Option Measure} {ws ws' : List Text}
    (h : measureWords m ++ ws = measureWords m' ++ ws') (hnone : m = none → NoMeasure ws)
    (hnone' : m' = none → NoMeasure ws') : m = m' ∧ ws = ws' := by
  cases m with
  | none =>
    cases m' with
    | none => exact ⟨rfl, h⟩
    | some m' =>
      obtain rfl : ws = m'.words ++ ws' := h
      exact absurd (hnone rfl) (not_noMeasure_words m' ws')
  | some m =>
    cases m' with
    | none =>
      obtain rfl : m.words ++ ws = ws' := h
      exact absurd (hnone' rfl) (not_noMeasure_words m ws)
    | some m' =>
      obtain ⟨hm, hws⟩ := Measure.words_inj h
      exact ⟨congrArg some hm, hws⟩

theorem noAmount_nil : NoAmount [] := by
  intro a ha
  cases ha

theorem noMeasure_nil : NoMeasure [] := by
  refine ⟨fun entry _ h => ?_, fun f h => ?_⟩
  · cases h
  · cases h

theorem noAmount_of_amount? {w : Text} (h : amount? w = none) (ws : List Text) :
    NoAmount (w :: ws) := by
  intro a ha
  obtain ⟨negative, hread, -⟩ := amount?_text a
  rw [← Option.some.inj ha, h] at hread
  cases hread

theorem noAmount_filling (f : Filling) (ws : List Text) : NoAmount (f.text :: ws) := by
  cases f <;> exact noAmount_of_amount? (by decide) ws

theorem noAmount_measure (m : Measure) (ws : List Text) : NoAmount (m.words ++ ws) := by
  obtain ⟨filling, word, kind, hlisted⟩ := m
  cases filling with
  | none => exact noAmount_of_amount? (measures_distinct _ hlisted).2.2.1 ws
  | some f => exact noAmount_filling f _

/-- Where the amount is missing, nothing stands in its place that could be taken for one. -/
theorem noAmount_rest {m : Option Measure} {name : List Text} (h : m = none → NoAmount name) :
    NoAmount (measureWords m ++ name) := by
  cases m with
  | none => exact h rfl
  | some m => exact noAmount_measure m name

/-- **A line can be taken apart in one way only.** -/
theorem Listing.words_injective {l l' : Listing} (h : l.words = l'.words) : l = l' := by
  obtain ⟨hamount, hrest⟩ :=
    amountWords_inj h (fun hnone => noAmount_rest fun hm => l.uncounted hm hnone)
    (fun hnone => noAmount_rest fun hm => l'.uncounted hm hnone)
  obtain ⟨hmeasure, hname⟩ := measureWords_inj hrest l.unmeasured l'.unmeasured
  cases l
  cases l'
  cases hamount
  cases hmeasure
  cases hname
  rfl

/-! ## 5. Lines that list nothing -/

/-- A line that lists nothing, and what is wrong with it. -/
inductive Refused (line : Text) : LineError → Prop where
  /-- The amount has too many digits, whatever follows it. -/
  | longAmount (a : Amount) (ws : List Text) (hlong : ¬ a.IsShort)
      (h : Text.Spaced (a.text :: ws) line) :
      Refused line (.broken (.longNumeral a.digits.length))
  /-- No measure follows on `heaped` or `level`, which stands first or behind the amount. -/
  | badMeasure (a : Option Amount) (f : Filling) (ws : List Text) (hshort : ∀ x, a = some x →
        x.IsShort)
      (hnone : NoMeasureWord ws) (h : Text.Spaced (amountWords a ++ f.text :: ws) line) :
      Refused line (.wrong .badMeasure)
  /-- There is no name behind the other parts, of which none need be there. -/
  | noName (a : Option Amount) (m : Option Measure) (hshort : ∀ x, a = some x → x.IsShort)
      (h : Text.Spaced (amountWords a ++ measureWords m) line) : Refused line (.wrong .noName)

/-- The ingredient on a line, by the steps that find it. -/
theorem ingredientOf_eq {line : Text} {ws ws' name : List Text} {value : Option Int}
    {kind : Option Kind} (hwords : line.words = ws) (hamount : takeAmount ws = .ok (value, ws'))
    (hmeasure : takeMeasure ws' = .ok (kind, name)) :
    ingredientOf line =
      if name.isEmpty then .error (.wrong .noName)
      else .ok (Text.join [Text.space] name, ⟨kind.getD .unknown, value⟩) := by
  unfold ingredientOf
  rw [hwords, hamount]
  show (takeMeasure ws' >>= _) = _
  rw [hmeasure]
  rfl

/-- **A line that lists an ingredient says it.** -/
theorem ingredientOf_listing {l : Listing} {line : Text} (hshort : l.IsShort)
    (h : Text.Spaced l.words line) : ingredientOf line = .ok l.meaning := by
  have hamount := takeAmount_eq hshort fun hnone => noAmount_rest fun hm => l.uncounted hm hnone
  have hmeasure := takeMeasure_eq l.unmeasured
  rw [ingredientOf_eq h.words_eq hamount hmeasure,
    if_neg fun hempty => l.named (List.isEmpty_iff.mp hempty)]
  rfl

/-- **A line that lists nothing is refused.** -/
theorem Refused.ingredientOf {line : Text} {e : LineError} (h : Refused line e) :
    ingredientOf line = .error e := by
  cases h with
  | longAmount a ws hlong h =>
    unfold Chef.ingredientOf
    rw [h.words_eq, takeAmount_long hlong]
    rfl
  | badMeasure a f ws hshort hnone h =>
    have hamount := takeAmount_eq hshort fun _ => noAmount_filling f ws
    unfold Chef.ingredientOf
    rw [h.words_eq, hamount]
    show (takeMeasure (f.text :: ws) >>= _) = _
    rw [takeMeasure_filling f hnone]
    rfl
  | noName a m hshort h =>
    rw [← List.append_nil (measureWords m)] at h
    have hrest : NoAmount (measureWords m ++ []) := noAmount_rest fun _ => noAmount_nil
    have hmeasure : takeMeasure (measureWords m ++ []) = _ := takeMeasure_eq fun _ => noMeasure_nil
    exact ingredientOf_eq h.words_eq (takeAmount_eq hshort fun _ => hrest) hmeasure

/-- An amount can be cut off the words if they begin with one. -/
theorem exists_amountWords (ws : List Text) :
    ∃ a rest, ws = amountWords a ++ rest ∧ (a = none → NoAmount rest) := by
  by_cases h : NoAmount ws
  · exact ⟨none, ws, rfl, fun _ => h⟩
  · obtain ⟨a, ha⟩ := Classical.not_forall.mp h
    obtain ⟨rest, rfl⟩ := List.head?_eq_some_iff.mp (Classical.not_not.mp ha)
    refine ⟨some a, rest, rfl, fun hnone => ?_⟩
    cases hnone

theorem exists_measureWord {ws : List Text} (h : ¬ NoMeasureWord ws) :
    ∃ word kind rest, (word, kind) ∈ measures ∧ ws = ofString word :: rest := by
  obtain ⟨⟨word, kind⟩, h⟩ := Classical.not_forall.mp h
  obtain ⟨hlisted, h⟩ := Classical.not_imp.mp h
  obtain ⟨rest, rfl⟩ := List.head?_eq_some_iff.mp (Classical.not_not.mp h)
  exact ⟨word, kind, rest, hlisted, rfl⟩

/-- A measure can be cut off the words if they begin with one, but there may be a filling without a
    measure. -/
theorem exists_measureWords (ws : List Text) :
    (∃ m rest, ws = measureWords m ++ rest ∧ (m = none → NoMeasure rest)) ∨
      ∃ (f : Filling) (rest : List Text), ws = f.text :: rest ∧ NoMeasureWord rest := by
  by_cases hfilling : ∀ f : Filling, ws.head? ≠ some f.text
  · by_cases hmeasure : NoMeasureWord ws
    · exact .inl ⟨none, ws, rfl, fun _ => ⟨hmeasure, hfilling⟩⟩
    · obtain ⟨word, kind, rest, hlisted, rfl⟩ := exists_measureWord hmeasure
      refine .inl ⟨some ⟨none, word, kind, hlisted⟩, rest, rfl, fun hnone => ?_⟩
      cases hnone
  · obtain ⟨f, hf⟩ := Classical.not_forall.mp hfilling
    obtain ⟨rest, rfl⟩ := List.head?_eq_some_iff.mp (Classical.not_not.mp hf)
    by_cases hmeasure : NoMeasureWord rest
    · exact .inr ⟨f, rest, rfl, hmeasure⟩
    · obtain ⟨word, kind, rest, hlisted, rfl⟩ := exists_measureWord hmeasure
      refine .inl ⟨some ⟨some f, word, kind, hlisted⟩, rest, rfl, fun hnone => ?_⟩
      cases hnone

/-- **Every line lists an ingredient or is refused.** -/
theorem listed_or_refused (line : Text) :
    (∃ l : Listing, l.IsShort ∧ Text.Spaced l.words line) ∨ ∃ e, Refused line e := by
  have hline := line.spaced_words
  obtain ⟨a, ws, hwords, hamount⟩ := exists_amountWords line.words
  rw [hwords] at hline
  by_cases hshort : ∀ x, a = some x → x.IsShort
  · rcases exists_measureWords ws with ⟨m, name, rfl, hmeasure⟩ | ⟨f, rest, rfl, hnone⟩
    · by_cases hname : name = []
      · rw [hname, List.append_nil] at hline
        exact .inr ⟨_, .noName a m hshort hline⟩
      · have hname_words : ∀ w ∈ name, w.IsWord := fun w hw =>
          hline.isWord w (List.mem_append_right _ (List.mem_append_right _ hw))
        have huncounted : m = none → a = none → NoAmount name := by
          rintro rfl ha
          exact hamount ha
        exact .inl ⟨⟨a, m, name, hname, hname_words, hmeasure, huncounted⟩, hshort, hline⟩
    · exact .inr ⟨_, .badMeasure a f rest hshort hnone hline⟩
  · cases a with
    | none => exact absurd (fun x hx => by cases hx) hshort
    | some a =>
      exact .inr ⟨_, .longAmount a ws (fun h => hshort fun x hx => Option.some.inj hx ▸ h) hline⟩

/-- **Lines of ingredients are decoded exactly, and in one way only.** A line in which the parts of
    a listing stand one after another, with any blanks between and around them, is read as what the
    listing says. Every line that is read is such a line, and of no other listing. A line is refused
    exactly if its amount has too many digits, or else if no measure follows on `heaped` or `level`,
    or else if there is no name; all other lines are read. -/
theorem ingredient_lines_decode (line : Text) :
    (∀ l : Listing, l.IsShort → Text.Spaced l.words line → ingredientOf line = .ok l.meaning) ∧
      (∀ name i, ingredientOf line = .ok (name, i) →
        ∃ l : Listing, l.IsShort ∧ Text.Spaced l.words line ∧ l.meaning = (name, i) ∧
          ∀ l' : Listing, Text.Spaced l'.words line → l' = l) ∧
      (∀ e, ingredientOf line = .error e ↔ Refused line e) ∧
      SyntaxError.badMeasure.message = ofString "Invalid measure" ∧
      SyntaxError.noName.message = ofString "Missing ingredient name" := by
  refine ⟨fun l hshort h => ingredientOf_listing hshort h, fun name i hread => ?_,
    fun e => ⟨fun hread => ?_, ?_⟩, rfl, rfl⟩
  · rcases listed_or_refused line with ⟨l, hshort, hline⟩ | ⟨e, he⟩
    · rw [ingredientOf_listing hshort hline] at hread
      refine ⟨l, hshort, hline, Except.ok.inj hread, fun l' hline' => ?_⟩
      exact Listing.words_injective (hline'.words_eq.symm.trans hline.words_eq)
    · rw [he.ingredientOf] at hread
      cases hread
  · rcases listed_or_refused line with ⟨l, hshort, hline⟩ | ⟨e', he⟩
    · rw [ingredientOf_listing hshort hline] at hread
      cases hread
    · rw [he.ingredientOf] at hread
      cases hread
      exact he
  · exact Refused.ingredientOf

/-- Three heaped cups of something whose name begins like an amount with a measure. The amount is an
    Arabic digit. -/
def sweetening : Listing where
  amount := some ⟨.plus, "٣", by decide, by decide +kernel⟩
  measure := some ⟨some .heaped, "cups", .unknown, by decide +kernel⟩
  name := ["2", "g", "sugar"]
  named := List.cons_ne_nil _ _
  isWord := by decide +kernel
  unmeasured h := by cases h
  uncounted h := by cases h

/-- The cups are read with their name, in one way only; and nothing can be level without a
    measure. -/
theorem ingredient_lines_decode_sweetening :
    sweetening.IsShort ∧ Text.Spaced sweetening.words "  +٣ heaped\tcups 2  g sugar " ∧
      ingredientOf "  +٣ heaped\tcups 2  g sugar " = .ok ("2 g sugar", ⟨.unknown, some 3⟩) ∧
      (∀ l : Listing, Text.Spaced l.words "  +٣ heaped\tcups 2  g sugar " → l = sweetening) ∧
      ingredientOf "-7 level" = .error (.wrong .badMeasure) := by
  have hshort : sweetening.IsShort := by
    intro a ha
    cases ha
    decide
  have hline : Text.Spaced sweetening.words "  +٣ heaped\tcups 2  g sugar " :=
    Text.words_eq_iff.mp (by decide +kernel)
  have hread := (ingredient_lines_decode "  +٣ heaped\tcups 2  g sugar ").1 sweetening hshort hline
  obtain ⟨l, -, -, -, honly⟩ :=
    (ingredient_lines_decode "  +٣ heaped\tcups 2  g sugar ").2.1 _ _ hread
  have hlevel : Refused "-7 level" (.wrong .badMeasure) := by
    refine .badMeasure (some ⟨.minus, "7", by decide, by decide +kernel⟩) .level [] (fun x hx => ?_)
      noMeasure_nil.1 (Text.words_eq_iff.mp (by decide +kernel))
    cases hx
    decide
  refine ⟨hshort, hline, ?_, fun l' hl' => ?_,
    ((ingredient_lines_decode "-7 level").2.2.1 _).mpr hlevel⟩
  · exact hread.trans (congrArg Except.ok (by decide +kernel))
  · exact (honly l' hl').trans (honly sweetening hline).symm

end Esolang.Chef
