/-
  File:      Esolang/Proofs/Chef/Sentence.lean
  Subject:   Operations in words, and how the phrases read them.

  Names may have any words in them, also those that stand around names. A sentence is clear all the
  same: what follows a name is as long as it can be, up to the next number or to the end, so a
  shorter name would leave too much. At the end of a loop it is the number of spaces that decides.

  * `Operation.sentence`: an operation in words, with the endings of ordinals and the first word of
    a loop left free.
  * `bowlStems` and so on: how texts begin that can follow a name.
  * `takePhrase_reads` and so on: the preferred way to read each sentence gives its operation.
-/
import Esolang.Proofs.Chef.Statement

namespace Esolang

/-! ## 1. Digits and numbers -/

namespace CodePoint

theorem digit?_ascii {c : CodePoint} (h : c.isAsciiDigit = true) :
    c.digit? = some (c.val - 48) := by
  have hbounds : 48 ≤ c.val ∧ c.val ≤ 57 := by simpa [isAsciiDigit] using h
  have hzero : (decide (48 ≤ c.val) && decide (c.val < 48 + 10)) = true := by
    rw [Bool.and_eq_true, decide_eq_true_eq, decide_eq_true_eq]
    omega
  have hfirst : zeros.find? (fun z => decide (z ≤ c.val) && decide (c.val < z + 10)) = some 48 := by
    rw [show zeros = 48 :: zeros.tail from rfl]
    exact List.find?_cons_of_pos (p := fun z => decide (z ≤ c.val) && decide (c.val < z + 10)) hzero
  unfold digit?
  rw [hfirst]
  rfl

theorem isDigit_ascii {c : CodePoint} (h : c.isAsciiDigit = true) : c.isDigit = true := by
  rw [isDigit, digit?_ascii h]
  rfl

theorem not_isDigit {c : CodePoint} (hlow : c.val < 48 ∨ 58 ≤ c.val) (hhigh : c.val < 123) :
    c.isDigit = false := by
  have hzeros : ∀ z ∈ zeros, z = 48 ∨ 123 ≤ z := by decide
  have hnone : zeros.find? (fun z => decide (z ≤ c.val) && decide (c.val < z + 10)) = none := by
    refine List.find?_eq_none.mpr fun z hz hrun => ?_
    rw [Bool.and_eq_true, decide_eq_true_eq, decide_eq_true_eq] at hrun
    rcases hzeros z hz with rfl | hz
    · omega
    · omega
  unfold isDigit digit?
  rw [hnone]
  rfl

end CodePoint

namespace Chef

open Phrase
open Text (ofString)

theorem isNameChar_not_isDigit {c : CodePoint} (h : isNameChar c = true) : c.isDigit = false := by
  rw [isNameChar, Bool.or_eq_true, decide_eq_true_eq] at h
  rcases h with h | rfl
  · simp only [CodePoint.isLetter, Bool.or_eq_true, Bool.and_eq_true, decide_eq_true_eq] at h
    exact CodePoint.not_isDigit (by omega) (by omega)
  · decide

/-- No end of a name has a digit in it. -/
theorem IsName.digitless {i front back : Text} (h : IsName i) (hsplit : i = front ++ back) :
    ∀ c ∈ back, c.isDigit = false := by
  intro c hc
  refine isNameChar_not_isDigit (h.2 c ?_)
  rw [hsplit]
  exact List.mem_append_right _ hc

/-- A number in digits. -/
def numeral (n : Int) : Text := Decimal.ofNat n.toNat

theorem numeral_ne_nil (n : Int) : numeral n ≠ [] := Decimal.ofNat_ne_nil _

theorem numeral_isDigit (n : Int) : ∀ c ∈ numeral n, c.isDigit = true :=
  fun _ hc => CodePoint.isDigit_ascii (Decimal.ofNat_digits hc)

theorem digitValues_numeral (n : Int) : digitValues (numeral n) = (numeral n).map (·.val - 48) := by
  refine List.map_congr_left fun c hc => ?_
  rw [CodePoint.digit?_ascii (Decimal.ofNat_digits hc)]
  rfl

theorem read_numeral {n : Int} (h : IsNumeral n) :
    Decimal.read (digitValues (numeral n)) = .ok n.toNat ∧ (n.toNat : Int) = n := by
  obtain ⟨k, rfl, hlength⟩ := h
  refine ⟨?_, rfl⟩
  rw [digitValues_numeral]
  exact Decimal.read_of_length hlength

theorem number_numeral {n : Int} (h : IsNumeral n) : number (numeral n) = .ok n.toNat := by
  unfold number
  rw [(read_numeral h).1]

theorem vessel_numeral {n : Int} (h : IsNumeral n) : vessel (some (numeral n)) = .ok n := by
  obtain ⟨hread, hn⟩ := read_numeral h
  simp only [vessel, hread, hn]

theorem vessel_map {n : Int} (h : IsNumeral n) (make : Int → Operation) :
    (vessel (some (numeral n))).map make = .ok (make n) := by
  rw [vessel_numeral h]
  rfl

/-! ## 2. Sentences -/

/-- The endings of ordinals; any of them goes with any number. -/
inductive OrdinalEnding where
  | nd
  | rd
  | th
  | st

/-- The ending in letters. -/
def OrdinalEnding.text : OrdinalEnding → Text
  | nd => ofString "nd"
  | rd => ofString "rd"
  | th => ofString "th"
  | st => ofString "st"

/-- An ordinal, with a space in front. -/
def nth (e : OrdinalEnding) (n : Int) : Text := ofString " " ++ (numeral n ++ e.text)

/-- The first word of an arithmetic statement. -/
def Arithmetic.word : Arithmetic → String
  | .add => "Add"
  | .subtract => "Remove"
  | .multiply => "Combine"
  | .divide => "Divide"

/-- The preposition as a word. -/
def Preposition.word : Preposition → String
  | .to => "to"
  | .into => "into"
  | .from => "from"

/-- An operation in words. The ordinals of bowls end in `e`, those of dishes in `e'`, and loops are
    begun and ended with the word `w`. -/
def Operation.sentence (e e' : OrdinalEnding) (w : Text) : Operation → Text
  | .take i => ofString "Take " ++ (i ++ ofString " from the refrigerator")
  | .put i bowl =>
    ofString "Put the " ++ (i ++ (ofString " into the" ++ (nth e bowl ++ ofString " mixing bowl")))
  | .fold i bowl =>
    ofString "Fold the " ++ (i ++ (ofString " into the" ++ (nth e bowl ++ ofString " mixing bowl")))
  | .arithmetic how i bowl =>
    ofString how.word ++ (ofString " " ++ (i ++ (ofString " " ++ (ofString how.preposition.word ++
      (ofString " the" ++ (nth e bowl ++ ofString " mixing bowl"))))))
  | .addDry bowl => ofString "Add dry ingredients to the" ++ (nth e bowl ++ ofString " mixing bowl")
  | .liquefy i => ofString "Liquefy the " ++ i
  | .liquefyBowl bowl =>
    ofString "Liquefy contents of the" ++ (nth e bowl ++ ofString " mixing bowl")
  | .stir bowl minutes =>
    ofString "Stir the" ++
      (nth e bowl ++ (ofString " mixing bowl for " ++ (numeral minutes ++ ofString " minutes")))
  | .stirIngredient bowl i =>
    ofString "Stir " ++ (i ++ (ofString " into the" ++ (nth e bowl ++ ofString " mixing bowl")))
  | .mix bowl => ofString "Mix the" ++ (nth e bowl ++ ofString " mixing bowl well")
  | .clean bowl => ofString "Clean the" ++ (nth e bowl ++ ofString " mixing bowl")
  | .pour bowl dish =>
    ofString "Pour contents of the" ++
      (nth e bowl ++ (ofString " mixing bowl into the" ++ (nth e' dish ++ ofString " baking dish")))
  | .loopStart _ i _ => w ++ (ofString " the " ++ i)
  | .loopEnd verb none _ => w ++ (ofString " until " ++ verb)
  | .loopEnd verb (some i) _ => w ++ (ofString " the " ++ (i ++ (ofString " until " ++ verb)))
  | .setAside _ => ofString "Set aside"
  | .serveWith recipe => ofString "Serve with " ++ recipe
  | .refrigerate none => ofString "Refrigerate"
  | .refrigerate (some hours) => ofString "Refrigerate for " ++ (numeral hours ++ ofString " hours")

/-! ## 3. Phrases -/

theorem prefers_ending (e : OrdinalEnding) (rest : Text) :
    (oneOf [("nd", ()), ("rd", ()), ("th", ()), ("st", ())]).Prefers (e.text ++ rest) () rest := by
  cases e with
  | _ => exact ⟨_, rfl⟩

theorem ending_head (e : OrdinalEnding) (rest : Text) :
    ∀ c, (e.text ++ rest).head? = some c → c.isDigit = false := by
  intro c hc
  cases e with
  | _ =>
    cases hc
    decide

/-- An ordinal is read if it is there. -/
theorem prefers_ordinal (e : OrdinalEnding) (n : Int) (rest : Text) :
    ordinal.Prefers (nth e n ++ rest) (some (numeral n)) rest := by
  rw [nth, List.append_assoc, List.append_assoc]
  refine .maybe ((prefers_word " " _).bind ?_)
  refine (prefers_longest (numeral_ne_nil n) (numeral_isDigit n) (ending_head e rest)).bind ?_
  exact (prefers_ending e rest).bind (prefers_pure _ _)

theorem stem_nth {front : Text} (hfront : ∀ c ∈ front, c.isDigit = false) (e : OrdinalEnding)
    (n : Int) (rest : Text) : stem (front ++ (nth e n ++ rest)) = front ++ ofString " " := by
  obtain ⟨c, cs, hdigits⟩ := List.exists_cons_of_ne_nil (numeral_ne_nil n)
  have hc : c.isDigit = true := numeral_isDigit n c (hdigits ▸ List.mem_cons_self)
  have hnth : nth e n ++ rest = ofString " " ++ (c :: (cs ++ (e.text ++ rest))) := by
    rw [nth, hdigits, List.append_assoc, List.append_assoc, List.cons_append]
  rw [stem_append hfront, hnth, stem_word rfl, stem_of_digit hc, List.append_nil]

theorem ordinal_stems {β : Type} {f : Option Text → Phrase β} {stems : List Text}
    (h : (f none).Stems stems) : (ordinal >>= f).Stems ([ofString " "] ++ stems) := by
  refine .maybe ?_ h
  simp only [bind_assoc]
  show Stems _ ([[]].map (ofString " " ++ ·))
  exact .word rfl .number

theorem fits_of_prefers {p : Phrase (Except LineError Operation)} {line rest : Text}
    {op : Operation} (h : p.Prefers line (.ok op) rest) : fits p line = .ok op := by
  unfold fits
  rw [h.read?]
  rfl

/-- The first of several words. -/
theorem prefers_words {words : String} (w more : String) (h : words = w ++ more) (rest : Text) :
    (word w).Prefers (ofString words ++ rest) () (ofString more ++ rest) := by
  rw [h, Text.ofString_append, List.append_assoc]
  exact prefers_word w _

/-- The first of the last words of a sentence. -/
theorem prefers_lastWords {words : String} (w more : String) (h : words = w ++ more) :
    (word w).Prefers (ofString words) () (ofString more) := by
  rw [h, Text.ofString_append]
  exact prefers_word w _

/-- The last word of a sentence, and what the sentence says. -/
theorem prefers_lastWord {α : Type} (w : String) (a : α) :
    (do word w; finish; pure a : Phrase α).Prefers (ofString w) a [] := by
  have hword := (prefers_word w []).bind (f := fun _ => finish >>= fun _ => pure a) (prefers_end a)
  rwa [List.append_nil] at hword

/-- A bowl or dish with its number. -/
theorem prefers_vessel {α : Type} (w : String) (g : Option Text → α) (e : OrdinalEnding) (n : Int)
    (rest : Text) :
    (do let m ← ordinal; word w; pure (g m) : Phrase α).Prefers (nth e n ++ (ofString w ++ rest))
      (g (some (numeral n))) rest :=
  (prefers_ordinal e n _).bind ((prefers_word w rest).bind (prefers_pure _ _))

/-- A bowl or dish at the end of a sentence. -/
theorem prefers_lastVessel {α : Type} (w : String) (g : Option Text → α) (e : OrdinalEnding)
    (n : Int) :
    (do let m ← ordinal; word w; finish; pure (g m) : Phrase α).Prefers (nth e n ++ ofString w)
      (g (some (numeral n))) [] :=
  (prefers_ordinal e n _).bind (prefers_lastWord w _)

/-! ## 4. Statements with a name -/

theorem takePhrase_reads {i : Text} (hi : IsName i) :
    takePhrase.Prefers (ofString "Take " ++ (i ++ ofString " from the refrigerator"))
      (.ok (.take i)) [] := by
  refine (prefers_word "Take " _).bind
    (.shortest hi.1 hi.2 (fun front back _ hback hsplit => ?_) ?_)
  · -- with a shorter name, too much is left in front of the refrigerator
    refine Stems.ways_eq_nil
      (.word rfl (.maybe (.word rfl (.word rfl .finish)) (.word rfl .finish))) hback
      (hi.digitless hsplit) ?_
    decide +kernel
  · refine (prefers_lastWords " from" " the refrigerator" rfl).bind ?_
    refine (Prefers.maybe (prefers_lastWords " the" " refrigerator" rfl)).bind ?_
    exact prefers_lastWord " refrigerator" _

/-- How texts begin that name a bowl: up to its number, or to their end if it has none. -/
def bowlStems : List Text :=
  [ofString " "] ++ [[], [Text.newline]].map (ofString " mixing bowl" ++ ·)

/-- The same where `the` may stand in front. -/
def theBowlStems : List Text := bowlStems.map (ofString " the" ++ ·) ++ bowlStems

theorem bowl_stems {α : Type} (g : Option Text → α) :
    (do let n ← ordinal; word " mixing bowl"; finish; pure (g n) : Phrase α).Stems bowlStems :=
  ordinal_stems (.word rfl .finish)

theorem theBowl_stems {α : Type} (g : Option Text → α) :
    (do let _ ← maybe (word " the"); let n ← ordinal; word " mixing bowl"; finish; pure (g n) :
      Phrase α).Stems theBowlStems :=
  .maybe (.word rfl (bowl_stems g)) (bowl_stems g)

/-- The prepositions as words. -/
def prepositions : List (String × Preposition) := [("to", .to), ("into", .into), ("from", .from)]

/-- In arithmetic statements, a bowl is not named without a preposition, but it may be left out. -/
def arithmeticStems : List Text :=
  (prepositions.flatMap fun p => theBowlStems.map (ofString p.1 ++ ·)).map (ofString " " ++ ·) ++
    [[], [Text.newline]]

theorem arithmetic_stems {α : Type} (g : Option (Preposition × Option Text) → α) :
    (do
      let bowl ← maybe do
        word " "
        let p ← oneOf prepositions
        let _ ← maybe (word " the")
        let n ← ordinal
        word " mixing bowl"
        pure (p, n)
      finish
      pure (g bowl) : Phrase α).Stems arithmeticStems := by
  refine .maybe ?_ .finish
  simp only [bind_assoc, pure_bind]
  exact .word rfl (.oneOf (by decide) fun p => theBowl_stems fun n => g (some (p, n)))

section Bowls

variable {i : Text} {bowl : Int} (hi : IsName i) (hbowl : IsNumeral bowl) (e : OrdinalEnding)
include hi hbowl

theorem intoBowlPhrase_reads (verb : String) (make : Text → Int → Operation) :
    (intoBowlPhrase verb make).Prefers (ofString verb ++ (ofString " the" ++ (ofString " " ++
      (i ++ (ofString " into the" ++ (nth e bowl ++ ofString " mixing bowl"))))))
        (.ok (make i bowl)) [] := by
  refine (prefers_word verb _).bind ((Prefers.maybe (prefers_word " the" _)).bind
    ((prefers_word " " _).bind ?_))
  refine .shortest hi.1 hi.2 (fun front back _ hback hsplit => ?_) ?_
  · refine Stems.ways_eq_nil (.word rfl (theBowl_stems _)) hback (hi.digitless hsplit) ?_
    rw [stem_nth (by decide)]
    decide +kernel
  · refine (prefers_words " into" " the" rfl _).bind ?_
    rw [← vessel_map hbowl (make i)]
    exact (Prefers.maybe (prefers_word " the" _)).bind (prefers_lastVessel " mixing bowl" _ e bowl)

theorem stirIngredientPhrase_reads :
    stirIngredientPhrase.Prefers (ofString "Stir " ++ (i ++ (ofString " into the" ++
      (nth e bowl ++ ofString " mixing bowl")))) (.ok (.stirIngredient bowl i)) [] := by
  refine (prefers_word "Stir " _).bind
    (.shortest hi.1 hi.2 (fun front back _ hback hsplit => ?_) ?_)
  · refine Stems.ways_eq_nil (.word rfl (bowl_stems _)) hback (hi.digitless hsplit) ?_
    rw [stem_nth (by decide)]
    decide +kernel
  · rw [← vessel_map hbowl (.stirIngredient · i)]
    exact (prefers_word " into the" _).bind (prefers_lastVessel " mixing bowl" _ e bowl)

theorem arithmeticPhrase_reads (how : Arithmetic) :
    arithmeticPhrase.Prefers (ofString how.word ++ (ofString " " ++ (i ++ (ofString " " ++
      (ofString how.preposition.word ++
        (ofString " the" ++ (nth e bowl ++ ofString " mixing bowl")))))))
      (.ok (.arithmetic how i bowl)) [] := by
  have hhow : ∀ rest, (oneOf arithmeticWords).Prefers (ofString how.word ++ rest) how rest := by
    intro rest
    cases how with
    | _ => exact ⟨_, rfl⟩
  have hpreposition : ∀ (p : Preposition) rest, (oneOf prepositions).Prefers
      (ofString p.word ++ rest) p rest := by
    intro p rest
    cases p with
    | _ => exact ⟨_, rfl⟩
  refine (hhow _).bind
    ((prefers_word " " _).bind (.shortest hi.1 hi.2 (fun front back _ hback hsplit => ?_) ?_))
  · refine Stems.ways_eq_nil (arithmetic_stems (arithmeticOf how front)) hback
      (hi.digitless hsplit) ?_
    have hword : digitless how.preposition.word = true := by
      cases how with
      | _ => rfl
    rw [stem_word rfl, stem_word hword, stem_nth (by decide)]
    cases how with
    | _ => decide +kernel
  · have hsays : arithmeticOf how i (some (how.preposition, some (numeral bowl))) =
        .ok (.arithmetic how i bowl) := by
      rw [arithmeticOf, if_pos rfl, vessel_map hbowl]
    rw [← hsays]
    refine Prefers.bind (.maybe ?_) (prefers_end _)
    refine (prefers_word " " _).bind
      ((hpreposition _ _).bind ((Prefers.maybe (prefers_word " the" _)).bind ?_))
    exact prefers_vessel " mixing bowl" _ e bowl []

end Bowls

theorem liquefyPhrase_reads {i : Text} (hi : IsName i) :
    liquefyPhrase.Prefers (ofString "Liquefy the " ++ i) (.ok (.liquefy i)) [] := by
  refine (prefers_words "Liquefy" " the " rfl _).bind ?_
  refine (Prefers.maybe (prefers_words " the" " " rfl _)).bind ((prefers_word " " _).bind ?_)
  have hname : (name >>= fun i => finish >>= fun _ => pure (.ok (.liquefy i))).Prefers (i ++ [])
      (.ok (.liquefy i) : Except LineError Operation) [] := by
    refine .shortest hi.1 hi.2 (fun front back _ hback hsplit => ?_) (prefers_end _)
    refine List.eq_nil_iff_forall_not_mem.mpr fun way hway => ?_
    obtain ⟨first, hfirst, -⟩ := mem_bind.mp hway
    rw [List.append_nil] at hfirst
    rcases (mem_finish hfirst).1 with h | h
    · exact hback h
    · -- the end of a line is no part of a name
      have hnewline :=
        hi.2 Text.newline (by rw [hsplit, h]; exact List.mem_append_right _ List.mem_cons_self)
      exact absurd hnewline (by decide)
  rwa [List.append_nil] at hname

/-! ## 5. Statements without a name -/

section Vessels

variable {bowl : Int} (hbowl : IsNumeral bowl) (e : OrdinalEnding)
include hbowl

theorem addDryPhrase_reads :
    addDryPhrase.Prefers (ofString "Add dry ingredients to the" ++
      (nth e bowl ++ ofString " mixing bowl"))
      (.ok (.addDry bowl)) [] := by
  refine (prefers_words "Add dry ingredients" " to the" rfl _).bind ?_
  rw [← vessel_map hbowl]
  refine Prefers.bind (.maybe ?_) (prefers_end _)
  refine (prefers_words " to" " the" rfl _).bind ((Prefers.maybe (prefers_word " the" _)).bind ?_)
  exact prefers_vessel " mixing bowl" _ e bowl []

theorem liquefyBowlPhrase_reads :
    liquefyBowlPhrase.Prefers (ofString "Liquefy contents of the" ++
      (nth e bowl ++ ofString " mixing bowl"))
      (.ok (.liquefyBowl bowl)) [] := by
  rw [← vessel_map hbowl]
  refine (prefers_words "Liquefy" " contents of the" rfl _).bind (.leaveOut rfl ?_)
  exact (prefers_word " contents of the" _).bind (prefers_lastVessel " mixing bowl" _ e bowl)

theorem mixPhrase_reads :
    mixPhrase.Prefers (ofString "Mix the" ++ (nth e bowl ++ ofString " mixing bowl well"))
      (.ok (.mix bowl)) [] := by
  have hwell : ofString " mixing bowl well" = ofString " mixing bowl" ++ ofString " well" :=
    Text.ofString_append " mixing bowl" " well"
  rw [← vessel_map hbowl, hwell]
  refine (prefers_words "Mix" " the" rfl _).bind ?_
  refine Prefers.bind (.maybe ?_) (prefers_lastWord " well" _)
  exact (prefers_word " the" _).bind (prefers_vessel " mixing bowl" _ e bowl (ofString " well"))

theorem cleanPhrase_reads :
    cleanPhrase.Prefers (ofString "Clean the" ++ (nth e bowl ++ ofString " mixing bowl"))
      (.ok (.clean bowl)) [] := by
  rw [← vessel_map hbowl]
  refine (prefers_words "Clean" " the" rfl _).bind ((Prefers.maybe (prefers_word " the" _)).bind ?_)
  exact prefers_lastVessel " mixing bowl" _ e bowl

theorem stirPhrase_reads {minutes : Int} (hminutes : IsNumeral minutes) :
    stirPhrase.Prefers (ofString "Stir the" ++ (nth e bowl ++ (ofString " mixing bowl for " ++
      (numeral minutes ++ ofString " minutes")))) (.ok (.stir bowl minutes)) [] := by
  have hsays : (do
      let bowl ← vessel (some (some (numeral bowl))).join
      let minutes ← number (numeral minutes)
      .ok (.stir bowl minutes)) = (.ok (.stir bowl minutes) : Except LineError Operation) := by
    rw [Option.join_some, vessel_numeral hbowl, number_numeral hminutes]
    show Except.ok (Operation.stir bowl (minutes.toNat : Int)) = _
    rw [(read_numeral hminutes).2]
  have hfor : ofString " mixing bowl for " = ofString " mixing bowl" ++ ofString " for " :=
    Text.ofString_append " mixing bowl" " for "
  rw [← hsays, hfor, List.append_assoc]
  refine (prefers_words "Stir" " the" rfl _).bind ?_
  refine Prefers.bind
    (.maybe ((prefers_word " the" _).bind (prefers_vessel " mixing bowl" _ e bowl _))) ?_
  refine (prefers_word " for " _).bind ?_
  refine (prefers_longest (numeral_ne_nil minutes) (numeral_isDigit minutes) ?_).bind ?_
  · intro c hc
    cases hc
    decide
  · refine (prefers_lastWords " minute" "s" rfl).bind (.leaveIn ?_)
    exact prefers_lastWord "s" _

theorem pourPhrase_reads (e' : OrdinalEnding) {dish : Int} (hdish : IsNumeral dish) :
    pourPhrase.Prefers
      (ofString "Pour contents of the" ++ (nth e bowl ++ (ofString " mixing bowl into the" ++
      (nth e' dish ++ ofString " baking dish")))) (.ok (.pour bowl dish)) [] := by
  have hsays : (do
      let bowl ← vessel (some (numeral bowl))
      let dish ← vessel (some (numeral dish))
      .ok (.pour bowl dish)) = (.ok (.pour bowl dish) : Except LineError Operation) := by
    rw [vessel_numeral hbowl, vessel_numeral hdish]
    rfl
  rw [← hsays]
  refine (prefers_word "Pour contents of the" _).bind ((prefers_ordinal e bowl _).bind ?_)
  refine (prefers_word " mixing bowl into the" _).bind ?_
  exact prefers_lastVessel " baking dish" _ e' dish

end Vessels

theorem serveWithPhrase_reads {recipe : Text} (h : IsTitle recipe) :
    serveWithPhrase.Prefers (ofString "Serve with " ++ recipe) (.ok (.serveWith recipe)) [] :=
  (prefers_word "Serve with " _).bind ((prefers_longest_end h.1 h.2).bind (prefers_end _))

theorem refrigeratePhrase_reads {hours : Option Int} (h : ∀ n, hours = some n → IsNumeral n)
    (e e' : OrdinalEnding) (w : Text) :
    refrigeratePhrase.Prefers ((Operation.refrigerate hours).sentence e e' w)
      (.ok (.refrigerate hours)) [] := by
  cases hours with
  | none => exact ⟨_, rfl⟩
  | some n =>
    have hn := h n rfl
    have hsays : (number (numeral n) >>= fun k => pure (k : Int)).map (fun h => .refrigerate
      (some h)) =
        (.ok (.refrigerate (some n)) : Except LineError Operation) := by
      rw [number_numeral hn]
      show Except.ok (Operation.refrigerate (some (n.toNat : Int))) = _
      rw [(read_numeral hn).2]
    rw [← hsays]
    refine (prefers_words "Refrigerate" " for " rfl _).bind ?_
    refine Prefers.bind (.maybe ?_) (prefers_end _)
    refine (prefers_word " for " _).bind ?_
    refine (prefers_longest (numeral_ne_nil n) (numeral_isDigit n) ?_).bind ?_
    · intro c hc
      cases hc
      decide
    · refine (prefers_lastWords " hour" "s" rfl).bind
        ((Prefers.maybe (prefers_word "s" [])).bind ?_)
      exact prefers_pure _ _

/-! ## 6. Loops -/

theorem letter_ne_space {c : CodePoint} (h : c.isLetter = true) : c ≠ Text.space := by
  rintro rfl
  exact absurd h (by decide)

/-- A word is not left before its end: a letter is no space. -/
theorem head_of_letters {w front back : Text} (hw : ∀ c ∈ w, c.isLetter = true) (hback : back ≠ [])
    (hsplit : w = front ++ back) (rest : Text) : (back ++ rest).head? ≠ some Text.space := by
  obtain ⟨c, cs, rfl⟩ := List.exists_cons_of_ne_nil hback
  intro h
  refine letter_ne_space (hw c ?_) (Option.some.inj h)
  rw [hsplit]
  exact List.mem_append_right _ List.mem_cons_self

theorem count_letters {w : Text} (hw : ∀ c ∈ w, c.isLetter = true) : w.count Text.space = 0 :=
  List.count_eq_zero.mpr fun h => letter_ne_space (hw _ h) rfl

theorem count_until : (ofString " until ").count Text.space = 2 := by decide

/-- The last words of a loop have two spaces in them. -/
theorem until_spaces {α : Type} {g : Text → α} {t : Text} {way : α × Text}
    (h : way ∈ (do word " until "; let v ← longest CodePoint.isLetter; finish; pure (g v) :
      Phrase α).ways t) :
    t.head? = some Text.space ∧ t.count Text.space = 2 := by
  obtain ⟨first, hfirst, h⟩ := mem_bind.mp h
  obtain ⟨verb, hverb, h⟩ := mem_bind.mp h
  obtain ⟨done, hdone, -⟩ := mem_bind.mp h
  obtain ⟨hsplit, -, hletters⟩ := mem_longest hverb
  have hlast : verb.2.count Text.space = 0 := by
    rcases (mem_finish hdone).1 with hend | hend
    · rw [hend]
      rfl
    · rw [hend]
      decide
  rw [mem_word hfirst, hsplit]
  refine ⟨rfl, ?_⟩
  rw [List.count_append, List.count_append, count_letters hletters, hlast, count_until]

theorem IsVerb.letters {verb : Text} (h : IsVerb verb) : ∀ c ∈ verb, c.isLetter = true := by
  intro c hc
  have hsmall := h.2 c hc
  simp only [CodePoint.isLetter, Bool.or_eq_true, Bool.and_eq_true, decide_eq_true_eq]
  exact .inl hsmall

theorem IsVerb.lower {verb : Text} (h : IsVerb verb) : verb.lower = verb := by
  refine (List.map_congr_left fun c hc => ?_).trans (List.map_id verb)
  have hsmall := h.2 c hc
  rw [CodePoint.lower, dif_neg (by omega), if_neg (by omega)]
  rfl

/-- The last words of a loop. -/
theorem prefers_until {α : Type} (g : Text → α) {verb : Text} (h : IsVerb verb) {a : α}
    (hg : g verb = a) :
    (do word " until "; let v ← longest CodePoint.isLetter; finish; pure (g v) : Phrase α).Prefers
      (ofString " until " ++ verb) a [] := by
  subst hg
  exact (prefers_word " until " verb).bind
    ((prefers_longest_end h.1 h.letters).bind (prefers_end _))

section Loops

variable {w i verb : Text} (hne : w ≠ []) (hw : ∀ c ∈ w, c.isLetter = true)
include hne hw

theorem loopStartPhrase_reads (hi : IsName i) :
    loopStartPhrase.Prefers (w ++ (ofString " the " ++ i)) (.ok (.loopStart w.lower i none))
      [] := by
  refine .shortest hne hw (fun front back _ hback hsplit => ?_) ?_
  · refine Opens.ways_eq_nil (c := Text.space) ?_ (head_of_letters hw hback hsplit _)
    exact .maybe_bind (.word rfl) (.bind (.word rfl))
  · refine (Prefers.maybe (prefers_words " the" " " rfl i)).bind ((prefers_word " " i).bind ?_)
    exact (prefers_longest_end hi.1 hi.2).bind (prefers_end _)

/-- What follows the first word at the end of a loop. -/
theorem loopEndPhrase_of_rest {op : Operation} {rest : Text}
    (h : (do
      let _ ← maybe (word " the")
      let i ← maybe do
        word " "
        name
      word " until "
      let verb ← longest CodePoint.isLetter
      finish
      pure (.ok (.loopEnd verb.lower i none)) : Phrase (Except LineError Operation)).Prefers rest
        (.ok op) []) : loopEndPhrase.Prefers (w ++ rest) (.ok op) [] := by
  refine .shortest hne hw (fun front back _ hback hsplit => ?_) h
  refine Opens.ways_eq_nil (c := Text.space) ?_ (head_of_letters hw hback hsplit _)
  exact .maybe_bind (.word rfl) (.maybe_bind (.bind (.word rfl)) (.bind (.word rfl)))

theorem loopEndPhrase_reads_name (hi : IsName i) (hverb : IsVerb verb) :
    loopEndPhrase.Prefers (w ++ (ofString " the " ++ (i ++ (ofString " until " ++ verb))))
      (.ok (.loopEnd verb (some i) none)) [] := by
  refine loopEndPhrase_of_rest hne hw ?_
  refine (Prefers.maybe (prefers_words " the" " " rfl _)).bind (.leaveIn ?_)
  rw [bind_assoc]
  refine (prefers_word " " _).bind (.shortest hi.1 hi.2 (fun front back _ hback hsplit => ?_) ?_)
  · -- there are two spaces behind the name, so another one in it is too much
    refine List.eq_nil_iff_forall_not_mem.mpr fun way hway => ?_
    obtain ⟨hhead, hcount⟩ := until_spaces hway
    rw [List.count_append, List.count_append, count_letters hverb.letters] at hcount
    obtain ⟨c, cs, rfl⟩ := List.exists_cons_of_ne_nil hback
    obtain rfl := Option.some.inj hhead
    rw [List.count_cons_self, count_until] at hcount
    omega
  · exact prefers_until _ hverb (by rw [hverb.lower])

theorem loopEndPhrase_reads_none (hverb : IsVerb verb) :
    loopEndPhrase.Prefers (w ++ (ofString " until " ++ verb)) (.ok (.loopEnd verb none none))
      [] := by
  refine loopEndPhrase_of_rest hne hw (.leaveOut rfl (.leaveOut ?_ ?_))
  · -- with a name, there would be three spaces
    refine List.eq_nil_iff_forall_not_mem.mpr fun way hway => ?_
    rw [bind_assoc] at hway
    obtain ⟨blank, hblank, hway⟩ := mem_bind.mp hway
    obtain ⟨n, hn, hway⟩ := mem_bind.mp hway
    have hcount := (until_spaces hway).2
    have hwhole : (ofString " until " ++ verb).count Text.space =
        1 + (n.1.count Text.space + n.2.count Text.space) := by
      rw [mem_word hblank, (mem_shortest hn).1, List.count_append, List.count_append]
      rfl
    rw [List.count_append, count_letters hverb.letters, count_until] at hwhole
    omega
  · exact prefers_until _ hverb (by rw [hverb.lower])

end Loops

end Chef

end Esolang
