/-
  File:      Esolang/Proofs/Chef/Decoding.lean
  Subject:   Which phrase a statement has to fit, and what all statements say.

  The first words of a statement decide about its phrase. Where a name follows them, it may go on
  like the first words of another phrase; where a loop begins or ends, the first word itself is
  free. So the question is each time what cannot be there, and the answer is what makes an operation
  proper, and a word free.

  * `IsFreeWord`: a word that can start the sentences of a loop; `ofStatement_loop`: a statement
    with such a word in front of `the` or `until` is a loop.
  * `Operation.Admits`: whether a word can start the sentence of an operation.
  * `ofStatement_phrase`: a sentence has to fit its own phrase; `phrase_reads`: and the phrase reads
    it.
  * `statements_decode`: statements say proper operations, and each of these has its sentences.
-/
import Esolang.Proofs.Chef.Sentence

namespace Esolang.Chef

open Text (ofString)

/-! ## 1. First words -/

/-- The words that decide about a phrase when a space follows. -/
def keywords : List String :=
  ["Take", "Put", "Fold", "Add", "Remove", "Combine", "Divide", "Liquefy", "Stir", "Mix", "Clean",
    "Pour"]

/-- A word that leaves a statement to be a loop. Nothing may be built on `Refrigerate`, with or
    without a space. -/
structure IsFreeWord (w : Text) : Prop where
  ne_nil : w ≠ []
  letters : ∀ c ∈ w, c.isLetter = true
  not_keyword : ∀ k ∈ keywords, w ≠ ofString k
  not_refrigerate : w.startsWith (ofString "Refrigerate") = false

theorem IsFreeWord.spaceless {w : Text} (h : IsFreeWord w) : ∀ c ∈ w, c ≠ Text.space :=
  fun c hc => letter_ne_space (h.letters c hc)

theorem firstWord_append {w : Text} (hw : ∀ c ∈ w, c ≠ Text.space) (rest : Text) :
    firstWord (w ++ Text.space :: rest) = w := by
  refine (List.cut_append (fun c hc => decide_eq_true (hw c hc)) fun c hc => ?_).1
  cases hc
  rfl

/-- Two statements that begin alike have the same first word. -/
theorem startsWith_word {w k more rest : Text} (hw : ∀ c ∈ w, c ≠ Text.space)
    (hk : ∀ c ∈ k, c ≠ Text.space)
    (h : (w ++ Text.space :: rest).startsWith (k ++ Text.space :: more) = true) :
    w = k ∧ more <+: rest := by
  obtain ⟨tail, htail⟩ := List.isPrefixOf_iff_prefix.mp h
  rw [List.append_assoc, List.cons_append] at htail
  have hword : w = k := by
    have hfirst := firstWord_append hw rest
    rw [← htail, firstWord_append hk] at hfirst
    exact hfirst.symm
  subst hword
  exact ⟨rfl, tail, (List.cons.inj (List.append_cancel_left htail)).2⟩

theorem keyword_spaceless : ∀ k ∈ keywords, ∀ c ∈ ofString k, c ≠ Text.space := by decide +kernel

/-- There is no space in `Refrigerate`, so it can only be in the first word. -/
theorem IsFreeWord.not_refrigerates {w : Text} (hw : IsFreeWord w) (rest : Text) :
    ¬ (w ++ Text.space :: rest).startsWith (ofString "Refrigerate") = true := by
  intro h
  rcases Text.startsWith_append h with h | ⟨c, more, hword, tail, htail⟩
  · rw [hw.not_refrigerate] at h
    cases h
  · have hspaceless : ∀ c ∈ ofString "Refrigerate", c ≠ Text.space := by decide
    refine hspaceless c ?_ (List.cons.inj htail).1
    rw [hword]
    exact List.mem_append_right _ List.mem_cons_self

/-- **A free word makes a loop** if it is followed by a word such as `the` or `until`. -/
theorem ofStatement_loop {w : Text} (hw : IsFreeWord w) (rest : Text)
    (hrest : rest.head? = some 't' ∨ rest.head? = some 'u') :
    Operation.ofStatement (w ++ Text.space :: rest) =
      if (w ++ Text.space :: rest).includes (ofString " until ") then
        fits loopEndPhrase (w ++ Text.space :: rest)
      else fits loopStartPhrase (w ++ Text.space :: rest) := by
  have hstart : ∀ k more words : String, k ∈ keywords → words = k ++ (" " ++ more) →
      ¬ (w ++ Text.space :: rest).startsWith (ofString words) = true := by
    intro k more words hk hwords h
    rw [hwords, Text.ofString_append, Text.ofString_append] at h
    exact hw.not_keyword k hk (startsWith_word hw.spaceless (keyword_spaceless k hk) h).1
  have harithmetic :
      ¬ arithmeticWords.any (Text.ofString ·.1 = firstWord (w ++ Text.space :: rest)) = true := by
    have hwords : ∀ word ∈ arithmeticWords, word.1 ∈ keywords := by decide
    intro h
    obtain ⟨word, hword, heq⟩ := List.any_eq_true.mp h
    rw [firstWord_append hw.spaceless, decide_eq_true_eq] at heq
    exact hw.not_keyword word.1 (hwords word hword) heq.symm
  have hliquefy : ¬ ((w ++ Text.space :: rest).startsWith (ofString "Liquefy contents of the ") ||
      (w ++ Text.space :: rest).startsWith (ofString "Liquefy the contents of the ")) = true := by
    rw [Bool.or_eq_true]
    rintro (h | h)
    · exact hstart "Liquefy" "contents of the " _ (by decide) rfl h
    · exact hstart "Liquefy" "the contents of the " _ (by decide) rfl h
  -- `Set` and `Serve` are free, and it is the second word that decides
  have hsecond : ∀ more, more <+: rest → more.head? ≠ some 'a' ∧ more.head? ≠ some 'w' := by
    rintro more ⟨tail, rfl⟩
    cases more with
    | nil => exact ⟨by decide, by decide⟩
    | cons c cs =>
      have hc : c = 't' ∨ c = 'u' := hrest.imp Option.some.inj Option.some.inj
      rcases hc with rfl | rfl
      · exact ⟨fun h => absurd (Option.some.inj h) (by decide), fun h => absurd (Option.some.inj h)
          (by decide)⟩
      · exact ⟨fun h => absurd (Option.some.inj h) (by decide), fun h => absurd (Option.some.inj h)
          (by decide)⟩
  have haside : ¬ w ++ Text.space :: rest = ofString "Set" ++ Text.space :: ofString "aside" := by
    intro h
    have hstarts : (w ++ Text.space :: rest).startsWith (ofString "Set" ++ Text.space ::
      ofString "aside") = true := by
      rw [h]
      exact List.isPrefixOf_iff_prefix.mpr List.prefix_rfl
    exact (hsecond _ (startsWith_word hw.spaceless (by decide) hstarts).2).1 rfl
  have hserve : ¬ (w ++ Text.space :: rest).startsWith (ofString "Serve" ++ Text.space ::
    ofString "with ") = true := by
    intro h
    exact (hsecond _ (startsWith_word hw.spaceless (by decide) h).2).2 rfl
  refine (if_neg (hstart "Take" "" _ (by decide) rfl)).trans ?_
  refine (if_neg (hstart "Put" "" _ (by decide) rfl)).trans ?_
  refine (if_neg (hstart "Fold" "" _ (by decide) rfl)).trans ?_
  refine (if_neg (hstart "Add" "dry ingredients" _ (by decide) rfl)).trans ?_
  refine (if_neg harithmetic).trans ?_
  refine (if_neg hliquefy).trans ?_
  refine (if_neg (hstart "Liquefy" "" _ (by decide) rfl)).trans ?_
  have hstir := hstart "Stir" "" "Stir " (by decide) rfl
  refine (if_neg fun h => hstir (Bool.and_eq_true _ _ ▸ h).1).trans ?_
  refine (if_neg hstir).trans ?_
  refine (if_neg (hstart "Mix" "" _ (by decide) rfl)).trans ?_
  refine (if_neg (hstart "Clean" "" _ (by decide) rfl)).trans ?_
  refine (if_neg (hstart "Pour" "" _ (by decide) rfl)).trans ?_
  refine (if_neg haside).trans ?_
  refine (if_neg hserve).trans ?_
  exact if_neg (hw.not_refrigerates rest)

/-- No word has the beginning of ` until ` in it. -/
theorem includes_word {w : Text} (hw : ∀ c ∈ w, c ≠ Text.space) (t needle : Text) :
    (w ++ t).includes (Text.space :: needle) = t.includes (Text.space :: needle) := by
  induction w with
  | nil => rfl
  | cons c cs ih =>
    obtain ⟨hc, hcs⟩ := List.forall_mem_cons.mp hw
    have hhead : (Text.space == c) = false := beq_eq_false_iff_ne.mpr hc.symm
    rw [List.cons_append, Text.includes, List.isPrefixOf, hhead, Bool.false_and, Bool.false_or]
    exact ih hcs

/-! ## 2. What can stand in a sentence -/

namespace Operation

/-- Whether a word can start the sentence of an operation. It does so only in loops; at the
    beginning of one, it is the verb that is kept. -/
def Admits : Operation → Text → Prop
  | .loopStart verb _ _, w => IsFreeWord w ∧ w.lower = verb
  | .loopEnd _ _ _, w => IsFreeWord w
  | _, _ => True

/-- The verb of a loop. -/
def verb : Operation → Text
  | .loopStart verb _ _ => verb
  | .loopEnd verb _ _ => verb
  | _ => []

end Operation

/-- Keywords are capitalised, so every verb in small letters is free. -/
theorem IsVerb.isFreeWord {verb : Text} (h : IsVerb verb) : IsFreeWord verb := by
  have hcapital : ∀ k ∈ "Refrigerate" :: keywords, ∃ c ∈ ofString k, c.val < 97 := by decide +kernel
  refine ⟨h.1, h.letters, fun k hk hverb => ?_, Bool.eq_false_iff.mpr fun hstarts => ?_⟩
  · obtain ⟨c, hc, hval⟩ := hcapital k (List.mem_cons_of_mem _ hk)
    have hsmall := (h.2 c (hverb ▸ hc)).1
    omega
  · obtain ⟨c, hc, hval⟩ := hcapital "Refrigerate" List.mem_cons_self
    have hsmall := (h.2 c ((List.isPrefixOf_iff_prefix.mp hstarts).subset hc)).1
    omega

/-- Each proper operation can be said with its own verb. -/
theorem Operation.Proper.admits {op : Operation} (h : op.Proper) : op.Admits op.verb := by
  cases op with
  | loopStart verb i closer => exact ⟨h.1.isFreeWord, h.1.lower⟩
  | loopEnd verb i opener => exact h.1.isFreeWord
  | _ => trivial

/-- No name goes on as `dry ingredients` where a bowl follows. -/
theorem startsWith_dry {i : Text} (h : i.startsWith (ofString "dry ingredients") = false)
    (rest : Text) :
    (i ++ (ofString " t" ++ rest)).startsWith (ofString "dry ingredients") = false := by
  refine Bool.eq_false_iff.mpr fun hstarts => ?_
  rcases Text.startsWith_append hstarts with hi | ⟨c, more, hdry, tail, htail⟩
  · rw [h] at hi
    cases hi
  · obtain ⟨rfl, hmore⟩ := List.cons.inj htail
    cases more with
    | nil =>
      have hlast := congrArg List.getLast? hdry
      rw [List.getLast?_concat] at hlast
      exact absurd hlast (by decide)
    | cons d more =>
      obtain ⟨rfl, -⟩ := List.cons.inj hmore
      have hinside : (ofString "dry ingredients").includes (ofString " t") = true :=
        Text.includes_iff.mpr ⟨i, more, by rw [hdry, List.append_assoc]; rfl⟩
      exact absurd hinside (by decide)

/-- The last word of a statement is known when enough of its end is. -/
theorem not_endsWith {line last w : Text} (hlast : last <:+ line) (hlength : w.length ≤ last.length)
    (h : last.endsWith w = false) : line.endsWith w = false := by
  refine Bool.eq_false_iff.mpr fun hends => ?_
  have hw := List.suffix_of_suffix_length_le (List.isSuffixOf_iff_suffix.mp hends) hlast hlength
  rw [← List.isSuffixOf_iff_suffix] at hw
  exact Bool.eq_false_iff.mp h hw

/-! ## 3. The phrase of a sentence -/

/-- The phrase for the sentence of an operation. `Set aside` is fixed from end to end. -/
def Operation.phrase : Operation → Phrase (Except LineError Operation)
  | .take _ => takePhrase
  | .put _ _ => intoBowlPhrase "Put" .put
  | .fold _ _ => intoBowlPhrase "Fold" .fold
  | .arithmetic _ _ _ => arithmeticPhrase
  | .addDry _ => addDryPhrase
  | .liquefy _ => liquefyPhrase
  | .liquefyBowl _ => liquefyBowlPhrase
  | .stir _ _ => stirPhrase
  | .stirIngredient _ _ => stirIngredientPhrase
  | .mix _ => mixPhrase
  | .clean _ => cleanPhrase
  | .pour _ _ => pourPhrase
  | .loopStart _ _ _ => loopStartPhrase
  | .loopEnd _ _ _ => loopEndPhrase
  | .setAside _ => do Phrase.word "Set aside"; pure (.ok (.setAside none))
  | .serveWith _ => serveWithPhrase
  | .refrigerate _ => refrigeratePhrase

/-- The phrase reads the sentence as the operation. -/
theorem phrase_reads {op : Operation} (hop : op.Proper) (e e' : OrdinalEnding) {w : Text}
    (hw : op.Admits w) : op.phrase.Prefers (op.sentence e e' w) (.ok op) [] := by
  cases op with
  | take i => exact takePhrase_reads hop
  | put i bowl => exact intoBowlPhrase_reads hop.1 hop.2 e "Put" .put
  | fold i bowl => exact intoBowlPhrase_reads hop.1 hop.2 e "Fold" .fold
  | arithmetic how i bowl => exact arithmeticPhrase_reads hop.1 hop.2.1 e how
  | addDry bowl => exact addDryPhrase_reads hop e
  | liquefy i => exact liquefyPhrase_reads hop.1
  | liquefyBowl bowl => exact liquefyBowlPhrase_reads hop e
  | stir bowl minutes => exact stirPhrase_reads hop.1 e hop.2
  | stirIngredient bowl i => exact stirIngredientPhrase_reads hop.2 hop.1 e
  | mix bowl => exact mixPhrase_reads hop e
  | clean bowl => exact cleanPhrase_reads hop e
  | pour bowl dish => exact pourPhrase_reads hop.1 e e' hop.2
  | loopStart verb i closer =>
    obtain ⟨-, hi, -, rfl⟩ := hop
    obtain ⟨hw, rfl⟩ := hw
    exact loopStartPhrase_reads hw.ne_nil hw.letters hi
  | loopEnd verb i opener =>
    obtain ⟨hverb, hi, rfl⟩ := hop
    cases i with
    | none => exact loopEndPhrase_reads_none hw.ne_nil hw.letters hverb
    | some i => exact loopEndPhrase_reads_name hw.ne_nil hw.letters (hi i rfl) hverb
  | setAside closer =>
    cases hop
    exact ⟨_, rfl⟩
  | serveWith recipe => exact serveWithPhrase_reads hop
  | refrigerate hours => exact refrigeratePhrase_reads hop e e' w

/-- Beginnings of statements that decide about a phrase at once. -/
def fronts : List (String × Phrase (Except LineError Operation)) :=
  [("Take ", takePhrase), ("Put ", intoBowlPhrase "Put" .put),
    ("Fold ", intoBowlPhrase "Fold" .fold), ("Add dry ingredients", addDryPhrase),
    ("Liquefy contents of the ", liquefyBowlPhrase), ("Mix ", mixPhrase),
    ("Clean ", cleanPhrase), ("Pour ", pourPhrase), ("Serve with ", serveWithPhrase),
    ("Refrigerate", refrigeratePhrase)]

theorem ofStatement_front (front more : String) {words : String}
    {p : Phrase (Except LineError Operation)} (hwords : words = front ++ more)
    (h : (front, p) ∈ fronts) (t : Text) :
    Operation.ofStatement (ofString words ++ t) = fits p (ofString words ++ t) := by
  rw [hwords, Text.ofString_append, List.append_assoc]
  generalize ofString more ++ t = rest
  simp only [fronts, List.mem_cons, List.not_mem_nil, or_false, Prod.mk.injEq] at h
  rcases h with ⟨rfl, rfl⟩ | ⟨rfl, rfl⟩ | ⟨rfl, rfl⟩ | ⟨rfl, rfl⟩ | ⟨rfl, rfl⟩ | ⟨rfl, rfl⟩ |
    ⟨rfl, rfl⟩ | ⟨rfl, rfl⟩ | ⟨rfl, rfl⟩ | ⟨rfl, rfl⟩
  all_goals rfl

theorem ofStatement_arithmetic (how : Arithmetic) {t : Text}
    (h : how = .add → t.startsWith (ofString "dry ingredients") = false) :
    Operation.ofStatement (ofString how.word ++ (ofString " " ++ t)) =
      fits arithmeticPhrase (ofString how.word ++ (ofString " " ++ t)) := by
  cases how with
  | add =>
    have hwords : "Add dry ingredients" = "Add " ++ "dry ingredients" := rfl
    have hdry : (ofString "Add " ++ t).startsWith (ofString "Add dry ingredients") = false := by
      rw [hwords, Text.ofString_append, Text.startsWith_append_left]
      exact h rfl
    refine (if_neg Bool.false_ne_true).trans
      ((if_neg Bool.false_ne_true).trans ((if_neg Bool.false_ne_true).trans ?_))
    exact (if_neg (Bool.eq_false_iff.mp hdry)).trans (if_pos rfl)
  | subtract | multiply | divide => rfl

theorem ofStatement_liquefy {t : Text} (h : t.startsWith (ofString "contents of the ") = false) :
    Operation.ofStatement (ofString "Liquefy the " ++ t) =
      fits liquefyPhrase (ofString "Liquefy the " ++ t) := by
  have hwords : "Liquefy the contents of the " = "Liquefy the " ++ "contents of the " := rfl
  have hbowl : ¬ ((ofString "Liquefy the " ++ t).startsWith (ofString "Liquefy contents of the ") ||
      (ofString "Liquefy the " ++ t).startsWith (ofString "Liquefy the contents of the ")) =
        true := by
    rw [hwords, Text.ofString_append, Text.startsWith_append_left, h, Bool.or_false]
    exact Bool.false_ne_true
  refine (if_neg Bool.false_ne_true).trans
    ((if_neg Bool.false_ne_true).trans ((if_neg Bool.false_ne_true).trans ?_))
  refine (if_neg Bool.false_ne_true).trans ((if_neg Bool.false_ne_true).trans ?_)
  exact (if_neg hbowl).trans (if_pos rfl)

theorem ofStatement_stir (t : Text) :
    Operation.ofStatement (ofString "Stir " ++ t) =
      if (ofString "Stir " ++ t).endsWith (ofString "minute") || (ofString "Stir " ++ t).endsWith
        (ofString "minutes")
      then fits stirPhrase (ofString "Stir " ++ t) else fits stirIngredientPhrase
        (ofString "Stir " ++ t) := rfl

/-- The sentence has to fit the phrase. -/
theorem ofStatement_phrase {op : Operation} (hop : op.Proper) (e e' : OrdinalEnding) {w : Text}
    (hw : op.Admits w) :
    Operation.ofStatement (op.sentence e e' w) = fits op.phrase (op.sentence e e' w) := by
  cases op with
  | take i => exact ofStatement_front "Take " "" rfl (by simp [fronts, Operation.phrase]) _
  | put i bowl => exact ofStatement_front "Put " "the " rfl (by simp [fronts, Operation.phrase]) _
  | fold i bowl => exact ofStatement_front "Fold " "the " rfl (by simp [fronts, Operation.phrase]) _
  | arithmetic how i bowl =>
    refine ofStatement_arithmetic how fun hadd => ?_
    subst hadd
    exact startsWith_dry (hop.2.2 rfl) (ofString "o" ++ _)
  | addDry bowl =>
    exact ofStatement_front "Add dry ingredients" " to the" rfl
      (by simp [fronts, Operation.phrase]) _
  | liquefy i => exact ofStatement_liquefy hop.2
  | liquefyBowl bowl =>
    have hfront : ofString "Liquefy contents of the" ++ ofString " " =
        ofString "Liquefy contents of the " :=
      (Text.ofString_append "Liquefy contents of the" " ").symm
    show Operation.ofStatement (ofString "Liquefy contents of the" ++
      (nth e bowl ++ ofString " mixing bowl")) =
      fits liquefyBowlPhrase (ofString "Liquefy contents of the" ++
        (nth e bowl ++ ofString " mixing bowl"))
    rw [nth, List.append_assoc (ofString " "), ← List.append_assoc _ (ofString " "), hfront]
    exact ofStatement_front "Liquefy contents of the " "" rfl (by simp [fronts]) _
  | stir bowl minutes =>
    have hfront : ofString "Stir the" = ofString "Stir " ++ ofString "the" :=
      Text.ofString_append "Stir " "the"
    have hlast : ofString " minutes" <:+ (Operation.stir bowl minutes).sentence e e' w :=
      ((List.suffix_append _ _).trans (List.suffix_append _ _)).trans
        ((List.suffix_append _ _).trans (List.suffix_append _ _))
    have hminutes : ofString "minutes" <:+ ofString " minutes" := List.suffix_cons _ _
    have hends := List.isSuffixOf_iff_suffix.mpr (hminutes.trans hlast)
    rw [Operation.sentence, hfront, List.append_assoc] at hends ⊢
    refine (ofStatement_stir _).trans (if_pos ?_)
    rw [Bool.or_eq_true]
    exact .inr hends
  | stirIngredient bowl i =>
    have hlast : ofString " mixing bowl" <:+ (Operation.stirIngredient bowl i).sentence e e' w :=
      ((List.suffix_append _ _).trans (List.suffix_append _ _)).trans
        ((List.suffix_append _ _).trans (List.suffix_append _ _))
    have hminute := not_endsWith hlast (w := ofString "minute") (by decide) (by decide)
    have hminutes := not_endsWith hlast (w := ofString "minutes") (by decide) (by decide)
    refine (ofStatement_stir _).trans (if_neg ?_)
    rw [Bool.or_eq_true]
    rintro (h | h)
    · exact Bool.eq_false_iff.mp hminute h
    · exact Bool.eq_false_iff.mp hminutes h
  | mix bowl => exact ofStatement_front "Mix " "the" rfl (by simp [fronts, Operation.phrase]) _
  | clean bowl => exact ofStatement_front "Clean " "the" rfl (by simp [fronts, Operation.phrase]) _
  | pour bowl dish =>
    exact ofStatement_front "Pour " "contents of the" rfl (by simp [fronts, Operation.phrase]) _
  | loopStart verb i closer =>
    refine (ofStatement_loop hw.1 (ofString "the " ++ i) (.inl rfl)).trans (if_neg ?_)
    rw [show ofString " until " = Text.space :: ofString "until " from rfl,
      includes_word hw.1.spaceless]
    exact Bool.eq_false_iff.mp hop.2.2.1
  | loopEnd verb i opener =>
    cases i with
    | none =>
      refine (ofStatement_loop hw (ofString "until " ++ verb) (.inr rfl)).trans (if_pos ?_)
      exact Text.includes_iff.mpr ⟨w, verb, List.append_assoc _ _ _⟩
    | some i =>
      refine (ofStatement_loop hw (ofString "the " ++ (i ++ (ofString " until " ++ verb)))
        (.inl rfl)).trans
        (if_pos ?_)
      refine Text.includes_iff.mpr ⟨w ++ (ofString " the " ++ i), verb, ?_⟩
      rw [List.append_assoc, List.append_assoc, List.append_assoc]
      rfl
  | setAside closer => rfl
  | serveWith recipe =>
    exact ofStatement_front "Serve with " "" rfl (by simp [fronts, Operation.phrase]) _
  | refrigerate hours =>
    cases hours with
    | none => rfl
    | some n =>
      exact ofStatement_front "Refrigerate" " for " rfl (by simp [fronts, Operation.phrase]) _

/-! ## 4. Decoding -/

/-- **A sentence says its operation**, whatever the endings of ordinals are and whichever word
    starts it. -/
theorem ofStatement_sentence {op : Operation} (hop : op.Proper) (e e' : OrdinalEnding) {w : Text}
    (hw : op.Admits w) : Operation.ofStatement (op.sentence e e' w) = .ok op :=
  (ofStatement_phrase hop e e' hw).trans (fits_of_prefers (phrase_reads hop e e' hw))

/-- **Statements are decoded exactly.** Every statement that can be read says a proper operation.
    Every proper operation is said by its sentence, with any endings of the ordinals; loops are said
    with any free word in front, and their own verb is one. -/
theorem statements_decode :
    (∀ line op, Operation.ofStatement line = .ok op → op.Proper) ∧
      ∀ op : Operation, op.Proper → op.Admits op.verb ∧
        ∀ e e' w, op.Admits w → Operation.ofStatement (op.sentence e e' w) = .ok op := by
  refine ⟨fun line op h => ofStatement_proper h, fun op hop => ⟨hop.admits, fun e e' w hw => ?_⟩⟩
  exact ofStatement_sentence hop e e' hw

/-- Names full of the words that stand around names, a loop that begins like another statement, and
    a name that nothing can add. -/
theorem statements_decode_clumsy :
    Operation.ofStatement "Add dry the to the into until to the 3rd mixing bowl" =
        .ok (.arithmetic .add "dry the to the into until" 3) ∧
      Operation.ofStatement "Serve the soup until done until tasted" =
        .ok (.loopEnd "tasted" (some "soup until done") none) ∧
      ∀ line, Operation.ofStatement line ≠ .ok (.arithmetic .add "dry ingredients to go" 1) := by
  have hadd : (Operation.arithmetic .add "dry the to the into until" 3).Proper :=
    ⟨⟨by decide, by decide +kernel⟩, ⟨3, rfl, by decide⟩, fun _ => by decide +kernel⟩
  have hend : (Operation.loopEnd "tasted" (some "soup until done") none).Proper :=
    ⟨⟨by decide, by decide +kernel⟩, fun n hn => Option.some.inj hn ▸
      ⟨by decide, by decide +kernel⟩, rfl⟩
  have hserve : IsFreeWord "Serve" :=
    ⟨by decide, by decide +kernel, by decide +kernel, by decide +kernel⟩
  refine ⟨?_, ?_, fun line hline => ?_⟩
  · rw [← (statements_decode.2 _ hadd).2 .rd .th [] trivial]
    exact congrArg Operation.ofStatement (by decide +kernel)
  · rw [← (statements_decode.2 _ hend).2 .th .th "Serve" hserve]
    exact congrArg Operation.ofStatement (by decide +kernel)
  · have hdry := (statements_decode.1 line _ hline).2.2 rfl
    exact absurd hdry (by decide +kernel)

end Esolang.Chef
