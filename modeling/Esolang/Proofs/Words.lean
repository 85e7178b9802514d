/-
  File:      Esolang/Proofs/Words.lean
  Subject:   The words of a text, and all texts with given words.

  * `Text.IsWord`: something without a blank in it.
  * `Text.Spaced`: words that stand in a text one after another, with blanks between and around
    them.
  * `Text.Spaced.isWord`, `Text.Spaced.isInfix`: they are words, and pieces of the text.
  * `Text.spaced_words`: so the words of a text stand in it; `Text.words_eq_iff`: and no other words
    do.
-/
import Esolang.Proofs.Text

namespace Esolang.Text

/-! ## 1. Words in a text -/

/-- A word: it is not empty, and there is no blank in it. -/
structure IsWord (w : Text) : Prop where
  nonempty : w ≠ []
  solid : ∀ c ∈ w, c.isBlank = false

instance : DecidablePred IsWord := fun w =>
  decidable_of_iff (w ≠ [] ∧ ∀ c ∈ w, c.isBlank = false) ⟨fun h => ⟨h.1, h.2⟩,
    fun h => ⟨h.nonempty, h.solid⟩⟩

/-- Words stand in a text one after another. There may be any blanks in front of each word and
    behind the last one, and what follows a word directly is a blank. -/
inductive Spaced : List Text → Text → Prop where
  | blank {behind : Text} (h : ∀ c ∈ behind, c.isBlank = true) : Spaced [] behind
  | word {front w rest : Text} {ws : List Text} (hfront : ∀ c ∈ front, c.isBlank = true)
      (hw : w.IsWord) (hgap : ∀ c, rest.head? = some c → c.isBlank = true)
      (hrest : Spaced ws rest) :
      Spaced (w :: ws) (front ++ (w ++ rest))

theorem Spaced.cons_blank {ws : List Text} {t : Text} (h : Spaced ws t) {c : CodePoint}
    (hc : c.isBlank = true) : Spaced ws (c :: t) := by
  cases h with
  | blank hblank => exact .blank (List.forall_mem_cons.mpr ⟨hc, hblank⟩)
  | @word front w rest ws hfront hw hgap hrest =>
    have hblanks : ∀ d ∈ c :: front, d.isBlank = true := List.forall_mem_cons.mpr ⟨hc, hfront⟩
    exact .word hblanks hw hgap hrest

theorem isBlank_of_mem_nil {c : CodePoint} {b : Bool} (h : c ∈ ([] : Text)) : c.isBlank = b :=
  absurd h List.not_mem_nil

/-- A word in front of which there is nothing. -/
theorem Spaced.cons {ws : List Text} {w rest : Text} (hrest : Spaced ws rest) (hw : w.IsWord)
    (hgap : ∀ c, rest.head? = some c → c.isBlank = true) : Spaced (w :: ws) (w ++ rest) :=
  have hfront : ∀ c ∈ ([] : Text), c.isBlank = true := fun _ => isBlank_of_mem_nil
  .word hfront hw hgap hrest

theorem Spaced.isWord {ws : List Text} {t : Text} (h : Spaced ws t) : ∀ w ∈ ws, w.IsWord := by
  induction h with
  | blank hblank => exact fun w hw => absurd hw List.not_mem_nil
  | word hfront hw hgap hrest ih => exact List.forall_mem_cons.mpr ⟨hw, ih⟩

/-- Every word is a piece of the text. -/
theorem Spaced.isInfix {ws : List Text} {t : Text} (h : Spaced ws t) : ∀ w ∈ ws, w <:+: t := by
  induction h with
  | blank hblank => exact fun w hw => absurd hw List.not_mem_nil
  | @word front w rest ws hfront hw hgap hrest ih =>
    have hbehind : w ++ rest <:+: front ++ (w ++ rest) := (List.suffix_append _ _).isInfix
    refine List.forall_mem_cons.mpr ⟨(List.prefix_append _ _).isInfix.trans hbehind,
      fun w' hw' => ?_⟩
    exact (ih w' hw').trans ((List.suffix_append _ _).isInfix.trans hbehind)

theorem isWord_reverse {begun : Text} (hne : begun ≠ []) (h : ∀ c ∈ begun, c.isBlank = false) :
    IsWord begun.reverse :=
  ⟨List.reverse_ne_nil_iff.mpr hne, fun c hc => h c (List.mem_reverse.mp hc)⟩

/-! ## 2. Reading them -/

theorem words_append_of_blanks {front rest : Text} (h : ∀ c ∈ front, c.isBlank = true) :
    (front ++ rest : Text).words = rest.words := by
  have htrim : trimStart (front ++ rest) = trimStart rest := List.dropWhile_append_of_pos h
  rw [← words_trimStart, htrim, words_trimStart]

theorem wordsFrom_append_solid {w : Text} (h : ∀ c ∈ w, c.isBlank = false) (begun rest : Text) :
    wordsFrom begun (w ++ rest) = wordsFrom (w.reverse ++ begun) rest := by
  induction w generalizing begun with
  | nil => rfl
  | cons c cs ih =>
    obtain ⟨hc, hcs⟩ := List.forall_mem_cons.mp h
    rw [List.cons_append, wordsFrom, if_neg (Bool.eq_false_iff.mp hc), ih hcs, List.reverse_cons,
      List.append_assoc]
    rfl

theorem wordsFrom_gap {begun rest : Text} (hbegun : begun ≠ [])
    (hgap : ∀ c, rest.head? = some c → c.isBlank = true) :
    wordsFrom begun rest = begun.reverse :: rest.words := by
  have hsome : ¬ begun.isEmpty = true := fun h => hbegun (List.isEmpty_iff.mp h)
  cases rest with
  | nil =>
    rw [wordsFrom, if_neg hsome]
    rfl
  | cons c cs =>
    have hc := hgap c rfl
    have hwords : words (c :: cs) = wordsFrom [] cs := by
      rw [words, wordsFrom, if_pos hc]
      rfl
    rw [wordsFrom, if_pos hc, if_neg hsome, hwords]

/-- Words that stand in a text are its words. -/
theorem Spaced.words_eq {ws : List Text} {t : Text} (h : Spaced ws t) : t.words = ws := by
  induction h with
  | @blank behind hblank =>
    rw [← List.append_nil behind, words_append_of_blanks hblank]
    rfl
  | @word front w rest ws hfront hw hgap hrest ih =>
    rw [words_append_of_blanks hfront, words, wordsFrom_append_solid hw.solid, List.append_nil,
      wordsFrom_gap (List.reverse_ne_nil_iff.mpr hw.nonempty) hgap, List.reverse_reverse, ih]

/-- The words of a text stand in it, the first one behind what was read of it before. -/
theorem spaced_wordsFrom {begun : Text} (hbegun : ∀ c ∈ begun, c.isBlank = false) (t : Text) :
    Spaced (wordsFrom begun t) (begun.reverse ++ t) := by
  induction t generalizing begun with
  | nil =>
    cases begun with
    | nil => exact .blank fun _ => isBlank_of_mem_nil
    | cons d ds =>
      refine Spaced.cons (.blank fun _ => isBlank_of_mem_nil)
        (isWord_reverse (List.cons_ne_nil d ds) hbegun) fun c hc => ?_
      cases hc
  | cons c cs ih =>
    by_cases hc : c.isBlank = true
    · have hrest : Spaced (wordsFrom [] cs) (c :: cs) :=
        (@ih [] fun _ => isBlank_of_mem_nil).cons_blank hc
      rw [wordsFrom, if_pos hc]
      cases begun with
      | nil => exact hrest
      | cons d ds =>
        exact hrest.cons (isWord_reverse (List.cons_ne_nil d ds) hbegun) fun e he =>
          Option.some.inj he ▸ hc
    · have hall := ih (List.forall_mem_cons.mpr ⟨Bool.eq_false_iff.mpr hc, hbegun⟩)
      rw [wordsFrom, if_neg hc]
      rwa [List.reverse_cons, List.append_assoc] at hall

theorem spaced_words (t : Text) : Spaced t.words t :=
  spaced_wordsFrom (fun _ => isBlank_of_mem_nil) t

/-- **A text has exactly the words that stand in it.** -/
theorem words_eq_iff {t : Text} {ws : List Text} : t.words = ws ↔ Spaced ws t :=
  ⟨fun h => h ▸ spaced_words t, Spaced.words_eq⟩

end Esolang.Text
