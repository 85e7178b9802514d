/-
  File:      Esolang/Proofs/Text.lean
  Subject:   Texts that are glued together, and how they are taken apart again.

  * `Text.not_mem_of_mem_splitOn`: what a text is cut at is in none of its pieces.
  * `Text.lines_join`: lines that are glued together with newlines are the lines of the whole.
  * `Text.trim_sentence`: nothing is trimmed of a sentence; `Text.words_trim`: trimming keeps the
    words.
  * `Text.includes_iff`, `Text.startsWith_append`: what a text has in it, and what it begins with.
-/
import Esolang.Text.Blank

namespace Esolang

theorem CodePoint.eq_of_char? {c : CodePoint} {char : Char} (h : c.char? = some char) :
    c = .ofChar char := by
  unfold char? at h
  by_cases hvalid : c.val.isValidChar
  · rw [dif_pos hvalid] at h
    cases h
    rfl
  · rw [dif_neg hvalid] at h
    cases h

namespace Text

/-! ## 1. Lines -/

theorem splitOn_append {sep : CodePoint} {t : Text} (h : sep ∉ t) (rest : Text) :
    splitOn sep (t ++ sep :: rest) = t :: splitOn sep rest := by
  induction t with
  | nil => simp [splitOn]
  | cons c cs ih =>
    have hc : c ≠ sep := fun e => h (e ▸ List.mem_cons_self)
    have hcs : sep ∉ cs := fun hmem => h (List.mem_cons_of_mem c hmem)
    rw [List.cons_append, splitOn, if_neg hc, ih hcs]

theorem splitOn_of_not_mem {sep : CodePoint} {t : Text} (h : sep ∉ t) : splitOn sep t = [t] := by
  induction t with
  | nil => rfl
  | cons c cs ih =>
    have hc : c ≠ sep := fun e => h (e ▸ List.mem_cons_self)
    have hcs : sep ∉ cs := fun hmem => h (List.mem_cons_of_mem c hmem)
    rw [splitOn, if_neg hc, ih hcs]

theorem not_mem_of_mem_splitOn {sep : CodePoint} {t piece : Text} (h : piece ∈ splitOn sep t) :
    sep ∉ piece := by
  induction t generalizing piece with
  | nil =>
    obtain rfl := List.mem_singleton.mp h
    exact List.not_mem_nil
  | cons c cs ih =>
    rw [splitOn] at h
    by_cases hc : c = sep
    · rw [if_pos hc] at h
      rcases List.mem_cons.mp h with rfl | h
      · exact List.not_mem_nil
      · exact ih h
    · rw [if_neg hc] at h
      obtain ⟨first, pieces, hpieces⟩ := List.exists_cons_of_ne_nil (splitOn_ne_nil sep cs)
      rw [hpieces] at h ih
      rcases List.mem_cons.mp h with rfl | h
      · intro hmem
        rcases List.mem_cons.mp hmem with e | hmem
        · exact hc e.symm
        · exact ih List.mem_cons_self hmem
      · exact ih (List.mem_cons_of_mem _ h)

/-- **Lines that are glued together with newlines are the lines of the whole.** -/
theorem lines_join {ls : List Text} (hne : ls ≠ []) (h : ∀ l ∈ ls, newline ∉ l) :
    (join [newline] ls).lines = ls := by
  unfold lines join
  induction ls with
  | nil => exact absurd rfl hne
  | cons l ls ih =>
    obtain ⟨hl, hls⟩ := List.forall_mem_cons.mp h
    cases ls with
    | nil =>
      rw [List.intercalate_singleton]
      exact splitOn_of_not_mem hl
    | cons l' ls =>
      rw [List.intercalate_cons_cons, List.append_assoc, List.singleton_append, splitOn_append hl,
        ih (List.cons_ne_nil _ _) hls]

/-- The first piece stands in front, and all pieces stand somewhere. -/
theorem splitOn_infix (sep : CodePoint) (t : Text) :
    ∃ first pieces, splitOn sep t = first :: pieces ∧ first <+: t ∧
      ∀ piece ∈ pieces, piece <:+: t := by
  induction t with
  | nil =>
    exact ⟨[], [], rfl, List.prefix_refl _, fun piece hpiece => absurd hpiece List.not_mem_nil⟩
  | cons c cs ih =>
    obtain ⟨first, pieces, hsplit, hfirst, hpieces⟩ := ih
    have hcs : cs <:+: c :: cs := (List.suffix_cons c cs).isInfix
    rw [splitOn, hsplit]
    by_cases hc : c = sep
    · rw [if_pos hc]
      refine ⟨[], first :: pieces, rfl, List.nil_prefix, fun piece hpiece => ?_⟩
      rcases List.mem_cons.mp hpiece with rfl | hpiece
      · exact hfirst.isInfix.trans hcs
      · exact (hpieces piece hpiece).trans hcs
    · rw [if_neg hc]
      exact ⟨c :: first, pieces, rfl, List.cons_prefix_cons.mpr ⟨rfl, hfirst⟩,
        fun piece hpiece => (hpieces piece hpiece).trans hcs⟩

theorem infix_of_mem_lines {t line : Text} (h : line ∈ t.lines) : line <:+: t := by
  obtain ⟨first, pieces, hsplit, hfirst, hpieces⟩ := splitOn_infix newline t
  rw [lines, hsplit] at h
  rcases List.mem_cons.mp h with rfl | h
  · exact hfirst.isInfix
  · exact hpieces line h

/-! ## 2. Blanks -/

theorem trimStart_eq_self {t : Text} (h : ∀ c, t.head? = some c → c.isBlank = false) :
    trimStart t = t := by
  cases t with
  | nil => rfl
  | cons c cs =>
    have hc := h c rfl
    simp [trimStart, hc]

/-- Nothing is trimmed of a sentence. -/
theorem trim_sentence {t : Text} (h : ∀ c, t.head? = some c → c.isBlank = false) :
    trim (t ++ ofString ".") = t ++ ofString "." := by
  have hstart : trimStart (t ++ ofString ".") = t ++ ofString "." := by
    refine trimStart_eq_self fun c hc => ?_
    cases t with
    | nil =>
      cases hc
      decide
    | cons c' cs => exact h c hc
  have hend : trimStart (t ++ ofString ".").reverse = (t ++ ofString ".").reverse := by
    refine trimStart_eq_self fun c hc => ?_
    rw [List.head?_reverse, ofString, show (".".toList.map CodePoint.ofChar) =
      [CodePoint.ofChar '.'] from rfl,
      List.getLast?_concat] at hc
    cases hc
    decide
  rw [trim, hstart, hend, List.reverse_reverse]

theorem isBlank_sentence {t : Text} (h : ∀ c, t.head? = some c → c.isBlank = false) :
    isBlank (t ++ ofString ".") = false := by
  rw [isBlank, trim_sentence h]
  cases t with
  | nil => rfl
  | cons c cs => rfl

theorem trim_infix (t : Text) : t.trim <:+: t := by
  have hback : trimStart (trimStart t).reverse <:+ (trimStart t).reverse := List.dropWhile_suffix _
  have hfront : t.trim <+: trimStart t := by
    rw [← List.reverse_suffix, trim, List.reverse_reverse]
    exact hback
  exact hfront.isInfix.trans (List.dropWhile_suffix _).isInfix

theorem wordsFrom_append_blanks {begun t blanks : Text} (h : ∀ c ∈ blanks, c.isBlank = true) :
    wordsFrom begun (t ++ blanks) = wordsFrom begun t := by
  induction t generalizing begun with
  | nil =>
    induction blanks generalizing begun with
    | nil => rfl
    | cons c cs ih =>
      obtain ⟨hc, hcs⟩ := List.forall_mem_cons.mp h
      have hnone : wordsFrom [] cs = wordsFrom [] [] := ih hcs
      have hstep : wordsFrom begun (c :: cs) =
          if begun.isEmpty then wordsFrom [] cs else begun.reverse :: wordsFrom [] cs := by
        rw [wordsFrom, if_pos hc]
      rw [List.nil_append, hstep, hnone]
      rfl
  | cons c cs ih => simp only [List.cons_append, wordsFrom, ih]

theorem words_trimStart (t : Text) : (trimStart t).words = t.words := by
  unfold trimStart words
  induction t with
  | nil => rfl
  | cons c cs ih =>
    by_cases hc : c.isBlank = true
    · rw [List.dropWhile_cons_of_pos hc, ih, wordsFrom, if_pos hc]
      rfl
    · rw [List.dropWhile_cons_of_neg hc]

/-- Trimming keeps the words. -/
theorem words_trim (t : Text) : t.trim.words = t.words := by
  let back := (trimStart t).reverse
  have hsplit : trimStart t = trim t ++ (back.takeWhile CodePoint.isBlank).reverse := by
    have hback := congrArg List.reverse (takeWhile_append_trimStart back)
    rw [List.reverse_append, List.reverse_reverse] at hback
    exact hback.symm
  have hblanks : ∀ c ∈ (back.takeWhile CodePoint.isBlank).reverse, c.isBlank = true := by
    intro c hc
    rw [List.mem_reverse] at hc
    exact List.all_eq_true.mp List.all_takeWhile c hc
  rw [← words_trimStart t, hsplit]
  exact (wordsFrom_append_blanks hblanks).symm

/-! ## 3. Parts -/

theorem ofString_append (a b : String) : ofString (a ++ b) = ofString a ++ ofString b := by
  unfold Text.ofString
  rw [String.toList_append, List.map_append]

theorem includes_iff {t needle : Text} : t.includes needle = true ↔ needle <:+: t := by
  induction t with
  | nil => rw [includes, List.isEmpty_iff, List.infix_nil]
  | cons c cs ih =>
    rw [includes, Bool.or_eq_true, List.isPrefixOf_iff_prefix, ih, List.infix_cons_iff]

/-- What a text begins with is at the beginning of its front, or it goes on behind it. -/
theorem startsWith_append {p front rest : Text} (h : (front ++ rest).startsWith p = true) :
    front.startsWith p = true ∨ ∃ c more, p = front ++ c :: more ∧ c :: more <+: rest := by
  obtain ⟨tail, htail⟩ := List.isPrefixOf_iff_prefix.mp h
  rcases List.append_eq_append_iff.mp htail with ⟨inner, hfront, -⟩ | ⟨outer, hp, hrest⟩
  · exact .inl (List.isPrefixOf_iff_prefix.mpr ⟨inner, hfront.symm⟩)
  · cases outer with
    | nil =>
      rw [List.append_nil] at hp
      exact .inl (List.isPrefixOf_iff_prefix.mpr (hp ▸ List.prefix_rfl))
    | cons c more => exact .inr ⟨c, more, hp, tail, hrest.symm⟩

theorem startsWith_append_left (a p t : Text) : (a ++ t).startsWith (a ++ p) = t.startsWith p := by
  rw [Bool.eq_iff_iff]
  exact List.isPrefixOf_iff_prefix.trans
    ((List.prefix_append_right_inj a).trans List.isPrefixOf_iff_prefix.symm)

end Text

end Esolang
