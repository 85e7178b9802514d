/-
  File:      Esolang/Proofs/Chef/Outline.lean
  Subject:   Which lines of a source a recipe takes.

  Sections are read from a page, one after another, and what is left of the page is always what
  begins at some line of the source. So a recipe has an outline: the lines at which its sections
  begin. Recipes that are read one after another take lines one after another.

  * `pageAt`: the page from a line on; `while_at`: the lines in front of it that have something in
    common.
  * `title_at`, `blankLine_at`, `header_at`, `comments_at`, `remark_at`, `serving_at`: which lines a
    section takes.
  * `Outline`, `Outline.Of`: the lines at which the sections of a recipe begin.
  * `recipe_at`: every recipe that was read has an outline.
-/
import Esolang.Proofs.Chef.SourceMap

namespace Esolang.Chef

/-! ## 1. Pages -/

/-- The page from a line of a document on. -/
def pageAt (doc : List Text) (row : Nat) : Page := (pageOf doc).drop row

section Pages

variable {doc : List Text} {row : Nat}

theorem getElem?_pageAt (doc : List Text) (row k : Nat) :
    (pageAt doc row)[k]? = doc[row + k]?.map fun text => ⟨row + k, text⟩ := by
  rw [pageAt, List.getElem?_drop, pageOf, List.getElem?_map, List.getElem?_zipIdx, Option.map_map,
    Nat.zero_add]
  rfl

theorem drop_pageAt (doc : List Text) (row n : Nat) :
    (pageAt doc row).drop n = pageAt doc (row + n) := List.drop_drop

theorem pageAt_of_none (h : doc[row]? = none) : pageAt doc row = [] := by
  have hfirst : (pageAt doc row)[0]? = none := by
    rw [getElem?_pageAt, Nat.add_zero, h, Option.map_none]
  exact List.eq_nil_of_length_eq_zero (Nat.le_zero.mp (List.getElem?_eq_none_iff.mp hfirst))

/-- The first line of a page is the one at which the page begins. -/
theorem pageAt_of_line {line : Text} (h : doc[row]? = some line) :
    pageAt doc row = ⟨row, line⟩ :: pageAt doc (row + 1) := by
  have hfirst : (pageAt doc row)[0]? = some ⟨row, line⟩ := by
    rw [getElem?_pageAt, Nat.add_zero, h, Option.map_some]
  obtain ⟨hlt, hline⟩ := List.getElem?_eq_some_iff.mp hfirst
  calc pageAt doc row
      = (pageAt doc row)[0] :: (pageAt doc row).drop 1 := List.drop_eq_getElem_cons hlt
    _ = ⟨row, line⟩ :: pageAt doc (row + 1) := by rw [hline, drop_pageAt]

/-- The lines in front of a page that have something in common end at some line, which has it not or
    is not there. -/
theorem while_at (q : Text → Bool) (doc : List Text) (row : Nat) :
    ∃ n, (pageAt doc row).takeWhile (fun l => q l.text) = (pageAt doc row).take n ∧
      (pageAt doc row).dropWhile (fun l => q l.text) = pageAt doc (row + n) ∧
      (∀ k, row ≤ k → k < row + n → doc[k]?.map q = some true) ∧
      doc[row + n]?.map q ≠ some true := by
  refine ⟨(pageAt doc row).findIdx fun l => !q l.text, List.takeWhile_eq_take_findIdx_not, ?_,
    fun k hrow hk => ?_, ?_⟩
  · rw [List.dropWhile_eq_drop_findIdx_not, drop_pageAt]
  · have hlt : k - row < (pageAt doc row).findIdx fun l => !q l.text := by omega
    have hat : row + (k - row) = k := by omega
    have hlength : k - row < (pageAt doc row).length :=
      Nat.lt_of_lt_of_le hlt List.findIdx_le_length
    have hget := List.getElem?_eq_getElem hlength
    rw [getElem?_pageAt, hat] at hget
    obtain ⟨text, hline, htext⟩ := Option.map_eq_some_iff.mp hget
    have hq := List.not_of_lt_findIdx hlt
    rw [← htext, Bool.not_eq_false'] at hq
    rw [hline, Option.map_some, hq]
  · intro hq
    obtain ⟨text, hline, htext⟩ := Option.map_eq_some_iff.mp hq
    have hget := getElem?_pageAt doc row ((pageAt doc row).findIdx fun l => !q l.text)
    rw [hline, Option.map_some] at hget
    obtain ⟨hlength, hline⟩ := List.getElem?_eq_some_iff.mp hget
    have hnot := List.findIdx_getElem (p := fun l : Line => !q l.text) (w := hlength)
    rw [hline, htext] at hnot
    cases hnot

theorem skipBlanks_at (doc : List Text) (row : Nat) :
    ∃ next, row ≤ next ∧ skipBlanks (pageAt doc row) = pageAt doc next := by
  obtain ⟨n, -, hskip, -, -⟩ := while_at Text.isBlank doc row
  exact ⟨row + n, Nat.le_add_right _ _, hskip⟩

/-- A paragraph has no blank line, and one stands below it unless the source ends there. -/
theorem paragraph_at (doc : List Text) (row : Nat) :
    ∃ past, row ≤ past ∧ paragraph (pageAt doc row) = (pageAt doc row).take (past - row) ∧
      afterParagraph (pageAt doc row) = pageAt doc past ∧
      (∀ k, row ≤ k → k < past → doc[k]?.map Text.isBlank = some false) ∧
      doc[past]?.map Text.isBlank ≠ some false := by
  have hnot : ∀ o : Option Text, o.map (fun t => !t.isBlank) = some true ↔
      o.map Text.isBlank = some false := by
    intro o
    cases o with
    | none => simp
    | some t => simp
  obtain ⟨n, htake, hdrop, hall, hend⟩ := while_at (fun t => !t.isBlank) doc row
  refine ⟨row + n, Nat.le_add_right _ _, ?_, hdrop, fun k hrow hk => (hnot _).mp (hall k hrow hk),
    mt (hnot _).mpr hend⟩
  rw [Nat.add_sub_cancel_left]
  exact htake

end Pages

/-! ## 2. Sections -/

section Sections

variable {doc : List Text} {row : Nat} {ending : Span} {rest : Page}

theorem title_at {name : Text} (h : title ending (pageAt doc row) = .ok (name, rest)) :
    doc[row]?.map Text.trim = some (name ++ Text.ofString ".") ∧ rest = pageAt doc (row + 1) := by
  cases hline : doc[row]? with
  | none =>
    rw [pageAt_of_none hline] at h
    cases h
  | some line =>
    rw [pageAt_of_line hline] at h
    simp only [title] at h
    split at h
    · cases h
    · split at h
      · next hends =>
        cases h
        obtain ⟨front, hfront⟩ := List.isSuffixOf_iff_suffix.mp hends
        refine ⟨?_, rfl⟩
        rw [Option.map_some, ← hfront]
        exact congrArg (fun t => some (t ++ Text.ofString ".")) List.dropLast_concat.symm
      · cases h

theorem blankLine_at (h : blankLine ending (pageAt doc row) = .ok rest) :
    doc[row]?.map Text.isBlank = some true ∧ rest = pageAt doc (row + 1) := by
  cases hline : doc[row]? with
  | none =>
    rw [pageAt_of_none hline] at h
    cases h
  | some line =>
    rw [pageAt_of_line hline, blankLine] at h
    split at h
    · next hblank =>
      cases h
      exact ⟨congrArg some hblank, rfl⟩
    · cases h

theorem header_at {expected message : Text}
    (h : header ending expected message (pageAt doc row) = .ok rest) :
    doc[row]?.map Text.trim = some expected ∧ rest = pageAt doc (row + 1) := by
  cases hline : doc[row]? with
  | none =>
    rw [pageAt_of_none hline] at h
    cases h
  | some line =>
    rw [pageAt_of_line hline, header] at h
    split at h
    · next htrim =>
      cases h
      exact ⟨congrArg some htrim, rfl⟩
    · cases h

/-- Comments are there unless the list of ingredients comes at once, and end with the first blank
    line. -/
theorem comments_at (h : comments ending (pageAt doc row) = .ok rest) :
    ∃ next, rest = pageAt doc next ∧ (next = row ∨
      doc[row]?.map Text.trim ≠ some (Text.ofString "Ingredients.") ∧
        ∃ under, next = under + 1 ∧ row ≤ under ∧
          (∀ k, row ≤ k → k < under → doc[k]?.map Text.isBlank = some false) ∧
          doc[under]?.map Text.isBlank = some true) := by
  cases hline : doc[row]? with
  | none =>
    rw [pageAt_of_none hline] at h
    cases h
  | some line =>
    rw [pageAt_of_line hline, comments, ← pageAt_of_line hline] at h
    split at h
    · cases h
      exact ⟨row, rfl, .inl rfl⟩
    · next hother =>
      obtain ⟨under, hle, -, hafter, hfull, -⟩ := paragraph_at doc row
      rw [hafter] at h
      obtain ⟨hblank, hrest⟩ := blankLine_at h
      exact ⟨under + 1, hrest, .inr ⟨fun htrim => hother (Option.some.inj htrim), under, rfl, hle,
        hfull, hblank⟩⟩

theorem trim_ne_of_blank {o : Option Text} {t : Text} (h : o.map Text.isBlank = some true)
    (ht : t.isEmpty = false) : o.map Text.trim ≠ some t := by
  intro htrim
  obtain ⟨line, rfl, hline⟩ := Option.map_eq_some_iff.mp htrim
  have hblank : line.trim.isEmpty = true := Option.some.inj h
  rw [hline, ht] at hblank
  cases hblank

/-- A line that may stand above the method takes two lines or none, and neither of them is the line
    above the method. -/
theorem remark_at {words message : Text} {p : Phrase Unit}
    (hwords : Text.startsWith (Text.ofString "Method.") words = false)
    (h : remark ending words p message (pageAt doc row) = .ok rest) :
    ∃ next, row ≤ next ∧ rest = pageAt doc next ∧
      ∀ k, row ≤ k → k < next → doc[k]?.map Text.trim ≠ some (Text.ofString "Method.") := by
  unfold remark at h
  split at h
  · next hstarts =>
    obtain ⟨⟨_, behind⟩, hfitting, hblank⟩ := Except.bind_ok h
    obtain ⟨l, hpage, -⟩ := fitting_ok hfitting
    cases hline : doc[row]? with
    | none =>
      rw [pageAt_of_none hline] at hpage
      cases hpage
    | some line =>
      rw [pageAt_of_line hline] at hpage hstarts
      cases hpage
      obtain ⟨hunder, hrest⟩ := blankLine_at hblank
      refine ⟨row + 1 + 1, by omega, hrest, fun k hrow hk htrim => ?_⟩
      rcases Nat.lt_or_ge row k with hlt | hge
      · obtain rfl : k = row + 1 := by omega
        exact trim_ne_of_blank hunder rfl htrim
      · obtain rfl : k = row := Nat.le_antisymm hge hrow
        rw [hline] at htrim
        rw [nextStartsWith, Option.some.inj htrim, hwords] at hstarts
        cases hstarts
  · cases h
    exact ⟨row, Nat.le_refl _, rfl, fun k hrow hk => by omega⟩

theorem serving_at {served : Option Serving} (h : serving (pageAt doc row) = .ok (served, rest)) :
    ∃ next, row ≤ next ∧ rest = pageAt doc next := by
  obtain ⟨front, hfront⟩ := (serving_ok h).1
  refine ⟨row + front.length, Nat.le_add_right _ _, ?_⟩
  rw [← drop_pageAt, ← hfront, List.drop_left]

end Sections

/-! ## 3. Recipes -/

/-- The lines at which the sections of a recipe begin. -/
structure Outline where
  /-- The title. -/
  title : Nat
  /-- The line above the ingredients. -/
  list : Nat
  /-- The blank line below them. -/
  gap : Nat
  /-- The line above the method. -/
  header : Nat
  /-- The line below it. -/
  past : Nat

/-- The lines of a document at which the sections of a recipe begin. -/
structure Outline.Of (o : Outline) (doc : List Text) (r : Recipe) : Prop where
  title : doc[o.title]?.map Text.trim = some (r.name ++ Text.ofString ".")
  underTitle : doc[o.title + 1]?.map Text.isBlank = some true
  comments : o.list = o.title + 2 ∨
    doc[o.title + 2]?.map Text.trim ≠ some (Text.ofString "Ingredients.") ∧
    ∃ under, o.list = under + 1 ∧ o.title + 2 ≤ under ∧
      (∀ row, o.title + 2 ≤ row → row < under → doc[row]?.map Text.isBlank = some false) ∧
      doc[under]?.map Text.isBlank = some true
  list : doc[o.list]?.map Text.trim = some (Text.ofString "Ingredients.")
  list_lt : o.list < o.gap
  ingredients : ∀ row, o.list < row → row < o.gap → doc[row]?.map Text.isBlank = some false
  gap : doc[o.gap]?.map Text.isBlank = some true
  gap_lt : o.gap < o.header
  remarks : ∀ row, o.gap < row → row < o.header →
    doc[row]?.map Text.trim ≠ some (Text.ofString "Method.")
  header : doc[o.header]?.map Text.trim = some (Text.ofString "Method.")
  header_lt : o.header < o.past
  method : ∀ row, o.header < row → row < o.past → doc[row]?.map Text.isBlank = some false
  below : doc[o.past]?.map Text.isBlank ≠ some false

theorem Outline.Of.title_lt {o : Outline} {doc : List Text} {r : Recipe} (h : o.Of doc r) :
    o.title < o.header := by
  have hlist : o.title < o.list := by
    rcases h.comments with hat | ⟨-, under, hat, hle, -⟩
    · omega
    · omega
  exact Nat.lt_trans hlist (Nat.lt_trans h.list_lt h.gap_lt)

/-- The lines between the line above a method and the one below it. -/
def Outline.methodPage (o : Outline) (doc : List Text) : Page :=
  (pageAt doc (o.header + 1)).take (o.past - (o.header + 1))

/-- **A recipe that was read has an outline**, its method is read of the lines the outline gives it,
    and the recipes behind it are read of lines further on. -/
theorem recipe_at {doc : List Text} {row : Nat} {ending : Span} {r : Recipe} {rest : Page}
    (h : recipe ending (pageAt doc row) = .ok (r, rest)) :
    ∃ o : Outline, o.Of doc r ∧ o.title = row ∧
      Chef.method ((o.methodPage doc).flatMap fun l => segments l.row l.text) = .ok r.method ∧
      ∃ next, o.past ≤ next ∧ rest = pageAt doc next := by
  unfold recipe at h
  obtain ⟨⟨name, p₁⟩, h₁, h⟩ := Except.bind_ok h
  obtain ⟨htitle, rfl⟩ := title_at h₁
  obtain ⟨p₂, h₂, h⟩ := Except.bind_ok h
  obtain ⟨hunder, rfl⟩ := blankLine_at h₂
  obtain ⟨p₃, h₃, h⟩ := Except.bind_ok h
  obtain ⟨list, rfl, hcomments⟩ := comments_at h₃
  obtain ⟨p₄, h₄, h⟩ := Except.bind_ok h
  obtain ⟨hlist, rfl⟩ := header_at h₄
  obtain ⟨box, -, h⟩ := Except.bind_ok h
  obtain ⟨gap, hlist_lt, -, hbehindList, hingredients, -⟩ := paragraph_at doc (list + 1)
  obtain ⟨p₅, h₅, h⟩ := Except.bind_ok h
  rw [hbehindList] at h₅
  obtain ⟨hgap, rfl⟩ := blankLine_at h₅
  obtain ⟨p₆, h₆, h⟩ := Except.bind_ok h
  obtain ⟨oven, hgap_lt, rfl, htime⟩ := remark_at (by decide +kernel) h₆
  obtain ⟨p₇, h₇, h⟩ := Except.bind_ok h
  obtain ⟨header, hoven_lt, rfl, hoven⟩ := remark_at (by decide +kernel) h₇
  obtain ⟨p₈, h₈, h⟩ := Except.bind_ok h
  obtain ⟨hheader, rfl⟩ := header_at h₈
  obtain ⟨past, hheader_lt, hparagraph, hbehindMethod, hmethod, hbelow⟩ :=
    paragraph_at doc (header + 1)
  obtain ⟨steps, hsteps, h⟩ := Except.bind_ok h
  rw [hparagraph] at hsteps
  obtain ⟨⟨served, p₉⟩, h₉, h⟩ := Except.bind_ok h
  obtain ⟨full, hpast, hskip⟩ := skipBlanks_at doc past
  rw [hbehindMethod, hskip] at h₉
  obtain ⟨next, hfull, rfl⟩ := serving_at h₉
  cases h
  refine ⟨⟨row, list, gap, header, past⟩, ⟨htitle, hunder, hcomments, hlist, hlist_lt,
    hingredients, hgap, Nat.le_trans hgap_lt hoven_lt, fun k hk hlt => ?_, hheader, hheader_lt,
    hmethod, hbelow⟩, rfl, hsteps, next,
    Nat.le_trans hpast hfull, rfl⟩
  rcases Nat.lt_or_ge k oven with hbefore | hbehind
  · exact htime k hk hbefore
  · exact hoven k hbehind hlt

end Esolang.Chef
