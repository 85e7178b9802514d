/-
  File:      Esolang/Proofs/Chef/ReadBack.lean
  Subject:   Every program that is laid out on paper is read back.

  The sections of a recipe are told apart by their first words only, and blank lines both end a
  section and stand between recipes. What follows a method may be blank lines, a line that says how
  many the recipe serves, the title of the next recipe, or nothing.

  * `Sheet.Accepted`: what has to be right about the lines of a recipe; `Sheet.Holds`: the recipe
    they hold.
  * `Sheet.recipe_holds`: a sheet is read back, whatever follows it.
  * `Book`, `Book.text`: a whole program on paper, and its source.
  * `parse_reads_back`: the program that is read of it; `unread_serving`: one that is not read,
    because the number of dishes is too long.
-/
import Esolang.Proofs.Chef.Layout

namespace Esolang.Chef

/-! ## 1. Recipes -/

/-- What has to be right about the lines of a recipe: every line of the ingredients names one, every
    statement says an operation, the loops nest, and every ingredient that the method names is
    there. -/
structure Sheet.Accepted (s : Sheet) : Prop where
  ingredients : ∀ l ∈ s.ingredients, (ingredientOf l.text).isOk = true
  statements : ∀ t ∈ s.statements, (Operation.ofStatement t).isOk = true
  loops : ∃ b : Block, b.Nests false ∧ s.operations = (b.lay 0 none).map Operation.bare
  declared : ∀ i ∈ s.operations.filterMap Operation.ingredient?, i ∈ s.entries.map Prod.fst

/-- The recipe that a sheet holds, if its title stands on the given line. -/
structure Sheet.Holds (s : Sheet) (row : Nat) (r : Recipe) : Prop where
  name : r.name = s.title
  ingredients : r.ingredients.Collects s.entries
  steps : r.method.map Step.said = (statementsFrom (row + s.front.length) s.method).map heard
  loops : ∃ b : Block, b.Nests false ∧ r.method.map (·.operation) = b.lay 0 none
  serving : r.serving = s.footer.map fun f =>
    ⟨row + s.front.length + s.method.length + f.above.length,
      Decimal.value (digitValues f.number.text)⟩

/-- No number of dishes has too many digits to be read. -/
def Sheet.Short (s : Sheet) : Prop := ∀ f, s.footer = some f → f.number.text.length ≤ Decimal.limit

section Reading

variable (ending : Span)

/-- A recipe is read section by section; how many it serves comes last. -/
theorem recipe_of_sections {name : Text} {box : Ingredients} {steps : List Step}
    {p₀ p₁ p₂ p₃ p₄ p₅ p₆ p₇ p₈ : Page} (htitle : title ending p₀ = .ok (name, p₁))
    (hunder : blankLine ending p₁ = .ok p₂) (hcomments : comments ending p₂ = .ok p₃)
    (hingredients : header ending "Ingredients." "Expected ingredients header" p₃ = .ok p₄)
    (hbox : ingredientsOn [] (paragraph p₄) = .ok box)
    (hblank : blankLine ending (afterParagraph p₄) = .ok p₅)
    (htime : remark ending "Cooking time: " cookingTimePhrase "Malformed cooking time statement"
    p₅ = .ok p₆)
    (hoven : remark ending "Pre-heat oven " ovenPhrase "Malformed oven setting" p₆ = .ok p₇)
    (hmethod : header ending "Method." "Expected \"Method.\"" p₇ = .ok p₈)
    (hsteps : method ((paragraph p₈).flatMap fun l => segments l.row l.text) = .ok steps) :
    recipe ending p₀ = (serving (skipBlanks (afterParagraph p₈))).map fun o =>
      (⟨name, box, steps, o.1⟩, o.2) := by
  simp only [recipe, bind, Except.bind, htitle, hunder, hcomments, hingredients, hbox, hblank,
    htime, hoven, hmethod, hsteps]
  cases serving (skipBlanks (afterParagraph p₈)) with
  | ok o => rfl
  | error e => rfl

theorem nextStartsWith_oven (row : Nat) (o : Option Oven) (place : Nat) (body : Page) :
    nextStartsWith
      (pageFrom row (o.elim [] Oven.written) ++ ⟨place, Text.ofString "Method."⟩ :: body)
      (Text.ofString "Cooking time: ") = false := by
  cases o with
  | none =>
    show Text.startsWith (Text.trim (Text.ofString "Method.")) _ = false
    decide +kernel
  | some o =>
    show o.text.trim.startsWith (Text.ofString "Cooking time: ") = false
    rw [o.trim_text]
    rfl

/-- All that stands before the method is read, whatever follows. -/
theorem Sheet.recipe_front (s : Sheet) (hs : s.Accepted) (row : Nat) {body : Page}
    {steps : List Step}
    (hsteps : Chef.method ((paragraph body).flatMap fun l => segments l.row l.text) = .ok steps) :
    recipe ending (pageFrom row s.front ++ body) =
      (serving (skipBlanks (afterParagraph body))).map fun o =>
      (⟨s.title, Table.ofEntries s.entries, steps, o.1⟩, o.2) := by
  let atHeader := row + 1 + 1 + (s.comments.elim [] Comments.written).length
  let atBlank := atHeader + 1 + (s.ingredients.map (·.text)).length
  let atOven := atBlank + 1 + (s.cookingTime.elim [] CookingTime.written).length
  let atMethod := atOven + (s.oven.elim [] Oven.written).length
  let behindTime : Page :=
    pageFrom atOven (s.oven.elim [] Oven.written) ++ ⟨atMethod, Text.ofString "Method."⟩ :: body
  let behindBlank : Page :=
    pageFrom (atBlank + 1) (s.cookingTime.elim [] CookingTime.written) ++ behindTime
  let behindHeader : Page :=
    pageFrom (atHeader + 1) (s.ingredients.map (·.text)) ++ ⟨atBlank, s.underIngredients.text⟩ ::
      behindBlank
  have hpage : pageFrom row s.front ++ body =
      ⟨row, s.title ++ Text.ofString "."⟩ :: ⟨row + 1, s.underTitle.text⟩ ::
        (pageFrom (row + 1 + 1) (s.comments.elim [] Comments.written) ++
          ⟨atHeader, Text.ofString "Ingredients."⟩ :: behindHeader) := by
    simp only [Sheet.front, pageFrom, pageFrom_append, List.cons_append, List.append_assoc,
      List.nil_append, behindHeader, behindBlank, behindTime, atHeader, atBlank, atOven, atMethod]
  have hcut : paragraph behindHeader = pageFrom (atHeader + 1) (s.ingredients.map (·.text)) ∧
      afterParagraph behindHeader = ⟨atBlank, s.underIngredients.text⟩ :: behindBlank := by
    refine paragraph_eq (fulls_full s.ingredients) fun l hl => ?_
    cases hl
    exact s.underIngredients.blank
  have hbox : ingredientsOn [] (paragraph behindHeader) = .ok (Table.ofEntries s.entries) := by
    rw [hcut.1]
    refine ingredientsOn_eq _ ?_ []
    rw [List.map_map]
    exact Except.map_eq_of_isOk hs.ingredients
  have hblank : blankLine ending (afterParagraph behindHeader) = .ok behindBlank := by
    rw [hcut.2]
    exact blankLine_blank ending _ s.underIngredients behindBlank
  have hingredients : Text.trim (Text.ofString "Ingredients.") = Text.ofString "Ingredients." := by
    decide +kernel
  have hmethod : Text.trim (Text.ofString "Method.") = Text.ofString "Method." := by decide +kernel
  rw [hpage]
  exact recipe_of_sections ending (title_sentence ending row s.title_head _)
    (blankLine_blank ending (row + 1) s.underTitle _)
      (comments_written ending _ s.comments atHeader behindHeader)
    (header_line ending atHeader hingredients _ behindHeader) hbox hblank
    (cookingTime_written ending _ s.cookingTime (nextStartsWith_oven _ _ _ _))
    (oven_written ending _ s.oven rfl) (header_line ending atMethod hmethod _ body) hsteps

theorem segments_page (row : Nat) (method : List MethodLine) :
    (pageFrom row (method.map MethodLine.text)).flatMap (fun l => segments l.row l.text) =
      statementsFrom row method := by
  induction method generalizing row with
  | nil => rfl
  | cons l rest ih =>
    rw [List.map_cons, pageFrom, List.flatMap_cons, ih, MethodLine.text,
      segments_glue row l.periods]
    rfl

/-- The lines behind a method begin with a blank one. -/
theorem Sheet.back_blank (s : Sheet) : ∀ t, s.back.head? = some t → t.isBlank = true := by
  intro t ht
  unfold Sheet.back at ht
  cases hfooter : s.footer with
  | none =>
    rw [hfooter] at ht
    obtain ⟨l, -, rfl⟩ := List.mem_map.mp (List.mem_of_head? ht)
    exact l.blank
  | some f =>
    rw [hfooter] at ht
    cases habove : f.above with
    | nil => exact absurd habove f.above_ne_nil
    | cons l more =>
      simp only [Option.elim, Footer.written, habove] at ht
      cases ht
      exact l.blank

/-- The steps of a sheet whose statements are accepted. -/
theorem Sheet.exists_steps (s : Sheet) (hs : s.Accepted) (row : Nat) :
    ∃ steps, Chef.method (statementsFrom row s.method) = .ok steps := by
  obtain ⟨b, hb, hops⟩ := hs.loops
  have hheard : s.statements.map Operation.ofStatement = s.operations.map .ok :=
    Except.map_eq_of_isOk hs.statements
  refine method_of_nests hb ?_
  rw [hops, List.map_map, Sheet.statements, ← map_fst_statementsFrom row, List.map_map] at hheard
  exact hheard

/-- A sheet is read up to the line that says how many the recipe serves. -/
theorem Sheet.recipe_lines (s : Sheet) (hs : s.Accepted) (row : Nat) {rest : Page}
    (hrest : s.back = [] → rest = []) :
    ∃ steps, Chef.method (statementsFrom (row + s.front.length) s.method) = .ok steps ∧
      recipe ending (pageFrom row s.lines ++ rest) =
        (Chef.serving (skipBlanks (pageFrom (row + s.front.length + s.method.length) s.back ++
          rest))).map fun o =>
          (⟨s.title, Table.ofEntries s.entries, steps, o.1⟩, o.2) := by
  obtain ⟨steps, hsteps⟩ := s.exists_steps hs (row + s.front.length)
  refine ⟨steps, hsteps, ?_⟩
  let behind : Page := pageFrom (row + s.front.length + s.method.length) s.back ++ rest
  have hfull : ∀ t ∈ s.method.map MethodLine.text, t.isBlank = false := by
    intro t ht
    obtain ⟨l, -, rfl⟩ := List.mem_map.mp ht
    exact l.full
  have hbehind : ∀ l, behind.head? = some l → l.isBlank = true := by
    intro l hl
    cases hback : s.back with
    | nil =>
      simp only [behind, hback, hrest hback] at hl
      cases hl
    | cons t more =>
      simp only [behind, hback, pageFrom] at hl
      cases hl
      exact s.back_blank t (by rw [hback]; rfl)
  have hpage : pageFrom row s.lines ++ rest =
      pageFrom row s.front ++ (pageFrom (row + s.front.length) (s.method.map MethodLine.text) ++
        behind) := by
    simp only [Sheet.lines, pageFrom_append, List.append_assoc, List.length_map, behind]
  obtain ⟨hparagraph, hafter⟩ := paragraph_eq hfull hbehind
  rw [hpage, s.recipe_front ending hs row (by rw [hparagraph, segments_page]; exact hsteps), hafter]

/-- **A sheet is read back**: the recipe it holds, and then what follows. -/
theorem Sheet.recipe_holds (s : Sheet) (hs : s.Accepted) (hshort : s.Short) (row : Nat)
    {rest : Page} (hrest : s.back = [] → rest = []) (hnext : skipBlanks rest = rest)
    (hserves : s.footer = none → nextStartsWith rest (Text.ofString "Serves ") = false) :
    ∃ r page, recipe ending (pageFrom row s.lines ++ rest) = .ok (r, page) ∧
      skipBlanks page = rest ∧ s.Holds row r := by
  obtain ⟨steps, hsteps, hrecipe⟩ := s.recipe_lines ending hs row hrest
  cases hfooter : s.footer with
  | none =>
    have hserving : Chef.serving rest = .ok (none, rest) := by
      rw [Chef.serving, hserves hfooter]
      rfl
    have hback : s.back = s.below.map (·.text) := by
      rw [Sheet.back, hfooter]
      rfl
    rw [hback, skipBlanks_blanks (blanks_blank s.below), hnext, hserving] at hrecipe
    refine ⟨_, rest, hrecipe, hnext, rfl, Table.ofEntries_collects s.entries, method_said hsteps,
      method_lay hsteps, ?_⟩
    rw [hfooter]
    rfl
  | some f =>
    have hback : s.back = f.written ++ s.below.map (·.text) := by
      rw [Sheet.back, hfooter]
      rfl
    rw [hback, pageFrom_append, List.append_assoc, skipBlanks_footer, serving_footer,
      if_neg (Nat.not_lt.mpr (hshort f hfooter))] at hrecipe
    refine ⟨_, _, hrecipe, ?_, rfl, Table.ofEntries_collects s.entries, method_said hsteps,
      method_lay hsteps, ?_⟩
    · rw [skipBlanks_blanks (blanks_blank s.below), hnext]
    · rw [hfooter]
      rfl

end Reading

/-! ## 2. Books -/

/-- A whole program as it is laid out: the main recipe, the auxiliary ones, and blank lines above
    them all. -/
structure Book where
  above : List BlankLine
  main : Sheet
  others : List Sheet

namespace Book

variable (b : Book)

/-- All recipes, the main one first. -/
def sheets : List Sheet := b.main :: b.others

/-- All lines. -/
def lines : List Text := b.above.map (·.text) ++ b.sheets.flatMap Sheet.lines

/-- The source. -/
def text : Text := Text.join [Text.newline] b.lines

end Book

/-- Blank lines stand between each two recipes, and none without a line that says how many it serves
    is followed by a title that begins like one. -/
def Apart : List Sheet → Prop
  | s :: t :: rest =>
    s.below ≠ [] ∧ (s.footer = none → t.title.startsWith "Serves " = false) ∧ Apart (t :: rest)
  | _ => True

/-- The recipes that sheets hold, if the first one begins on the given line. -/
def HoldAll : Nat → List Sheet → List Recipe → Prop
  | row, s :: ss, r :: rs => s.Holds row r ∧ HoldAll (row + s.lines.length) ss rs
  | _, [], [] => True
  | _, _, _ => False

/-- The recipe that an operation calls. -/
def Operation.callee? : Operation → Option Text
  | .serveWith callee => some callee
  | _ => none

/-- What has to be right about a book: all its recipes are, they stand apart, and every recipe that
    is called is one of the auxiliary ones. -/
structure Book.Accepted (b : Book) : Prop where
  sheets : ∀ s ∈ b.sheets, s.Accepted
  apart : Apart b.sheets
  known : ∀ s ∈ b.sheets, ∀ callee ∈ s.operations.filterMap Operation.callee?,
    callee ∈ b.others.map (·.title)

theorem Sheet.lines_eq_cons (s : Sheet) :
    ∃ more, s.lines = (s.title ++ Text.ofString ".") :: more := ⟨_, rfl⟩

theorem skipBlanks_sheets (row : Nat) (ss : List Sheet) :
    skipBlanks (pageFrom row (ss.flatMap Sheet.lines)) = pageFrom row (ss.flatMap Sheet.lines) := by
  cases ss with
  | nil => rfl
  | cons s ss =>
    obtain ⟨more, hlines⟩ := s.lines_eq_cons
    have hfull : Line.isBlank ⟨row, s.title ++ Text.ofString "."⟩ = false :=
      Text.isBlank_sentence s.title_head
    rw [List.flatMap_cons, hlines, List.cons_append, pageFrom, skipBlanks,
      List.dropWhile_cons_of_neg]
    rw [hfull]
    decide

/-- A title does not begin to look like a serving because of its period. -/
theorem startsWith_serves {t : Text} (h : t.startsWith (Text.ofString "Serves ") = false) :
    Text.startsWith (t ++ Text.ofString ".") (Text.ofString "Serves ") = false := by
  refine Bool.eq_false_iff.mpr fun hstarts => ?_
  rcases List.prefix_concat_iff.mp (List.isPrefixOf_iff_prefix.mp hstarts) with hall | hfront
  · have hlast := congrArg List.getLast? hall
    rw [List.getLast?_concat] at hlast
    revert hlast
    decide
  · exact absurd (List.isPrefixOf_iff_prefix.mpr hfront) (Bool.eq_false_iff.mp h)

theorem nextStartsWith_sheets {s : Sheet} {ss : List Sheet} (h : Apart (s :: ss))
    (hfooter : s.footer = none) (row : Nat) :
    nextStartsWith (pageFrom row (ss.flatMap Sheet.lines)) (Text.ofString "Serves ") = false := by
  cases ss with
  | nil => rfl
  | cons t ss =>
    obtain ⟨more, hlines⟩ := t.lines_eq_cons
    rw [List.flatMap_cons, hlines, List.cons_append, pageFrom, nextStartsWith,
      Text.trim_sentence t.title_head]
    exact startsWith_serves (h.2.1 hfooter)

theorem Apart.tail {s : Sheet} {ss : List Sheet} (h : Apart (s :: ss)) : Apart ss := by
  cases ss with
  | nil => trivial
  | cons t ss => exact h.2.2

/-- The first of several sheets is read back, and the others are left. -/
theorem recipe_of_sheets (ending : Span) {s : Sheet} {ss : List Sheet} (hs : s.Accepted)
    (hshort : s.Short) (hapart : Apart (s :: ss)) (row : Nat) :
    ∃ r page, recipe ending (pageFrom row ((s :: ss).flatMap Sheet.lines)) = .ok (r, page) ∧
      skipBlanks page = pageFrom (row + s.lines.length) (ss.flatMap Sheet.lines) ∧
        s.Holds row r := by
  rw [List.flatMap_cons, pageFrom_append]
  refine s.recipe_holds ending hs hshort row (fun hback => ?_) (skipBlanks_sheets _ ss)
    fun hfooter => nextStartsWith_sheets hapart hfooter _
  cases ss with
  | nil => rfl
  | cons t ss =>
    have hbelow : s.below = [] := List.map_eq_nil_iff.mp (List.append_eq_nil_iff.mp hback).2
    exact absurd hbelow hapart.1

theorem recipes_of_sheets (ending : Span) {ss : List Sheet} (hs : ∀ s ∈ ss, s.Accepted)
    (hshort : ∀ s ∈ ss, s.Short) (hapart : Apart ss) {row limit : Nat} {page : Page}
    (hpage : skipBlanks page = pageFrom row (ss.flatMap Sheet.lines)) (hlimit : ss.length ≤ limit) :
    ∃ rs, recipes ending limit page = .ok rs ∧ HoldAll row ss rs := by
  induction ss generalizing row limit page with
  | nil =>
    refine ⟨[], ?_, trivial⟩
    cases limit with
    | zero => rfl
    | succ limit => simp only [recipes, hpage, List.flatMap_nil, pageFrom]
  | cons s ss ih =>
    obtain ⟨hs, hss⟩ := List.forall_mem_cons.mp hs
    obtain ⟨hshort, hshorts⟩ := List.forall_mem_cons.mp hshort
    obtain ⟨limit, rfl⟩ :=
      Nat.exists_eq_succ_of_ne_zero (Nat.ne_of_gt (Nat.lt_of_lt_of_le (Nat.succ_pos _) hlimit))
    obtain ⟨r, behind, hrecipe, hbehind, hholds⟩ := recipe_of_sheets ending hs hshort hapart row
    obtain ⟨rs, hrecipes, hall⟩ :=
      ih hss hshorts hapart.tail hbehind (Nat.le_of_succ_le_succ hlimit)
    refine ⟨r :: rs, ?_, hholds, hall⟩
    obtain ⟨more, hlines⟩ := s.lines_eq_cons
    rw [← hpage] at hrecipe
    rw [recipes]
    split
    · next hempty =>
      rw [hempty, List.flatMap_cons, hlines] at hpage
      cases hpage
    · rw [hrecipe]
      show (recipes ending limit behind >>= _) = _
      rw [hrecipes]
      rfl

theorem Book.lines_text (b : Book) : b.text.lines = b.lines := by
  refine Text.lines_join ?_ (List.forall_mem_append.mpr ⟨blanks_line _, fun t ht => ?_⟩)
  · obtain ⟨more, hlines⟩ := b.main.lines_eq_cons
    unfold Book.lines Book.sheets
    rw [List.flatMap_cons, hlines]
    exact List.append_ne_nil_of_right_ne_nil _ (List.cons_ne_nil _ _)
  · obtain ⟨s, -, hs⟩ := List.mem_flatMap.mp ht
    exact s.lines_line t hs

/-! ## 3. Programs -/

theorem unknownName_of_known {r : Recipe} {auxiliaries : Table Text Recipe} {s : Step}
    (hdeclared : ∀ i, s.operation.ingredient? = some i → r.ingredients.has i = true)
    (hknown : ∀ callee, s.operation = .serveWith callee → auxiliaries.has callee = true) :
    unknownName r auxiliaries s = none := by
  obtain ⟨op, span⟩ := s
  cases op with
  | serveWith callee => simp [unknownName, hknown callee rfl]
  | loopEnd verb i opener =>
    cases i with
    | none => rfl
    | some i => simp [unknownName, Operation.ingredient?, hdeclared i rfl]
  | _ => simp_all [unknownName, Operation.ingredient?]

theorem bare_ingredient (op : Operation) : op.bare.ingredient? = op.ingredient? := by
  cases op <;> rfl

/-- Every name in a recipe that a sheet holds is known. -/
theorem Sheet.Holds.names {s : Sheet} {row : Nat} {r : Recipe} (h : s.Holds row r)
    {auxiliaries : Table Text Recipe} (hs : s.Accepted)
    (hknown : ∀ callee ∈ s.operations.filterMap Operation.callee?, auxiliaries.has callee = true) :
    r.method.findSome? (unknownName r auxiliaries) = none := by
  refine List.findSome?_eq_none_iff.mpr fun step hstep => ?_
  -- the statement of the step
  have hsaid : step.said ∈ r.method.map Step.said := List.mem_map_of_mem hstep
  rw [h.steps] at hsaid
  obtain ⟨statement, hstatement, hheard⟩ := List.mem_map.mp hsaid
  have hop : Operation.ofStatement statement.1 = .ok step.operation.bare := congrArg Prod.fst hheard
  have htext : statement.1 ∈ s.statements := by
    rw [Sheet.statements, ← map_fst_statementsFrom (row + s.front.length)]
    exact List.mem_map_of_mem hstatement
  have hmem : step.operation.bare ∈ s.operations := by
    refine List.mem_filterMap.mpr ⟨statement.1, htext, ?_⟩
    rw [hop]
    rfl
  refine unknownName_of_known (fun i hi => ?_) fun callee hcallee => ?_
  · rw [h.ingredients.has_iff]
    refine hs.declared i (List.mem_filterMap.mpr ⟨_, hmem, ?_⟩)
    rw [bare_ingredient, hi]
  · refine hknown callee (List.mem_filterMap.mpr ⟨_, hmem, ?_⟩)
    rw [hcallee]
    rfl

theorem HoldAll.exists_sheet {row : Nat} {ss : List Sheet} {rs : List Recipe}
    (h : HoldAll row ss rs) : ∀ r ∈ rs, ∃ s ∈ ss, ∃ row', s.Holds row' r := by
  induction ss generalizing row rs with
  | nil =>
    cases rs with
    | nil => exact fun r hr => absurd hr List.not_mem_nil
    | cons r rs => exact h.elim
  | cons s ss ih =>
    cases rs with
    | nil => exact h.elim
    | cons r rs =>
      refine List.forall_mem_cons.mpr ⟨⟨s, List.mem_cons_self, row, h.1⟩, fun r' hr' => ?_⟩
      obtain ⟨s', hs', row', hholds⟩ := ih h.2 r' hr'
      exact ⟨s', List.mem_cons_of_mem _ hs', row', hholds⟩

theorem HoldAll.names {row : Nat} {ss : List Sheet} {rs : List Recipe} (h : HoldAll row ss rs) :
    rs.map (·.name) = ss.map (·.title) := by
  induction ss generalizing row rs with
  | nil =>
    cases rs with
    | nil => rfl
    | cons r rs => exact h.elim
  | cons s ss ih =>
    cases rs with
    | nil => exact h.elim
    | cons r rs => rw [List.map_cons, List.map_cons, ih h.2, h.1.name]

theorem length_le_lines (ss : List Sheet) : ss.length ≤ (ss.flatMap Sheet.lines).length := by
  induction ss with
  | nil => exact Nat.le_refl 0
  | cons s ss ih =>
    obtain ⟨more, hlines⟩ := s.lines_eq_cons
    rw [List.flatMap_cons, List.length_append, hlines, List.length_cons, List.length_cons]
    omega

theorem Book.skipBlanks_page (b : Book) :
    skipBlanks (pageOf b.lines) = pageFrom b.above.length (b.sheets.flatMap Sheet.lines) := by
  rw [pageOf_eq, Book.lines, pageFrom_append, skipBlanks_blanks (blanks_blank b.above),
    skipBlanks_sheets, List.length_map, Nat.zero_add]

/-- The main recipe of a book is read back, with its names not looked at yet. -/
theorem Book.recipe_main (b : Book) (hb : b.Accepted) (hshort : b.main.Short) :
    ∃ r page, recipe (endOf b.lines) (skipBlanks (pageOf b.lines)) = .ok (r, page) ∧
      skipBlanks page =
        pageFrom (b.above.length + b.main.lines.length) (b.others.flatMap Sheet.lines) ∧
      b.main.Holds b.above.length r := by
  rw [b.skipBlanks_page]
  exact recipe_of_sheets _ (hb.sheets _ List.mem_cons_self) hshort hb.apart _

/-- **A program that is laid out is read back.** Whatever comments, cooking times, oven settings and
    blank lines its author has chosen, the first sheet is the main recipe. The others are the
    auxiliary recipes, by their titles in the order in which these first occur, and of those with
    the same title the last one counts; the same holds of the ingredients of every recipe. The steps
    say what the statements say, in their places, with all loops resolved. -/
theorem parse_reads_back (b : Book) (hb : b.Accepted) (hshort : ∀ s ∈ b.sheets, s.Short) :
    ∃ p others, parse b.text = .ok p ∧ HoldAll b.above.length b.sheets (p.main :: others) ∧
      p.auxiliaries.Collects (others.map fun r => (r.name, r)) := by
  obtain ⟨main, page, hmain, hpage, hholds⟩ := b.recipe_main hb (hshort _ List.mem_cons_self)
  have hlimit : b.others.length ≤ b.lines.length := by
    have hmore := length_le_lines b.sheets
    rw [Book.lines, List.length_append]
    exact Nat.le_trans (Nat.le_succ _) (Nat.le_trans hmore (Nat.le_add_left _ _))
  obtain ⟨others, hothers, hall⟩ := recipes_of_sheets (endOf b.lines)
    (fun s hs => hb.sheets s (List.mem_cons_of_mem _ hs))
      (fun s hs => hshort s (List.mem_cons_of_mem _ hs))
    hb.apart.tail hpage hlimit
  let p : Program := ⟨main, Table.ofEntries (others.map fun r => (r.name, r))⟩
  have hcollects : p.auxiliaries.Collects (others.map fun r => (r.name, r)) :=
    Table.ofEntries_collects _
  have hholdAll : HoldAll b.above.length b.sheets (main :: others) := ⟨hholds, hall⟩
  have hknown : ∀ title ∈ b.others.map (·.title), p.auxiliaries.has title = true := by
    intro title htitle
    rw [← hall.names] at htitle
    rw [hcollects.has_iff, List.map_map]
    exact htitle
  have hnames : unknownNames p = none := by
    refine List.findSome?_eq_none_iff.mpr fun r hr => ?_
    have hr' : r ∈ main :: others := by
      rcases List.mem_cons.mp hr with rfl | hr
      · exact List.mem_cons_self
      · obtain ⟨e, he, rfl⟩ := List.mem_map.mp hr
        obtain ⟨e', he', heq⟩ := Table.mem_ofEntries he
        obtain ⟨r', hr', rfl⟩ := List.mem_map.mp he'
        rw [heq]
        exact List.mem_cons_of_mem _ hr'
    obtain ⟨s, hs, row, hholds⟩ := hholdAll.exists_sheet r hr'
    exact hholds.names (hb.sheets s hs) fun callee hcallee =>
      hknown callee (hb.known s hs callee hcallee)
  have hchecked : unknownNames ⟨main, Table.ofEntries (others.map fun r => (r.name, r))⟩ = none :=
    hnames
  refine ⟨p, others, ?_, hholdAll, hcollects⟩
  simp only [parse, b.lines_text, hmain, bind, Except.bind, hothers, hchecked]
  rfl

/-- An empty line. -/
def emptyLine : BlankLine := ⟨[], rfl, List.not_mem_nil⟩

/-- A short recipe with one ingredient, which does not say how many it serves. -/
def sauce (ingredient : FullLine) : Sheet where
  title := "sauce"
  title_begins := by decide +kernel
  title_line := by decide +kernel
  underTitle := emptyLine
  comments := none
  ingredients := [ingredient]
  underIngredients := emptyLine
  cookingTime := none
  oven := none
  method := [.ofText "Clean the mixing bowl." (by decide +kernel) (by decide +kernel)]
  footer := none
  below := [emptyLine]

/-- A recipe with a loop and an ingredient on two lines, and two auxiliary recipes of one title. -/
def dinner : Book where
  above := [emptyLine]
  main :=
    { title := "Salted water"
      title_begins := by decide +kernel
      title_line := by decide +kernel
      underTitle := emptyLine
      comments :=
        some ⟨[⟨"Best served cold.", by decide +kernel, by decide +kernel⟩], by decide +kernel,
          emptyLine⟩
      ingredients := [⟨"72 g salt", by decide +kernel, by decide +kernel⟩,
        ⟨"2 ml water", by decide +kernel, by decide +kernel⟩,
        ⟨"5 g salt", by decide +kernel, by decide +kernel⟩]
      underIngredients := ⟨" ", by decide +kernel, by decide +kernel⟩
      cookingTime := some ⟨⟨"10", by decide, by decide +kernel⟩, false, true, emptyLine⟩
      oven := some ⟨⟨"180", by decide, by decide +kernel⟩, some ⟨"4", by decide, by decide +kernel⟩,
        emptyLine⟩
      method := [
        .ofText "Put salt into the mixing bowl. Shake the water. Set aside." (by decide +kernel)
          (by decide +kernel),
        .ofText "  Shake until shaken. Serve with sauce. Enjoy" (by decide +kernel)
          (by decide +kernel)]
      footer :=
        some ⟨[emptyLine, emptyLine], List.cons_ne_nil _ _, ⟨"2", by decide, by decide +kernel⟩⟩
      below := [emptyLine] }
  others := [sauce ⟨"1 g salt", by decide +kernel, by decide +kernel⟩,
    sauce ⟨"2 g pepper", by decide +kernel, by decide +kernel⟩]

/-- The method of its main recipe. -/
def dinnerTree : Block :=
  .plain (.put "salt" 1) (.loop "shake" "water" (.aside .done) "shaken" none
    (.plain (.serveWith "sauce") .done))

theorem sauce_operations (ingredient : FullLine) : (sauce ingredient).operations = [.clean 1] := by
  show [Text.ofString "Clean the mixing bowl"].filterMap (fun t =>
    (Operation.ofStatement t).toOption) = _
  decide +kernel

theorem sauce_accepted {ingredient : FullLine} (h : (ingredientOf ingredient.text).isOk = true) :
    (sauce ingredient).Accepted where
  ingredients := List.forall_mem_singleton.mpr h
  statements := by
    show ∀ t ∈ [Text.ofString "Clean the mixing bowl"], (Operation.ofStatement t).isOk = true
    decide +kernel
  loops := ⟨.plain (.clean 1) .done, ⟨rfl, trivial⟩, sauce_operations ingredient⟩
  declared := by
    rw [sauce_operations]
    exact fun i hi => absurd hi List.not_mem_nil

theorem dinner_operations :
    dinner.main.operations = (dinnerTree.lay 0 none).map Operation.bare := by
  decide +kernel

theorem dinner_entries : dinner.main.entries =
    [(Text.ofString "salt", ⟨.dry, some 72⟩), (Text.ofString "water", ⟨.liquid, some 2⟩),
      (Text.ofString "salt", ⟨.dry, some 5⟩)] := by
  decide +kernel

theorem dinner_accepted : dinner.Accepted where
  sheets := by
    have hnests : dinnerTree.Nests false := ⟨rfl, by decide +kernel, ⟨rfl, trivial⟩, rfl, trivial⟩
    have hdeclared : ∀ i ∈ dinner.main.operations.filterMap Operation.ingredient?,
        i ∈ dinner.main.entries.map Prod.fst := by
      rw [dinner_operations, dinner_entries]
      decide +kernel
    have hmain : dinner.main.Accepted :=
      ⟨by decide +kernel, by decide +kernel, ⟨dinnerTree, hnests, dinner_operations⟩, hdeclared⟩
    refine List.forall_mem_cons.mpr
      ⟨hmain, List.forall_mem_cons.mpr ⟨?_, List.forall_mem_singleton.mpr ?_⟩⟩
    · exact sauce_accepted (by decide +kernel)
    · exact sauce_accepted (by decide +kernel)
  apart := ⟨List.cons_ne_nil _ _, fun h => (Option.some_ne_none _ h).elim, List.cons_ne_nil _ _,
    fun _ => by decide +kernel, trivial⟩
  known := by
    refine List.forall_mem_cons.mpr
      ⟨?_, List.forall_mem_cons.mpr ⟨?_, List.forall_mem_singleton.mpr ?_⟩⟩
    · rw [dinner_operations]
      decide +kernel
    · rw [sauce_operations]
      exact fun i hi => absurd hi List.not_mem_nil
    · rw [sauce_operations]
      exact fun i hi => absurd hi List.not_mem_nil

/-- Salt has the value of its last line, and there is one sauce, the last one. -/
theorem parse_reads_back_dinner :
    dinner.Accepted ∧ (∀ s ∈ dinner.sheets, s.Short) ∧
      ∃ p others, parse dinner.text = .ok p ∧ HoldAll 1 dinner.sheets (p.main :: others) ∧
        p.auxiliaries.Collects (others.map fun r => (r.name, r)) ∧
        p.main.ingredients.keys = [Text.ofString "salt", Text.ofString "water"] ∧
        p.main.ingredients.get? "salt" = some ⟨.dry, some 5⟩ ∧
        p.auxiliaries.keys = [Text.ofString "sauce"] := by
  have hshort : ∀ s ∈ dinner.sheets, s.Short := by
    refine List.forall_mem_cons.mpr ⟨fun f hf => ?_, List.forall_mem_cons.mpr ⟨fun f hf => ?_,
      List.forall_mem_singleton.mpr fun f hf => ?_⟩⟩
    · cases hf
      decide +kernel
    · cases hf
    · cases hf
  obtain ⟨p, others, hparse, hholds, hcollects⟩ := parse_reads_back dinner dinner_accepted hshort
  refine ⟨dinner_accepted, hshort, p, others, hparse, hholds, hcollects, ?_, ?_, ?_⟩
  · rw [hholds.1.ingredients.keys, dinner_entries]
    decide +kernel
  · rw [hholds.1.ingredients.values, dinner_entries]
    decide +kernel
  · have hnames : (others.map fun r => (r.name, r)).map Prod.fst =
        [Text.ofString "sauce", Text.ofString "sauce"] := by
      rw [List.map_map]
      exact hholds.2.names
    rw [hcollects.keys, hnames]
    decide +kernel

/-! ## 4. Servings that are too long -/

/-- A program whose main recipe serves a number with too many digits is not read. -/
theorem parse_long_serving (b : Book) (hb : b.Accepted) {f : Footer}
    (hfooter : b.main.footer = some f) (hlong : Decimal.limit < f.number.text.length) :
    parse b.text = .error (.broken (.longNumeral f.number.text.length)) := by
  have hback : b.main.back = f.written ++ b.main.below.map (·.text) := by
    rw [Sheet.back, hfooter]
    rfl
  have hrest : b.main.back = [] →
      pageFrom (b.above.length + b.main.lines.length) (b.others.flatMap Sheet.lines) = [] := by
    intro hempty
    rw [hback] at hempty
    have hnone := (List.append_eq_nil_iff.mp (List.append_eq_nil_iff.mp hempty).1).2
    cases hnone
  obtain ⟨steps, -, hrecipe⟩ :=
    b.main.recipe_lines (endOf b.lines) (hb.sheets _ List.mem_cons_self) b.above.length hrest
  rw [hback, pageFrom_append, List.append_assoc, skipBlanks_footer, serving_footer,
    if_pos hlong] at hrecipe
  rw [← pageFrom_append, ← List.flatMap_cons, ← Book.sheets, ← b.skipBlanks_page] at hrecipe
  simp only [parse, b.lines_text, hrecipe, bind, Except.bind, Except.map]

/-- A recipe without ingredients and without a method that serves a number of 4301 digits. -/
def crowd : Book where
  above := []
  main :=
    { title := "T"
      title_begins := by decide +kernel
      title_line := by decide +kernel
      underTitle := emptyLine
      comments := none
      ingredients := []
      underIngredients := emptyLine
      cookingTime := none
      oven := none
      method := []
      footer := some ⟨[emptyLine], List.cons_ne_nil _ _,
        ⟨List.replicate 4301 (CodePoint.ofChar '1'),
        List.cons_ne_nil _ _, fun c hc => by
          rw [List.eq_of_mem_replicate hc]
          decide⟩⟩
      below := [] }
  others := []

/-- All is right about this recipe, but it is not read. -/
theorem unread_serving :
    crowd.Accepted ∧ parse crowd.text = .error (.broken (.longNumeral 4301)) := by
  have hmain : crowd.main.Accepted :=
    ⟨fun l hl => absurd hl List.not_mem_nil, fun t ht => absurd ht List.not_mem_nil,
      ⟨.done, trivial, rfl⟩,
      fun i hi => absurd hi List.not_mem_nil⟩
  have haccepted : crowd.Accepted :=
    ⟨List.forall_mem_singleton.mpr hmain, trivial,
      List.forall_mem_singleton.mpr fun callee hcallee => absurd hcallee List.not_mem_nil⟩
  have hlength : (List.replicate 4301 (CodePoint.ofChar '1')).length = 4301 := List.length_replicate
  have hparse :=
    parse_long_serving crowd haccepted rfl (Nat.lt_of_lt_of_eq (by decide) hlength.symm)
  exact ⟨haccepted, hparse.trans (by rw [hlength])⟩

end Esolang.Chef
