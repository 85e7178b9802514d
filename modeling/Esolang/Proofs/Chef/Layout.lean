/-
  File:      Esolang/Proofs/Chef/Layout.lean
  Subject:   Recipes as they are laid out on paper, and how their sections are read.

  A sheet holds a recipe line by line, with all that its author is free to choose: comments, a
  cooking time, an oven setting, and how many blank lines there are. Its parts cannot be written
  down wrongly: a blank line is blank, a statement has no period inside, and a number has digits
  only.

  * `Sheet`: a recipe on paper, and `Sheet.lines`: its lines.
  * `MethodLine.ofText`: every line that is not blank can be a line of a method, and
    `segments_glue`: the statements of such a line are found again.
  * `comments_written`, `cookingTime_written`, `oven_written`: what may be left out is skipped if it
    is there.
  * `serving_footer`: how many a recipe serves, which is read unless it has too many digits.
-/
import Esolang.Proofs.Chef.SourceMap
import Esolang.Proofs.Phrase
import Esolang.Proofs.Text

namespace Esolang.Chef

/-! ## 1. Sheets -/

/-- A blank line. -/
structure BlankLine where
  /-- Its blanks. -/
  text : Text
  blank : text.isBlank = true
  line : Text.newline ∉ text

/-- A line that is not blank. -/
structure FullLine where
  /-- Its text. -/
  text : Text
  full : text.isBlank = false
  line : Text.newline ∉ text

/-- Code points of one class in a row, at least one. -/
structure RunOf (ok : CodePoint → Bool) where
  /-- The code points. -/
  text : Text
  ne_nil : text ≠ []
  all : ∀ c ∈ text, ok c = true

/-- A paragraph of comments. It must not begin like a list of ingredients. -/
structure Comments where
  /-- The comments. -/
  lines : List FullLine
  begins : lines.head?.map (·.text.trim) ≠ some (Text.ofString "Ingredients.")
  /-- The blank line below them. -/
  under : BlankLine

/-- The lines of a paragraph of comments. -/
def Comments.written (c : Comments) : List Text := c.lines.map (·.text) ++ [c.under.text]

/-- A cooking time. -/
structure CookingTime where
  /-- How long. -/
  amount : RunOf CodePoint.isDigit
  /-- Whether it is given in hours, not in minutes. -/
  inHours : Bool
  /-- Whether the unit is in the plural. -/
  plural : Bool
  /-- The blank line below it. -/
  under : BlankLine

/-- The line of a cooking time. -/
def CookingTime.text (t : CookingTime) : Text :=
  Text.ofString "Cooking time: " ++ (t.amount.text ++ (Text.ofString " " ++
    (Text.ofString (if t.inHours then "hour" else "minute") ++
      Text.ofString (if t.plural then "s" else "")))) ++
    Text.ofString "."

/-- The lines of a cooking time. -/
def CookingTime.written (t : CookingTime) : List Text := [t.text, t.under.text]

/-- An oven setting. -/
structure Oven where
  /-- The temperature. -/
  degrees : RunOf CodePoint.isDigit
  /-- The gas mark, if there is one. -/
  mark : Option (RunOf isGasMarkChar)
  /-- The blank line below it. -/
  under : BlankLine

/-- The line of an oven setting. -/
def Oven.text (o : Oven) : Text :=
  Text.ofString "Pre-heat oven to " ++ (o.degrees.text ++ (Text.ofString " degrees Celsius" ++
    o.mark.elim [] fun m => Text.ofString " (gas mark " ++ m.text ++ Text.ofString ")")) ++
      Text.ofString "."

/-- The lines of an oven setting. -/
def Oven.written (o : Oven) : List Text := [o.text, o.under.text]

/-- Statements, each with a period behind it, and what is left at the end of their line. -/
def glue (statements : List Text) (remainder : Text) : Text :=
  statements.flatMap (· ++ Text.ofString ".") ++ remainder

/-- A line of a method. -/
structure MethodLine where
  /-- The statements that end on the line. -/
  statements : List Text
  /-- What follows the last period. -/
  remainder : Text
  periods : ∀ t ∈ remainder :: statements, CodePoint.ofChar '.' ∉ t
  full : (glue statements remainder).isBlank = false
  line : Text.newline ∉ glue statements remainder

/-- The text of a line of a method. -/
def MethodLine.text (l : MethodLine) : Text := glue l.statements l.remainder

/-- The line that says how many a recipe serves. -/
structure Footer where
  /-- The blank lines above it. -/
  above : List BlankLine
  above_ne_nil : above ≠ []
  /-- The number of dishes. -/
  number : RunOf CodePoint.isDigit

/-- The text of that line. -/
def Footer.text (f : Footer) : Text := Text.ofString "Serves " ++ f.number.text ++ Text.ofString "."

/-- The lines up to that one. -/
def Footer.written (f : Footer) : List Text := f.above.map (·.text) ++ [f.text]

/-- A recipe as it is laid out. -/
structure Sheet where
  /-- The title, without the period behind it. -/
  title : Text
  title_begins : title.head?.any CodePoint.isBlank = false
  title_line : Text.newline ∉ title
  /-- The blank line below the title. -/
  underTitle : BlankLine
  /-- The comments, if there are any. -/
  comments : Option Comments
  /-- The ingredients, one a line. -/
  ingredients : List FullLine
  /-- The blank line below the ingredients. -/
  underIngredients : BlankLine
  /-- The cooking time, if there is one. -/
  cookingTime : Option CookingTime
  /-- The oven setting, if there is one. -/
  oven : Option Oven
  /-- The method. -/
  method : List MethodLine
  /-- How many the recipe serves, if it says so. -/
  footer : Option Footer
  /-- The blank lines behind the recipe. -/
  below : List BlankLine

namespace Sheet

variable (s : Sheet)

/-- The lines up to the method. -/
def front : List Text :=
  (s.title ++ Text.ofString ".") :: s.underTitle.text :: (s.comments.elim [] Comments.written ++
    Text.ofString "Ingredients." :: (s.ingredients.map (·.text) ++ s.underIngredients.text ::
      (s.cookingTime.elim [] CookingTime.written ++
        (s.oven.elim [] Oven.written ++ [Text.ofString "Method."]))))

/-- The lines behind the method. -/
def back : List Text := s.footer.elim [] Footer.written ++ s.below.map (·.text)

/-- All lines of a recipe, and the blank lines behind it. -/
def lines : List Text := s.front ++ (s.method.map MethodLine.text ++ s.back)

/-- What the lines of the ingredients say. -/
def entries : List (Text × Ingredient) :=
  s.ingredients.filterMap fun l => (ingredientOf l.text).toOption

/-- The statements, without the blanks around them. -/
def statements : List Text := s.method.flatMap (·.statements.map Text.trim)

/-- What the statements say. -/
def operations : List Operation :=
  s.statements.filterMap fun t => (Operation.ofStatement t).toOption

theorem title_head : ∀ c, s.title.head? = some c → c.isBlank = false := by
  intro c hc
  have hbegins := s.title_begins
  rw [hc] at hbegins
  exact hbegins

end Sheet

theorem blanks_blank (blanks : List BlankLine) : ∀ t ∈ blanks.map (·.text), t.isBlank = true := by
  intro t ht
  obtain ⟨l, -, rfl⟩ := List.mem_map.mp ht
  exact l.blank

theorem fulls_full (lines : List FullLine) : ∀ t ∈ lines.map (·.text), t.isBlank = false := by
  intro t ht
  obtain ⟨l, -, rfl⟩ := List.mem_map.mp ht
  exact l.full

/-! ## 2. Statements -/

theorem glue_cons (t : Text) (rest : List Text) (remainder : Text) :
    glue (t :: rest) remainder = t ++ CodePoint.ofChar '.' :: glue rest remainder := by
  simp [glue, Text.ofString]

theorem glue_splitOn (t : Text) :
    glue (Text.splitOn (CodePoint.ofChar '.') t).dropLast
      ((Text.splitOn (CodePoint.ofChar '.') t).getLastD []) = t := by
  induction t with
  | nil => rfl
  | cons c cs ih =>
    cases hpieces : Text.splitOn (CodePoint.ofChar '.') cs with
    | nil => exact absurd hpieces (Text.splitOn_ne_nil _ _)
    | cons piece pieces =>
      rw [hpieces] at ih
      rw [Text.splitOn]
      split
      · next hc =>
        rw [hpieces, List.dropLast_cons_cons, glue_cons, List.getLastD_cons, List.getLastD_cons]
        rw [List.getLastD_cons] at ih
        rw [ih, hc, List.nil_append]
      · rw [hpieces]
        cases pieces with
        | nil => exact congrArg (c :: ·) ih
        | cons next more =>
          rw [List.dropLast_cons_cons, glue_cons] at ih ⊢
          exact congrArg (c :: ·) ih

/-- Every line that is not blank can be a line of a method. -/
def MethodLine.ofText (t : Text) (full : t.isBlank = false) (line : Text.newline ∉ t) :
    MethodLine where
  statements := (Text.splitOn (CodePoint.ofChar '.') t).dropLast
  remainder := (Text.splitOn (CodePoint.ofChar '.') t).getLastD []
  periods := by
    intro u hu
    refine Text.not_mem_of_mem_splitOn (t := t) ?_
    rcases List.mem_cons.mp hu with rfl | hu
    · cases hpieces : Text.splitOn (CodePoint.ofChar '.') t with
      | nil => exact absurd hpieces (Text.splitOn_ne_nil _ _)
      | cons piece pieces =>
        rw [List.getLastD_cons]
        exact List.getLastD_mem_cons
    · exact (List.dropLast_sublist _).subset hu
  full := by
    rw [glue_splitOn]
    exact full
  line := by
    rw [glue_splitOn]
    exact line

/-- The statements of a line from column `col` on, and where they stand. -/
def placedFrom (row col : Nat) : List Text → List (Text × Span)
  | [] => []
  | t :: rest =>
    (t.trim, .within row col (col + t.length : Nat)) :: placedFrom row (col + t.length + 1) rest

/-- The statements of a method that begins on the given line. -/
def statementsFrom (row : Nat) : List MethodLine → List (Text × Span)
  | [] => []
  | l :: rest => placedFrom row 0 l.statements ++ statementsFrom (row + 1) rest

theorem segmentsFrom_of_not_mem {row start idx : Nat} {begun t : Text}
    (h : CodePoint.ofChar '.' ∉ t) : segmentsFrom row start idx begun t = [] := by
  induction t generalizing idx begun with
  | nil => rfl
  | cons c cs ih =>
    obtain ⟨hc, hcs⟩ := not_or.mp fun hm => h (List.mem_cons.mpr hm)
    rw [segmentsFrom, if_neg (Ne.symm hc), ih hcs]

theorem segmentsFrom_append {row start idx : Nat} {begun t : Text} (h : CodePoint.ofChar '.' ∉ t)
    (rest : Text) :
    segmentsFrom row start idx begun (t ++ CodePoint.ofChar '.' :: rest) =
      (Text.trim (begun.reverse ++ t), .within row start (idx + t.length : Nat)) ::
        segmentsFrom row (idx + t.length + 1) (idx + t.length + 1) [] rest := by
  induction t generalizing idx begun with
  | nil =>
    rw [List.nil_append, segmentsFrom, if_pos rfl, List.append_nil]
    rfl
  | cons c cs ih =>
    obtain ⟨hc, hcs⟩ := not_or.mp fun hm => h (List.mem_cons.mpr hm)
    have hlength : idx + 1 + cs.length = idx + (c :: cs).length := by
      rw [List.length_cons]
      omega
    rw [List.cons_append, segmentsFrom, if_neg (Ne.symm hc), ih hcs, hlength, List.reverse_cons,
      List.append_assoc, List.singleton_append]

/-- **The statements of a line are found again**, each at its place. -/
theorem segments_glue (row : Nat) {statements : List Text} {remainder : Text}
    (h : ∀ t ∈ remainder :: statements, CodePoint.ofChar '.' ∉ t) :
    segments row (glue statements remainder) = placedFrom row 0 statements := by
  obtain ⟨hremainder, hstatements⟩ := List.forall_mem_cons.mp h
  -- whatever column the rest of the line begins at
  suffices hfrom : ∀ col, segmentsFrom row col col [] (glue statements remainder) =
      placedFrom row col statements from
    hfrom 0
  clear h
  induction statements with
  | nil => exact fun col => segmentsFrom_of_not_mem hremainder
  | cons t rest ih =>
    obtain ⟨ht, hrest⟩ := List.forall_mem_cons.mp hstatements
    intro col
    rw [glue_cons, segmentsFrom_append ht, ih hrest]
    rfl

theorem map_fst_placedFrom (row col : Nat) (statements : List Text) :
    (placedFrom row col statements).map Prod.fst = statements.map Text.trim := by
  induction statements generalizing col with
  | nil => rfl
  | cons t rest ih => exact congrArg (t.trim :: ·) (ih _)

theorem map_fst_statementsFrom (row : Nat) (method : List MethodLine) :
    (statementsFrom row method).map Prod.fst = method.flatMap (·.statements.map Text.trim) := by
  induction method generalizing row with
  | nil => rfl
  | cons l rest ih =>
    rw [statementsFrom, List.map_append, map_fst_placedFrom, ih, List.flatMap_cons]

/-! ## 3. Pages -/

/-- The page of lines of which the first has the given number. -/
def pageFrom (row : Nat) : List Text → Page
  | [] => []
  | t :: rest => ⟨row, t⟩ :: pageFrom (row + 1) rest

theorem pageFrom_append (row : Nat) (first second : List Text) :
    pageFrom row (first ++ second) =
      pageFrom row first ++ pageFrom (row + first.length) second := by
  induction first generalizing row with
  | nil => rfl
  | cons t rest ih =>
    have hlength : row + 1 + rest.length = row + (t :: rest).length := by
      rw [List.length_cons]
      omega
    rw [List.cons_append, pageFrom, ih, hlength]
    rfl

theorem pageOf_eq (lines : List Text) : pageOf lines = pageFrom 0 lines := by
  suffices hfrom : ∀ row, (lines.zipIdx row).map (fun e => (⟨e.2, e.1⟩ : Line)) =
      pageFrom row lines from hfrom 0
  induction lines with
  | nil => exact fun row => rfl
  | cons t rest ih =>
    intro row
    rw [List.zipIdx_cons, List.map_cons, ih]
    rfl

theorem mem_pageFrom {row : Nat} {lines : List Text} {l : Line} (h : l ∈ pageFrom row lines) :
    l.text ∈ lines := by
  induction lines generalizing row with
  | nil => cases h
  | cons t rest ih =>
    rcases List.mem_cons.mp h with rfl | h
    · exact List.mem_cons_self
    · exact List.mem_cons_of_mem _ (ih h)

theorem skipBlanks_blanks {row : Nat} {blanks : List Text} (h : ∀ t ∈ blanks, t.isBlank = true)
    (rest : Page) : skipBlanks (pageFrom row blanks ++ rest) = skipBlanks rest :=
  List.dropWhile_append_of_pos fun l hl => h l.text (mem_pageFrom hl)

/-- A paragraph ends where a blank line or the end of the page follows. -/
theorem paragraph_eq {row : Nat} {lines : List Text} (h : ∀ t ∈ lines, t.isBlank = false)
    {rest : Page} (hrest : ∀ l, rest.head? = some l → l.isBlank = true) :
    paragraph (pageFrom row lines ++ rest) = pageFrom row lines ∧
      afterParagraph (pageFrom row lines ++ rest) = rest := by
  have hfull : ∀ l ∈ pageFrom row lines, (!l.isBlank) = true := by
    intro l hl
    rw [Line.isBlank, h l.text (mem_pageFrom hl)]
    rfl
  refine List.cut_append hfull fun l hl => ?_
  rw [hrest l hl]
  rfl

/-! ## 4. Sections -/

section Sections

variable (ending : Span) (row : Nat)

theorem title_sentence {t : Text} (h : ∀ c, t.head? = some c → c.isBlank = false) (rest : Page) :
    title ending (⟨row, t ++ Text.ofString "."⟩ :: rest) = .ok (t, rest) := by
  have hends : Text.endsWith (t ++ Text.ofString ".") (Text.ofString ".") = true :=
    List.isSuffixOf_iff_suffix.mpr (List.suffix_append t _)
  have hfull : List.isEmpty (t ++ Text.ofString ".") = false := by
    cases t with
    | nil => rfl
    | cons c cs => rfl
  have hdrop : (t ++ Text.ofString ".").dropLast = t := List.dropLast_concat
  simp only [title, Text.trim_sentence h, hends, hfull, hdrop, if_true]
  rfl

theorem blankLine_blank (b : BlankLine) (rest : Page) :
    blankLine ending (⟨row, b.text⟩ :: rest) = .ok rest := by
  have hblank : Line.isBlank ⟨row, b.text⟩ = true := b.blank
  rw [blankLine, if_pos hblank]

theorem header_line {t : Text} (h : t.trim = t) (message : Text) (rest : Page) :
    header ending t message (⟨row, t⟩ :: rest) = .ok rest := by
  rw [header, if_pos h]

/-- Comments, if there are any, are skipped. -/
theorem comments_written (c : Option Comments) (place : Nat) (rest : Page) :
    let header : Line := ⟨place, Text.ofString "Ingredients."⟩
    comments ending (pageFrom row (c.elim [] Comments.written) ++ header :: rest) =
      .ok (header :: rest) := by
  intro header
  cases c with
  | none =>
    have htrim : Text.trim (Text.ofString "Ingredients.") = Text.ofString "Ingredients." := by
      decide +kernel
    show comments ending (header :: rest) = _
    rw [comments, if_pos htrim]
  | some c =>
    have hpage : pageFrom row c.written ++ header :: rest =
        pageFrom row (c.lines.map (·.text)) ++ ⟨row + c.lines.length, c.under.text⟩ :: header ::
          rest := by
      rw [Comments.written, pageFrom_append, List.append_assoc, List.length_map]
      rfl
    have hbehind : afterParagraph (pageFrom row c.written ++ header :: rest) =
        ⟨row + c.lines.length, c.under.text⟩ :: header :: rest := by
      rw [hpage]
      refine (paragraph_eq (fulls_full c.lines) fun l hl => ?_).2
      cases hl
      exact c.under.blank
    have hfirst : ∀ l, (pageFrom row c.written ++ header :: rest).head? = some l →
        l.text.trim ≠ Text.ofString "Ingredients." := by
      intro l hl
      rw [hpage] at hl
      cases hlist : c.lines with
      | nil =>
        rw [hlist] at hl
        cases hl
        have hblank := List.isEmpty_iff.mp c.under.blank
        rw [hblank]
        decide
      | cons first more =>
        rw [hlist] at hl
        cases hl
        intro hingredients
        refine c.begins ?_
        rw [hlist]
        exact congrArg some hingredients
    show comments ending (pageFrom row c.written ++ header :: rest) = _
    cases hcases : pageFrom row c.written ++ header :: rest with
    | nil => exact absurd hcases (List.append_ne_nil_of_right_ne_nil _ (List.cons_ne_nil _ _))
    | cons l more =>
      rw [hcases] at hfirst hbehind
      rw [comments, if_neg (hfirst l rfl), hbehind, blankLine_blank]

theorem ingredientsOn_eq {lines : List Text} {entries : List (Text × Ingredient)}
    (h : lines.map ingredientOf = entries.map .ok) (box : Ingredients) :
    ingredientsOn box (pageFrom row lines) =
      .ok (entries.foldl (fun t e => t.put e.1 e.2) box) := by
  induction lines generalizing row box entries with
  | nil =>
    obtain rfl : entries = [] := List.map_eq_nil_iff.mp h.symm
    rfl
  | cons t rest ih =>
    obtain ⟨e, more, rfl, he, hmore⟩ := List.map_eq_cons_iff.mp h.symm
    have htrim : ingredientOf t.trim = .ok e := by
      rw [ingredientOf, Text.words_trim]
      exact he.symm
    rw [pageFrom, ingredientsOn]
    simp only [htrim]
    exact ih (row + 1) hmore.symm _

end Sections

/-! ## 5. Times, ovens and servings -/

theorem prefers_period : (Phrase.word ".").Prefers (Text.ofString ".") () [] := ⟨[], rfl⟩

/-- What follows digits on a line begins with something else. -/
theorem head_append {ok : CodePoint → Bool} {c : CodePoint} (h : ok c = false) (cs rest : Text) :
    ∀ c', ((c :: cs) ++ rest).head? = some c' → ok c' = false := by
  intro c' hc'
  cases hc'
  exact h

theorem CookingTime.trim_text (t : CookingTime) : t.text.trim = t.text :=
  Text.trim_sentence (head_append (by decide) _ _)

theorem Oven.trim_text (o : Oven) : o.text.trim = o.text :=
  Text.trim_sentence (head_append (by decide) _ _)

theorem Footer.trim_text (f : Footer) : f.text.trim = f.text :=
  Text.trim_sentence (head_append (by decide) _ _)

theorem CookingTime.reads (t : CookingTime) : cookingTimePhrase.read? t.text = some () := by
  have htext : t.text = Text.ofString "Cooking time: " ++ (t.amount.text ++ (Text.ofString " " ++
      (Text.ofString (if t.inHours then "hour" else "minute") ++
        (Text.ofString (if t.plural then "s" else "") ++ Text.ofString ".")))) := by
    simp only [CookingTime.text, List.append_assoc]
  have hunit : ∀ rest, (Phrase.oneOf [("hour", ()), ("minute", ())]).Prefers
      (Text.ofString (if t.inHours then "hour" else "minute") ++ rest) () rest := by
    intro rest
    cases t.inHours with
    | true => exact ⟨[], rfl⟩
    | false => exact ⟨[], rfl⟩
  have hplural : ∃ o, (Phrase.maybe (Phrase.word "s")).Prefers
      (Text.ofString (if t.plural then "s" else "") ++ Text.ofString ".") o
        (Text.ofString ".") := by
    cases t.plural with
    | true => exact ⟨some (), _, rfl⟩
    | false => exact ⟨none, _, rfl⟩
  obtain ⟨o, hplural⟩ := hplural
  rw [htext]
  exact (((Phrase.prefers_word _ _).bind <|
    (Phrase.prefers_longest t.amount.ne_nil t.amount.all (head_append (by decide) _ _)).bind <|
    (Phrase.prefers_word _ _).bind <| (hunit _).bind <| hplural.bind <|
      prefers_period.bind Phrase.prefers_finish)).read?

theorem Oven.reads (o : Oven) : ovenPhrase.read? o.text = some () := by
  have htext : o.text =
      Text.ofString "Pre-heat oven to " ++ (o.degrees.text ++ (Text.ofString " degrees Celsius" ++
      ((o.mark.elim [] fun m => Text.ofString " (gas mark " ++ m.text ++ Text.ofString ")") ++
        Text.ofString "."))) := by
    simp only [Oven.text, List.append_assoc]
  have hmark : ∃ m, (Phrase.maybe do
        Phrase.word " (gas mark "
        let _ ← Phrase.longest isGasMarkChar
        Phrase.word ")").Prefers
      ((o.mark.elim [] fun m => Text.ofString " (gas mark " ++ m.text ++ Text.ofString ")") ++
        Text.ofString ".") m
      (Text.ofString ".") := by
    cases o.mark with
    | none => exact ⟨none, _, rfl⟩
    | some m =>
      refine ⟨some (), ?_⟩
      show Phrase.Prefers _ (Text.ofString " (gas mark " ++ m.text ++ Text.ofString ")" ++
        Text.ofString ".") _ _
      rw [List.append_assoc, List.append_assoc]
      exact Phrase.Prefers.maybe ((Phrase.prefers_word _ _).bind <|
        (Phrase.prefers_longest m.ne_nil m.all (head_append (by decide) _ _)).bind
          (Phrase.prefers_word _ _))
  obtain ⟨m, hmark⟩ := hmark
  rw [htext]
  exact ((Phrase.prefers_word _ _).bind <|
    (Phrase.prefers_longest o.degrees.ne_nil o.degrees.all (head_append (by decide) _ _)).bind <|
    (Phrase.prefers_word _ _).bind <| hmark.bind <| prefers_period.bind Phrase.prefers_finish).read?

theorem Footer.reads (f : Footer) : servesPhrase.read? f.text = some f.number.text := by
  have hend : (do Phrase.finish; pure f.number.text : Phrase Text).Prefers [] f.number.text [] :=
    ⟨[], rfl⟩
  rw [Footer.text, List.append_assoc]
  exact ((Phrase.prefers_word _ _).bind <|
    (Phrase.prefers_longest f.number.ne_nil f.number.all
      (head_append (c := CodePoint.ofChar '.') (by decide) [] [])).bind <|
    prefers_period.bind hend).read?

section Remarks

variable (ending : Span) (row : Nat) {words message : Text} {p : Phrase Unit}

theorem remark_absent {page : Page} (h : nextStartsWith page words = false) :
    remark ending words p message page = .ok page := by
  rw [remark, h]
  rfl

theorem remark_written {t : Text} (htrim : t.trim = t) (hstarts : t.startsWith words = true)
    (hread : p.read? t = some ()) (b : BlankLine) (rest : Page) :
    remark ending words p message (pageFrom row [t, b.text] ++ rest) = .ok rest := by
  have hnext : nextStartsWith (pageFrom row [t, b.text] ++ rest) words = true := by
    show t.trim.startsWith words = true
    rw [htrim]
    exact hstarts
  have hfitting : fitting p message (pageFrom row [t, b.text] ++ rest) =
      .ok ((), ⟨row + 1, b.text⟩ :: rest) := by
    show fitting p message (⟨row, t⟩ :: ⟨row + 1, b.text⟩ :: rest) = _
    simp only [fitting, htrim, hread]
  rw [remark, if_pos hnext, hfitting]
  exact blankLine_blank ending (row + 1) b rest

theorem cookingTime_written (c : Option CookingTime) {page : Page}
    (h : nextStartsWith page (Text.ofString "Cooking time: ") = false) :
    remark ending (Text.ofString "Cooking time: ") cookingTimePhrase message
      (pageFrom row (c.elim [] CookingTime.written) ++ page) = .ok page := by
  cases c with
  | none => exact remark_absent ending h
  | some c =>
    have hstarts : c.text.startsWith (Text.ofString "Cooking time: ") = true := by
      rw [CookingTime.text, List.append_assoc]
      exact List.isPrefixOf_iff_prefix.mpr (List.prefix_append _ _)
    exact remark_written ending row c.trim_text hstarts c.reads c.under page

theorem oven_written (o : Option Oven) {page : Page}
    (h : nextStartsWith page (Text.ofString "Pre-heat oven ") = false) :
    remark ending (Text.ofString "Pre-heat oven ") ovenPhrase message
      (pageFrom row (o.elim [] Oven.written) ++ page) = .ok page := by
  cases o with
  | none => exact remark_absent ending h
  | some o =>
    have hstarts : o.text.startsWith (Text.ofString "Pre-heat oven ") = true := by
      rw [Oven.text, List.append_assoc]
      rfl
    exact remark_written ending row o.trim_text hstarts o.reads o.under page

end Remarks

/-- Behind the blank lines above it stands the line that says how many a recipe serves. -/
theorem skipBlanks_footer (row : Nat) (f : Footer) (rest : Page) :
    skipBlanks (pageFrom row f.written ++ rest) = ⟨row + f.above.length, f.text⟩ :: rest := by
  have hfull : f.text.isBlank = false := Text.isBlank_sentence (head_append (by decide) _ _)
  rw [Footer.written, pageFrom_append, List.append_assoc, skipBlanks_blanks (blanks_blank f.above),
    List.length_map]
  show skipBlanks (⟨row + f.above.length, f.text⟩ :: rest) = _
  rw [skipBlanks, List.dropWhile_cons_of_neg]
  rw [Line.isBlank, hfull]
  decide

theorem serving_footer (row : Nat) (f : Footer) (rest : Page) :
    serving (⟨row, f.text⟩ :: rest) =
      if Decimal.limit < f.number.text.length then
        .error (.broken (.longNumeral f.number.text.length))
      else .ok (some ⟨row, Decimal.value (digitValues f.number.text)⟩, rest) := by
  have hnext : nextStartsWith (⟨row, f.text⟩ :: rest) (Text.ofString "Serves ") = true := by
    show f.text.trim.startsWith (Text.ofString "Serves ") = true
    rw [f.trim_text, Footer.text, List.append_assoc]
    exact List.isPrefixOf_iff_prefix.mpr (List.prefix_append _ _)
  have hfitting : fitting servesPhrase "Malformed serves statement" (⟨row, f.text⟩ :: rest) =
      .ok (f.number.text, rest) := by
    simp only [fitting, f.trim_text, f.reads]
  have hlength : (digitValues f.number.text).length = f.number.text.length := List.length_map ..
  rw [serving, if_pos hnext, hfitting]
  by_cases hlong : Decimal.limit < f.number.text.length
  · have hnumber : number f.number.text = .error (.broken (.longNumeral f.number.text.length)) := by
      simp only [number, Decimal.read, hlength, hlong, if_true]
    rw [if_pos hlong]
    simp only [bind, Except.bind, hnumber]
  · have hnumber : number f.number.text = .ok (Decimal.value (digitValues f.number.text)) := by
      simp only [number, Decimal.read, hlength, hlong, if_false]
    rw [if_neg hlong]
    simp only [bind, Except.bind, hnumber]
    rfl

/-! ## 6. Lines -/

theorem RunOf.not_mem {ok : CodePoint → Bool} {c : CodePoint} (h : ok c = false) (r : RunOf ok) :
    c ∉ r.text := by
  intro hc
  rw [r.all c hc] at h
  cases h

theorem CookingTime.line (t : CookingTime) : Text.newline ∉ t.text := by
  have hdigits : Text.newline ∉ t.amount.text := t.amount.not_mem (by decide)
  unfold CookingTime.text
  cases t.inHours <;> cases t.plural <;> simp only [List.mem_append, hdigits, false_or, not_or] <;>
    decide

theorem Oven.line (o : Oven) : Text.newline ∉ o.text := by
  have hdigits : Text.newline ∉ o.degrees.text := o.degrees.not_mem (by decide)
  unfold Oven.text
  cases o.mark with
  | none =>
    simp only [List.mem_append, hdigits, false_or, not_or, Option.elim]
    decide
  | some m =>
    have hmark : Text.newline ∉ m.text := m.not_mem (by decide)
    simp only [List.mem_append, hdigits, hmark, false_or, or_false, not_or, Option.elim]
    decide

theorem Footer.line (f : Footer) : Text.newline ∉ f.text := by
  have hdigits : Text.newline ∉ f.number.text := f.number.not_mem (by decide)
  unfold Footer.text
  simp only [List.mem_append, hdigits, or_false, not_or]
  decide

theorem blanks_line (blanks : List BlankLine) : ∀ t ∈ blanks.map (·.text), Text.newline ∉ t := by
  intro t ht
  obtain ⟨l, -, rfl⟩ := List.mem_map.mp ht
  exact l.line

theorem fulls_line (lines : List FullLine) : ∀ t ∈ lines.map (·.text), Text.newline ∉ t := by
  intro t ht
  obtain ⟨l, -, rfl⟩ := List.mem_map.mp ht
  exact l.line

theorem elim_line {α : Type} {written : α → List Text} (h : ∀ a, ∀ t ∈ written a, Text.newline ∉ t)
    (o : Option α) : ∀ t ∈ o.elim [] written, Text.newline ∉ t := by
  cases o with
  | none => exact fun t ht => absurd ht List.not_mem_nil
  | some a => exact h a

theorem pair_line {t : Text} (ht : Text.newline ∉ t) (b : BlankLine) :
    ∀ u ∈ [t, b.text], Text.newline ∉ u :=
  List.forall_mem_cons.mpr ⟨ht, List.forall_mem_singleton.mpr b.line⟩

/-- No line of a sheet has a newline inside. -/
theorem Sheet.lines_line (s : Sheet) : ∀ t ∈ s.lines, Text.newline ∉ t := by
  have htitle : Text.newline ∉ s.title ++ Text.ofString "." := by
    simp only [List.mem_append, s.title_line, false_or]
    decide
  have hcomments : ∀ t ∈ s.comments.elim [] Comments.written, Text.newline ∉ t :=
    elim_line (fun (c : Comments) => List.forall_mem_append.mpr
      ⟨fulls_line c.lines, List.forall_mem_singleton.mpr c.under.line⟩) _
  have htime : ∀ t ∈ s.cookingTime.elim [] CookingTime.written, Text.newline ∉ t :=
    elim_line (fun (c : CookingTime) => pair_line c.line c.under) _
  have hoven : ∀ t ∈ s.oven.elim [] Oven.written, Text.newline ∉ t :=
    elim_line (fun (o : Oven) => pair_line o.line o.under) _
  have hfooter : ∀ t ∈ s.footer.elim [] Footer.written, Text.newline ∉ t :=
    elim_line (fun (f : Footer) => List.forall_mem_append.mpr
      ⟨blanks_line f.above, List.forall_mem_singleton.mpr f.line⟩) _
  have hmethod : ∀ t ∈ s.method.map MethodLine.text, Text.newline ∉ t := by
    intro t ht
    obtain ⟨l, -, rfl⟩ := List.mem_map.mp ht
    exact l.line
  unfold Sheet.lines Sheet.front Sheet.back
  simp only [List.forall_mem_append, List.forall_mem_cons]
  exact ⟨⟨htitle, s.underTitle.line, hcomments, by decide, fulls_line _, s.underIngredients.line,
    htime, hoven,
    by decide, fun t ht => absurd ht List.not_mem_nil⟩, hmethod, hfooter, blanks_line _⟩

end Esolang.Chef
