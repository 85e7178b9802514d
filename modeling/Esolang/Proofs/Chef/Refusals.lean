/-
  File:      Esolang/Proofs/Chef/Refusals.lean
  Subject:   Why a text is no Chef program, and where this is said to be.

  A reader that refuses a text points at a line of it, and if it names a column, at a column of that
  line. The only other way to refuse is a row of digits that is too long to be read. Sections are
  read from a page, of which every line is one of the source with its number, so it is enough to
  follow the page.

  * `Span.PointsInto`: a place of a document.
  * `Refusal.Fair`: a refusal that points into a document or is about a long row of digits in it.
  * `Reads`: a reader that gives something with a property or refuses fairly; one rule for each way
    to go on.
  * `ofStatement_measured`, `ingredientOf_measured`: a line breaks down only over a row of digits in
    it.
  * `method_reads`, `recipe_reads`, `parse_reads`: methods, recipes and whole programs.
-/
import Esolang.Proofs.Chef.Pantry
import Esolang.Proofs.Chef.SourceMap

namespace Esolang

/-! ## 1. Places and rows of digits -/

/-- A place of a document: its line is there, and if it begins at a column, the column is one of the
    line; the first column is always there. -/
def Span.PointsInto (s : Span) (doc : List Text) : Prop :=
  ∃ (row : Nat) (line : Text), s.startLine = row ∧ doc[row]? = some line ∧
    ∀ col, s.startCol = some col → 0 ≤ col ∧ col ≤ max ((line.length : Int) - 1) 0

theorem pointsInto_line {doc : List Text} {row : Nat} {line : Text} (h : doc[row]? = some line) :
    (Span.line row).PointsInto doc :=
  ⟨row, line, rfl, h, fun col hcol => by cases hcol⟩

theorem pointsInto_of_lt {doc : List Text} {row first : Nat} {line : Text}
    (h : doc[row]? = some line) (hfirst : first < line.length) (endLine endCol : Option Int) :
    (Span.mk row (some first) endLine endCol).PointsInto doc := by
  refine ⟨row, line, rfl, h, fun col hcol => ?_⟩
  cases hcol
  omega

/-- A row of `n` decimal digits stands in a text, and it is too long to be read. -/
def HasLongRun (t : Text) (n : Nat) : Prop :=
  ∃ run : Text, run <:+: t ∧ (∀ c ∈ run, c.isDigit = true) ∧ run.length = n ∧ Decimal.limit < n

theorem HasLongRun.of_infix {t whole : Text} {n : Nat} (h : HasLongRun t n) (ht : t <:+: whole) :
    HasLongRun whole n := by
  obtain ⟨run, hrun, hdigits⟩ := h
  exact ⟨run, hrun.trans ht, hdigits⟩

/-! ## 2. Refusals -/

/-- A refusal points into a document, or says how long a row of digits is that stands in it and
    cannot be read. -/
def Refusal.Fair (doc : List Text) : Refusal → Prop
  | .rejected r => r.span.PointsInto doc
  | .broken b => ∃ line ∈ doc, ∃ n, HasLongRun line n ∧ b = .longNumeral n

/-- A reader gives something with a property, or refuses fairly. -/
def Reads {α : Type} (doc : List Text) (x : Except Refusal α) (P : α → Prop) : Prop :=
  match x with
  | .ok a => P a
  | .error e => e.Fair doc

namespace Reads

variable {α β : Type} {doc : List Text} {x : Except Refusal α} {P : α → Prop} {Q : β → Prop}

theorem ok {a : α} (h : P a) : Reads doc (.ok a) P := h

theorem error {e : Refusal} (h : e.Fair doc) : Reads doc (.error e : Except Refusal α) P := h

theorem bind {f : α → Except Refusal β} (hx : Reads doc x P) (hf : ∀ a, P a → Reads doc (f a) Q) :
    Reads doc (x >>= f) Q := by
  cases x with
  | ok a => exact hf a hx
  | error e => exact hx

end Reads

namespace Chef

/-! ## 3. Numbers in lines -/

/-- A line breaks down only over a row of digits in it. -/
def Measured {α : Type} (line : Text) (e : Except LineError α) : Prop :=
  ∀ b, e = .error (.broken b) → ∃ n, HasLongRun line n ∧ b = .longNumeral n

namespace Measured

variable {α β : Type} {line : Text}

theorem ok (a : α) : Measured line (.ok a) := by
  intro b h
  cases h

theorem wrong (why : SyntaxError) : Measured line (.error (.wrong why) : Except LineError α) := by
  intro b h
  cases h

theorem map {e : Except LineError α} {f : α → β} (he : Measured line e) :
    Measured line (e.map f) := by
  intro b h
  cases e with
  | ok a => cases h
  | error err =>
    cases h
    exact he b rfl

theorem bind {e : Except LineError α} {f : α → Except LineError β} (he : Measured line e)
    (hf : ∀ a, Measured line (f a)) : Measured line (e >>= f) := by
  intro b h
  cases e with
  | ok a => exact hf a b h
  | error err =>
    cases h
    exact he b rfl

theorem ite {c : Prop} [Decidable c] {a b : Except LineError α} (ha : Measured line a)
    (hb : Measured line b) : Measured line (if c then a else b) := by
  split
  · exact ha
  · exact hb

end Measured

theorem vessel_measured {line : Text} (n : Option Text) : Measured line (vessel n) := by
  unfold vessel
  split
  · exact .ok _
  · split
    · exact .ok _
    · exact .wrong _

theorem number_measured {line ds : Text} (hds : ds <:+: line)
    (hdigits : ∀ c ∈ ds, c.isDigit = true) : Measured line (number ds) := by
  intro b h
  unfold number Decimal.read at h
  have hlength : (digitValues ds).length = ds.length := List.length_map _
  rw [hlength] at h
  by_cases hlong : Decimal.limit < ds.length
  · rw [if_pos hlong] at h
    cases h
    exact ⟨ds.length, ⟨ds, hds, hdigits, rfl, hlong⟩, rfl⟩
  · rw [if_neg hlong] at h
    cases h

open Phrase

section Statements

variable (line : Text)

theorem fits_measured {p : Phrase (Except LineError Operation)}
    (hp : ∀ e, p.read? line = some e → Measured line e) : Measured line (fits p line) := by
  unfold fits
  cases h : p.read? line with
  | none => exact .wrong _
  | some e => exact hp e h

/-- The phrases without a number of their own: a bowl that cannot be read is a mistake, and breaks
    nothing. -/
theorem fits_vessels {p : Phrase (Except LineError Operation)} (hp : p.Gives (Measured line)) :
    Measured line (fits p line) :=
  fits_measured line fun _ h => hp.read? h

theorem arithmeticOf_measured (how : Arithmetic) (i : Text)
    (bowl : Option (Preposition × Option Text)) : Measured line (arithmeticOf how i bowl) := by
  cases bowl with
  | none => exact .ok _
  | some pn => exact .ite (vessel_measured _).map (.wrong _)

theorem ordinal_finds : ordinal.Finds line fun _ => True := by
  have hinner : (do
      word " "
      let ds ← digits
      oneOf [("nd", ()), ("rd", ()), ("th", ()), ("st", ())]
      pure ds : Phrase Text).Finds line fun _ => True :=
    .bind (word_finds _) fun _ _ => .bind (longest_finds _) fun ds _ => .bind (oneOf_finds _)
      fun _ _ => .pure trivial
  intro t ht way hw
  exact ⟨trivial, (hinner.maybe t ht way hw).2⟩

theorem stirPhrase_finds : stirPhrase.Finds line (Measured line) := by
  have hbowl : (do word " the"; let n ← ordinal; word " mixing bowl"; pure n :
      Phrase (Option Text)).Finds line fun _ => True :=
    .bind (word_finds _) fun _ _ => .bind (ordinal_finds line) fun _ _ => .bind (word_finds _)
      fun _ _ => .pure trivial
  refine .bind (word_finds _) fun _ _ => .bind hbowl.maybe fun n _ => .bind (word_finds _)
    fun _ _ => ?_
  refine .bind (longest_finds _) fun ds hds => .bind (word_finds _) fun _ _ => ?_
  refine .bind (word_finds _).maybe fun _ _ => .bind finish_finds fun _ _ => .pure ?_
  exact .bind (vessel_measured _) fun _ => .bind (number_measured hds.1 hds.2) fun _ => .ok _

theorem refrigeratePhrase_finds : refrigeratePhrase.Finds line (Measured line) := by
  have hhours : (do word " for "; let ds ← digits; word " hour"; let _ ← maybe (word "s"); pure ds :
      Phrase Text).Finds line fun ds => ds <:+: line ∧ ∀ c ∈ ds, c.isDigit = true :=
    .bind (word_finds _) fun _ _ => .bind (longest_finds _) fun ds hds => .bind (word_finds _)
      fun _ _ => .bind (word_finds _).maybe fun _ _ => .pure hds
  refine .bind (word_finds _) fun _ _ => .bind hhours.maybe fun n hn =>
    .bind finish_finds fun _ _ => .pure ?_
  cases n with
  | none => exact .ok _
  | some ds =>
    obtain ⟨hds, hdigits⟩ := hn ds rfl
    exact (Measured.bind (number_measured hds hdigits) fun _ => .ok _).map

/-- **A statement breaks down only over a row of digits in it** that is too long to be read. -/
theorem ofStatement_measured : Measured line (Operation.ofStatement line) := by
  unfold Operation.ofStatement
  -- in the order in which the phrases are tried
  refine .ite (fits_vessels line ?take) <| .ite (fits_vessels line ?put) <|
    .ite (fits_vessels line ?fold) <|
    .ite (fits_vessels line ?addDry) <| .ite (fits_vessels line ?arithmetic) <|
    .ite (fits_vessels line ?liquefyBowl) <| .ite (fits_vessels line ?liquefy) <|
    .ite (fits_measured line fun _ h => (stirPhrase_finds line).read? h) <|
    .ite (fits_vessels line ?stirIngredient) <| .ite (fits_vessels line ?mix) <|
    .ite (fits_vessels line ?clean) <| .ite (fits_vessels line ?pour) <| .ite (.ok _) <|
    .ite (fits_vessels line ?serveWith) <|
    .ite (fits_measured line fun _ h => (refrigeratePhrase_finds line).read? h) <|
    .ite (fits_vessels line ?loopEnd) (fits_vessels line ?loopStart)
  case take | liquefy | serveWith | loopEnd | loopStart =>
    refine .skip fun _ => ?_
    repeat with_reducible refine .skip fun _ => ?_
    exact .pure (.ok _)
  case put | fold | addDry | liquefyBowl | stirIngredient | mix | clean =>
    refine .skip fun _ => ?_
    repeat with_reducible refine .skip fun _ => ?_
    exact .pure (vessel_measured _).map
  case arithmetic =>
    refine .skip fun how => .skip fun _ => .skip fun i => .skip fun bowl => .skip fun _ => .pure ?_
    exact arithmeticOf_measured line how i bowl
  case pour =>
    refine .skip fun _ => ?_
    repeat with_reducible refine .skip fun _ => ?_
    exact .pure (.bind (vessel_measured _) fun _ => .bind (vessel_measured _) fun _ => .ok _)

end Statements

theorem amount?_infix {w ds : Text} {negative : Bool} (h : amount? w = some (negative, ds)) :
    ds <:+: w ∧ ∀ c ∈ ds, c.isDigit = true := by
  obtain ⟨a, rfl, rfl⟩ := exists_amount h
  exact ⟨(List.suffix_append _ _).isInfix, a.decimal⟩

theorem takeAmount_measured {line : Text} {ws : List Text} (h : ∀ w ∈ ws, w <:+: line) :
    Measured line (takeAmount ws) := by
  cases ws with
  | nil => exact .ok _
  | cons w rest =>
    rw [takeAmount]
    split
    · next negative ds hamount =>
      obtain ⟨hds, hdigits⟩ := amount?_infix hamount
      have hnumber : Measured line (amount negative ds) :=
        (Measured.bind (number_measured (hds.trans (h w List.mem_cons_self)) hdigits) fun _ =>
          .ok _).map
      exact hnumber.map
    · exact .ok _

theorem takeMeasure_measured (line : Text) (ws : List Text) : Measured line (takeMeasure ws) := by
  cases ws with
  | nil => exact .ok _
  | cons w rest =>
    simp only [takeMeasure]
    split
    · split
      · exact .wrong _
      · split
        · exact .ok _
        · exact .wrong _
    · split
      · exact .ok _
      · exact .ok _

/-- **An ingredient breaks down only over a row of digits in its line** that is too long to be
    read. -/
theorem ingredientOf_measured (line : Text) : Measured line (ingredientOf line) := by
  have hamount : Measured line (takeAmount line.words) :=
    takeAmount_measured (Text.spaced_words line).isInfix
  exact .bind hamount fun r => .bind (takeMeasure_measured line r.2) fun _ =>
    .ite (.wrong _) (.ok _)

/-! ## 4. Methods -/

/-- A statement begins before the period that ends it. -/
theorem segmentsFrom_lt {row start idx length : Nat} {begun rest : Text} {statement : Text × Span}
    (hlength : idx + rest.length = length) (hle : start ≤ idx)
    (h : statement ∈ segmentsFrom row start idx begun rest) :
    ∃ first past : Nat, statement.2 = .within row first past ∧ first < length := by
  induction rest generalizing start idx begun with
  | nil => cases h
  | cons c cs ih =>
    rw [List.length_cons] at hlength
    rw [segmentsFrom] at h
    split at h
    · rcases List.mem_cons.mp h with rfl | h
      · exact ⟨start, idx, rfl, by omega⟩
      · exact ih (by omega) (Nat.le_refl _) h
    · exact ih (by omega) (Nat.le_succ_of_le hle) h

section Pages

variable {doc : List Text}

/-- A statement of a line of the source stands in the source, and so do its digits. -/
structure Occurs (doc : List Text) (statement : Text × Span) : Prop where
  place : statement.2.PointsInto doc
  text : ∃ line ∈ doc, statement.1 <:+: line

theorem segments_stand {l : Line} (hl : l ∈ pageOf doc) {statement : Text × Span}
    (h : statement ∈ segments l.row l.text) : Occurs doc statement := by
  have hline : doc[l.row]? = some l.text := line_of_mem_pageOf hl
  obtain ⟨first, past, hspan, hlt⟩ := segmentsFrom_lt (Nat.zero_add _) (Nat.le_refl 0) h
  obtain ⟨first', past', -, htext⟩ := segments_span h
  refine ⟨?_, l.text, List.mem_of_getElem? hline, ?_⟩
  · rw [hspan]
    exact pointsInto_of_lt hline hlt _ _
  · rw [htext]
    exact (Text.trim_infix _).trans
      ((List.drop_suffix _ _).isInfix.trans (List.take_prefix _ _).isInfix)

theorem Draft.addStatement_reads (d : Draft) {statement : Text × Span} (h : Occurs doc statement) :
    Reads doc (d.addStatement statement) fun _ => True := by
  unfold Draft.addStatement
  split
  · exact .error h.place
  · next b hb =>
    obtain ⟨line, hline, hinfix⟩ := h.text
    obtain ⟨n, hrun, hn⟩ := ofStatement_measured statement.1 b hb
    exact .error ⟨line, hline, n, hrun.of_infix hinfix, hn⟩
  · split
    · exact .error h.place
    · exact .ok trivial

theorem Draft.addAll_reads (d : Draft) {statements : List (Text × Span)}
    (h : ∀ s ∈ statements, Occurs doc s) : Reads doc (d.addAll statements) fun _ => True := by
  induction statements generalizing d with
  | nil => exact .ok trivial
  | cons s rest ih =>
    obtain ⟨hs, hrest⟩ := List.forall_mem_cons.mp h
    have hfirst := d.addStatement_reads hs
    rw [Draft.addAll]
    cases hadd : d.addStatement s with
    | ok d' => exact ih d' hrest
    | error e =>
      rw [hadd] at hfirst
      exact hfirst

theorem addAll_spans {statements : List (Text × Span)} {d : Draft}
    (h : (Draft.mk [] []).addAll statements = .ok d) {s : Step} (hs : s ∈ d.steps) :
    ∃ statement ∈ statements, s.span = statement.2 := by
  have hsaid : s.said ∈ d.steps.map Step.said := List.mem_map_of_mem hs
  rw [Draft.addAll_said h] at hsaid
  obtain ⟨statement, hmem, hheard⟩ := List.mem_map.mp hsaid
  exact ⟨statement, hmem, (congrArg Prod.snd hheard).symm⟩

/-- **A method is read, or the statement is named that is wrong**, which may be the beginning of a
    loop. -/
theorem method_reads {statements : List (Text × Span)} (h : ∀ s ∈ statements, Occurs doc s) :
    Reads doc (method statements) fun steps => ∀ s ∈ steps, s.span.PointsInto doc := by
  have hall := Draft.addAll_reads (Draft.mk [] []) h
  unfold method
  cases hd : (Draft.mk [] []).addAll statements with
  | error e =>
    rw [hd] at hall
    exact hall
  | ok d =>
    have hspans : ∀ s ∈ d.steps, s.span.PointsInto doc := by
      intro s hs
      obtain ⟨statement, hmem, hspan⟩ := addAll_spans hd hs
      rw [hspan]
      exact (h statement hmem).place
    simp only [Draft.finish]
    split
    · exact .ok hspans
    · split
      · next s hs => exact .error (hspans s (List.mem_of_getElem? hs))
      · exact .ok hspans

/-! ## 5. Sections -/

section Sections

variable {ending : Span} {page : Page}

theorem reject_reads {α : Type} {P : α → Prop} {l : Line} (hl : l ∈ pageOf doc) (message : Text) :
    Reads doc (reject message (.line l.row) : Except Refusal α) P :=
  .error (pointsInto_line (line_of_mem_pageOf hl))

theorem suffix_of_cons {l : Line} {rest : Page} (h : l :: rest <:+ pageOf doc) :
    rest <:+ pageOf doc :=
  (List.suffix_cons l rest).trans h

theorem title_reads (hending : ending.PointsInto doc) (hpage : page <:+ pageOf doc) :
    Reads doc (title ending page) fun r => r.2 <:+ pageOf doc := by
  cases page with
  | nil => exact .error hending
  | cons l rest =>
    have hl : l ∈ pageOf doc := hpage.mem List.mem_cons_self
    simp only [title]
    split
    · exact reject_reads hl _
    · split
      · exact .ok (suffix_of_cons hpage)
      · exact reject_reads hl _

theorem blankLine_reads (hending : ending.PointsInto doc) (hpage : page <:+ pageOf doc) :
    Reads doc (blankLine ending page) (· <:+ pageOf doc) := by
  cases page with
  | nil => exact .error hending
  | cons l rest =>
    rw [blankLine]
    split
    · exact .ok (suffix_of_cons hpage)
    · exact reject_reads (hpage.mem List.mem_cons_self) _

theorem header_reads (hending : ending.PointsInto doc) (hpage : page <:+ pageOf doc)
    (expected message : Text) :
    Reads doc (header ending expected message page) (· <:+ pageOf doc) := by
  cases page with
  | nil => exact .error hending
  | cons l rest =>
    rw [header]
    split
    · exact .ok (suffix_of_cons hpage)
    · exact reject_reads (hpage.mem List.mem_cons_self) _

theorem comments_reads (hending : ending.PointsInto doc) (hpage : page <:+ pageOf doc) :
    Reads doc (comments ending page) (· <:+ pageOf doc) := by
  cases page with
  | nil => exact blankLine_reads hending hpage
  | cons l rest =>
    rw [comments]
    split
    · exact .ok hpage
    · exact blankLine_reads hending ((List.dropWhile_suffix _).trans hpage)

/-- A line that has to fit a phrase is only asked for where there is one. -/
theorem fitting_reads {α : Type} {words : Text} (hnext : nextStartsWith page words = true)
    (hpage : page <:+ pageOf doc) (p : Phrase α) (message : Text) :
    Reads doc (fitting p message page) fun r =>
      r.2 <:+ pageOf doc ∧ ∃ l ∈ pageOf doc, p.read? l.text.trim = some r.1 := by
  cases page with
  | nil => cases hnext
  | cons l rest =>
    have hl : l ∈ pageOf doc := hpage.mem List.mem_cons_self
    rw [fitting]
    split
    · next a ha => exact .ok ⟨suffix_of_cons hpage, l, hl, ha⟩
    · exact reject_reads hl _

theorem remark_reads (hending : ending.PointsInto doc) (hpage : page <:+ pageOf doc) (words : Text)
    (p : Phrase Unit) (message : Text) :
    Reads doc (remark ending words p message page) (· <:+ pageOf doc) := by
  unfold remark
  split
  · next hnext => exact .bind (fitting_reads hnext hpage p message) fun r hr =>
      blankLine_reads hending hr.1
  · exact .ok hpage

theorem ingredientsOn_reads {lines : Page} (hlines : ∀ l ∈ lines, l ∈ pageOf doc)
    (box : Ingredients) : Reads doc (ingredientsOn box lines) fun _ => True := by
  induction lines generalizing box with
  | nil => exact .ok trivial
  | cons l rest ih =>
    obtain ⟨hl, hrest⟩ := List.forall_mem_cons.mp hlines
    rw [ingredientsOn]
    split
    · exact ih hrest _
    · exact reject_reads hl _
    · next b hb =>
      obtain ⟨n, hrun, hn⟩ := ingredientOf_measured l.text.trim b hb
      exact .error ⟨l.text, List.mem_of_getElem? (line_of_mem_pageOf hl), n,
        hrun.of_infix (Text.trim_infix _), hn⟩

theorem servesPhrase_finds (line : Text) :
    servesPhrase.Finds line fun ds => ds <:+: line ∧ ∀ c ∈ ds, c.isDigit = true :=
  .bind (word_finds _) fun _ _ => .bind (longest_finds _) fun _ hds => .bind (word_finds _)
    fun _ _ => .bind finish_finds fun _ _ => .pure hds

theorem serving_reads (hpage : page <:+ pageOf doc) :
    Reads doc (serving page) fun r => r.2 <:+ pageOf doc := by
  unfold serving
  split
  · next hnext =>
    refine .bind (fitting_reads hnext hpage servesPhrase _) fun r hr => ?_
    obtain ⟨hrest, l, hl, hread⟩ := hr
    obtain ⟨hds, hdigits⟩ := (servesPhrase_finds l.text.trim).read? hread
    simp only
    split
    · exact .ok hrest
    · next b hb =>
      obtain ⟨n, hrun, hn⟩ := number_measured hds hdigits b hb
      exact .error ⟨l.text, List.mem_of_getElem? (line_of_mem_pageOf hl), n,
        hrun.of_infix (Text.trim_infix _), hn⟩
    · next e he =>
      -- a number is never merely wrong
      unfold number at he
      split at he
      · cases he
      · cases he
  · exact .ok hpage

/-! ## 6. Recipes and programs -/

/-- A recipe leaves an end of the page, and its statements stand in the source. -/
theorem recipe_reads (hending : ending.PointsInto doc) (hpage : page <:+ pageOf doc) :
    Reads doc (recipe ending page) fun r =>
      r.2 <:+ pageOf doc ∧ ∀ s ∈ r.1.method, s.span.PointsInto doc := by
  have hlines : ∀ {front : Page}, front <:+ pageOf doc → ∀ l ∈ paragraph front, l ∈ pageOf doc :=
    fun hfront l hl => hfront.mem ((List.takeWhile_prefix _).mem hl)
  unfold recipe
  refine .bind (title_reads hending hpage) fun r h1 => ?_
  refine .bind (blankLine_reads hending h1) fun p2 h2 => ?_
  refine .bind (comments_reads hending h2) fun p3 h3 => ?_
  refine .bind (header_reads hending h3 _ _) fun p4 h4 => ?_
  refine .bind (ingredientsOn_reads (hlines h4) []) fun box _ => ?_
  refine .bind (blankLine_reads hending ((List.dropWhile_suffix _).trans h4)) fun p5 h5 => ?_
  refine .bind (remark_reads hending h5 _ _ _) fun p6 h6 => ?_
  refine .bind (remark_reads hending h6 _ _ _) fun p7 h7 => ?_
  refine .bind (header_reads hending h7 _ _) fun p8 h8 => ?_
  refine .bind (method_reads fun statement hstatement => ?_) fun steps hsteps => ?_
  · obtain ⟨l, hl, hsegment⟩ := List.mem_flatMap.mp hstatement
    exact segments_stand (hlines h8 l hl) hsegment
  · have hbehind : skipBlanks (afterParagraph p8) <:+ pageOf doc :=
      (List.dropWhile_suffix _).trans ((List.dropWhile_suffix _).trans h8)
    exact .bind (serving_reads hbehind) fun served h9 => .ok ⟨h9, hsteps⟩

theorem recipes_reads (hending : ending.PointsInto doc) (hpage : page <:+ pageOf doc)
    (limit : Nat) :
    Reads doc (recipes ending limit page) fun rs =>
      ∀ r ∈ rs, ∀ s ∈ r.method, s.span.PointsInto doc := by
  induction limit generalizing page with
  | zero => exact .ok fun r hr => absurd hr List.not_mem_nil
  | succ limit ih =>
    rw [recipes]
    have hskip : skipBlanks page <:+ pageOf doc := (List.dropWhile_suffix _).trans hpage
    split
    · exact .ok fun r hr => absurd hr List.not_mem_nil
    · refine .bind (recipe_reads hending hskip) fun first hfirst => ?_
      refine .bind (ih hfirst.1) fun more hmore => .ok fun r hr => ?_
      rcases List.mem_cons.mp hr with rfl | hr
      · exact hfirst.2
      · exact hmore r hr

end Sections

theorem endOf_pointsInto (hdoc : doc ≠ []) : (endOf doc).PointsInto doc := by
  have hlast : doc.getLast? = some (doc.getLast hdoc) := List.getLast?_eq_some_getLast hdoc
  have hpos : 0 < doc.length := List.length_pos_iff.mpr hdoc
  refine ⟨doc.length - 1, doc.getLast hdoc, ?_, ?_, fun col hcol => ?_⟩
  · show (doc.length : Int) - 1 = (doc.length - 1 : Nat)
    omega
  · rw [← hlast, List.getLast?_eq_getElem?]
  · rw [endOf, hlast] at hcol
    cases hcol
    simp only [Option.getD_some]
    omega

theorem unknownName_span {r : Recipe} {auxiliaries : Table Text Recipe} {s : Step} {why : Rejection}
    (h : unknownName r auxiliaries s = some why) : why.span = s.span := by
  unfold unknownName at h
  split at h
  · split at h
    · cases h
    · cases h
      rfl
  · split at h
    · cases h
    · split at h
      · cases h
      · cases h
        rfl

/-- **A source is read as a program, or refused for a reason that can be found in it.** -/
theorem parse_reads (code : Text) : Reads code.lines (parse code) fun _ => True := by
  have hending : (endOf code.lines).PointsInto code.lines :=
    endOf_pointsInto (Text.splitOn_ne_nil _ _)
  unfold parse
  refine .bind (recipe_reads hending (List.dropWhile_suffix _)) fun main hmain => ?_
  refine .bind (recipes_reads hending hmain.1 _) fun others hothers => ?_
  simp only
  split
  · next why hwhy =>
    obtain ⟨r, hr, hstep⟩ := List.exists_of_findSome?_eq_some hwhy
    obtain ⟨s, hs, hname⟩ := List.exists_of_findSome?_eq_some hstep
    have hplace : s.span.PointsInto code.lines := by
      rcases List.mem_cons.mp hr with rfl | hr
      · exact hmain.2 s hs
      · obtain ⟨e, he, rfl⟩ := List.mem_map.mp hr
        obtain ⟨e', he', heq⟩ := Table.mem_ofEntries he
        obtain ⟨r', hr', rfl⟩ := List.mem_map.mp he'
        rw [heq] at hs
        exact hothers r' hr' s hs
    refine .error ?_
    show why.span.PointsInto code.lines
    rw [unknownName_span hname]
    exact hplace
  · exact .ok trivial

end Pages

end Chef

end Esolang
