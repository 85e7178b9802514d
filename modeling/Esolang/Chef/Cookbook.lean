/-
  File:      Esolang/Chef/Cookbook.lean
  Subject:   Reading a whole Chef program: recipes, section by section.

  A recipe is a title, a blank line, perhaps a paragraph of comments, the list of ingredients,
  perhaps a cooking time and an oven setting, the method, and perhaps a line that says how many it
  serves:

      Title.
      <blank>
      [comments, <blank>]
      Ingredients.
      <one ingredient a line>
      <blank>
      [Cooking time: N minutes., <blank>]
      [Pre-heat oven to N degrees Celsius., <blank>]
      Method.
      <statements that end in periods>
      [<blanks>, Serves N.]

  The first recipe is the main one; those that follow are auxiliary recipes, by title.

  * `Page`: the lines still to be read, with their numbers.
  * `recipe`: one recipe from the front of a page.
  * `parse`: a whole program, with every name in it checked.
-/
import Esolang.Chef.Method
import Esolang.Chef.Pantry

namespace Esolang.Chef

/-! ## 1. Pages -/

/-- A line of the source with its number. -/
structure Line where
  /-- Its number. -/
  row : Nat
  /-- Its text, not trimmed. -/
  text : Text

/-- Whether a line is blank. -/
def Line.isBlank (l : Line) : Bool := l.text.isBlank

/-- The lines still to be read. -/
abbrev Page := List Line

/-- The page of a whole source. -/
def pageOf (lines : List Text) : Page := lines.zipIdx.map fun (text, row) => ⟨row, text⟩

/-- The page without the blank lines in front. -/
def skipBlanks (page : Page) : Page := page.dropWhile Line.isBlank

/-- The lines of the paragraph in front: all before the first blank line. -/
def paragraph (page : Page) : Page := page.takeWhile (!·.isBlank)

/-- The page after the paragraph in front. -/
def afterParagraph (page : Page) : Page := page.dropWhile (!·.isBlank)

/-- Whether the next line begins with the given words. -/
def nextStartsWith (page : Page) (words : Text) : Bool :=
  match page with
  | [] => false
  | l :: _ => l.text.trim.startsWith words

/-! ## 2. Sections -/

/-- A section is rejected. -/
def reject {α : Type} (message : Text) (span : Span) : Except Refusal α :=
  .error (.rejected ⟨message, span⟩)

/-- The title: a line that ends in a period. `ending` is the place of errors at the end of the
    source. -/
def title (ending : Span) : Page → Except Refusal (Text × Page)
  | [] => reject "Expected recipe title" ending
  | l :: rest =>
    let text := l.text.trim
    if text.isEmpty then reject "Expected recipe title" (.line l.row)
    else if text.endsWith "." then .ok (text.dropLast, rest)
    else reject "Recipe title must end with period" (.line l.row)

/-- A blank line. -/
def blankLine (ending : Span) : Page → Except Refusal Page
  | [] => reject "Expected blank line" ending
  | l :: rest => if l.isBlank then .ok rest else reject "Expected blank line" (.line l.row)

/-- A line with a fixed content. -/
def header (ending : Span) (expected message : Text) : Page → Except Refusal Page
  | [] => reject message ending
  | l :: rest => if l.text.trim = expected then .ok rest else reject message (.line l.row)

/-- A line that has to fit a phrase. -/
def fitting {α : Type} (p : Phrase α) (message : Text) : Page → Except Refusal (α × Page)
  | [] => .error (.broken .nothingThere)
  | l :: rest =>
    match p.read? l.text.trim with
    | some a => .ok (a, rest)
    | none => reject message (.line l.row)

/-- The ingredients on the given lines; a repeated name keeps its place and takes the later
    value. -/
def ingredientsOn (box : Ingredients) : Page → Except Refusal Ingredients
  | [] => .ok box
  | l :: rest =>
    match ingredientOf l.text.trim with
    | .ok (name, i) => ingredientsOn (box.put name i) rest
    | .error (.wrong e) => reject e.message (.line l.row)
    | .error (.broken b) => .error (.broken b)

/-- The comments that may stand before the ingredients. -/
def comments (ending : Span) (page : Page) : Except Refusal Page :=
  match page with
  | l :: _ =>
    if l.text.trim = "Ingredients." then .ok page else blankLine ending (afterParagraph page)
  | [] => blankLine ending []

open Phrase in
/-- `Cooking time: … minutes.` -/
def cookingTimePhrase : Phrase Unit := do
  word "Cooking time: "
  let _ ← digits
  word " "
  let _ ← oneOf [("hour", ()), ("minute", ())]
  let _ ← maybe (word "s")
  word "."
  finish

/-- Digits and slashes, of which a gas mark is made. -/
def isGasMarkChar (c : CodePoint) : Bool := c.isDigit || c = '/'

open Phrase in
/-- `Pre-heat oven to … degrees Celsius (gas mark …).` -/
def ovenPhrase : Phrase Unit := do
  word "Pre-heat oven to "
  let _ ← digits
  word " degrees Celsius"
  let _ ← maybe do
    word " (gas mark "
    let _ ← longest isGasMarkChar
    word ")"
  word "."
  finish

open Phrase in
/-- `Serves ….` -/
def servesPhrase : Phrase Text := do
  word "Serves "
  let ds ← digits
  word "."
  finish
  pure ds

/-- A line that may stand between ingredients and method, with a blank line after it. -/
def remark (ending : Span) (words : Text) (p : Phrase Unit) (message : Text) (page : Page) :
    Except Refusal Page :=
  if nextStartsWith page words then do
    let (_, rest) ← fitting p message page
    blankLine ending rest
  else .ok page

/-- The line that says how many a recipe serves, which may be left out. -/
def serving (page : Page) : Except Refusal (Option Serving × Page) :=
  if nextStartsWith page "Serves " then do
    let (ds, rest) ← fitting servesPhrase "Malformed serves statement" page
    match number ds with
    | .ok n => .ok (page.head?.map fun l => ⟨l.row, n⟩, rest)
    | .error (.broken b) => .error (.broken b)
    | .error (.wrong e) => reject e.message (.line 0)
  else .ok (none, page)

/-! ## 3. Recipes -/

/-- One recipe from the front of a page. -/
def recipe (ending : Span) (page : Page) : Except Refusal (Recipe × Page) := do
  let (name, page) ← title ending page
  let page ← blankLine ending page
  let page ← comments ending page
  let page ← header ending "Ingredients." "Expected ingredients header" page
  let ingredients ← ingredientsOn [] (paragraph page)
  let page ← blankLine ending (afterParagraph page)
  let page ←
    remark ending "Cooking time: " cookingTimePhrase "Malformed cooking time statement" page
  let page ← remark ending "Pre-heat oven " ovenPhrase "Malformed oven setting" page
  let page ← header ending "Method." "Expected \"Method.\"" page
  let steps ← method ((paragraph page).flatMap fun l => segments l.row l.text)
  let (served, page) ← serving (skipBlanks (afterParagraph page))
  .ok (⟨name, ingredients, steps, served⟩, page)

/-- The recipes on a page, at most `limit` of them. Every recipe takes a line at least, so the
    number of lines is limit enough. -/
def recipes (ending : Span) : Nat → Page → Except Refusal (List Recipe)
  | 0, _ => .ok []
  | limit + 1, page =>
    match skipBlanks page with
    | [] => .ok []
    | page => do
      let (r, rest) ← recipe ending page
      let more ← recipes ending limit rest
      .ok (r :: more)

/-! ## 4. Programs -/

/-- The first name in a step that the recipe or the program does not know. -/
def unknownName (r : Recipe) (auxiliaries : Table Text Recipe) (s : Step) : Option Rejection :=
  match s.operation with
  | .serveWith callee =>
    if auxiliaries.has callee then none
    else some ⟨Text.ofString "Invalid recipe name: " ++ callee, s.span⟩
  | op =>
    match op.ingredient? with
    | none => none
    | some i =>
      if i.isEmpty || r.ingredients.has i then none
      else some ⟨Text.ofString "Invalid ingredient: " ++ i, s.span⟩

/-- The first step of a program that names something unknown: the main recipe is checked first, then
    the others in order. -/
def unknownNames (p : Program) : Option Rejection :=
  (p.main :: p.auxiliaries.map (·.2)).findSome? fun r =>
    r.method.findSome? (unknownName r p.auxiliaries)

/-- The place of errors at the end of a source: its last code point. -/
def endOf (lines : List Text) : Span :=
  .cell ((lines.length : Int) - 1) ((lines.getLast?.getD []).length - 1 : Nat)

/-- The program of a source. -/
def parse (code : Text) : Except Refusal Program := do
  let lines := code.lines
  let ending := endOf lines
  let (main, rest) ← recipe ending (skipBlanks (pageOf lines))
  let others ← recipes ending lines.length rest
  let program : Program := ⟨main, Table.ofEntries (others.map fun r => (r.name, r))⟩
  match unknownNames program with
  | some r => .error (.rejected r)
  | none => .ok program

end Esolang.Chef
