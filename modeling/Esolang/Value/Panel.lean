/-
  File:      Esolang/Value/Panel.lean
  Subject:   Values as readable panels, and one-line reports of step results.

  * `Value.panel`: a value over as many lines as it needs, indented by levels.
  * `Value.report`, `StepResult.report`: a step result in one line.
-/
import Esolang.Value.Literal

namespace Esolang

/-! ## 1. Parts of panels -/

/-- How panels are indented: the number of spaces for one level. -/
abbrev IndentWidth := Nat

/-- The spaces in front of a line at a level; there are none below the first level. -/
def indentation (width : IndentWidth) (level : Int) : Text := Text.fill (width * level).toNat ' '

/-- Texts on a line each, beginning with a new line. -/
def onLines (ts : List Text) : Text := ts.flatMap fun t => Text.newline :: t

/-- A panel after a colon: on the same line unless it begins with a new one. -/
def afterColon (t : Text) : Text := if t.startsWith [Text.newline] then t else Text.space :: t

/-- A list of panels on one line. -/
def bracketed (ts : List Text) : Text := Text.ofString "[" ++ commaSeparated ts ++ Text.ofString "]"

/-- A place, with line and column counted from one. -/
def Span.panel (s : Span) : Except Breakdown Text := do
  let line ← Decimal.print (s.startLine + 1)
  match s.startCol with
  | none => pure line
  | some c => do
    let col ← Decimal.print (c + 1)
    pure (line ++ Text.ofString ":" ++ col)

/-- What went wrong, in one line; only a rejection and a fault have one. -/
def Value.errorLine : Value → Except Breakdown Text
  | .rejection r => do
    let _ ← r.span.panel
    pure r.headline
  | .fault message => .ok (Text.ofString "RuntimeError: " ++ message)
  | v => .error (.lacking v.kindName "format_error")

/-- A key in front of its value. -/
def Key.panel : Key → Except Breakdown Text
  | .text t => .ok t
  | .int n => Decimal.print n
  | .bool b => .ok (boolLiteral b)
  | .null => .ok "None"

/-! ## 2. Panels of the machines -/

/-- An item: its value and the first letter of its kind. -/
def Chef.Item.panel (i : Item) : Except Breakdown Text := do
  let v ← Decimal.print i.value
  pure (v ++ Text.ofString "(" ++ i.kind.word.take 1 ++ Text.ofString ")")

/-- An ingredient: its value, if it has one, and its kind. -/
def Chef.Ingredient.panel (i : Ingredient) : Except Breakdown Text := do
  let v ← match i.value with
    | none => pure (Text.ofString "?")
    | some v => Decimal.print v
  pure (v ++ Text.ofString " (" ++ i.kind.word ++ Text.ofString ")")

/-- A stack on one line, from the bottom. -/
def Chef.stackPanel (s : Stack) : Except Breakdown Text := (s.reverse.mapM Item.panel).map bracketed

/-- The entries of a table with numbers as keys, ordered by them. -/
def sortedByKey {α : Type} (t : Table Int α) : Table Int α := t.mergeSort fun a b => a.1 ≤ b.1

/-- Numbered stacks on a line each. -/
def Chef.stackLines (label : Text) (t : Table Int Stack) : Except Breakdown (List Text) :=
  (sortedByKey t).mapM fun (id, s) => do
    let n ← Decimal.print id
    let p ← stackPanel s
    pure (label ++ n ++ Text.ofString ": " ++ p)

/-- Ingredients on a line each, at a level. -/
def Chef.ingredientsPanel (width : IndentWidth) (level : Int) (box : Ingredients) :
    Except Breakdown Text :=
  if box.isEmpty then .ok "\x7b\x7d"
  else do
    let lines ← box.mapM fun (name, i) => do
      let p ← i.panel
      pure (indentation width (level + 1) ++ name ++ Text.ofString ": " ++ p)
    pure (onLines lines)

/-- The cells of a tape from the first to the last used one, with a mark at the pointer. -/
def tapeCells (tape : Table Int Int) (pointer : Int) (count : Nat) : Except Breakdown (List Text) :=
  (List.range count).mapM fun (idx : Nat) => do
    let cell ← Decimal.print ((tape.get? (idx : Int)).getD 0)
    pure (if (idx : Int) = pointer then Text.ofString "*" ++ cell else cell)

/-- The panel of a machine, at a level. -/
def Display.panel (width : IndentWidth) (level : Int) : Display → Except Breakdown Text
  | .chef calls kitchen => do
    let ind := indentation width (level + 1)
    let ingredients ← Chef.ingredientsPanel width (level + 1) kitchen.ingredients
    let bowls ← Chef.stackLines "bowl " kitchen.bowls
    let dishes ← Chef.stackLines "dish " kitchen.dishes
    let lines :=
      (Text.ofString "call stack: " ++ Text.join " > " calls)
        :: (Text.ofString "ingredients:" ++ afterColon ingredients) :: bowls ++ dishes
    pure (onLines (lines.map (ind ++ ·)))
  | .befunge stack direction stringMode => do
    let values ← stack.reverse.mapM Decimal.print
    pure (Text.ofString "stack: " ++ bracketed values ++ Text.ofString " | direction: " ++
      direction.word
      ++ (if stringMode then Text.ofString " (string mode)" else []))
  | .brainfuck tape pointer => do
    let last := (tape.map (·.1)).foldl max (-1)
    let cells ← tapeCells tape pointer (last + 1).toNat
    let p ← Decimal.print pointer
    pure (Text.ofString "tape: [" ++ Text.join " " cells ++ Text.ofString "] | pointer: " ++ p)
  | .deadfish value => do
    let v ← Decimal.print value
    pure (Text.ofString "value: " ++ v)

/-! ## 3. Panels of all values -/

mutual

/-- A value as a panel, at a level. -/
def Value.panel (width : IndentWidth) (level : Int) : Value → Except Breakdown Text
  | .text t => .ok t
  | .int n => Decimal.print n
  | .null => .ok "none"
  | .span s => s.panel
  | .edit e => do
    let place ← e.span.panel
    pure (Text.ofString "edit@" ++ place ++ Text.ofString " " ++ e.text.quoted)
  | .rejection r => (Value.rejection r).errorLine
  | .fault message => (Value.fault message).errorLine
  | .item i => i.panel
  | .ingredient i => i.panel
  | .display d => d.panel width level
  | .list items => do
    let ts ← panels width level items
    pure (bracketed ts)
  | .tuple items => do
    let ts ← panels width level items
    pure (bracketed ts)
  | .map entries => do
    let ts ← entryPanels width level entries
    if ts.isEmpty then pure (Text.ofString "\x7b\x7d") else pure (onLines ts)
  | .result state next output _ signal error => do
    let ind := indentation width (level + 1)
    let place ← match next with
      | none => pure (Text.ofString "none")
      | some s => s.panel
    let shown ← state.panel width (level + 1)
    let line (label : String) (t : Text) : Text := Text.newline :: ind ++ Text.ofString label ++ t
    let outputLine : Text :=
      match output with
      | none => []
      | some t => if t.isEmpty then [] else line "output: " t.quoted
    let signalLine : Text :=
      match signal with
      | none => []
      | some t => if t.isEmpty then [] else line "signal: " t
    let wrong ← error.panel width 0
    let errorLine : Text :=
      match error with
      | .null => []
      | _ => line "error: " wrong
    pure (Text.ofString "step" ++ line "next: " place ++ outputLine ++ signalLine ++ errorLine
      ++ line "state:" (afterColon shown))
  | v => v.literal

/-- Several values as panels. -/
def panels (width : IndentWidth) (level : Int) : List Value → Except Breakdown (List Text)
  | [] => .ok []
  | v :: rest => do
    let t ← v.panel width level
    let ts ← panels width level rest
    pure (t :: ts)

/-- The entries of a map, one level further in. -/
def entryPanels (width : IndentWidth) (level : Int) :
    List (Key × Value) → Except Breakdown (List Text)
  | [] => .ok []
  | (k, v) :: rest => do
    let key ← k.panel
    let t ← v.panel width (level + 1)
    let ts ← entryPanels width level rest
    pure ((indentation width (level + 1) ++ key ++ Text.ofString ": " ++ t) :: ts)

end

/-- The usual width of one level. -/
def usualIndent : IndentWidth := 2

/-- The panel of a machine's step result. -/
def StepResult.panel (r : StepResult) : Except Breakdown Text := r.toValue.panel usualIndent 0

/-! ## 4. Reports -/

/-- What a report says about how execution stands. -/
def statusWord (next : Option Span) (signal : Option Text) (failed : Bool) : Text :=
  if failed then "error"
  else if next.isNone then "done"
  else if signal = some pausedWord then pausedWord
  else "running"

/-- Where a report says execution stands. A column shown as zero is left out. -/
def Span.whereabouts (s : Span) : Text :=
  let col : Text :=
    match s.startCol with
    | none => []
    | some c => if c + 1 = 0 then [] else Text.ofString ", col " ++ Decimal.ofInt (c + 1)
  Text.ofString " at line " ++ Decimal.ofInt (s.startLine + 1) ++ col

/-- A step result in one line. -/
def reportLine (language : Text) (next : Option Span) (output signal error : Option Text) : Text :=
  let written : Text :=
    match output with
    | none => []
    | some t => if t.isEmpty then [] else Text.ofString " | output: " ++ t.quoted
  let failure : Text :=
    match error with
    | none => []
    | some t => Text.ofString " | " ++ t
  Text.ofString "[" ++ (if language.isEmpty then Text.ofString "?" else language)
    ++ Text.ofString "] " ++ statusWord next signal error.isSome
    ++ (next.map Span.whereabouts).getD [] ++ written ++ failure

/-- A step result in one line. -/
def Value.report (language : Text) : Value → Except Breakdown Text
  | .result _ next output _ signal error => do
    let wrong ←
      match error with
      | .null => pure none
      | e => e.errorLine.map some
    let _ ← next.mapM Span.panel
    pure (reportLine language next output signal wrong)
  | v => .error (.lacking v.kindName "error")

/-- A machine's step result in one line. -/
def StepResult.report (r : StepResult) (language : Text) : Text :=
  reportLine language r.next r.output (if r.paused then some pausedWord else none)
    (r.error.map Fault.report)

end Esolang
