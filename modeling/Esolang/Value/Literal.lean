/-
  File:      Esolang/Value/Literal.lean
  Subject:   Values written as literals and inside sentences.

  * `Value.literal`: a value as it is written where no panel is made for it.
  * `Value.inSentence`: a value as it stands inside a sentence, and so what an incident says.
  * `Value.incidentOf`: incidents as they arise.
-/
import Esolang.Number.Limit
import Esolang.Value.Basic

namespace Esolang

/-- Texts with a comma between each two. -/
def commaSeparated (ts : List Text) : Text := Text.join ", " ts

/-- A named group of fields, as a literal. -/
def fieldsLiteral (name : Text) (fields : List (String × Text)) : Text :=
  name ++ Text.ofString "("
    ++ commaSeparated (fields.map fun (f, t) => Text.ofString f ++ Text.ofString "=" ++ t)
    ++ Text.ofString ")"

/-- The literal of what may be absent. -/
def optionalLiteral {α : Type} (f : α → Except Breakdown Text) : Option α → Except Breakdown Text
  | some a => f a
  | none => .ok "None"

/-- The literal of a truth value. -/
def boolLiteral (b : Bool) : Text := if b then "True" else "False"

/-- The literals of a list. -/
def listLiteral {α : Type} (f : α → Except Breakdown Text) (xs : List α) : Except Breakdown Text :=
  (xs.mapM f).map fun ts => Text.ofString "[" ++ commaSeparated ts ++ Text.ofString "]"

/-- The literals of a fixed row. -/
def tupleLiteral (ts : List Text) : Text :=
  match ts with
  | [t] => Text.ofString "(" ++ t ++ Text.ofString ",)"
  | ts => Text.ofString "(" ++ commaSeparated ts ++ Text.ofString ")"

/-- The literals of a map. -/
def mapLiteral (entries : List (Text × Text)) : Text :=
  Text.ofString "\x7b"
    ++ commaSeparated (entries.map fun (k, v) => k ++ Text.ofString ": " ++ v)
    ++ Text.ofString "\x7d"

/-- The literal of a table with numbers as keys. -/
def tableLiteral {α : Type} (f : α → Except Breakdown Text) (t : Table Int α) :
    Except Breakdown Text :=
  (t.mapM fun (k, a) => do
    let k ← Decimal.print k
    let a ← f a
    pure (k, a)).map mapLiteral

/-- The literal of a key. -/
def Key.literal : Key → Except Breakdown Text
  | .text t => .ok t.quoted
  | .int n => Decimal.print n
  | .bool b => .ok (boolLiteral b)
  | .null => .ok "None"

/-- The literal of a span. -/
def Span.literal (s : Span) : Except Breakdown Text := do
  let a ← Decimal.print s.startLine
  let b ← optionalLiteral Decimal.print s.startCol
  let c ← optionalLiteral Decimal.print s.endLine
  let d ← optionalLiteral Decimal.print s.endCol
  pure (fieldsLiteral "DocumentRange" [("start_line", a), ("start_col", b), ("end_line", c),
    ("end_col", d)])

/-- The literal of an edit. -/
def Edit.literal (e : Edit) : Except Breakdown Text := do
  let r ← e.span.literal
  pure (fieldsLiteral "DocumentEdit" [("range", r), ("text", e.text.quoted)])

/-- The name of a direction. -/
def Befunge.Direction.name : Direction → Text
  | .up => "Direction.UP"
  | .down => "Direction.DOWN"
  | .left => "Direction.LEFT"
  | .right => "Direction.RIGHT"

/-- The literal of a direction. -/
def Befunge.Direction.literal (d : Direction) : Text :=
  Text.ofString "<" ++ d.name ++ Text.ofString ": " ++ d.word.quoted ++ Text.ofString ">"

/-- The literal of an item. -/
def Chef.Item.literal (i : Item) : Except Breakdown Text := do
  let v ← Decimal.print i.value
  pure (fieldsLiteral "StackItem" [("value", v), ("type", i.kind.word.quoted)])

/-- The literal of an ingredient. -/
def Chef.Ingredient.literal (i : Ingredient) : Except Breakdown Text := do
  let v ← optionalLiteral Decimal.print i.value
  pure (fieldsLiteral "IngredientItem" [("type", i.kind.word.quoted), ("value", v)])

/-- The literal of a stack, from the bottom. -/
def Chef.stackLiteral (s : Stack) : Except Breakdown Text := listLiteral Item.literal s.reverse

/-- The literal of a kitchen. -/
def Chef.Kitchen.literal (k : Kitchen) : Except Breakdown Text := do
  let ingredients ← k.ingredients.mapM fun (name, i) => do
    let t ← i.literal
    pure (name.quoted, t)
  let bowls ← tableLiteral stackLiteral k.bowls
  let dishes ← tableLiteral stackLiteral k.dishes
  pure (fieldsLiteral "ChefKitchenState"
    [("ingredients", mapLiteral ingredients), ("bowls", bowls), ("dishes", dishes)])

/-- The word for what a panel is. -/
def Display.kindName : Display → Text
  | .chef .. => "ChefDisplayState"
  | .befunge .. => "Bfg93DisplayState"
  | .brainfuck .. => "BFDisplayState"
  | .deadfish _ => "DFDisplayState"

/-- The literal of a panel. -/
def Display.literal : Display → Except Breakdown Text
  | .chef calls kitchen => do
    let k ← kitchen.literal
    pure (fieldsLiteral "ChefDisplayState"
      [("stack", tupleLiteral (calls.map Text.quoted)), ("current_kitchen", k)])
  | .befunge stack direction stringMode => do
    let ts ← stack.reverse.mapM Decimal.print
    pure (fieldsLiteral "Bfg93DisplayState"
      [("stack", tupleLiteral ts), ("direction", direction.literal),
        ("str_mode", boolLiteral stringMode)])
  | .brainfuck tape pointer => do
    let t ← tableLiteral Decimal.print tape
    let p ← Decimal.print pointer
    pure (fieldsLiteral "BFDisplayState" [("tape", t), ("pointer", p)])
  | .deadfish value => do
    let v ← Decimal.print value
    pure (fieldsLiteral "DFDisplayState" [("value", v)])

/-- The name of a kind of incident. -/
def IncidentKind.name : IncidentKind → Text
  | .badValue => "ValueError"
  | .runtime => "RuntimeError"
  | .missingKey => "KeyError"
  | .controller => "ControllerError"
  | .unexpected => "UnexpectedError"

mutual

/-- A value written as a literal. -/
def Value.literal : Value → Except Breakdown Text
  | .null => .ok "None"
  | .bool b => .ok (boolLiteral b)
  | .int n => Decimal.print n
  | .text t => .ok t.quoted
  | .list items => do
    let ts ← literals items
    pure (Text.ofString "[" ++ commaSeparated ts ++ Text.ofString "]")
  | .tuple items => do
    let ts ← literals items
    pure (tupleLiteral ts)
  | .set items => do
    let ts ← literals items
    if ts.isEmpty then pure (Text.ofString "set()")
    else pure (Text.ofString "\x7b" ++ commaSeparated ts ++ Text.ofString "\x7d")
  | .map entries => do
    let ts ← entryLiterals entries
    pure (mapLiteral ts)
  | .span s => s.literal
  | .edit e => e.literal
  | .direction d => .ok d.literal
  | .item i => i.literal
  | .ingredient i => i.literal
  | .kitchen k => k.literal
  | .display d => d.literal
  | .rejection r => .ok (Text.ofString "ParseError(" ++ r.message.quoted ++ Text.ofString ")")
  | .fault message => .ok (Text.ofString "EsoRuntimeError(" ++ message.quoted ++ Text.ofString ")")
  | .incident kind args => do
    let ts ← literals args
    pure (kind.name ++ Text.ofString "(" ++ commaSeparated ts ++ Text.ofString ")")
  | .named name => name.literal
  | .result state next output edits signal error => do
    let state ← state.literal
    let next ← optionalLiteral Span.literal next
    let output ← optionalLiteral (fun t => .ok t.quoted) output
    let edits ← optionalLiteral (listLiteral Edit.literal) edits
    let signal ← optionalLiteral (fun t => .ok t.quoted) signal
    let error ← error.literal
    pure (fieldsLiteral "StepResult"
      [("display_state", state), ("next_location", next), ("output", output),
       ("source_edits", edits), ("signal", signal), ("error", error)])

/-- Several values written as literals. -/
def literals : List Value → Except Breakdown (List Text)
  | [] => .ok []
  | v :: rest => do
    let t ← v.literal
    let ts ← literals rest
    pure (t :: ts)

/-- The entries of a map written as literals. -/
def entryLiterals : List (Key × Value) → Except Breakdown (List (Text × Text))
  | [] => .ok []
  | (k, v) :: rest => do
    let k ← k.literal
    let t ← v.literal
    let ts ← entryLiterals rest
    pure ((k, t) :: ts)

end

/-- A value as it stands inside a sentence: a text as itself, what went wrong as its words, all else
    as a literal. An incident says nothing without arguments, its one argument, or the row of them;
    a missing key is always written as a literal. -/
def Value.inSentence : Value → Except Breakdown Text
  | .text t => .ok t
  | .direction d => .ok d.name
  | .rejection r => .ok r.message
  | .fault message => .ok message
  | .incident _ [] => .ok []
  | .incident .missingKey [a] => a.literal
  | .incident _ [a] => a.inSentence
  | .incident _ args => (literals args).map tupleLiteral
  | v => v.literal

/-- Whether a value counts as something to be said. -/
def Value.isSomething : Value → Bool
  | .null => false
  | .bool b => b
  | .int n => n ≠ 0
  | .text t => !t.isEmpty
  | .list items | .tuple items | .set items => !items.isEmpty
  | .map entries => !entries.isEmpty
  | _ => true

/-- An inconsistency with the given detail, if there is anything to say. Its one argument is the
    sentence that it makes of the detail. -/
def Value.inconsistency (detail : Value) : Except Breakdown Value :=
  if detail.isSomething then do
    let t ← detail.inSentence
    pure (.incident .unexpected [.text (Text.ofString "Something unexpected occurred: " ++ t)])
  else .ok (.incident .unexpected [.text (unexpectedMessage [])])

/-- An incident that arose with the given arguments. -/
def Value.incidentOf (kind : IncidentKind) (args : List Value) : Except Breakdown Value :=
  match kind with
  | .unexpected => inconsistency (args.headD .null)
  | kind => .ok (.incident kind args)

/-- The word for what a value is. -/
def Value.kindName : Value → Text
  | .null => "NoneType"
  | .bool _ => "bool"
  | .int _ => "int"
  | .text _ => "str"
  | .list _ => "list"
  | .tuple _ => "tuple"
  | .set _ => "set"
  | .map _ => "dict"
  | .span _ => "DocumentRange"
  | .edit _ => "DocumentEdit"
  | .direction _ => "Direction"
  | .item _ => "StackItem"
  | .ingredient _ => "IngredientItem"
  | .kitchen _ => "ChefKitchenState"
  | .display d => d.kindName
  | .rejection _ => "ParseError"
  | .fault _ => "EsoRuntimeError"
  | .incident kind _ => kind.name
  | .named _ => "object"
  | .result .. => "StepResult"

end Esolang
