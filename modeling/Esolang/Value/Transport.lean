/-
  File:      Esolang/Value/Transport.lean
  Subject:   Values as plain data, and the messages that carry them to a host.

  * `Value.plain`: a value as plain data; numbers that are keys become texts.
  * `Message.ack`, `Message.result`, `Message.incident`: the messages.
  * `Message.traced`, `Message.rejected`, `Message.faulted`: what went wrong, in the forms it
    travels in.
-/
import Esolang.Value.Literal

namespace Esolang

/-! ## 1. Parts of values as plain data -/

/-- A span: absent ends are left out. -/
def Span.plain (s : Span) : Plain :=
  let field (name : String) (v : Option Int) : List (String × Plain) :=
    match v with
    | some n => [(name, .int n)]
    | none => []
  .record ([("startLine", .int s.startLine)] ++ field "startCol" s.startCol ++
    field "endLine" s.endLine
    ++ field "endCol" s.endCol)

/-- An edit. -/
def Edit.plain (e : Edit) : Plain := .record [("range", e.span.plain), ("text", .text e.text)]

/-- An item. -/
def Chef.Item.plain (i : Item) : Plain :=
  .record [("value", .int i.value), ("type", .text i.kind.word)]

/-- An ingredient. -/
def Chef.Ingredient.plain (i : Ingredient) : Plain :=
  .record [("type", .text i.kind.word), ("value", .optional .int i.value)]

/-- A stack, from the bottom. -/
def Chef.stackPlain (s : Stack) : Plain := .list (s.reverse.map Item.plain)

/-- A table with numbers as keys. -/
def tablePlain {α : Type} (f : α → Plain) (t : Table Int α) : Except Breakdown Plain :=
  (t.mapM fun (k, a) => (Decimal.print k).map fun name => (Key.text name, f a)).map .map

/-- A kitchen. -/
def Chef.Kitchen.plain (k : Kitchen) : Except Breakdown Plain := do
  let bowls ← tablePlain stackPlain k.bowls
  let dishes ← tablePlain stackPlain k.dishes
  let ingredients := k.ingredients.map fun (name, i) => (Key.text name, i.plain)
  pure (.record [("ingredients", .map ingredients), ("bowls", bowls), ("dishes", dishes)])

/-- A panel. -/
def Display.plain : Display → Except Breakdown Plain
  | .chef calls kitchen => do
    let k ← kitchen.plain
    pure (.record [("stack", .list (calls.map .text)), ("current_kitchen", k)])
  | .befunge stack direction stringMode =>
    .ok (.record [("stack", .list (stack.reverse.map .int)), ("direction", .text direction.word),
      ("str_mode", .bool stringMode)])
  | .brainfuck tape pointer => do
    let t ← tablePlain .int tape
    pure (.record [("tape", t), ("pointer", .int pointer)])
  | .deadfish value => .ok (.record [("value", .int value)])

/-- The rejection of a source. -/
def Rejection.plain (r : Rejection) : Plain :=
  .record [("name", .text "ParseError"), ("message", .text r.message), ("range", r.span.plain)]

/-- A fault. -/
def faultPlain (message : Text) : Plain :=
  .record [("name", .text "RuntimeError"), ("message", .text message)]

/-- A report of something that went wrong, by name: with what it says and the line that names it. -/
def tracedPlain (qualifier : String) (name message : Text) : Plain :=
  let line : Text :=
    if message.isEmpty then Text.ofString qualifier ++ name
    else Text.ofString qualifier ++ name ++ Text.ofString ": " ++ message
  .record [("name", .text name), ("message", .text message),
    ("stack", .text (line ++ [Text.newline]))]

/-- What stands before the name of an incident in its line. -/
def IncidentKind.qualifier : IncidentKind → String
  | .controller | .unexpected => "eso.eso_errors."
  | _ => ""

/-- An incident. -/
def incidentPlain (kind : IncidentKind) (args : List Value) : Except Breakdown Plain :=
  (Value.incident kind args).inSentence.map (tracedPlain kind.qualifier kind.name)

/-! ## 2. Values as plain data -/

/-- A key in plain data: a number becomes a text. -/
def Key.plain : Key → Except Breakdown Key
  | .int n => (Decimal.print n).map .text
  | k => .ok k

mutual

/-- A value as plain data. -/
def Value.plain : Value → Except Breakdown Plain
  | .null => .ok .null
  | .bool b => .ok (.bool b)
  | .int n => .ok (.int n)
  | .text t => .ok (.text t)
  | .list items => (plains items).map .list
  | .tuple items => (plains items).map .list
  | .set items => (plains items).map .list
  | .map entries => (entryPlains entries).map fun es => .map (Table.ofEntries es)
  | .span s => .ok s.plain
  | .edit e => .ok e.plain
  | .direction d => .ok (.text d.word)
  | .item i => .ok i.plain
  | .ingredient i => .ok i.plain
  | .kitchen k => k.plain
  | .display d => d.plain
  | .rejection r => .ok r.plain
  | .fault message => .ok (faultPlain message)
  | .incident kind args => incidentPlain kind args
  | .named name => name.plain
  | .result state next output edits signal error => do
    let s ← state.plain
    let e ← error.plain
    pure (.record [("display_state", s), ("next_location", .optional Span.plain next),
      ("output", .optional .text output),
      ("source_edits", .optional (fun es => .list (es.map Edit.plain)) edits),
      ("signal", .optional .text signal), ("error", e)])

/-- Several values as plain data. -/
def plains : List Value → Except Breakdown (List Plain)
  | [] => .ok []
  | v :: rest => do
    let p ← v.plain
    let ps ← plains rest
    pure (p :: ps)

/-- The entries of a map as plain data. -/
def entryPlains : List (Key × Value) → Except Breakdown (List (Key × Plain))
  | [] => .ok []
  | (k, v) :: rest => do
    let key ← k.plain
    let p ← v.plain
    let ps ← entryPlains rest
    pure ((key, p) :: ps)

end

/-- A machine's step result as plain data. -/
def StepResult.plain (r : StepResult) : Except Breakdown Plain := r.toValue.plain

/-! ## 3. Messages -/

namespace Message

/-- A request was carried out, or failed. -/
def ack (request : Plain) (error : Option Value) : Except Breakdown Plain :=
  match error with
  | none => .ok (.record [("type", .text "ack"), ("data", request)])
  | some v => do
    let e ← v.plain
    pure (.record [("type", .text "ack"), ("data", request), ("error", e)])

/-- The name under which a result says what went wrong. -/
def errorKey : Key := .text "error"

/-- What travels beside a result: what went wrong, if anything did. -/
def beside (entries : Table Key Plain) : List (String × Plain) :=
  match entries.get? errorKey with
  | none | some .null => []
  | some e => [("error", e)]

/-- A step result. What went wrong travels beside the result that it interrupted. -/
def result (v : Value) : Except Breakdown Plain := do
  match ← v.plain with
  | .map entries =>
    let data : Plain := .map (entries.filter (·.1 ≠ errorKey))
    pure (.record ([("type", .text "result"), ("data", data)] ++ beside entries))
  | _ => .error (.lacking v.kindName "pop")

/-- What went wrong, by name and with the line that names it. -/
def traced : Value → Except Breakdown Plain
  | .rejection r => .ok (tracedPlain "eso.eso_errors." "ParseError" r.message)
  | .fault message => .ok (tracedPlain "eso.eso_errors." "EsoRuntimeError" message)
  | .incident kind args => incidentPlain kind args
  | v => .error (.lacking v.kindName "__traceback__")

/-- A rejection with its place. -/
def rejected : Value → Except Breakdown Plain
  | .rejection r => .ok r.plain
  | .fault message => .error (.lacking (Value.fault message).kindName "range")
  | v => .error (.lacking v.kindName "message")

/-- A rejection or a fault as a fault, which has no place. -/
def faulted : Value → Except Breakdown Plain
  | .rejection r => .ok (faultPlain r.message)
  | .fault message => .ok (faultPlain message)
  | v => .error (.lacking v.kindName "message")

/-- Something went wrong that is nobody's request. -/
def incident (v : Value) : Except Breakdown Plain :=
  (traced v).map fun e => .record [("type", .text "error"), ("error", e)]

end Message

/-- The message that carries a machine's step result. -/
def StepResult.message (r : StepResult) : Except Breakdown Plain := Message.result r.toValue

end Esolang
