/-
  File:      Esolang/Value/Basic.lean
  Subject:   Everything the printer and the serialiser can be given.

  Besides plain data these are the values that pass between a machine and its host: spans, edits,
  errors, panels, and step results. A step result given from outside may show any value at all as
  its panel and as its error.

  * `Value`: the values.
  * `Value.map`, built by `Value.mapOf`: truth values and the numbers 0 and 1 are the same keys.
  * `StepResult.toValue`: the result of a machine's step as a value.
-/
import Esolang.Source.Rejection
import Esolang.Step
import Esolang.Value.Plain

namespace Esolang

/-- The kinds of incident that are reported by name. -/
inductive IncidentKind where
  | badValue
  | runtime
  | missingKey
  | controller
  | unexpected
deriving DecidableEq

/-- What the printer and the serialiser can be given. -/
inductive Value where
  /-- Nothing. -/
  | null
  /-- A truth value. -/
  | bool (b : Bool)
  /-- An integer. -/
  | int (n : Int)
  /-- A text. -/
  | text (t : Text)
  /-- A list. -/
  | list (items : List Value)
  /-- A fixed row of values. -/
  | tuple (items : List Value)
  /-- Values in no order, of which there is at most one. -/
  | set (items : List Value)
  /-- Keys with their values, in order. -/
  | map (entries : List (Key × Value))
  /-- A place in a source. -/
  | span (s : Span)
  /-- An edit of a source. -/
  | edit (e : Edit)
  /-- A direction of travel. -/
  | direction (d : Befunge.Direction)
  /-- An item of a bowl. -/
  | item (i : Chef.Item)
  /-- An ingredient. -/
  | ingredient (i : Chef.Ingredient)
  /-- A kitchen. -/
  | kitchen (k : Chef.Kitchen)
  /-- A machine's panel. -/
  | display (d : Display)
  /-- The rejection of a source. -/
  | rejection (r : Rejection)
  /-- A fault, by the words for it. -/
  | fault (message : Text)
  /-- An incident with what it is about. -/
  | incident (kind : IncidentKind) (args : List Value)
  /-- Something that only has a name. -/
  | named (name : Value)
  /-- A step result, with the panel, the place of the next instruction, the output, the edits, the
      signal, and what went wrong, which is null if nothing did. -/
  | result (state : Value) (next : Option Span) (output : Option Text) (edits : Option (List Edit))
      (signal : Option Text) (error : Value)

instance : Inhabited Value := ⟨.null⟩

namespace Value

/-- The map of the given entries. -/
def mapOf (entries : List (Key × Value)) : Value :=
  .map (Key.distinct entries)

/-- Whether a value reports that a source was rejected, as an error or by its name. -/
def isParseError : Value → Bool
  | .rejection _ => true
  | .named (.text t) => t = "ParseError"
  | _ => false

/-- Whether a value reports a fault, as an error or by its name. -/
def isRuntimeError : Value → Bool
  | .fault _ => true
  | .named (.text t) => t = "RuntimeError"
  | _ => false

end Value

/-- The word for a result that execution pauses at. -/
def pausedWord : Text := "paused"

/-- A fault as a value, or null if there is none. -/
def Value.ofFault : Option Fault → Value
  | some f => .fault f.message
  | none => .null

/-- A machine's step result as a value. -/
def StepResult.toValue (r : StepResult) : Value :=
  .result (.display r.display) r.next r.output r.edits (if r.paused then some pausedWord else none)
    (.ofFault r.error)

end Esolang
