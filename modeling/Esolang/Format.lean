/-
  File:      Esolang/Format.lean
  Subject:   The text formats in which values travel.

  * `Format`: the formats, and `Format.find?`: the format of a name.
  * `serialize`: a value as text; `deserialize`: the plain data of a text.
-/
import Esolang.Json.Read
import Esolang.Json.Write
import Esolang.Yaml.Read
import Esolang.Yaml.Write
import Esolang.Value.Transport

namespace Esolang

/-- A text format. -/
inductive Format where
  | json
  | yaml
deriving DecidableEq

/-- The name of a format. -/
def Format.name : Format → Text
  | .json => "json"
  | .yaml => "yaml"

/-- The format of a name, which may be in capitals; no name at all names no format. -/
def Format.find? (given : Option Text) : Option Format :=
  [Format.json, Format.yaml].find? fun f => f.name = (given.getD []).lower

/-- Why a value cannot be written, or a text cannot be read. -/
inductive FormatError where
  /-- There is no such format. -/
  | unsupported (given : Option Text)
  /-- A number breaks a limit. -/
  | broken (why : Breakdown)
  /-- The text is not JSON. -/
  | notJson (source : Text) (why : Json.ReadError)
  /-- The text is not YAML. -/
  | notYaml (source : Text) (why : Yaml.ReadError)

/-- The words for an unknown format. -/
def unsupportedMessage (given : Option Text) : Text :=
  let name : Text :=
    match given with
    | some t => t.quoted
    | none => "None"
  Text.ofString "Unsupported serialization format: " ++ name

/-- The words for an error. -/
def FormatError.message : FormatError → Text
  | .unsupported given => unsupportedMessage given
  | .broken why => why.message
  | .notJson source why => why.message source
  | .notYaml source why => why.message source

/-- Plain data as text. -/
def Plain.write (v : Plain) (f : Format) (pretty : Bool) : Except Breakdown Text :=
  match f with
  | .json => Json.write pretty v
  | .yaml => Yaml.write v

/-- A value as text in a format given by name. -/
def serialize (v : Value) (format : Option Text) (pretty : Bool) : Except FormatError Text := do
  let p ← v.plain.mapError .broken
  match Format.find? format with
  | none => .error (.unsupported format)
  | some f => (p.write f pretty).mapError .broken

/-- The plain data of a text in a format given by name. -/
def deserialize (source : Text) (format : Option Text) : Except FormatError Plain :=
  match Format.find? format with
  | none => .error (.unsupported format)
  | some .json => (Json.read source).mapError (.notJson source)
  | some .yaml => (Yaml.read source).mapError (.notYaml source)

end Esolang
