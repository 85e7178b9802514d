/-
  File:      Esolang/Value/Plain.lean
  Subject:   Plain data: what JSON and YAML can hold.

  * `Key`, `Key.distinct`: the keys of maps; truth values and the numbers 0 and 1 are the same keys.
  * `Plain`: the data.
-/
import Esolang.Table
import Esolang.Text.CodePoint

namespace Esolang

/-- A key of a map. -/
inductive Key where
  /-- A text. -/
  | text (t : Text)
  /-- An integer. -/
  | int (n : Int)
  /-- A truth value. -/
  | bool (b : Bool)
  /-- Nothing. -/
  | null
deriving DecidableEq

namespace Key

/-- What decides whether two keys are the same: a truth value counts as 0 or 1. -/
def identity : Key → Key
  | .bool b => .int (if b then 1 else 0)
  | k => k

/-- A map with one more entry: of two entries with the same key, the first gives the key and its
    place and the last the value. -/
def putEntry {α : Type} (entries : List (Key × α)) (k : Key) (v : α) : List (Key × α) :=
  match entries with
  | [] => [(k, v)]
  | (k', v') :: rest =>
    if k'.identity = k.identity then (k', v) :: rest else (k', v') :: putEntry rest k v

/-- Entries put in one after another. -/
def distinct {α : Type} (entries : List (Key × α)) : List (Key × α) :=
  entries.foldl (fun acc (k, v) => putEntry acc k v) []

end Key

/-- Plain data. -/
inductive Plain where
  /-- Nothing. -/
  | null
  /-- A truth value. -/
  | bool (b : Bool)
  /-- An integer. -/
  | int (n : Int)
  /-- A number that is no integer, as it was written. -/
  | decimal (literal : Text)
  /-- A text. -/
  | text (t : Text)
  /-- A list. -/
  | list (items : List Plain)
  /-- Keys with their data, in order. -/
  | map (entries : List (Key × Plain))

instance : Inhabited Plain := ⟨.null⟩

namespace Plain

/-- A map whose keys are the given names. -/
def record (fields : List (String × Plain)) : Plain :=
  .map (fields.map fun (name, p) => (.text name, p))

/-- Some data, or nothing. -/
def optional {α : Type} (f : α → Plain) : Option α → Plain
  | some a => f a
  | none => .null

end Plain

end Esolang
