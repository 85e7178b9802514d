/-
  File:      Esolang/Yaml/Read.lean
  Subject:   The plain data of a YAML document.

  The tag of a node says which data it stands for. A map can merge others, whose entries give way to
  its own, and those of a later one to those of an earlier one. Of entries with the same key the
  first gives the key and the last the data.

  Errors are met layer by layer, from the root of the tree downwards, so all nodes are looked
  through in this order before the data are put together.

  * `Node.scalarText`, `scalarData`: texts and what they stand for.
  * `Node.merged`: the entries of a map.
  * `Node.survey`: the first error in a tree.
  * `read`: a whole document.
-/
import Esolang.Yaml.Node
import Esolang.Yaml.Number

namespace Esolang.Yaml

/-! ## 1. Texts -/

/-- The error of a node that does not stand for the data it should. -/
def unfit {α : Type} (context : Option (Text × Place)) (problem : Text) (place : Place) :
    Except ReadError α :=
  .error (.flawed .data ⟨context.map (·.1), context.map (·.2), problem, place⟩)

/-- The error of a node of the wrong kind. -/
def wrongKind {α : Type} (expected : String) (n : Node) : Except ReadError α :=
  unfit none
    (Text.ofString "expected a " ++ Text.ofString expected ++ Text.ofString " node, but found " ++
      n.kindName) n.place

mutual

/-- The text of a node; a map has the text of its value under the mark `=`. -/
def Node.scalarText : Node → Except ReadError Text
  | .scalar _ t _ => .ok t
  | .list tag items p => wrongKind "scalar" (.list tag items p)
  | .map tag entries p =>
    match entriesText entries with
    | some t => t
    | none => wrongKind "scalar" (.map tag entries p)

/-- The text of the first value under the mark `=`. -/
def entriesText : List (Node × Node) → Option (Except ReadError Text)
  | [] => none
  | (k, v) :: rest => if k.tag = .equals then some v.scalarText else entriesText rest

end

/-- What a text with some tag stands for. -/
def scalarData (n : Node) : Except ReadError Plain := do
  match n.tag with
  | .text => .text <$> n.scalarText
  | .null => do
    let _ ← n.scalarText
    pure .null
  | .bool => do
    let t := (← n.scalarText).lower
    match boolWord? t with
    | some b => pure (.bool b)
    | none => .error (.notTruth t)
  | .whole => do
    let n ← wholeValue (← n.scalarText)
    pure (.int n)
  | .decimal => do decimalValue (← n.scalarText)
  | .date | .binary | .set => .error .notPlain
  | tag =>
    unfit none (Text.ofString "could not determine a constructor for the tag " ++ tag.name.quoted)
      n.place

/-! ## 2. Maps -/

/-- Whether a node stands for a list or a map. -/
def Node.isDeep (n : Node) : Bool :=
  n.tag = .list || n.tag = .map || n.tag = .orderedMap || n.tag = .pairs

/-- A key that is the mark `=` is a text like any other. -/
def Node.asKey : Node → Node
  | .scalar .equals t p => .scalar .text t p
  | n => n

/-- What is being read in a map. -/
def mapContext (p : Place) : Option (Text × Place) := some ("while constructing a mapping", p)

mutual

/-- The entries of a map: those that are merged into it, and its own. -/
def Node.merged : Node → Except ReadError (List (Node × Node))
  | .map _ entries p => do
    let (others, own) ← mergedEntries p entries
    pure (others ++ own)
  | _ => .ok []

/-- The entries that are merged into a map that begins at `p`, and its own. -/
def mergedEntries (p : Place) :
    List (Node × Node) → Except ReadError (List (Node × Node) × List (Node × Node))
  | [] => .ok ([], [])
  | (k, v) :: rest =>
    if k.tag = .merge then do
      let here ←
        match v with
        | .map tag entries q => Node.merged (.map tag entries q)
        | .list _ items _ => mergedItems p items
        | .scalar _ _ q =>
          unfit (mapContext p)
            "expected a mapping or list of mappings for merging, but found scalar" q
      let (others, own) ← mergedEntries p rest
      pure (here ++ others, own)
    else do
      let (others, own) ← mergedEntries p rest
      pure (others, (k.asKey, v) :: own)

/-- The entries of several maps that are merged into a map that begins at `p`, those of the last
    first. -/
def mergedItems (p : Place) : List Node → Except ReadError (List (Node × Node))
  | [] => .ok []
  | n :: rest => do
    match n with
    | .map .. => do
      let here ← n.merged
      let others ← mergedItems p rest
      pure (others ++ here)
    | _ =>
      unfit (mapContext p)
        (Text.ofString "expected a mapping for merging, but found " ++ n.kindName) n.place

end

/-- Data as a key. -/
def keyOf : Plain → Except ReadError Key
  | .text t => .ok (.text t)
  | .int n => .ok (.int n)
  | .bool b => .ok (.bool b)
  | .null => .ok .null
  | _ => .error .notPlain

/-! ## 3. The first error -/

/-- The key and the value of a map with a single entry, as an item of a list that begins at `p`. -/
def singleEntry (what : String) (p : Place) (n : Node) : Except ReadError (Node × Node) :=
  let context := some (Text.ofString what, p)
  match n with
  | .map _ [entry] _ => .ok entry
  | .map _ entries q =>
    unfit context
      (Text.ofString "expected a single mapping item, but found " ++ Decimal.ofNat entries.length
        ++ Text.ofString " items") q
  | _ =>
    unfit context (Text.ofString "expected a mapping of length 1, but found " ++ n.kindName) n.place

/-- The items of a list of pairs. -/
def pairItems (what : String) : Node → Except ReadError (List Node × Place)
  | .list _ items p => .ok (items, p)
  | n =>
    unfit (some (Text.ofString what, n.place))
      (Text.ofString "expected a sequence, but found " ++ n.kindName) n.place

/-- What is being read in a list of pairs. -/
def pairContext (tag : Tag) : String :=
  if tag = .orderedMap then "while constructing an ordered map" else "while constructing pairs"

/-- Looks at a node by itself. -/
def Node.admit (n : Node) : Except ReadError Unit := do
  if n.isDeep then pure ()
  else
    let _ ← scalarData n

/-- Looks at the nodes directly below a node, and gives them. -/
def Node.children (n : Node) : Except ReadError (List Node) := do
  match n.tag, n with
  | .list, .list _ items _ => do
    items.forM Node.admit
    pure items
  | .map, .map _ _ p => do
    let entries ← n.merged
    entries.forM fun (k, v) => do
      k.admit
      if k.isDeep then unfit (mapContext p) "found unhashable key" k.place
      v.admit
    pure (entries.map (·.2))
  | .list, _ => wrongKind "sequence" n
  | .map, _ => wrongKind "mapping" n
  | tag, _ => do
    let (items, p) ← pairItems (pairContext tag) n
    let entries ← items.mapM fun item => do
      let (k, v) ← singleEntry (pairContext tag) p item
      k.admit
      v.admit
      pure [k, v]
    pure entries.flatten

/-- Looks at the nodes below some nodes, layer by layer. -/
def survey : Nat → List Node → Except ReadError Unit
  | 0, _ => .ok ()
  | _, [] => .ok ()
  | fuel + 1, n :: rest => do
    let children ← n.children
    survey fuel (rest ++ children.filter Node.isDeep)

mutual

/-- How many nodes a tree has. -/
def Node.size : Node → Nat
  | .scalar .. => 1
  | .list _ items _ => sizeOfItems items + 1
  | .map _ entries _ => sizeOfEntries entries + 1

/-- How many nodes some trees have. -/
def sizeOfItems : List Node → Nat
  | [] => 0
  | n :: rest => n.size + sizeOfItems rest

/-- How many nodes the trees of some entries have. -/
def sizeOfEntries : List (Node × Node) → Nat
  | [] => 0
  | (k, v) :: rest => k.size + v.size + sizeOfEntries rest

end

/-! ## 4. Data -/

/-- The data of a tree. -/
def Node.data : Nat → Node → Except ReadError Plain
  | 0, _ => .error .notPlain
  | fuel + 1, n => do
    if n.isDeep then
      match n.tag, n with
      | .map, .map .. => do
        let entries ← n.merged
        let entries ← entries.mapM fun (k, v) => do
          let k ← keyOf (← Node.data fuel k)
          let v ← Node.data fuel v
          pure (k, v)
        pure (.map (Key.distinct entries))
      | .list, .list _ items _ => do
        let items ← items.mapM (Node.data fuel)
        pure (.list items)
      | tag, _ => do
        let (items, p) ← pairItems (pairContext tag) n
        let items ← items.mapM fun item => do
          let (k, v) ← singleEntry (pairContext tag) p item
          let k ← Node.data fuel k
          let v ← Node.data fuel v
          pure (Plain.list [k, v])
        pure (.list items)
    else scalarData n

/-- The plain data of a document. -/
def read (source : Text) : Except ReadError Plain := do
  match ← Node.ofDocument source with
  | none => pure .null
  | some n => do
    n.admit
    survey n.size (if n.isDeep then [n] else [])
    n.data (n.size + 1)

end Esolang.Yaml
