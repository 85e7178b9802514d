/-
  File:      Esolang/Yaml/Node.lean
  Subject:   A YAML document as a tree of nodes.

  A node is a text, a list or a map, with a tag that says what it stands for. A node without a tag
  gets one by its form: a text without quotes by its meaning, any other node by its kind. A node
  with an anchor can be referred to, and a reference stands for the node itself.

  * `Tag`, `Node`: the tree.
  * `Reading`: reading tokens one after another, with the anchors and the tag handles known so far.
  * `Node.read`: a node; `Node.ofDocument`: the only node of a document.
-/
import Esolang.Yaml.Layout

namespace Esolang.Yaml

/-! ## 1. Tags -/

/-- What a node stands for. -/
inductive Tag where
  | text
  | null
  | bool
  | whole
  | decimal
  | date
  | merge
  | equals
  | list
  | map
  | orderedMap
  | pairs
  | set
  | binary
  /-- Something unknown. -/
  | other (name : Text)
deriving DecidableEq

namespace Tag

/-- What the names of all known tags begin with. -/
def front : String := "tag:yaml.org,2002:"

/-- The known tags with their names. -/
def known : List (String × Tag) :=
  [("str", .text), ("null", .null), ("bool", .bool), ("int", .whole), ("float", .decimal),
   ("timestamp", .date), ("merge", .merge), ("value", .equals), ("seq", .list), ("map", .map),
   ("omap", .orderedMap), ("pairs", .pairs), ("set", .set), ("binary", .binary)]

/-- The tag of a name. -/
def ofName (name : Text) : Tag :=
  match known.find? fun (short, _) => Text.ofString front ++ Text.ofString short = name with
  | some (_, tag) => tag
  | none => .other name

/-- The name of a tag. -/
def name : Tag → Text
  | .other name => name
  | tag => Text.ofString front ++ ((known.find? (·.2 = tag)).map fun e => Text.ofString e.1).getD []

/-- The tag of a text without quotes. -/
def ofMeaning : Meaning → Tag
  | .text => .text
  | .null => .null
  | .bool _ => .bool
  | .whole => .whole
  | .decimal => .decimal
  | .date => .date
  | .merge => .merge
  | .equals => .equals

end Tag

/-! ## 2. Nodes -/

/-- A node of a document, with its tag and the place where it begins. -/
inductive Node where
  /-- A text. -/
  | scalar (tag : Tag) (text : Text) (place : Place)
  /-- A list. -/
  | list (tag : Tag) (items : List Node) (place : Place)
  /-- A map. -/
  | map (tag : Tag) (entries : List (Node × Node)) (place : Place)

namespace Node

/-- Where a node begins. -/
def place : Node → Place
  | .scalar _ _ p => p
  | .list _ _ p => p
  | .map _ _ p => p

/-- The tag of a node. -/
def tag : Node → Tag
  | .scalar t _ _ => t
  | .list t _ _ => t
  | .map t _ _ => t

/-- What a node is called in messages. -/
def kindName : Node → Text
  | .scalar .. => "scalar"
  | .list .. => "sequence"
  | .map .. => "mapping"

/-- A node that is not written. -/
def absent (p : Place) : Node := .scalar .null [] p

end Node

/-! ## 3. Reading tokens -/

/-- What is known while a document is read. -/
structure Desk where
  /-- The tokens that are left. -/
  feed : Feed
  /-- What the handles of tags stand for. -/
  handles : Table Text Text
  /-- The nodes with an anchor: where they begin, and what they are as soon as they are read. -/
  anchors : Table Text (Place × Option Node)

/-- Reading from a row of tokens. -/
abbrev Reading (α : Type) := StateT Desk (Except ReadError) α

namespace Reading

/-- The error of wrong nesting. -/
def misnested {α : Type} (context : Option (String × Place)) (problem : Text) (place : Place) :
    Reading α :=
  throw (.flawed .nesting ⟨context.map (Text.ofString ·.1), context.map (·.2), problem, place⟩)

/-- The next token. -/
def peek : Reading Token := do
  let d ← get
  match d.feed.tokens with
  | t :: _ => pure t
  | [] => throw (d.feed.flaw.getD .notPlain)

/-- Over the next token. -/
def drop : Reading Unit :=
  modify fun d => { d with feed := { d.feed with tokens := d.feed.tokens.tail } }

/-- The handles that are always known. -/
def standardHandles : Table Text Text := [("!", "!"), ("!!", Tag.front)]

/-- Takes note of an anchor before its node is read. -/
def announce (anchor : Option Text) (place : Place) : Reading Unit := do
  match anchor with
  | none => pure ()
  | some name =>
    match (← get).anchors.get? name with
    | some (first, _) =>
      throw (.flawed .references
        ⟨some (Text.ofString "found duplicate anchor " ++ name.quoted ++
          Text.ofString "; first occurrence"),
         some first, "second occurrence", place⟩)
    | none => modify fun d => { d with anchors := d.anchors.put name (place, none) }

/-- Takes note of a node that has an anchor. -/
def settle (anchor : Option Text) (n : Node) : Reading Node := do
  match anchor with
  | none => pure n
  | some name =>
    modify fun d => { d with anchors := d.anchors.put name (n.place, some n) }
    pure n

/-- The node that a reference stands for. A node that holds a reference to itself is not plain
    data. -/
def referred (name : Text) (place : Place) : Reading Node := do
  match (← get).anchors.get? name with
  | some (_, some n) => pure n
  | some (_, none) => throw .notPlain
  | none =>
    throw (.flawed .references ⟨none, none, Text.ofString "found undefined alias " ++ name.quoted,
      place⟩)

/-- What stands before a node. -/
structure Properties where
  /-- Its anchor. -/
  anchor : Option Text
  /-- The handle and the name of its tag, and where they stand. -/
  tag : Option (Option Text × Text × Place)
  /-- Where all this begins. -/
  start : Option Place

/-- An anchor and a tag, in either order, or one of them, or none. -/
def properties : Reading Properties := do
  let first ← peek
  match first.kind with
  | .anchor name => do
    drop
    let second ← peek
    match second.kind with
    | .tag handle tag => do
      drop
      pure ⟨some name, some (handle, tag, second.start), some first.start⟩
    | _ => pure ⟨some name, none, some first.start⟩
  | .tag handle tag => do
    drop
    let second ← peek
    match second.kind with
    | .anchor name => do
      drop
      pure ⟨some name, some (handle, tag, first.start), some first.start⟩
    | _ => pure ⟨none, some (handle, tag, first.start), some first.start⟩
  | _ => pure ⟨none, none, none⟩

/-- The full name of a tag. -/
def fullTag (p : Properties) : Reading (Option Text) := do
  match p.tag with
  | none => pure none
  | some (none, name, _) => pure (some name)
  | some (some handle, name, place) =>
    match (← get).handles.get? handle with
    | some front => pure (some (front ++ name))
    | none =>
      misnested (some ("while parsing a node", p.start.getD place))
        (Text.ofString "found undefined tag handle " ++ handle.quoted) place

/-- The tag of a node that is given by its form, unless another one is written. -/
def tagOr (byForm : Tag) (written : Option Text) : Tag :=
  match written with
  | none => byForm
  | some name => if name = "!" then byForm else .ofName name

/-- The meaning of a text where a line feed at its end does not count. -/
def looseMeaning (t : Text) : Meaning :=
  if 1 < t.length && t.endsWith [Text.newline] then meaning t.dropLast else meaning t

/-- The tag of a text. A lone exclamation mark makes a text in quotes read as one without. -/
def textTag (written : Option Text) (plain : Bool) (t : Text) : Tag :=
  tagOr (if plain || written.isSome then .ofMeaning (looseMeaning t) else .text) written

end Reading

/-! ## 4. Nodes from tokens -/

open Reading

/-- Whether a token ends an entry of a map in a block. -/
def TokenKind.endsEntry (k : TokenKind) : Bool := k = .key || k = .value || k = .blockEnd

/-- Whether a token ends an item of a list in a block; a list that is not indented also ends at a
    key or a value. -/
def TokenKind.endsItem (indented : Bool) (k : TokenKind) : Bool :=
  k = .item || k = .blockEnd || (!indented && (k = .key || k = .value))

/-- The error of something in brackets that is neither divided nor closed. -/
def unclosed {α : Type} (context expected : String) (opened : Place) (t : Token) : Reading α :=
  misnested (some (context, opened))
    (Text.ofString expected ++ Text.ofString ", but got " ++ t.kind.name.quoted) t.start

/-- The error of something that is not indented like the block around it. -/
def unindented {α : Type} (context : String) (opened : Place) (t : Token) : Reading α :=
  misnested (some (context, opened))
    (Text.ofString "expected <block end>, but found " ++ t.kind.name.quoted) t.start

mutual

/-- A node. Outside of brackets it may be a block, and where `flush` holds, also a list that is not
    indented. -/
def Node.read : Nat → Bool → Bool → Reading Node
  | 0, _, _ => throw .notPlain
  | fuel + 1, block, flush => do
    let first ← peek
    match first.kind with
    | .reference name => do
      drop
      referred name first.start
    | _ => do
      let p ← properties
      let written ← fullTag p
      let t ← peek
      let start := p.start.getD t.start
      let listOf (items : Reading (List Node)) : Reading Node := do
        announce p.anchor start
        let items ← items
        settle p.anchor (.list (tagOr .list written) items start)
      let mapOf (entries : Reading (List (Node × Node))) : Reading Node := do
        announce p.anchor start
        let entries ← entries
        settle p.anchor (.map (tagOr .map written) entries start)
      let textOf (plain : Bool) (text : Text) : Reading Node := do
        announce p.anchor start
        settle p.anchor (.scalar (textTag written plain text) text start)
      let other : Reading Node :=
        if p.start.isSome then textOf true []
        else
          misnested (some (if block then
                             "while parsing a block node"
                           else "while parsing a flow node", start))
            (Text.ofString "expected the node content, but found " ++ t.kind.name.quoted) t.start
      match t.kind with
      | .item => if flush then listOf (blockItems fuel false t.start) else other
      | .scalar text plain => do
        drop
        textOf plain text
      | .flowListStart => listOf do
        drop
        flowItems fuel t.start true
      | .flowMapStart => mapOf do
        drop
        flowEntries fuel t.start true
      | .listStart => if block then listOf (do drop; blockItems fuel true t.start) else other
      | .mapStart => if block then mapOf (do drop; blockEntries fuel t.start) else other
      | _ => other

/-- The items of a list in a block. -/
def blockItems : Nat → Bool → Place → Reading (List Node)
  | 0, _, _ => throw .notPlain
  | fuel + 1, indented, opened => do
    let t ← peek
    if t.kind = .item then do
      drop
      let next ← peek
      let n ← if next.kind.endsItem indented then pure (Node.absent t.stop)
              else Node.read fuel true false
      let more ← blockItems fuel indented opened
      pure (n :: more)
    else if !indented then pure []
    else if t.kind = .blockEnd then do
      drop
      pure []
    else unindented "while parsing a block collection" opened t

/-- The entries of a map in a block. -/
def blockEntries : Nat → Place → Reading (List (Node × Node))
  | 0, _ => throw .notPlain
  | fuel + 1, opened => do
    let t ← peek
    if t.kind = .key then do
      drop
      let next ← peek
      let k ← if next.kind.endsEntry then pure (Node.absent t.stop) else Node.read fuel true true
      let v ← blockValue fuel
      let more ← blockEntries fuel opened
      pure ((k, v) :: more)
    else if t.kind = .blockEnd then do
      drop
      pure []
    else unindented "while parsing a block mapping" opened t

/-- The value of an entry in a block; there may be none. -/
def blockValue : Nat → Reading Node
  | 0 => throw .notPlain
  | fuel + 1 => do
    let t ← peek
    if t.kind = .value then do
      drop
      let next ← peek
      if next.kind.endsEntry then pure (Node.absent t.stop) else Node.read fuel true true
    else pure (Node.absent t.start)

/-- The items of a list in brackets. -/
def flowItems : Nat → Place → Bool → Reading (List Node)
  | 0, _, _ => throw .notPlain
  | fuel + 1, opened, first => do
    let t ← peek
    if t.kind = .flowListEnd then do
      drop
      pure []
    else do
      if !first then
        if t.kind = .comma then drop
        else unclosed "while parsing a flow sequence" "expected ',' or ']'" opened t
      let t ← peek
      if t.kind = .flowListEnd then do
        drop
        pure []
      else do
        let n ←
          if t.kind = .key then do
            drop
            let (k, v) ← flowPair fuel .flowListEnd t.stop
            pure (Node.map .map [(k, v)] t.start)
          else Node.read fuel false false
        let more ← flowItems fuel opened false
        pure (n :: more)

/-- The entries of a map in brackets. -/
def flowEntries : Nat → Place → Bool → Reading (List (Node × Node))
  | 0, _, _ => throw .notPlain
  | fuel + 1, opened, first => do
    let t ← peek
    if t.kind = .flowMapEnd then do
      drop
      pure []
    else do
      if !first then
        if t.kind = .comma then drop
        else unclosed "while parsing a flow mapping" "expected ',' or '\x7d'" opened t
      let t ← peek
      if t.kind = .flowMapEnd then do
        drop
        pure []
      else do
        let entry ←
          if t.kind = .key then do
            drop
            flowPair fuel .flowMapEnd t.stop
          else do
            let k ← Node.read fuel false false
            let next ← peek
            pure (k, Node.absent next.start)
        let more ← flowEntries fuel opened false
        pure (entry :: more)

/-- A key in brackets and its value, after the mark of the key, which ends at a given place. -/
def flowPair : Nat → TokenKind → Place → Reading (Node × Node)
  | 0, _, _ => throw .notPlain
  | fuel + 1, closing, stop => do
    let t ← peek
    let k ←
      if t.kind = .value || t.kind = .comma || t.kind = closing then pure (Node.absent stop)
      else Node.read fuel false false
    let t ← peek
    if t.kind = .value then do
      drop
      let next ← peek
      let v ←
        if next.kind = .comma || next.kind = closing then pure (Node.absent t.stop)
        else Node.read fuel false false
      pure (k, v)
    else pure (k, Node.absent t.start)

end

/-! ## 5. Documents -/

/-- Over the marks that end a document. -/
def skipEnds : Nat → Reading Unit
  | 0 => pure ()
  | fuel + 1 => do
    let t ← peek
    if t.kind = .documentEnd then do
      drop
      skipEnds fuel

/-- The directives before a document; `seen` says whether its version is known. -/
def directives : Nat → Bool → Reading Unit
  | 0, _ => pure ()
  | fuel + 1, seen => do
    let t ← peek
    match t.kind with
    | .version major => do
      drop
      if seen then misnested none "found duplicate YAML directive" t.start
      else if major ≠ 1 then
        misnested none "found incompatible YAML document (version 1.* is required)" t.start
      else directives fuel true
    | .handle name front => do
      drop
      if (← get).handles.has name then
        misnested none (Text.ofString "duplicate tag handle " ++ name.quoted) t.start
      else do
        modify fun d => { d with handles := d.handles.put name front }
        directives fuel seen
    | .otherDirective => do
      drop
      directives fuel seen
    | _ => modify fun d => { d with handles := d.handles ++ standardHandles }

/-- The opening of a document up to the mark that begins it: where it begins, or nothing if there is
    no further document. -/
def opening (fuel : Nat) : Reading (Option Place) := do
  skipEnds fuel
  let t ← peek
  if t.kind = .streamEnd then pure none
  else do
    modify fun d => { d with handles := [] }
    directives fuel false
    let mark ← peek
    if mark.kind = .documentStart then do
      drop
      pure (some t.start)
    else
      misnested none (Text.ofString "expected '<document start>', but found " ++
        mark.kind.name.quoted)
        mark.start

/-- Whether a token is a directive. -/
def TokenKind.isDirective : TokenKind → Bool
  | .version _ | .handle .. | .otherDirective => true
  | _ => false

/-- The node of a document that begins with a mark; there may be none. -/
def markedNode (fuel : Nat) : Reading Node := do
  let t ← peek
  if t.kind.isDirective || t.kind = .documentStart || t.kind = .documentEnd || t.kind =
    .streamEnd then
    pure (Node.absent t.start)
  else Node.read fuel true false

/-- The node of the first document. -/
def firstNode (fuel : Nat) : Reading (Option Node) := do
  let t ← peek
  if t.kind.isDirective || t.kind = .documentStart || t.kind = .streamEnd then do
    match ← opening fuel with
    | none => pure none
    | some _ => some <$> markedNode fuel
  else some <$> Node.read fuel true false

/-- The node of the only document. -/
def onlyNode (fuel : Nat) : Reading (Option Node) := do
  match ← firstNode fuel with
  | none => pure none
  | some n => do
    match ← opening fuel with
    | none => pure (some n)
    | some place =>
      throw (.flawed .references
        ⟨some "expected a single document in the stream", some n.place,
          "but found another document", place⟩)

/-- The only node of a document; there may be none. -/
def Node.ofDocument (source : Text) : Except ReadError (Option Node) :=
  match unprintable? source with
  | some e => .error e
  | none =>
    let feed := Feed.of source
    ((onlyNode (4 * feed.tokens.length + 8)).run ⟨feed, standardHandles, []⟩).map (·.1)

end Esolang.Yaml
