/-
  File:      Esolang/Proofs/Document.lean
  Subject:   A host's copy of the source, and what reported edits make of it.

  A document is the list of its lines. An edit replaces what its span covers, line breaks in its
  text begin new lines, and a place behind the last line is the end of the document.

  * `Edit.applyTo`: a document after an edit; `applyTo_within`, `applyTo_behind`: an edit inside of
    one line, and a line put behind the last one.
  * `charAt`: what stands at a line and column; `charAt_modify`: after one of them was replaced.
  * `Span.covered`: what a stretch of a line covers; `mem_placed_iff`: what is read of a source is
    what stands there, and `placed_before`: it is read in order.
  * `follow`: a document after all the edits that a run of steps has reported.
-/
import Esolang.Language
import Esolang.Proofs.Lists
import Esolang.Proofs.Text

namespace Esolang

/-! ## 1. Edits -/

/-- A document after an edit. A place behind the last line is the end of the document. -/
def Edit.applyTo (e : Edit) (doc : List Text) : List Text :=
  let row := e.span.startLine.toNat
  let lastRow := (e.span.endLine.getD e.span.startLine).toNat
  if row < doc.length then
    let front := (doc[row]?.getD []).take (e.span.startCol.getD 0).toNat
    let back :=
      match e.span.endCol with
      | some col => (doc[lastRow]?.getD []).drop col.toNat
      | none => []
    doc.take row ++ Text.lines (front ++ e.text ++ back) ++ doc.drop (lastRow + 1)
  else doc.dropLast ++ Text.lines (doc.getLast?.getD [] ++ e.text)

section Edits

variable {doc : List Text} {row : Nat} {line text : Text}

/-- An edit inside of one line, without a line break, changes this line alone. -/
theorem applyTo_within (hrow : doc[row]? = some line) {first past : Nat}
    (hline : Text.newline ∉ line) (htext : Text.newline ∉ text) :
    (Edit.mk (.within row first past) text).applyTo doc =
      doc.set row (line.take first ++ text ++ line.drop past) := by
  have hlt : row < doc.length := (List.getElem?_eq_some_iff.mp hrow).1
  have hlines : Text.lines (line.take first ++ text ++ line.drop past) =
      [line.take first ++ text ++ line.drop past] := by
    refine Text.splitOn_of_not_mem fun hmem => ?_
    rcases List.mem_append.mp hmem with hmem | hmem
    · rcases List.mem_append.mp hmem with hmem | hmem
      · exact hline (List.mem_of_mem_take hmem)
      · exact htext hmem
    · exact hline (List.mem_of_mem_drop hmem)
  have happly : (Edit.mk (.within row first past) text).applyTo doc =
      if row < doc.length then
        doc.take row ++ Text.lines ((doc[row]?.getD []).take first ++ text ++
          (doc[row]?.getD []).drop past) ++
          doc.drop (row + 1)
      else doc.dropLast ++ Text.lines (doc.getLast?.getD [] ++ text) := rfl
  rw [happly, if_pos hlt, hrow, Option.getD_some, hlines, List.set_eq_take_append_cons_drop,
    if_pos hlt, List.append_assoc]
  rfl

/-- A line break and a line, put behind the last line, add this line. -/
theorem applyTo_behind (hdoc : doc ≠ []) (hlines : ∀ line ∈ doc, Text.newline ∉ line)
    (htext : Text.newline ∉ text) (first past : Nat) :
    (Edit.mk (.within doc.length first past) (Text.newline :: text)).applyTo doc =
      doc ++ [text] := by
  have hlast : Text.newline ∉ doc.getLast hdoc := hlines _ (List.getLast_mem hdoc)
  have happly : (Edit.mk (.within doc.length first past) (Text.newline :: text)).applyTo doc =
      if doc.length < doc.length then
        doc.take doc.length ++
          Text.lines ((doc[doc.length]?.getD []).take first ++ Text.newline :: text ++
            (doc[doc.length]?.getD []).drop past) ++ doc.drop (doc.length + 1)
      else doc.dropLast ++ Text.lines (doc.getLast?.getD [] ++ Text.newline :: text) := rfl
  rw [happly, if_neg (Nat.lt_irrefl _), List.getLast?_eq_some_getLast hdoc, Option.getD_some,
    Text.lines, Text.splitOn_append hlast, Text.splitOn_of_not_mem htext]
  calc doc.dropLast ++ [doc.getLast hdoc, text]
      = doc.dropLast ++ [doc.getLast hdoc] ++ [text] := (List.append_assoc _ [_] [_]).symm
    _ = doc ++ [text] := by rw [List.dropLast_concat_getLast hdoc]

end Edits

/-! ## 2. Places -/

/-- What stands at a line and column. -/
def charAt (doc : List Text) (row col : Nat) : Option CodePoint := doc[row]?.bind (·[col]?)

theorem charAt_modify (doc : List Text) (row col : Nat) (c : CodePoint) (row' col' : Nat) :
    charAt (doc.modify row (·.set col c)) row' col' =
      if row' = row ∧ col' = col then (charAt doc row' col').map fun _ => c
      else charAt doc row' col' := by
  unfold charAt
  rw [List.getElem?_modify]
  cases doc[row']? with
  | none => simp
  | some line =>
    by_cases hrow : row = row'
    · subst hrow
      by_cases hcol : col = col'
      · subst hcol
        by_cases hlt : col < line.length
        · simp [hlt]
        · simp [hlt]
      · simp [hcol, Ne.symm hcol]
    · simp [hrow, Ne.symm hrow]

/-- An edit that replaces one character by another. -/
theorem applyTo_cell {doc : List Text} {row col : Nat} {line : Text} {c : CodePoint}
    (hrow : doc[row]? = some line) (hline : Text.newline ∉ line) (hcol : col < line.length)
    (hc : c ≠ Text.newline) :
    (Edit.mk (.cell row col) [c]).applyTo doc = doc.modify row (·.set col c) := by
  have htext : Text.newline ∉ [c] := fun hmem => hc (List.mem_singleton.mp hmem).symm
  have hset : line.take col ++ [c] ++ line.drop (col + 1) = line.set col c := by
    rw [List.set_eq_take_append_cons_drop, if_pos hcol, List.append_assoc]
    rfl
  have hmodify : doc.modify row (·.set col c) = doc.set row (line.set col c) := by
    rw [List.modify_eq_set, hrow]
    rfl
  rw [hmodify, ← hset]
  exact applyTo_within hrow hline htext

/-- What a stretch of a single line covers. -/
def Span.covered (l : Span) (doc : List Text) : Option Text :=
  doc[l.startLine.toNat]?.map fun line =>
    List.drop (l.startCol.getD 0).toNat
      (match l.endCol with
      | some past => line.take past.toNat
      | none => line)

theorem covered_cell {doc : List Text} {row col : Nat} {c : CodePoint}
    (h : charAt doc row col = some c) : (Span.cell row col).covered doc = some [c] := by
  obtain ⟨line, hline, hc⟩ := Option.bind_eq_some_iff.mp h
  have hcovered : (Span.cell row col).covered doc =
      doc[row]?.map fun line => (line.take (col + 1)).drop col := rfl
  have hcut : (line.take (col + 1)).drop col = [c] := by
    rw [List.take_add_one, hc, List.drop_append, List.drop_take_self]
    have hlt : col < line.length := (List.getElem?_eq_some_iff.mp hc).1
    simp [Nat.min_eq_left (Nat.le_of_lt hlt)]
  rw [hcovered, hline, Option.map_some, hcut]

/-- Whatever is read of a source stands where it is said to stand. -/
theorem charAt_of_mem_placed {α : Type} {decode : CodePoint → Option α} {code : Text} {p : Placed α}
    (h : p ∈ placed decode code) :
    ∃ c, charAt code.lines p.row p.col = some c ∧ decode c = some p.item := by
  obtain ⟨⟨line, row⟩, hline, hp⟩ := List.mem_flatMap.mp h
  obtain ⟨⟨c, col⟩, hc, hdecode⟩ := List.mem_filterMap.mp hp
  obtain ⟨item, hitem, rfl⟩ := Option.map_eq_some_iff.mp hdecode
  rw [List.mk_mem_zipIdx_iff_getElem?] at hline hc
  exact ⟨c, Option.bind_eq_some_iff.mpr ⟨line, hline, hc⟩, hitem⟩

/-- **What is read of a source is all that can be read of it**, at the places where it stands. -/
theorem mem_placed_iff {α : Type} {decode : CodePoint → Option α} {code : Text} {p : Placed α} :
    p ∈ placed decode code ↔ ∃ c, charAt code.lines p.row p.col = some c ∧
      decode c = some p.item := by
  refine ⟨charAt_of_mem_placed, ?_⟩
  rintro ⟨c, hchar, hdecode⟩
  obtain ⟨line, hline, hc⟩ := Option.bind_eq_some_iff.mp hchar
  refine List.mem_flatMap.mpr ⟨(line, p.row), List.mk_mem_zipIdx_iff_getElem?.mpr hline, ?_⟩
  refine List.mem_filterMap.mpr ⟨(c, p.col), List.mk_mem_zipIdx_iff_getElem?.mpr hc, ?_⟩
  exact Option.map_eq_some_iff.mpr ⟨p.item, hdecode, rfl⟩

/-- What stands at one place comes before what stands at another when a source is read. -/
def Placed.Before {α : Type} (p q : Placed α) : Prop :=
  p.row < q.row ∨ p.row = q.row ∧ p.col < q.col

theorem row_of_mem_placedInLine {α : Type} {decode : CodePoint → Option α} {row : Nat} {line : Text}
    {p : Placed α} (h : p ∈ placedInLine decode row line) : p.row = row := by
  obtain ⟨_, -, hp⟩ := List.mem_filterMap.mp h
  obtain ⟨_, -, rfl⟩ := Option.map_eq_some_iff.mp hp
  rfl

/-- **A source is read from its first place to its last.** -/
theorem placed_before {α : Type} (decode : CodePoint → Option α) (code : Text) :
    (placed decode code).Pairwise Placed.Before := by
  refine List.pairwise_flatMap.mpr ⟨fun entry _ => ?_, (List.pairwise_zipIdx _ 0).imp
    fun hlt p hp q hq => .inl ?_⟩
  · refine List.pairwise_filterMap.mpr ((List.pairwise_zipIdx _ 0).imp fun hlt p hp q hq => .inr ?_)
    obtain ⟨_, -, rfl⟩ := Option.map_eq_some_iff.mp hp
    obtain ⟨_, -, rfl⟩ := Option.map_eq_some_iff.mp hq
    exact ⟨rfl, hlt⟩
  · rw [row_of_mem_placedInLine hp, row_of_mem_placedInLine hq]
    exact hlt

/-! ## 3. Reported edits -/

/-- The edits that a step has reported. -/
def reported : Except Breakdown StepResult → List Edit
  | .ok r => r.edits.getD []
  | .error _ => []

/-- A document after the edits of some steps, one after another. -/
def follow (doc : List Text) (outcomes : List (Except Breakdown StepResult)) : List Text :=
  (outcomes.flatMap reported).foldl (fun doc e => e.applyTo doc) doc

theorem follow_singleton (doc : List Text) (o : Except Breakdown StepResult) :
    follow doc [o] = (reported o).foldl (fun doc e => e.applyTo doc) doc := by
  rw [follow, List.flatMap_singleton]

theorem follow_append (doc : List Text) (outcomes more : List (Except Breakdown StepResult)) :
    follow doc (outcomes ++ more) = follow (follow doc outcomes) more := by
  unfold follow
  rw [List.flatMap_append, List.foldl_append]

/-- The edits of an attempt at a step. -/
def attempted : Except Failure Progress → List Edit
  | .ok p => p.edits.getD []
  | .error _ => []

theorem reported_step {σ : Type} (L : Language σ) (m : Machine σ) :
    reported (L.step m).outcome = attempted (L.advance m).outcome := by
  unfold Language.step
  generalize L.advance m = a
  obtain ⟨outcome, m'⟩ := a
  cases outcome with
  | ok p => rfl
  | error e =>
    cases e with
    | fault f => rfl
    | breakdown b => rfl

end Esolang
