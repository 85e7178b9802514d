/-
  File:      Esolang/Proofs/Brainfuck/Nesting.lean
  Subject:   A program that is read is the tree of its source, laid out flat.

  While a source is read, the brackets still open cut it into a row of trees, each inside of the one
  before it. A closing bracket makes a loop of the last tree, which becomes a part of the one around
  it.

  * `items_placed`: what is read of a source, without the places.
  * `Draft.Shows`: a draft is such a row of trees; `Draft.Nested.add`: it stays one with every
    command.
  * `parse_lay`: the program of a source is the tree of its commands, laid out flat.
-/
import Esolang.Proofs.Brainfuck.Block
import Esolang.Proofs.Lists

namespace Esolang

/-! ## 1. Comments -/

theorem items_placedInLine {α : Type} (decode : CodePoint → Option α) (row : Nat) (line : Text) :
    (placedInLine decode row line).map (·.item) = line.filterMap decode := by
  unfold placedInLine
  generalize 0 = first
  induction line generalizing first with
  | nil => rfl
  | cons c cs ih =>
    have hrest := ih (first + 1)
    cases hc : decode c with
    | none => simp [List.zipIdx_cons, hc, hrest]
    | some x => simp [List.zipIdx_cons, hc, hrest]

theorem flatMap_filterMap_splitOn {α : Type} {decode : CodePoint → Option α} {sep : CodePoint}
    (hsep : decode sep = none) (t : Text) :
    (Text.splitOn sep t).flatMap (·.filterMap decode) = t.filterMap decode := by
  induction t with
  | nil => rfl
  | cons c cs ih =>
    rw [Text.splitOn]
    by_cases hc : c = sep
    · rw [if_pos hc, List.filterMap_cons, hc, hsep]
      exact ih
    · rw [if_neg hc]
      obtain ⟨first, pieces, hpieces⟩ := List.exists_cons_of_ne_nil (Text.splitOn_ne_nil sep cs)
      rw [hpieces] at ih ⊢
      rw [List.flatMap_cons] at ih ⊢
      rw [List.filterMap_cons, List.filterMap_cons, ← ih]
      cases decode c with
      | none => rfl
      | some x => rfl

/-- What is read of a source, without the places. The line breaks only give the places. -/
theorem items_placed {α : Type} {decode : CodePoint → Option α}
    (hbreak : decode Text.newline = none) (code : Text) :
    (placed decode code).map (·.item) = code.filterMap decode := by
  have hrows : ∀ (lines : List Text) (first : Nat),
      ((lines.zipIdx first).flatMap fun p => placedInLine decode p.2 p.1).map (·.item) =
        lines.flatMap (·.filterMap decode) := by
    intro lines
    induction lines with
    | nil => exact fun _ => rfl
    | cons line lines ih =>
      intro first
      rw [List.zipIdx_cons, List.flatMap_cons, List.flatMap_cons, List.map_append, ih,
        items_placedInLine]
  exact (hrows code.lines 0).trans (flatMap_filterMap_splitOn hbreak code)

namespace Brainfuck

/-! ## 2. Open brackets -/

/-- An instruction without its place in the source. -/
def Instruction.entry (i : Instruction) : Command × Option Nat := (i.command.item, i.partner)

/-- The instructions read so far: the outermost tree, and behind every open bracket the tree inside
    of it, the innermost first. -/
def layPending (outermost : Block) : List Block → List (Command × Option Nat)
  | [] => outermost.lay 0
  | inner :: outer =>
    layPending outermost outer ++
      (.loopStart, none) :: inner.lay ((layPending outermost outer).length + 1)

/-- The places of the open brackets, the innermost first. -/
def openPlaces (outermost : Block) : List Block → List Nat
  | [] => []
  | _ :: outer => (layPending outermost outer).length :: openPlaces outermost outer

/-- A draft is an outermost tree with open brackets inside of each other. -/
structure Draft.Shows (d : Draft) (outermost : Block) (pending : List Block) : Prop where
  entries : d.instructions.map (·.entry) = layPending outermost pending
  unclosed : d.unclosed = openPlaces outermost pending

/-- Some outermost tree and some open brackets make up a draft. -/
def Draft.Nested (d : Draft) : Prop := ∃ outermost pending, d.Shows outermost pending

theorem Draft.Shows.length {d : Draft} {outermost : Block} {pending : List Block}
    (h : d.Shows outermost pending) :
    d.instructions.length = (layPending outermost pending).length := by
  rw [← h.entries, List.length_map]

/-- A tree at the end of what has been read becomes a part of the innermost one. -/
theorem nested_extend {outermost : Block} {pending : List Block} {d : Draft} (b : Block)
    (hentries : d.instructions.map (·.entry) =
      layPending outermost pending ++ b.lay (layPending outermost pending).length)
    (hunclosed : d.unclosed = openPlaces outermost pending) : d.Nested := by
  cases pending with
  | nil =>
    have hlay : (outermost.append b).lay 0 = outermost.lay 0 ++ b.lay outermost.size := by
      rw [Block.lay_append, Nat.zero_add]
    refine ⟨outermost.append b, [], ?_, hunclosed⟩
    rw [hentries, layPending, layPending, hlay, Block.length_lay]
  | cons inner outer =>
    have hlen : (layPending outermost (inner :: outer)).length =
        (layPending outermost outer).length + 1 + inner.size := by
      rw [layPending, List.length_append, List.length_cons, Block.length_lay]
      omega
    refine ⟨outermost, inner.append b :: outer, ?_, hunclosed⟩
    rw [hentries, hlen, layPending, layPending, Block.lay_append, List.append_assoc,
      List.cons_append]

/-! ## 3. One command after another -/

theorem Command.cases (c : Command) :
    (∃ a : Action, c = a.command) ∨ c = .loopStart ∨ c = .loopEnd := by
  cases c with
  | left => exact .inl ⟨.left, rfl⟩
  | right => exact .inl ⟨.right, rfl⟩
  | increment => exact .inl ⟨.increment, rfl⟩
  | decrement => exact .inl ⟨.decrement, rfl⟩
  | output => exact .inl ⟨.output, rfl⟩
  | input => exact .inl ⟨.input, rfl⟩
  | loopStart => exact .inr (.inl rfl)
  | loopEnd => exact .inr (.inr rfl)

/-- Whatever was added is one of three kinds, each with its own effect on a draft. -/
theorem Draft.add_cases {d d' : Draft} {c : Placed Command} (h : d.add c = .ok d') :
    (∃ a : Action, c.item = a.command ∧ d' = ⟨d.instructions ++ [⟨c, none⟩], d.unclosed⟩) ∨
    (c.item = .loopStart ∧
      d' = ⟨d.instructions ++ [⟨c, none⟩], d.instructions.length :: d.unclosed⟩) ∨
    (∃ start outer, c.item = .loopEnd ∧ d.unclosed = start :: outer ∧
      d' =
        ⟨(d.instructions.modify start fun i => { i with partner := some d.instructions.length }) ++
        [⟨c, some start⟩], outer⟩) := by
  unfold Draft.add at h
  rcases Command.cases c.item with ⟨a, hc⟩ | hc | hc
  · refine .inl ⟨a, hc, ?_⟩
    rw [hc] at h
    cases a <;> exact (Except.ok.inj h).symm
  · rw [hc] at h
    exact .inr (.inl ⟨hc, (Except.ok.inj h).symm⟩)
  · rw [hc] at h
    cases hopen : d.unclosed with
    | nil =>
      rw [hopen] at h
      cases h
    | cons start outer =>
      rw [hopen] at h
      exact .inr (.inr ⟨start, outer, hc, rfl, (Except.ok.inj h).symm⟩)

theorem Draft.Shows.add_action {d : Draft} {outermost : Block} {pending : List Block}
    (h : d.Shows outermost pending) (a : Action) {c : Placed Command} (hc : c.item = a.command) :
    (Draft.mk (d.instructions ++ [⟨c, none⟩]) d.unclosed).Nested := by
  refine nested_extend (.act a .done) ?_ h.unclosed
  rw [List.map_append, h.entries, Block.lay, ← hc]
  rfl

theorem Draft.Shows.add_start {d : Draft} {outermost : Block} {pending : List Block}
    (h : d.Shows outermost pending) {c : Placed Command} (hc : c.item = .loopStart) :
    (Draft.mk (d.instructions ++ [⟨c, none⟩]) (d.instructions.length :: d.unclosed)).Shows outermost
      (.done :: pending) where
  entries := by
    rw [List.map_append, h.entries, layPending, ← hc]
    rfl
  unclosed := by
    rw [h.length, h.unclosed]
    rfl

/-- A closing bracket: the tree inside becomes a loop, and the place left open since its beginning
    is filled in. -/
theorem Draft.Shows.add_end {d : Draft} {outermost inner : Block} {pending : List Block}
    (h : d.Shows outermost (inner :: pending)) {c : Placed Command} (hc : c.item = .loopEnd) :
    let start := (layPending outermost pending).length
    (Draft.mk ((d.instructions.modify start fun i =>
      { i with partner := some d.instructions.length }) ++
      [⟨c, some start⟩]) (openPlaces outermost pending)).Nested := by
  intro start
  have hlen : d.instructions.length = start + 1 + inner.size := by
    rw [h.length, layPending, List.length_append, List.length_cons, Block.length_lay]
    omega
  have hfilled : ((d.instructions.modify start fun i =>
      { i with partner := some d.instructions.length }).map (·.entry)) =
        layPending outermost pending ++ (.loopStart, some (start + 1 + inner.size)) ::
          inner.lay (start + 1) := by
    have hlt : start < (layPending outermost (inner :: pending)).length := by
      rw [← h.length, hlen]
      omega
    have hfill : ∀ i :
        Instruction, Instruction.entry { i with partner := some d.instructions.length } =
        (i.entry.1, some d.instructions.length) := fun _ => rfl
    rw [List.map_modify _ (fun e => (e.1, some d.instructions.length)) hfill, h.entries,
      List.modify_eq_take_cons_drop hlt, hlen]
    simp [layPending, start]
  refine nested_extend (.loop inner .done) ?_ rfl
  rw [List.map_append, hfilled, List.append_assoc]
  simp [Block.lay, Instruction.entry, hc, start]

/-- **A draft stays a row of trees with every further command.** -/
theorem Draft.Nested.add {d d' : Draft} (h : d.Nested) {c : Placed Command}
    (ha : d.add c = .ok d') : d'.Nested := by
  obtain ⟨outermost, pending, h⟩ := h
  rcases Draft.add_cases ha with ⟨a, hc, rfl⟩ | ⟨hc, rfl⟩ | ⟨start, outer, hc, hopen, rfl⟩
  · exact h.add_action a hc
  · exact ⟨_, _, h.add_start hc⟩
  · cases pending with
    | nil => cases hopen.symm.trans h.unclosed
    | cons inner pending =>
      obtain ⟨rfl, rfl⟩ := List.cons.inj (hopen.symm.trans h.unclosed)
      exact h.add_end hc

/-- A command that was added stands at the end, and the commands before it are as they were. -/
theorem Draft.add_commands {d d' : Draft} {c : Placed Command} (h : d.add c = .ok d') :
    d'.instructions.map (·.command) = d.instructions.map (·.command) ++ [c] := by
  rcases Draft.add_cases h with ⟨a, hc, rfl⟩ | ⟨hc, rfl⟩ | ⟨start, outer, hc, hopen, rfl⟩
  · rw [List.map_append]
    rfl
  · rw [List.map_append]
    rfl
  · have hsame : ∀ i :
        Instruction, Instruction.command { i with partner := some d.instructions.length } =
        i.command := fun _ => rfl
    rw [List.map_append, List.map_modify_of_eq hsame]
    rfl

theorem Draft.addAll_nested {cs : List (Placed Command)} {d d' : Draft} (h : d.Nested)
    (ha : d.addAll cs = .ok d') :
    d'.Nested ∧ d'.instructions.map (·.command) = d.instructions.map (·.command) ++ cs := by
  induction cs generalizing d with
  | nil =>
    cases ha
    exact ⟨h, (List.append_nil _).symm⟩
  | cons c rest ih =>
    rw [Draft.addAll] at ha
    split at ha
    · next d₁ hadd =>
      obtain ⟨hnested, hcommands⟩ := ih (h.add hadd) ha
      rw [Draft.add_commands hadd, List.append_assoc] at hcommands
      exact ⟨hnested, hcommands⟩
    · cases ha

/-- An open bracket stands at a place that has been read, so a draft with one is refused. -/
theorem Draft.Shows.finish {d : Draft} {outermost : Block} {pending : List Block}
    (h : d.Shows outermost pending) {program : List Instruction} (hf : d.finish = .ok program) :
    pending = [] ∧ d.instructions = program := by
  cases pending with
  | nil =>
    have hnone : d.unclosed = [] := h.unclosed
    rw [Draft.finish, hnone] at hf
    exact ⟨rfl, Except.ok.inj hf⟩
  | cons inner outer =>
    have hsome : d.unclosed = (layPending outermost outer).length :: openPlaces outermost outer :=
      h.unclosed
    have hlt : (layPending outermost outer).length < d.instructions.length := by
      rw [h.length, layPending, List.length_append, List.length_cons]
      omega
    simp only [Draft.finish, hsome, List.getElem?_eq_getElem hlt] at hf
    cases hf

/-- The commands of a program are those of its source, at their places, and they are a tree, laid
    out flat. -/
theorem parse_shows {code : Text} {program : List Instruction} (h : parse code = .ok program) :
    program.map (·.command) = placed Command.ofCodePoint? code ∧
      ∃ b : Block, program.map (·.entry) = b.lay 0 := by
  unfold parse at h
  split at h
  · next d hd =>
    have hempty : (Draft.mk [] []).Nested := ⟨.done, [], rfl, rfl⟩
    obtain ⟨⟨b, pending, hshows⟩, hcommands⟩ := Draft.addAll_nested hempty hd
    obtain ⟨rfl, rfl⟩ := hshows.finish h
    exact ⟨hcommands, b, hshows.entries⟩
  · cases h

/-- **The program of a source is the tree of the source's commands, laid out flat.** -/
theorem parse_lay {code : Text} {program : List Instruction} (h : parse code = .ok program) :
    ∃ b, Block.ofCommands (code.filterMap Command.ofCodePoint?) = some b ∧
      program.map (·.entry) = b.lay 0 := by
  obtain ⟨hcommands, b, hentries⟩ := parse_shows h
  refine ⟨b, Block.ofCommands_eq_some_iff.mpr ?_, hentries⟩
  have hbreak : Command.ofCodePoint? Text.newline = none := rfl
  calc code.filterMap Command.ofCodePoint?
      = (placed Command.ofCodePoint? code).map (·.item) := (items_placed hbreak code).symm
    _ = program.map fun i => i.command.item := by
      rw [← hcommands, List.map_map]
      rfl
    _ = (program.map (·.entry)).map Prod.fst := by
      rw [List.map_map]
      rfl
    _ = b.commands := by
      rw [hentries]
      exact b.map_fst_lay 0

end Brainfuck

end Esolang
