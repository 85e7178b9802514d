/-
  File:      Esolang/Proofs/Chef/Nesting.lean
  Subject:   A method that is read is a tree laid out flat.

  While a method is read, the loops still open cut it into a row of blocks, each inside of the one
  before it. The end of a loop fills in the places that were left open since its beginning, and the
  loop becomes a part of the block around it.

  * `Pending`: an open loop as a tree; `layPending`: the operations read so far.
  * `Draft.Shows`: a draft is such a row of blocks; `Draft.Nested.add`: it stays one with every
    further operation.
  * `Draft.add_cases`, `Draft.addAll_preserves`: what one operation does to a draft, and what a
    whole paragraph preserves.
  * `method_lay`: a method that is read is a tree laid out flat; `method_of_nests`: every tree that
    nests can be read.
-/
import Esolang.Proofs.Chef.Block
import Esolang.Proofs.Chef.Statement
import Esolang.Proofs.Lists

namespace Esolang.Chef

/-! ## 1. Filling in the end of a loop -/

/-- The end of a loop filled in at the given places of a row of operations. -/
def fillIn (closer : Nat) (places : List Nat) (ops : List Operation) : List Operation :=
  places.foldl (fun acc p => acc.modify p (Operation.closeAt closer)) ops

theorem map_closeLoop (closer : Nat) (places : List Nat) (steps : List Step) :
    (closeLoop closer places steps).map (·.operation) =
      fillIn closer places (steps.map (·.operation)) := by
  unfold closeLoop fillIn
  induction places generalizing steps with
  | nil => rfl
  | cons p rest ih =>
    have hsame : ∀ s : Step, (s.closeAt closer).operation = s.operation.closeAt closer :=
      fun _ => rfl
    rw [List.foldl_cons, List.foldl_cons, ih, List.map_modify _ _ hsame]

namespace Block

/-- The places of the `Set aside` statements that leave the loop around a tree laid out from `base`
    on. -/
def asides (base : Nat) : Block → List Nat
  | done => []
  | plain _ rest => rest.asides (base + 1)
  | aside rest => base :: rest.asides (base + 1)
  | loop _ _ body _ _ rest => rest.asides (base + 1 + body.size + 1)

theorem asides_append (a b : Block) (base : Nat) :
    (a.append b).asides base = a.asides base ++ b.asides (base + a.size) := by
  induction a generalizing base with
  | done => rfl
  | plain op rest ih =>
    have e : base + 1 + rest.size = base + (rest.size + 1) := by omega
    simp [append, asides, size, ih, e]
  | aside rest ih =>
    have e : base + 1 + rest.size = base + (rest.size + 1) := by omega
    simp [append, asides, size, ih, e]
  | loop verb i body closing count rest _ ih =>
    have e : base + 1 + body.size + 1 + rest.size = base + (body.size + rest.size + 2) := by omega
    simp [append, asides, size, ih, e]

/-- Filling in the end of a loop at its `Set aside` statements lays out the block inside of it anew.
    The block stands behind `front`, at the end of what has been read. -/
theorem fillIn_asides (b : Block) (closer : Nat) (front : List Operation) :
    fillIn closer (b.asides front.length) (front ++ b.lay front.length none) =
      front ++ b.lay front.length (some closer) := by
  -- what is behind `front` moves into it, statement by statement
  induction b generalizing front with
  | done => rfl
  | plain op rest ih =>
    have h := ih (front ++ [op])
    simpa [asides, lay] using h
  | aside rest ih =>
    have h := ih (front ++ [.setAside (some closer)])
    rw [asides, lay, lay, fillIn, List.foldl_cons, List.modify_append_cons]
    simpa [fillIn, Operation.closeAt] using h
  | loop verb i body closing count rest _ ih =>
    have h := ih (front ++ .loopStart verb i (some (front.length + 1 + body.size)) ::
      (body.lay (front.length + 1) (some (front.length + 1 + body.size)) ++
        [.loopEnd closing count (some front.length)]))
    have e : front.length + (body.size + 1 + 1) = front.length + 1 + body.size + 1 := by omega
    simpa [asides, lay, e] using h

end Block

/-! ## 2. Open loops -/

/-- A loop that is still open: the words it began with, and what has been read of the block
    inside. -/
structure Pending where
  /-- Its verb. -/
  verb : Text
  /-- The ingredient that decides about it. -/
  ingredient : Text
  /-- What has been read of the block inside. -/
  body : Block

/-- The operations read so far: the outermost block and the open loops, the innermost first. Where
    an open loop ends is not known yet. -/
def layPending (outermost : Block) : List Pending → List Operation
  | [] => outermost.lay 0 none
  | p :: outer =>
    layPending outermost outer ++ .loopStart p.verb p.ingredient none ::
      p.body.lay ((layPending outermost outer).length + 1) none

theorem length_layPending_cons (outermost : Block) (p : Pending) (outer : List Pending) :
    (layPending outermost (p :: outer)).length =
      (layPending outermost outer).length + 1 + p.body.size := by
  rw [layPending, List.length_append, List.length_cons, Block.length_lay]
  omega

/-- The open loops as they are kept while a method is read. -/
def openLoops (outermost : Block) : List Pending → List OpenLoop
  | [] => []
  | p :: outer =>
    ⟨(layPending outermost outer).length, p.verb,
      p.body.asides ((layPending outermost outer).length + 1)⟩ :: openLoops outermost outer

/-- A draft is an outermost block with open loops inside of each other. -/
structure Draft.Shows (d : Draft) (outermost : Block) (pending : List Pending) : Prop where
  operations : d.steps.map (·.operation) = layPending outermost pending
  loops : d.loops = openLoops outermost pending
  nests : outermost.Nests false
  bodies : ∀ p ∈ pending, p.body.Nests true

/-- Some outermost block and some open loops make up a draft. -/
def Draft.Nested (d : Draft) : Prop := ∃ outermost pending, d.Shows outermost pending

theorem Draft.Shows.length {d : Draft} {outermost : Block} {pending : List Pending}
    (h : d.Shows outermost pending) : d.steps.length = (layPending outermost pending).length := by
  rw [← h.operations, List.length_map]

theorem Draft.Shows.empty : (Draft.mk [] []).Shows .done [] where
  operations := rfl
  loops := rfl
  nests := trivial
  bodies _ h := absurd h List.not_mem_nil

/-- The innermost open loop with further places to fill in when it ends. -/
def widen (places : List Nat) : List OpenLoop → List OpenLoop
  | [] => []
  | inner :: outer => { inner with asides := inner.asides ++ places } :: outer

theorem widen_nil (loops : List OpenLoop) : widen [] loops = loops := by
  cases loops with
  | nil => rfl
  | cons inner outer => rw [widen, List.append_nil]

/-- A block at the end of what has been read becomes a part of the innermost block. -/
theorem shows_extend {outermost : Block} {pending : List Pending} {b : Block} {d : Draft}
    (hn : outermost.Nests false) (hp : ∀ p ∈ pending, p.body.Nests true)
    (hb : b.Nests (!pending.isEmpty)) (hops : d.steps.map (·.operation) =
      layPending outermost pending ++ b.lay (layPending outermost pending).length none)
    (hloops : d.loops =
      widen (b.asides (layPending outermost pending).length) (openLoops outermost pending)) :
    d.Nested := by
  cases pending with
  | nil =>
    have hlay : (outermost.append b).lay 0 none =
        outermost.lay 0 none ++ b.lay outermost.size none := by
      rw [Block.lay_append, Nat.zero_add]
    refine ⟨outermost.append b, [], ?_, hloops, Block.nests_append hn hb, hp⟩
    rw [hops, layPending, layPending, hlay, Block.length_lay]
  | cons p outer =>
    have hlen := length_layPending_cons outermost p outer
    refine ⟨outermost, ⟨p.verb, p.ingredient, p.body.append b⟩ :: outer, ?_, ?_, hn, ?_⟩
    · rw [hops, hlen, layPending, layPending, Block.lay_append, List.append_assoc, List.cons_append]
    · rw [hloops, hlen, openLoops, openLoops, widen, Block.asides_append]
    · intro q hq
      rcases List.mem_cons.mp hq with rfl | hq
      · exact Block.nests_append (hp p List.mem_cons_self) hb
      · exact hp q (List.mem_cons_of_mem _ hq)

/-! ## 3. One operation after another -/

/-- Whatever was added is one of four kinds, each with its own effect on a draft. -/
theorem Draft.add_cases {d d' : Draft} {op : Operation} {span : Span} (h : d.add op span = .ok d') :
    (op.isLoop = false ∧ d' = ⟨d.steps ++ [⟨op, span⟩], d.loops⟩) ∨
    (∃ verb i closer, op = .loopStart verb i closer ∧
      d' = ⟨d.steps ++ [⟨op, span⟩], ⟨d.steps.length, verb, []⟩ :: d.loops⟩) ∨
    (∃ closer inner outer, op = .setAside closer ∧ d.loops = inner :: outer ∧
      d' = ⟨d.steps ++ [⟨op, span⟩],
        { inner with asides := inner.asides ++ [d.steps.length] } :: outer⟩) ∨
    (∃ verb i opener inner outer, op = .loopEnd verb i opener ∧ d.loops = inner :: outer ∧
      closes inner.verb verb = true ∧
      d' = ⟨closeLoop d.steps.length (inner.opener :: inner.asides) d.steps
        ++ [⟨.loopEnd verb i (some inner.opener), span⟩], outer⟩) := by
  cases op with
  | loopStart verb i closer =>
    cases h
    exact .inr (.inl ⟨verb, i, closer, rfl, rfl⟩)
  | setAside closer =>
    cases hl : d.loops with
    | nil => simp only [Draft.add, hl] at h; cases h
    | cons inner outer =>
      simp only [Draft.add, hl] at h
      cases h
      exact .inr (.inr (.inl ⟨closer, inner, outer, rfl, rfl, rfl⟩))
  | loopEnd verb i opener =>
    cases hl : d.loops with
    | nil => simp only [Draft.add, hl] at h; cases h
    | cons inner outer =>
      simp only [Draft.add, hl] at h
      split at h
      · rename_i hv
        cases h
        exact .inr (.inr (.inr ⟨verb, i, opener, inner, outer, rfl, rfl, hv, rfl⟩))
      · cases h
  | _ =>
    cases h
    exact .inl ⟨rfl, rfl⟩

theorem Draft.addStatement_ok {d d' : Draft} {statement : Text × Span}
    (h : d.addStatement statement = .ok d') :
    ∃ op, Operation.ofStatement statement.1 = .ok op ∧ d.add op statement.2 = .ok d' := by
  unfold Draft.addStatement at h
  split at h
  · cases h
  · cases h
  · rename_i op hop
    split at h
    · cases h
    · rename_i d'' hadd
      cases h
      exact ⟨op, hop, hadd⟩

/-- What every further operation preserves holds of a whole paragraph. -/
theorem Draft.addAll_preserves {P : Draft → Prop}
    (hstep : ∀ {d d' : Draft} {op : Operation} {span : Span}, P d → op.Unplaced →
      d.add op span = .ok d' → P d')
    {statements : List (Text × Span)} {d d' : Draft} (h : P d) (ha : d.addAll statements = .ok d') :
    P d' := by
  induction statements generalizing d with
  | nil =>
    cases ha
    exact h
  | cons s rest ih =>
    rw [Draft.addAll] at ha
    split at ha
    · rename_i d'' hs
      obtain ⟨op, hop, hadd⟩ := Draft.addStatement_ok hs
      exact ih (hstep h (ofStatement_unplaced hop) hadd) ha
    · cases ha

theorem Draft.Shows.add_plain {d : Draft} {outermost : Block} {pending : List Pending}
    (h : d.Shows outermost pending) {op : Operation} (hop : op.isLoop = false) (span : Span) :
    (Draft.mk (d.steps ++ [⟨op, span⟩]) d.loops).Nested := by
  refine shows_extend (b := .plain op .done) h.nests h.bodies ⟨hop, trivial⟩ ?_ ?_
  · rw [List.map_append, h.operations]
    rfl
  · rw [Block.asides, Block.asides, widen_nil]
    exact h.loops

theorem Draft.Shows.add_start {d : Draft} {outermost : Block} {pending : List Pending}
    (h : d.Shows outermost pending) (verb i : Text) (span : Span) :
    (Draft.mk (d.steps ++ [⟨.loopStart verb i none, span⟩])
      (⟨d.steps.length, verb, []⟩ :: d.loops)).Shows outermost (⟨verb, i, .done⟩ :: pending) where
  operations := by
    rw [List.map_append, h.operations]
    rfl
  loops := by
    rw [h.length, h.loops]
    rfl
  nests := h.nests
  bodies := by
    intro p hp
    rcases List.mem_cons.mp hp with rfl | hp
    · trivial
    · exact h.bodies p hp

theorem Draft.Shows.add_aside {d : Draft} {outermost : Block} {pending : List Pending}
    (h : d.Shows outermost pending) {inner : OpenLoop} {outer : List OpenLoop}
    (hl : d.loops = inner :: outer) (span : Span) :
    (Draft.mk (d.steps ++ [⟨.setAside none, span⟩])
      ({ inner with asides := inner.asides ++ [d.steps.length] } :: outer)).Nested := by
  have hopen : pending.isEmpty = false := by
    cases pending with
    | nil => rw [h.loops] at hl; cases hl
    | cons p ps => rfl
  refine shows_extend (b := .aside .done) h.nests h.bodies ⟨by rw [hopen]; rfl, trivial⟩ ?_ ?_
  · rw [List.map_append, h.operations]
    rfl
  · rw [← h.loops, hl, h.length]
    rfl

/-- The end of a loop: the places left open since its beginning are filled in, and the loop becomes
    a part of the block around it. -/
theorem Draft.Shows.add_end {d : Draft} {outermost : Block} {pending : List Pending}
    (h : d.Shows outermost pending) {inner : OpenLoop} {outer : List OpenLoop}
    (hl : d.loops = inner :: outer) {verb : Text} (hv : closes inner.verb verb = true)
    (i : Option Text) (span : Span) :
    (Draft.mk (closeLoop d.steps.length (inner.opener :: inner.asides) d.steps
      ++ [⟨.loopEnd verb i (some inner.opener), span⟩]) outer).Nested := by
  cases pending with
  | nil => rw [h.loops] at hl; cases hl
  | cons p ps =>
    have hloops := h.loops
    rw [hl, openLoops] at hloops
    obtain ⟨rfl, rfl⟩ := List.cons.inj hloops
    -- the loop as a block of its own, at the end of what was read before it began
    refine shows_extend (b := .loop p.verb p.ingredient p.body verb i .done) h.nests
      (fun q hq => h.bodies q (List.mem_cons_of_mem _ hq))
      ⟨hv, h.bodies p List.mem_cons_self, trivial⟩ ?_ ?_
    · have hlen : d.steps.length = (layPending outermost ps).length + 1 + p.body.size := by
        rw [h.length, length_layPending_cons]
      -- the beginning is filled in first, then the places inside of the loop
      have hfill := Block.fillIn_asides p.body d.steps.length
        (layPending outermost ps ++ [.loopStart p.verb p.ingredient (some d.steps.length)])
      rw [List.length_append, List.length_singleton, List.append_assoc, List.singleton_append,
        List.append_assoc, List.singleton_append] at hfill
      rw [List.map_append, map_closeLoop, h.operations, layPending, fillIn, List.foldl_cons,
        List.modify_append_cons, ← fillIn, Operation.closeAt, hfill, hlen]
      simp [Block.lay]
    · rw [Block.asides, Block.asides, widen_nil]

/-- **A draft stays a row of blocks with every further operation.** -/
theorem Draft.Nested.add {d d' : Draft} (h : d.Nested) {op : Operation} (hop : op.Unplaced)
    {span : Span} (ha : d.add op span = .ok d') : d'.Nested := by
  obtain ⟨outermost, pending, h⟩ := h
  rcases Draft.add_cases ha with ⟨hplain, rfl⟩ | ⟨verb, i, closer, rfl, rfl⟩ |
    ⟨closer, inner, outer, rfl, hl, rfl⟩ | ⟨verb, i, opener, inner, outer, rfl, hl, hv, rfl⟩
  · exact h.add_plain hplain span
  · obtain rfl : closer = none := hop.target
    exact ⟨_, _, h.add_start verb i span⟩
  · obtain rfl : closer = none := hop.target
    exact h.add_aside hl span
  · exact h.add_end hl hv i span

/-- An open loop begins at a place that has been read, so a draft with one is refused. -/
theorem Draft.Shows.finish {d : Draft} {outermost : Block} {pending : List Pending}
    (h : d.Shows outermost pending) {steps : List Step} (hf : d.finish = .ok steps) :
    pending = [] ∧ d.steps = steps := by
  cases pending with
  | nil =>
    have hl : d.loops = [] := h.loops
    simp only [Draft.finish, hl] at hf
    cases hf
    exact ⟨rfl, rfl⟩
  | cons p outer =>
    have hl : d.loops = _ := h.loops
    have hlt : (layPending outermost outer).length < d.steps.length := by
      rw [h.length, length_layPending_cons]
      omega
    simp only [Draft.finish, hl, openLoops, List.getElem?_eq_getElem hlt] at hf
    cases hf

/-- **A method that is read is a tree laid out flat.** -/
theorem method_lay {statements : List (Text × Span)} {steps : List Step}
    (h : method statements = .ok steps) :
    ∃ b : Block, b.Nests false ∧ steps.map (·.operation) = b.lay 0 none := by
  unfold method at h
  split at h
  · rename_i d hd
    obtain ⟨outermost, pending, hs⟩ := Draft.addAll_preserves (P := Draft.Nested)
      (fun hn hop ha => hn.add hop ha) ⟨_, _, .empty⟩ hd
    obtain ⟨rfl, rfl⟩ := hs.finish h
    exact ⟨outermost, hs.nests, hs.operations⟩
  · cases h

/-! ## 4. Trees that are read -/

/-- The statements say the operations of a row, one after another, with the ends of loops left
    open. -/
def Say (statements : List (Text × Span)) (ops : List Operation) : Prop :=
  statements.map (Operation.ofStatement ·.1) = ops.map (.ok ·.bare)

theorem Say.cons {statements : List (Text × Span)} {op : Operation} {ops : List Operation}
    (h : Say statements (op :: ops)) :
    ∃ s rest, statements = s :: rest ∧ Operation.ofStatement s.1 = .ok op.bare ∧ Say rest ops := by
  obtain ⟨s, rest, rfl, hs, hrest⟩ := List.map_eq_cons_iff.mp h
  exact ⟨s, rest, rfl, hs, hrest⟩

theorem Say.append {statements : List (Text × Span)} {front back : List Operation}
    (h : Say statements (front ++ back)) :
    ∃ first second, statements = first ++ second ∧ Say first front ∧ Say second back := by
  unfold Say at h
  rw [List.map_append] at h
  obtain ⟨first, second, rfl, hfirst, hsecond⟩ := List.map_eq_append_iff.mp h
  exact ⟨first, second, rfl, hfirst, hsecond⟩

theorem Draft.addAll_append {d d' : Draft} {first : List (Text × Span)}
    (h : d.addAll first = .ok d') (second : List (Text × Span)) :
    d.addAll (first ++ second) = d'.addAll second := by
  induction first generalizing d with
  | nil =>
    cases h
    rfl
  | cons s rest ih =>
    rw [Draft.addAll] at h
    rw [List.cons_append, Draft.addAll]
    cases hs : d.addStatement s with
    | ok d₁ =>
      rw [hs] at h
      exact ih h
    | error e =>
      rw [hs] at h
      cases h

theorem Draft.addAll_cons {d d' : Draft} {s : Text × Span} {op : Operation}
    (hs : Operation.ofStatement s.1 = .ok op) (h : d.add op s.2 = .ok d')
    (rest : List (Text × Span)) : d.addAll (s :: rest) = d'.addAll rest := by
  simp only [Draft.addAll, Draft.addStatement, hs, h]

theorem Draft.add_plain {op : Operation} (h : op.isLoop = false) (d : Draft) (span : Span) :
    d.add op span = .ok ⟨d.steps ++ [⟨op, span⟩], d.loops⟩ := by
  cases op with
  | loopStart verb i closer => cases h
  | loopEnd verb i opener => cases h
  | setAside closer => cases h
  | _ => rfl

theorem bare_of_plain {op : Operation} (h : op.isLoop = false) : op.bare = op := by
  cases op with
  | loopStart verb i closer => cases h
  | loopEnd verb i opener => cases h
  | setAside closer => cases h
  | _ => rfl

/-- Statements that say a tree which nests are all added, and the loops that were open before stay
    open. -/
theorem Draft.addAll_of_nests {b : Block} {inLoop : Bool} (hb : b.Nests inLoop) {base : Nat}
    {closer : Option Nat} {statements : List (Text × Span)}
    (hsay : Say statements (b.lay base closer)) {d : Draft}
    (hd : inLoop = true → d.loops.map (·.verb) ≠ []) :
    ∃ d', d.addAll statements = .ok d' ∧ d'.loops.map (·.verb) = d.loops.map (·.verb) := by
  induction b generalizing inLoop base closer statements d with
  | done =>
    obtain rfl : statements = [] := List.map_eq_nil_iff.mp hsay
    exact ⟨d, rfl, rfl⟩
  | plain op rest ih =>
    obtain ⟨s, more, rfl, hs, hmore⟩ := hsay.cons
    rw [bare_of_plain hb.1] at hs
    rw [Draft.addAll_cons hs (Draft.add_plain hb.1 d s.2)]
    exact ih hb.2 hmore hd
  | aside rest ih =>
    obtain ⟨s, more, rfl, hs, hmore⟩ := hsay.cons
    obtain ⟨hin, hrest⟩ := hb
    cases hloops : d.loops with
    | nil =>
      rw [hloops] at hd
      exact absurd rfl (hd hin)
    | cons inner outer =>
      have hadd : d.add (.setAside none) s.2 = .ok ⟨d.steps ++ [⟨.setAside none, s.2⟩],
          { inner with asides := inner.asides ++ [d.steps.length] } :: outer⟩ := by
        simp only [Draft.add, hloops]
      rw [Draft.addAll_cons hs hadd]
      exact ih hrest hmore fun _ => List.cons_ne_nil _ _
  | loop verb i body closing count rest ihb ihr =>
    obtain ⟨hcloses, hbody, hrest⟩ := hb
    obtain ⟨s, more, rfl, hs, hmore⟩ := hsay.cons
    obtain ⟨inside, behind, rfl, hinside, hbehind⟩ := hmore.append
    obtain ⟨e, more, rfl, he, hmore⟩ := hbehind.cons
    have hstart : Operation.ofStatement s.1 = .ok (.loopStart verb i none) := hs
    have hend : Operation.ofStatement e.1 = .ok (.loopEnd closing count none) := he
    have hopen : d.add (.loopStart verb i none) s.2 =
        .ok ⟨d.steps ++ [⟨.loopStart verb i none, s.2⟩],
        ⟨d.steps.length, verb, []⟩ :: d.loops⟩ := rfl
    rw [Draft.addAll_cons hstart hopen]
    -- after the block inside, the loop that was opened is the innermost one still
    obtain ⟨d₁, hd₁, hloops₁⟩ := ihb hbody hinside
        (d := ⟨d.steps ++ [⟨.loopStart verb i none, s.2⟩],
      ⟨d.steps.length, verb, []⟩ :: d.loops⟩) fun _ => List.cons_ne_nil _ _
    obtain ⟨inner, outer, hloops, hverb, houter⟩ := List.map_eq_cons_iff.mp hloops₁
    have hadd : d₁.add (.loopEnd closing count none) e.2 = .ok
        ⟨closeLoop d₁.steps.length (inner.opener :: inner.asides) d₁.steps
          ++ [⟨.loopEnd closing count (some inner.opener), e.2⟩], outer⟩ := by
      have hverbs : closes inner.verb closing = true := hverb ▸ hcloses
      simp only [Draft.add, hloops, hverbs, if_true]
    rw [Draft.addAll_append hd₁, Draft.addAll_cons hend hadd]
    obtain ⟨d₂, hd₂, hloops₂⟩ := ihr hrest hmore (d := ⟨_, outer⟩) fun hin => houter ▸ hd hin
    exact ⟨d₂, hd₂, hloops₂.trans houter⟩

/-- **Statements that say a tree which nests are a method.** -/
theorem method_of_nests {b : Block} (hb : b.Nests false) {statements : List (Text × Span)}
    (hsay : Say statements (b.lay 0 none)) : ∃ steps, method statements = .ok steps := by
  obtain ⟨d, hd, hloops⟩ := Draft.addAll_of_nests hb hsay (d := ⟨[], []⟩) fun h => by cases h
  have hnone : d.loops = [] := List.map_eq_nil_iff.mp hloops
  exact ⟨d.steps, by simp only [method, hd, Draft.finish, hnone]⟩

end Esolang.Chef
