/-
  File:      Esolang/Proofs/Chef/Loops.lean
  Subject:   The loops of every program that is read refer to each other rightly.

  All of it is read off the tree that a method lays out: the ends of a loop stand around the block
  inside, two loops are either apart or one is inside of the other, and a `Set aside` belongs to the
  loop whose block it stands in.

  * `LoopFrom`: a loop begins at one place and ends at another.
  * `LoopsResolved`: what it means that the loops of a row of operations refer to each other
    rightly.
  * `parse_loopsResolved`: they do in every recipe of every program.
-/
import Esolang.Proofs.Chef.Cookbook

namespace Esolang.Chef

/-! ## 1. Resolved loops -/

/-- A loop begins at place `i`, and its beginning says that it ends at place `c`. -/
def LoopFrom (ops : List Operation) (i c : Nat) : Prop :=
  ∃ verb ingredient, ops[i]? = some (.loopStart verb ingredient (some c))

/-- The loops of a row of operations refer to each other rightly. No place of a loop is absent. -/
structure LoopsResolved (ops : List Operation) : Prop where
  /-- The beginning of a loop names a later place of the row, where a loop ends that begins here,
      and the verbs go together. -/
  opener : ∀ i verb ingredient closer, ops[i]? = some (.loopStart verb ingredient closer) →
    ∃ c closing count, closer = some c ∧ i < c ∧ c < ops.length ∧
      ops[c]? = some (.loopEnd closing count (some i)) ∧ closes verb closing = true
  /-- The end of a loop names an earlier place, where a loop begins that ends here. -/
  closer : ∀ c verb count opener, ops[c]? = some (.loopEnd verb count opener) →
    ∃ i, opener = some i ∧ i < c ∧ LoopFrom ops i c
  /-- Two loops are the same, apart, or one is strictly inside of the other. -/
  nested : ∀ i c i' c', LoopFrom ops i c → LoopFrom ops i' c' →
    (i = i' ∧ c = c') ∨ c < i' ∨ c' < i ∨ (i < i' ∧ c' < c) ∨ (i' < i ∧ c < c')
  /-- `Set aside` names the end of the innermost loop around it. -/
  aside : ∀ b closer, ops[b]? = some (.setAside closer) →
    ∃ i c, closer = some c ∧ LoopFrom ops i c ∧ i < b ∧ b < c ∧
      ∀ i' c', LoopFrom ops i' c' → ¬ (i < i' ∧ i' < b ∧ b < c')

/-! ## 2. Loops of a tree -/

namespace Block

/-- A loop of a laid out tree begins at place `i` and ends at place `c`. -/
def Loop (base : Nat) (closer : Option Nat) (b : Block) (i c : Nat) : Prop :=
  ∃ verb ingredient, b.Holds base closer i (.loopStart verb ingredient (some c))

theorem loopFrom_iff (b : Block) (i c : Nat) : LoopFrom (b.lay 0 none) i c ↔ b.Loop 0 none i c := by
  simp only [LoopFrom, Loop, getElem?_lay_iff]

theorem opener_of_holds {l : Bool} {b : Block} (hb : b.Nests l) {base i : Nat} {closer : Option Nat}
    {verb ingredient : Text} {e : Option Nat}
    (h : b.Holds base closer i (.loopStart verb ingredient e)) :
    ∃ c closing count, e = some c ∧ i < c ∧
      b.Holds base closer c (.loopEnd closing count (some i)) ∧ closes verb closing = true := by
  induction b generalizing l base closer with
  | done => exact h.elim
  | plain op rest ih =>
    rcases h with ⟨_, rfl⟩ | h
    · cases hb.1
    · obtain ⟨c, closing, count, he, hlt, hend, hv⟩ := ih hb.2 h
      exact ⟨c, closing, count, he, hlt, .inr hend, hv⟩
  | aside rest ih =>
    rcases h with ⟨_, h⟩ | h
    · cases h
    · obtain ⟨c, closing, count, he, hlt, hend, hv⟩ := ih hb.2 h
      exact ⟨c, closing, count, he, hlt, .inr hend, hv⟩
  | loop v j body w count' rest ihb ihr =>
    rcases h with ⟨rfl, h⟩ | h | ⟨_, h⟩ | h
    · cases h
      exact ⟨_, w, count', rfl, by omega, .inr (.inr (.inl ⟨rfl, rfl⟩)), hb.1⟩
    · obtain ⟨c, closing, count, he, hlt, hend, hv⟩ := ihb hb.2.1 h
      exact ⟨c, closing, count, he, hlt, .inr (.inl hend), hv⟩
    · cases h
    · obtain ⟨c, closing, count, he, hlt, hend, hv⟩ := ihr hb.2.2 h
      exact ⟨c, closing, count, he, hlt, .inr (.inr (.inr hend)), hv⟩

theorem closer_of_holds {l : Bool} {b : Block} (hb : b.Nests l) {base c : Nat} {closer : Option Nat}
    {verb : Text} {count : Option Text} {o : Option Nat}
    (h : b.Holds base closer c (.loopEnd verb count o)) :
    ∃ i, o = some i ∧ i < c ∧ b.Loop base closer i c := by
  induction b generalizing l base closer with
  | done => exact h.elim
  | plain op rest ih =>
    rcases h with ⟨_, rfl⟩ | h
    · cases hb.1
    · obtain ⟨i, ho, hlt, v, j, hs⟩ := ih hb.2 h
      exact ⟨i, ho, hlt, v, j, .inr hs⟩
  | aside rest ih =>
    rcases h with ⟨_, h⟩ | h
    · cases h
    · obtain ⟨i, ho, hlt, v, j, hs⟩ := ih hb.2 h
      exact ⟨i, ho, hlt, v, j, .inr hs⟩
  | loop v' j' body w count' rest ihb ihr =>
    rcases h with ⟨_, h⟩ | h | ⟨rfl, h⟩ | h
    · cases h
    · obtain ⟨i, ho, hlt, v, j, hs⟩ := ihb hb.2.1 h
      exact ⟨i, ho, hlt, v, j, .inr (.inl hs)⟩
    · cases h
      exact ⟨base, rfl, by omega, v', j', .inl ⟨rfl, rfl⟩⟩
    · obtain ⟨i, ho, hlt, v, j, hs⟩ := ihr hb.2.2 h
      exact ⟨i, ho, hlt, v, j, .inr (.inr (.inr hs))⟩

/-- A loop stands within the tree it belongs to, with both ends. -/
theorem Loop.bounds {l : Bool} {b : Block} (hb : b.Nests l) {base i c : Nat} {closer : Option Nat}
    (h : b.Loop base closer i c) : base ≤ i ∧ i < c ∧ c < base + b.size := by
  obtain ⟨verb, ingredient, hs⟩ := h
  obtain ⟨c', closing, count, he, hlt, hend, _⟩ := opener_of_holds hb hs
  cases he
  exact ⟨hs.bounds.1, hlt, hend.bounds.2⟩

theorem not_loop_done {base i c : Nat} {closer : Option Nat} : ¬ done.Loop base closer i c := by
  rintro ⟨_, _, h⟩
  exact h

theorem loop_plain {l : Bool} {op : Operation} {rest : Block} (hb : (plain op rest).Nests l)
    {base i c : Nat} {closer : Option Nat} (h : (plain op rest).Loop base closer i c) :
    rest.Loop (base + 1) closer i c := by
  obtain ⟨v, j, ⟨_, rfl⟩ | h⟩ := h
  · cases hb.1
  · exact ⟨v, j, h⟩

theorem loop_aside {rest : Block} {base i c : Nat} {closer : Option Nat}
    (h : (aside rest).Loop base closer i c) : rest.Loop (base + 1) closer i c := by
  obtain ⟨v, j, ⟨_, h⟩ | h⟩ := h
  · cases h
  · exact ⟨v, j, h⟩

/-- A loop of a tree that begins with a loop is that loop, one inside of it, or one behind it. -/
theorem loop_loop {verb ingredient closing : Text} {body rest : Block} {count : Option Text}
    {base i c : Nat} {closer : Option Nat}
    (h : (loop verb ingredient body closing count rest).Loop base closer i c) :
    (i = base ∧ c = base + 1 + body.size) ∨
      body.Loop (base + 1) (some (base + 1 + body.size)) i c ∨
      rest.Loop (base + 1 + body.size + 1) closer i c := by
  obtain ⟨v, j, ⟨rfl, h⟩ | h | ⟨_, h⟩ | h⟩ := h
  · cases h
    exact .inl ⟨rfl, rfl⟩
  · exact .inr (.inl ⟨v, j, h⟩)
  · cases h
  · exact .inr (.inr ⟨v, j, h⟩)

/-- Two loops of a tree are the same, apart, or one is strictly inside of the other. -/
theorem Loop.nested {l : Bool} {b : Block} (hb : b.Nests l) {base i c i' c' : Nat}
    {closer : Option Nat} (h : b.Loop base closer i c) (h' : b.Loop base closer i' c') :
    (i = i' ∧ c = c') ∨ c < i' ∨ c' < i ∨ (i < i' ∧ c' < c) ∨ (i' < i ∧ c < c') := by
  -- of two loops that are not in the same part, the places of the parts tell how they stand
  induction b generalizing l base closer with
  | done => exact absurd h not_loop_done
  | plain op rest ih => exact ih hb.2 (loop_plain hb h) (loop_plain hb h')
  | aside rest ih => exact ih hb.2 (loop_aside h) (loop_aside h')
  | loop v j body w count rest ihb ihr =>
    rcases loop_loop h with ⟨rfl, rfl⟩ | hi | hr
    · rcases loop_loop h' with ⟨rfl, rfl⟩ | hi' | hr'
      · exact .inl ⟨rfl, rfl⟩
      · have := hi'.bounds hb.2.1
        omega
      · have := hr'.bounds hb.2.2
        omega
    · have hi0 := hi.bounds hb.2.1
      rcases loop_loop h' with ⟨rfl, rfl⟩ | hi' | hr'
      · omega
      · exact ihb hb.2.1 hi hi'
      · have := hr'.bounds hb.2.2
        omega
    · have hr0 := hr.bounds hb.2.2
      rcases loop_loop h' with ⟨rfl, rfl⟩ | hi' | hr'
      · omega
      · have := hi'.bounds hb.2.1
        omega
      · exact ihr hb.2.2 hr hr'

/-- The `Set aside` at place `p` leaves the innermost loop of a tree around it, or there is none
    around it and it leaves the loop around the whole tree. -/
def LeavesInnermost (inLoop : Bool) (base : Nat) (closer : Option Nat) (b : Block) (p : Nat)
    (e : Option Nat) : Prop :=
  (inLoop = true ∧ e = closer ∧ ∀ i' c', b.Loop base closer i' c' → ¬ (i' < p ∧ p < c')) ∨
    ∃ i c, e = some c ∧ b.Loop base closer i c ∧ i < p ∧ p < c ∧
      ∀ i' c', b.Loop base closer i' c' → ¬ (i < i' ∧ i' < p ∧ p < c')

/-- What holds in a part of a tree holds in the whole, if the loops of the whole around a place of
    the part are loops of the part. -/
theorem LeavesInnermost.lift {inLoop : Bool} {base base' p : Nat} {closer e : Option Nat}
    {b b' : Block} (h : LeavesInnermost inLoop base' closer b' p e)
    (hin : ∀ i c, b'.Loop base' closer i c → b.Loop base closer i c)
    (hout : ∀ i c, b.Loop base closer i c → i < p → p < c → b'.Loop base' closer i c) :
    LeavesInnermost inLoop base closer b p e := by
  rcases h with ⟨hl, he, hnone⟩ | ⟨i, c, he, hloop, hip, hpc, hinner⟩
  · exact .inl ⟨hl, he, fun i' c' h' hlt => hnone i' c' (hout i' c' h' hlt.1 hlt.2) hlt⟩
  · exact .inr ⟨i, c, he, hin i c hloop, hip, hpc, fun i' c' h' hlt =>
      hinner i' c' (hout i' c' h' hlt.2.1 hlt.2.2) hlt⟩

theorem aside_of_holds {l : Bool} {b : Block} (hb : b.Nests l) {base p : Nat}
    {closer e : Option Nat} (h : b.Holds base closer p (.setAside e)) :
    LeavesInnermost l base closer b p e := by
  induction b generalizing l base closer with
  | done => exact h.elim
  | plain op rest ih =>
    rcases h with ⟨_, rfl⟩ | h
    · cases hb.1
    · exact (ih hb.2 h).lift (fun i c ⟨v, j, hs⟩ => ⟨v, j, .inr hs⟩) fun i c hl _ _ =>
        loop_plain hb hl
  | aside rest ih =>
    rcases h with ⟨rfl, h⟩ | h
    · cases h
      refine .inl ⟨hb.1, rfl, fun i' c' h' hlt => ?_⟩
      have := (loop_aside h').bounds hb.2
      omega
    · exact (ih hb.2 h).lift (fun i c ⟨v, j, hs⟩ => ⟨v, j, .inr hs⟩) fun i c hl _ _ => loop_aside hl
  | loop v j body w count rest ihb ihr =>
    rcases h with ⟨_, h⟩ | h | ⟨_, h⟩ | h
    · cases h
    · have hp := h.bounds
      rcases ihb hb.2.1 h with ⟨_, rfl, hnone⟩ | ⟨i, c, rfl, ⟨v', j', hs⟩, hip, hpc, hinner⟩
      · -- nothing in the body goes around it, so the loop of this body does
        refine .inr ⟨base, _, rfl, ⟨v, j, .inl ⟨rfl, rfl⟩⟩, by omega, by omega,
          fun i' c' h' hlt => ?_⟩
        rcases loop_loop h' with ⟨rfl, rfl⟩ | hi | hr
        · omega
        · exact hnone i' c' hi hlt.2
        · have := hr.bounds hb.2.2
          omega
      · refine .inr ⟨i, c, rfl, ⟨v', j', .inr (.inl hs)⟩, hip, hpc, fun i' c' h' hlt => ?_⟩
        rcases loop_loop h' with ⟨rfl, rfl⟩ | hi | hr
        · have := hs.bounds
          omega
        · exact hinner i' c' hi hlt
        · have := hr.bounds hb.2.2
          omega
    · cases h
    · have hp := h.bounds
      refine (ihr hb.2.2 h).lift (fun i c ⟨v', j', hs⟩ => ⟨v', j', .inr (.inr (.inr hs))⟩)
        fun i c hl hip hpc => ?_
      rcases loop_loop hl with ⟨rfl, rfl⟩ | hi | hr
      · omega
      · have := hi.bounds hb.2.1
        omega
      · exact hr

/-- The loops of a tree that stands in no loop itself are resolved when it is laid out. -/
theorem loopsResolved_lay {b : Block} (hb : b.Nests false) : LoopsResolved (b.lay 0 none) where
  opener i verb ingredient closer h := by
    rw [getElem?_lay_iff] at h
    obtain ⟨c, closing, count, he, hlt, hend, hv⟩ := opener_of_holds hb h
    have hc := hend.bounds.2
    rw [← getElem?_lay_iff] at hend
    exact ⟨c, closing, count, he, hlt, by rw [length_lay]; omega, hend, hv⟩
  closer c verb count opener h := by
    rw [getElem?_lay_iff] at h
    obtain ⟨i, ho, hlt, hloop⟩ := closer_of_holds hb h
    exact ⟨i, ho, hlt, (loopFrom_iff b i c).mpr hloop⟩
  nested i c i' c' h h' := by
    rw [loopFrom_iff] at h h'
    exact h.nested hb h'
  aside p closer h := by
    rw [getElem?_lay_iff] at h
    rcases aside_of_holds hb h with ⟨hl, _⟩ | ⟨i, c, he, hloop, hip, hpc, hinner⟩
    · cases hl
    · refine ⟨i, c, he, (loopFrom_iff b i c).mpr hloop, hip, hpc, fun i' c' h' => ?_⟩
      exact hinner i' c' ((loopFrom_iff b i' c').mp h')

end Block

/-! ## 3. Programs -/

theorem Recipe.Sound.loops {auxiliaries : Table Text Recipe} {r : Recipe}
    (h : r.Sound auxiliaries) : LoopsResolved (r.method.map (·.operation)) := by
  obtain ⟨b, hb, hlay⟩ := h.tree
  rw [hlay]
  exact b.loopsResolved_lay hb

/-- **The loops of every program refer to each other rightly**, in its main recipe and in all
    others. -/
theorem parse_loopsResolved {code : Text} {program : Program} (h : parse code = .ok program) :
    ∀ r ∈ program.recipes, LoopsResolved (r.method.map (·.operation)) := by
  intro r hr
  exact (parse_sound h r hr).loops

/-- Two loops, one in the other, with a `Set aside` in the inner one and a call in the outer one. -/
def nestedLoops : Text :=
  Text.join "\n" ["Nest.", "",
    "Ingredients.", "2 a", "",
    "Method.", "Sift the a. Beat the a. Set aside. Beat until beaten.",
    "Serve with rest. Sift the a until sifted.",
    "Pour contents of the mixing bowl into the baking dish.", "",
    "Serves 1.", "",
    "rest.", "",
    "Ingredients.", "72 ml h", "",
    "Method.", "Put h into mixing bowl. Refrigerate."]

/-- What is read of it. -/
def nestedLoopsProgram : Program where
  main := {
    name := "Nest"
    ingredients := [("a", ⟨.unknown, some 2⟩)]
    method := [
      ⟨.loopStart "sift" "a" (some 5), .within 6 0 10⟩,
      ⟨.loopStart "beat" "a" (some 3), .within 6 11 22⟩,
      ⟨.setAside (some 3), .within 6 23 33⟩,
      ⟨.loopEnd "beaten" none (some 1), .within 6 34 52⟩,
      ⟨.serveWith "rest", .within 7 0 15⟩,
      ⟨.loopEnd "sifted" (some "a") (some 0), .within 7 16 40⟩,
      ⟨.pour 1 1, .within 8 0 53⟩]
    serving := some ⟨10, 1⟩ }
  auxiliaries := [("rest", {
    name := "rest"
    ingredients := [("h", ⟨.liquid, some 72⟩)]
    method := [⟨.put "h" 1, .within 18 0 22⟩, ⟨.refrigerate none, .within 18 23 35⟩]
    serving := none })]

theorem parse_nestedLoops : parse nestedLoops = .ok nestedLoopsProgram :=
  Except.eq_ok_of_toOption (by decide +kernel)

theorem parse_loopsResolved_nestedLoops :
    parse nestedLoops = .ok nestedLoopsProgram ∧
      ∀ r ∈ nestedLoopsProgram.recipes, LoopsResolved (r.method.map (·.operation)) :=
  ⟨parse_nestedLoops, parse_loopsResolved parse_nestedLoops⟩

end Esolang.Chef
