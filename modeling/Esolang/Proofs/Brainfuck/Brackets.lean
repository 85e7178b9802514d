/-
  File:      Esolang/Proofs/Brainfuck/Brackets.lean
  Subject:   The programs are the texts with balanced brackets, and every bracket knows its partner.

  Reading keeps the brackets still open and nothing else. As long as no closing bracket comes too
  early, what has been read is a row of balanced pieces with an open bracket between each two, and
  so the innermost open bracket at the end is the last one without a partner.

  * `Balanced`: rows of commands whose brackets match; `Overdrawn`: more brackets are closed than
    opened.
  * `Partners`: two brackets with a balanced row between them.
  * `Block.lay_settled`: the brackets of a tree that is laid out flat refer to each other.
  * `parse_cases`: a source is read, or rejected at one of two kinds of brackets.
  * `parse_matches_brackets`: which sources are read, what they become, and where the others are
    rejected.
-/
import Esolang.Proofs.Brainfuck.Nesting
import Esolang.Proofs.Document
import Esolang.Proofs.Lists

namespace Esolang.Brainfuck

/-! ## 1. Balanced rows -/

/-- A row of commands whose brackets match. -/
inductive Balanced : List Command → Prop where
  | nil : Balanced []
  | action (a : Action) {rest : List Command} (hrest : Balanced rest) : Balanced (a.command :: rest)
  | loop {body rest : List Command} (hbody : Balanced body) (hrest : Balanced rest) :
      Balanced (.loopStart :: (body ++ .loopEnd :: rest))

/-- More brackets are closed than opened. -/
def Overdrawn (cs : List Command) : Prop := cs.count .loopStart < cs.count .loopEnd

theorem balanced_commands (b : Block) : Balanced b.commands := by
  induction b with
  | done => exact .nil
  | act a rest ih => exact .action a ih
  | loop body rest ihb ihr => exact .loop ihb ihr

/-- A balanced row has a tree. -/
theorem Balanced.exists_block {cs : List Command} (h : Balanced cs) : ∃ b :
    Block, b.commands = cs := by
  induction h with
  | nil => exact ⟨.done, rfl⟩
  | action a _ ih =>
    obtain ⟨b, rfl⟩ := ih
    exact ⟨.act a b, rfl⟩
  | loop _ _ ihb ihr =>
    obtain ⟨body, rfl⟩ := ihb
    obtain ⟨rest, rfl⟩ := ihr
    exact ⟨.loop body rest, rfl⟩

theorem count_action (a : Action) (rest : List Command) :
    (a.command :: rest).count .loopStart = rest.count .loopStart ∧
      (a.command :: rest).count .loopEnd = rest.count .loopEnd := by
  cases a <;> exact ⟨rfl, rfl⟩

theorem count_loop (body rest : List Command) :
    (.loopStart :: (body ++ .loopEnd :: rest)).count .loopStart = body.count .loopStart + rest.count
      .loopStart + 1 ∧
      (.loopStart :: (body ++ .loopEnd :: rest)).count .loopEnd =
        body.count .loopEnd + rest.count .loopEnd + 1 := by
  have hne : Command.loopStart ≠ .loopEnd := by decide
  constructor
  · rw [List.count_cons_self, List.count_append, List.count_cons_of_ne hne.symm]
  · rw [List.count_cons_of_ne hne, List.count_append, List.count_cons_self]
    rfl

theorem Balanced.count_eq {cs : List Command} (h : Balanced cs) :
    cs.count .loopStart = cs.count .loopEnd := by
  induction h with
  | nil => rfl
  | action a _ ih =>
    obtain ⟨hstart, hend⟩ := count_action a _
    rw [hstart, hend, ih]
  | loop _ _ ihb ihr =>
    obtain ⟨hstart, hend⟩ := count_loop _ _
    rw [hstart, hend, ihb, ihr]

/-- What is never overdrawn stays so with another such row behind it. -/
theorem not_overdrawn_append {front back : List Command} (hfront : ∀ k, ¬ Overdrawn (front.take k))
    (hback : ∀ k, ¬ Overdrawn (back.take k)) (k : Nat) : ¬ Overdrawn ((front ++ back).take k) := by
  have h₁ := hfront k
  have h₂ := hback (k - front.length)
  unfold Overdrawn at h₁ h₂ ⊢
  rw [List.take_append, List.count_append, List.count_append]
  omega

theorem not_overdrawn_start {cs : List Command} (h : ¬ Overdrawn cs) :
    ¬ Overdrawn (.loopStart :: cs) := by
  have hne : Command.loopStart ≠ .loopEnd := by decide
  unfold Overdrawn at h ⊢
  rw [List.count_cons_self, List.count_cons_of_ne hne]
  omega

/-- **No beginning of a balanced row is overdrawn.** -/
theorem Balanced.not_overdrawn {cs : List Command} (h : Balanced cs) (k : Nat) :
    ¬ Overdrawn (cs.take k) := by
  induction h generalizing k with
  | nil =>
    rw [List.take_nil]
    exact Nat.lt_irrefl 0
  | @action a rest _ ih =>
    cases k with
    | zero => exact Nat.lt_irrefl 0
    | succ k =>
      obtain ⟨hstart, hend⟩ := count_action a (rest.take k)
      rw [List.take_succ_cons, Overdrawn, hstart, hend]
      exact ih k
  | @loop body rest hbody _ ihb ihr =>
    cases k with
    | zero => exact Nat.lt_irrefl 0
    | succ k =>
      rw [List.take_succ_cons, List.take_append]
      cases hbehind : k - body.length with
      | zero =>
        rw [List.take_zero, List.append_nil]
        exact not_overdrawn_start (ihb k)
      | succ n =>
        have hall : body.take k = body := List.take_of_length_le (by omega)
        have hcount := hbody.count_eq
        have hrest := ihr n
        obtain ⟨hstart, hend⟩ := count_loop body (rest.take n)
        unfold Overdrawn at hrest ⊢
        rw [hall, List.take_succ_cons, hstart, hend]
        omega

/-! ## 2. Partners -/

/-- The brackets at places `i` and `j` belong together: what stands between them is balanced. -/
structure Partners (cs : List Command) (i j : Nat) : Prop where
  lt : i < j
  start : cs[i]? = some .loopStart
  stop : cs[j]? = some .loopEnd
  between : Balanced ((cs.take j).drop (i + 1))

theorem partners_loop {body : List Command} (hbody : Balanced body) (rest : List Command) :
    Partners (.loopStart :: (body ++ .loopEnd :: rest)) 0 (body.length + 1) where
  lt := Nat.succ_pos _
  start := rfl
  stop := by
    rw [List.getElem?_cons_succ]
    exact List.getElem?_middle body _ rest
  between := by
    rw [List.take_succ_cons, List.take_left]
    exact hbody

/-- Partners stay partners in a longer row. -/
theorem Partners.lift {cs : List Command} {i j : Nat} (h : Partners cs i j)
    (front back : List Command) :
    Partners (front ++ (cs ++ back)) (front.length + i) (front.length + j) where
  lt := Nat.add_lt_add_left h.lt _
  start := List.getElem?_lift h.start front back
  stop := List.getElem?_lift h.stop front back
  between := by
    have hj : j ≤ cs.length := Nat.le_of_lt (List.getElem?_eq_some_iff.mp h.stop).1
    have htake : (front ++ (cs ++ back)).take (front.length + j) = front ++ cs.take j := by
      rw [List.take_length_add_append, List.take_append_of_le_length hj]
    rw [htake, Nat.add_assoc, List.drop_length_add_append]
    exact h.between

/-- A closing bracket behind a balanced row is one too many. -/
theorem overdrawn_concat {front : List Command} (h : Balanced front) :
    Overdrawn (front ++ [.loopEnd]) := by
  have hne : Command.loopEnd ≠ .loopStart := by decide
  rw [Overdrawn, List.count_append, List.count_append, List.count_cons_of_ne hne,
    List.count_cons_self, h.count_eq]
  exact Nat.lt_succ_self _

/-- An opening bracket with a balanced row behind it, up to the end, has no partner. -/
theorem no_partner {front back : List Command} (hback : Balanced back) (n : Nat) :
    ¬ Partners (front ++ .loopStart :: back) front.length n := by
  intro h
  have hsplit := List.split_at h.lt h.start h.stop
  rw [List.take_left] at hsplit
  have hrest := (List.cons.inj (List.append_cancel_left hsplit)).2
  obtain ⟨body, hbody, more, rfl⟩ : ∃ body, Balanced body ∧
      ∃ more, back = body ++ .loopEnd :: more :=
    ⟨_, h.between, _, hrest⟩
  -- the partner would be one closing bracket too many behind the opening one
  refine hback.not_overdrawn (body.length + 1) ?_
  rw [List.take_length_add_append]
  exact overdrawn_concat hbody

/-! ## 3. Trees laid out flat -/

/-- The brackets at the places `k` and `n` of a row that begins at place `base` are partners, and
    say so. -/
structure Joined (base : Nat) (entries : List (Command × Option Nat)) (k n : Nat) : Prop where
  start : entries[k]? = some (.loopStart, some (base + n))
  stop : entries[n]? = some (.loopEnd, some (base + k))
  partners : Partners (entries.map Prod.fst) k n

theorem Joined.lift {base k n : Nat} {front entries : List (Command × Option Nat)}
    (h : Joined (base + front.length) entries k n) (back : List (Command × Option Nat)) :
    Joined base (front ++ (entries ++ back)) (front.length + k) (front.length + n) where
  start := by
    rw [← Nat.add_assoc]
    exact List.getElem?_lift h.start front back
  stop := by
    rw [← Nat.add_assoc]
    exact List.getElem?_lift h.stop front back
  partners := by
    have hpartners := h.partners.lift (front.map Prod.fst) (back.map Prod.fst)
    rw [List.length_map] at hpartners
    rw [List.map_append, List.map_append]
    exact hpartners

/-- What stands at place `k` of a row is no bracket and has no partner, or is a bracket with its
    partner. -/
def Settled (base : Nat) (entries : List (Command × Option Nat)) (k : Nat) : Prop :=
  (∃ a : Action, entries[k]? = some (a.command, none)) ∨ (∃ n, Joined base entries k n) ∨
    ∃ n, Joined base entries n k

theorem Settled.lift {base k : Nat} {entries : List (Command × Option Nat)}
    (front : List (Command × Option Nat)) (h : Settled (base + front.length) entries k)
    (back : List (Command × Option Nat)) :
    Settled base (front ++ (entries ++ back)) (front.length + k) := by
  rcases h with ⟨a, ha⟩ | ⟨n, hn⟩ | ⟨n, hn⟩
  · exact .inl ⟨a, List.getElem?_lift ha front back⟩
  · exact .inr (.inl ⟨_, hn.lift back⟩)
  · exact .inr (.inr ⟨_, hn.lift back⟩)

theorem Block.lay_joined (body rest : Block) (base : Nat) :
    Joined base ((loop body rest).lay base) 0 (body.size + 1) where
  start := by
    have hplace : base + 1 + body.size = base + (body.size + 1) := by omega
    rw [lay, hplace]
    rfl
  stop := by
    rw [lay, List.getElem?_cons_succ, ← length_lay body (base + 1)]
    exact List.getElem?_middle _ _ _
  partners := by
    have hbody := partners_loop (balanced_commands body) rest.commands
    have hlength : body.commands.length = body.size := by
      rw [← body.map_fst_lay 0, List.length_map, length_lay]
    rw [hlength] at hbody
    rw [map_fst_lay]
    exact hbody

/-- **The brackets of a tree that is laid out flat refer to each other.** -/
theorem Block.lay_settled (b : Block) (base : Nat) {k : Nat} (hk : k < b.size) :
    Settled base (b.lay base) k := by
  induction b generalizing base k with
  | done => exact absurd hk (Nat.not_lt_zero k)
  | act a rest ih =>
    cases k with
    | zero => exact .inl ⟨a, rfl⟩
    | succ k =>
      have hrest : Settled (base + 1) (rest.lay (base + 1)) k := ih _ (Nat.lt_of_succ_lt_succ hk)
      have hlifted := hrest.lift [(a.command, none)] []
      rw [List.append_nil, List.length_singleton, Nat.add_comm 1 k] at hlifted
      exact hlifted
  | loop body rest ihb ihr =>
    have hjoined := lay_joined body rest base
    rcases Nat.lt_trichotomy k (body.size + 1) with hbefore | rfl | hbehind
    · cases k with
      | zero => exact .inr (.inl ⟨_, hjoined⟩)
      | succ k =>
        have hbody : Settled (base + 1) (body.lay (base + 1)) k :=
          ihb _ (Nat.lt_of_succ_lt_succ hbefore)
        have hlifted := hbody.lift [(.loopStart, some (base + 1 + body.size))]
          ((.loopEnd, some base) :: rest.lay (base + 1 + body.size + 1))
        rw [List.length_singleton, Nat.add_comm 1 k] at hlifted
        exact hlifted
    · exact .inr (.inr ⟨_, hjoined⟩)
    · let front :=
        (.loopStart, some (base + 1 + body.size)) ::
          (body.lay (base + 1) ++ [(.loopEnd, some base)])
      have hlength : front.length = body.size + 2 := by
        rw [List.length_cons, List.length_append, length_lay]
        rfl
      obtain ⟨k, rfl⟩ : ∃ k', k = front.length + k' := ⟨k - front.length, by omega⟩
      have hplace : base + 1 + body.size + 1 = base + front.length := by omega
      have hrest : Settled (base + front.length) (rest.lay (base + front.length)) k := by
        rw [size] at hk
        exact ihr _ (by omega)
      have hlay : (loop body rest).lay base = front ++ (rest.lay (base + front.length) ++ []) := by
        rw [lay, hplace, List.append_nil, List.cons_append, List.append_assoc]
        rfl
      rw [hlay]
      exact hrest.lift front []

/-- Every opening bracket of a balanced row has a partner. -/
theorem Balanced.exists_partner {cs : List Command} (h : Balanced cs) {k : Nat}
    (hk : cs[k]? = some .loopStart) : ∃ n, Partners cs k n := by
  obtain ⟨b, rfl⟩ := h.exists_block
  have hat : ((b.lay 0)[k]?).map Prod.fst = some .loopStart := by
    rw [← List.getElem?_map, b.map_fst_lay]
    exact hk
  have hlt : k < b.size := by
    have hsome := (List.getElem?_eq_some_iff.mp hk).1
    rw [← b.map_fst_lay 0, List.length_map, Block.length_lay] at hsome
    exact hsome
  rcases b.lay_settled 0 hlt with ⟨a, ha⟩ | ⟨n, hn⟩ | ⟨n, hn⟩
  · rw [ha] at hat
    cases a <;> cases hat
  · have hpartners := hn.partners
    rw [b.map_fst_lay] at hpartners
    exact ⟨n, hpartners⟩
  · rw [hn.stop] at hat
    cases hat

/-! ## 4. Reading -/

theorem ofCodePoint?_eq_some_iff {c : CodePoint} {command : Command} :
    Command.ofCodePoint? c = some command ↔ c = command.symbol := by
  constructor
  · intro h
    unfold Command.ofCodePoint? at h
    split at h <;> cases h
    all_goals next hc => exact CodePoint.eq_of_char? hc
  · rintro rfl
    cases command <;> rfl

/-- Only a closing bracket can be refused, and only while none is open. -/
theorem Draft.add_error {d : Draft} {c : Placed Command} {why : Rejection}
    (h : d.add c = .error why) :
    d.unclosed = [] ∧ c.item = .loopEnd ∧ why = BracketError.unmatchedEnd.at c.span := by
  unfold Draft.add at h
  rcases Command.cases c.item with ⟨a, hc⟩ | hc | hc
  · rw [hc] at h
    cases a <;> cases h
  · rw [hc] at h
    cases h
  · rw [hc] at h
    cases hopen : d.unclosed with
    | nil =>
      rw [hopen] at h
      exact ⟨rfl, hc, (Except.error.inj h).symm⟩
    | cons start outer =>
      rw [hopen] at h
      cases h

/-- Commands are added until one is refused. -/
theorem Draft.addAll_error {cs : List (Placed Command)} {d : Draft} {why : Rejection}
    (h : d.addAll cs = .error why) :
    ∃ front c back, ∃ d' : Draft, cs = front ++ c :: back ∧ d.addAll front = .ok d' ∧
      d'.unclosed = [] ∧ c.item = .loopEnd ∧ why = BracketError.unmatchedEnd.at c.span := by
  induction cs generalizing d with
  | nil => cases h
  | cons c rest ih =>
    rw [Draft.addAll] at h
    cases hadd : d.add c with
    | error e =>
      rw [hadd] at h
      cases h
      exact ⟨[], c, rest, d, rfl, rfl, Draft.add_error hadd⟩
    | ok d₁ =>
      rw [hadd] at h
      obtain ⟨front, c', back, d', rfl, hfront, hrest⟩ := ih h
      refine ⟨c :: front, c', back, d', rfl, ?_, hrest⟩
      rw [Draft.addAll, hadd]
      exact hfront

/-- What has been read is never overdrawn, whatever is still open. -/
theorem layPending_not_overdrawn (outermost : Block) (pending : List Block) (k : Nat) :
    ¬ Overdrawn (((layPending outermost pending).map Prod.fst).take k) := by
  induction pending generalizing k with
  | nil =>
    rw [layPending, outermost.map_fst_lay]
    exact (balanced_commands outermost).not_overdrawn k
  | cons inner outer ih =>
    rw [layPending, List.map_append, List.map_cons, inner.map_fst_lay]
    refine not_overdrawn_append ih (fun k => ?_) k
    cases k with
    | zero => exact Nat.lt_irrefl 0
    | succ k =>
      rw [List.take_succ_cons]
      exact not_overdrawn_start ((balanced_commands inner).not_overdrawn k)

theorem Draft.Shows.items {d : Draft} {outermost : Block} {pending : List Block}
    (h : d.Shows outermost pending) :
    (d.instructions.map (·.command)).map (·.item) =
      (layPending outermost pending).map Prod.fst := by
  rw [← h.entries, List.map_map, List.map_map]
  rfl

/-- A draft with an open bracket is rejected at the innermost one, which has a balanced row behind
    it. -/
theorem Draft.Shows.finish_open {d : Draft} {outermost inner : Block} {outer : List Block}
    (h : d.Shows outermost (inner :: outer)) :
    ∃ front c back, d.instructions.map (·.command) = front ++ c :: back ∧ c.item = .loopStart ∧
      Balanced (back.map (·.item)) ∧ d.finish = .error (BracketError.unmatchedStart.at c.span) := by
  have hitems := h.items
  rw [layPending, List.map_append, List.map_cons, inner.map_fst_lay] at hitems
  obtain ⟨front, rest, hsplit, hfront, hrest⟩ := List.map_eq_append_iff.mp hitems
  obtain ⟨c, back, rfl, hc, hback⟩ := List.map_eq_cons_iff.mp hrest
  have hlength : front.length = (layPending outermost outer).length := by
    have hlengths := congrArg List.length hfront
    rwa [List.length_map, List.length_map] at hlengths
  have hat : (d.instructions[front.length]?).map (·.command) = some c := by
    rw [← List.getElem?_map, hsplit]
    exact List.getElem?_middle front c back
  obtain ⟨i, hi, hcommand⟩ := Option.map_eq_some_iff.mp hat
  have hopen : d.unclosed = front.length :: openPlaces outermost outer := by
    rw [h.unclosed, hlength]
    rfl
  refine ⟨front, c, back, hsplit, hc, hback ▸ balanced_commands inner, ?_⟩
  simp only [Draft.finish, hopen, hi, Instruction.span, hcommand]

/-- **A source is read, or rejected** at a closing bracket with a balanced row before it, or at an
    opening bracket with a balanced row behind it. -/
theorem parse_cases (code : Text) :
    let cs := placed Command.ofCodePoint? code
    (Balanced (cs.map (·.item)) ∧ ∃ program, parse code = .ok program) ∨
    (∃ front c back, cs = front ++ c :: back ∧ Balanced (front.map (·.item)) ∧ c.item = .loopEnd ∧
      parse code = .error (BracketError.unmatchedEnd.at c.span)) ∨
    ∃ front c back, cs = front ++ c :: back ∧ c.item = .loopStart ∧ Balanced (back.map (·.item)) ∧
      (∀ k, ¬ Overdrawn ((cs.map (·.item)).take k)) ∧
      parse code = .error (BracketError.unmatchedStart.at c.span) := by
  intro cs
  have hempty : (Draft.mk [] []).Nested := ⟨.done, [], rfl, rfl⟩
  cases hall : (Draft.mk [] []).addAll (placed Command.ofCodePoint? code) with
  | error why =>
    obtain ⟨front, c, back, d, hsplit, hfront, hnone, hc, rfl⟩ := Draft.addAll_error hall
    obtain ⟨⟨outermost, pending, hshows⟩, hcommands⟩ := Draft.addAll_nested hempty hfront
    have hpending : pending = [] := by
      cases pending with
      | nil => rfl
      | cons inner outer => cases hnone.symm.trans hshows.unclosed
    have hitems : front.map (·.item) = outermost.commands := by
      have hitems := hshows.items
      rw [hcommands, hpending, layPending, outermost.map_fst_lay] at hitems
      exact hitems
    refine .inr (.inl ⟨front, c, back, hsplit, hitems ▸ balanced_commands outermost, hc, ?_⟩)
    simp only [parse, hall]
  | ok d =>
    obtain ⟨⟨outermost, pending, hshows⟩, hcommands⟩ := Draft.addAll_nested hempty hall
    have hread : d.instructions.map (·.command) = cs := hcommands
    have hfinish : parse code = d.finish := by simp only [parse, hall]
    rw [← hread, hshows.items, hfinish]
    cases pending with
    | nil =>
      have hdone : d.finish = .ok d.instructions := by
        have hnone : d.unclosed = [] := hshows.unclosed
        simp only [Draft.finish, hnone]
      refine .inl ⟨?_, d.instructions, hdone⟩
      rw [layPending, outermost.map_fst_lay]
      exact balanced_commands outermost
    | cons inner outer =>
      obtain ⟨front, c, back, hsplit, hc, hback, hrejected⟩ := hshows.finish_open
      exact .inr (.inr ⟨front, c, back, hsplit, hc, hback, layPending_not_overdrawn outermost _,
        hrejected⟩)

/-! ## 5. Programs -/

section Program

variable {program : List Instruction} {b : Block}

/-- Whatever stands in a program is no bracket and has no partner, or is a bracket with its
    partner. -/
theorem settled_of_lay (hlay : program.map (·.entry) = b.lay 0) {k : Nat} {i : Instruction}
    (hi : program[k]? = some i) : Settled 0 (program.map (·.entry)) k := by
  have hlt : k < b.size := by
    rw [← b.length_lay 0, ← hlay, List.length_map]
    exact (List.getElem?_eq_some_iff.mp hi).1
  rw [hlay]
  exact b.lay_settled 0 hlt

theorem entry_of_getElem? {k : Nat} {e : Command × Option Nat}
    (h : (program.map (·.entry))[k]? = some e) :
    ∃ i, program[k]? = some i ∧ i.command.item = e.1 ∧ i.partner = e.2 := by
  rw [List.getElem?_map] at h
  obtain ⟨i, hi, rfl⟩ := Option.map_eq_some_iff.mp h
  exact ⟨i, hi, rfl, rfl⟩

/-- **The brackets of a program know their partners**, and nothing else has one. -/
theorem partner_of_lay (hlay : program.map (·.entry) = b.lay 0) {k : Nat} {i : Instruction}
    (hi : program[k]? = some i) :
    let commands := program.map fun i => i.command.item
    (i.command.item = .loopStart → ∃ n j, i.partner = some n ∧ program[n]? = some j ∧
      j.partner = some k ∧ Partners commands k n) ∧
    (i.command.item = .loopEnd → ∃ n j, i.partner = some n ∧ program[n]? = some j ∧
      j.partner = some k ∧ Partners commands n k) ∧
    (i.command.item ≠ .loopStart → i.command.item ≠ .loopEnd → i.partner = none) := by
  intro commands
  have hcommands : (program.map (·.entry)).map Prod.fst = commands := by
    rw [List.map_map]
    rfl
  rcases settled_of_lay hlay hi with ⟨a, ha⟩ | ⟨n, hn⟩ | ⟨n, hn⟩
  · obtain ⟨i', hi', hitem, hpartner⟩ := entry_of_getElem? ha
    obtain rfl := Option.some.inj (hi'.symm.trans hi)
    refine ⟨fun h => ?_, fun h => ?_, fun _ _ => hpartner⟩
    · cases a <;> cases hitem.symm.trans h
    · cases a <;> cases hitem.symm.trans h
  · obtain ⟨i', hi', hitem, hpartner⟩ := entry_of_getElem? hn.start
    obtain ⟨j, hj, -, hback⟩ := entry_of_getElem? hn.stop
    obtain rfl := Option.some.inj (hi'.symm.trans hi)
    rw [Nat.zero_add] at hpartner hback
    refine ⟨fun _ => ⟨n, j, hpartner, hj, hback, hcommands ▸ hn.partners⟩, fun h => ?_,
      fun h => absurd hitem h⟩
    cases hitem.symm.trans h
  · obtain ⟨i', hi', hitem, hpartner⟩ := entry_of_getElem? hn.stop
    obtain ⟨j, hj, -, hback⟩ := entry_of_getElem? hn.start
    obtain rfl := Option.some.inj (hi'.symm.trans hi)
    rw [Nat.zero_add] at hpartner hback
    refine ⟨fun h => ?_, fun _ => ⟨n, j, hpartner, hj, hback, hcommands ▸ hn.partners⟩,
      fun _ h => absurd hitem h⟩
    cases hitem.symm.trans h

end Program

/-- A closing bracket behind a balanced row is the first one that overdraws. -/
theorem first_overdrawn {front : List Command} (hfront : Balanced front) (back : List Command) :
    Overdrawn ((front ++ .loopEnd :: back).take (front.length + 1)) ∧
      ∀ j ≤ front.length, ¬ Overdrawn ((front ++ .loopEnd :: back).take j) := by
  refine ⟨?_, fun j hj => ?_⟩
  · rw [List.take_length_add_append]
    exact overdrawn_concat hfront
  · rw [List.take_append_of_le_length hj]
    exact hfront.not_overdrawn j

/-- An opening bracket with a balanced row behind it is the last one without a partner. -/
theorem last_unmatched (front : List Command) {back : List Command} (hback : Balanced back) :
    (∀ n, ¬ Partners (front ++ .loopStart :: back) front.length n) ∧
      ∀ j, front.length < j → (front ++ .loopStart :: back)[j]? = some .loopStart →
        ∃ n, Partners (front ++ .loopStart :: back) j n := by
  refine ⟨no_partner hback, fun j hj hstart => ?_⟩
  have hrow : front ++ .loopStart :: back = (front ++ [.loopStart]) ++ (back ++ []) := by
    rw [List.append_nil, List.append_assoc]
    rfl
  obtain ⟨k, rfl⟩ : ∃ k, j = (front ++ [Command.loopStart]).length + k :=
    ⟨j - (front.length + 1), by rw [List.length_append, List.length_singleton]; omega⟩
  have hat : back[k]? = some .loopStart := by
    rw [hrow, List.getElem?_append_right (Nat.le_add_right _ _), Nat.add_sub_cancel_left,
      List.append_nil] at hstart
    exact hstart
  obtain ⟨n, hn⟩ := hback.exists_partner hat
  rw [hrow]
  exact ⟨_, hn.lift _ []⟩

/-- The commands of a source stand in it, in the order of reading, and there are no others. -/
theorem commands_placed (code : Text) :
    (placed Command.ofCodePoint? code).Pairwise Placed.Before ∧ ∀ c row col,
      ⟨c, row, col⟩ ∈ placed Command.ofCodePoint? code ↔
        charAt code.lines row col = some c.symbol := by
  refine ⟨placed_before _ code, fun c row col => mem_placed_iff.trans ⟨?_, fun h => ?_⟩⟩
  · rintro ⟨char, hchar, hc⟩
    rw [hchar, ofCodePoint?_eq_some_iff.mp hc]
  · exact ⟨_, h, ofCodePoint?_eq_some_iff.mpr rfl⟩

theorem parse_iff_balanced (code : Text) :
    (∃ program, parse code = .ok program) ↔
      Balanced ((placed Command.ofCodePoint? code).map (·.item)) := by
  rcases parse_cases code with ⟨hbalanced, hread⟩ | ⟨front, c, back, hsplit, hfront, hc, herror⟩ |
    ⟨front, c, back, hsplit, hc, hback, -, herror⟩
  · exact ⟨fun _ => hbalanced, fun _ => hread⟩
  · rw [hsplit, List.map_append, List.map_cons, hc, herror]
    refine ⟨fun hread => ?_, fun hbalanced => absurd (first_overdrawn hfront _).1
      (hbalanced.not_overdrawn _)⟩
    obtain ⟨program, hok⟩ := hread
    cases hok
  · rw [hsplit, List.map_append, List.map_cons, hc, herror]
    refine ⟨fun hread => ?_, fun hbalanced => ?_⟩
    · obtain ⟨program, hok⟩ := hread
      cases hok
    · obtain ⟨n, hn⟩ := hbalanced.exists_partner (List.getElem?_middle (front.map (·.item)) _ _)
      exact absurd hn (no_partner hback n)

/-- **Where a source is rejected**: at the first closing bracket that overdraws, or else at the last
    opening bracket without a partner. -/
theorem rejected_at {code : Text} {why : Rejection} (h : parse code = .error why) :
    let cs := placed Command.ofCodePoint? code
    let commands := cs.map (·.item)
    (∃ k c, cs[k]? = some c ∧ c.item = .loopEnd ∧ Overdrawn (commands.take (k + 1)) ∧
      (∀ j ≤ k, ¬ Overdrawn (commands.take j)) ∧ why = BracketError.unmatchedEnd.at c.span) ∨
    (∀ j, ¬ Overdrawn (commands.take j)) ∧
      ∃ k c, cs[k]? = some c ∧ c.item = .loopStart ∧ (∀ n, ¬ Partners commands k n) ∧
        (∀ j, k < j → commands[j]? = some .loopStart → ∃ n, Partners commands j n) ∧
        why = BracketError.unmatchedStart.at c.span := by
  intro cs commands
  have hat : ∀ front c back, cs = front ++ c :: back →
      cs[(front.map (·.item)).length]? = some c := by
    intro front c back hsplit
    rw [hsplit, List.length_map]
    exact List.getElem?_middle front c back
  rcases parse_cases code with ⟨-, program, hok⟩ | ⟨front, c, back, hsplit, hfront, hc, herror⟩ |
    ⟨front, c, back, hsplit, hc, hback, hnever, herror⟩
  · cases hok.symm.trans h
  · have hrow : commands = front.map (·.item) ++ .loopEnd :: back.map (·.item) := by
      rw [← hc, ← List.map_cons, ← List.map_append, ← hsplit]
    obtain ⟨hfirst, hbefore⟩ := first_overdrawn hfront (back.map (·.item))
    rw [← hrow] at hfirst hbefore
    exact .inl ⟨_, c, hat front c back hsplit, hc, hfirst, hbefore,
      Except.error.inj (h.symm.trans herror)⟩
  · have hrow : commands = front.map (·.item) ++ .loopStart :: back.map (·.item) := by
      rw [← hc, ← List.map_cons, ← List.map_append, ← hsplit]
    obtain ⟨hnone, hlater⟩ := last_unmatched (front.map (·.item)) hback
    rw [← hrow] at hnone hlater
    exact .inr ⟨hnever, _, c, hat front c back hsplit, hc, hnone, hlater,
      Except.error.inj (h.symm.trans herror)⟩

/-- **The programs are exactly the texts with balanced brackets.** Let `cs` be the command
    characters of a source in the order of reading, with their lines and columns. A program that is
    read has these commands at these places; every bracket of it carries the place of its partner,
    which carries its own place, and what stands between the two is balanced; nothing else carries a
    place. A source is read if and only if its brackets are balanced. Otherwise it is rejected at
    the first closing bracket up to which more brackets are closed than opened, or, where there is
    none, at the last opening bracket without a partner. -/
theorem parse_matches_brackets (code : Text) :
    let cs := placed Command.ofCodePoint? code
    let commands := cs.map (·.item)
    (cs.Pairwise Placed.Before ∧
      ∀ c row col, ⟨c, row, col⟩ ∈ cs ↔ charAt code.lines row col = some c.symbol) ∧
    (∀ program, parse code = .ok program → program.map (·.command) = cs ∧
      ∀ k i, program[k]? = some i →
        (i.command.item = .loopStart → ∃ n j, i.partner = some n ∧ program[n]? = some j ∧
          j.partner = some k ∧ Partners commands k n) ∧
        (i.command.item = .loopEnd → ∃ n j, i.partner = some n ∧ program[n]? = some j ∧
          j.partner = some k ∧ Partners commands n k) ∧
        (i.command.item ≠ .loopStart → i.command.item ≠ .loopEnd → i.partner = none)) ∧
    ((∃ program, parse code = .ok program) ↔ Balanced commands) ∧
    ∀ why, parse code = .error why →
      (∃ k c, cs[k]? = some c ∧ c.item = .loopEnd ∧ Overdrawn (commands.take (k + 1)) ∧
        (∀ j ≤ k, ¬ Overdrawn (commands.take j)) ∧ why = ⟨"Unmatched ']'", c.span⟩) ∨
      (∀ j, ¬ Overdrawn (commands.take j)) ∧
        ∃ k c, cs[k]? = some c ∧ c.item = .loopStart ∧ (∀ n, ¬ Partners commands k n) ∧
          (∀ j, k < j → commands[j]? = some .loopStart → ∃ n, Partners commands j n) ∧
          why = ⟨"Unmatched '['", c.span⟩ := by
  intro cs commands
  refine ⟨commands_placed code, fun program hok => ?_, parse_iff_balanced code,
    fun why herror => rejected_at herror⟩
  obtain ⟨hread, b, hlay⟩ := parse_shows hok
  have hcommands : commands = program.map fun i => i.command.item := by
    show (placed Command.ofCodePoint? code).map (·.item) = _
    rw [← hread, List.map_map]
    rfl
  refine ⟨hread, fun k i hi => ?_⟩
  rw [hcommands]
  exact partner_of_lay hlay hi

/-- The second bracket has no partner, although a later one does. -/
example : parse "[a]\n+[-[<]" = .error ⟨"Unmatched '['", .cell 1 1⟩ := rfl

/-- The bracket that closes too much is named, and not the open one behind it. -/
example : parse "+[]]\n[" = .error ⟨"Unmatched ']'", .cell 0 3⟩ := rfl

end Esolang.Brainfuck
