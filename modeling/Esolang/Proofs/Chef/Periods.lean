/-
  File:      Esolang/Proofs/Chef/Periods.lean
  Subject:   The steps of a method and the periods of its lines, one for one.

  A method is cut at its periods, line by line: a statement is what stands before a period, back to
  the period before it or to the beginning of the line. What follows the last period of a line
  belongs to no step.

  * `Span.Takes`, `Span.Ahead`: the places of a stretch of a line, and when all of them come before
    those of another.
  * `StandsAt`: a statement and its period; `Cut`: lines cut into statements, and `page_cut`: what
    is read of a paragraph is cut so.
  * `Cut.at_index`, `Cut.all`, `Cut.ordered`: where each statement begins, that no period is left
    out, and the order.
  * `Recipe.Mapped`: the steps of a recipe and the periods on some lines; `recipes_mapped`: recipes
    that are read one after another have theirs on lines one after another.
  * `source_map_exact`: all steps of a program.
-/
import Esolang.Proofs.Chef.Layout
import Esolang.Proofs.Chef.Loops
import Esolang.Proofs.Chef.Outline
import Mathlib.Data.List.Pairwise

namespace Esolang

/-! ## 1. Places -/

/-- The places of a stretch of a line, with the one that ends it. -/
def Span.Takes (l : Span) (row col : Nat) : Prop :=
  ∃ first stop : Nat, l = .within row first stop ∧ first ≤ col ∧ col ≤ stop

/-- All places of one stretch come before all places of another. -/
def Span.Ahead (l l' : Span) : Prop :=
  ∀ row col row' col', l.Takes row col → l'.Takes row' col' → row < row' ∨ row = row' ∧ col < col'

theorem within_inj {row first stop row' first' stop' : Nat}
    (h : Span.within row first stop = .within row' first' stop') :
    row = row' ∧ first = first' ∧ stop = stop' := by
  unfold Span.within at h
  injection h with hrow hfirst _ hstop
  injection hfirst with hfirst
  injection hstop with hstop
  omega

theorem ahead_within {row first stop row' first' stop' : Nat}
    (h : row < row' ∨ row = row' ∧ stop < first') :
    (Span.within row first stop).Ahead (.within row' first' stop') := by
  rintro r c r' c' ⟨a, b, hl, hac, hcb⟩ ⟨a', b', hl', hac', hcb'⟩
  obtain ⟨rfl, rfl, rfl⟩ := within_inj hl
  obtain ⟨rfl, rfl, rfl⟩ := within_inj hl'
  omega

/-- Of two stretches, one ahead of the other, no place is in both. -/
theorem Span.Ahead.apart {l l' : Span} (h : l.Ahead l') {row col : Nat} (hl : l.Takes row col)
    (hl' : l'.Takes row col) : False := by
  have hbefore := h row col row col hl hl'
  omega

theorem charAt_of_line {doc : List Text} {row : Nat} {text : Text} (h : doc[row]? = some text)
    (col : Nat) : charAt doc row col = text[col]? := by
  rw [charAt, h, Option.bind_some]

namespace Chef

/-! ## 2. Statements -/

/-- A statement stands on a line from a column up to a period, and there is no other period in
    between. -/
structure StandsAt (doc : List Text) (statement : Text) (row first stop : Nat) : Prop where
  le : first ≤ stop
  line : ∃ text, doc[row]? = some text ∧ stop < text.length ∧ text[stop]? = some (.ofChar '.') ∧
    (∀ col, first ≤ col → col < stop → text[col]? ≠ some (.ofChar '.')) ∧
    statement = Text.trim ((text.take stop).drop first)

/-- Statements with their places, as the lines of a document before line `past` are cut at their
    periods, from some column of some line on. -/
inductive Cut (doc : List Text) (past : Nat) : Nat → Nat → List (Text × Span) → Prop where
  /-- No line is left. -/
  | ended : Cut doc past past 0 []
  /-- No period is left on the line. -/
  | line {row start : Nat} {text : Text} {rest : List (Text × Span)} (hrow : row < past)
      (hline : doc[row]? = some text) (hnone : ∀ col, start ≤ col → text[col]? ≠ some (.ofChar '.'))
      (hrest : Cut doc past (row + 1) 0 rest) :
      Cut doc past row start rest
  /-- The next period of the line ends a statement. -/
  | statement {row start stop : Nat} {words : Text} {rest : List (Text × Span)} (hrow : row < past)
      (hstands : StandsAt doc words row start stop) (hrest : Cut doc past row (stop + 1) rest) :
      Cut doc past row start ((words, .within row start stop) :: rest)

section Reading

variable {doc : List Text} {past row : Nat}

/-- What stands before a period, and has none, is a statement. -/
theorem standsAt_between {front t back : Text} (ht : CodePoint.ofChar '.' ∉ t)
    (hline : doc[row]? = some (front ++ t ++ CodePoint.ofChar '.' :: back)) :
    StandsAt doc t.trim row front.length (front.length + t.length) := by
  have hlength : front.length + t.length = (front ++ t).length := List.length_append.symm
  refine ⟨Nat.le_add_right _ _, _, hline, ?_, ?_, fun col hfirst hstop hperiod => ?_, ?_⟩
  · rw [hlength, @List.length_append _ (front ++ t), List.length_cons]
    omega
  · rw [hlength, List.getElem?_append_right (Nat.le_refl _), Nat.sub_self, List.getElem?_cons_zero]
  · rw [List.getElem?_append_left (hlength ▸ hstop), List.getElem?_append_right hfirst] at hperiod
    exact ht (List.mem_of_getElem? hperiod)
  · rw [hlength, List.take_left, List.drop_left]

/-- The statements of a line, from behind its first few on. -/
theorem placedFrom_cut (front : Text) {remainder : Text} {statements : List Text}
    {more : List (Text × Span)} (hrow : row < past)
    (hperiods : ∀ t ∈ remainder :: statements, CodePoint.ofChar '.' ∉ t)
    (hline : doc[row]? = some (front ++ glue statements remainder))
    (hmore : Cut doc past (row + 1) 0 more) :
    Cut doc past row front.length (placedFrom row front.length statements ++ more) := by
  induction statements generalizing front with
  | nil =>
    refine .line hrow hline (fun col hcol hperiod => ?_) hmore
    rw [List.getElem?_append_right hcol] at hperiod
    exact hperiods remainder List.mem_cons_self (List.mem_of_getElem? hperiod)
  | cons t statements ih =>
    obtain ⟨hremainder, hboth⟩ := List.forall_mem_cons.mp hperiods
    obtain ⟨ht, hstatements⟩ := List.forall_mem_cons.mp hboth
    rw [glue_cons, ← List.append_assoc] at hline
    -- the next statement begins behind the period
    have hnext : doc[row]? =
        some ((front ++ t ++ [CodePoint.ofChar '.']) ++ glue statements remainder) := by
      rw [hline, List.append_assoc _ [_], List.singleton_append]
    have hrest := ih _ (List.forall_mem_cons.mpr ⟨hremainder, hstatements⟩) hnext
    rw [List.length_append, List.length_append, List.length_singleton] at hrest
    exact .statement hrow (standsAt_between ht hline) hrest

theorem segments_cut {line : Text} {more : List (Text × Span)} (hrow : row < past)
    (hline : doc[row]? = some line) (hfull : line.isBlank = false) (hnewline : Text.newline ∉ line)
    (hmore : Cut doc past (row + 1) 0 more) : Cut doc past row 0 (segments row line ++ more) := by
  let l := MethodLine.ofText line hfull hnewline
  have htext : glue l.statements l.remainder = line := glue_splitOn line
  rw [← htext] at hline ⊢
  rw [segments_glue row l.periods]
  exact placedFrom_cut [] hrow l.periods hline hmore

/-- **What is read of a paragraph is cut at its periods.** -/
theorem page_cut (hlines : ∀ line ∈ doc, Text.newline ∉ line) (row n : Nat)
    (hfull : ∀ k, row ≤ k → k < row + n → doc[k]?.map Text.isBlank = some false) :
    Cut doc (row + n) row 0 (((pageAt doc row).take n).flatMap fun l => segments l.row l.text) := by
  induction n generalizing row with
  | zero => exact .ended
  | succ n ih =>
    obtain ⟨line, hline, hline_full⟩ :=
      Option.map_eq_some_iff.mp (hfull row (Nat.le_refl _) (by omega))
    have hmore := ih (row + 1) fun k hrow hk => hfull k (by omega) (by omega)
    rw [Nat.add_assoc, Nat.add_comm 1] at hmore
    rw [pageAt_of_line hline, List.take_succ_cons, List.flatMap_cons]
    exact segments_cut (by omega) hline hline_full (hlines line (List.mem_of_getElem? hline)) hmore

end Reading

namespace Cut

variable {doc : List Text} {past row start : Nat} {statements : List (Text × Span)}

/-- Every statement begins with its line or behind the period of the statement before it. -/
theorem at_index (h : Cut doc past row start statements) {k : Nat} {s : Text × Span}
    (hk : statements[k]? = some s) :
    ∃ place first stop : Nat, s.2 = .within place first stop ∧ place < past ∧
      (row < place ∨ row = place ∧ start ≤ first) ∧ StandsAt doc s.1 place first stop ∧
      (first = 0 ∨ k = 0 ∧ place = row ∧ first = start ∨
        ∃ (j : Nat) (previous : Text × Span) (first' stop' : Nat),
        k = j + 1 ∧ statements[j]? = some previous ∧ previous.2 = .within place first' stop' ∧
          first = stop' + 1) := by
  induction h generalizing k with
  | ended => cases hk
  | line hrow hline hnone hrest ih =>
    obtain ⟨place, first, stop, hspan, hpast, hfrom, hstands, hbegins⟩ := ih hk
    refine ⟨place, first, stop, hspan, hpast, .inl (by omega), hstands, ?_⟩
    rcases hbegins with hfirst | ⟨-, -, hfirst⟩ | hprevious
    · exact .inl hfirst
    · exact .inl hfirst
    · exact .inr (.inr hprevious)
  | @statement row start stop words rest hrow hstands hrest ih =>
    cases k with
    | zero =>
      cases hk
      exact ⟨row, start, stop, rfl, hrow, .inr ⟨rfl, Nat.le_refl _⟩, hstands,
        .inr (.inl ⟨rfl, rfl, rfl⟩)⟩
    | succ k =>
      rw [List.getElem?_cons_succ] at hk
      obtain ⟨place, first, stop', hspan, hpast, hfrom, hstands', hbegins⟩ := ih hk
      have hlater : row < place ∨ row = place ∧ start ≤ first :=
        hfrom.imp_right fun hbehind =>
          ⟨hbehind.1, Nat.le_trans (Nat.le_succ_of_le hstands.le) hbehind.2⟩
      refine ⟨place, first, stop', hspan, hpast, hlater, hstands', ?_⟩
      rcases hbegins with hfirst | ⟨rfl, rfl, hfirst⟩ |
        ⟨j, previous, first', before, rfl, hprevious, hbefore, hfirst⟩
      · exact .inl hfirst
      · exact .inr (.inr ⟨0, _, start, stop, rfl, rfl, rfl, hfirst⟩)
      · exact .inr (.inr ⟨j + 1, previous, first', before, rfl, hprevious, hbefore, hfirst⟩)

/-- No period is left out. -/
theorem all (h : Cut doc past row start statements) {place col : Nat}
    (hperiod : charAt doc place col = some (.ofChar '.')) (hpast : place < past)
    (hfrom : row < place ∨ row = place ∧ start ≤ col) :
    ∃ s ∈ statements, ∃ first : Nat, s.2 = .within place first col := by
  induction h with
  | ended => omega
  | @line row start text rest hrow hline hnone hrest ih =>
    rcases hfrom with hlt | ⟨rfl, hcol⟩
    · exact ih (by omega)
    · rw [charAt_of_line hline] at hperiod
      exact absurd hperiod (hnone col hcol)
  | @statement row start stop words rest hrow hstands hrest ih =>
    have hlater : row < place ∨ row = place ∧ stop + 1 ≤ col →
        ∃ s ∈ (words, .within row start stop) :: rest, ∃ first : Nat, s.2 =
          .within place first col := by
      intro hfrom
      obtain ⟨s, hs, hfirst⟩ := ih hfrom
      exact ⟨s, List.mem_cons_of_mem _ hs, hfirst⟩
    rcases hfrom with hlt | ⟨rfl, hcol⟩
    · exact hlater (.inl hlt)
    · obtain ⟨text, hline, -, -, hnone, -⟩ := hstands.line
      rw [charAt_of_line hline] at hperiod
      rcases Nat.lt_trichotomy col stop with hlt | rfl | hgt
      · exact absurd hperiod (hnone col hcol hlt)
      · exact ⟨_, List.mem_cons_self, start, rfl⟩
      · exact hlater (.inr ⟨rfl, hgt⟩)

theorem ordered (h : Cut doc past row start statements) :
    statements.Pairwise fun s s' => s.2.Ahead s'.2 := by
  induction h with
  | ended => exact .nil
  | line hrow hline hnone hrest ih => exact ih
  | statement hrow hstands hrest ih =>
    refine List.pairwise_cons.mpr ⟨fun s hs => ?_, ih⟩
    obtain ⟨k, hk⟩ := List.getElem?_of_mem hs
    obtain ⟨place, first, stop, hspan, -, hfrom, -⟩ := hrest.at_index hk
    rw [hspan]
    exact ahead_within hfrom

end Cut

/-! ## 3. Recipes -/

/-- The steps of a recipe and the periods on the lines of a document from `first` to before `past`,
    one for one: steps come in the order of their places, no period is left out, and every step is
    what the statement before its period says. -/
structure Recipe.Mapped (doc : List Text) (first past : Nat) (r : Recipe) : Prop where
  ordered : r.method.Pairwise fun s s' => s.span.Ahead s'.span
  all : ∀ row col, first ≤ row → row < past → charAt doc row col = some (.ofChar '.') →
    ∃ s ∈ r.method, ∃ start : Nat, s.span = .within row start col
  step : ∀ k s, r.method[k]? = some s → ∃ (row start stop : Nat) (statement : Text),
    s.span = .within row start stop ∧ first ≤ row ∧ row < past ∧
      StandsAt doc statement row start stop ∧
      (start = 0 ∨ ∃ (j : Nat) (previous : Step) (start' stop' : Nat), k = j + 1 ∧
        r.method[j]? = some previous ∧
        previous.span = .within row start' stop' ∧ start = stop' + 1) ∧
      Operation.ofStatement statement = .ok s.operation.bare

section Recipes

variable {doc : List Text} {r : Recipe}

/-- A method that was read of statements that were cut at their periods. -/
theorem Cut.mapped {first past : Nat} {statements : List (Text × Span)}
    (h : Cut doc past first 0 statements) (hsaid : r.method.map Step.said = statements.map heard) :
    r.Mapped doc first past := by
  have hspans : r.method.map (·.span) = statements.map Prod.snd := by
    have hplaces := congrArg (List.map Prod.snd) hsaid
    rw [List.map_map, List.map_map] at hplaces
    exact hplaces
  refine ⟨?_, fun row col hfirst hpast hperiod => ?_, fun k s hs => ?_⟩
  · have hordered : (r.method.map (·.span)).Pairwise Span.Ahead := by
      rw [hspans]
      exact List.pairwise_map.mpr h.ordered
    exact List.pairwise_map.mp hordered
  · obtain ⟨s, hs, start, hspan⟩ := h.all hperiod hpast (by omega)
    have hmem : s.2 ∈ r.method.map (·.span) := by
      rw [hspans]
      exact List.mem_map_of_mem hs
    obtain ⟨step, hstep, heq⟩ := List.mem_map.mp hmem
    exact ⟨step, hstep, start, heq.trans hspan⟩
  · have hk : (statements.map heard)[k]? = some s.said := by
      rw [← hsaid, List.getElem?_map, hs, Option.map_some]
    rw [List.getElem?_map] at hk
    obtain ⟨statement, hstatement, hheard⟩ := Option.map_eq_some_iff.mp hk
    obtain ⟨hmeaning, hplace⟩ := Prod.mk.inj hheard
    obtain ⟨row, start, stop, hspan, hpast, hfrom, hstands, hbegins⟩ := h.at_index hstatement
    refine ⟨row, start, stop, statement.1, hplace.symm.trans hspan, by omega, hpast, hstands, ?_,
      hmeaning⟩
    rcases hbegins with hstart | ⟨-, -, hstart⟩ |
      ⟨j, previous, start', stop', hj, hprevious, hbefore, hstart⟩
    · exact .inl hstart
    · exact .inl hstart
    · have hat : (r.method.map (·.span))[j]? = some previous.2 := by
        rw [hspans, List.getElem?_map, hprevious, Option.map_some]
      rw [List.getElem?_map] at hat
      obtain ⟨step, hstep, heq⟩ := Option.map_eq_some_iff.mp hat
      exact .inr ⟨j, step, start', stop', hj, hstep, heq.trans hbefore, hstart⟩

/-- Recipes on lines one after another have their steps one after another. -/
theorem Recipe.Mapped.ahead {r' : Recipe} {first past first' past' : Nat}
    (h : r.Mapped doc first past) (h' : r'.Mapped doc first' past') (hle : past ≤ first') :
    ∀ s ∈ r.method, ∀ s' ∈ r'.method, s.span.Ahead s'.span := by
  intro s hs s' hs'
  obtain ⟨k, hk⟩ := List.getElem?_of_mem hs
  obtain ⟨k', hk'⟩ := List.getElem?_of_mem hs'
  obtain ⟨row, start, stop, -, hspan, -, hpast, -⟩ := h.step k s hk
  obtain ⟨row', start', stop', -, hspan', hfirst, -⟩ := h'.step k' s' hk'
  rw [hspan, hspan']
  exact ahead_within (.inl (by omega))

theorem recipe_mapped (hlines : ∀ line ∈ doc, Text.newline ∉ line) {ending : Span} {row : Nat}
    {rest : Page} (h : recipe ending (pageAt doc row) = .ok (r, rest)) :
    ∃ o : Outline, o.Of doc r ∧ r.Mapped doc (o.header + 1) o.past ∧ row ≤ o.title ∧
      ∃ next, o.past ≤ next ∧ rest = pageAt doc next := by
  obtain ⟨o, ho, rfl, hmethod, next, hpast, hrest⟩ := recipe_at h
  have hpast_eq : o.header + 1 + (o.past - (o.header + 1)) = o.past :=
    Nat.add_sub_cancel' ho.header_lt
  have hcut := page_cut hlines (o.header + 1) (o.past - (o.header + 1)) fun k hrow hk =>
    ho.method k hrow (hpast_eq ▸ hk)
  rw [hpast_eq] at hcut
  exact ⟨o, ho, hcut.mapped (method_said hmethod), Nat.le_refl _, next, hpast, hrest⟩

/-- **Recipes that are read one after another** have their steps on lines one after another. -/
theorem recipes_mapped (hlines : ∀ line ∈ doc, Text.newline ∉ line) {ending : Span}
    {limit row : Nat} {rs : List Recipe} (h : recipes ending limit (pageAt doc row) = .ok rs) :
    (∀ r ∈ rs, ∃ o : Outline, o.Of doc r ∧ r.Mapped doc (o.header + 1) o.past ∧ row ≤ o.title) ∧
      rs.Pairwise fun r r' => ∀ s ∈ r.method, ∀ s' ∈ r'.method, s.span.Ahead s'.span := by
  induction limit generalizing row rs with
  | zero =>
    cases h
    exact ⟨fun r hr => absurd hr List.not_mem_nil, .nil⟩
  | succ limit ih =>
    rw [recipes] at h
    obtain ⟨full, hfull, hskip⟩ := skipBlanks_at doc row
    rw [hskip] at h
    split at h
    · cases h
      exact ⟨fun r hr => absurd hr List.not_mem_nil, .nil⟩
    · obtain ⟨⟨first, rest⟩, hfirst, h⟩ := Except.bind_ok h
      obtain ⟨more, hmore, h⟩ := Except.bind_ok h
      cases h
      obtain ⟨o, ho, hmapped, htitle, next, hpast, rfl⟩ := recipe_mapped hlines hfirst
      obtain ⟨hall, hordered⟩ := ih hmore
      have hbehind := Nat.lt_trans ho.title_lt ho.header_lt
      refine ⟨fun r hr => ?_, List.pairwise_cons.mpr ⟨fun r hr => ?_, hordered⟩⟩
      · rcases List.mem_cons.mp hr with rfl | hr
        · exact ⟨o, ho, hmapped, Nat.le_trans hfull htitle⟩
        · obtain ⟨o', ho', hmapped', htitle'⟩ := hall r hr
          exact ⟨o', ho', hmapped', by omega⟩
      · obtain ⟨o', ho', hmapped', htitle'⟩ := hall r hr
        have hheader := ho'.title_lt
        exact hmapped.ahead hmapped' (by omega)

end Recipes

/-! ## 4. Programs -/

/-- No step of one recipe shares a place with a step of another. -/
def Recipe.Apart (r r' : Recipe) : Prop :=
  ∀ s ∈ r.method, ∀ s' ∈ r'.method, ∀ row col, s.span.Takes row col → ¬ s'.span.Takes row col

instance : Std.Symm Recipe.Apart where
  symm _ _ h s hs s' hs' row col htakes htakes' := h s' hs' s hs row col htakes' htakes

/-- The recipes of a table of recipes by their names, one of each name. -/
theorem ofEntries_apart {others : List Recipe}
    (h : others.Pairwise fun r r' => ∀ s ∈ r.method, ∀ s' ∈ r'.method, s.span.Ahead s'.span) :
    ((Table.ofEntries (others.map fun r => (r.name, r))).map (·.2)).Pairwise Recipe.Apart := by
  have hapart : others.Pairwise Recipe.Apart :=
    h.imp fun hahead s hs s' hs' row col htakes htakes' =>
      (hahead s hs s' hs').apart htakes htakes'
  have hkeys := List.pairwise_map.mp (Table.ofEntries_distinct (others.map fun r => (r.name, r)))
  refine List.pairwise_map.mpr (hkeys.imp_of_mem fun {e e'} he he' hne => ?_)
  obtain ⟨r, hr, rfl⟩ := List.mem_map.mp (Table.entry_of_mem_ofEntries he)
  obtain ⟨r', hr', rfl⟩ := List.mem_map.mp (Table.entry_of_mem_ofEntries he')
  exact hapart.forall hr hr' fun heq => hne (congrArg Recipe.name heq)

/-- **The places of the steps of a program are exact.** Every recipe has its method on the lines
    between the line above it and the first blank line, and its steps and the periods on these lines
    belong together one for one, in their order: a step stands from the beginning of its line, or
    from behind the period of the step before it, to its period, and does what its statement says.
    No two steps of a program share a place. -/
theorem source_map_exact {code : Text} {p : Program} (h : parse code = .ok p) :
    (∀ r ∈ p.recipes, ∃ o : Outline, o.Of code.lines r ∧
      r.Mapped code.lines (o.header + 1) o.past) ∧
      (p.recipes.flatMap (·.method)).Pairwise fun s s' =>
        ∀ row col, s.span.Takes row col → ¬ s'.span.Takes row col := by
  have hlines : ∀ line ∈ code.lines, Text.newline ∉ line :=
    fun line hline => Text.not_mem_of_mem_splitOn hline
  unfold parse at h
  obtain ⟨⟨main, rest⟩, hmain, h⟩ := Except.bind_ok h
  obtain ⟨others, hothers, h⟩ := Except.bind_ok h
  obtain ⟨row, -, hskip⟩ := skipBlanks_at code.lines 0
  have hpage : skipBlanks (pageOf code.lines) = pageAt code.lines row := hskip
  rw [hpage] at hmain
  obtain ⟨o, ho, hmapped, -, next, hpast, hrest⟩ := recipe_mapped hlines hmain
  simp only at hothers h
  rw [hrest] at hothers
  obtain ⟨hall, hordered⟩ := recipes_mapped hlines hothers
  split at h
  · cases h
  · cases h
    have haux : ∀ r ∈ (Table.ofEntries (others.map fun r => (r.name, r))).map (·.2),
        r ∈ others := by
      intro r hr
      obtain ⟨e, he, rfl⟩ := List.mem_map.mp hr
      obtain ⟨r', hr', rfl⟩ := List.mem_map.mp (Table.entry_of_mem_ofEntries he)
      exact hr'
    have hrecipes : ∀ r ∈ main :: (Table.ofEntries (others.map fun r => (r.name, r))).map (·.2),
        ∃ o : Outline, o.Of code.lines r ∧ r.Mapped code.lines (o.header + 1) o.past := by
      refine List.forall_mem_cons.mpr ⟨⟨o, ho, hmapped⟩, fun r hr => ?_⟩
      obtain ⟨o', ho', hmapped', -⟩ := hall r (haux r hr)
      exact ⟨o', ho', hmapped'⟩
    refine ⟨hrecipes, List.pairwise_flatMap.mpr ⟨fun r hr => ?_, ?_⟩⟩
    · obtain ⟨_, -, hmapped'⟩ := hrecipes r hr
      exact hmapped'.ordered.imp fun hahead row col htakes htakes' => hahead.apart htakes htakes'
    · refine List.pairwise_cons.mpr ⟨fun r hr s hs s' hs' row col htakes htakes' => ?_,
        ofEntries_apart hordered⟩
      obtain ⟨o', ho', hmapped', htitle⟩ := hall r (haux r hr)
      have hheader := ho'.title_lt
      exact (hmapped.ahead hmapped' (by omega) s hs s' hs').apart htakes htakes'

theorem source_map_exact_nestedLoops :
    parse nestedLoops = .ok nestedLoopsProgram ∧
      (∀ r ∈ nestedLoopsProgram.recipes, ∃ o : Outline, o.Of nestedLoops.lines r ∧
        r.Mapped nestedLoops.lines (o.header + 1) o.past) ∧
      (nestedLoopsProgram.recipes.flatMap (·.method)).Pairwise fun s s' =>
        ∀ row col, s.span.Takes row col → ¬ s'.span.Takes row col :=
  ⟨parse_nestedLoops, source_map_exact parse_nestedLoops⟩

end Chef

end Esolang
