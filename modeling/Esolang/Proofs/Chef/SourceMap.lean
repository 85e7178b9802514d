/-
  File:      Esolang/Proofs/Chef/SourceMap.lean
  Subject:   The steps of a program stand in its source where they are said to stand.

  A method is read statement by statement, and a step keeps the place of its statement. What is
  filled in later, when its loop is closed, is no part of the statement.

  * `segments_span`: a statement is what its place covers, without the blanks around it.
  * `method_said`: the steps of a method, as the statements say them.
  * `Recipe.Written`, `parse_written`: every recipe of a program stands in the source.
-/
import Esolang.Proofs.Chef.Cookbook
import Esolang.Proofs.Document

namespace Esolang.Chef

/-! ## 1. Statements -/

theorem segmentsFrom_span {row start idx : Nat} {text begun rest : Text} {statement : Text × Span}
    (hrest : text.drop idx = rest) (hbegun : begun.reverse = (text.take idx).drop start)
    (hle : start ≤ idx) (hidx : idx ≤ text.length)
    (h : statement ∈ segmentsFrom row start idx begun rest) :
    ∃ first past : Nat, statement.2 = .within row first past ∧
      statement.1 = Text.trim ((text.take past).drop first) := by
  induction rest generalizing start idx begun with
  | nil => cases h
  | cons c cs ih =>
    have hlt : idx < text.length := by
      rcases Nat.lt_or_ge idx text.length with hlt | hge
      · exact hlt
      · rw [List.drop_eq_nil_of_le hge] at hrest
        cases hrest
    have hcons : text.drop idx = text[idx] :: text.drop (idx + 1) := List.drop_eq_getElem_cons hlt
    obtain ⟨hc, hcs⟩ := List.cons.inj (hcons.symm.trans hrest)
    rw [segmentsFrom] at h
    split at h
    · -- a period: the statement is all since `start`, and the next one begins behind it
      rcases List.mem_cons.mp h with rfl | h
      · exact ⟨start, idx, rfl, by rw [hbegun]⟩
      · have hnone : ([] : Text).reverse = (text.take (idx + 1)).drop (idx + 1) := by
          rw [List.drop_take_self]
          rfl
        exact ih hcs hnone (Nat.le_refl _) hlt h
    · have hmore : (c :: begun).reverse = (text.take (idx + 1)).drop start := by
        have htake : text.take (idx + 1) = text.take idx ++ [text[idx]] :=
          List.take_succ_eq_append_getElem hlt
        have hstart : start ≤ (text.take idx).length := by
          rw [List.length_take, Nat.min_eq_left hidx]
          exact hle
        rw [List.reverse_cons, hbegun, htake, List.drop_append_of_le_length hstart, hc]
      exact ih hcs hmore (Nat.le_succ_of_le hle) hlt h

/-- A statement is what its place covers, without the blanks around it. -/
theorem segments_span {row : Nat} {text : Text} {statement : Text × Span}
    (h : statement ∈ segments row text) :
    ∃ first past : Nat, statement.2 = .within row first past ∧
      statement.1 = Text.trim ((text.take past).drop first) := by
  have hbegun : ([] : Text).reverse = (text.take 0).drop 0 := rfl
  exact segmentsFrom_span List.drop_zero hbegun (Nat.le_refl 0) (Nat.zero_le _) h

/-! ## 2. Methods -/

/-- What a statement says, and where it stands. -/
def heard (statement : Text × Span) : Except LineError Operation × Span :=
  (Operation.ofStatement statement.1, statement.2)

/-- A step as its statement says it, with the other end of its loop left open. -/
def Step.said (s : Step) : Except LineError Operation × Span := (.ok s.operation.bare, s.span)

theorem closeAt_said (closer : Nat) (s : Step) : (s.closeAt closer).said = s.said := by
  obtain ⟨op, span⟩ := s
  cases op <;> rfl

theorem Draft.add_said {d d' : Draft} {op : Operation} {span : Span} (h : d.add op span = .ok d') :
    d'.steps.map Step.said = d.steps.map Step.said ++ [Step.said ⟨op, span⟩] := by
  rcases Draft.add_cases h with ⟨_, rfl⟩ | ⟨verb, i, closer, rfl, rfl⟩ |
    ⟨closer, inner, outer, rfl, _, rfl⟩ | ⟨verb, i, opener, inner, outer, rfl, _, _, rfl⟩
  · exact List.map_append
  · exact List.map_append
  · exact List.map_append
  · rw [List.map_append, map_closeLoop_of_eq closeAt_said]
    rfl

theorem Draft.addAll_said {statements : List (Text × Span)} {d d' : Draft}
    (h : d.addAll statements = .ok d') :
    d'.steps.map Step.said = d.steps.map Step.said ++ statements.map heard := by
  induction statements generalizing d with
  | nil =>
    cases h
    exact (List.append_nil _).symm
  | cons statement statements ih =>
    rw [Draft.addAll] at h
    split at h
    · next d₁ hadd =>
      obtain ⟨op, hop, hadd⟩ := Draft.addStatement_ok hadd
      have hsaid : Step.said ⟨op, statement.2⟩ = heard statement := by
        rw [Step.said, heard, hop, (ofStatement_unplaced hop).bare_eq]
      rw [ih h, Draft.add_said hadd, hsaid, List.append_assoc]
      rfl
    · cases h

/-- **The steps of a method say what its statements say**, one after another. -/
theorem method_said {statements : List (Text × Span)} {steps : List Step}
    (h : method statements = .ok steps) : steps.map Step.said = statements.map heard := by
  unfold method at h
  split at h
  · next d hd =>
    have hsteps : d.steps = steps := by
      unfold Draft.finish at h
      split at h
      · exact Except.ok.inj h
      · split at h
        · cases h
        · exact Except.ok.inj h
    rw [← hsteps]
    exact Draft.addAll_said hd
  · cases h

/-! ## 3. Recipes -/

/-- What the place of a step covers in a source is a statement that says what the step does. -/
def Step.Written (doc : List Text) (s : Step) : Prop :=
  ∃ t, s.span.covered doc = some t ∧ Operation.ofStatement t.trim = .ok s.operation.bare

/-- The line of a serving says how many dishes it serves. -/
def Serving.Written (doc : List Text) (s : Serving) : Prop :=
  ∃ t ds, (Span.line s.row).covered doc = some t ∧ servesPhrase.read? t.trim = some ds ∧
    number ds = .ok s.dishes

/-- All steps of a recipe, and its serving if it has one, stand in a source. -/
structure Recipe.Written (doc : List Text) (r : Recipe) : Prop where
  step : ∀ s ∈ r.method, s.Written doc
  serving : ∀ s, r.serving = some s → s.Written doc

theorem line_of_mem_pageOf {doc : List Text} {l : Line} (h : l ∈ pageOf doc) :
    doc[l.row]? = some l.text := by
  obtain ⟨⟨text, row⟩, hmem, rfl⟩ := List.mem_map.mp h
  exact List.mk_mem_zipIdx_iff_getElem?.mp hmem

theorem recipe_written {doc : List Text} {ending : Span} {page rest : Page} {r : Recipe}
    (hpage : page <:+ pageOf doc) (h : recipe ending page = .ok (r, rest)) : r.Written doc := by
  obtain ⟨-, ⟨lines, hlines, hmethod⟩, hserving⟩ := recipe_ok h
  refine ⟨fun s hs => ?_, fun s hs => ?_⟩
  · have hsaid : s.said ∈ r.method.map Step.said := List.mem_map_of_mem hs
    rw [method_said hmethod] at hsaid
    obtain ⟨statement, hmem, hheard⟩ := List.mem_map.mp hsaid
    obtain ⟨hmeaning, hplace⟩ := Prod.mk.inj hheard
    obtain ⟨l, hl, hsegment⟩ := List.mem_flatMap.mp hmem
    obtain ⟨first, past, hspan, htext⟩ := segments_span hsegment
    have hline : doc[l.row]? = some l.text := line_of_mem_pageOf (hpage.mem (hlines l hl))
    have hs' : s.span = .within l.row first past := hplace.symm.trans hspan
    have hcovered : (Span.within l.row first past).covered doc =
        doc[l.row]?.map fun line => (line.take past).drop first := rfl
    refine ⟨(l.text.take past).drop first, ?_, ?_⟩
    · rw [hs', hcovered, hline]
      rfl
    · rw [← htext]
      exact hmeaning
  · obtain ⟨l, ds, hl, hrow, hread, hnumber⟩ := hserving s hs
    have hline : doc[l.row]? = some l.text := line_of_mem_pageOf (hpage.mem hl)
    have hcovered : (Span.line s.row).covered doc = doc[s.row]?.map fun line => line.drop 0 := rfl
    refine ⟨l.text, ds, ?_, hread, hnumber⟩
    rw [hcovered, ← hrow, hline]
    rfl

/-- **Every recipe of a program stands in the source.** -/
theorem parse_written {code : Text} {p : Program} (h : parse code = .ok p) :
    ∀ r ∈ p.recipes, r.Written code.lines := by
  intro r hr
  obtain ⟨page, rest, hpage, hrecipe⟩ := (parse_inv h).1 r hr
  exact recipe_written hpage hrecipe

end Esolang.Chef
