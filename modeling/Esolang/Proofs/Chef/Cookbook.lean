/-
  File:      Esolang/Proofs/Chef/Cookbook.lean
  Subject:   What every program that can be read is made of.

  Every recipe of a program has a method that was read as one paragraph, and every name in it was
  looked up: the ingredients a method names are those of its own recipe, and the recipes it calls
  are there.

  * `method_named`: no operation of a method names an ingredient without a name.
  * `recipe_ok`: which lines of a page make up a recipe; `parse_inv`: all recipes of a program.
  * `Program.recipes`: all recipes of a program, the main one first.
  * `Recipe.Sound`: what the machine may rely on, and `parse_sound`: it may do so in every program.
-/
import Esolang.Chef.Cookbook
import Esolang.Proofs.Chef.Nesting
import Esolang.Proofs.Language
import Esolang.Proofs.Lists
import Esolang.Proofs.Table

namespace Esolang

namespace Chef

/-! ## 1. Named ingredients -/

/-- Filling in the end of a loop changes nothing but this. -/
theorem map_closeLoop_of_eq {β : Type} {g : Step → β}
    (hg : ∀ closer s, g (Step.closeAt closer s) = g s) (closer : Nat) (places : List Nat)
    (steps : List Step) : (closeLoop closer places steps).map g = steps.map g := by
  unfold closeLoop
  induction places generalizing steps with
  | nil => rfl
  | cons p rest ih => rw [List.foldl_cons, ih, List.map_modify_of_eq (hg closer)]

theorem closeAt_ingredient (closer : Nat) (s : Step) :
    (s.closeAt closer).operation.ingredient? = s.operation.ingredient? := by
  obtain ⟨op, span⟩ := s
  cases op <;> rfl

/-- No operation names an ingredient without a name. -/
def Named (steps : List Step) : Prop := ∀ o ∈ steps.map (·.operation.ingredient?), o ≠ some []

theorem Named.concat {steps steps' : List Step} (h : Named steps) {op : Operation} {span : Span}
    (hsteps : steps'.map (·.operation.ingredient?) = steps.map (·.operation.ingredient?))
    (hop : op.ingredient? ≠ some []) : Named (steps' ++ [⟨op, span⟩]) := by
  intro o ho
  rw [List.map_append, hsteps] at ho
  rcases List.mem_append.mp ho with ho | ho
  · exact h o ho
  · rw [List.map_singleton, List.mem_singleton] at ho
    rw [ho]
    exact hop

theorem Named.add {d d' : Draft} (h : Named d.steps) {op : Operation} (hop : op.Unplaced)
    {span : Span} (ha : d.add op span = .ok d') : Named d'.steps := by
  have hne : op.ingredient? ≠ some [] := fun e => hop.named [] e rfl
  rcases Draft.add_cases ha with ⟨_, rfl⟩ | ⟨verb, i, closer, rfl, rfl⟩ |
    ⟨closer, inner, outer, rfl, _, rfl⟩ | ⟨verb, i, opener, inner, outer, rfl, _, _, rfl⟩
  · exact h.concat rfl hne
  · exact h.concat rfl hne
  · exact h.concat rfl hne
  · exact h.concat (map_closeLoop_of_eq closeAt_ingredient _ _ _) hne

theorem method_named {statements : List (Text × Span)} {steps : List Step}
    (h : method statements = .ok steps) : Named steps := by
  unfold method at h
  split at h
  · rename_i d hd
    have hn := Draft.addAll_preserves (P := fun d => Named d.steps)
      (fun h hop ha => h.add hop ha) (fun o ho => absurd ho List.not_mem_nil) hd
    unfold Draft.finish at h
    split at h
    · cases h
      exact hn
    · split at h
      · cases h
      · cases h
        exact hn
  · cases h

/-! ## 2. Recipes -/

section Sections

variable {ending : Span} {page rest : Page}

/-- Every section leaves an end of the page to the next one. -/
theorem title_suffix {name : Text} (h : title ending page = .ok (name, rest)) : rest <:+ page := by
  cases page with
  | nil => cases h
  | cons l page =>
    simp only [title] at h
    split at h
    · cases h
    · split at h
      · cases h
        exact List.suffix_cons l _
      · cases h

theorem blankLine_suffix (h : blankLine ending page = .ok rest) : rest <:+ page := by
  cases page with
  | nil => cases h
  | cons l page =>
    rw [blankLine] at h
    split at h
    · cases h
      exact List.suffix_cons l _
    · cases h

theorem header_suffix {expected message : Text}
    (h : header ending expected message page = .ok rest) : rest <:+ page := by
  cases page with
  | nil => cases h
  | cons l page =>
    rw [header] at h
    split at h
    · cases h
      exact List.suffix_cons l _
    · cases h

theorem fitting_ok {α : Type} {p : Phrase α} {message : Text} {a : α}
    (h : fitting p message page = .ok (a, rest)) :
    ∃ l, page = l :: rest ∧ p.read? l.text.trim = some a := by
  cases page with
  | nil => cases h
  | cons l page =>
    rw [fitting] at h
    split at h
    · next hread =>
      cases h
      exact ⟨l, rfl, hread⟩
    · cases h

theorem comments_suffix (h : comments ending page = .ok rest) : rest <:+ page := by
  cases page with
  | nil => exact blankLine_suffix h
  | cons l page =>
    rw [comments] at h
    split at h
    · cases h
      exact List.suffix_refl _
    · exact (blankLine_suffix h).trans (List.dropWhile_suffix _)

theorem remark_suffix {words message : Text} {p : Phrase Unit}
    (h : remark ending words p message page = .ok rest) : rest <:+ page := by
  unfold remark at h
  split at h
  · obtain ⟨⟨_, behind⟩, hfitting, hblank⟩ := Except.bind_ok h
    obtain ⟨l, rfl, -⟩ := fitting_ok hfitting
    exact (blankLine_suffix hblank).trans (List.suffix_cons l behind)
  · cases h
    exact List.suffix_refl _

/-- The line that says how many a recipe serves is the next one. -/
theorem serving_ok {served : Option Serving} (h : serving page = .ok (served, rest)) :
    rest <:+ page ∧ ∀ s, served = some s → ∃ l ds, l ∈ page ∧ l.row = s.row ∧
      servesPhrase.read? l.text.trim = some ds ∧ number ds = .ok s.dishes := by
  unfold serving at h
  split at h
  · obtain ⟨⟨ds, behind⟩, hfitting, h⟩ := Except.bind_ok h
    obtain ⟨l, rfl, hread⟩ := fitting_ok hfitting
    cases hnumber : number ds with
    | ok n =>
      simp only [hnumber] at h
      cases h
      refine ⟨List.suffix_cons l _, fun s hs => ?_⟩
      cases hs
      exact ⟨l, ds, List.mem_cons_self, rfl, hread, hnumber⟩
    | error e =>
      simp only [hnumber] at h
      cases e <;> cases h
  · cases h
    exact ⟨List.suffix_refl _, fun s hs => by cases hs⟩

/-- **A recipe that was read** has a method that was read of lines of the page, and is served as one
    of them says; the recipes behind it are read of an end of the page. -/
theorem recipe_ok {r : Recipe} (h : recipe ending page = .ok (r, rest)) :
    rest <:+ page ∧
      (∃ lines : Page, (∀ l ∈ lines, l ∈ page) ∧
        method (lines.flatMap fun l => segments l.row l.text) = .ok r.method) ∧
      ∀ s, r.serving = some s → ∃ l ds, l ∈ page ∧ l.row = s.row ∧
        servesPhrase.read? l.text.trim = some ds ∧ number ds = .ok s.dishes := by
  unfold recipe at h
  obtain ⟨⟨name, p1⟩, h1, h⟩ := Except.bind_ok h
  obtain ⟨p2, h2, h⟩ := Except.bind_ok h
  obtain ⟨p3, h3, h⟩ := Except.bind_ok h
  obtain ⟨p4, h4, h⟩ := Except.bind_ok h
  obtain ⟨box, _, h⟩ := Except.bind_ok h
  obtain ⟨p5, h5, h⟩ := Except.bind_ok h
  obtain ⟨p6, h6, h⟩ := Except.bind_ok h
  obtain ⟨p7, h7, h⟩ := Except.bind_ok h
  obtain ⟨p8, h8, h⟩ := Except.bind_ok h
  obtain ⟨steps, hsteps, h⟩ := Except.bind_ok h
  obtain ⟨⟨served, p9⟩, h9, h⟩ := Except.bind_ok h
  cases h
  have hmethod : p8 <:+ page :=
    (header_suffix h8).trans <| (remark_suffix h7).trans <| (remark_suffix h6).trans <|
      (blankLine_suffix h5).trans <| (List.dropWhile_suffix _).trans <| (header_suffix h4).trans <|
        (comments_suffix h3).trans <| (blankLine_suffix h2).trans (title_suffix h1)
  have hbehind : skipBlanks (afterParagraph p8) <:+ page :=
    (List.dropWhile_suffix _).trans <| (List.dropWhile_suffix _).trans hmethod
  obtain ⟨hrest, hserving⟩ := serving_ok h9
  refine ⟨hrest.trans hbehind, ⟨paragraph p8, fun l hl => ?_, hsteps⟩, fun s hs => ?_⟩
  · exact hmethod.mem ((List.takeWhile_prefix _).mem hl)
  · obtain ⟨l, ds, hl, hread⟩ := hserving s hs
    exact ⟨l, ds, hbehind.mem hl, hread⟩

end Sections

theorem recipes_ok {ending : Span} {limit : Nat} {page : Page} {rs : List Recipe}
    (h : recipes ending limit page = .ok rs) :
    ∀ r ∈ rs, ∃ front rest, front <:+ page ∧ recipe ending front = .ok (r, rest) := by
  induction limit generalizing page rs with
  | zero =>
    cases h
    exact fun r hr => absurd hr List.not_mem_nil
  | succ limit ih =>
    rw [recipes] at h
    have hskip : skipBlanks page <:+ page := List.dropWhile_suffix _
    split at h
    · cases h
      exact fun r hr => absurd hr List.not_mem_nil
    · obtain ⟨⟨first, rest⟩, hfirst, h⟩ := Except.bind_ok h
      obtain ⟨more, hmore, h⟩ := Except.bind_ok h
      cases h
      intro r hr
      rcases List.mem_cons.mp hr with rfl | hr
      · exact ⟨_, rest, hskip, hfirst⟩
      · obtain ⟨front, rest', hfront, hrecipe⟩ := ih hmore r hr
        exact ⟨front, rest', hfront.trans ((recipe_ok hfirst).1.trans hskip), hrecipe⟩

/-- All recipes of a program, the main one first. -/
def Program.recipes (p : Program) : List Recipe := p.main :: p.auxiliaries.map (·.2)

/-- What was read as a program has recipes that were read of the source, and every name in it is
    known. -/
theorem parse_inv {code : Text} {p : Program} (h : parse code = .ok p) :
    (∀ r ∈ p.recipes, ∃ page rest, page <:+ pageOf code.lines ∧
      recipe (endOf code.lines) page = .ok (r, rest)) ∧ unknownNames p = none := by
  unfold parse at h
  obtain ⟨⟨main, rest⟩, hmain, h⟩ := Except.bind_ok h
  obtain ⟨others, hothers, h⟩ := Except.bind_ok h
  have hskip : skipBlanks (pageOf code.lines) <:+ pageOf code.lines := List.dropWhile_suffix _
  simp only at h
  split at h
  · cases h
  · rename_i hnames
    cases h
    refine ⟨fun r hr => ?_, hnames⟩
    rcases List.mem_cons.mp hr with rfl | hr
    · exact ⟨_, rest, hskip, hmain⟩
    · obtain ⟨e, he, rfl⟩ := List.mem_map.mp hr
      obtain ⟨e', he', heq⟩ := Table.mem_ofEntries he
      obtain ⟨r', hr', rfl⟩ := List.mem_map.mp he'
      obtain ⟨front, rest', hfront, hrecipe⟩ := recipes_ok hothers r' hr'
      rw [heq]
      exact ⟨front, rest', hfront.trans ((recipe_ok hmain).1.trans hskip), hrecipe⟩

/-! ## 3. What the machine relies on -/

/-- A recipe as the machine needs it: its method is a tree laid out flat, it declares every
    ingredient its method names, and every recipe it calls is there. -/
structure Recipe.Sound (auxiliaries : Table Text Recipe) (r : Recipe) : Prop where
  tree : ∃ b : Block, b.Nests false ∧ r.method.map (·.operation) = b.lay 0 none
  declared : ∀ s ∈ r.method, ∀ i, s.operation.ingredient? = some i → i ≠ [] ∧
    r.ingredients.has i = true
  known : ∀ s ∈ r.method, ∀ callee, s.operation = .serveWith callee → auxiliaries.has callee = true

theorem unknownName_none {r : Recipe} {auxiliaries : Table Text Recipe} {s : Step}
    (h : unknownName r auxiliaries s = none) :
    (∀ i, s.operation.ingredient? = some i → i ≠ [] → r.ingredients.has i = true) ∧
      ∀ callee, s.operation = .serveWith callee → auxiliaries.has callee = true := by
  obtain ⟨op, span⟩ := s
  refine ⟨fun i hi hne => ?_, fun callee hc => ?_⟩
  · have hempty : i.isEmpty = false := by
      cases i with
      | nil => exact absurd rfl hne
      | cons c cs => rfl
    cases op with
    | serveWith callee => cases hi
    | _ =>
      simp only [unknownName] at h hi
      rw [hi] at h
      simpa [hempty] using h
  · have hop : op = .serveWith callee := hc
    subst hop
    simpa [unknownName] using h

/-- **Every recipe of a program that was read is sound.** -/
theorem parse_sound {code : Text} {p : Program} (h : parse code = .ok p) :
    ∀ r ∈ p.recipes, r.Sound p.auxiliaries := by
  obtain ⟨hrecipes, hnames⟩ := parse_inv h
  intro r hr
  obtain ⟨page, rest, -, hrecipe⟩ := hrecipes r hr
  obtain ⟨-, ⟨lines, -, hm⟩, -⟩ := recipe_ok hrecipe
  have hknown : ∀ s ∈ r.method, unknownName r p.auxiliaries s = none := by
    have hr' := List.findSome?_eq_none_iff.mp hnames r hr
    exact List.findSome?_eq_none_iff.mp hr'
  refine ⟨method_lay hm, fun s hs i hi => ?_, fun s hs => (unknownName_none (hknown s hs)).2⟩
  have hne : i ≠ [] := by
    rintro rfl
    exact method_named hm _ (List.mem_map.mpr ⟨s, hs, rfl⟩) hi
  exact ⟨hne, (unknownName_none (hknown s hs)).1 i hi hne⟩

/-- A recipe that can be called is one of the program's. -/
theorem mem_recipes_of_get? {p : Program} {name : Text} {r : Recipe}
    (h : p.auxiliaries.get? name = some r) : r ∈ p.recipes :=
  List.mem_cons_of_mem _ (List.mem_map.mpr ⟨_, Table.mem_of_get? h, rfl⟩)

end Chef

end Esolang
