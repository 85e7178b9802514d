/-
  File:      Esolang/Proofs/Value/StepResult.lean
  Subject:   Step results as plain data: what they are made of, and what they tell.

  * `Display.form`, `StepResult.form`: the plain data, whatever the length of the numbers;
    `plain_iff`: they are given unless a number that is a key is too long.
  * `Display.Orderly`: no table on a panel lists a key twice; `form_tidy`: then the plain data are
    tidy.
  * `StepResult.integers`: all integers of a result; `form_fits`: these decide whether it can be
    written.
  * `Display.Same`: panels with the same tables, whatever the order of their entries.
  * `Display.form_same`, `Display.form_injective`: the plain data tell the panel, and so the whole
    result.
-/
import Esolang.Proofs.Chef.Inventory
import Esolang.Proofs.Language
import Esolang.Proofs.Number.Decimal
import Esolang.Proofs.Value.Plain
import Esolang.Registry
import Esolang.Value.Transport

namespace Esolang

open Plain

/-! ## 1. Spans and edits -/

/-- The integers of a span. -/
def Span.integers (s : Span) : List Int :=
  s.startLine :: (s.startCol.toList ++ s.endLine.toList ++ s.endCol.toList)

theorem Span.plain_eq (s : Span) :
    s.plain =
      .record ([("startLine", .int s.startLine)] ++ s.startCol.toList.map (("startCol", .int ·))
      ++ s.endLine.toList.map (("endLine", .int ·)) ++
        s.endCol.toList.map (("endCol", .int ·))) := by
  obtain ⟨row, col, last, past⟩ := s
  cases col <;> cases last <;> cases past <;> rfl

theorem Span.plain_tidy (s : Span) : s.plain.Tidy := by
  have hnames : ∀ col last past : Bool, ((["startLine"] ++ (if col then ["startCol"] else [])
      ++ (if last then ["endLine"] else []) ++ (if past then ["endCol"] else [])).map
        Text.ofString).Nodup := by decide
  have hgiven := hnames s.startCol.isSome s.endLine.isSome s.endCol.isSome
  rw [Span.plain_eq]
  refine record_tidy ?_ ?_
  · obtain ⟨row, col, last, past⟩ := s
    cases col <;> cases last <;> cases past <;> exact hgiven
  · simp [or_imp, forall_and, Tidy.int]

theorem Span.plain_fits (s : Span) : s.plain.Fits ↔ ∀ n ∈ s.integers, Decimal.isLong n = false := by
  rw [Span.plain_eq, record_fits]
  simp [Span.integers, or_imp, forall_and, fits_int]

/-- What stands under the names of a span: absent ends are left out. -/
theorem Span.plain_entries (s : Span) :
    ∃ entries : Table Key Plain, s.plain = .map entries ∧
      entries.get? (.text "startLine") = some (.int s.startLine) ∧
      entries.get? (.text "startCol") = s.startCol.map .int ∧
      entries.get? (.text "endLine") = s.endLine.map .int ∧
      entries.get? (.text "endCol") = s.endCol.map .int := by
  obtain ⟨row, col, last, past⟩ := s
  cases col <;> cases last <;> cases past <;> exact ⟨_, rfl, rfl, rfl, rfl, rfl⟩

theorem Span.plain_telling : Telling Span.plain := by
  intro s s' h
  obtain ⟨entries, hs, hrow, hcol, hlast, hpast⟩ := s.plain_entries
  obtain ⟨entries', hs', hrow', hcol', hlast', hpast'⟩ := s'.plain_entries
  rw [hs, hs'] at h
  have hrows := h.entry_eq _ telling_int hrow hrow'
  have hcols := h.get?_eq _ telling_int hcol hcol'
  have hlasts := h.get?_eq _ telling_int hlast hlast'
  have hpasts := h.get?_eq _ telling_int hpast hpast'
  obtain ⟨row, col, last, past⟩ := s
  obtain ⟨row', col', last', past'⟩ := s'
  cases hrows
  cases hcols
  cases hlasts
  cases hpasts
  rfl

theorem Edit.plain_tidy (e : Edit) : e.plain.Tidy :=
  record_tidy (show (["range", "text"].map Text.ofString).Nodup by decide)
    (List.forall_mem_cons.mpr ⟨e.span.plain_tidy, List.forall_mem_singleton.mpr (.text e.text)⟩)

theorem Edit.plain_fits (e : Edit) :
    e.plain.Fits ↔ ∀ n ∈ e.span.integers, Decimal.isLong n = false := by
  unfold Edit.plain
  rw [record_fits, List.forall_mem_cons, List.forall_mem_singleton, Span.plain_fits]
  exact and_iff_left (.text e.text)

theorem Edit.plain_telling : Telling Edit.plain := by
  intro e e' h
  obtain ⟨span, text⟩ := e
  obtain ⟨span', text'⟩ := e'
  have hspan : span = span' := Same.entry_eq h (.text "range") Span.plain_telling rfl rfl
  have htext : text = text' := Same.entry_eq h (.text "text") telling_text rfl rfl
  rw [hspan, htext]

/-! ## 2. Kitchens -/

/-- The plain data of a table with numbers as keys are given unless a key is too long. -/
theorem tablePlain_iff {α : Type} {f : α → Plain} {t : Table Int α} {p : Plain} :
    tablePlain f t = .ok p ↔ (∀ n ∈ t.keys, Decimal.isLong n = false) ∧
      p = ofTable Decimal.ofInt f t := by
  unfold tablePlain ofTable
  constructor
  · intro h
    obtain ⟨entries, hentries, rfl⟩ := Except.map_ok h
    clear h
    induction t generalizing entries with
    | nil =>
      cases hentries
      exact ⟨fun n hn => absurd hn List.not_mem_nil, rfl⟩
    | cons e rest ih =>
      obtain ⟨k, a⟩ := e
      rw [List.mapM_cons] at hentries
      obtain ⟨first, hfirst, hentries⟩ := Except.bind_ok hentries
      obtain ⟨others, hothers, hentries⟩ := Except.bind_ok hentries
      obtain ⟨name, hname, rfl⟩ := Except.map_ok hfirst
      obtain ⟨hshort, rfl⟩ := Decimal.print_eq_ok.mp hname
      obtain ⟨hrest, heq⟩ := ih others hothers
      cases hentries
      cases heq
      exact ⟨List.forall_mem_cons.mpr ⟨hshort, hrest⟩, rfl⟩
  · rintro ⟨hkeys, rfl⟩
    induction t with
    | nil => rfl
    | cons e rest ih =>
      obtain ⟨k, a⟩ := e
      obtain ⟨hshort, hrest⟩ := List.forall_mem_cons.mp hkeys
      obtain ⟨others, hothers, heq⟩ := Except.map_ok (ih hrest)
      cases heq
      have hname : Decimal.print k = .ok (Decimal.ofInt k) := Decimal.print_eq_ok.mpr ⟨hshort, rfl⟩
      rw [List.mapM_cons, hothers]
      simp only [hname]
      rfl

namespace Chef

theorem Kind.ofWord?_word (k : Kind) : Kind.ofWord? k.word = some k := by cases k <;> rfl

theorem Kind.word_injective (k k' : Kind) (h : k.word = k'.word) : k = k' := by
  have hk := k.ofWord?_word
  rw [h, k'.ofWord?_word] at hk
  exact (Option.some.inj hk).symm

theorem Item.plain_tidy (i : Item) : i.plain.Tidy :=
  record_tidy (show (["value", "type"].map Text.ofString).Nodup by decide)
    (List.forall_mem_cons.mpr ⟨.int i.value, List.forall_mem_singleton.mpr (.text i.kind.word)⟩)

theorem Item.plain_fits (i : Item) : i.plain.Fits ↔ Decimal.isLong i.value = false := by
  unfold Item.plain
  rw [record_fits, List.forall_mem_cons, List.forall_mem_singleton, fits_int]
  exact and_iff_left (.text i.kind.word)

theorem Item.plain_telling : Telling Item.plain := by
  intro i i' h
  obtain ⟨value, kind⟩ := i
  obtain ⟨value', kind'⟩ := i'
  have hvalue : value = value' := Same.entry_eq h (.text "value") telling_int rfl rfl
  have hkind : kind = kind' :=
    Same.entry_eq h (.text "type") (telling_text.comp Kind.word_injective) rfl rfl
  rw [hvalue, hkind]

theorem Ingredient.plain_tidy (i : Ingredient) : i.plain.Tidy :=
  record_tidy (show (["type", "value"].map Text.ofString).Nodup by decide)
    (List.forall_mem_cons.mpr ⟨.text i.kind.word,
      List.forall_mem_singleton.mpr (optional_tidy i.value .int)⟩)

theorem Ingredient.plain_fits (i : Ingredient) :
    i.plain.Fits ↔ ∀ n ∈ i.value, Decimal.isLong n = false := by
  unfold Ingredient.plain
  rw [record_fits, List.forall_mem_cons, List.forall_mem_singleton, optional_fits]
  simp only [fits_int]
  exact and_iff_right (.text i.kind.word)

theorem Ingredient.plain_telling : Telling Ingredient.plain := by
  intro i i' h
  obtain ⟨kind, value⟩ := i
  obtain ⟨kind', value'⟩ := i'
  have hkind : kind = kind' :=
    Same.entry_eq h (.text "type") (telling_text.comp Kind.word_injective) rfl rfl
  have hvalue : value = value' :=
    Same.entry_eq h (.text "value") (telling_int.optional fun _ hn => by cases hn) rfl rfl
  rw [hkind, hvalue]

theorem stackPlain_tidy (s : Stack) : (stackPlain s).Tidy :=
  .list (List.forall_mem_map.mpr fun i _ => i.plain_tidy)

theorem stackPlain_fits (s : Stack) :
    (stackPlain s).Fits ↔ ∀ i ∈ s, Decimal.isLong i.value = false := by
  unfold stackPlain
  rw [fits_list, List.forall_mem_map]
  simp only [List.mem_reverse, Item.plain_fits]

theorem stackPlain_telling : Telling stackPlain := by
  intro s s' h
  exact List.reverse_inj.mp (Item.plain_telling.list s.reverse s'.reverse h)

namespace Kitchen

/-- The numbers of the bowls and dishes of a kitchen. -/
def keys (k : Kitchen) : List Int := k.bowls.keys ++ k.dishes.keys

/-- The integers of a kitchen: the values of ingredients, the numbers of bowls and dishes, and the
    values in them. -/
def integers (k : Kitchen) : List Int :=
  k.ingredients.flatMap (·.2.value.toList) ++ (k.bowls ++ k.dishes).flatMap fun e =>
    e.1 :: e.2.map (·.value)

/-- The plain data of a kitchen, whatever the length of its numbers. -/
def form (k : Kitchen) : Plain :=
  .record [("ingredients", ofTable id Ingredient.plain k.ingredients),
    ("bowls", ofTable Decimal.ofInt stackPlain k.bowls),
    ("dishes", ofTable Decimal.ofInt stackPlain k.dishes)]

theorem plain_iff {k : Kitchen} {p : Plain} :
    k.plain = .ok p ↔ (∀ n ∈ k.keys, Decimal.isLong n = false) ∧ p = k.form := by
  unfold Kitchen.plain keys
  rw [List.forall_mem_append]
  constructor
  · intro h
    obtain ⟨bowls, hbowls, h⟩ := Except.bind_ok h
    obtain ⟨dishes, hdishes, h⟩ := Except.bind_ok h
    cases h
    obtain ⟨hb, rfl⟩ := tablePlain_iff.mp hbowls
    obtain ⟨hd, rfl⟩ := tablePlain_iff.mp hdishes
    exact ⟨⟨hb, hd⟩, rfl⟩
  · rintro ⟨⟨hbowls, hdishes⟩, rfl⟩
    rw [tablePlain_iff.mpr ⟨hbowls, rfl⟩, tablePlain_iff.mpr ⟨hdishes, rfl⟩]
    rfl

theorem Orderly.form_tidy {k : Kitchen} (h : k.Orderly) : k.form.Tidy := by
  have hingredients : (ofTable id Ingredient.plain k.ingredients).Tidy :=
    ofTable_tidy (h.ingredients.map_keys fun _ _ he => he) fun e _ => e.2.plain_tidy
  have hbowls : (ofTable Decimal.ofInt stackPlain k.bowls).Tidy :=
    ofTable_tidy (h.bowls.map_keys Decimal.ofInt_injective) fun e _ => stackPlain_tidy e.2
  have hdishes : (ofTable Decimal.ofInt stackPlain k.dishes).Tidy :=
    ofTable_tidy (h.dishes.map_keys Decimal.ofInt_injective) fun e _ => stackPlain_tidy e.2
  refine record_tidy (show (["ingredients", "bowls", "dishes"].map Text.ofString).Nodup by decide)
    ?_
  exact List.forall_mem_cons.mpr ⟨hingredients,
    List.forall_mem_cons.mpr ⟨hbowls, List.forall_mem_singleton.mpr hdishes⟩⟩

theorem form_fits (k : Kitchen) :
    (∀ n ∈ k.keys, Decimal.isLong n = false) ∧ k.form.Fits ↔
      ∀ n ∈ k.integers, Decimal.isLong n = false := by
  unfold keys form integers Table.keys
  simp only [record_fits, List.forall_mem_append, List.forall_mem_cons, List.forall_mem_map,
    List.forall_mem_flatMap, ofTable_fits, stackPlain_fits, Ingredient.plain_fits, forall_and,
    Option.mem_toList]
  constructor
  · rintro ⟨hkeys, hingredients, hbowls, hdishes, -⟩
    exact ⟨hingredients, hkeys, hbowls, hdishes⟩
  · rintro ⟨hingredients, hkeys, hbowls, hdishes⟩
    exact ⟨hkeys, hingredients, hbowls, hdishes, fun _ h => absurd h List.not_mem_nil⟩

/-- Kitchens with the same ingredients, bowls and dishes, in whatever order they are listed. -/
structure Same (k k' : Kitchen) : Prop where
  ingredients : ∀ name, k.ingredients.get? name = k'.ingredients.get? name
  bowls : ∀ id, k.bowls.get? id = k'.bowls.get? id
  dishes : ∀ id, k.dishes.get? id = k'.dishes.get? id

theorem form_same {k k' : Kitchen} (h : k.form.Same k'.form) : k.Same k' where
  ingredients :=
    (h.entry (.text "ingredients") rfl rfl).get?_ofTable (fun _ _ he => he) Ingredient.plain_telling
  bowls :=
    (h.entry (.text "bowls") rfl rfl).get?_ofTable Decimal.ofInt_injective stackPlain_telling
  dishes :=
    (h.entry (.text "dishes") rfl rfl).get?_ofTable Decimal.ofInt_injective stackPlain_telling

theorem form_injective {k k' : Kitchen} (h : k.form = k'.form) : k = k' := by
  simp only [form, record, List.map_cons, List.map_nil, Plain.map.injEq, List.cons.injEq,
    Prod.mk.injEq, true_and, and_true] at h
  obtain ⟨hingredients, hbowls, hdishes⟩ := h
  obtain ⟨ingredients, bowls, dishes⟩ := k
  obtain ⟨ingredients', bowls', dishes'⟩ := k'
  have h1 : ingredients = ingredients' :=
    ofTable_injective (fun _ _ he => he) Ingredient.plain_telling hingredients
  have h2 : bowls = bowls' := ofTable_injective Decimal.ofInt_injective stackPlain_telling hbowls
  have h3 : dishes = dishes' := ofTable_injective Decimal.ofInt_injective stackPlain_telling hdishes
  rw [h1, h2, h3]

end Kitchen

end Chef

/-! ## 3. Panels -/

theorem Befunge.Direction.ofWord?_word (d : Befunge.Direction) :
    Befunge.Direction.ofWord? d.word = some d := by
  cases d <;> rfl

theorem Befunge.Direction.word_injective (d d' : Befunge.Direction) (h : d.word = d'.word) :
    d = d' := by
  have hd := d.ofWord?_word
  rw [h, d'.ofWord?_word] at hd
  exact (Option.some.inj hd).symm

namespace Display

/-- The language of a panel. -/
def language : Display → LanguageId
  | .chef .. => .chef
  | .befunge .. => .befunge93
  | .brainfuck .. => .brainfuck
  | .deadfish .. => .deadfish

/-- The integers of a panel that are keys of its tables. -/
def keys : Display → List Int
  | .chef _ kitchen => kitchen.keys
  | .brainfuck tape _ => tape.keys
  | _ => []

/-- All integers of a panel. -/
def integers : Display → List Int
  | .chef _ kitchen => kitchen.integers
  | .befunge stack _ _ => stack
  | .brainfuck tape pointer => tape.flatMap (fun e => [e.1, e.2]) ++ [pointer]
  | .deadfish value => [value]

/-- No table on a panel lists a key twice. -/
def Orderly : Display → Prop
  | .chef _ kitchen => kitchen.Orderly
  | .brainfuck tape _ => tape.Distinct
  | _ => True

/-- The plain data of a panel, whatever the length of its numbers. -/
def form : Display → Plain
  | .chef calls kitchen =>
    .record [("stack", .list (calls.map .text)), ("current_kitchen", kitchen.form)]
  | .befunge stack direction stringMode =>
    .record [("stack", .list (stack.reverse.map .int)), ("direction", .text direction.word),
      ("str_mode", .bool stringMode)]
  | .brainfuck tape pointer =>
    .record [("tape", ofTable Decimal.ofInt .int tape), ("pointer", .int pointer)]
  | .deadfish value => .record [("value", .int value)]

theorem plain_iff {d : Display} {p : Plain} :
    d.plain = .ok p ↔ (∀ n ∈ d.keys, Decimal.isLong n = false) ∧ p = d.form := by
  cases d with
  | chef calls kitchen =>
    constructor
    · intro h
      obtain ⟨k, hk, h⟩ := Except.bind_ok h
      cases h
      obtain ⟨hkeys, rfl⟩ := Chef.Kitchen.plain_iff.mp hk
      exact ⟨hkeys, rfl⟩
    · rintro ⟨hkeys, rfl⟩
      show (kitchen.plain >>= _) = _
      rw [Chef.Kitchen.plain_iff.mpr ⟨hkeys, rfl⟩]
      rfl
  | befunge stack direction stringMode =>
    exact ⟨fun h => ⟨fun _ hn => absurd hn List.not_mem_nil, (Except.ok.inj h).symm⟩,
      fun h => congrArg Except.ok h.2.symm⟩
  | brainfuck tape pointer =>
    constructor
    · intro h
      obtain ⟨t, ht, h⟩ := Except.bind_ok h
      cases h
      obtain ⟨hkeys, rfl⟩ := tablePlain_iff.mp ht
      exact ⟨hkeys, rfl⟩
    · rintro ⟨hkeys, rfl⟩
      show (tablePlain .int tape >>= _) = _
      rw [tablePlain_iff.mpr ⟨hkeys, rfl⟩]
      rfl
  | deadfish value =>
    exact ⟨fun h => ⟨fun _ hn => absurd hn List.not_mem_nil, (Except.ok.inj h).symm⟩,
      fun h => congrArg Except.ok h.2.symm⟩

theorem Orderly.form_tidy {d : Display} (h : d.Orderly) : d.form.Tidy := by
  cases d with
  | chef calls kitchen =>
    have hcalls : Tidy (.list (calls.map .text)) :=
      .list (List.forall_mem_map.mpr fun t _ => .text t)
    refine record_tidy (show (["stack", "current_kitchen"].map Text.ofString).Nodup by decide) ?_
    exact List.forall_mem_cons.mpr
      ⟨hcalls, List.forall_mem_singleton.mpr (Chef.Kitchen.Orderly.form_tidy h)⟩
  | befunge stack direction stringMode =>
    have hstack : Tidy (.list (stack.reverse.map .int)) :=
      .list (List.forall_mem_map.mpr fun n _ => .int n)
    refine record_tidy (show (["stack", "direction", "str_mode"].map Text.ofString).Nodup by decide)
      ?_
    exact List.forall_mem_cons.mpr ⟨hstack,
      List.forall_mem_cons.mpr ⟨.text direction.word,
        List.forall_mem_singleton.mpr (.bool stringMode)⟩⟩
  | brainfuck tape pointer =>
    have htape : (ofTable Decimal.ofInt .int tape).Tidy :=
      ofTable_tidy (Table.Distinct.map_keys h Decimal.ofInt_injective) fun e _ => .int e.2
    refine record_tidy (show (["tape", "pointer"].map Text.ofString).Nodup by decide) ?_
    exact List.forall_mem_cons.mpr ⟨htape, List.forall_mem_singleton.mpr (.int pointer)⟩
  | deadfish value =>
    exact record_tidy (show (["value"].map Text.ofString).Nodup by decide)
      (List.forall_mem_singleton.mpr (.int value))

theorem form_fits (d : Display) :
    (∀ n ∈ d.keys, Decimal.isLong n = false) ∧ d.form.Fits ↔
      ∀ n ∈ d.integers, Decimal.isLong n = false := by
  cases d with
  | chef calls kitchen =>
    have hcalls : Fits (.list (calls.map .text)) :=
      .list (List.forall_mem_map.mpr fun t _ => .text t)
    rw [form, record_fits, List.forall_mem_cons, List.forall_mem_singleton, and_iff_right hcalls]
    exact kitchen.form_fits
  | befunge stack direction stringMode =>
    simp [keys, integers, form, record_fits, fits_list, fits_int, Fits.text, Fits.bool]
  | brainfuck tape pointer =>
    unfold keys integers form Table.keys
    simp only [record_fits, ofTable_fits, fits_int, List.forall_mem_cons, List.forall_mem_append,
      List.forall_mem_map, List.forall_mem_flatMap, forall_and]
    constructor
    · rintro ⟨hcells, hvalues, hpointer, -⟩
      exact ⟨⟨hcells, hvalues, fun _ _ _ h => absurd h List.not_mem_nil⟩, hpointer,
        fun _ h => absurd h List.not_mem_nil⟩
    · rintro ⟨⟨hcells, hvalues, -⟩, hpointer, -⟩
      exact ⟨hcells, hvalues, hpointer, fun _ h => absurd h List.not_mem_nil⟩
  | deadfish value => simp [keys, integers, form, record_fits, fits_int]

/-- Panels that show the same, in whatever order the entries of their tables are listed. -/
inductive Same : Display → Display → Prop
  | chef (calls : List Text) {kitchen kitchen' : Chef.Kitchen} (h : kitchen.Same kitchen') :
      Same (.chef calls kitchen) (.chef calls kitchen')
  | befunge (stack : List Int) (direction : Befunge.Direction) (stringMode : Bool) :
      Same (.befunge stack direction stringMode) (.befunge stack direction stringMode)
  | brainfuck {tape tape' : Table Int Int} (h : ∀ cell, tape.get? cell = tape'.get? cell)
      (pointer : Int) :
      Same (.brainfuck tape pointer) (.brainfuck tape' pointer)
  | deadfish (value : Int) : Same (.deadfish value) (.deadfish value)

theorem form_same {d d' : Display} (hlanguage : d.language = d'.language)
    (h : d.form.Same d'.form) : d.Same d' := by
  cases d with
  | chef calls kitchen =>
    cases d' with
    | chef calls' kitchen' =>
      obtain rfl : calls = calls' := h.entry_eq (.text "stack") telling_text.list rfl rfl
      exact .chef calls (Chef.Kitchen.form_same (h.entry (.text "current_kitchen") rfl rfl))
    | _ => cases hlanguage
  | befunge stack direction stringMode =>
    cases d' with
    | befunge stack' direction' stringMode' =>
      have hstack : stack.reverse = stack'.reverse :=
        h.entry_eq (.text "stack") telling_int.list rfl rfl
      obtain rfl := List.reverse_inj.mp hstack
      obtain rfl : direction = direction' :=
        h.entry_eq (.text "direction") (telling_text.comp Befunge.Direction.word_injective) rfl rfl
      obtain rfl : stringMode = stringMode' := h.entry_eq (.text "str_mode") telling_bool rfl rfl
      exact .befunge stack direction stringMode
    | _ => cases hlanguage
  | brainfuck tape pointer =>
    cases d' with
    | brainfuck tape' pointer' =>
      obtain rfl : pointer = pointer' := h.entry_eq (.text "pointer") telling_int rfl rfl
      have htape := h.entry (.text "tape") rfl rfl
      exact .brainfuck (htape.get?_ofTable Decimal.ofInt_injective telling_int) pointer
    | _ => cases hlanguage
  | deadfish value =>
    cases d' with
    | deadfish value' =>
      obtain rfl : value = value' := h.entry_eq (.text "value") telling_int rfl rfl
      exact .deadfish value
    | _ => cases hlanguage

theorem form_injective {d d' : Display} (hlanguage : d.language = d'.language)
    (h : d.form = d'.form) : d = d' := by
  cases form_same hlanguage (h ▸ Same.refl d.form) with
  | chef calls hkitchen =>
    -- the tables are told key by key only, but their entries stand in the same order as well
    simp only [form, record, List.map_cons, List.map_nil, Plain.map.injEq, List.cons.injEq,
      Prod.mk.injEq, true_and, and_true] at h
    rw [Chef.Kitchen.form_injective h]
  | befunge stack direction stringMode => rfl
  | brainfuck htape pointer =>
    simp only [form, record, List.map_cons, List.map_nil, Plain.map.injEq, List.cons.injEq,
      Prod.mk.injEq, true_and, and_true] at h
    rw [ofTable_injective Decimal.ofInt_injective telling_int h]
  | deadfish value => rfl

end Display

/-! ## 4. Step results -/

theorem faultPlain_tidy (message : Text) : (faultPlain message).Tidy :=
  record_tidy (show (["name", "message"].map Text.ofString).Nodup by decide)
    (List.forall_mem_cons.mpr ⟨.text _, List.forall_mem_singleton.mpr (.text message)⟩)

theorem faultPlain_telling : Telling faultPlain :=
  fun _ _ h => h.entry_eq (.text "message") telling_text rfl rfl

namespace StepResult

/-- The word that says whether execution pauses. -/
def signal (r : StepResult) : Option Text := if r.paused then some pausedWord else none

/-- All integers of a result. -/
def integers (r : StepResult) : List Int :=
  r.display.integers ++ r.next.toList.flatMap Span.integers ++
    (r.edits.getD []).flatMap (·.span.integers)

/-- The plain data of a result, whatever the length of its numbers. -/
def form (r : StepResult) : Plain :=
  .record [("display_state", r.display.form), ("next_location", .optional Span.plain r.next),
    ("output", .optional .text r.output),
    ("source_edits", .optional (fun es => .list (es.map Edit.plain)) r.edits),
    ("signal", .optional .text r.signal),
    ("error", .optional faultPlain (r.error.map Fault.message))]

/-- The plain data of a result are given unless a number that is a key on its panel is too long. -/
theorem plain_iff {r : StepResult} {p : Plain} :
    r.plain = .ok p ↔ (∀ n ∈ r.display.keys, Decimal.isLong n = false) ∧ p = r.form := by
  have hplain : r.plain = r.display.plain.map fun s => .record [("display_state", s),
      ("next_location", .optional Span.plain r.next), ("output", .optional .text r.output),
      ("source_edits", .optional (fun es => .list (es.map Edit.plain)) r.edits),
      ("signal", .optional .text r.signal),
      ("error", .optional faultPlain (r.error.map Fault.message))] := by
    obtain ⟨display, next, output, edits, paused, error⟩ := r
    unfold StepResult.plain toValue
    simp only [Value.plain]
    cases display.plain <;> cases error <;> rfl
  rw [hplain]
  constructor
  · intro h
    obtain ⟨s, hs, rfl⟩ := Except.map_ok h
    obtain ⟨hkeys, rfl⟩ := Display.plain_iff.mp hs
    exact ⟨hkeys, rfl⟩
  · rintro ⟨hkeys, rfl⟩
    rw [Display.plain_iff.mpr ⟨hkeys, rfl⟩]
    rfl

theorem form_tidy {r : StepResult} (h : r.display.Orderly) : r.form.Tidy := by
  have hedits : ∀ es : List Edit, Tidy (.list (es.map Edit.plain)) :=
    fun es => .list (List.forall_mem_map.mpr fun e _ => e.plain_tidy)
  refine record_tidy
    (show (["display_state", "next_location", "output", "source_edits", "signal", "error"].map
    Text.ofString).Nodup by decide) ?_
  simp only [List.forall_mem_cons]
  exact ⟨h.form_tidy, optional_tidy _ Span.plain_tidy, optional_tidy _ .text,
    optional_tidy _ hedits, optional_tidy _ .text, optional_tidy _ faultPlain_tidy,
    fun _ h => absurd h List.not_mem_nil⟩

theorem form_fits (r : StepResult) :
    (∀ n ∈ r.display.keys, Decimal.isLong n = false) ∧ r.form.Fits ↔
      ∀ n ∈ r.integers, Decimal.isLong n = false := by
  have htext : ∀ t : Option Text, (Plain.optional .text t).Fits :=
    fun t => optional_fits.mpr fun x _ => .text x
  have herror : (Plain.optional faultPlain (r.error.map Fault.message)).Fits :=
    optional_fits.mpr fun message _ => record_fits.mpr
      (List.forall_mem_cons.mpr ⟨.text _, List.forall_mem_singleton.mpr (.text message)⟩)
  have hedits : (Plain.optional (fun es => .list (es.map Edit.plain)) r.edits).Fits ↔
      ∀ e ∈ r.edits.getD [], ∀ n ∈ e.span.integers, Decimal.isLong n = false := by
    cases r.edits with
    | none => exact ⟨fun _ e he => absurd he List.not_mem_nil, fun _ => .null⟩
    | some es =>
      show Fits (.list (es.map Edit.plain)) ↔ _
      rw [fits_list, List.forall_mem_map]
      exact forall₂_congr fun e _ => e.plain_fits
  unfold form integers
  simp only [record_fits, List.forall_mem_cons, List.forall_mem_append, List.forall_mem_flatMap,
    Option.mem_toList, hedits, htext, herror, optional_fits, Span.plain_fits,
    true_and, ← r.display.form_fits]
  constructor
  · rintro ⟨hkeys, hdisplay, hnext, hedits, -⟩
    exact ⟨⟨⟨hkeys, hdisplay⟩, hnext⟩, hedits⟩
  · rintro ⟨⟨⟨hkeys, hdisplay⟩, hnext⟩, hedits⟩
    exact ⟨hkeys, hdisplay, hnext, hedits, fun _ h => absurd h List.not_mem_nil⟩

/-- Two results agree in everything that is shown of them; their panels are alike in a given
    sense. -/
structure Agrees (alike : Display → Display → Prop) (r r' : StepResult) : Prop where
  display : alike r.display r'.display
  next : r.next = r'.next
  output : r.output = r'.output
  edits : r.edits = r'.edits
  paused : r.paused = r'.paused
  error : r.error.map Fault.message = r'.error.map Fault.message

/-- **The plain data of a result tell the whole result**, in whatever order the entries of maps
    stand. -/
theorem form_same {r r' : StepResult} (hlanguage : r.display.language = r'.display.language)
    (h : r.form.Same r'.form) : r.Agrees Display.Same r' where
  display := Display.form_same hlanguage (h.entry (.text "display_state") rfl rfl)
  next :=
    h.entry_eq (.text "next_location") (Span.plain_telling.optional fun s hs => by cases hs) rfl rfl
  output := h.entry_eq (.text "output") (telling_text.optional fun _ ht => by cases ht) rfl rfl
  edits :=
    h.entry_eq (.text "source_edits") (Edit.plain_telling.list.optional fun _ he => by cases he)
      rfl rfl
  paused := by
    have hsignal : r.signal = r'.signal :=
      h.entry_eq (.text "signal") (telling_text.optional fun _ ht => by cases ht) rfl rfl
    unfold signal at hsignal
    cases hpaused : r.paused <;> cases hpaused' : r'.paused <;> simp_all
  error := h.entry_eq (.text "error") (faultPlain_telling.optional fun _ hf => by cases hf) rfl rfl

/-- If the entries of maps stand in the same order, so do those of the tables on the panels. -/
theorem form_injective {r r' : StepResult} (hlanguage : r.display.language = r'.display.language)
    (h : r.form = r'.form) : r.Agrees (· = ·) r' := by
  have hsame := form_same hlanguage (h ▸ Plain.Same.refl r.form)
  refine { hsame with display := Display.form_injective hlanguage ?_ }
  simp only [form, record, List.map_cons, Plain.map.injEq, List.cons.injEq, Prod.mk.injEq,
    true_and] at h
  exact h.1

end StepResult

end Esolang
