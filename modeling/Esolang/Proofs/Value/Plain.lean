/-
  File:      Esolang/Proofs/Value/Plain.lean
  Subject:   Plain data: what JSON can carry, and when two of them are the same.

  * `Plain.Tidy`: no fractions, and texts as keys, each of them once.
  * `Plain.Fits`: no integer is too long to be written.
  * `Plain.Same`: maps have the same data under every key, whatever the order of their entries.
  * `Plain.Telling`: data made of something tell what it was; `Same.get?_eq`: so do the entries of a
    map.
-/
import Esolang.Number.Limit
import Esolang.Proofs.Table
import Esolang.Value.Plain

namespace Esolang.Plain

/-! ## 1. Data that can be written -/

/-- Data that JSON can carry: no fractions, and texts as keys, each of them once. -/
inductive Tidy : Plain → Prop
  | null : Tidy .null
  | bool (b : Bool) : Tidy (.bool b)
  | int (n : Int) : Tidy (.int n)
  | text (t : Text) : Tidy (.text t)
  | list {items : List Plain} (h : ∀ p ∈ items, Tidy p) : Tidy (.list items)
  | map {entries : Table Key Plain} (hkeys : ∀ k ∈ entries.keys, ∃ t, k = .text t)
      (hdistinct : entries.Distinct) (h : ∀ e ∈ entries, Tidy e.2) : Tidy (.map entries)

/-- Data without an integer that is too long to be written, the keys of maps apart. -/
inductive Fits : Plain → Prop
  | null : Fits .null
  | bool (b : Bool) : Fits (.bool b)
  | int {n : Int} (h : Decimal.isLong n = false) : Fits (.int n)
  | decimal (literal : Text) : Fits (.decimal literal)
  | text (t : Text) : Fits (.text t)
  | list {items : List Plain} (h : ∀ p ∈ items, Fits p) : Fits (.list items)
  | map {entries : Table Key Plain} (h : ∀ e ∈ entries, Fits e.2) : Fits (.map entries)

theorem fits_int {n : Int} : Fits (.int n) ↔ Decimal.isLong n = false := ⟨fun | .int h => h, .int⟩

theorem fits_list {items : List Plain} : Fits (.list items) ↔ ∀ p ∈ items, p.Fits :=
  ⟨fun | .list h => h, .list⟩

theorem fits_map {entries : Table Key Plain} : Fits (.map entries) ↔ ∀ e ∈ entries, e.2.Fits :=
  ⟨fun | .map h => h, .map⟩

section Entries

variable {κ α : Type} {name : κ → Text} {f : α → Plain} {t : Table κ α}

/-- A map with an entry for each of a table. -/
def ofTable (name : κ → Text) (f : α → Plain) (t : Table κ α) : Plain :=
  .map (t.map fun e => (.text (name e.1), f e.2))

theorem ofTable_tidy (hnames : (t.keys.map name).Nodup) (hf : ∀ e ∈ t, (f e.2).Tidy) :
    (ofTable name f t).Tidy := by
  have hkeys : Table.keys (t.map fun e => (Key.text (name e.1), f e.2)) =
      (t.keys.map name).map .text := by
    unfold Table.keys
    rw [List.map_map, List.map_map, List.map_map]
    rfl
  refine .map (fun k hk => ?_) ?_ fun e he => ?_
  · rw [hkeys] at hk
    obtain ⟨n, -, rfl⟩ := List.mem_map.mp hk
    exact ⟨n, rfl⟩
  · unfold Table.Distinct
    rw [hkeys]
    exact List.pairwise_map.mpr (hnames.imp fun hne h => hne (Key.text.inj h))
  · obtain ⟨e', he', rfl⟩ := List.mem_map.mp he
    exact hf e' he'

theorem ofTable_fits : (ofTable name f t).Fits ↔ ∀ e ∈ t, (f e.2).Fits := by
  unfold ofTable
  rw [fits_map]
  exact List.forall_mem_map

end Entries

theorem record_tidy {fields : List (String × Plain)}
    (hnames : (fields.map fun e => Text.ofString e.1).Nodup) (h : ∀ e ∈ fields, e.2.Tidy) :
    (record fields).Tidy := by
  have hkeys : ((Table.keys fields).map Text.ofString).Nodup := by
    unfold Table.keys
    rw [List.map_map]
    exact hnames
  have hrecord : (ofTable Text.ofString id fields).Tidy := ofTable_tidy hkeys h
  exact hrecord

theorem record_fits {fields : List (String × Plain)} :
    (record fields).Fits ↔ ∀ e ∈ fields, e.2.Fits := by
  unfold record
  rw [fits_map]
  exact List.forall_mem_map

theorem optional_tidy {α : Type} {f : α → Plain} (a : Option α) (h : ∀ x, (f x).Tidy) :
    (optional f a).Tidy := by
  cases a with
  | none => exact .null
  | some x => exact h x

theorem optional_fits {α : Type} {f : α → Plain} {a : Option α} :
    (optional f a).Fits ↔ ∀ x ∈ a, (f x).Fits := by
  cases a with
  | none => exact ⟨fun _ x hx => (nomatch hx), fun _ => .null⟩
  | some x => exact ⟨fun h x' hx' => Option.some.inj hx' ▸ h, fun h => h x rfl⟩

/-! ## 2. The same data -/

/-- The same data: lists item by item, and maps key by key, whatever the order of their entries. -/
inductive Same : Plain → Plain → Prop
  | null : Same .null .null
  | bool (b : Bool) : Same (.bool b) (.bool b)
  | int (n : Int) : Same (.int n) (.int n)
  | decimal (literal : Text) : Same (.decimal literal) (.decimal literal)
  | text (t : Text) : Same (.text t) (.text t)
  | list {items items' : List Plain} (hlength : items.length = items'.length)
      (h : ∀ (i : Nat) p p', items[i]? = some p → items'[i]? = some p' → Same p p') :
        Same (.list items) (.list items')
  | map {entries entries' : Table Key Plain} (hkeys : ∀ k, entries.has k = entries'.has k)
      (h : ∀ k p p', entries.get? k = some p → entries'.get? k = some p' → Same p p') :
      Same (.map entries) (.map entries')

theorem Same.refl : (p : Plain) → Same p p
  | .null => .null
  | .bool b => .bool b
  | .int n => .int n
  | .decimal literal => .decimal literal
  | .text t => .text t
  | .list items => .list rfl fun i p p' hp hp' => by
    cases hp.symm.trans hp'
    have hmem := List.mem_of_getElem? hp
    exact Same.refl p
  | .map entries => .map (fun _ => rfl) fun k p p' hp hp' => by
    cases hp.symm.trans hp'
    have hmem := Table.mem_of_get? hp
    exact Same.refl p
decreasing_by
  · have := List.sizeOf_lt_of_mem hmem
    simp only [Plain.list.sizeOf_spec]
    omega
  · have := List.sizeOf_lt_of_mem hmem
    simp only [Plain.map.sizeOf_spec, Prod.mk.sizeOf_spec] at this ⊢
    omega

/-- Data made of something tell what it was: the same data were made of the same. -/
def Telling {α : Type} (f : α → Plain) : Prop := ∀ a a', Same (f a) (f a') → a = a'

theorem Telling.injective {α : Type} {f : α → Plain} (hf : Telling f) {a a' : α} (h : f a = f a') :
    a = a' :=
  hf a a' (h ▸ Same.refl (f a))

theorem telling_int : Telling .int := fun _ _ h => by cases h; rfl

theorem telling_bool : Telling .bool := fun _ _ h => by cases h; rfl

theorem telling_text : Telling .text := fun _ _ h => by cases h; rfl

theorem Telling.comp {α β : Type} {f : β → Plain} (hf : Telling f) {g : α → β}
    (hg : ∀ a a', g a = g a' → a = a') :
    Telling fun a => f (g a) := fun a a' h => hg a a' (hf _ _ h)

theorem Telling.optional {α : Type} {f : α → Plain} (hf : Telling f) (hnull : ∀ a, f a ≠ .null) :
    Telling (Plain.optional f) := by
  intro a a' h
  cases a with
  | none =>
    cases a' with
    | none => rfl
    | some x' =>
      have hnone : Same .null (f x') := h
      generalize hx : f x' = p at hnone
      cases hnone
      exact absurd hx (hnull x')
  | some x =>
    cases a' with
    | none =>
      have hnone : Same (f x) .null := h
      generalize hx : f x = p at hnone
      cases hnone
      exact absurd hx (hnull x)
    | some x' => rw [hf x x' h]

theorem Telling.list {α : Type} {f : α → Plain} (hf : Telling f) :
    Telling fun (as : List α) => .list (as.map f) := by
  intro as as' h
  cases h with
  | list hlength h =>
    rw [List.length_map, List.length_map] at hlength
    refine List.ext_getElem hlength fun i hi hi' => hf _ _ (h i _ _ ?_ ?_)
    · rw [List.getElem?_map, List.getElem?_eq_getElem hi]
      rfl
    · rw [List.getElem?_map, List.getElem?_eq_getElem hi']
      rfl

theorem Same.entry {entries entries' : Table Key Plain} (h : Same (.map entries) (.map entries'))
    (k : Key) {p p' : Plain} (hp : entries.get? k = some p) (hp' : entries'.get? k = some p') :
    Same p p' := by
  cases h with
  | map hkeys h => exact h k p p' hp hp'

/-- **The entries of a map tell what they were made of.** -/
theorem Same.get?_eq {entries entries' : Table Key Plain} (h : Same (.map entries) (.map entries'))
    (k : Key) {α : Type} {f : α → Plain} (hf : Telling f) {a a' : Option α}
    (ha : entries.get? k = a.map f) (ha' : entries'.get? k = a'.map f) : a = a' := by
  cases h with
  | map hkeys h =>
    have hhas := hkeys k
    unfold Table.has at hhas
    rw [ha, ha', Option.isSome_map, Option.isSome_map] at hhas
    cases a with
    | none =>
      cases a' with
      | none => rfl
      | some x' => cases hhas
    | some x =>
      cases a' with
      | none => cases hhas
      | some x' => rw [hf x x' (h k _ _ ha ha')]

/-- An entry that is always there. -/
theorem Same.entry_eq {entries entries' : Table Key Plain} (h : Same (.map entries) (.map entries'))
    (k : Key) {α : Type} {f : α → Plain} (hf : Telling f) {a a' : α}
    (ha : entries.get? k = some (f a)) (ha' : entries'.get? k = some (f a')) :
    a = a' := Option.some.inj (h.get?_eq k hf ha ha')

/-- A map made of a table tells what is in the table. -/
theorem Same.get?_ofTable {κ α : Type} [DecidableEq κ] {name : κ → Text} {f : α → Plain}
    {t t' : Table κ α} (h : Same (ofTable name f t) (ofTable name f t'))
    (hname : ∀ k k', name k = name k' → k = k') (hf : Telling f) (k : κ) :
    t.get? k = t'.get? k := by
  have hkey : ∀ k k', Key.text (name k) = .text (name k') → k = k' :=
    fun k k' h => hname k k' (Key.text.inj h)
  exact h.get?_eq (.text (name k)) hf (Table.get?_map hkey f t k) (Table.get?_map hkey f t' k)

theorem ofTable_injective {κ α : Type} {name : κ → Text} {f : α → Plain}
    (hname : ∀ k k', name k = name k' → k = k') (hf : Telling f) {t t' : Table κ α}
    (h : ofTable name f t = ofTable name f t') : t = t' := by
  refine (List.map_inj_right fun e e' he => ?_).mp (Plain.map.inj h)
  obtain ⟨hkey, hvalue⟩ := Prod.mk.inj he
  exact Prod.ext (hname _ _ (Key.text.inj hkey)) (hf.injective hvalue)

end Esolang.Plain
