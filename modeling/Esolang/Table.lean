/-
  File:      Esolang/Table.lean
  Subject:   Tables that remember the order in which their keys came.

  A table is a list of keys with their values. Putting a value under a key that is there keeps the
  key's place; a new key goes to the end. The view of a table is `Table.get?`, and `get?_put_self`,
  `get?_put_of_ne` say what `Table.put` does to it.
-/
namespace Esolang

/-- Keys with their values, in the order the keys came. -/
abbrev Table (κ α : Type) := List (κ × α)

namespace Table

variable {κ α : Type} [DecidableEq κ]

/-- The value under a key. -/
def get? (t : Table κ α) (k : κ) : Option α :=
  match t with
  | [] => none
  | (k', v) :: rest => if k' = k then some v else get? rest k

/-- The table with a value under a key; a key that is there keeps its place. -/
def put (t : Table κ α) (k : κ) (v : α) : Table κ α :=
  match t with
  | [] => [(k, v)]
  | (k', v') :: rest => if k' = k then (k', v) :: rest else (k', v') :: put rest k v

/-- The keys, in the order they came. -/
def keys (t : Table κ α) : List κ := t.map Prod.fst

/-- Whether a key is there. -/
def has (t : Table κ α) (k : κ) : Bool := (get? t k).isSome

/-- A table of the given entries, put in one after another. -/
def ofEntries (entries : List (κ × α)) : Table κ α :=
  entries.foldl (fun t e => put t e.1 e.2) []

@[simp] theorem get?_nil (k : κ) : get? ([] : Table κ α) k = none := rfl

/-- What was put under a key is found there. -/
@[simp] theorem get?_put_self (t : Table κ α) (k : κ) (v : α) : get? (put t k v) k = some v := by
  induction t with
  | nil => simp [put, get?]
  | cons e rest ih =>
    obtain ⟨k', v'⟩ := e
    by_cases h : k' = k <;> simp [put, get?, h, ih]

/-- The other keys keep their values. -/
theorem get?_put_of_ne (t : Table κ α) {k j : κ} (v : α) (h : j ≠ k) :
    get? (put t k v) j = get? t j := by
  induction t with
  | nil => simp [put, get?, Ne.symm h]
  | cons e rest ih =>
    obtain ⟨k', v'⟩ := e
    by_cases e1 : k' = k
    · subst e1
      simp [put, get?, Ne.symm h]
    · by_cases e2 : k' = j
      · simp [put, get?, e2, h]
      · simp [put, get?, e1, e2, ih]

/-- The keys after a value was put in: a new key goes to the end. -/
theorem keys_put (t : Table κ α) (k : κ) (v : α) :
    keys (put t k v) = if k ∈ keys t then keys t else keys t ++ [k] := by
  induction t with
  | nil => simp [put, keys]
  | cons e rest ih =>
    obtain ⟨k', v'⟩ := e
    unfold keys at ih
    by_cases h : k' = k
    · simp [put, keys, h]
    · by_cases h2 : k ∈ List.map Prod.fst rest
      · simp [put, keys, h, ih, h2]
      · simp [put, keys, h, ih, h2, Ne.symm h]

end Table

end Esolang
