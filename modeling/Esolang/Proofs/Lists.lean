/-
  File:      Esolang/Proofs/Lists.lean
  Subject:   Facts about lists that the languages share.

  Programs, methods and pages are lists, and what is said about them speaks of the places in a list,
  of the pieces it is cut into, and of one entry that is changed.

  * `getElem?_middle`, `getElem?_lift`: entries of a list that is a part of another one.
  * `getElem?_cons_from`, `getElem?_append_from`: entries of a list that is counted from a place on.
  * `getElem?_of_drop`, `drop_of_cons`, `drop_of_append`: what begins at a place.
  * `cut_append`, `split_at`: lists that are cut.
  * `map_modify`, `modify_append_cons`: lists with one entry changed.
-/
namespace Esolang.List

variable {α β : Type}

/-! ## 1. Places -/

theorem getElem?_middle (front : List α) (x : α) (back : List α) :
    (front ++ x :: back)[front.length]? = some x := by
  rw [List.getElem?_append_right (Nat.le_refl _), Nat.sub_self]
  rfl

theorem getElem?_lift {l : List α} {k : Nat} {x : α} (h : l[k]? = some x) (front back : List α) :
    (front ++ (l ++ back))[front.length + k]? = some x := by
  have hlt : k < l.length := (List.getElem?_eq_some_iff.mp h).1
  rw [List.getElem?_append_right (Nat.le_add_right _ _), Nat.add_sub_cancel_left,
    List.getElem?_append_left hlt, h]

/-- Counted from `base`, an entry of a row is its first, or it is in the row behind that. -/
theorem getElem?_cons_from (x y : α) (xs : List α) (base p : Nat) :
    (base ≤ p ∧ (x :: xs)[p - base]? = some y) ↔
      (p = base ∧ y = x) ∨ (base + 1 ≤ p ∧ xs[p - (base + 1)]? = some y) := by
  by_cases h : p = base
  · subst h
    have hlt : ¬ p + 1 ≤ p := by omega
    simp [hlt, eq_comm]
  · by_cases hle : base + 1 ≤ p
    · have e : p - base = p - (base + 1) + 1 := by omega
      rw [e, List.getElem?_cons_succ]
      exact ⟨fun hx => .inr ⟨hle, hx.2⟩, fun hx => ⟨by omega, (hx.resolve_left fun c => h c.1).2⟩⟩
    · constructor
      · rintro ⟨hb, _⟩
        omega
      · rintro (⟨c, _⟩ | ⟨c, _⟩) <;> omega

/-- Counted from `base`, an entry of two rows is in the first or in the second. -/
theorem getElem?_append_from (y : α) (xs ys : List α) (base p : Nat) :
    (base ≤ p ∧ (xs ++ ys)[p - base]? = some y) ↔
      (base ≤ p ∧ xs[p - base]? = some y) ∨
        (base + xs.length ≤ p ∧ ys[p - (base + xs.length)]? = some y) := by
  by_cases hlt : p - base < xs.length
  · rw [List.getElem?_append_left hlt]
    constructor
    · exact .inl
    · rintro (h | ⟨h, h'⟩)
      · exact h
      · have := (List.getElem?_eq_some_iff.mp h').1
        omega
  · have e : p - base - xs.length = p - (base + xs.length) := by omega
    rw [List.getElem?_append_right (by omega), e]
    constructor
    · rintro ⟨hb, hy⟩
      exact .inr ⟨by omega, hy⟩
    · rintro (⟨_, h⟩ | ⟨h, hy⟩)
      · exact absurd (List.getElem?_eq_some_iff.mp h).1 hlt
      · exact ⟨by omega, hy⟩

theorem getElem?_of_drop {l back : List α} {base : Nat} {x : α} (h : l.drop base = x :: back) :
    l[base]? = some x := by
  rw [← List.head?_drop, h, List.head?_cons]

theorem drop_of_cons {l back : List α} {base : Nat} {x : α} (h : l.drop base = x :: back) :
    l.drop (base + 1) = back := by
  rw [← List.tail_drop, h, List.tail_cons]

theorem drop_of_append {l front back : List α} {base k : Nat} (h : l.drop base = front ++ back)
    (hk : front.length = k) : l.drop (base + k) = back := by
  rw [← List.drop_drop, h, List.drop_left' hk]

/-- The places that entries are numbered with increase. -/
theorem pairwise_zipIdx (l : List α) (first : Nat) :
    (l.zipIdx first).Pairwise fun a b => a.2 < b.2 := by
  have hsnd : ((l.zipIdx first).map Prod.snd).Pairwise (· < ·) := by
    rw [List.zipIdx_map_snd]
    exact List.pairwise_lt_range' 1
  exact List.pairwise_map.mp hsnd

/-! ## 2. Pieces -/

/-- A list is cut where a property ends. -/
theorem cut_append {p : α → Bool} {front rest : List α} (hfront : ∀ a ∈ front, p a = true)
    (hrest : ∀ a, rest.head? = some a → p a = false) :
    (front ++ rest).takeWhile p = front ∧ (front ++ rest).dropWhile p = rest := by
  rw [List.takeWhile_append_of_pos hfront, List.dropWhile_append_of_pos hfront]
  cases rest with
  | nil => exact ⟨List.append_nil front, rfl⟩
  | cons a rest =>
    have ha := hrest a rfl
    simp [ha]

theorem head_dropWhile {p : α → Bool} {l : List α} {a : α} (h : (l.dropWhile p).head? = some a) :
    p a = false := by
  have hhead := List.head?_dropWhile_not p l
  rw [h] at hhead
  exact hhead

/-- A row with two places that are told apart, cut at them. -/
theorem split_at {l : List α} {i j : Nat} {x y : α} (hlt : i < j) (hi : l[i]? = some x)
    (hj : l[j]? = some y) :
    l = l.take i ++ x :: ((l.take j).drop (i + 1) ++ y :: l.drop (j + 1)) := by
  obtain ⟨hjlt, rfl⟩ := List.getElem?_eq_some_iff.mp hj
  obtain ⟨hilt, rfl⟩ := List.getElem?_eq_some_iff.mp hi
  have hfront : l.take j = l.take i ++ l[i] :: (l.take j).drop (i + 1) := by
    have hlength : i < (l.take j).length := by
      rw [List.length_take]
      omega
    have htake : (l.take j).take i = l.take i := by
      rw [List.take_take, Nat.min_eq_left (Nat.le_of_lt hlt)]
    have hcons : (l.take j).drop i = l[i] :: (l.take j).drop (i + 1) := by
      rw [List.drop_eq_getElem_cons hlength, List.getElem_take]
    calc l.take j
        = (l.take j).take i ++ (l.take j).drop i := (List.take_append_drop i _).symm
      _ = l.take i ++ l[i] :: (l.take j).drop (i + 1) := by rw [htake, hcons]
  calc l
      = l.take j ++ l.drop j := (List.take_append_drop j l).symm
    _ = (l.take i ++ l[i] :: (l.take j).drop (i + 1)) ++ l[j] :: l.drop (j + 1) := by
      rw [← hfront, List.drop_eq_getElem_cons hjlt]
    _ = l.take i ++ l[i] :: ((l.take j).drop (i + 1) ++ l[j] :: l.drop (j + 1)) := by
      rw [List.append_assoc, List.cons_append]

/-! ## 3. One entry changed -/

/-- A change that can be made before or after all entries are turned into something else. -/
theorem map_modify (f : α → β) {change : α → α} (change' : β → β)
    (h : ∀ x, f (change x) = change' (f x)) (l : List α) (place : Nat) :
    (l.modify place change).map f = (l.map f).modify place change' := by
  induction l generalizing place with
  | nil => simp
  | cons x rest ih =>
    cases place with
    | zero => simp [h]
    | succ place => simp [ih]

/-- A change that cannot be seen. -/
theorem map_modify_of_eq {f : α → β} {change : α → α} (h : ∀ x, f (change x) = f x) (l : List α)
    (place : Nat) : (l.modify place change).map f = l.map f := by
  rw [map_modify f id h, List.modify_id]

theorem modify_append_cons (front : List α) (x : α) (back : List α) (change : α → α) :
    (front ++ x :: back).modify front.length change = front ++ change x :: back := by
  induction front with
  | nil => rfl
  | cons y ys ih => simp [ih]

/-! ## 4. Bounds of numbers -/

theorem foldl_max_le_iff {ns : List Nat} {start bound : Nat} :
    ns.foldl max start ≤ bound ↔ start ≤ bound ∧ ∀ n ∈ ns, n ≤ bound := by
  induction ns generalizing start with
  | nil => simp
  | cons n rest ih => rw [List.foldl_cons, ih, Nat.max_le, List.forall_mem_cons, and_assoc]

/-- All numbers are within a bound if those at all places are, with a zero where there is none. -/
theorem forall_mem_le_iff {ns : List Nat} {bound : Nat} :
    (∀ n ∈ ns, n ≤ bound) ↔ ∀ i : Nat, ns[i]?.getD 0 ≤ bound := by
  refine ⟨fun h i => ?_, fun h n hn => ?_⟩
  · cases hi : ns[i]? with
    | none => exact Nat.zero_le _
    | some n => exact h n (List.mem_of_getElem? hi)
  · obtain ⟨i, hi⟩ := List.getElem?_of_mem hn
    have hle := h i
    rw [hi] at hle
    exact hle

end Esolang.List
