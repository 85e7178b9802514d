/-
  File:      Esolang/Proofs/Table.lean
  Subject:   What is in a table, and where it came from.

  * `Table.Distinct`: no key stands twice; `Distinct.put`: this stays so.
  * `Table.put_of_not_mem`: a new key goes to the end.
  * `Table.get?_map`: a table with other keys and values.
  * `Table.entry_of_mem_ofEntries`, `Table.ofEntries_distinct`: what a table of entries holds.
  * `Table.Collects`: a table of entries, of which a key's last one counts.
-/
import Esolang.Table

namespace Esolang.Table

/-! ## 1. Keys -/

/-- No key stands twice. -/
def Distinct {κ α : Type} (t : Table κ α) : Prop := t.keys.Nodup

theorem distinct_nil {κ α : Type} : Distinct ([] : Table κ α) := List.nodup_nil

variable {κ α : Type} [DecidableEq κ]

theorem Distinct.put {t : Table κ α} (h : t.Distinct) (k : κ) (v : α) : (t.put k v).Distinct := by
  unfold Distinct at h ⊢
  rw [keys_put]
  split
  · exact h
  · next hk =>
    refine List.nodup_append.mpr ⟨h, List.nodup_cons.mpr ⟨List.not_mem_nil, List.nodup_nil⟩,
      fun a ha b hb hab => ?_⟩
    rw [hab, List.mem_singleton.mp hb] at ha
    exact hk ha

theorem Distinct.map_keys {κ α ι : Type} {t : Table κ α} (h : t.Distinct) {g : κ → ι}
    (hg : ∀ k k', g k = g k' → k = k') : (t.keys.map g).Nodup :=
  List.pairwise_map.mpr (List.Pairwise.imp (fun hne he => hne (hg _ _ he)) h)

theorem Distinct.not_mem_of_append {κ α : Type} {t rest : Table κ α} {e : κ × α}
    (h : Distinct (t ++ e :: rest)) : e.1 ∉ t.keys := by
  unfold Distinct keys at h
  rw [List.map_append, List.nodup_append] at h
  intro hmem
  exact h.2.2 e.1 hmem e.1 List.mem_cons_self rfl

/-- A new key goes to the end. -/
theorem put_of_not_mem {t : Table κ α} {k : κ} (h : k ∉ t.keys) (v : α) :
    t.put k v = t ++ [(k, v)] := by
  induction t with
  | nil => rfl
  | cons e rest ih =>
    obtain ⟨k', v'⟩ := e
    obtain ⟨hne, hrest⟩ := not_or.mp (mt List.mem_cons.mpr h)
    have hput : put ((k', v') :: rest) k v = (k', v') :: put rest k v := if_neg (Ne.symm hne)
    rw [hput, ih hrest]
    rfl

/-- What is under a key of a table whose keys and values were replaced, if different keys stay
    different. -/
theorem get?_map {ι β : Type} [DecidableEq ι] {g : κ → ι} (hg : ∀ k k', g k = g k' → k = k')
    (f : α → β) (t : Table κ α) (k : κ) :
    get? (t.map fun e => (g e.1, f e.2)) (g k) = (t.get? k).map f := by
  induction t with
  | nil => rfl
  | cons e rest ih =>
    obtain ⟨k', v⟩ := e
    rw [List.map_cons, get?, get?]
    by_cases hk : k' = k
    · rw [if_pos hk, if_pos (congrArg g hk)]
      rfl
    · rw [if_neg hk, if_neg fun h => hk (hg _ _ h)]
      exact ih

theorem has_put {t : Table κ α} {j : κ} (k : κ) (v : α)
    (h : t.has j = true) : (t.put k v).has j = true := by
  unfold has at h ⊢
  by_cases e : j = k
  · rw [e, get?_put_self]
    rfl
  · rw [get?_put_of_ne t v e]
    exact h

/-! ## 2. Tables of entries -/

theorem mem_put {t : Table κ α} {k : κ} {v : α} {e : κ × α} (h : e ∈ put t k v) :
    e ∈ t ∨ e = (k, v) := by
  induction t with
  | nil =>
    rw [put, List.mem_singleton] at h
    exact .inr h
  | cons x rest ih =>
    rw [put] at h
    split at h
    · next hk =>
      rcases List.mem_cons.mp h with rfl | h
      · exact .inr (by rw [hk])
      · exact .inl (List.mem_cons_of_mem _ h)
    · rcases List.mem_cons.mp h with rfl | h
      · exact .inl List.mem_cons_self
      · exact (ih h).imp (List.mem_cons_of_mem _) id

/-- Whatever a table of entries holds is one of them. -/
theorem entry_of_mem_ofEntries {entries : List (κ × α)} {e : κ × α} (h : e ∈ ofEntries entries) :
    e ∈ entries := by
  -- the table grows while entries are put into it, and nothing else comes into it
  revert e
  refine List.foldlRecOn (motive := fun t => ∀ {e}, e ∈ t → e ∈ entries) entries _
    (fun he => absurd he List.not_mem_nil) fun t ht entry hentry e he => ?_
  rcases mem_put he with hold | rfl
  · exact ht hold
  · exact hentry

theorem mem_ofEntries {entries : List (κ × α)} {e : κ × α} (h : e ∈ ofEntries entries) :
    ∃ e' ∈ entries, e.2 = e'.2 :=
  ⟨e, entry_of_mem_ofEntries h, rfl⟩

theorem ofEntries_distinct (entries : List (κ × α)) : (ofEntries entries).Distinct :=
  List.foldlRecOn entries _ distinct_nil fun _ ht e _ => ht.put e.1 e.2

theorem mem_of_get? {t : Table κ α} {k : κ} {v : α} (h : get? t k = some v) : (k, v) ∈ t := by
  induction t with
  | nil => cases h
  | cons x rest ih =>
    obtain ⟨k', v'⟩ := x
    rw [get?] at h
    split at h
    · rename_i hk
      cases h
      rw [hk]
      exact List.mem_cons_self
    · exact List.mem_cons_of_mem _ (ih h)

/-- A table holds the given entries: its keys are theirs, in the order in which they first occur,
    and under every key is the last value it has. -/
structure Collects (t : Table κ α) (entries : List (κ × α)) : Prop where
  keys : t.keys = (entries.map Prod.fst).eraseDups
  values : ∀ k, t.get? k = ((entries.filter (·.1 = k)).getLast?).map Prod.snd

theorem Collects.put {t : Table κ α} {entries : List (κ × α)} (h : t.Collects entries) (k : κ)
    (v : α) :
    (t.put k v).Collects (entries ++ [(k, v)]) where
  keys := by
    rw [keys_put, h.keys, List.map_append, List.eraseDups_append]
    by_cases hk : k ∈ entries.map Prod.fst
    · rw [if_pos (List.mem_eraseDups.mpr hk)]
      simp [List.removeAll, hk]
    · rw [if_neg (mt List.mem_eraseDups.mp hk)]
      simp [List.removeAll, hk, List.eraseDups_cons]
  values j := by
    by_cases hj : j = k
    · subst hj
      simp
    · rw [get?_put_of_ne t v hj, h.values j]
      simp [Ne.symm hj]

theorem collects_foldl {entries : List (κ × α)} {t : Table κ α} {before : List (κ × α)}
    (h : t.Collects before) :
    (entries.foldl (fun t e => put t e.1 e.2) t).Collects (before ++ entries) := by
  induction entries generalizing t before with
  | nil =>
    rw [List.append_nil]
    exact h
  | cons e rest ih =>
    have hrest := ih (h.put e.1 e.2)
    rw [List.append_assoc, List.singleton_append] at hrest
    exact hrest

/-- **A table of entries holds them.** -/
theorem ofEntries_collects (entries : List (κ × α)) : (ofEntries entries).Collects entries := by
  have hempty : Collects ([] : Table κ α) [] := ⟨rfl, fun _ => rfl⟩
  exact collects_foldl hempty

theorem has_iff_mem_keys {t : Table κ α} {k : κ} : t.has k = true ↔ k ∈ t.keys := by
  induction t with
  | nil => simp [has, keys]
  | cons e rest ih =>
    obtain ⟨k', v⟩ := e
    unfold has keys at ih ⊢
    by_cases hk : k' = k
    · simp [get?, hk]
    · simp [get?, hk, ih, Ne.symm hk]

theorem Collects.has_iff {t : Table κ α} {entries : List (κ × α)} (h : t.Collects entries) {k : κ} :
    t.has k = true ↔ k ∈ entries.map Prod.fst := by
  rw [has_iff_mem_keys, h.keys, List.mem_eraseDups]

end Esolang.Table
