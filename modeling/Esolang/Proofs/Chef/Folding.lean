/-
  File:      Esolang/Proofs/Chef/Folding.lean
  Subject:   What is left of the calls when the innermost one is finished.

  A finished call is poured onto its caller, which may be finished as well and is then poured in
  turn. So the first bowls of a whole row of finished calls come to lie upon the first bowl of the
  call that made them, in the order in which the calls were made.

  * `Frame.Done`: nothing is left to execute; `completed_iff_done`: this is what the machine tests.
  * `foldCalls_pending`, `foldCalls_done`: a row of finished calls with and without an unfinished
    one below.
  * `poured`: first bowls in the order of their calls; `Frame.Refilled`: a call in which nothing but
    the first bowl has changed.
  * `folding_concatenates`: which calls are left, and what is in them.
-/
import Esolang.Proofs.Chef.Isolation

namespace Esolang.Chef

/-! ## 1. Finished calls -/

/-- Nothing is left to execute: the call stands behind its serving line, or behind its method if it
    has no serving line. -/
def Frame.Done (f : Frame) : Prop :=
  ∃ p, f.position = some p ∧
    (f.recipe.method.length < p ∨ p = f.recipe.method.length ∧ f.recipe.serving = none)

theorem completed_iff_done (f : Frame) : f.completed = true ↔ f.Done := by
  unfold Frame.completed Frame.Done
  cases f.position with
  | none => simp
  | some p =>
    rcases Nat.lt_trichotomy p f.recipe.method.length with hbefore | hend | hbehind
    · simp [hbefore, Nat.lt_asymm hbefore, Nat.ne_of_lt hbefore]
    · simp [hend]
    · simp [hbehind, Nat.lt_asymm hbehind]

theorem foldCalls_cons_kitchen (finished caller : Frame) (outer : List Frame) :
    (foldCalls finished (caller :: outer)).2.1 =
      if caller.completed then (foldCalls (caller.receive (finished.kitchen.bowl 1)) outer).2.1
      else none := by
  have hcompleted : (caller.receive (finished.kitchen.bowl 1)).completed = caller.completed := rfl
  rw [← hcompleted, foldCalls]
  show (if (caller.receive (finished.kitchen.bowl 1)).completed then _ else _ : _ × _ × _).2.1 = _
  split
  · rfl
  · rfl

/-- **Finished calls are poured onto the first one that is not finished.** -/
theorem foldCalls_pending {inner : List Frame} (hinner : ∀ f ∈ inner, f.completed = true)
    {caller : Frame} (hcaller : caller.completed = false) (below : List Frame) (finished : Frame) :
    (foldCalls finished (inner ++ caller :: below)).1 = caller.receive
      (returned (finished :: inner)) :: below ∧
      (foldCalls finished (inner ++ caller :: below)).2.1 = none := by
  induction inner generalizing finished with
  | nil =>
    have hitems : returned [finished] = finished.kitchen.bowl 1 := List.flatMap_singleton ..
    rw [List.nil_append, foldCalls_cons, foldCalls_cons_kitchen, hcaller, hitems]
    exact ⟨rfl, rfl⟩
  | cons next inner ih =>
    obtain ⟨hnext, hinner⟩ := List.forall_mem_cons.mp hinner
    rw [List.cons_append, foldCalls_cons, foldCalls_cons_kitchen, if_pos hnext,
      if_pos hnext, ← returned_receive]
    exact ih hinner _

/-! ## 2. Refilled bowls -/

/-- The first bowls of some calls, in the order of the calls, each from the bottom up. -/
def poured (calls : List Frame) : Stack := calls.flatMap fun f => (f.kitchen.bowl 1).reverse

/-- The first bowl holds the given items, from the bottom up, and all else in the kitchen is as it
    was. -/
structure Kitchen.Refilled (k : Kitchen) (items : Stack) (k' : Kitchen) : Prop where
  first : (k'.bowl 1).reverse = items
  others : ∀ id, id ≠ 1 → k'.bowls.get? id = k.bowls.get? id
  ingredients : k'.ingredients = k.ingredients
  dishes : k'.dishes = k.dishes

/-- The first bowl of a call holds the given items, from the bottom up, and all else in the call is
    as it was. -/
structure Frame.Refilled (f : Frame) (items : Stack) (f' : Frame) : Prop where
  kitchen : f.kitchen.Refilled items f'.kitchen
  recipe : f'.recipe = f.recipe
  position : f'.position = f.position
  calledAs : f'.calledAs = f.calledAs

/-- A pile of first bowls has the innermost call's on top. -/
theorem reverse_returned (calls : List Frame) :
    (returned calls).reverse = poured calls.reverse := by
  unfold returned poured
  rw [List.reverse_flatMap]
  rfl

theorem Kitchen.refilled_self (k : Kitchen) : k.Refilled (k.bowl 1).reverse k :=
  ⟨rfl, fun _ _ => rfl, rfl, rfl⟩

theorem Frame.refilled_receive (f : Frame) (items : Stack) :
    f.Refilled (items ++ f.kitchen.bowl 1).reverse (f.receive items) where
  kitchen := {
    first := congrArg List.reverse (bowl_receive f items)
    others := fun _ hid => Table.get?_put_of_ne _ _ hid
    ingredients := rfl
    dishes := rfl }
  recipe := rfl
  position := rfl
  calledAs := rfl

/-- What was in the first bowl in between does not count. -/
theorem Kitchen.Refilled.trans {k k' k'' : Kitchen} {items items' : Stack} (h : k.Refilled items k')
    (h' : k'.Refilled items' k'') : k.Refilled items' k'' where
  first := h'.first
  others := fun id hid => (h'.others id hid).trans (h.others id hid)
  ingredients := h'.ingredients.trans h.ingredients
  dishes := h'.dishes.trans h.dishes

/-- **When all calls are finished, the kitchen of the outermost one is left**, with all first bowls
    in its own. -/
theorem foldCalls_done {outer : List Frame} (houter : ∀ f ∈ outer, f.completed = true)
    (finished : Frame) :
    (foldCalls finished outer).1 = [] ∧
      ∃ k, (foldCalls finished outer).2.1 = some k ∧
        ∀ outermost, (finished :: outer).getLast? = some outermost →
        outermost.kitchen.Refilled (returned (finished :: outer)).reverse k := by
  induction outer generalizing finished with
  | nil =>
    have hitems : returned [finished] = finished.kitchen.bowl 1 := List.flatMap_singleton ..
    refine ⟨rfl, finished.kitchen, rfl, fun outermost hlast => ?_⟩
    cases hlast
    rw [hitems]
    exact finished.kitchen.refilled_self
  | cons caller outer ih =>
    obtain ⟨hcaller, houter⟩ := List.forall_mem_cons.mp houter
    obtain ⟨hnone, k, hk, hlast⟩ := ih houter (caller.receive (finished.kitchen.bowl 1))
    rw [foldCalls_cons, foldCalls_cons_kitchen, if_pos hcaller, if_pos hcaller, ← returned_receive]
    refine ⟨hnone, k, hk, fun outermost houtermost => ?_⟩
    rw [List.getLast?_cons_cons] at houtermost
    cases outer with
    | nil =>
      -- the caller is the outermost call, and has received something before it is left
      cases houtermost
      exact (caller.refilled_receive _).kitchen.trans (hlast _ rfl)
    | cons next outer =>
      rw [List.getLast?_cons_cons] at houtermost hlast
      exact hlast outermost houtermost

/-! ## 3. States -/

section State

variable {s : State} {top : Frame} {outer : List Frame}

theorem settle_finished (hcalls : s.calls = top :: outer) (htop : top.completed = true) :
    s.settle.1 = { s with
      calls := (foldCalls top outer).1
      lastKitchen := (foldCalls top outer).2.1.getD s.lastKitchen } := by
  unfold State.settle
  rw [hcalls]
  simp only [htop, if_true]

/-- The calls made before an unfinished one stay, this one is refilled, and the kitchen to be shown
    at the end is as it was. -/
theorem settle_pending {inner below : List Frame} {caller : Frame}
    (hcalls : s.calls = top :: (inner ++ caller :: below))
    (hfinished : ∀ f ∈ top :: inner, f.completed = true) (hcaller : caller.completed = false) :
    ∃ caller', s.settle.1 = { s with calls := caller' :: below } ∧
      caller.Refilled (poured (top :: (inner ++ [caller])).reverse) caller' := by
  obtain ⟨htop, hinner⟩ := List.forall_mem_cons.mp hfinished
  obtain ⟨hleft, hkitchen⟩ := foldCalls_pending hinner hcaller below top
  refine ⟨caller.receive (returned (top :: inner)), ?_, ?_⟩
  · rw [settle_finished hcalls htop, hleft, hkitchen]
    rfl
  · have hitems : returned (top :: (inner ++ [caller])) =
        returned (top :: inner) ++ caller.kitchen.bowl 1 := by
      simp only [returned, List.flatMap_cons, List.flatMap_append, List.flatMap_nil,
        List.append_nil, List.append_assoc]
    rw [← reverse_returned, hitems]
    exact caller.refilled_receive _

/-- When all calls are finished none is left, and the kitchen to be shown is that of the outermost
    one. -/
theorem settle_done (hcalls : s.calls = top :: outer)
    (hfinished : ∀ f ∈ top :: outer, f.completed = true) :
    ∃ k, s.settle.1 = { s with calls := [], lastKitchen := k } ∧
      ∀ outermost, (top :: outer).getLast? = some outermost →
        outermost.kitchen.Refilled (poured (top :: outer).reverse) k := by
  obtain ⟨htop, houter⟩ := List.forall_mem_cons.mp hfinished
  obtain ⟨hnone, k, hk, houtermost⟩ := foldCalls_done houter top
  refine ⟨k, ?_, ?_⟩
  · rw [settle_finished hcalls htop, hnone, hk]
    rfl
  · rw [← reverse_returned]
    exact houtermost

end State

/-- **Folding concatenates first bowls in the order of the calls.** The calls of a state are
    `earlier` and then `top`, the outermost one first, and `top` is finished. Let `k` be the
    greatest index of an earlier call that is not finished. Then the calls up to this one are left,
    and nothing has changed in them but the first bowl of call `k`, which holds its own items and
    then those of the first bowls of all later calls. If all calls are finished, none is left, and
    the kitchen to be shown is that of the outermost call, with the items of all first bowls in its
    own. -/
theorem folding_concatenates {s : State} {earlier : List Frame} {top : Frame}
    (hcalls : s.calls = (earlier ++ [top]).reverse) (htop : top.Done) :
    (∀ k caller, earlier[k]? = some caller → ¬ caller.Done →
      (∀ j f, k < j → earlier[j]? = some f → f.Done) →
      ∃ caller', s.settle.1 = { s with calls := (earlier.take k ++ [caller']).reverse } ∧
        caller.Refilled (poured (earlier.drop k ++ [top])) caller') ∧
    ((∀ f ∈ earlier, f.Done) →
      ∃ kitchen, s.settle.1 = { s with calls := [], lastKitchen := kitchen } ∧
        ∀ outermost, (earlier ++ [top])[0]? = some outermost →
          outermost.kitchen.Refilled (poured (earlier ++ [top])) kitchen) := by
  have hstack : s.calls = top :: earlier.reverse := by
    rw [hcalls, List.reverse_append]
    rfl
  rw [← completed_iff_done] at htop
  refine ⟨fun k caller hk hcaller hlater => ?_, fun hall => ?_⟩
  · obtain ⟨hlt, hcallerAt⟩ := List.getElem?_eq_some_iff.mp hk
    have hdrop : earlier.drop k = caller :: earlier.drop (k + 1) := by
      rw [List.drop_eq_getElem_cons hlt, hcallerAt]
    have hsplit : earlier.reverse =
        (earlier.drop (k + 1)).reverse ++ caller :: (earlier.take k).reverse :=
      calc earlier.reverse
          = (earlier.take k ++ caller :: earlier.drop (k + 1)).reverse := by
            rw [← hdrop, List.take_append_drop]
        _ = (earlier.drop (k + 1)).reverse ++ caller :: (earlier.take k).reverse := by
          rw [List.reverse_append, List.reverse_cons, List.append_assoc]
          rfl
    have hpending : caller.completed = false := by
      rw [← completed_iff_done] at hcaller
      exact Bool.not_eq_true _ ▸ hcaller
    have hfinished : ∀ f ∈ top :: (earlier.drop (k + 1)).reverse, f.completed = true := by
      refine List.forall_mem_cons.mpr ⟨htop, fun f hf => ?_⟩
      obtain ⟨j, hj⟩ := List.getElem?_of_mem (List.mem_reverse.mp hf)
      rw [List.getElem?_drop] at hj
      exact (completed_iff_done f).mpr (hlater _ f (by omega) hj)
    rw [hsplit] at hstack
    obtain ⟨caller', hsettle, hrefilled⟩ := settle_pending hstack hfinished hpending
    refine ⟨caller', ?_, ?_⟩
    · rw [hsettle, List.reverse_append]
      rfl
    · have horder : (top :: ((earlier.drop (k + 1)).reverse ++ [caller])).reverse =
          earlier.drop k ++ [top] := by
        rw [List.reverse_cons, List.reverse_append, List.reverse_reverse, hdrop]
        rfl
      rw [horder] at hrefilled
      exact hrefilled
  · have hfinished : ∀ f ∈ top :: earlier.reverse, f.completed = true := by
      refine List.forall_mem_cons.mpr ⟨htop, fun f hf => ?_⟩
      exact (completed_iff_done f).mpr (hall f (List.mem_reverse.mp hf))
    obtain ⟨kitchen, hsettle, hrefilled⟩ := settle_done hstack hfinished
    refine ⟨kitchen, hsettle, fun outermost houtermost => ?_⟩
    have horder : (top :: earlier.reverse).reverse = earlier ++ [top] := by
      rw [List.reverse_cons, List.reverse_reverse]
    have hlast : (top :: earlier.reverse).getLast? = some outermost := by
      rw [List.getLast?_eq_head?_reverse, horder, List.head?_eq_getElem?]
      exact houtermost
    rw [horder] at hrefilled
    exact hrefilled outermost hlast

/-- A call of a recipe with one statement, which stands at the given place, and has one item in its
    first bowl and one in its second. -/
def layer (name : Text) (serving : Option Serving) (place : Nat) (n : Int) : Frame where
  recipe := ⟨name, [], [⟨.serveWith "filling", .within 6 0 18⟩], serving⟩
  kitchen := ⟨[], [(2, [⟨-n, .dry⟩]), (1, [⟨n, .dry⟩])], [(1, [⟨n, .liquid⟩])]⟩
  position := some place
  calledAs := some name

/-- The outermost call is finished, the next one has still to be served, and the two it has made are
    finished, one of them behind its serving line. -/
theorem folding_concatenates_layers :
    let crust := layer "crust" none 1 1
    let cream := layer "cream" (some ⟨8, 1⟩) 1 2
    let sponge := layer "sponge" (some ⟨18, 1⟩) 2 3
    let filling := layer "filling" none 1 4
    let s : State := { State.fresh with calls := [filling, sponge, cream, crust] }
    crust.Done ∧ ¬ cream.Done ∧ sponge.Done ∧ filling.Done ∧
      ∃ cream', s.settle.1.calls = [cream', crust] ∧ cream'.position = some 1 ∧
        (cream'.kitchen.bowl 1).reverse = [⟨2, .dry⟩, ⟨3, .dry⟩, ⟨4, .dry⟩] ∧
        cream'.kitchen.bowls.get? 2 = some [⟨-2, .dry⟩] ∧
        cream'.kitchen.dishes = [(1, [⟨2, .liquid⟩])] := by
  intro crust cream sponge filling s
  have hcrust : crust.Done := (completed_iff_done _).mp rfl
  have hcream : ¬ cream.Done := by
    rw [← completed_iff_done]
    exact Bool.false_ne_true
  have hsponge : sponge.Done := (completed_iff_done _).mp rfl
  have hfilling : filling.Done := (completed_iff_done _).mp rfl
  have hcalls : s.calls = ([crust, cream, sponge] ++ [filling]).reverse := rfl
  have hlater : ∀ j f, 1 < j → [crust, cream, sponge][j]? = some f → f.Done := by
    intro j f hj hf
    obtain ⟨hlt, -⟩ := List.getElem?_eq_some_iff.mp hf
    obtain rfl : j = 2 := Nat.le_antisymm (Nat.le_of_lt_succ hlt) hj
    cases hf
    exact hsponge
  obtain ⟨cream', hsettle, hrefilled⟩ :=
    (folding_concatenates hcalls hfilling).1 1 cream rfl hcream hlater
  refine ⟨hcrust, hcream, hsponge, hfilling, cream', ?_, hrefilled.position,
    hrefilled.kitchen.first, hrefilled.kitchen.others 2 (by decide), hrefilled.kitchen.dishes⟩
  rw [hsettle]
  rfl

end Esolang.Chef
