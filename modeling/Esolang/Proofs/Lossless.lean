/-
  File:      Esolang/Proofs/Lossless.lean
  Subject:   Step results travel as JSON without loss.

  * `Language.Reached`: the machines a host comes by; `Language.Yields`: the results of their steps.
  * `LanguageId.reached_orderly`: no table on their panels lists a key twice.
  * `serialize_json_iff`, `deserialize_json`: what becomes of a value that is written as JSON and
    read again.
  * `step_results_lossless`: the plain data of a result are read from its text and tell the result.
-/
import Esolang.Format
import Esolang.Proofs.Json.RoundTrip
import Esolang.Proofs.Value.StepResult

namespace Esolang

/-! ## 1. Results of the machines -/

namespace Language

variable {σ : Type} (L : Language σ)

/-- The machines a host comes by: it begins without a program, loads and clears, and takes steps. -/
inductive Reached : Machine σ → Prop
  | fresh (draws : Draws) : Reached ⟨L.fresh, draws⟩
  | load {m m' : Machine σ} {code input : Text} (h : Reached m) (hload : L.load m code input =
        .ok m') : Reached m'
  | clear {m : Machine σ} (h : Reached m) : Reached (L.clear m)
  | step {m : Machine σ} (h : Reached m) : Reached (L.step m).machine

variable {L}

/-- What holds without a program and of every program that was read, and is kept by every step,
    holds of every machine a host comes by. -/
theorem Reached.invariant {P : σ → Prop} (hfresh : P L.fresh)
    (hread : ∀ code start input, L.read code = .ok start → P (start input))
    (hadvance : ∀ m, P m.state → P (L.advance m).state.state) {m : Machine σ} (h : L.Reached m) :
    P m.state := by
  induction h with
  | fresh draws => exact hfresh
  | load h hload ih =>
    obtain ⟨start, hstart, rfl⟩ := L.read_of_load hload
    exact hread _ start _ hstart
  | clear h ih => exact hfresh
  | step h ih =>
    rw [L.step_machine]
    exact hadvance _ ih

theorem Reached.steps {m : Machine σ} (h : L.Reached m) (n : Nat) : L.Reached (L.steps n m).2 :=
  L.steps_invariant (fun _ hm => hm.step) h n

variable (L)

/-- A result of a step of such a machine, perhaps marked as the one execution pauses at. -/
def Yields (r : StepResult) : Prop :=
  ∃ m r₀, L.Reached m ∧ (L.step m).outcome = .ok r₀ ∧ (r = r₀ ∨ r = r₀.markPaused)

/-- A result shows the state its step left behind. -/
theorem display_of_step {m : Machine σ} {r : StepResult} (h : (L.step m).outcome = .ok r) :
    r.display = L.display (L.step m).machine.state := by
  unfold step at h ⊢
  generalize L.advance m = a at h ⊢
  obtain ⟨outcome, m'⟩ := a
  cases outcome with
  | ok p =>
    cases h
    rfl
  | error e =>
    cases e with
    | fault f =>
      cases h
      rfl
    | breakdown b => cases h

variable {L}

theorem Yields.display {r : StepResult} (h : L.Yields r) :
    ∃ m, L.Reached m ∧ r.display = L.display m.state := by
  obtain ⟨m, r₀, hm, hstep, hr⟩ := h
  have hdisplay : r.display = r₀.display := by
    rcases hr with rfl | rfl
    · rfl
    · rfl
  exact ⟨_, hm.step, hdisplay.trans (L.display_of_step hstep)⟩

end Language

namespace Brainfuck

/-- Every command that works puts a value into one cell. -/
theorem execute_tape {s s' : State} {here place : Nat} {i : Instruction} {output : Option Text}
    (h : execute s here i = .ok (s', place, output)) : ∃ cell v, s'.tape = s.tape.put cell v := by
  unfold execute at h
  split at h
  all_goals try split at h
  all_goals cases h
  all_goals exact ⟨_, _, rfl⟩

/-- A step lists no cell of the tape twice. -/
theorem advance_distinct {s : State} (hs : s.tape.Distinct) : (advance s).state.tape.Distinct := by
  unfold advance
  split
  · exact hs
  · split
    · exact hs
    · split
      · next h =>
        obtain ⟨cell, v, htape⟩ := execute_tape h
        show Table.Distinct _
        rw [htape]
        exact hs.put cell v
      · exact hs

theorem reached_distinct {m : Machine State} (h : language.Reached m) : m.state.tape.Distinct := by
  refine h.invariant (P := fun s => s.tape.Distinct) Table.distinct_nil
    (fun code start input hread => ?_) fun _ => advance_distinct
  simp only [language] at hread
  split at hread
  · cases hread
    exact Table.distinct_nil
  · cases hread

/-- The cells of a tape are listed by the same numbers on the panel. -/
theorem display_orderly {s : State} (h : s.tape.Distinct) : (display s).Orderly := by
  have hcells := h.map_keys fun (n n' : Nat) (hn : (n : Int) = n') => Int.ofNat_inj.mp hn
  unfold Table.keys at hcells
  show (List.map Prod.fst (List.map _ _)).Nodup
  rw [List.map_map] at hcells ⊢
  exact hcells

end Brainfuck

namespace Chef

theorem reached_orderly {m : Machine State} (h : language.Reached m) : m.state.Orderly := by
  refine h.invariant fresh_orderly (fun code start input hread => ?_) fun _ => advance_orderly
  simp only [language] at hread
  split at hread
  · next hparse =>
    cases hread
    exact start_orderly hparse input
  · cases hread

/-- The panel shows the kitchen of the innermost call, or the last one. -/
theorem display_orderly {s : State} (h : s.Orderly) : (display s).Orderly := by
  unfold display
  split
  · exact h.last
  · next hcalls => exact (h.cons hcalls).1

end Chef

namespace LanguageId

theorem display_language (id : LanguageId) (s : id.State) :
    (id.language.display s).language = id := by
  cases id with
  | chef =>
    show (Chef.display s).language = .chef
    unfold Chef.display
    split
    · rfl
    · rfl
  | befunge93 => rfl
  | brainfuck => rfl
  | deadfish => rfl

/-- **No table on a panel lists a key twice**: no cell of a tape, and no ingredient, bowl or dish of
    a kitchen. -/
theorem reached_orderly {id : LanguageId} {m : Machine id.State} (h : id.language.Reached m) :
    (id.language.display m.state).Orderly := by
  cases id with
  | chef => exact Chef.display_orderly (Chef.reached_orderly h)
  | befunge93 => trivial
  | brainfuck => exact Brainfuck.display_orderly (Brainfuck.reached_distinct h)
  | deadfish => trivial

end LanguageId

/-! ## 2. JSON -/

/-- A value is written as JSON if it has plain data that can be written. -/
theorem serialize_json_iff {v : Value} {pretty : Bool} {t : Text} :
    serialize v (some "json") pretty = .ok t ↔ ∃ p, v.plain = .ok p ∧
      Json.write pretty p = .ok t := by
  have hformat : Format.find? (some "json") = some .json := by decide
  unfold serialize
  rw [hformat]
  constructor
  · intro h
    obtain ⟨p, hp, h⟩ := Except.bind_ok h
    exact ⟨p, Except.mapError_ok.mp hp, Except.mapError_ok.mp h⟩
  · rintro ⟨p, hp, ht⟩
    rw [hp]
    exact Except.mapError_ok.mpr ht

theorem deserialize_json {t : Text} {p : Plain} (h : Json.read t = .ok p) :
    deserialize t (some "json") = .ok p := by
  have hformat : Format.find? (some "json") = some .json := by decide
  unfold deserialize
  rw [hformat]
  exact Except.mapError_ok.mpr h

/-- **Step results travel as JSON without loss.** For every language, every result of one of its
    steps and both layouts: the result can be written unless one of its integers is too long, and
    reading its text gives its plain data, in which no two entries share a key. These tell the
    result: another one of the same language whose plain data are the same has the same panel, the
    same next place, output, edits and pause, and its fault says the same; and this also if maps are
    compared key by key, without the order of their entries. -/
theorem step_results_lossless (id : LanguageId) {r : StepResult} (hr : id.language.Yields r)
    (pretty : Bool) :
    ((∃ t, serialize r.toValue (some "json") pretty = .ok t) ↔
      ∀ n ∈ r.integers, Decimal.isLong n = false) ∧
      (∀ t, serialize r.toValue (some "json") pretty = .ok t →
        ∃ p, r.plain = .ok p ∧ p.Tidy ∧ deserialize t (some "json") = .ok p) ∧
      ∀ r' p p', id.language.Yields r' → r.plain = .ok p → r'.plain = .ok p' →
        (p = p' → r.Agrees (· = ·) r') ∧ (p.Same p' → r.Agrees Display.Same r') := by
  obtain ⟨m, hm, hdisplay⟩ := hr.display
  have htidy : r.form.Tidy := by
    refine StepResult.form_tidy ?_
    rw [hdisplay]
    exact LanguageId.reached_orderly hm
  refine ⟨?_, fun t ht => ?_, fun r' p p' hr' hp hp' => ?_⟩
  · rw [← r.form_fits, ← Json.write_iff htidy pretty]
    constructor
    · rintro ⟨t, ht⟩
      obtain ⟨p, hp, ht⟩ := serialize_json_iff.mp ht
      obtain ⟨hkeys, rfl⟩ := StepResult.plain_iff.mp hp
      exact ⟨hkeys, t, ht⟩
    · rintro ⟨hkeys, t, ht⟩
      exact ⟨t, serialize_json_iff.mpr ⟨r.form, StepResult.plain_iff.mpr ⟨hkeys, rfl⟩, ht⟩⟩
  · obtain ⟨p, hp, ht⟩ := serialize_json_iff.mp ht
    obtain ⟨-, rfl⟩ := StepResult.plain_iff.mp hp
    exact ⟨_, hp, htidy, deserialize_json (Json.read_write ht htidy)⟩
  · obtain ⟨m', -, hdisplay'⟩ := hr'.display
    have hlanguage : r.display.language = r'.display.language := by
      rw [hdisplay, hdisplay', id.display_language, id.display_language]
    obtain ⟨-, rfl⟩ := StepResult.plain_iff.mp hp
    obtain ⟨-, rfl⟩ := StepResult.plain_iff.mp hp'
    exact ⟨StepResult.form_injective hlanguage, StepResult.form_same hlanguage⟩

namespace Chef

/-- A recipe that serves a quotation mark, a line break and half of a surrogate pair. -/
def seasoning : Text :=
  Text.join "\n" ["Seasoning.", "",
    "Ingredients.", "55296 ml salt", "10 ml pepper", "34 ml oil", "",
    "Method.",
    "Put salt into the mixing bowl. Put pepper into the mixing bowl. Put oil into the mixing bowl.",
    "Pour contents of the mixing bowl into the baking dish.", "",
    "Serves 1."]

/-- What is left in its kitchen. -/
def seasoned : Kitchen where
  ingredients :=
    [("salt", ⟨.liquid, some 55296⟩), ("pepper", ⟨.liquid, some 10⟩), ("oil", ⟨.liquid, some 34⟩)]
  bowls := [(1, [⟨34, .liquid⟩, ⟨10, .liquid⟩, ⟨55296, .liquid⟩])]
  dishes := [(1, [])]

/-- Its last result. -/
def seasonedResult : StepResult :=
  ⟨.chef [endName] seasoned, none, some [CodePoint.ofChar '"', Text.newline, ⟨55296, by decide⟩],
    none, false, none⟩

end Chef

theorem step_results_lossless_seasoning :
    LanguageId.chef.language.Yields Chef.seasonedResult ∧
      ∃ t p, serialize Chef.seasonedResult.toValue (some "json") true = .ok t ∧
        Chef.seasonedResult.plain = .ok p ∧ deserialize t (some "json") = .ok p := by
  have hrun : ((Chef.language.load ⟨.fresh, []⟩ Chef.seasoning []).toOption.bind fun m =>
      (Chef.language.step (Chef.language.steps 5 m).2).outcome.toOption) =
        some Chef.seasonedResult := by
    decide +kernel
  obtain ⟨m, hload, hlast⟩ := Option.bind_eq_some_iff.mp hrun
  have hm : Chef.language.Reached m := .load (.fresh []) (Except.eq_ok_of_toOption hload)
  have hyields : LanguageId.chef.language.Yields Chef.seasonedResult :=
    ⟨_, _, hm.steps 5, Except.eq_ok_of_toOption hlast, .inl rfl⟩
  obtain ⟨hwritten, hread, -⟩ := step_results_lossless .chef hyields true
  obtain ⟨t, ht⟩ := hwritten.mpr (by decide +kernel)
  obtain ⟨p, hp, -, hback⟩ := hread t ht
  exact ⟨hyields, t, p, ht, hp, hback⟩

end Esolang
