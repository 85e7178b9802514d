/-
  File:      Esolang/Proofs/Phrase.lean
  Subject:   What phrases read, what they give, and which way they prefer.

  A phrase is a list of ways, and its first way is the one that counts. So there are three questions
  about a phrase: what all its ways have in common, which way comes first, and which texts it cannot
  read at all. The last one decides about the second: a run of code points that is to be short is as
  long as it has to be for the rest to be read.

  * `Phrase.mem_word`, `Phrase.mem_shortest` and so on: what a way has read, for each way to build a
    phrase.
  * `Phrase.Gives`, `Phrase.Finds`: every way gives something with a property, whatever the text is,
    or in a given one.
  * `Phrase.Prefers`: the first way; `Prefers.shortest`: where a short run ends.
  * `Phrase.Opens`, `Phrase.Stems`: how the texts begin that a phrase can read, up to the first
    digit of a number.
-/
import Esolang.Proofs.Lists
import Esolang.Text.Digit
import Esolang.Text.Phrase

namespace Esolang

namespace Phrase

variable {α β : Type}

/-! ## 1. Ways -/

/-- It does not matter how the parts of a phrase are taken together. -/
instance : LawfulMonad Phrase := by
  refine LawfulMonad.mk' Phrase (fun p => ?_) (fun a f => ?_) fun p f g => ?_
  · show Phrase.mk (fun t => (p.ways t).flatMap fun way => [way]) = p
    simp only [List.flatMap_singleton']
  · show Phrase.mk (fun t => [(a, t)].flatMap fun way => (f way.1).ways way.2) = f a
    simp only [List.flatMap_cons, List.flatMap_nil, List.append_nil]
  · show Phrase.mk _ = Phrase.mk _
    exact congrArg Phrase.mk (funext fun t => List.flatMap_assoc)

theorem mem_bind {p : Phrase α} {f : α → Phrase β} {t : Text} {way : β × Text} :
    way ∈ (p >>= f).ways t ↔ ∃ first ∈ p.ways t, way ∈ (f first.1).ways first.2 := by
  rw [ways_bind]
  exact List.mem_flatMap

theorem mem_word {w : String} {t : Text} {way : Unit × Text} (h : way ∈ (word w).ways t) :
    t = Text.ofString w ++ way.2 := by
  simp only [word] at h
  split at h
  · next rest hrest =>
    obtain rfl := List.mem_singleton.mp h
    exact Text.eq_append_of_after? hrest
  · cases h

theorem mem_oneOf {choices : List (String × α)} {t : Text} {way : α × Text}
    (h : way ∈ (oneOf choices).ways t) :
    ∃ w, (w, way.1) ∈ choices ∧ t = Text.ofString w ++ way.2 := by
  obtain ⟨⟨w, a⟩, hchoice, hway⟩ := List.mem_filterMap.mp h
  obtain ⟨rest, hrest, rfl⟩ := Option.map_eq_some_iff.mp hway
  exact ⟨w, hchoice, Text.eq_append_of_after? hrest⟩

theorem mem_maybe {p : Phrase α} {t : Text} {way : Option α × Text} (h : way ∈ (maybe p).ways t) :
    (∃ inner ∈ p.ways t, way = (some inner.1, inner.2)) ∨ way = (none, t) := by
  rcases List.mem_append.mp h with h | h
  · obtain ⟨inner, hinner, rfl⟩ := List.mem_map.mp h
    exact .inl ⟨inner, hinner, rfl⟩
  · exact .inr (List.mem_singleton.mp h)

theorem mem_longest {ok : CodePoint → Bool} {t : Text} {way : Text × Text}
    (h : way ∈ (longest ok).ways t) :
    t = way.1 ++ way.2 ∧ way.1 ≠ [] ∧ ∀ c ∈ way.1, ok c = true := by
  simp only [longest] at h
  split at h
  · cases h
  · next hne =>
    obtain rfl := List.mem_singleton.mp h
    exact ⟨List.takeWhile_append_dropWhile.symm, fun e => hne (List.isEmpty_iff.mpr e),
      List.all_eq_true.mp List.all_takeWhile⟩

theorem mem_shortest {ok : CodePoint → Bool} {t : Text} {way : Text × Text}
    (h : way ∈ (shortest ok).ways t) :
    t = way.1 ++ way.2 ∧ way.1 ≠ [] ∧ ∀ c ∈ way.1, ok c = true := by
  have hruns : way ∈ runs ok t := h
  clear h
  induction t generalizing way with
  | nil => cases hruns
  | cons c cs ih =>
    rw [runs] at hruns
    split at hruns
    · next hc =>
      rcases List.mem_cons.mp hruns with rfl | hruns
      · exact ⟨rfl, List.cons_ne_nil _ _, fun d hd => (List.mem_singleton.mp hd) ▸ hc⟩
      · obtain ⟨⟨run, rest⟩, hrun, rfl⟩ := List.mem_map.mp hruns
        obtain ⟨hcs, -, hall⟩ := ih hrun
        exact ⟨congrArg (c :: ·) hcs, List.cons_ne_nil _ _, List.forall_mem_cons.mpr ⟨hc, hall⟩⟩
    · cases hruns

theorem mem_finish {t : Text} {way : Unit × Text} (h : way ∈ finish.ways t) :
    (t = [] ∨ t = [Text.newline]) ∧ way.2 = t := by
  simp only [finish] at h
  split at h
  · next hend =>
    obtain rfl := List.mem_singleton.mp h
    exact ⟨hend, rfl⟩
  · cases h

/-- A text that gives a result was read in some way. -/
theorem mem_of_read? {p : Phrase α} {t : Text} {a : α} (h : p.read? t = some a) :
    ∃ way ∈ p.ways t, way.1 = a := by
  unfold Phrase.read? at h
  obtain ⟨way, hway, hgives⟩ := Option.map_eq_some_iff.mp h
  exact ⟨way, List.mem_of_head? hway, hgives⟩

/-! ## 2. What a phrase gives -/

/-- Every way in which a phrase reads a text gives something with a property. -/
def Gives (p : Phrase α) (P : α → Prop) : Prop :=
  ∀ (t : Text) (way : α × Text), way ∈ p.ways t → P way.1

namespace Gives

variable {P : α → Prop} {Q : β → Prop}

theorem pure {b : β} (h : Q b) : (Pure.pure b : Phrase β).Gives Q := by
  intro t way hw
  rw [ways_pure, List.mem_singleton] at hw
  rw [hw]
  exact h

theorem bind {p : Phrase α} {f : α → Phrase β} (hp : p.Gives P) (hf : ∀ a, P a → (f a).Gives Q) :
    (p >>= f).Gives Q := by
  intro t way hw
  obtain ⟨first, hfirst, hrest⟩ := mem_bind.mp hw
  exact hf first.1 (hp t first hfirst) first.2 way hrest

/-- What a part gives does not matter when the rest is right whatever it is. -/
theorem skip {p : Phrase α} {f : α → Phrase β} (hf : ∀ a, (f a).Gives Q) : (p >>= f).Gives Q :=
  bind (P := fun _ => True) (fun _ _ _ => trivial) fun a _ => hf a

theorem maybe {p : Phrase α} (hp : p.Gives P) :
    (Phrase.maybe p).Gives fun o => ∀ a, o = some a → P a := by
  intro t way hw a ha
  rcases mem_maybe hw with ⟨inner, hi, rfl⟩ | rfl
  · cases ha
    exact hp t inner hi
  · cases ha

theorem read? {p : Phrase α} (hp : p.Gives P) {t : Text} {a : α} (h : p.read? t = some a) :
    P a := by
  obtain ⟨way, hway, rfl⟩ := mem_of_read? h
  exact hp t way hway

end Gives

theorem longest_gives (ok : CodePoint → Bool) :
    (longest ok).Gives fun run => run ≠ [] ∧ ∀ c ∈ run, ok c = true :=
  fun _ _ hw => (mem_longest hw).2

theorem shortest_gives (ok : CodePoint → Bool) :
    (shortest ok).Gives fun run => run ≠ [] ∧ ∀ c ∈ run, ok c = true :=
  fun _ _ hw => (mem_shortest hw).2

/-- Reading on at an end of a text, a phrase gives something with a property and leaves an end of
    the text. -/
def Finds (p : Phrase α) (whole : Text) (P : α → Prop) : Prop :=
  ∀ t, t <:+ whole → ∀ way ∈ p.ways t, P way.1 ∧ way.2 <:+ whole

section Finds

variable {whole : Text} {P : α → Prop} {Q : β → Prop}

theorem Finds.pure {b : β} (h : Q b) : (Pure.pure b : Phrase β).Finds whole Q := by
  intro t ht way hw
  rw [ways_pure, List.mem_singleton] at hw
  rw [hw]
  exact ⟨h, ht⟩

theorem Finds.bind {p : Phrase α} {f : α → Phrase β} (hp : p.Finds whole P)
    (hf : ∀ a, P a → (f a).Finds whole Q) : (p >>= f).Finds whole Q := by
  intro t ht way hw
  obtain ⟨first, hfirst, hrest⟩ := mem_bind.mp hw
  obtain ⟨ha, hleft⟩ := hp t ht first hfirst
  exact hf first.1 ha first.2 hleft way hrest

theorem Finds.maybe {p : Phrase α} (hp : p.Finds whole P) :
    (Phrase.maybe p).Finds whole fun o => ∀ a, o = some a → P a := by
  intro t ht way hw
  rcases mem_maybe hw with ⟨inner, hinner, rfl⟩ | rfl
  · obtain ⟨ha, hleft⟩ := hp t ht inner hinner
    refine ⟨fun a e => ?_, hleft⟩
    cases e
    exact ha
  · refine ⟨fun a e => ?_, ht⟩
    cases e

theorem Finds.read? {p : Phrase α} (hp : p.Finds whole P) {a : α} (h : p.read? whole = some a) :
    P a := by
  obtain ⟨way, hway, rfl⟩ := mem_of_read? h
  exact (hp whole (List.suffix_refl _) way hway).1

theorem word_finds (w : String) : (word w).Finds whole fun _ => True :=
  fun _ ht _ hw => ⟨trivial, List.IsSuffix.trans ⟨_, (mem_word hw).symm⟩ ht⟩

theorem oneOf_finds (choices : List (String × α)) : (oneOf choices).Finds whole fun _ => True := by
  intro t ht way hw
  obtain ⟨w, -, hread⟩ := mem_oneOf hw
  exact ⟨trivial, List.IsSuffix.trans ⟨_, hread.symm⟩ ht⟩

/-- The longest run of a class stands in the text. -/
theorem longest_finds (ok : CodePoint → Bool) :
    (longest ok).Finds whole fun run => run <:+: whole ∧ ∀ c ∈ run, ok c = true := by
  intro t ht way hw
  obtain ⟨hread, -, hall⟩ := mem_longest hw
  have hrun : way.1 <:+: t := hread ▸ (List.prefix_append _ _).isInfix
  exact ⟨⟨hrun.trans ht.isInfix, hall⟩, List.IsSuffix.trans ⟨_, hread.symm⟩ ht⟩

theorem finish_finds : finish.Finds whole fun _ => True :=
  fun _ ht _ hw => ⟨trivial, (mem_finish hw).2 ▸ ht⟩

end Finds

/-! ## 3. How texts begin that can be read -/

/-- All texts that a phrase can read begin with one code point. -/
def Opens (p : Phrase α) (c : CodePoint) : Prop := ∀ t way, way ∈ p.ways t → t.head? = some c

namespace Opens

variable {c : CodePoint}

theorem word {w : String} (hw : (Text.ofString w).head? = some c) : (Phrase.word w).Opens c := by
  intro t way hway
  rw [mem_word hway, List.head?_append, hw]
  rfl

theorem bind {p : Phrase α} {f : α → Phrase β} (hp : p.Opens c) : (p >>= f).Opens c := by
  intro t way hway
  obtain ⟨first, hfirst, -⟩ := mem_bind.mp hway
  exact hp t first hfirst

theorem maybe_bind {p : Phrase α} {f : Option α → Phrase β} (hp : p.Opens c)
    (hf : (f none).Opens c) : (maybe p >>= f).Opens c := by
  intro t way hway
  obtain ⟨first, hfirst, hrest⟩ := mem_bind.mp hway
  rcases mem_maybe hfirst with ⟨inner, hinner, -⟩ | rfl
  · exact hp t inner hinner
  · exact hf t way hrest

theorem ways_eq_nil {p : Phrase α} (hp : p.Opens c) {t : Text} (ht : t.head? ≠ some c) :
    p.ways t = [] :=
  List.eq_nil_iff_forall_not_mem.mpr fun way hway => ht (hp t way hway)

end Opens

/-- A text up to its first digit. -/
def stem (t : Text) : Text := t.takeWhile fun c => !c.isDigit

theorem stem_append {front : Text} (h : ∀ c ∈ front, c.isDigit = false) (t : Text) :
    stem (front ++ t) = front ++ stem t :=
  List.takeWhile_append_of_pos fun c hc => by rw [h c hc]; rfl

theorem stem_of_digit {c : CodePoint} (h : c.isDigit = true) (t : Text) : stem (c :: t) = [] :=
  List.takeWhile_cons_of_neg (by rw [h]; exact Bool.false_ne_true)

/-- A fixed word without a digit in it. -/
def digitless (w : String) : Bool := (Text.ofString w).all fun c => !c.isDigit

theorem stem_word {w : String} (h : digitless w = true) (t : Text) :
    stem (Text.ofString w ++ t) = Text.ofString w ++ stem t :=
  stem_append (fun c hc => by simpa using List.all_eq_true.mp h c hc) t

/-- Up to their first digits, the texts that a phrase can read are among finitely many. -/
def Stems (p : Phrase α) (stems : List Text) : Prop := ∀ t way, way ∈ p.ways t → stem t ∈ stems

namespace Stems

variable {stems others : List Text}

theorem word {w : String} (hw : digitless w = true) {f : Unit → Phrase β}
    (hf : (f ()).Stems stems) : (Phrase.word w >>= f).Stems (stems.map (Text.ofString w ++ ·)) := by
  intro t way hway
  obtain ⟨first, hfirst, hrest⟩ := mem_bind.mp hway
  rw [mem_word hfirst, stem_word hw]
  exact List.mem_map_of_mem (hf first.2 way hrest)

theorem oneOf {choices : List (String × α)} (hw : ∀ choice ∈ choices, digitless choice.1 = true)
    {f : α → Phrase β} (hf : ∀ a, (f a).Stems stems) :
    (Phrase.oneOf choices >>= f).Stems
      (choices.flatMap fun choice => stems.map (Text.ofString choice.1 ++ ·)) := by
  intro t way hway
  obtain ⟨first, hfirst, hrest⟩ := mem_bind.mp hway
  obtain ⟨w, hchoice, rfl⟩ := mem_oneOf hfirst
  rw [stem_word (hw _ hchoice)]
  exact List.mem_flatMap.mpr ⟨(w, first.1), hchoice,
    List.mem_map_of_mem (hf first.1 first.2 way hrest)⟩

theorem maybe {p : Phrase α} {f : Option α → Phrase β}
    (hsome : (p >>= fun a => f (some a)).Stems stems) (hnone : (f none).Stems others) :
    (Phrase.maybe p >>= f).Stems (stems ++ others) := by
  intro t way hway
  obtain ⟨first, hfirst, hrest⟩ := mem_bind.mp hway
  rcases mem_maybe hfirst with ⟨inner, hinner, rfl⟩ | rfl
  · exact List.mem_append_left _ (hsome t way (mem_bind.mpr ⟨inner, hinner, hrest⟩))
  · exact List.mem_append_right _ (hnone t way hrest)

/-- A number has no stem. -/
theorem number {f : Text → Phrase β} : (longest CodePoint.isDigit >>= f).Stems [[]] := by
  intro t way hway
  obtain ⟨first, hfirst, -⟩ := mem_bind.mp hway
  obtain ⟨rfl, hne, hall⟩ := mem_longest hfirst
  obtain ⟨c, cs, hrun⟩ := List.exists_cons_of_ne_nil hne
  rw [hrun] at hall
  rw [hrun, List.cons_append, stem_of_digit (hall c List.mem_cons_self)]
  exact List.mem_singleton.mpr rfl

theorem finish {f : Unit → Phrase β} : (Phrase.finish >>= f).Stems [[], [Text.newline]] := by
  intro t way hway
  obtain ⟨first, hfirst, -⟩ := mem_bind.mp hway
  rcases (mem_finish hfirst).1 with rfl | rfl
  · exact List.mem_cons_self
  · exact List.mem_cons_of_mem _ List.mem_cons_self

/-- Nothing can be put in front of a text that a phrase is to read, unless there is another stem
    with the same end. -/
theorem ways_eq_nil {p : Phrase α} (hp : p.Stems stems) {back rest : Text} (hne : back ≠ [])
    (hback : ∀ c ∈ back, c.isDigit = false)
    (hstems : ∀ s ∈ stems, stem rest <:+ s → s = stem rest) : p.ways (back ++ rest) = [] := by
  refine List.eq_nil_iff_forall_not_mem.mpr fun way hway => hne ?_
  have hmem := hp _ way hway
  rw [stem_append hback] at hmem
  exact List.append_left_eq_self.mp (hstems _ hmem (List.suffix_append _ _))

end Stems

/-! ## 4. The preferred way -/

/-- The preferred way to read the text `t` gives `a` and leaves `rest`. -/
def Prefers (p : Phrase α) (t : Text) (a : α) (rest : Text) : Prop :=
  ∃ more, p.ways t = (a, rest) :: more

theorem Prefers.read? {p : Phrase α} {t rest : Text} {a : α} (h : p.Prefers t a rest) :
    p.read? t = some a := by
  obtain ⟨more, h⟩ := h
  rw [Phrase.read?, h]
  rfl

theorem Prefers.bind {p : Phrase α} {f : α → Phrase β} {t rest rest' : Text} {a : α} {b : β}
    (hp : p.Prefers t a rest) (hf : (f a).Prefers rest b rest') : (p >>= f).Prefers t b rest' := by
  obtain ⟨more, hp⟩ := hp
  obtain ⟨more', hf⟩ := hf
  refine ⟨more' ++ more.flatMap fun way => (f way.1).ways way.2, ?_⟩
  rw [ways_bind, hp, List.flatMap_cons, hf, List.cons_append]

theorem prefers_pure (a : α) (t : Text) : (Pure.pure a : Phrase α).Prefers t a t := ⟨[], rfl⟩

theorem prefers_word (w : String) (rest : Text) :
    (word w).Prefers (Text.ofString w ++ rest) () rest :=
  ⟨[], by rw [word]; simp only [Text.after?_append]⟩

theorem prefers_longest {ok : CodePoint → Bool} {run rest : Text} (hne : run ≠ [])
    (hrun : ∀ c ∈ run, ok c = true) (hrest : ∀ c, rest.head? = some c → ok c = false) :
    (longest ok).Prefers (run ++ rest) run rest := by
  obtain ⟨htake, hdrop⟩ := List.cut_append hrun hrest
  have hfull : run.isEmpty = false := List.isEmpty_eq_false_iff.mpr hne
  exact ⟨[], by simp only [longest, htake, hdrop, hfull, Bool.false_eq_true, if_false]⟩

/-- A run up to the end of the text. -/
theorem prefers_longest_end {ok : CodePoint → Bool} {run : Text} (hne : run ≠ [])
    (hrun : ∀ c ∈ run, ok c = true) : (longest ok).Prefers run run [] := by
  have hrest : ∀ c, ([] : Text).head? = some c → ok c = false := by
    intro c hc
    cases hc
  have hlongest := prefers_longest hne hrun hrest
  rwa [List.append_nil] at hlongest

theorem Prefers.maybe {p : Phrase α} {t rest : Text} {a : α} (h : p.Prefers t a rest) :
    (Phrase.maybe p).Prefers t (some a) rest := by
  obtain ⟨more, h⟩ := h
  exact ⟨_, by rw [Phrase.maybe]; simp only [h]; rfl⟩

/-- Something is not left out when the text can be read with it. -/
theorem Prefers.leaveIn {p : Phrase α} {f : Option α → Phrase β} {t rest : Text} {b : β}
    (h : (p >>= fun a => f (some a)).Prefers t b rest) :
    (Phrase.maybe p >>= f).Prefers t b rest := by
  obtain ⟨more, h⟩ := h
  refine ⟨more ++ (f none).ways t, ?_⟩
  have hwith : ((p.ways t).map fun way : α × Text => (some way.1, way.2)).flatMap
      (fun way : Option α × Text => (f way.1).ways way.2) = (b, rest) :: more := by
    rw [List.flatMap_map]
    exact h
  show ((p.ways t).map (fun way : α × Text => (some way.1, way.2)) ++ [(none, t)]).flatMap _ = _
  rw [List.flatMap_append, hwith, List.flatMap_cons, List.flatMap_nil, List.append_nil,
    List.cons_append]

/-- Something is left out when the text could not be read with it. -/
theorem Prefers.leaveOut {p : Phrase α} {f : Option α → Phrase β} {t rest : Text} {b : β}
    (hsome : (p >>= fun a => f (some a)).ways t = []) (hnone : (f none).Prefers t b rest) :
    (Phrase.maybe p >>= f).Prefers t b rest := by
  obtain ⟨more, hnone⟩ := hnone
  refine ⟨more, ?_⟩
  have hwith : ((p.ways t).map fun way : α × Text => (some way.1, way.2)).flatMap
      (fun way : Option α × Text => (f way.1).ways way.2) = [] := by
    rw [List.flatMap_map]
    exact hsome
  show ((p.ways t).map (fun way : α × Text => (some way.1, way.2)) ++ [(none, t)]).flatMap _ = _
  rw [List.flatMap_append, hwith, List.flatMap_cons, List.flatMap_nil, List.append_nil,
    List.nil_append]
  exact hnone

theorem prefers_finish : finish.Prefers [] () [] := ⟨[], rfl⟩

theorem prefers_end (a : α) : (finish >>= fun _ => Pure.pure a : Phrase α).Prefers [] a [] :=
  ⟨[], rfl⟩

/-- **A short run ends where the rest can be read for the first time.** -/
theorem Prefers.shortest {ok : CodePoint → Bool} {f : Text → Phrase β} {run rest rest' : Text}
    {b : β} (hne : run ≠ []) (hrun : ∀ c ∈ run, ok c = true)
    (hshort : ∀ front back, front ≠ [] → back ≠ [] → run = front ++ back →
    (f front).ways (back ++ rest) = []) (hf : (f run).Prefers rest b rest') :
    (Phrase.shortest ok >>= f).Prefers (run ++ rest) b rest' := by
  -- one code point after another is taken into the run, and the rest is read with all of them
  induction run generalizing f with
  | nil => exact absurd rfl hne
  | cons c cs ih =>
    obtain ⟨hc, hcs⟩ := List.forall_mem_cons.mp hrun
    have hways : (Phrase.shortest ok >>= f).ways (c :: cs ++ rest) =
        (f [c]).ways (cs ++ rest) ++ (Phrase.shortest ok >>= fun run => f (c :: run)).ways (cs ++
          rest) := by
      rw [ways_bind, ways_bind]
      show (runs ok (c :: (cs ++ rest))).flatMap _ = _
      rw [runs, if_pos hc, List.flatMap_cons, List.flatMap_map]
      rfl
    unfold Prefers
    rw [hways]
    cases cs with
    | nil =>
      obtain ⟨more, hf⟩ := hf
      exact ⟨_, by rw [List.nil_append, hf, List.cons_append]⟩
    | cons d ds =>
      have hfirst : (f [c]).ways (d :: ds ++ rest) = [] :=
        hshort [c] _ (List.cons_ne_nil _ _) (List.cons_ne_nil _ _) rfl
      rw [hfirst, List.nil_append]
      refine ih (f := fun run => f (c :: run)) (List.cons_ne_nil _ _) hcs
        (fun front back _ hback hsplit => ?_) hf
      exact hshort (c :: front) back (List.cons_ne_nil _ _) hback (congrArg (c :: ·) hsplit)

end Phrase

end Esolang
