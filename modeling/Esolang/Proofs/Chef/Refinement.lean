/-
  File:      Esolang/Proofs/Chef/Refinement.lean
  Subject:   The machine with places and calls does what the tree of a recipe says.

  The two sides meet where a block of the tree is laid out in the method of the innermost call. From
  the first place of the block, the machine comes to the place that belongs to the block's ending,
  and on the way it does to its bench what the evaluation of the block does.

  * `Stands`: a block is laid out in a method from some place on.
  * `Ending.place`: the place an ending leads to.
  * `Cooks.finishes`: an evaluation of a block can be put in front of a run that finishes.
  * `Finishes.cooks`: a run that finishes begins with an evaluation of the block it stands at.
  * `completes_iff_evaluates`: a program completes exactly when its main recipe can be evaluated.
-/
import Esolang.Proofs.Chef.Finishing

namespace Esolang.Chef

/-! ## 1. Blocks in a method -/

/-- A block is laid out in the method of a recipe from place `base` on, inside of a loop that ends
    at `closer`. -/
structure Stands (r : Recipe) (base : Nat) (closer : Option Nat) (block : Block) : Prop where
  nests : block.Nests closer.isSome
  holds : ∀ p op, block.Holds base closer p op → (r.method.map (·.operation))[p]? = some op

namespace Stands

variable {r : Recipe} {base : Nat} {closer : Option Nat} {rest : Block}

theorem plain {op : Operation} (h : Stands r base closer (.plain op rest)) :
    (r.method.map (·.operation))[base]? = some op ∧ Stands r (base + 1) closer rest :=
  ⟨h.holds base op (.inl ⟨rfl, rfl⟩), h.nests.2, fun p o ho => h.holds p o (.inr ho)⟩

theorem aside (h : Stands r base closer (.aside rest)) :
    ∃ c, closer = some c ∧ (r.method.map (·.operation))[base]? = some (.setAside (some c)) := by
  obtain ⟨c, rfl⟩ := Option.isSome_iff_exists.mp h.nests.1
  exact ⟨c, rfl, h.holds base _ (.inl ⟨rfl, rfl⟩)⟩

variable {verb i closing : Text} {body : Block} {count : Option Text}

theorem start (h : Stands r base closer (.loop verb i body closing count rest)) :
    (r.method.map (·.operation))[base]? = some (.loopStart verb i (some (base + 1 + body.size))) :=
  h.holds base _ (.inl ⟨rfl, rfl⟩)

theorem inside (h : Stands r base closer (.loop verb i body closing count rest)) :
    Stands r (base + 1) (some (base + 1 + body.size)) body :=
  ⟨h.nests.2.1, fun p o ho => h.holds p o (.inr (.inl ho))⟩

theorem stop (h : Stands r base closer (.loop verb i body closing count rest)) :
    (r.method.map (·.operation))[base + 1 + body.size]? =
      some (.loopEnd closing count (some base)) :=
  h.holds _ _ (.inr (.inr (.inl ⟨rfl, rfl⟩)))

theorem after (h : Stands r base closer (.loop verb i body closing count rest)) :
    Stands r (base + 1 + body.size + 1) closer rest :=
  ⟨h.nests.2.2, fun p o ho => h.holds p o (.inr (.inr (.inr ho)))⟩

end Stands

/-- The method of a sound recipe is the layout of its tree. -/
theorem Recipe.Sound.stands {book : Table Text Recipe} {r : Recipe} (h : r.Sound book) :
    ∃ body, Block.ofMethod r.method = some body ∧ body.Nests false ∧ Stands r 0 none body ∧
      body.size = r.method.length := by
  obtain ⟨b, hb, hlay⟩ := h.tree
  refine ⟨b, Block.ofMethod_lay hb hlay, hb, ⟨hb, fun p op hp => ?_⟩, ?_⟩
  · rw [hlay]
    exact (b.getElem?_lay_iff p op).mpr hp
  · rw [← b.length_lay 0 none, ← hlay, List.length_map]

/-- The ingredient a statement names has a name. -/
theorem Recipe.Sound.count_ne {book : Table Text Recipe} {r : Recipe} (h : r.Sound book) {p : Nat}
    {verb : Text} {count : Option Text} {opener : Option Nat}
    (hop : (r.method.map (·.operation))[p]? = some (.loopEnd verb count opener)) :
    count ≠ some [] := by
  obtain ⟨step, hstep, hop⟩ := getElem?_operation_iff.mp hop
  intro hcount
  have hnamed : step.operation.ingredient? = some [] := by
    rw [hop, hcount]
    rfl
  exact (h.declared step (List.mem_of_getElem? hstep) [] hnamed).1 rfl

/-- The place an ending of a block leads to. -/
def Ending.place (r : Recipe) (base : Nat) (closer : Option Nat) (block : Block) : Ending → Nat
  | .through => base + block.size
  | .aside => closer.getD 0 + 1
  | .refrigerated => r.method.length

theorem Ending.place_eq {r : Recipe} {base base' : Nat} {closer : Option Nat} {block block' : Block}
    (h : base + block.size = base' + block'.size) (e : Ending) :
    e.place r base closer block = e.place r base' closer block' := by
  cases e with
  | through => exact h
  | aside => rfl
  | refrigerated => rfl

theorem Ending.place_plain (r : Recipe) (base : Nat) (closer : Option Nat) (op : Operation)
    (rest : Block) (e : Ending) :
    e.place r base closer (.plain op rest) = e.place r (base + 1) closer rest :=
  e.place_eq (by rw [Block.size]; omega)

theorem Ending.place_loop (r : Recipe) (base : Nat) (closer : Option Nat) (verb i : Text)
    (body : Block) (closing : Text) (count : Option Text) (rest : Block) (e : Ending) :
    e.place r base closer (.loop verb i body closing count rest) =
      e.place r (base + 1 + body.size + 1) closer rest :=
  e.place_eq (by rw [Block.size]; omega)

/-- A block that is not left by a `Set aside` and makes up a whole method leads to the method's
    end. -/
theorem Ending.place_method {r : Recipe} {body : Block} (hsize : body.size = r.method.length)
    {e : Ending} (he : e ≠ .aside) : e.place r 0 none body = r.method.length := by
  cases e with
  | through => exact (Nat.zero_add _).trans hsize
  | aside => exact absurd rfl he
  | refrigerated => rfl

/-! ## 2. Loops -/

section Loops

variable {s : State} {f : Frame} {outer : List Frame} {base : Nat} {closer : Option Nat}
  {verb i : Text} {body : Block} {closing : Text} {count : Option Text} {rest : Block} {n : Nat}
  {b b' : Bench} {out : Text}
  {last : Machine State} (hst : Stands f.recipe base closer (.loop verb i body closing count rest))
include hst

/-- A loop whose ingredient is not zero is entered. -/
theorem finishes_enter {item : Item} (hi : b.kitchen.measured i = .ok item) (hne : item.value ≠ 0)
    (h : Finishes n (cooking s f outer (base + 1) b) out last) :
    Finishes (n + 1) (cooking s f outer base b) out last := by
  refine (finishes_start hst.start).mpr ⟨n, item, hi, ?_, rfl⟩
  rw [if_neg hne]
  exact h

variable {book : Table Text Recipe} (hf : f.recipe.Sound book)
include hf

/-- From the end of a loop, a run that finishes from the loop's beginning finishes as well. The
    machine does not go back when it can see that the loop is over, which only saves a step. -/
theorem finishes_again (hcount : b.countDown count = .ok b')
    (h : Finishes n (cooking s f outer base b') out last) :
    ∃ n', Finishes n' (cooking s f outer (base + 1 + body.size) b) out last := by
  obtain ⟨n', item, hi, hrest, -⟩ := (finishes_start hst.start).mp h
  by_cases hzero : item.value = 0
  · rw [if_pos hzero] at hrest
    refine ⟨_, (finishes_end hst.stop hst.start (hf.count_ne hst.stop)).mpr ⟨n', b', item, hcount,
      hi, ?_, rfl⟩⟩
    rw [if_pos hzero]
    exact hrest
  · refine ⟨_, (finishes_end hst.stop hst.start (hf.count_ne hst.stop)).mpr ⟨n, b', item, hcount,
      hi, ?_, rfl⟩⟩
    rw [if_neg hzero]
    exact h

/-- Conversely, a run that finishes from the end of a loop finishes from the loop's beginning, with
    no step more. -/
theorem finishes_before (h : Finishes n (cooking s f outer (base + 1 + body.size) b) out last) :
    ∃ b' n', b.countDown count = .ok b' ∧ Finishes n' (cooking s f outer base b') out last ∧
      n' ≤ n := by
  obtain ⟨n', b', item, hcount, hi, hrest, rfl⟩ :=
    (finishes_end hst.stop hst.start (hf.count_ne hst.stop)).mp h
  by_cases hzero : item.value = 0
  · rw [if_pos hzero] at hrest
    refine ⟨b', n' + 1, hcount, (finishes_start hst.start).mpr ⟨n', item, hi, ?_, rfl⟩,
      Nat.le_refl _⟩
    rw [if_pos hzero]
    exact hrest
  · rw [if_neg hzero] at hrest
    exact ⟨b', n', hcount, hrest, Nat.le_succ n'⟩

end Loops

/-! ## 3. From the tree to the machine -/

section Simulation

variable {s : State} (hbook : ∀ name r, s.auxiliaries.get? name = some r → r.Sound s.auxiliaries)
include hbook

/-- **An evaluation of a block can be put in front of a run**: when the run finishes from the place
    the block's ending leads to, it finishes from the block's first place as well. -/
theorem Cooks.finishes {block : Block} {b b' : Bench} {e : Ending} {out : Text}
    (h : Cooks s.auxiliaries block b e out b') {f : Frame} (hf : f.recipe.Sound s.auxiliaries)
    {outer : List Frame} {base : Nat} {closer : Option Nat}
    (hst : Stands f.recipe base closer block) {n : Nat} {out' : Text} {last : Machine State}
    (hrest : Finishes n (cooking s f outer (e.place f.recipe base closer block) b') out' last) :
    ∃ n', Finishes n' (cooking s f outer base b) (out ++ out') last := by
  induction h generalizing f outer base closer n out' with
  | done => exact ⟨n, hrest⟩
  | kitchen hflow hop _ ih =>
    obtain ⟨hat, hst'⟩ := hst.plain
    rw [Ending.place_plain] at hrest
    obtain ⟨n', hn'⟩ := ih hf hst' hrest
    exact ⟨_, (finishes_kitchen hat hflow).mpr ⟨n', _, hop, hn', rfl⟩⟩
  | @call callee r body rest b b₁ b₂ b' e₁ e out₁ out₂ out hr htree _ hend hserve _ ihbody ihrest =>
    obtain ⟨hat, hst'⟩ := hst.plain
    rw [Ending.place_plain] at hrest
    obtain ⟨nrest, hback⟩ := ihrest hf hst' hrest
    obtain ⟨body', htree', -, hstands, hsize⟩ := (hbook callee r hr).stands
    obtain rfl := Option.some.inj (htree.symm.trans htree')
    have hreturn : Finishes (nrest + r.servingLines) (cooking s ⟨r, b.kitchen, none, some callee⟩
        ((f.withKitchen b.kitchen).goTo (base + 1) :: outer) r.method.length b₁)
          (out₂ ++ (out ++ out')) last :=
      finishes_return.mpr ⟨nrest, out₂, b₂, _, hserve, hback, rfl, rfl⟩
    rw [← Ending.place_method hsize hend] at hreturn
    obtain ⟨n', hn'⟩ := ihbody (hbook callee r hr) hstands hreturn
    rw [List.append_assoc, List.append_assoc]
    exact ⟨_, (finishes_call hat hr).mpr ⟨n', hn', rfl⟩⟩
  | refrigerate hserve =>
    obtain ⟨hat, -⟩ := hst.plain
    exact ⟨_, (finishes_refrigerate hat).mpr ⟨n, _, _, _, hserve, hrest, rfl, rfl⟩⟩
  | aside =>
    obtain ⟨c, rfl, hat⟩ := hst.aside
    exact ⟨_, (finishes_aside hat).mpr ⟨n, hrest, rfl⟩⟩
  | skip hi hzero _ ih =>
    rw [Ending.place_loop] at hrest
    obtain ⟨n', hn'⟩ := ih hf hst.after hrest
    refine ⟨_, (finishes_start hst.start).mpr ⟨n', _, hi, ?_, rfl⟩⟩
    rw [if_pos hzero]
    exact hn'
  | again hi hne _ hcount _ ihbody ihloop =>
    obtain ⟨_, hloop⟩ := ihloop hf hst hrest
    obtain ⟨_, hend⟩ := finishes_again hst hf hcount hloop
    obtain ⟨n', hn'⟩ := ihbody hf hst.inside hend
    rw [List.append_assoc]
    exact ⟨_, finishes_enter hst hi hne hn'⟩
  | leave hi hne _ _ ihbody ihrest =>
    rw [Ending.place_loop] at hrest
    obtain ⟨_, hafter⟩ := ihrest hf hst.after hrest
    obtain ⟨n', hn'⟩ := ihbody hf hst.inside hafter
    rw [List.append_assoc]
    exact ⟨_, finishes_enter hst hi hne hn'⟩
  | refrigerateInside hi hne _ ihbody =>
    obtain ⟨n', hn'⟩ := ihbody hf hst.inside hrest
    exact ⟨_, finishes_enter hst hi hne hn'⟩

/-! ## 4. From the machine to the tree -/

omit hbook in
/-- A call at a `Serve with` names a recipe of the book. -/
theorem Recipe.Sound.callee {r : Recipe} (hr : r.Sound s.auxiliaries) {p : Nat} {callee : Text}
    (hat : (r.method.map (·.operation))[p]? = some (.serveWith callee)) :
    ∃ r', s.auxiliaries.get? callee = some r' := by
  obtain ⟨step, hstep, hop⟩ := getElem?_operation_iff.mp hat
  exact Option.isSome_iff_exists.mp (hr.known step (List.mem_of_getElem? hstep) callee hop)

/-- **A run that finishes begins with an evaluation of the block it stands at**, and goes on from
    the place the block's ending leads to. -/
theorem Finishes.cooks {block : Block} {f : Frame} (hf : f.recipe.Sound s.auxiliaries)
    {outer : List Frame} {base : Nat} {closer : Option Nat}
    (hst : Stands f.recipe base closer block) {b : Bench} {n : Nat} {out : Text}
    {last : Machine State} (h : Finishes n (cooking s f outer base b) out last) :
    ∃ e out₁ b' n' out₂, Cooks s.auxiliaries block b e out₁ b' ∧
      Finishes n' (cooking s f outer (e.place f.recipe base closer block) b') out₂ last ∧ n' ≤ n ∧
      out = out₁ ++ out₂ := by
  -- every block but the empty one takes a step, and what follows the step is a shorter run
  induction n using Nat.strongRecOn generalizing block f outer base closer b out with
  | ind n ih =>
    cases block with
    | done => exact ⟨.through, [], b, n, out, .done, h, Nat.le_refl n, rfl⟩
    | aside rest =>
      obtain ⟨c, rfl, hat⟩ := hst.aside
      obtain ⟨n', hn', rfl⟩ := (finishes_aside hat).mp h
      exact ⟨.aside, [], b, n', out, .aside, hn', Nat.le_succ n', rfl⟩
    | plain op rest =>
      obtain ⟨hat, hst'⟩ := hst.plain
      cases hflow : op.isFlow with
      | false =>
        obtain ⟨n', b', hop, hn', rfl⟩ := (finishes_kitchen hat hflow).mp h
        obtain ⟨e, out₁, b'', n'', out₂, hcooks, hfin, hle, hout⟩ :=
          ih n' (Nat.lt_succ_self n') hf hst' hn'
        rw [← Ending.place_plain] at hfin
        exact ⟨e, out₁, b'', n'', out₂, .kitchen hflow hop hcooks, hfin, Nat.le_succ_of_le hle,
          hout⟩
      | true =>
        cases op with
        | loopStart | loopEnd | setAside => exact nomatch hst.nests.1
        | refrigerate hours =>
          obtain ⟨n', t, b', out', hserve, hn', rfl, rfl⟩ := (finishes_refrigerate hat).mp h
          exact ⟨.refrigerated, t, b', n', out', .refrigerate hserve, hn', Nat.le_succ n', rfl⟩
        | serveWith callee =>
          obtain ⟨r, hr⟩ := hf.callee hat
          obtain ⟨n₁, hn₁, rfl⟩ := (finishes_call hat hr).mp h
          -- the called recipe is a block of its own, and it ends at the end of its method
          obtain ⟨body, htree, hnests, hstands, hsize⟩ := (hbook callee r hr).stands
          obtain ⟨e₁, out₁, b₁, n₂, _, hbody, hn₂, hle₂, rfl⟩ :=
            ih n₁ (Nat.lt_succ_self n₁) (hbook callee r hr) hstands hn₁
          have hend : e₁ ≠ .aside := hbody.ending_ne_aside hnests
          rw [Ending.place_method hsize hend] at hn₂
          obtain ⟨n₃, out₂, b₂, _, hserve, hn₃, rfl, rfl⟩ := finishes_return.mp hn₂
          obtain ⟨e, out₃, b₃, n₄, out₄, hrest, hn₄, hle₄, rfl⟩ := ih n₃ (by omega) hf hst' hn₃
          rw [← Ending.place_plain] at hn₄
          refine ⟨e, out₁ ++ out₂ ++ out₃, b₃, n₄, out₄, .call hr htree hbody hend hserve hrest,
            hn₄, by omega, ?_⟩
          simp only [List.append_assoc]
        | _ => cases hflow
    | loop verb i body closing count rest =>
      obtain ⟨n₁, item, hi, hn₁, rfl⟩ := (finishes_start hst.start).mp h
      by_cases hzero : item.value = 0
      · rw [if_pos hzero] at hn₁
        obtain ⟨e, out₁, b', n₂, out₂, hrest, hn₂, hle, hout⟩ :=
          ih n₁ (Nat.lt_succ_self n₁) hf hst.after hn₁
        rw [← Ending.place_loop] at hn₂
        exact ⟨e, out₁, b', n₂, out₂, .skip hi hzero hrest, hn₂, Nat.le_succ_of_le hle, hout⟩
      · rw [if_neg hzero] at hn₁
        obtain ⟨e₁, out₁, b₁, n₂, _, hbody, hn₂, hle₂, rfl⟩ :=
          ih n₁ (Nat.lt_succ_self n₁) hf hst.inside hn₁
        cases e₁ with
        | through =>
          obtain ⟨b₂, n₃, hcount, hn₃, hle₃⟩ := finishes_before hst hf hn₂
          obtain ⟨e, out₂, b', n₄, out₃, hloop, hn₄, hle₄, rfl⟩ := ih n₃ (by omega) hf hst hn₃
          refine ⟨e, out₁ ++ out₂, b', n₄, out₃, .again hi hzero hbody hcount hloop,
            hn₄, by omega, ?_⟩
          rw [List.append_assoc]
        | aside =>
          obtain ⟨e, out₂, b', n₃, out₃, hrest, hn₃, hle₃, rfl⟩ := ih n₂ (by omega) hf hst.after hn₂
          rw [← Ending.place_loop] at hn₃
          refine ⟨e, out₁ ++ out₂, b', n₃, out₃, .leave hi hzero hbody hrest, hn₃, by omega, ?_⟩
          rw [List.append_assoc]
        | refrigerated =>
          exact ⟨.refrigerated, out₁, b₁, n₂, _, .refrigerateInside hi hzero hbody,
            hn₂, by omega, rfl⟩

/-- A recipe with no caller: the run from its first statement finishes exactly when the recipe can
    be evaluated, and it leaves what the evaluation leaves. -/
theorem finishes_iff_evaluates {f : Frame} (hf : f.recipe.Sound s.auxiliaries) {b : Bench}
    {out : Text} {last : Machine State} :
    (∃ n, Finishes n (cooking s f [] 0 b) out last) ↔
      ∃ b', Evaluates s.auxiliaries f.recipe b out b' ∧
        last = ⟨⟨s.auxiliaries, [], b'.input, b'.kitchen⟩, b'.draws⟩ := by
  obtain ⟨body, htree, hnests, hst, hsize⟩ := hf.stands
  constructor
  · rintro ⟨n, h⟩
    obtain ⟨e, out₁, b₁, n', out₂, hcooks, hfin, -, rfl⟩ := Finishes.cooks hbook hf hst h
    have hend : e ≠ .aside := hcooks.ending_ne_aside hnests
    rw [Ending.place_method hsize hend] at hfin
    obtain ⟨b', hserve, hlast⟩ := finishes_last.mp ⟨n', hfin⟩
    exact ⟨b', ⟨body, e, out₁, b₁, out₂, htree, hcooks, hend, hserve, rfl⟩, hlast⟩
  · rintro ⟨b', ⟨body', e, out₁, b₁, out₂, htree', hcooks, hend, hserve, rfl⟩, hlast⟩
    obtain rfl := Option.some.inj (htree.symm.trans htree')
    obtain ⟨n, hfin⟩ := finishes_last.mpr ⟨b', hserve, hlast⟩
    rw [← Ending.place_method hsize hend] at hfin
    exact Cooks.finishes hbook hcooks hf hst hfin

end Simulation

/-! ## 5. Programs -/

/-- **A program completes exactly when its main recipe can be evaluated**: it is loaded, and its
    steps come to an end with some output, input, kitchen and draws if and only if the evaluation of
    the tree does. -/
theorem completes_iff_evaluates {code : Text} {program : Program} (h : parse code = .ok program)
    (before : Machine State) (input : Text) :
    ∃ m, language.load before code input = .ok m ∧ ∀ out k rest draws,
      (∃ last, language.Completes m out last ∧ last.state.lastKitchen = k ∧
          last.state.input = rest ∧ last.draws = draws) ↔
        Evaluates program.auxiliaries program.main
          ⟨.stocked program.main.ingredients, input, before.draws⟩ out ⟨k, rest, draws⟩ := by
  refine ⟨_, load_of_parse h before input, fun out k rest draws => ?_⟩
  have hsound := start_sound h input
  have hmain : program.main.Sound program.auxiliaries := parse_sound h _ List.mem_cons_self
  let main : Frame := ⟨program.main, .stocked program.main.ingredients, none, none⟩
  -- the first step only goes to the first statement
  have hact : act ⟨State.start program input, before.draws⟩ =
      .ok .none (cooking (State.start program input) main [] 0
        ⟨.stocked program.main.ingredients, input, before.draws⟩) := rfl
  constructor
  · rintro ⟨last, hrun, rfl, rfl, rfl⟩
    obtain ⟨n, out', hfin, rfl⟩ := (completes_iff hact).mp hrun
    obtain ⟨b', hev, rfl⟩ := (finishes_iff_evaluates hsound.book (f := main) hmain).mp ⟨n, hfin⟩
    exact hev
  · intro hev
    obtain ⟨n, hfin⟩ := (finishes_iff_evaluates hsound.book (f := main) hmain).mpr
      ⟨⟨k, rest, draws⟩, hev, rfl⟩
    exact ⟨_, (completes_iff hact).mpr ⟨n, out, hfin, rfl⟩, rfl, rfl, rfl⟩

theorem completes_iff_evaluates_nestedLoops :
    ∃ m last, language.load ⟨.fresh, []⟩ nestedLoops [] = .ok m ∧ language.Completes m "HHH" last ∧
      Evaluates nestedLoopsProgram.auxiliaries nestedLoopsProgram.main
        ⟨.stocked nestedLoopsProgram.main.ingredients, [], []⟩ "HHH"
        ⟨last.state.lastKitchen, last.state.input, last.draws⟩ := by
  obtain ⟨m, hm, hiff⟩ := completes_iff_evaluates parse_nestedLoops ⟨.fresh, []⟩ []
  obtain rfl := Except.ok.inj (hm.symm.trans (load_of_parse parse_nestedLoops ⟨.fresh, []⟩ []))
  have hrun : language.Completes ⟨State.start nestedLoopsProgram [], []⟩ "HHH"
      (language.run 17 ⟨State.start nestedLoopsProgram [], []⟩).machine :=
    ⟨17, by decide +kernel, by decide +kernel, rfl⟩
  exact ⟨_, _, hm, hrun, (hiff _ _ _ _).mp ⟨_, hrun, rfl, rfl, rfl⟩⟩

end Esolang.Chef
