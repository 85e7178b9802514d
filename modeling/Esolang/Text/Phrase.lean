/-
  File:      Esolang/Text/Phrase.lean
  Subject:   Phrases: readers that try every way to read the front of a text.

  A phrase gives all the ways in which it reads the front of a text, the preferred way first, each
  with the text that is left. Reading one phrase after another tries the second on whatever the
  first leaves, in the same order of preference, so the first way of a whole phrase is the one that
  backtracking finds.

  * `Phrase.word`, `Phrase.oneOf`: fixed words.
  * `Phrase.maybe`: something that may be left out, preferably not.
  * `Phrase.longest`, `Phrase.shortest`: runs of code points of one class.
  * `Phrase.finish`: the end of the text, or of its last line.
-/
import Esolang.Text.CodePoint

namespace Esolang

/-- A reader of the front of a text: the ways to read it, the preferred one first, each with what is
    left. -/
structure Phrase (α : Type) where
  /-- The ways to read a text. -/
  ways : Text → List (α × Text)

namespace Phrase

instance : Monad Phrase where
  pure a := ⟨fun t => [(a, t)]⟩
  bind p f := ⟨fun t => (p.ways t).flatMap fun (a, rest) => (f a).ways rest⟩

/-- The preferred way to read a text. -/
def read? {α : Type} (p : Phrase α) (t : Text) : Option α := (p.ways t).head?.map (·.1)

/-- A fixed word. -/
def word (w : String) : Phrase Unit :=
  ⟨fun t =>
    match Text.after? w t with
    | some rest => [((), rest)]
    | none => []⟩

/-- One of several words, preferably an earlier one. -/
def oneOf {α : Type} (choices : List (String × α)) : Phrase α :=
  ⟨fun t => choices.filterMap fun (w, a) => (Text.after? w t).map ((a, ·))⟩

/-- Something that may be left out, preferably not. -/
def maybe {α : Type} (p : Phrase α) : Phrase (Option α) :=
  ⟨fun t => (p.ways t).map (fun (a, rest) => (some a, rest)) ++ [(none, t)]⟩

/-- The longest run of code points of a class; it has at least one. This is the only way offered, so
    what follows must not be able to begin with a code point of the class. -/
def longest (ok : CodePoint → Bool) : Phrase Text :=
  ⟨fun t => if (t.takeWhile ok).isEmpty then [] else [(t.takeWhile ok, t.dropWhile ok)]⟩

/-- The ways to cut a text after a non-empty run of code points of a class, the shortest run
    first. -/
def runs (ok : CodePoint → Bool) : Text → List (Text × Text)
  | [] => []
  | c :: cs =>
    if ok c then ([c], cs) :: (runs ok cs).map fun (run, rest) => (c :: run, rest) else []

/-- A run of at least one code point of a class, preferably a short one. -/
def shortest (ok : CodePoint → Bool) : Phrase Text := ⟨runs ok⟩

/-- The end of the text, also before a line feed that ends it. -/
def finish : Phrase Unit :=
  ⟨fun t => if t = [] ∨ t = [Text.newline] then [((), t)] else []⟩

@[simp] theorem ways_pure {α : Type} (a : α) (t : Text) : (pure a : Phrase α).ways t = [(a, t)] :=
  rfl

@[simp] theorem ways_bind {α β : Type} (p : Phrase α) (f : α → Phrase β) (t : Text) :
    (p >>= f).ways t = (p.ways t).flatMap fun way => (f way.1).ways way.2 := rfl

end Phrase

end Esolang
