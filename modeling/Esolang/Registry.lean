/-
  File:      Esolang/Registry.lean
  Subject:   The languages, by name.

  Names are found regardless of case, and two languages have a second name.

  * `LanguageId`: the four languages; `LanguageId.State`, `LanguageId.language`: their machines.
  * `LanguageId.find?`: the language of a name.
-/
import Esolang.Befunge.Machine
import Esolang.Brainfuck.Machine
import Esolang.Chef.Machine
import Esolang.Deadfish

namespace Esolang

/-- The languages. -/
inductive LanguageId where
  | befunge93
  | brainfuck
  | chef
  | deadfish
deriving DecidableEq

namespace LanguageId

/-- The states of a language's machine. -/
def State : LanguageId → Type
  | .befunge93 => Befunge.State
  | .brainfuck => Brainfuck.State
  | .chef => Chef.State
  | .deadfish => Deadfish.State

/-- The language itself. -/
def language : (id : LanguageId) → Language id.State
  | .befunge93 => Befunge.language
  | .brainfuck => Brainfuck.language
  | .chef => Chef.language
  | .deadfish => Deadfish.language

/-- The name of a language. -/
def name (id : LanguageId) : Text := id.language.name

/-- All languages, in the order of their names. -/
def all : List LanguageId := [.befunge93, .brainfuck, .chef, .deadfish]

/-- The names a language goes by, besides its own. -/
def aliases : List (String × LanguageId) := [("befunge", .befunge93), ("bf", .brainfuck)]

/-- The language of a name. -/
def find? (given : Text) : Option LanguageId :=
  let key := given.lower
  match aliases.find? (Text.ofString ·.1 = key) with
  | some (_, id) => some id
  | none => all.find? (·.name = key)

/-- The names of all languages, separated by commas. -/
def listing : Text := Text.join ", " (all.map name)

/-- The words for a name no language goes by. -/
def unknownMessage (given : Text) : Text :=
  Text.ofString "Unknown language: " ++ given.quoted ++ Text.ofString " (available: " ++ listing
    ++ Text.ofString ")"

end LanguageId

end Esolang
