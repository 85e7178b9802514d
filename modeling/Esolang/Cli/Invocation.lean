/-
  File:      Esolang/Cli/Invocation.lean
  Subject:   What the command line tool is asked to do.

  * `Invocation`: a language, a file, an input, and whether to run or to debug.
  * `Invocation.ofArguments?`: the invocation that arguments spell.
  * `Content`, `lookUp`: what a path leads to.
  * `Environment`: the variables that the tool looks at.
-/
import Esolang.Cli.Transcript
import Esolang.Format
import Esolang.Number.Numeral
import Esolang.Registry

namespace Esolang.Cli

/-! ## 1. Arguments -/

/-- What to do with a program. -/
inductive Mode where
  /-- Run it, and then perhaps write the last result in some format. -/
  | batch (dump : Option Format)
  /-- Drive it from a prompt. -/
  | debug
deriving DecidableEq

/-- What the tool is asked to do. -/
structure Invocation where
  /-- The language, as given. -/
  language : Text
  /-- The path of the program. -/
  file : Text
  /-- The input of the program. -/
  input : Text
  /-- What to do with it. -/
  mode : Mode
deriving DecidableEq

/-- Flags begin with two dashes and may stand anywhere. -/
def isFlag (argument : Text) : Bool := argument.startsWith "--"

/-- The mode that flags ask for; a flag may be repeated, but no two may contradict. -/
def Mode.ofFlags? (flags : List Text) : Option Mode :=
  let debug := flags.contains "--debug"
  let json := flags.contains "--json"
  let yaml := flags.contains "--yaml"
  if flags.all fun f => f = "--debug" || f = "--json" || f = "--yaml" then
    match debug, json, yaml with
    | false, false, false => some (.batch none)
    | false, true, false => some (.batch (some .json))
    | false, false, true => some (.batch (some .yaml))
    | true, false, false => some .debug
    | _, _, _ => none
  else none

/-- The invocation that arguments spell. Arguments after the input are not looked at. -/
def Invocation.ofArguments? (arguments : List Text) : Option Invocation := do
  let mode ← Mode.ofFlags? (arguments.filter isFlag)
  match arguments.filter (!isFlag ·) with
  | language :: file :: more => some ⟨language, file, more.headD [], mode⟩
  | _ => none

/-- How the tool is used. -/
def usage : Transcript :=
  [errLine "usage: esorun.py LANGUAGE FILE [INPUT] [--debug | --json | --yaml]",
   errLine (Text.ofString "languages: " ++ LanguageId.listing)]

/-! ## 2. Files -/

/-- What a path leads to. -/
inductive Content where
  /-- Nothing. -/
  | missing
  /-- Something that cannot be read as a file. -/
  | obstructed (why : Obstacle)
  /-- A file with these bytes. -/
  | bytes (bs : List Nat)

/-- The parts of a path; those that stay where they are do not count. -/
def pathParts (path : Text) : List Text :=
  (Text.splitOn '/' path).filter fun part => !part.isEmpty && part ≠ "."

/-- A path without the parts that stay where they are. -/
def normalPath (path : Text) : Text :=
  let joined := Text.join "/" (pathParts path)
  if path.startsWith "/" then Text.ofString "/" ++ joined else if joined.isEmpty then "."
                                                               else joined

/-- What a path leads to from a folder that holds the given files, each by its path. -/
def lookUp (files : List (Text × List Nat)) (path : Text) : Content :=
  let parts := pathParts path
  if path.startsWith "/" && !parts.isEmpty then .missing
  else if parts.all (· = "..") then .obstructed .folder
  else
    match files.find? (pathParts ·.1 = parts) with
    | some (_, bs) => .bytes bs
    | none =>
      if files.any fun f => parts.isPrefixOf (pathParts f.1) then .obstructed .folder
      else if files.any fun f => (pathParts f.1).isPrefixOf parts then .obstructed .throughFile
      else .missing

/-! ## 3. Variables -/

/-- The variables that the tool looks at; one that is not set is empty. -/
structure Environment where
  /-- The pause between two steps. -/
  interval : Text
  /-- The most steps that a program may make. -/
  maxSteps : Text
  /-- Whether to show remarks. -/
  trace : Text

/-- Whether remarks are shown. -/
def Environment.traced (e : Environment) : Bool := !e.trace.isEmpty

/-- The integer in a variable, 0 when it holds none; one that cannot be read is complained about. -/
def integerIn (name : String) (content : Text) : Int × Transcript :=
  if content.isBlank then (0, [])
  else
    match Numeral.read content with
    | .ok n => (n, [])
    | .error _ =>
      (0, [errLine (Text.ofString "Warning: ignoring invalid " ++ Text.ofString name
        ++ Text.ofString "=" ++ content.quoted)])

/-- The complaints about the pause between two steps. How long it is changes no result, if it is a
    length of time at all: that its thousandth part is within the range of doubles is taken for
    granted, here and in all that is said about runs, for no pause could be made otherwise, and a
    run would fail where it has to make one. -/
def Environment.checkInterval (e : Environment) : Transcript :=
  (integerIn "ESO_INTERVAL" e.interval).2

/-- The most steps that a program may make, 0 for any number. -/
def Environment.stepLimit (e : Environment) : Int × Transcript :=
  integerIn "ESO_MAX_STEPS" e.maxSteps

end Esolang.Cli
