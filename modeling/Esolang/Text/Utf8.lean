/-
  File:      Esolang/Text/Utf8.lean
  Subject:   Texts from UTF-8 bytes, strictly or with replacements.

  The first flaw in a sequence of bytes ends strict decoding. Lenient decoding puts one replacement
  character for every maximal part that cannot begin a character.

  * `Utf8.front`: the character at the front of some bytes, or what is wrong there.
  * `Utf8.decode`, `Utf8.decodeLeniently`: whole sequences.
-/
import Esolang.Number.Decimal

namespace Esolang.Utf8

/-! ## 1. One character -/

/-- What can be wrong with a byte sequence. -/
inductive Flaw where
  /-- A byte that begins no character. -/
  | start
  /-- A byte that does not continue the character begun. -/
  | continuation
  /-- The bytes end within a character. -/
  | ended
deriving DecidableEq

/-- The words for a flaw. -/
def Flaw.message : Flaw → Text
  | .start => "invalid start byte"
  | .continuation => "invalid continuation byte"
  | .ended => "unexpected end of data"

/-- What stands at the front of some bytes. The size is that of the bytes it takes, less one. -/
inductive Front where
  /-- A character. -/
  | char (c : CodePoint) (more : Nat)
  /-- Something that is none. -/
  | flaw (why : Flaw) (more : Nat)

/-- Whether a byte continues a character. -/
def isTail (b : Nat) : Bool := 0x80 ≤ b && b ≤ 0xBF

/-- A character of the given number. -/
def charFront (n more : Nat) : Front :=
  match CodePoint.ofNat? n with
  | some c => .char c more
  | none => .flaw .start more

/-- The front of bytes that begin with the first byte of a two byte character. -/
def front2 (b1 : Nat) : List Nat → Front
  | [] => .flaw .ended 0
  | b2 :: _ =>
    if isTail b2 then charFront ((b1 - 0xC0) * 64 + (b2 - 0x80)) 1 else .flaw .continuation 0

/-- Whether a byte can be the second of a three byte character. -/
def isSecondOf3 (b1 b2 : Nat) : Bool :=
  isTail b2 && (if b1 = 0xE0 then 0xA0 ≤ b2 else if b1 = 0xED then b2 < 0xA0 else true)

/-- The front of bytes that begin with the first byte of a three byte character. -/
def front3 (b1 : Nat) : List Nat → Front
  | [] => .flaw .ended 0
  | b2 :: rest =>
    if isSecondOf3 b1 b2 then
      match rest with
      | [] => .flaw .ended 1
      | b3 :: _ =>
        if isTail b3 then charFront (((b1 - 0xE0) * 64 + (b2 - 0x80)) * 64 + (b3 - 0x80)) 2
        else .flaw .continuation 1
    else .flaw .continuation 0

/-- Whether a byte can be the second of a four byte character. -/
def isSecondOf4 (b1 b2 : Nat) : Bool :=
  isTail b2 && (if b1 = 0xF0 then 0x90 ≤ b2 else if b1 = 0xF4 then b2 < 0x90 else true)

/-- The front of bytes that begin with the first byte of a four byte character. -/
def front4 (b1 : Nat) : List Nat → Front
  | [] => .flaw .ended 0
  | b2 :: rest =>
    if isSecondOf4 b1 b2 then
      match rest with
      | [] => .flaw .ended 1
      | b3 :: rest =>
        if isTail b3 then
          match rest with
          | [] => .flaw .ended 2
          | b4 :: _ =>
            if isTail b4 then
              charFront ((((b1 - 0xF0) * 64 + (b2 - 0x80)) * 64 + (b3 - 0x80)) * 64 + (b4 - 0x80)) 3
            else .flaw .continuation 2
        else .flaw .continuation 1
    else .flaw .continuation 0

/-- What stands at the front of some bytes, of which the first is given apart. -/
def front (b1 : Nat) (rest : List Nat) : Front :=
  if b1 < 0x80 then charFront b1 0
  else if b1 < 0xC2 then .flaw .start 0
  else if b1 < 0xE0 then front2 b1 rest
  else if b1 < 0xF0 then front3 b1 rest
  else if b1 < 0xF5 then front4 b1 rest
  else .flaw .start 0

/-! ## 2. Whole sequences -/

/-- A flaw in a sequence of bytes: what it is, where it begins, and the bytes it covers. -/
structure DecodeError where
  /-- What is wrong. -/
  flaw : Flaw
  /-- The index of the first byte. -/
  position : Nat
  /-- The bytes. -/
  bytes : List Nat
deriving DecidableEq

/-- The words for a decoding error. -/
def DecodeError.message (e : DecodeError) : Text :=
  let place : Text :=
    match e.bytes with
    | [b] =>
      Text.ofString "byte 0x" ++ Decimal.hex 2 b ++ Text.ofString " in position " ++
        Decimal.ofNat e.position
    | bs =>
      Text.ofString "bytes in position " ++ Decimal.ofNat e.position ++ Text.ofString "-"
        ++ Decimal.ofNat (e.position + bs.length - 1)
  Text.ofString "'utf-8' codec can't decode " ++ place ++ Text.ofString ": " ++ e.flaw.message

/-- The characters of some bytes, or the first flaw; `position` is the index of the first byte. -/
def decodeFrom (position : Nat) : List Nat → Except DecodeError Text
  | [] => .ok []
  | b :: rest =>
    match front b rest with
    | .char c more => (decodeFrom (position + more + 1) (rest.drop more)).map (c :: ·)
    | .flaw why more => .error ⟨why, position, b :: rest.take more⟩
termination_by bs => bs.length

/-- The text of some bytes, or the first flaw in them. -/
def decode (bytes : List Nat) : Except DecodeError Text := decodeFrom 0 bytes

/-- The text of some bytes, with a replacement character for every flaw. -/
def decodeLeniently : List Nat → Text
  | [] => []
  | b :: rest =>
    match front b rest with
    | .char c more => c :: decodeLeniently (rest.drop more)
    | .flaw _ more => CodePoint.replacement :: decodeLeniently (rest.drop more)
termination_by bs => bs.length

end Esolang.Utf8
