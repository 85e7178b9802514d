/-
  File:      Esolang/Proofs/Json/RoundTrip.lean
  Subject:   What is written as JSON is read as what it was.

  * `scanString_flatMap`: a string is read up to its closing quote, whatever code points it has.
  * `scanNumber_ofInt`: an integer is read as far as its digits go.
  * `ReadsBack`, `readItems_write`, `readMembers_write`: data in front of something else.
  * `read_write`: a whole text; `write_iff`: there is one unless an integer is too long.
-/
import Esolang.Json.Read
import Esolang.Json.Write
import Esolang.Proofs.Language
import Esolang.Proofs.Number.Decimal
import Esolang.Proofs.Value.Plain

namespace Esolang.Json

/-! ## 1. Strings -/

/-- What four hexadecimal digits spell; any other row of code points spells nothing. -/
def fourDigits : Text → Option Nat
  | [a, b, c, d] => hex4? a b c d
  | _ => none

theorem fourDigits_eq_some {t : Text} {n : Nat} (h : fourDigits t = some n) :
    ∃ a b c d, t = [a, b, c, d] ∧ hex4? a b c d = some n := by
  unfold fourDigits at h
  split at h
  · exact ⟨_, _, _, _, rfl, h⟩
  · cases h

/-- The digits of a control character's escape spell its number. -/
theorem fourDigits_hex : ∀ n < 32, fourDigits (Decimal.hex 4 n) = some n := by decide +kernel

/-- How code points are written inside a string: by a letter, by their number, or as they are. -/
theorem escape_cases (c : CodePoint) :
    (∃ e : CodePoint, escape c = [CodePoint.ofChar '\\', e] ∧ e ≠ 'u' ∧ simpleEscape? e = some c) ∨
      (escape c = Text.ofString "\\u" ++ Decimal.hex 4 c.val ∧ c.val < 32) ∨
      (escape c = [c] ∧ c ≠ '"' ∧ c ≠ '\\' ∧ 31 < c.val) := by
  by_cases hquote : c = '"'
  · subst hquote
    exact .inl ⟨'"', by decide, by decide, by decide⟩
  by_cases hslash : c = '\\'
  · subst hslash
    exact .inl ⟨'\\', by decide, by decide, by decide⟩
  by_cases hbackspace : c.val = 8
  · obtain rfl : c = ⟨8, by decide⟩ := CodePoint.ext_val hbackspace
    exact .inl ⟨'b', by decide, by decide, by decide⟩
  by_cases hfeed : c.val = 12
  · obtain rfl : c = ⟨12, by decide⟩ := CodePoint.ext_val hfeed
    exact .inl ⟨'f', by decide, by decide, by decide⟩
  by_cases hnewline : c = '\n'
  · subst hnewline
    exact .inl ⟨'n', by decide, by decide, by decide⟩
  by_cases hreturn : c = '\r'
  · subst hreturn
    exact .inl ⟨'r', by decide, by decide, by decide⟩
  by_cases htab : c = '\t'
  · subst htab
    exact .inl ⟨'t', by decide, by decide, by decide⟩
  refine .inr ?_
  unfold escape
  rw [if_neg hquote, if_neg hslash, if_neg hbackspace, if_neg hfeed, if_neg hnewline,
    if_neg hreturn, if_neg htab]
  by_cases hc : c.val < 32
  · rw [if_pos hc]
    exact .inl ⟨rfl, hc⟩
  · rw [if_neg hc]
    exact .inr ⟨rfl, hquote, hslash, by omega⟩

section Scanning

variable (start i : Nat) (begun : Text)

theorem scanString_quote (rest : Text) :
    scanString start i begun (('"' : CodePoint) :: rest) = .ok (begun.reverse, ⟨rest, i + 1⟩) := by
  rw [scanString.eq_def]
  rfl

theorem scanString_plain {c : CodePoint} (hquote : c ≠ '"') (hslash : c ≠ '\\') (hc : 31 < c.val)
    (rest : Text) :
    scanString start i begun (c :: rest) = scanString start (i + 1) (c :: begun) rest := by
  rw [scanString.eq_def]
  simp only
  rw [if_neg hquote, if_neg hslash, if_neg (Nat.not_le.mpr hc)]

theorem scanString_simple {e d : CodePoint} (hu : e ≠ 'u') (he : simpleEscape? e = some d)
    (rest : Text) :
    scanString start i begun (('\\' : CodePoint) :: e :: rest) =
      scanString start (i + 2) (d :: begun) rest := by
  rw [scanString.eq_def]
  simp only [he]
  rw [if_neg (by decide), if_pos trivial, if_neg hu]

/-- A code escape of a control character stands for it, whatever follows: it begins no surrogate
    pair. -/
theorem scanString_code {c : CodePoint} (hc : c.val < 32) (x : CodePoint) (rest : Text) :
    scanString start i begun (Text.ofString "\\u" ++ Decimal.hex 4 c.val ++ x :: rest) =
      scanString start (i + 6) (c :: begun) (x :: rest) := by
  obtain ⟨h1, h2, h3, h4, hdigits, hvalue⟩ := fourDigits_eq_some (fourDigits_hex c.val hc)
  have hcode : codePoint c.val = c := by
    unfold codePoint
    rw [CodePoint.ofNat?_val]
    rfl
  have hhigh : isHighSurrogate c.val = false := by
    unfold isHighSurrogate
    rw [decide_eq_false (by omega), Bool.false_and]
  rw [hdigits]
  show scanString start i begun ('\\' :: 'u' :: h1 :: h2 :: h3 :: h4 :: x :: rest) = _
  rw [scanString.eq_def]
  simp only [hvalue, hhigh, hcode, Bool.false_and, Bool.false_eq_true, if_false]
  rw [if_neg (by decide)]
  simp only [if_true]
  split
  · rfl
  · rfl

/-- The escape of a code point is read as this code point, if something follows. -/
theorem scanString_escape (c x : CodePoint) (rest : Text) :
    scanString start i begun (escape c ++ x :: rest) =
      scanString start (i + (escape c).length) (c :: begun) (x :: rest) := by
  rcases escape_cases c with ⟨e, hescape, hu, he⟩ | ⟨hescape, hc⟩ | ⟨hescape, hquote, hslash, hc⟩
  · rw [hescape]
    exact scanString_simple start i begun hu he _
  · obtain ⟨h1, h2, h3, h4, hdigits, -⟩ := fourDigits_eq_some (fourDigits_hex c.val hc)
    have hlength : (escape c).length = 6 := by
      rw [hescape, hdigits]
      rfl
    rw [hlength, hescape]
    exact scanString_code start i begun hc x rest
  · rw [hescape]
    exact scanString_plain start i begun hquote hslash hc _

/-- **A string is read up to its closing quote**, whatever code points it has. -/
theorem scanString_flatMap (t rest : Text) :
    scanString start i begun (t.flatMap escape ++ ('"' : CodePoint) :: rest) =
      .ok (begun.reverse ++ t, ⟨rest, i + (t.flatMap escape).length + 1⟩) := by
  induction t generalizing i begun with
  | nil =>
    rw [List.append_nil]
    exact scanString_quote start i begun rest
  | cons c cs ih =>
    -- Something follows every escape: another one, or the closing quote.
    obtain ⟨x, more, hmore⟩ : ∃ x more, cs.flatMap escape ++ ('"' : CodePoint) :: rest =
        x :: more :=
      List.exists_cons_of_ne_nil (List.append_ne_nil_of_right_ne_nil _ (List.cons_ne_nil _ _))
    rw [List.flatMap_cons, List.append_assoc, hmore, scanString_escape, ← hmore, ih,
      List.reverse_cons, List.append_assoc, List.length_append, Nat.add_assoc i]
    rfl

end Scanning

theorem string?_string (t rest : Text) (i : Nat) :
    string? ⟨string t ++ rest, i⟩ = some (.ok (t, ⟨rest, i + (string t).length⟩)) := by
  have hstring : string t ++ rest =
      ('"' : CodePoint) :: (t.flatMap escape ++ ('"' : CodePoint) :: rest) := by
    unfold string
    rw [List.append_assoc]
    rfl
  have hlength : i + 1 + (t.flatMap escape).length + 1 = i + (string t).length := by
    unfold string
    rw [List.length_append, List.length_cons, List.length_singleton]
    omega
  unfold string?
  simp only [hstring, if_true]
  rw [scanString_flatMap, hlength]
  rfl

/-! ## 2. Numbers -/

/-- What can follow a number without becoming a part of it. -/
def Closes (rest : Text) : Prop :=
  ∀ c, rest.head? = some c → c.isAsciiDigit = false ∧ c ≠ '.' ∧ c ≠ 'e' ∧ c ≠ 'E'

theorem closes_cons {c : CodePoint} (h : c.isAsciiDigit = false ∧ c ≠ '.' ∧ c ≠ 'e' ∧ c ≠ 'E')
    (rest : Text) : Closes (c :: rest) := by
  intro c' hc'
  cases hc'
  exact h

theorem digitsOf_of_closes {rest : Text} (h : Closes rest) : digitsOf rest = [] := by
  cases rest with
  | nil => rfl
  | cons c cs =>
    unfold digitsOf
    exact List.takeWhile_cons_of_neg (by rw [(h c rfl).1]; exact Bool.false_ne_true)

theorem wholePart_ofNat (n : Nat) {rest : Text} (hrest : Closes rest) :
    wholePart (Decimal.ofNat n ++ rest) = Decimal.ofNat n := by
  have hdigits : digitsOf (Decimal.ofNat n ++ rest) = Decimal.ofNat n := by
    have hstop := digitsOf_of_closes hrest
    unfold digitsOf at hstop ⊢
    rw [List.takeWhile_append_of_pos fun c hc => Decimal.ofNat_digits hc, hstop, List.append_nil]
  obtain ⟨c, cs, hc⟩ := List.exists_cons_of_ne_nil (Decimal.ofNat_ne_nil n)
  by_cases hn : n = 0
  · subst hn
    rfl
  · have hzero : c ≠ '0' := by
      have hhead := Decimal.ofNat_head hn
      rw [hc] at hhead
      exact fun h => hhead (congrArg some h)
    rw [hc] at hdigits ⊢
    exact (if_neg hzero).trans hdigits

theorem fraction_of_closes {rest : Text} (h : Closes rest) : fraction rest = [] := by
  cases rest with
  | nil => rfl
  | cons c cs =>
    unfold fraction
    exact if_neg fun hc => (h c rfl).2.1 hc.1

theorem exponent_of_closes {rest : Text} (h : Closes rest) : exponent rest = [] := by
  unfold exponent
  split
  · next e s more =>
    obtain ⟨-, -, hsmall, hlarge⟩ := h e rfl
    exact if_neg fun he => he.elim hsmall hlarge
  · rfl

theorem ne_of_isAsciiDigit {c d : CodePoint} (hc : c.isAsciiDigit = true)
    (hd : d.isAsciiDigit = false) : c ≠ d := by
  intro h
  rw [h, hd] at hc
  cases hc

/-- An integer begins with a minus sign or a digit. -/
theorem ofInt_head (n : Int) :
    ∃ c cs, Decimal.ofInt n = c :: cs ∧ (c = '-' ∨ c.isAsciiDigit = true) := by
  cases n with
  | ofNat n =>
    obtain ⟨c, cs, hc⟩ := List.exists_cons_of_ne_nil (Decimal.ofNat_ne_nil n)
    exact ⟨c, cs, hc, .inr (Decimal.ofNat_digits (n := n) (hc ▸ List.mem_cons_self))⟩
  | negSucc n => exact ⟨'-', _, rfl, .inl rfl⟩

theorem ne_of_sign {c d : CodePoint} (hc : c = '-' ∨ c.isAsciiDigit = true) (hminus : d ≠ '-')
    (hdigit : d.isAsciiDigit = false) : c ≠ d := by
  rcases hc with rfl | hc
  · exact Ne.symm hminus
  · exact ne_of_isAsciiDigit hc hdigit

/-- **An integer that is not too long is read as far as its digits go.** -/
theorem scanNumber_ofInt {n : Int} (hn : Decimal.isLong n = false) {rest : Text}
    (hrest : Closes rest) (i : Nat) :
    scanNumber ⟨Decimal.ofInt n ++ rest, i⟩ =
      some (.ok (.int n, ⟨rest, i + (Decimal.ofInt n).length⟩)) := by
  have hsmall := Decimal.natAbs_lt_of_not_isLong hn
  have hfraction := fraction_of_closes hrest
  have hexponent := exponent_of_closes hrest
  cases n with
  | ofNat n =>
    have hread : Decimal.read ((Decimal.ofNat n).map (·.val - 48)) = .ok n :=
      Decimal.read_ofNat hsmall
    obtain ⟨c, cs, hc⟩ := List.exists_cons_of_ne_nil (Decimal.ofNat_ne_nil n)
    have hminus : c ≠ '-' :=
      ne_of_isAsciiDigit (Decimal.ofNat_digits (n := n) (hc ▸ List.mem_cons_self)) rfl
    have hcons : Decimal.ofNat n ++ rest = c :: (cs ++ rest) := by rw [hc]; rfl
    unfold scanNumber
    simp only [Decimal.ofInt, hcons, if_neg hminus]
    simp only [← hcons, wholePart_ofNat n hrest, Decimal.ofNat_ne_nil, if_false, List.drop_left,
      hfraction, List.length_nil, List.drop_zero, hexponent, and_self, if_true, hread,
      Bool.false_eq_true, List.nil_append, List.append_nil, Cursor.skip]
    rfl
  | negSucc n =>
    have hread : Decimal.read ((Decimal.ofNat (n + 1)).map (·.val - 48)) = .ok (n + 1) :=
      Decimal.read_ofNat hsmall
    have hskip (k : Nat) : Text.ofString "-" ++ Decimal.ofNat k ++ [] ++ [] =
        ('-' : CodePoint) :: Decimal.ofNat k := by
      rw [List.append_nil, List.append_nil]
      rfl
    unfold scanNumber
    simp only [Decimal.ofInt, List.cons_append, if_true]
    simp only [wholePart_ofNat (n + 1) hrest, Decimal.ofNat_ne_nil, if_false, List.drop_left,
      hfraction, List.length_nil, List.drop_zero, hexponent, and_self, if_true, hread, hskip,
      Cursor.skip]
    rw [← List.cons_append, List.drop_left]
    rfl

/-! ## 3. Layout -/

/-- White space of JSON. -/
def Blank (t : Text) : Prop := ∀ c ∈ t, Cursor.isSpace c = true

/-- A text that does not begin with white space. -/
def Solid (t : Text) : Prop := ∀ c, t.head? = some c → Cursor.isSpace c = false

theorem solid_cons {c : CodePoint} (h : Cursor.isSpace c = false) (rest : Text) :
    Solid (c :: rest) := by
  intro c' hc'
  cases hc'
  exact h

/-- White space is skipped up to what is none. -/
theorem skipSpace_append {blank t : Text} (hblank : Blank blank) (ht : Solid t) (i : Nat) :
    (Cursor.mk (blank ++ t) i).skipSpace = ⟨t, i + blank.length⟩ := by
  have hstop : t.takeWhile Cursor.isSpace = [] := by
    cases t with
    | nil => rfl
    | cons c cs => exact List.takeWhile_cons_of_neg (by rw [ht c rfl]; exact Bool.false_ne_true)
  unfold Cursor.skipSpace Cursor.skip
  rw [List.takeWhile_append_of_pos hblank, hstop, List.append_nil, List.drop_left]

theorem skipSpace_solid {t : Text} (ht : Solid t) (i : Nat) : (Cursor.mk t i).skipSpace = ⟨t, i⟩ :=
  skipSpace_append (fun _ hc => absurd hc List.not_mem_nil) ht i

namespace Layout

theorem lineStart_blank (l : Layout) : Blank l.lineStart := by
  intro c hc
  cases l with
  | oneLine => cases hc
  | lines level =>
    rcases List.mem_cons.mp hc with rfl | hc
    · rfl
    · rw [List.eq_of_mem_replicate hc]
      rfl

/-- What stands between a comma and the next entry. -/
def gap : Layout → Text
  | .oneLine => " "
  | .lines level => lineStart (.lines level)

theorem separator_eq (l : Layout) : l.separator = (',' : CodePoint) :: l.gap := by
  cases l with
  | oneLine => rfl
  | lines level => rfl

theorem gap_blank (l : Layout) : Blank l.gap := by
  cases l with
  | oneLine =>
    intro c hc
    rw [List.mem_singleton.mp hc]
    rfl
  | lines level => exact lineStart_blank (.lines level)

end Layout

/-- What follows the first of several entries: each of the others after a comma, and what closes
    them. -/
def trail (l : Layout) (closing : Text) : List Text → Text
  | [] => closing
  | t :: ts => (',' : CodePoint) :: (l.gap ++ (t ++ trail l closing ts))

theorem trail_append (l : Layout) (closing rest : Text) (ts : List Text) :
    trail l closing ts ++ rest = trail l (closing ++ rest) ts := by
  induction ts with
  | nil => rfl
  | cons t ts ih =>
    unfold trail
    rw [← ih, List.cons_append, List.append_assoc, List.append_assoc]

theorem trail_length_pos (l : Layout) (blank : Text) (c : CodePoint) (ts : List Text) :
    0 < (trail l (blank ++ [c]) ts).length := by
  cases ts with
  | nil =>
    rw [trail, List.length_append]
    exact Nat.lt_add_left _ (Nat.zero_lt_one)
  | cons t ts => exact Nat.succ_pos _

theorem length_trail_cons (l : Layout) (closing t : Text) (ts : List Text) :
    (trail l closing (t :: ts)).length = 1 + l.gap.length + (t ++ trail l closing ts).length := by
  rw [trail, List.length_cons, List.length_append]
  omega

theorem join_append (l : Layout) (closing t : Text) (ts : List Text) :
    Text.join l.separator (t :: ts) ++ closing = t ++ trail l closing ts := by
  unfold Text.join
  induction ts generalizing t with
  | nil =>
    rw [List.intercalate_singleton]
    rfl
  | cons t' ts ih =>
    rw [List.intercalate_cons_cons, Layout.separator_eq, List.append_assoc, ← Layout.separator_eq,
      ih, Layout.separator_eq, List.append_assoc]
    rfl

/-- How the text of a value begins: not with white space, nor with what closes a list, nor with a
    byte order mark. -/
def Opens (t : Text) : Prop :=
  ∃ c rest, t = c :: rest ∧ Cursor.isSpace c = false ∧ c ≠ ']' ∧ c.val ≠ 0xFEFF

theorem Opens.solid {t : Text} (h : Opens t) (rest : Text) : Solid (t ++ rest) := by
  obtain ⟨c, cs, rfl, hspace, -⟩ := h
  exact solid_cons hspace _

theorem Opens.length_pos {t : Text} (h : Opens t) : 0 < t.length := by
  obtain ⟨c, cs, rfl, -⟩ := h
  exact Nat.succ_pos _

theorem Opens.peek_ne {t : Text} (h : Opens t) (rest : Text) (i : Nat) :
    (Cursor.mk (t ++ rest) i).peek? ≠ some (']' : CodePoint) := by
  obtain ⟨c, cs, rfl, -, hbracket, -⟩ := h
  exact fun h => hbracket (Option.some.inj h)

theorem ofInt_opens (n : Int) : Opens (Decimal.ofInt n) := by
  obtain ⟨c, cs, hc, hsign⟩ := ofInt_head n
  have hspace : Cursor.isSpace c = false := by
    unfold Cursor.isSpace
    rw [decide_eq_false (ne_of_sign hsign (by decide) rfl),
      decide_eq_false (ne_of_sign hsign (by decide) rfl),
      decide_eq_false (ne_of_sign hsign (by decide) rfl),
      decide_eq_false (ne_of_sign hsign (by decide) rfl)]
    rfl
  refine ⟨c, cs, hc, hspace, ne_of_sign hsign (by decide) rfl, fun hmark => ?_⟩
  have hval : c = ⟨0xFEFF, by decide⟩ := CodePoint.ext_val hmark
  exact ne_of_sign hsign (by decide) rfl hval

theorem enclose_cons (l : Layout) (opening closing t : Text) (ts : List Text) :
    l.enclose opening closing (t :: ts) =
      opening ++ (l.inner.lineStart ++ (t ++ trail l.inner (l.lineStart ++ closing) ts)) := by
  rw [← join_append]
  unfold Layout.enclose
  simp only [List.isEmpty_cons, Bool.false_eq_true, if_false, List.append_assoc]

/-- After an entry the reader goes over the comma and the white space behind it. -/
theorem skip_comma (l : Layout) (closing t : Text) (ts : List Text)
    (hsolid : Solid (t ++ trail l closing ts)) (i : Nat) :
    (Cursor.mk (trail l closing (t :: ts)) i).skipSpace.peek? = some (',' : CodePoint) ∧
      ((Cursor.mk (trail l closing (t :: ts)) i).skipSpace.skip 1).skipSpace =
        ⟨t ++ trail l closing ts, i + 1 + l.gap.length⟩ := by
  have hcomma : (Cursor.mk (trail l closing (t :: ts)) i).skipSpace =
      ⟨trail l closing (t :: ts), i⟩ :=
    skipSpace_solid (solid_cons (by decide) _) i
  rw [hcomma]
  exact ⟨rfl, skipSpace_append l.gap_blank hsolid (i + 1)⟩

/-- Brackets stand at both ends, whatever is between them. -/
theorem enclose_opens (l : Layout) {c : CodePoint}
    (hc : Cursor.isSpace c = false ∧ c ≠ ']' ∧ c.val ≠ 0xFEFF) (closing : Text) (ts : List Text) :
    Opens (l.enclose [c] closing ts) := by
  cases ts with
  | nil => exact ⟨c, _, rfl, hc⟩
  | cons t ts =>
    rw [enclose_cons]
    exact ⟨c, _, rfl, hc⟩

theorem writeAt_opens {p : Plain} (hp : p.Tidy) {l : Layout} {t : Text} (h : writeAt l p = .ok t) :
    Opens t := by
  cases hp with
  | null =>
    cases h
    exact ⟨'n', _, rfl, by decide, by decide, by decide⟩
  | bool b =>
    cases h
    cases b with
    | true => exact ⟨'t', _, rfl, by decide, by decide, by decide⟩
    | false => exact ⟨'f', _, rfl, by decide, by decide, by decide⟩
  | int n =>
    obtain ⟨-, rfl⟩ := Decimal.print_eq_ok.mp h
    exact ofInt_opens n
  | text t =>
    cases h
    exact ⟨'"', _, rfl, by decide, by decide, by decide⟩
  | list hitems =>
    obtain ⟨ts, -, rfl⟩ := Except.map_ok h
    exact enclose_opens l (by decide) _ ts
  | map hkeys hdistinct hentries =>
    obtain ⟨ts, -, rfl⟩ := Except.map_ok h
    exact enclose_opens l (by decide) _ ts

/-! ## 4. Data -/

/-- Data that are read as what they were, in front of anything that does not go on with a number. -/
def ReadsBack (p : Plain) : Prop :=
  ∀ {l : Layout} {t rest : Text} {i depth : Nat}, writeAt l p = .ok t → Closes rest →
    2 * t.length ≤ depth → readValue depth ⟨t ++ rest, i⟩ = .ok (p, ⟨rest, i + t.length⟩)

theorem closes_blank {blank : Text} (hblank : Blank blank) {c : CodePoint}
    (hc : c.isAsciiDigit = false ∧ c ≠ '.' ∧ c ≠ 'e' ∧ c ≠ 'E') (rest : Text) :
    Closes (blank ++ c :: rest) := by
  cases blank with
  | nil => exact closes_cons hc rest
  | cons b bs =>
    refine closes_cons ?_ _
    have hspace := hblank b List.mem_cons_self
    unfold Cursor.isSpace at hspace
    simp only [Bool.or_eq_true, decide_eq_true_eq] at hspace
    rcases hspace with ((rfl | rfl) | rfl) | rfl <;> decide

theorem closes_trail {l : Layout} {closing : Text} (hclosing : Closes closing) (ts : List Text) :
    Closes (trail l closing ts) := by
  cases ts with
  | nil => exact hclosing
  | cons t ts => exact closes_cons (by decide) _

theorem writeItems_cons {l : Layout} {p : Plain} {ps : List Plain} {texts : List Text}
    (h : writeItems l (p :: ps) = .ok texts) :
    ∃ t ts, texts = t :: ts ∧ writeAt l p = .ok t ∧ writeItems l ps = .ok ts := by
  rw [writeItems] at h
  obtain ⟨t, ht, h⟩ := Except.bind_ok h
  obtain ⟨ts, hts, h⟩ := Except.bind_ok h
  cases h
  exact ⟨t, ts, rfl, ht, hts⟩

theorem readItems_last {depth : Nat} {c after : Cursor} {p : Plain}
    (hvalue : readValue depth c = .ok (p, after))
    (hpeek : after.skipSpace.peek? = some (']' : CodePoint)) :
    readItems (depth + 1) c = .ok ([p], after.skipSpace.skip 1) := by
  rw [readItems]
  simp only [hvalue, hpeek, if_true]

theorem readItems_more {depth : Nat} {c after last : Cursor} {p : Plain} {ps : List Plain}
    (hvalue : readValue depth c = .ok (p, after))
    (hpeek : after.skipSpace.peek? = some (',' : CodePoint))
    (hmore : readItems depth (after.skipSpace.skip 1).skipSpace = .ok (ps, last)) :
    readItems (depth + 1) c = .ok (p :: ps, last) := by
  rw [readItems]
  simp only [hvalue, hpeek, hmore, if_true]
  rw [if_neg (by decide)]
  rfl

/-- **The items of a list are read up to its bracket.** -/
theorem readItems_write {items : List Plain} (htidy : ∀ p ∈ items, p.Tidy)
    (hback : ∀ p ∈ items, ReadsBack p) {l : Layout} {t : Text} {ts : List Text}
    (h : writeItems l items = .ok (t :: ts)) {blank : Text} (hblank : Blank blank) {rest : Text}
    {i depth : Nat} (hdepth : 2 * (t ++ trail l (blank ++ [(']' : CodePoint)]) ts).length ≤ depth) :
    readItems depth ⟨t ++ trail l (blank ++ (']' : CodePoint) :: rest) ts, i⟩ =
      .ok (items, ⟨rest, i + (t ++ trail l (blank ++ [(']' : CodePoint)]) ts).length⟩) := by
  induction items generalizing t ts i depth with
  | nil => cases h
  | cons p ps ih =>
    obtain ⟨hp, hps⟩ := List.forall_mem_cons.mp htidy
    obtain ⟨hpback, hpsback⟩ := List.forall_mem_cons.mp hback
    obtain ⟨_, _, htexts, ht, hts⟩ := writeItems_cons h
    cases htexts
    have hpositive : 0 < (trail l (blank ++ [(']' : CodePoint)]) ts).length :=
      trail_length_pos l blank _ ts
    rw [List.length_append] at hdepth ⊢
    -- The item and the bracket at the end pay for the two levels of reading.
    obtain ⟨depth, rfl⟩ : ∃ d, depth = d + 1 := Nat.exists_eq_succ_of_ne_zero (by omega)
    have hclosing : Closes (trail l (blank ++ (']' : CodePoint) :: rest) ts) :=
      closes_trail (closes_blank hblank (by decide) rest) ts
    have hvalue : readValue depth ⟨t ++ trail l (blank ++ (']' : CodePoint) :: rest) ts, i⟩ = _ :=
      hpback ht hclosing (by omega)
    cases ps with
    | nil =>
      cases hts
      have hspace :
          (Cursor.mk (trail l (blank ++ (']' : CodePoint) :: rest) []) (i + t.length)).skipSpace =
          ⟨(']' : CodePoint) :: rest, i + t.length + blank.length⟩ :=
        skipSpace_append hblank (solid_cons (by decide) rest) _
      rw [readItems_last hvalue (by rw [hspace]; rfl), hspace, trail,
        List.length_append, ← Nat.add_assoc, ← Nat.add_assoc]
      rfl
    | cons p' ps =>
      obtain ⟨t', ts', rfl, ht', -⟩ := writeItems_cons hts
      have hopens := writeAt_opens (hps p' List.mem_cons_self) ht'
      obtain ⟨hpeek, hnext⟩ :=
        skip_comma l (blank ++ (']' : CodePoint) :: rest) t' ts' (hopens.solid _) (i + t.length)
      have hlength := length_trail_cons l (blank ++ [(']' : CodePoint)]) t' ts'
      have hfirst : 0 < t.length := (writeAt_opens hp ht).length_pos
      have hmore : readItems depth ⟨t' ++ trail l (blank ++ (']' : CodePoint) :: rest) ts',
          i + t.length + 1 + l.gap.length⟩ = _ := ih hps hpsback hts (by omega)
      have hindex : i + t.length + 1 + l.gap.length + (t' ++
        trail l (blank ++ [(']' : CodePoint)]) ts').length =
          i + (t.length + (trail l (blank ++ [(']' : CodePoint)]) (t' :: ts')).length) := by omega
      rw [← hnext, hindex] at hmore
      exact readItems_more hvalue hpeek hmore

theorem writeEntries_cons {l : Layout} {name : Text} {p : Plain} {es : Table Key Plain}
    {texts : List Text} (h : writeEntries l ((.text name, p) :: es) = .ok texts) :
    ∃ t ts, texts = (string name ++ Text.ofString ": " ++ t) :: ts ∧ writeAt l p = .ok t ∧
      writeEntries l es = .ok ts := by
  rw [writeEntries] at h
  obtain ⟨t, ht, h⟩ := Except.bind_ok (e := writeAt l p) h
  obtain ⟨ts, hts, h⟩ := Except.bind_ok h
  cases h
  exact ⟨t, ts, rfl, ht, hts⟩

theorem readMembers_last {depth : Nat} {entries : Table Key Plain} {c afterName after : Cursor}
    {name : Text} {p : Plain} (hname : string? c = some (.ok (name, afterName)))
    (hcolon : afterName.skipSpace.peek? = some (':' : CodePoint))
    (hvalue : readValue depth (afterName.skipSpace.skip 1).skipSpace = .ok (p, after))
    (hpeek : after.skipSpace.peek? = some ('\x7d' : CodePoint)) :
    readMembers (depth + 1) entries c =
      .ok (entries.put (.text name) p, after.skipSpace.skip 1) := by
  rw [readMembers]
  simp only [hname, hcolon, hvalue, hpeek, if_true]

theorem readMembers_more {depth : Nat} {entries : Table Key Plain} {c afterName after : Cursor}
    {name : Text} {p : Plain} (hname : string? c = some (.ok (name, afterName)))
    (hcolon : afterName.skipSpace.peek? = some (':' : CodePoint))
    (hvalue : readValue depth (afterName.skipSpace.skip 1).skipSpace = .ok (p, after))
    (hpeek : after.skipSpace.peek? = some (',' : CodePoint)) :
    readMembers (depth + 1) entries c =
      readMembers depth (entries.put (.text name) p) (after.skipSpace.skip 1).skipSpace := by
  rw [readMembers]
  simp only [hname, hcolon, hvalue, hpeek, if_true]
  rw [if_neg (by decide)]

/-- After a name the reader goes over the colon and the space behind it. -/
theorem skip_colon {t : Text} (hsolid : Solid t) (i : Nat) :
    (Cursor.mk (Text.ofString ": " ++ t) i).skipSpace.peek? = some (':' : CodePoint) ∧
      ((Cursor.mk (Text.ofString ": " ++ t) i).skipSpace.skip 1).skipSpace = ⟨t, i + 2⟩ := by
  have hcolon : (Cursor.mk (Text.ofString ": " ++ t) i).skipSpace = ⟨Text.ofString ": " ++ t, i⟩ :=
    skipSpace_solid (solid_cons (by decide) _) i
  have hspace : Blank (Text.ofString " ") := by
    intro c hc
    rw [List.mem_singleton.mp hc]
    rfl
  rw [hcolon]
  exact ⟨rfl, skipSpace_append hspace hsolid (i + 1)⟩

/-- An entry of an object: its name, a colon, and its data, in front of anything that does not go on
    with a number. -/
theorem member_write {p : Plain} (hp : p.Tidy) (hback : ReadsBack p) {l : Layout} {v : Text}
    (hv : writeAt l p = .ok v) (name : Text) {rest : Text} (hrest : Closes rest) (i : Nat)
    {depth : Nat} (hdepth : 2 * v.length ≤ depth) :
    ∃ afterName, string? ⟨string name ++ Text.ofString ": " ++ v ++ rest,
      i⟩ = some (.ok (name, afterName)) ∧
      afterName.skipSpace.peek? = some (':' : CodePoint) ∧
      readValue depth (afterName.skipSpace.skip 1).skipSpace =
        .ok (p, ⟨rest, i + (string name ++ Text.ofString ": " ++ v).length⟩) := by
  have hname := string?_string name (Text.ofString ": " ++ (v ++ rest)) i
  obtain ⟨hcolon, hnext⟩ := skip_colon ((writeAt_opens hp hv).solid rest) (i + (string name).length)
  have hvalue : readValue depth ⟨v ++ rest, i + (string name).length + 2⟩ = _ :=
    hback hv hrest hdepth
  have hlength : i + (string name).length + 2 + v.length =
      i + (string name ++ Text.ofString ": " ++ v).length := by
    rw [List.length_append, List.length_append, ← Nat.add_assoc, ← Nat.add_assoc]
    rfl
  rw [List.append_assoc, List.append_assoc]
  rw [← hnext, hlength] at hvalue
  exact ⟨_, hname, hcolon, hvalue⟩

/-- **The entries of an object are read up to its bracket**, if none of their keys was there
    before. -/
theorem readMembers_write {entries : Table Key Plain} (hkeys : ∀ k ∈ entries.keys, ∃ t, k = .text t)
    (htidy : ∀ e ∈ entries, e.2.Tidy) (hback : ∀ e ∈ entries, ReadsBack e.2) {acc : Table Key Plain}
    (hdistinct : Table.Distinct (acc ++ entries)) {l : Layout} {t : Text} {ts : List Text}
    (h : writeEntries l entries = .ok (t :: ts)) {blank : Text} (hblank : Blank blank) {rest : Text}
    {i depth : Nat}
    (hdepth : 2 * (t ++ trail l (blank ++ [('\x7d' : CodePoint)]) ts).length ≤ depth) :
    readMembers depth acc ⟨t ++ trail l (blank ++ ('\x7d' : CodePoint) :: rest) ts, i⟩ =
      .ok (acc ++ entries,
        ⟨rest, i + (t ++ trail l (blank ++ [('\x7d' : CodePoint)]) ts).length⟩) := by
  induction entries generalizing acc t ts i depth with
  | nil => cases h
  | cons e es ih =>
    obtain ⟨hp, hps⟩ := List.forall_mem_cons.mp htidy
    obtain ⟨hpback, hpsback⟩ := List.forall_mem_cons.mp hback
    obtain ⟨hkey, hothers⟩ := List.forall_mem_cons.mp hkeys
    obtain ⟨k, p⟩ := e
    obtain ⟨name, rfl⟩ := hkey
    obtain ⟨v, _, htexts, hv, hts⟩ := writeEntries_cons h
    cases htexts
    have hput : acc.put (.text name) p = acc ++ [(.text name, p)] :=
      Table.put_of_not_mem hdistinct.not_mem_of_append p
    have hpositive : 0 < (trail l (blank ++ [('\x7d' : CodePoint)]) ts).length :=
      trail_length_pos l blank _ ts
    have hlonger : v.length ≤ (string name ++ Text.ofString ": " ++ v).length := by
      rw [List.length_append]
      exact Nat.le_add_left _ _
    rw [List.length_append] at hdepth ⊢
    obtain ⟨depth, rfl⟩ : ∃ d, depth = d + 1 := Nat.exists_eq_succ_of_ne_zero (by omega)
    have hclosing : Closes (trail l (blank ++ ('\x7d' : CodePoint) :: rest) ts) :=
      closes_trail (closes_blank hblank (by decide) rest) ts
    have henough : 2 * v.length ≤ depth := by omega
    obtain ⟨afterName, hname, hcolon, hvalue⟩ := member_write hp hpback hv name hclosing i henough
    generalize ht : string name ++ Text.ofString ": " ++ v = t at *
    cases es with
    | nil =>
      cases hts
      have hspace : (Cursor.mk (trail l (blank ++ ('\x7d' : CodePoint) :: rest) [])
        (i + t.length)).skipSpace =
          ⟨('\x7d' : CodePoint) :: rest, i + t.length + blank.length⟩ :=
        skipSpace_append hblank (solid_cons (by decide) rest) _
      rw [readMembers_last hname hcolon hvalue (by rw [hspace]; rfl), hspace, hput, trail,
        List.length_append, ← Nat.add_assoc, ← Nat.add_assoc]
      rfl
    | cons e' es =>
      obtain ⟨k', p'⟩ := e'
      obtain ⟨name', rfl⟩ := hothers k' List.mem_cons_self
      obtain ⟨v', ts', rfl, -, -⟩ := writeEntries_cons hts
      obtain ⟨hpeek, hcomma⟩ := skip_comma l (blank ++ ('\x7d' : CodePoint) :: rest)
        (string name' ++ Text.ofString ": " ++ v') ts' (solid_cons (by decide) _) (i + t.length)
      have hlength := length_trail_cons l (blank ++ [('\x7d' : CodePoint)])
        (string name' ++ Text.ofString ": " ++ v') ts'
      have hstill : Table.Distinct ((acc ++ [(.text name, p)]) ++ (.text name', p') :: es) := by
        rw [List.append_assoc]
        exact hdistinct
      have hindex : i + t.length + 1 + l.gap.length
            + (string name' ++ Text.ofString ": " ++ v' ++
              trail l (blank ++ [('\x7d' : CodePoint)]) ts').length =
          i + (t.length
            + (trail l (blank ++ [('\x7d' : CodePoint)])
              ((string name' ++ Text.ofString ": " ++ v') :: ts')).length) := by
        omega
      rw [readMembers_more hname hcolon hvalue hpeek, hcomma, hput,
        ih hothers hps hpsback hstill hts (by omega), List.append_assoc, hindex]
      rfl

/-! ## 5. Values and whole texts -/

/-- The first code point of a value decides how it is read; without a quote or a bracket it is a
    word or a number. -/
theorem readValue_bare {depth : Nat} {c : CodePoint} {cs : Text} {i : Nat} (hquote : c ≠ '"')
    (hlist : c ≠ '[') (hmap : c ≠ '\x7b') :
    readValue (depth + 1) ⟨c :: cs, i⟩ =
      ((word? ⟨c :: cs, i⟩).map Except.ok).getD
        ((scanNumber ⟨c :: cs, i⟩).getD (.error (.flawed .noValue i))) := by
  have hstring : string? ⟨c :: cs, i⟩ = none := if_neg hquote
  have hpeek : (Cursor.mk (c :: cs) i).peek? = some c := rfl
  rw [readValue]
  simp only [hstring, hpeek, Option.some.injEq, if_neg hlist, if_neg hmap]
  cases word? ⟨c :: cs, i⟩ with
  | none => rfl
  | some r => rfl

/-- A text with a digit where a word has none does not begin with this word. -/
theorem startsWith_eq_false {t w : Text} {k : Nat} {c : CodePoint} (hc : t[k]? = some c)
    (hdigit : c.isAsciiDigit = true) (hk : k < w.length) (hw : ∀ d ∈ w, d.isAsciiDigit = false) :
    t.startsWith w = false := by
  refine Bool.eq_false_iff.mpr fun h => ?_
  obtain ⟨s, rfl⟩ := List.isPrefixOf_iff_prefix.mp h
  rw [List.getElem?_append_left hk] at hc
  have hnone := hw c (List.mem_of_getElem? hc)
  rw [hdigit] at hnone
  cases hnone

/-- No word of JSON begins like an integer. -/
theorem word?_ofInt (n : Int) (rest : Text) (i : Nat) :
    word? ⟨Decimal.ofInt n ++ rest, i⟩ = none := by
  have hwords : ∀ w ∈ words, 1 < (Text.ofString w.1).length ∧
      ∀ d ∈ Text.ofString w.1, d.isAsciiDigit = false := by
    decide
  obtain ⟨k, c, hk, hc, hdigit⟩ : ∃ k c, k < 2 ∧ (Decimal.ofInt n ++ rest)[k]? = some c ∧
      c.isAsciiDigit = true := by
    cases n with
    | ofNat n =>
      obtain ⟨c, cs, hc⟩ := List.exists_cons_of_ne_nil (Decimal.ofNat_ne_nil n)
      refine ⟨0, c, by decide, ?_, Decimal.ofNat_digits (n := n) (hc ▸ List.mem_cons_self)⟩
      rw [Decimal.ofInt, hc]
      rfl
    | negSucc n =>
      obtain ⟨c, cs, hc⟩ := List.exists_cons_of_ne_nil (Decimal.ofNat_ne_nil (n + 1))
      refine ⟨1, c, by decide, ?_, Decimal.ofNat_digits (n := n + 1) (hc ▸ List.mem_cons_self)⟩
      rw [Decimal.ofInt, hc]
      rfl
  unfold word?
  refine List.findSome?_eq_none_iff.mpr fun w hw => ?_
  obtain ⟨hlength, hdigits⟩ := hwords w hw
  have hfalse := startsWith_eq_false hc hdigit (Nat.lt_of_lt_of_le hk hlength) hdigits
  exact if_neg (by rw [hfalse]; exact Bool.false_ne_true)

theorem readsBack_int (n : Int) : ReadsBack (.int n) := by
  intro l t rest i depth h hrest hdepth
  obtain ⟨hlong, rfl⟩ := Decimal.print_eq_ok.mp h
  have hpositive := (ofInt_opens n).length_pos
  obtain ⟨depth, rfl⟩ : ∃ d, depth = d + 1 := Nat.exists_eq_succ_of_ne_zero (by omega)
  have hword := word?_ofInt n rest i
  have hnumber := scanNumber_ofInt hlong hrest i
  obtain ⟨c, cs, hc, hsign⟩ := ofInt_head n
  have hquote : c ≠ '"' := ne_of_sign hsign (by decide) rfl
  have hlist : c ≠ '[' := ne_of_sign hsign (by decide) rfl
  have hmap : c ≠ '\x7b' := ne_of_sign hsign (by decide) rfl
  rw [hc, List.cons_append] at hword hnumber ⊢
  rw [readValue_bare hquote hlist hmap, hword, hnumber]
  rfl

theorem readsBack_text (t : Text) : ReadsBack (.text t) := by
  intro l _ rest i depth h hrest hdepth
  cases h
  obtain ⟨depth, rfl⟩ : ∃ d, depth = d + 1 :=
    Nat.exists_eq_succ_of_ne_zero (by rintro rfl; cases hdepth)
  rw [readValue, string?_string]
  rfl

/-- A list whose first item is where the white space ends. -/
theorem readValue_items {depth : Nat} {c last : Cursor} {rest : Text} {i : Nat} {items : List Plain}
    (hspace : (Cursor.mk rest (i + 1)).skipSpace = c) (hpeek : c.peek? ≠ some (']' : CodePoint))
    (hitems : readItems depth c = .ok (items, last)) :
    readValue (depth + 1) ⟨('[' : CodePoint) :: rest, i⟩ = .ok (.list items, last) := by
  have hstring : string? ⟨('[' : CodePoint) :: rest, i⟩ = none := rfl
  have hopening : (Cursor.mk (('[' : CodePoint) :: rest) i).peek? = some ('[' : CodePoint) := rfl
  have hskip : ((Cursor.mk (('[' : CodePoint) :: rest) i).skip 1).skipSpace = c := hspace
  rw [readValue]
  simp only [hstring, hopening, hskip, if_true, if_neg hpeek, hitems]
  rfl

/-- An object whose first name is where the white space ends. -/
theorem readValue_members {depth : Nat} {c last : Cursor} {rest : Text} {i : Nat}
    {entries : Table Key Plain} (hspace : (Cursor.mk rest (i + 1)).skipSpace = c)
    (hpeek : c.peek? ≠ some ('\x7d' : CodePoint))
    (hmembers : readMembers depth [] c = .ok (entries, last)) :
    readValue (depth + 1) ⟨('\x7b' : CodePoint) :: rest, i⟩ = .ok (.map entries, last) := by
  have hstring : string? ⟨('\x7b' : CodePoint) :: rest, i⟩ = none := rfl
  have hopening : (Cursor.mk (('\x7b' : CodePoint) :: rest) i).peek? = some ('\x7b' : CodePoint) :=
    rfl
  have hskip : ((Cursor.mk (('\x7b' : CodePoint) :: rest) i).skip 1).skipSpace = c := hspace
  rw [readValue]
  simp only [hstring, hopening, hskip, if_true, if_neg hpeek, hmembers]
  rw [if_neg (by decide)]
  rfl

/-- Several entries between brackets: what the reader has after the opening bracket, and where it
    will be after the closing one. -/
theorem enclose_append (l : Layout) (opening closing : CodePoint) (t : Text) (ts : List Text)
    (rest : Text) :
    l.enclose [opening] [closing] (t :: ts) ++ rest =
      opening ::
        (l.inner.lineStart ++ (t ++ trail l.inner (l.lineStart ++ closing :: rest) ts)) := by
  rw [enclose_cons, List.append_assoc, List.append_assoc, List.append_assoc, trail_append,
    List.append_assoc]
  rfl

theorem length_enclose (l : Layout) (opening closing : CodePoint) (t : Text) (ts : List Text) :
    (l.enclose [opening] [closing] (t :: ts)).length =
      1 + l.inner.lineStart.length + (t ++ trail l.inner (l.lineStart ++ [closing]) ts).length := by
  rw [enclose_cons, List.length_append, List.length_append, List.length_singleton, Nat.add_assoc]

theorem readsBack_list {items : List Plain} (htidy : ∀ p ∈ items, p.Tidy)
    (hback : ∀ p ∈ items, ReadsBack p) : ReadsBack (.list items) := by
  intro l t rest i depth h hrest hdepth
  obtain ⟨ts, hts, rfl⟩ := Except.map_ok h
  -- The brackets pay for this level, and leave enough for the items.
  have hpositive := (writeAt_opens (.list htidy) h).length_pos
  obtain ⟨depth, rfl⟩ : ∃ d, depth = d + 1 := Nat.exists_eq_succ_of_ne_zero (by omega)
  cases items with
  | nil =>
    cases hts
    have hskip : ((Cursor.mk (('[' : CodePoint) :: (']' : CodePoint) :: rest) i).skip 1).skipSpace =
        ⟨(']' : CodePoint) :: rest, i + 1⟩ := skipSpace_solid (solid_cons (by decide) _) _
    show readValue (depth + 1) ⟨('[' : CodePoint) :: (']' : CodePoint) :: rest, i⟩ = _
    rw [readValue]
    simp only [hskip]
    rfl
  | cons p ps =>
    obtain ⟨t, ts, rfl, ht, -⟩ := writeItems_cons hts
    have hopens := writeAt_opens (htidy p List.mem_cons_self) ht
    have hlength : (l.enclose "[" "]" (t :: ts)).length = _ := length_enclose l '[' ']' t ts
    have hitems : readItems depth ⟨t ++ trail l.inner (l.lineStart ++ (']' : CodePoint) :: rest) ts,
        i + 1 + l.inner.lineStart.length⟩ = _ :=
          readItems_write htidy hback hts l.lineStart_blank (by omega)
    have hindex : i + 1 + l.inner.lineStart.length + (t ++
      trail l.inner (l.lineStart ++ [(']' : CodePoint)]) ts).length =
        i + (l.enclose "[" "]" (t :: ts)).length := by omega
    rw [hindex] at hitems
    show readValue (depth + 1) ⟨l.enclose ['['] [']'] (t :: ts) ++ rest, i⟩ = _
    rw [enclose_append]
    exact readValue_items (skipSpace_append l.inner.lineStart_blank (hopens.solid _) _)
      (hopens.peek_ne _ _) hitems

theorem readsBack_map {entries : Table Key Plain} (hkeys : ∀ k ∈ entries.keys, ∃ t, k = .text t)
    (hdistinct : entries.Distinct) (htidy : ∀ e ∈ entries, e.2.Tidy)
    (hback : ∀ e ∈ entries, ReadsBack e.2) : ReadsBack (.map entries) := by
  intro l t rest i depth h hrest hdepth
  obtain ⟨ts, hts, rfl⟩ := Except.map_ok h
  have hpositive := (writeAt_opens (.map hkeys hdistinct htidy) h).length_pos
  obtain ⟨depth, rfl⟩ : ∃ d, depth = d + 1 := Nat.exists_eq_succ_of_ne_zero (by omega)
  cases entries with
  | nil =>
    cases hts
    have hskip :
        ((Cursor.mk (('\x7b' : CodePoint) :: ('\x7d' : CodePoint) :: rest) i).skip 1).skipSpace =
        ⟨('\x7d' : CodePoint) :: rest, i + 1⟩ := skipSpace_solid (solid_cons (by decide) _) _
    show readValue (depth + 1) ⟨('\x7b' : CodePoint) :: ('\x7d' : CodePoint) :: rest, i⟩ = _
    rw [readValue]
    simp only [hskip]
    rfl
  | cons e es =>
    obtain ⟨k, p⟩ := e
    obtain ⟨name, rfl⟩ := hkeys k List.mem_cons_self
    obtain ⟨v, ts, rfl, -, -⟩ := writeEntries_cons hts
    have hlength :
        (l.enclose "\x7b" "\x7d" ((string name ++ Text.ofString ": " ++ v) :: ts)).length = _ :=
      length_enclose l '\x7b' '\x7d' (string name ++ Text.ofString ": " ++ v) ts
    have hmembers : readMembers depth [] ⟨string name ++ Text.ofString ": " ++ v
          ++ trail l.inner (l.lineStart ++ ('\x7d' : CodePoint) :: rest) ts,
          i + 1 + l.inner.lineStart.length⟩ = _ :=
      readMembers_write hkeys htidy hback hdistinct hts l.lineStart_blank (by omega)
    have hindex : i + 1 + l.inner.lineStart.length
          + (string name ++ Text.ofString ": " ++ v ++
            trail l.inner (l.lineStart ++ [('\x7d' : CodePoint)]) ts).length =
        i + (l.enclose "\x7b" "\x7d" ((string name ++ Text.ofString ": " ++ v) :: ts)).length := by
          omega
    rw [hindex] at hmembers
    show readValue (depth + 1)
      ⟨l.enclose ['\x7b'] ['\x7d'] ((string name ++ Text.ofString ": " ++ v) :: ts) ++ rest, i⟩ = _
    rw [enclose_append]
    refine readValue_members (skipSpace_append l.inner.lineStart_blank (solid_cons (by decide) _) _)
      ?_ hmembers
    -- A name begins with a quote.
    exact fun h => absurd (Option.some.inj h) (by decide)

/-- **Tidy data are read as what they were.** -/
theorem Tidy.readsBack {p : Plain} (hp : p.Tidy) : ReadsBack p := by
  induction hp with
  | null =>
    intro l t rest i depth h hrest hdepth
    cases h
    obtain ⟨depth, rfl⟩ : ∃ d, depth = d + 1 :=
      Nat.exists_eq_succ_of_ne_zero (by rintro rfl; cases hdepth)
    exact readValue_bare (by decide) (by decide) (by decide)
  | bool b =>
    intro l t rest i depth h hrest hdepth
    cases h
    obtain ⟨depth, rfl⟩ : ∃ d, depth = d + 1 :=
      Nat.exists_eq_succ_of_ne_zero (by rintro rfl; cases b <;> cases hdepth)
    cases b with
    | true => exact readValue_bare (by decide) (by decide) (by decide)
    | false => exact readValue_bare (by decide) (by decide) (by decide)
  | int n => exact readsBack_int n
  | text t => exact readsBack_text t
  | list htidy ih => exact readsBack_list htidy ih
  | map hkeys hdistinct htidy ih => exact readsBack_map hkeys hdistinct htidy ih

/-- **Tidy data are read back from their text**, whether it is on one line or over several. -/
theorem read_write {pretty : Bool} {p : Plain} {t : Text} (h : write pretty p = .ok t)
    (hp : p.Tidy) : read t = .ok p := by
  have hopens := writeAt_opens hp h
  have hvalue : readValue (2 * t.length + 2) ⟨t ++ [], 0⟩ = _ :=
    Tidy.readsBack hp h (fun c hc => nomatch hc) (Nat.le_add_right _ 2)
  have hspace : (Cursor.mk t 0).skipSpace = ⟨t, 0⟩ := by
    have hsolid := hopens.solid []
    rw [List.append_nil] at hsolid
    exact skipSpace_solid hsolid 0
  have hmark : t.head? ≠ some ⟨0xFEFF, by decide⟩ := by
    obtain ⟨c, cs, rfl, -, -, hmark⟩ := hopens
    intro hhead
    cases hhead
    exact hmark rfl
  rw [List.append_nil] at hvalue
  unfold read
  rw [if_neg hmark]
  simp only [hspace, hvalue]
  rfl

/-! ## 6. What can be written -/

theorem writeItems_ok {l : Layout} {items : List Plain}
    (h : ∀ p ∈ items, ∃ t, writeAt l p = .ok t) : ∃ ts, writeItems l items = .ok ts := by
  induction items with
  | nil => exact ⟨[], rfl⟩
  | cons p ps ih =>
    obtain ⟨⟨t, ht⟩, hps⟩ := List.forall_mem_cons.mp h
    obtain ⟨ts, hts⟩ := ih hps
    refine ⟨t :: ts, ?_⟩
    rw [writeItems, ht, hts]
    rfl

theorem writeItems_each {l : Layout} {items : List Plain} {ts : List Text}
    (h : writeItems l items = .ok ts) : ∀ p ∈ items, ∃ t, writeAt l p = .ok t := by
  induction items generalizing ts with
  | nil => exact fun p hp => absurd hp List.not_mem_nil
  | cons p ps ih =>
    obtain ⟨t, ts, rfl, ht, hts⟩ := writeItems_cons h
    exact List.forall_mem_cons.mpr ⟨⟨t, ht⟩, ih hts⟩

theorem writeEntries_ok {l : Layout} {entries : Table Key Plain}
    (hkeys : ∀ k ∈ entries.keys, ∃ t, k = .text t) (h : ∀ e ∈ entries, ∃ t, writeAt l e.2 = .ok t) :
    ∃ ts, writeEntries l entries = .ok ts := by
  induction entries with
  | nil => exact ⟨[], rfl⟩
  | cons e es ih =>
    obtain ⟨k, p⟩ := e
    obtain ⟨⟨name, rfl⟩, hothers⟩ := List.forall_mem_cons.mp hkeys
    obtain ⟨⟨t, ht⟩, hes⟩ := List.forall_mem_cons.mp h
    obtain ⟨ts, hts⟩ := ih hothers hes
    refine ⟨(string name ++ Text.ofString ": " ++ t) :: ts, ?_⟩
    rw [writeEntries, key, ht, hts]
    rfl

theorem writeEntries_each {l : Layout} {entries : Table Key Plain}
    (hkeys : ∀ k ∈ entries.keys, ∃ t, k = .text t) {ts : List Text}
    (h : writeEntries l entries = .ok ts) : ∀ e ∈ entries, ∃ t, writeAt l e.2 = .ok t := by
  induction entries generalizing ts with
  | nil => exact fun e he => absurd he List.not_mem_nil
  | cons e es ih =>
    obtain ⟨k, p⟩ := e
    obtain ⟨⟨name, rfl⟩, hothers⟩ := List.forall_mem_cons.mp hkeys
    obtain ⟨t, ts, rfl, ht, hts⟩ := writeEntries_cons h
    exact List.forall_mem_cons.mpr ⟨⟨t, ht⟩, ih hothers hts⟩

theorem writeAt_iff {p : Plain} (hp : p.Tidy) (l : Layout) :
    (∃ t, writeAt l p = .ok t) ↔ p.Fits := by
  induction hp generalizing l with
  | null => exact ⟨fun _ => .null, fun _ => ⟨_, rfl⟩⟩
  | bool b => exact ⟨fun _ => .bool b, fun _ => ⟨_, rfl⟩⟩
  | int n =>
    rw [Plain.fits_int]
    exact ⟨fun ⟨t, ht⟩ => (Decimal.print_eq_ok.mp ht).1,
      fun hn => ⟨Decimal.ofInt n, Decimal.print_eq_ok.mpr ⟨hn, rfl⟩⟩⟩
  | text t => exact ⟨fun _ => .text t, fun _ => ⟨_, rfl⟩⟩
  | list htidy ih =>
    rw [Plain.fits_list]
    constructor
    · rintro ⟨t, h⟩ p hp
      obtain ⟨ts, hts, -⟩ := Except.map_ok h
      exact (ih p hp l.inner).mp (writeItems_each hts p hp)
    · intro h
      obtain ⟨ts, hts⟩ := writeItems_ok fun p hp => (ih p hp l.inner).mpr (h p hp)
      refine ⟨l.enclose "[" "]" ts, ?_⟩
      rw [writeAt, hts]
      rfl
  | map hkeys hdistinct htidy ih =>
    rw [Plain.fits_map]
    constructor
    · rintro ⟨t, h⟩ e he
      obtain ⟨ts, hts, -⟩ := Except.map_ok h
      exact (ih e he l.inner).mp (writeEntries_each hkeys hts e he)
    · intro h
      obtain ⟨ts, hts⟩ := writeEntries_ok hkeys fun e he => (ih e he l.inner).mpr (h e he)
      refine ⟨l.enclose "\x7b" "\x7d" ts, ?_⟩
      rw [writeAt, hts]
      rfl

/-- **Tidy data can be written unless an integer among them is too long.** -/
theorem write_iff {p : Plain} (hp : p.Tidy) (pretty : Bool) :
    (∃ t, write pretty p = .ok t) ↔ p.Fits :=
  writeAt_iff hp _

end Esolang.Json
