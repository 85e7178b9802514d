/-
  File:      Esolang/Proofs/Reading.lean
  Subject:   Input is used up in order: nothing is lost, and nothing is read twice.

  * `Input.Question`, `Input.ask`: a number or a character is asked for; `Input.askAll`: one
    question after another.
  * `Input.Takes`: what a question takes from the front of an input, by its answer;
    `Input.ask_takes`: every question takes so, and `Input.askAll_pieces`: what all of them take,
    with the rest, is the input.
  * `Input.Spells`: an input in which numbers stand one after another; `Input.spells_written`: so
    numbers are written down with blanks between them.
  * `Input.askAll_spells`: the numbers of such an input are answered in their order.
-/
import Esolang.Proofs.Input
import Esolang.Proofs.Lists
import Esolang.Proofs.Number.Decimal
import Esolang.Proofs.Text

namespace Esolang

/-- A digit is not blank. -/
theorem CodePoint.isBlank_of_isAsciiDigit {c : CodePoint} (h : c.isAsciiDigit = true) :
    c.isBlank = false := by
  have hbounds : 48 ≤ c.val ∧ c.val ≤ 57 := by simpa [isAsciiDigit] using h
  have hall : ∀ n ∈ blanks, n < 48 ∨ 57 < n := by decide
  refine Bool.eq_false_iff.mpr fun hblank => ?_
  have hlimits := hall c.val (List.contains_iff_mem.mp hblank)
  omega

namespace Input

/-! ## 1. Questions -/

/-- What can be asked of an input. -/
inductive Question where
  /-- The next number. -/
  | number
  /-- The next character. -/
  | character

/-- The answer to a question, and what is left of the input. A character is answered by its code,
    and the end of the input by -1. -/
def ask (t : Text) : Question → Attempt Text Int
  | .number => ⟨(Input.number t).outcome.map Int.ofNat, (Input.number t).state⟩
  | .character => .ok (code (Input.character t).1) (Input.character t).2

/-- The answers to questions that are asked one after another, whatever the answers are, and what is
    left then. -/
def askAll : List Question → Text → List (Except Failure Int) × Text
  | [], t => ([], t)
  | q :: questions, t =>
    ((ask t q).outcome :: (askAll questions (ask t q).state).1,
      (askAll questions (ask t q).state).2)

/-! ## 2. What a question takes -/

/-- A row of digits with a text behind it that does not go on with a digit. -/
structure DigitRow (digits rest : Text) : Prop where
  nonempty : digits ≠ []
  digits : ∀ c ∈ digits, c.isAsciiDigit = true
  maximal : ∀ c, rest.head? = some c → c.isAsciiDigit = false

/-- What a question takes from the front of an input, the answer, and what is left. -/
inductive Takes : Question → Text → Except Failure Int → Text → Prop where
  | character (c : CodePoint) (rest : Text) : Takes .character [c] (.ok c.val) rest
  | ended : Takes .character [] (.ok (-1)) []
  /-- The blanks in front and all the digits after them, which spell the number. -/
  | number {blanks digits rest : Text} (hblanks : ∀ c ∈ blanks, c.isBlank = true)
      (hrow : DigitRow digits rest) (hshort : digits.length ≤ Decimal.limit) :
      Takes .number (blanks ++ digits) (.ok (Decimal.value (digitValues digits) : Nat)) rest
  /-- The same for a row that is too long to be read. -/
  | long {blanks digits rest : Text} (hblanks : ∀ c ∈ blanks, c.isBlank = true)
      (hrow : DigitRow digits rest) (hlong : Decimal.limit < digits.length) :
      Takes .number (blanks ++ digits) (.error (.breakdown (.longNumeral digits.length))) rest
  /-- Nothing but blanks is left, and they are taken. -/
  | inputEnded {blanks : Text} (hblanks : ∀ c ∈ blanks, c.isBlank = true) :
      Takes .number blanks (.error (.fault .inputEnded)) []
  /-- Nothing but the blanks in front is taken where no digit follows them. -/
  | notADigit {blanks : Text} (c : CodePoint) (rest : Text) (hblanks : ∀ c ∈ blanks, c.isBlank =
        true)
      (hblank : c.isBlank = false) (hdigit : c.isAsciiDigit = false) :
      Takes .number blanks (.error (.fault (.notADigit c))) (c :: rest)

theorem digitRow_split {c : CodePoint} (cs : Text) (h : c.isAsciiDigit = true) :
    DigitRow ((c :: cs).takeWhile CodePoint.isAsciiDigit)
      ((c :: cs).dropWhile CodePoint.isAsciiDigit) where
  nonempty := by
    rw [List.takeWhile_cons_of_pos h]
    exact List.cons_ne_nil _ _
  digits := List.all_eq_true.mp List.all_takeWhile
  maximal _ hc := List.head_dropWhile hc

theorem number_takes (t : Text) :
    ∃ piece, t = piece ++ (number t).state ∧
      Takes .number piece ((number t).outcome.map Int.ofNat) (number t).state := by
  obtain ⟨blanks, hblanks, hsplit⟩ := blanks_in_front (t := t) (.inr rfl)
  unfold number
  simp only
  cases htext : t.trimStart with
  | nil =>
    rw [htext] at hsplit
    exact ⟨blanks, hsplit, .inputEnded hblanks⟩
  | cons c cs =>
    rw [htext] at hsplit
    simp only
    by_cases hdigit : c.isAsciiDigit = true
    · rw [if_pos hdigit]
      have hrow := digitRow_split cs hdigit
      have hpieces : t = blanks ++ (c :: cs).takeWhile CodePoint.isAsciiDigit ++
          (c :: cs).dropWhile CodePoint.isAsciiDigit := by
        rw [List.append_assoc, List.takeWhile_append_dropWhile]
        exact hsplit
      generalize (c :: cs).takeWhile CodePoint.isAsciiDigit = digits at hrow hpieces ⊢
      generalize (c :: cs).dropWhile CodePoint.isAsciiDigit = rest at hrow hpieces ⊢
      have hlength : (digitValues digits).length = digits.length := List.length_map _
      unfold Decimal.read
      rw [hlength]
      by_cases hlong : Decimal.limit < digits.length
      · rw [if_pos hlong]
        exact ⟨blanks ++ digits, hpieces, .long hblanks hrow hlong⟩
      · rw [if_neg hlong]
        exact ⟨blanks ++ digits, hpieces, .number hblanks hrow (Nat.le_of_not_lt hlong)⟩
    · have hblank : c.isBlank = false := by
        refine List.head_dropWhile (l := t) ?_
        show t.trimStart.head? = some c
        rw [htext]
        rfl
      rw [if_neg hdigit]
      exact ⟨blanks, hsplit, .notADigit c cs hblanks hblank (Bool.eq_false_iff.mpr hdigit)⟩

/-- **Every question takes a piece from the front of the input.** -/
theorem ask_takes (t : Text) (q : Question) :
    ∃ piece, t = piece ++ (ask t q).state ∧ Takes q piece (ask t q).outcome (ask t q).state := by
  cases q with
  | number => exact number_takes t
  | character =>
    cases t with
    | nil => exact ⟨[], rfl, .ended⟩
    | cons c cs => exact ⟨[c], rfl, .character c cs⟩

/-- **The pieces that questions take, one after another, and what is left then make up the
    input.** -/
theorem askAll_pieces (questions : List Question) (t : Text) :
    ∃ pieces : List Text, pieces.length = questions.length ∧
      (askAll questions t).1.length = questions.length ∧
      t = pieces.flatten ++ (askAll questions t).2 ∧
      ∀ k q piece answer, questions[k]? = some q → pieces[k]? = some piece →
        (askAll questions t).1[k]? = some answer →
        Takes q piece answer ((pieces.drop (k + 1)).flatten ++ (askAll questions t).2) := by
  induction questions generalizing t with
  | nil =>
    refine ⟨[], rfl, rfl, rfl, fun k q piece answer hq => ?_⟩
    cases hq
  | cons q questions ih =>
    obtain ⟨first, hfirst, htakes⟩ := ask_takes t q
    obtain ⟨pieces, hlength, hanswers, hrest, hall⟩ := ih (ask t q).state
    refine ⟨first :: pieces, congrArg (· + 1) hlength, congrArg (· + 1) hanswers, ?_,
      fun k q' piece answer hq hpiece hanswer => ?_⟩
    · rw [List.flatten_cons, List.append_assoc]
      exact hfirst.trans (congrArg (first ++ ·) hrest)
    · cases k with
      | zero =>
        cases hq
        cases hpiece
        cases hanswer
        rw [List.drop_succ_cons, List.drop_zero]
        rw [hrest] at htakes
        exact htakes
      | succ k => exact hall k q' piece answer hq hpiece hanswer

/-- A number that is asked for in vain is asked for in vain again, and nothing more is taken. -/
theorem ask_number_again {t : Text} {f : Fault} (h : (ask t .number).outcome = .error (.fault f)) :
    ask (ask t .number).state .number = .fault f (ask t .number).state := by
  have hnumber : (number t).outcome = .error (.fault f) := by
    unfold ask at h
    cases ho : (number t).outcome with
    | ok n =>
      rw [ho] at h
      cases h
    | error e =>
      rw [ho] at h
      cases h
      rfl
  obtain ⟨hfirst, hagain⟩ := number_fault hnumber
  simp only [ask, hfirst, Attempt.fault, hagain]
  rfl

/-! ## 3. Numbers in a row -/

/-- Numbers stand one after another in a text, each written with at most 4300 digits and perhaps
    with blanks in front of it. No digit follows a number directly, and behind the last one no
    further number can be read. -/
inductive Spells : List Nat → Text → Prop where
  | done {rest : Text} (h : ∀ c, rest.trimStart.head? = some c → c.isAsciiDigit = false) :
      Spells [] rest
  | next {ns : List Nat} {blanks digits rest : Text} (hblanks : ∀ c ∈ blanks, c.isBlank = true)
      (hrow : DigitRow digits rest) (hshort : digits.length ≤ Decimal.limit) (h : Spells ns rest) :
      Spells (Decimal.value (digitValues digits) :: ns) (blanks ++ (digits ++ rest))

theorem trimStart_blanks {blanks rest : Text} (h : ∀ c ∈ blanks, c.isBlank = true) :
    Text.trimStart (blanks ++ rest) = rest.trimStart :=
  List.dropWhile_append_of_pos h

theorem DigitRow.head {digits rest : Text} (h : DigitRow digits rest) :
    ∃ c cs, digits = c :: cs ∧ c.isAsciiDigit = true := by
  obtain ⟨c, cs, rfl⟩ := List.exists_cons_of_ne_nil h.nonempty
  exact ⟨c, cs, rfl, h.digits c List.mem_cons_self⟩

/-- A row of digits is read as a whole, and what follows it is left. -/
theorem number_row {blanks digits rest : Text} (hblanks : ∀ c ∈ blanks, c.isBlank = true)
    (hrow : DigitRow digits rest) (hshort : digits.length ≤ Decimal.limit) :
    number (blanks ++ (digits ++ rest)) = .ok (Decimal.value (digitValues digits)) rest := by
  obtain ⟨c, cs, hdigits, hc⟩ := hrow.head
  have htext : Text.trimStart (blanks ++ (digits ++ rest)) = digits ++ rest := by
    rw [trimStart_blanks hblanks]
    refine Text.trimStart_eq_self fun d hd => ?_
    rw [hdigits] at hd
    cases hd
    exact CodePoint.isBlank_of_isAsciiDigit hc
  have hstop : rest.takeWhile CodePoint.isAsciiDigit = [] ∧
      rest.dropWhile CodePoint.isAsciiDigit = rest := by
    cases rest with
    | nil => exact ⟨rfl, rfl⟩
    | cons d ds =>
      have hd : ¬ d.isAsciiDigit = true := Bool.eq_false_iff.mp (hrow.maximal d rfl)
      exact ⟨List.takeWhile_cons_of_neg hd, List.dropWhile_cons_of_neg hd⟩
  have htake : (digits ++ rest).takeWhile CodePoint.isAsciiDigit = digits := by
    rw [List.takeWhile_append_of_pos hrow.digits, hstop.1, List.append_nil]
  have hdrop : (digits ++ rest).dropWhile CodePoint.isAsciiDigit = rest := by
    rw [List.dropWhile_append_of_pos hrow.digits, hstop.2]
  have hread : Decimal.read (digitValues digits) = .ok (Decimal.value (digitValues digits)) := by
    unfold Decimal.read digitValues
    rw [List.length_map, if_neg (Nat.not_lt.mpr hshort)]
  unfold number
  simp only [htext]
  rw [htake, hdrop, hread]
  simp only [hdigits, List.cons_append, if_pos hc]

/-- The first number of an input is read, and the others stand in what is left. -/
theorem Spells.number {n : Nat} {ns : List Nat} {t : Text} (h : Spells (n :: ns) t) :
    ∃ rest, Input.number t = .ok n rest ∧ Spells ns rest := by
  cases h with
  | next hblanks hrow hshort hrest => exact ⟨_, number_row hblanks hrow hshort, hrest⟩

/-- Where no number stands, none is read, and there is still none in what is left. -/
theorem Spells.fault {t : Text} (h : Spells [] t) :
    ∃ f, Input.number t = .fault f t.trimStart ∧ Spells [] t.trimStart := by
  cases h with
  | done h =>
    have hleft : Spells [] t.trimStart := .done (by rwa [Text.trimStart_trimStart])
    unfold Input.number
    cases htext : t.trimStart with
    | nil => exact ⟨.inputEnded, rfl, htext ▸ hleft⟩
    | cons c cs =>
      rw [htext] at h
      have hc : ¬ c.isAsciiDigit = true := Bool.eq_false_iff.mp (h c rfl)
      refine ⟨.notADigit c, ?_, htext ▸ hleft⟩
      simp only [if_neg hc]

/-- **The numbers of an input are answered in their order.** -/
theorem askAll_spells {ns : List Nat} {t : Text} (h : Spells ns t) {n : Nat} (hn : n ≤ ns.length) :
    (askAll (List.replicate n .number) t).1 = (ns.take n).map (fun v => .ok (v : Int)) ∧
      Spells (ns.drop n) (askAll (List.replicate n .number) t).2 := by
  induction n generalizing ns t with
  | zero => exact ⟨rfl, h⟩
  | succ n ih =>
    cases ns with
    | nil => exact absurd hn (Nat.not_succ_le_zero n)
    | cons v vs =>
      obtain ⟨rest, hread, hrest⟩ := h.number
      have hask : ask t .number = .ok (v : Int) rest := by
        unfold ask
        rw [hread]
        rfl
      obtain ⟨hanswers, hleft⟩ := ih hrest (Nat.le_of_succ_le_succ hn)
      rw [List.replicate_succ, askAll, hask]
      exact ⟨congrArg (.ok (v : Int) :: ·) hanswers, hleft⟩

/-- Numbers written in decimal, each with the blanks in front of it, and what stands behind the last
    one. -/
def written : List (Text × Nat) → Text → Text
  | [], behind => behind
  | (blanks, n) :: entries, behind => blanks ++ (Decimal.ofNat n ++ written entries behind)

/-- **Numbers of at most 4300 digits with blanks between them stand one after another.** -/
theorem spells_written {entries : List (Text × Nat)} {behind : Text}
    (hbehind : ∀ c ∈ behind, c.isBlank = true)
    (hblanks : ∀ e ∈ entries, ∀ c ∈ e.1, c.isBlank = true) (hgaps : ∀ e ∈ entries.tail, e.1 ≠ [])
    (hshort : ∀ e ∈ entries, (Decimal.ofNat e.2).length ≤ Decimal.limit) :
    Spells (entries.map Prod.snd) (written entries behind) := by
  induction entries with
  | nil =>
    refine .done fun c hc => ?_
    have hnone : Text.trimStart behind = [] := by
      rw [← List.append_nil behind, trimStart_blanks hbehind]
      rfl
    show c.isAsciiDigit = false
    rw [written, hnone] at hc
    cases hc
  | cons e entries ih =>
    obtain ⟨blanks, n⟩ := e
    obtain ⟨hfirst, hothers⟩ := List.forall_mem_cons.mp hblanks
    obtain ⟨hn, hns⟩ := List.forall_mem_cons.mp hshort
    have hrest := ih hothers (fun e he => hgaps e (List.mem_of_mem_tail he)) hns
    have hrow : DigitRow (Decimal.ofNat n) (written entries behind) := by
      refine ⟨Decimal.ofNat_ne_nil n, fun c hc => Decimal.ofNat_digits hc, fun c hc => ?_⟩
      -- what follows begins with a blank, since no gap is empty
      have hblank : c.isBlank = true := by
        cases entries with
        | nil => exact hbehind c (List.mem_of_head? hc)
        | cons e' entries =>
          obtain ⟨gap, n'⟩ := e'
          obtain ⟨d, ds, hd⟩ := List.exists_cons_of_ne_nil (hgaps (gap, n') List.mem_cons_self)
          obtain rfl : gap = d :: ds := hd
          cases hc
          exact hothers (c :: ds, n') List.mem_cons_self c List.mem_cons_self
      cases hdigit : c.isAsciiDigit with
      | false => rfl
      | true =>
        rw [CodePoint.isBlank_of_isAsciiDigit hdigit] at hblank
        cases hblank
    have hvalue : Decimal.value (digitValues (Decimal.ofNat n)) = n := Decimal.value_ofNat n
    have hall := Spells.next hfirst hrow hn hrest
    rw [hvalue] at hall
    exact hall

end Input

end Esolang
