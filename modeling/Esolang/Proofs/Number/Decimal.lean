/-
  File:      Esolang/Proofs/Number/Decimal.lean
  Subject:   What is written in decimal can be read again.

  * `ofNat_digits`, `ofNat_head`: a number is written in digits, and none but zero begins with a
    zero.
  * `value_ofNat`: the digits of a number spell it; `ofInt_injective`: different integers look
    different.
  * `value_lt`: how great the number can be that a row of digits spells.
  * `length_ofNat_le`: what is not too long to be written is not too long to be read.
-/
import Esolang.Number.Limit

namespace Esolang.Decimal

theorem ofNat_digits {n : Nat} {c : CodePoint} (h : c ∈ ofNat n) : c.isAsciiDigit = true := by
  obtain ⟨d, hd, rfl⟩ := List.mem_map.mp h
  have hdigit := Nat.isDigit_of_mem_toDigits (by decide) (Nat.le_refl 10) hd
  rw [Char.isDigit_iff_toNat] at hdigit
  unfold CodePoint.isAsciiDigit CodePoint.ofChar
  simpa using hdigit

theorem ofNat_ne_nil (n : Nat) : ofNat n ≠ [] := by
  intro h
  exact Nat.toDigits_ne_nil (List.map_eq_nil_iff.mp h)

/-- The digits of a number spell it. -/
theorem value_ofNat (n : Nat) : value ((ofNat n).map (·.val - 48)) = n := by
  have hread := Nat.ofDigitChars_ten_toDigits (n := n)
  rw [Nat.ofDigitChars_eq_foldl] at hread
  unfold value ofNat
  rw [List.map_map, List.foldl_map]
  refine Eq.trans ?_ hread
  congr 1
  funext acc d
  rw [Nat.mul_comm]
  rfl

/-- No number but zero is written with a zero in front. -/
theorem ofNat_head {n : Nat} (hn : n ≠ 0) : (ofNat n).head? ≠ some '0' := by
  induction n using Nat.strongRecOn with
  | _ n ih =>
    unfold ofNat
    by_cases hlt : n < 10
    · rw [Nat.toDigits_of_lt_base hlt]
      have hall : ∀ d < 10, d ≠ 0 → CodePoint.ofChar d.digitChar ≠ '0' := by decide
      intro h
      exact hall n hlt hn (Option.some.inj h)
    · have hhead : (ofNat (n / 10)).head? ≠ some '0' := ih (n / 10) (by omega) (by omega)
      rw [Nat.toDigits_of_base_le (by decide) (Nat.le_of_not_lt hlt), List.map_append]
      show (ofNat (n / 10) ++ _).head? ≠ _
      obtain ⟨c, t, hdigits⟩ := List.exists_cons_of_ne_nil (ofNat_ne_nil (n / 10))
      rw [hdigits] at hhead ⊢
      exact hhead

/-- A row of digits spells a number below the power of ten that has one digit more. -/
theorem value_lt {digits : List Nat} (h : ∀ d ∈ digits, d < 10) :
    value digits < Nat.pow 10 digits.length := by
  have hfold : ∀ acc, digits.foldl (fun acc d => acc * 10 + d) acc <
      (acc + 1) * Nat.pow 10 digits.length := by
    induction digits with
    | nil =>
      intro acc
      show acc < (acc + 1) * 1
      omega
    | cons d digits ih =>
      intro acc
      obtain ⟨hd, hdigits⟩ := List.forall_mem_cons.mp h
      have hstep : acc * 10 + d + 1 ≤ (acc + 1) * 10 := by omega
      have hpower : (acc + 1) * Nat.pow 10 (digits.length + 1) =
          (acc + 1) * 10 * Nat.pow 10 digits.length := by
        rw [Nat.mul_assoc]
        exact congrArg ((acc + 1) * ·) (Nat.mul_comm _ _)
      calc (d :: digits).foldl (fun acc d => acc * 10 + d) acc
          < (acc * 10 + d + 1) * Nat.pow 10 digits.length := ih hdigits (acc * 10 + d)
        _ ≤ (acc + 1) * 10 * Nat.pow 10 digits.length := Nat.mul_le_mul_right _ hstep
        _ = (acc + 1) * Nat.pow 10 (digits.length + 1) := hpower.symm
  have hall := hfold 0
  rwa [Nat.zero_add, Nat.one_mul] at hall

theorem length_ofNat_le {n k : Nat} (hk : 0 < k) (h : n < Nat.pow 10 k) : (ofNat n).length ≤ k := by
  unfold ofNat
  rw [List.length_map]
  exact (Nat.length_toDigits_le_iff (by decide) hk).mpr h

/-- A larger number has no fewer digits. -/
theorem length_ofNat_mono {n m : Nat} (h : n ≤ m) : (ofNat n).length ≤ (ofNat m).length := by
  have hpos : 0 < (ofNat m).length := List.length_pos_iff.mpr (ofNat_ne_nil m)
  have hm : m < Nat.pow 10 (ofNat m).length := by
    refine (Nat.length_toDigits_le_iff (by decide) hpos).mp (Nat.le_of_eq ?_)
    unfold ofNat
    rw [List.length_map]
  exact length_ofNat_le hpos (Nat.lt_of_le_of_lt h hm)

/-- A number is read as it was written, if it has not too many digits. -/
theorem read_of_length {n : Nat} (h : (ofNat n).length ≤ limit) :
    read ((ofNat n).map (·.val - 48)) = .ok n := by
  unfold read
  rw [List.length_map, if_neg (Nat.not_lt.mpr h), value_ofNat]

theorem read_ofNat {n : Nat} (h : n < Nat.pow 10 limit) :
    read ((ofNat n).map (·.val - 48)) = .ok n :=
  read_of_length (length_ofNat_le (by decide) h)

theorem ofNat_injective {n m : Nat} (h : ofNat n = ofNat m) : n = m := by
  rw [← value_ofNat n, h, value_ofNat]

theorem ofNat_head_ne_minus (n : Nat) (t : Text) : ofNat n ≠ ('-' : CodePoint) :: t := by
  intro h
  have hdigit := ofNat_digits (n := n) (h ▸ List.mem_cons_self)
  exact absurd hdigit (by decide)

/-- Different integers look different. -/
theorem ofInt_injective (n m : Int) (h : ofInt n = ofInt m) : n = m := by
  cases n with
  | ofNat n =>
    cases m with
    | ofNat m => exact congrArg Int.ofNat (ofNat_injective h)
    | negSucc m => exact absurd h (ofNat_head_ne_minus n _)
  | negSucc n =>
    cases m with
    | ofNat m => exact absurd h.symm (ofNat_head_ne_minus m _)
    | negSucc m => exact congrArg Int.negSucc (Nat.succ.inj (ofNat_injective (List.cons.inj h).2))

theorem natAbs_lt_of_not_isLong {n : Int} (h : isLong n = false) : n.natAbs < Nat.pow 10 limit :=
  Nat.lt_of_not_le (of_decide_eq_false h)

/-- An integer is written unless it is too long. -/
theorem print_eq_ok {n : Int} {t : Text} : print n = .ok t ↔ isLong n = false ∧ t = ofInt n := by
  unfold print
  cases isLong n with
  | true => exact ⟨fun h => (nomatch h), fun h => (nomatch h.1)⟩
  | false => exact ⟨fun h => ⟨rfl, (Except.ok.inj h).symm⟩, fun h => congrArg Except.ok h.2.symm⟩

end Esolang.Decimal
