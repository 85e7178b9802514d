/-
  File:      Esolang/Proofs/Number/Double.lean
  Subject:   Which integers have no double next to them, and which are doubles themselves.

  Rounding to 53 significant bits keeps a number between the powers of two around it, and can reach
  the upper one. So an integer is beyond all doubles from the midpoint on between the greatest
  double and the power of two that no double reaches; the midpoint itself goes to the even side,
  which is the upper one.

  * `Double.overflow`: this midpoint.
  * `Double.ofInt?_eq_none_iff`: an integer has no double exactly from there on.
  * `Double.Representable`: an integer that is a finite double.
  * `Double.ofInt?_eq_self_iff`: rounding leaves exactly these as they are.
-/
import Esolang.Number.Double
import Mathlib.Algebra.Group.Nat.Defs

namespace Esolang.Double

/-! ## 1. Integers beyond all doubles -/

/-- The least magnitude that is rounded beyond all doubles: half a unit above the greatest of
    them. -/
def overflow : Nat := 2 ^ exponentLimit - 2 ^ (exponentLimit - precision - 1)

/-- The unit of the last significant bit of a number. -/
def unit (n : Nat) : Nat := 2 ^ (n.log2 + 1 - precision)

theorem unit_pos (n : Nat) : 0 < unit n := Nat.two_pow_pos _

theorem ofNat_eq (n : Nat) :
    ofNat n =
      if unit n < 2 * (n % unit n) ∨ (2 * (n % unit n) = unit n ∧ n / unit n % 2 = 1) then
        (n / unit n + 1) * unit n
      else n / unit n * unit n := rfl

theorem unit_dvd (n : Nat) : unit n ∣ 2 ^ (n.log2 + 1) :=
  Nat.pow_dvd_pow 2 (Nat.sub_le _ _)

/-- Rounding does not get beyond the next power of two. -/
theorem ofNat_le (n : Nat) : ofNat n ≤ 2 ^ (n.log2 + 1) := by
  obtain ⟨k, hk⟩ := unit_dvd n
  have hlt : n < k * unit n := by
    rw [Nat.mul_comm, ← hk]
    exact Nat.lt_log2_self
  have hquotient : n / unit n < k := (Nat.div_lt_iff_lt_mul (unit_pos n)).mpr hlt
  have hup : (n / unit n + 1) * unit n ≤ 2 ^ (n.log2 + 1) := by
    rw [hk, Nat.mul_comm (unit n) k]
    exact Nat.mul_le_mul_right _ hquotient
  rw [ofNat_eq]
  split
  · exact hup
  · exact Nat.le_trans (Nat.mul_le_mul_right _ (Nat.le_succ _)) hup

/-- Nor does it fall below the power of two before. -/
theorem le_ofNat {n : Nat} (hn : n ≠ 0) : 2 ^ n.log2 ≤ ofNat n := by
  have hdvd : unit n ∣ 2 ^ n.log2 := by
    refine Nat.pow_dvd_pow 2 ?_
    unfold precision
    omega
  have hdown : 2 ^ n.log2 ≤ n / unit n * unit n := by
    rw [← Nat.div_mul_cancel hdvd]
    exact Nat.mul_le_mul_right _ (Nat.div_le_div_right (Nat.log2_self_le hn))
  rw [ofNat_eq]
  split
  · exact Nat.le_trans hdown (Nat.mul_le_mul_right _ (Nat.le_succ _))
  · exact hdown

/-- Just below a power of two: the power is reached from half a unit on. -/
theorem ofNat_reaches {n half : Nat} (hunit : unit n = 2 * half)
    (hn : n < 2 ^ precision * (2 * half)) :
    2 ^ precision * (2 * half) ≤ ofNat n ↔ 2 ^ precision * (2 * half) - half ≤ n := by
  have hpos : 0 < 2 * half := hunit ▸ unit_pos n
  have hlt : n % (2 * half) < 2 * half := Nat.mod_lt _ hpos
  have hdiv : n / (2 * half) * (2 * half) + n % (2 * half) = n := Nat.div_add_mod' n (2 * half)
  have hquotient : n / (2 * half) < 2 ^ precision := (Nat.div_lt_iff_lt_mul hpos).mpr hn
  rw [ofNat_eq, hunit]
  unfold precision at *
  generalize n / (2 * half) = q at *
  generalize n % (2 * half) = r at *
  by_cases hq : q = 2 ^ 53 - 1
  · -- the greatest mantissa, which is odd: one unit more is the power of two
    subst hq
    split
    · omega
    · omega
  · have hnext : (q + 1) * (2 * half) ≤ (2 ^ 53 - 1) * (2 * half) :=
      Nat.mul_le_mul_right _ (by omega)
    have hsucc : (q + 1) * (2 * half) = q * (2 * half) + 2 * half := Nat.succ_mul _ _
    split
    · omega
    · omega

theorem ofNat_overflows (n : Nat) : 2 ^ exponentLimit ≤ ofNat n ↔ overflow ≤ n := by
  have hup : ofNat n ≤ 2 ^ (n.log2 + 1) := ofNat_le n
  have hbelow : n < 2 ^ (n.log2 + 1) := Nat.lt_log2_self
  rcases Nat.lt_trichotomy (n.log2 + 1) exponentLimit with hlow | htop | hhigh
  · have hpow : 2 ^ (n.log2 + 1) ≤ 2 ^ (exponentLimit - 1) :=
      Nat.pow_le_pow_right Nat.two_pos (by omega)
    have hless : 2 ^ (exponentLimit - 1) < overflow := by decide +kernel
    have hle : overflow ≤ 2 ^ exponentLimit := Nat.sub_le _ _
    omega
  · have hunit : unit n = 2 * 2 ^ (exponentLimit - precision - 1) := by
      unfold unit
      rw [htop]
      decide +kernel
    have hpower : 2 ^ exponentLimit =
        2 ^ precision * (2 * 2 ^ (exponentLimit - precision - 1)) := by
      decide +kernel
    unfold overflow
    rw [htop, hpower] at hbelow
    rw [hpower]
    exact ofNat_reaches hunit hbelow
  · have hpow : 2 ^ exponentLimit ≤ 2 ^ n.log2 := Nat.pow_le_pow_right Nat.two_pos (by omega)
    have hn : n ≠ 0 := by
      rintro rfl
      exact absurd hhigh (by decide)
    have hself : 2 ^ n.log2 ≤ n := Nat.log2_self_le hn
    have hround : 2 ^ n.log2 ≤ ofNat n := le_ofNat hn
    have hle : overflow ≤ 2 ^ exponentLimit := Nat.sub_le _ _
    omega

theorem log2_lt_iff {n k : Nat} (hk : 0 < k) : n.log2 < k ↔ n < 2 ^ k := by
  by_cases hzero : n = 0
  · subst hzero
    exact ⟨fun _ => Nat.two_pow_pos _, fun _ => hk⟩
  · exact Nat.log2_lt hzero

/-- **An integer has no double exactly from half a unit above the greatest double on.** -/
theorem ofInt?_eq_none_iff (n : Int) : ofInt? n = none ↔ overflow ≤ n.natAbs := by
  have hlog : (ofNat n.natAbs).log2 < exponentLimit ↔ ofNat n.natAbs < 2 ^ exponentLimit :=
    log2_lt_iff (by decide)
  rw [← ofNat_overflows, ← Nat.not_lt, ← hlog]
  unfold ofInt?
  simp only
  split
  · next hlt =>
    constructor
    · intro h
      cases h
    · intro h
      exact absurd hlt h
  · next hge => exact ⟨fun _ => hge, fun _ => rfl⟩

/-! ## 2. Integers that are doubles -/

/-- An integer that is a finite double: its magnitude has at most 53 significant bits and is below
    2^1024. -/
structure Representable (n : Int) : Prop where
  significant : ∃ mantissa exponent : Nat, mantissa < 2 ^ precision ∧
    n.natAbs = mantissa * 2 ^ exponent
  finite : n.natAbs < 2 ^ exponentLimit

theorem ofNat_of_unit_dvd {n : Nat} (h : unit n ∣ n) : ofNat n = n := by
  have hexcess : n % unit n = 0 := Nat.mod_eq_zero_of_dvd h
  have hpos := unit_pos n
  rw [ofNat_eq, hexcess, if_neg (by omega), Nat.div_mul_cancel h]

theorem unit_dvd_ofNat (n : Nat) : unit n ∣ ofNat n := by
  rw [ofNat_eq]
  split
  · exact Nat.dvd_mul_left _ _
  · exact Nat.dvd_mul_left _ _

/-- The last significant bit of a number stands no higher than the exponent of any mantissa it
    has. -/
theorem unit_dvd_of_significant {mantissa : Nat} (h : mantissa < 2 ^ precision) (exponent : Nat) :
    unit (mantissa * 2 ^ exponent) ∣ mantissa * 2 ^ exponent := by
  by_cases hzero : mantissa * 2 ^ exponent = 0
  · rw [hzero]
    exact Nat.dvd_zero _
  · have hlt : mantissa * 2 ^ exponent < 2 ^ (precision + exponent) := by
      rw [Nat.pow_add]
      exact Nat.mul_lt_mul_of_pos_right h (Nat.two_pow_pos _)
    have hlog := (Nat.log2_lt hzero).mpr hlt
    have hunit : unit (mantissa * 2 ^ exponent) ∣ 2 ^ exponent := Nat.pow_dvd_pow 2 (by omega)
    exact Nat.dvd_trans hunit (Nat.dvd_mul_left _ _)

theorem div_unit_lt (n : Nat) : n / unit n < 2 ^ precision := by
  rw [Nat.div_lt_iff_lt_mul (unit_pos n), unit, ← Nat.pow_add]
  exact Nat.lt_of_lt_of_le Nat.lt_log2_self (Nat.pow_le_pow_right Nat.two_pos (by omega))

/-- **Rounding leaves exactly the numbers as they are that have at most 53 significant bits.** -/
theorem ofNat_eq_self_iff (n : Nat) :
    ofNat n = n ↔ ∃ mantissa exponent : Nat, mantissa < 2 ^ precision ∧
      n = mantissa * 2 ^ exponent := by
  constructor
  · intro h
    have hdvd : unit n ∣ n := by
      have hround := unit_dvd_ofNat n
      rwa [h] at hround
    exact ⟨n / unit n, n.log2 + 1 - precision, div_unit_lt n, (Nat.div_mul_cancel hdvd).symm⟩
  · rintro ⟨mantissa, exponent, hmantissa, rfl⟩
    exact ofNat_of_unit_dvd (unit_dvd_of_significant hmantissa exponent)

theorem natAbs_sign_mul {n : Int} {k : Nat} (h : n.natAbs = 0 → k = 0) :
    (n.sign * k).natAbs = k := by
  rw [Int.natAbs_mul, Int.natAbs_sign, Int.natAbs_natCast]
  split
  · next hzero => rw [h (by rw [hzero]; rfl), Nat.mul_zero]
  · exact Nat.one_mul k

/-- **An integer is its own double exactly if it is representable.** -/
theorem ofInt?_eq_self_iff (n : Int) : ofInt? n = some n ↔ Representable n := by
  have hlog : (ofNat n.natAbs).log2 < exponentLimit ↔ ofNat n.natAbs < 2 ^ exponentLimit :=
    log2_lt_iff (by decide)
  unfold ofInt?
  simp only
  constructor
  · intro h
    obtain ⟨hlimit, hround⟩ := Option.ite_none_right_eq_some.mp h
    have hsame : ofNat n.natAbs = n.natAbs := by
      have habs := congrArg Int.natAbs (Option.some.inj hround)
      rwa [natAbs_sign_mul] at habs
      intro hzero
      rw [hzero]
      rfl
    rw [hlog, hsame] at hlimit
    exact ⟨(ofNat_eq_self_iff _).mp hsame, hlimit⟩
  · intro h
    have hsame : ofNat n.natAbs = n.natAbs := (ofNat_eq_self_iff _).mpr h.significant
    rw [if_pos (hlog.mpr (by rw [hsame]; exact h.finite)), hsame, Int.sign_mul_natAbs]

/-- All integers of magnitude up to 2^53 are doubles. -/
theorem representable_of_natAbs_le {n : Int} (h : n.natAbs ≤ 2 ^ precision) : Representable n where
  significant := by
    rcases Nat.lt_or_eq_of_le h with hlt | heq
    · exact ⟨n.natAbs, 0, hlt, (Nat.mul_one _).symm⟩
    · exact ⟨1, precision, by decide, heq.trans (Nat.one_mul _).symm⟩
  finite := Nat.lt_of_le_of_lt h (Nat.pow_lt_pow_right (by decide) (by decide))

/-- The remainder of two doubles is exact, and rounded towards zero. -/
theorem remainder?_of_representable {b a : Int} (hb : Representable b) (ha : Representable a) :
    remainder? b a = some (b.tmod a) := by
  unfold remainder?
  rw [(ofInt?_eq_self_iff b).mpr hb, (ofInt?_eq_self_iff a).mpr ha]

end Esolang.Double
