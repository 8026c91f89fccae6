import LvmControl.Proofs.Quantity.WholeSizes

/-!
# Decimal numbers that round to zero

The least positive number of binary64 is `2 ^ (-1074)`, and a tie goes to the even significand, so a
decimal number is taken for zero exactly if it is at most half of that. It does not matter for this
that numbers with extreme exponents are answered without computing them.

## Main definitions

* `Decimal.IsNegligible`: the magnitude of a decimal number is at most `2 ^ (-1075)`.

## Main statements

* `significand_nearest_eq_zero_iff`: which fractions are nearest to zero.
* `Decimal.magnitude?_eq_zero_iff`: which decimal numbers are taken for zero.
-/

namespace LvmControl.Number

/-! ## The number of digits -/

theorem length_decimalDigits_of_le {n : Nat} (h : 10 ≤ n) :
    (decimalDigits n).length = (decimalDigits (n / 10)).length + 1 := by
  rw [decimalDigits, if_neg (Nat.not_lt.mpr h), List.length_append, List.length_singleton]

theorem length_decimalDigits_of_lt {n : Nat} (h : n < 10) : (decimalDigits n).length = 1 := by
  rw [decimalDigits, if_pos h, List.length_singleton]

/-- A number is below the power of ten that its digits give. -/
theorem lt_pow_length_decimalDigits (n : Nat) : n < 10 ^ (decimalDigits n).length := by
  induction n using Nat.strongRecOn with
  | ind n ih =>
    rcases Nat.lt_or_ge n 10 with h | h
    · rw [length_decimalDigits_of_lt h, Nat.pow_one]
      exact h
    · have hrest := ih (n / 10) (by omega)
      rw [length_decimalDigits_of_le h, Nat.pow_succ]
      omega

/-- A number other than zero is not below the power of ten that all its digits but one give. -/
theorem pow_le_of_lt_length_decimalDigits {n k : Nat} (hn : n ≠ 0)
    (hk : k < (decimalDigits n).length) : 10 ^ k ≤ n := by
  induction n using Nat.strongRecOn generalizing k with
  | ind n ih =>
    rcases Nat.lt_or_ge n 10 with h | h
    · rw [length_decimalDigits_of_lt h, Nat.lt_one_iff] at hk
      rw [hk, Nat.pow_zero]
      omega
    · rw [length_decimalDigits_of_le h] at hk
      cases k with
      | zero => omega
      | succ k =>
        have hrest := ih (n / 10) (by omega) (by omega) (Nat.succ_lt_succ_iff.mp hk)
        rw [Nat.pow_succ]
        omega

/-- Doubling and halving are less than moving the point, three places of the one being one of the
other. -/
theorem two_mul_mul_two_pow_le {n length places j k : Nat} (hn : n < 10 ^ length)
    (hplaces : length + k ≤ places) (hk : j + 1 ≤ 3 * k) : 2 * (n * 2 ^ j) ≤ 10 ^ places :=
  calc 2 * (n * 2 ^ j) = n * 2 ^ (j + 1) := by rw [mul_left_comm, pow_succ']
    _ ≤ 10 ^ length * 2 ^ (3 * k) :=
        Nat.mul_le_mul hn.le (Nat.pow_le_pow_right (by decide) hk)
    _ = 10 ^ length * (2 ^ 3) ^ k := by rw [pow_mul]
    _ ≤ 10 ^ length * 10 ^ k := Nat.mul_le_mul_left _ (Nat.pow_le_pow_left (by decide) k)
    _ = 10 ^ (length + k) := (pow_add 10 length k).symm
    _ ≤ 10 ^ places := Nat.pow_le_pow_right (by decide) hplaces

theorem lt_two_mul_mul_two_pow {n : Nat} (hn : 0 < n) (k : Nat) : n < 2 * (n * 2 ^ k) := by
  have hle : n ≤ n * 2 ^ k := Nat.le_mul_of_pos_right n (Nat.two_pow_pos k)
  omega

/-! ## Fractions that round to zero -/

/-- At most one half is rounded to zero, one half being a tie. -/
theorem roundHalfEven_eq_zero_iff {num den : Nat} (h : 0 < den) :
    roundHalfEven num den = 0 ↔ 2 * num ≤ den := by
  rcases Nat.lt_or_ge num den with hsmall | hlarge
  · simp only [roundHalfEven, Nat.div_eq_of_lt hsmall, Nat.mod_eq_of_lt hsmall]
    split_ifs with hbelow habove
    · exact iff_of_true rfl hbelow.le
    · exact iff_of_false id (Nat.not_le.mpr habove)
    · exact iff_of_true rfl (Nat.not_lt.mp habove)
  · have hround : 0 < roundHalfEven num den :=
      lt_of_lt_of_le (Nat.div_pos hlarge h) (div_le_roundHalfEven num den)
    omega

/-- Of the places of the first bits of a fraction and of the unit that it is rounded to, the second
is far below the first, unless it is the lowest there is. -/
theorem unitExponent_cases (num den : Nat) :
    unitExponent num den = -1074 ∨
      -1074 < unitExponent num den ∧ unitExponent num den + 52 ≤ (num.log2 : Int) - den.log2 := by
  simp only [unitExponent]
  split <;> omega

/-- A fraction is nearest to zero exactly if twice the fraction is at most the least positive
number. -/
theorem significand_nearest_eq_zero_iff {num den : Nat} (hden : 0 < den) :
    (nearest num den).significand = 0 ↔ 2 * (num * 2 ^ 1074) ≤ den := by
  rcases Nat.eq_zero_or_pos num with rfl | hnum
  · rw [zero_mul, mul_zero]
    exact iff_of_true rfl (Nat.zero_le den)
  have hnear : (nearest num den).significand =
      roundHalfEven (num * 2 ^ (-unitExponent num den).toNat)
        (den * 2 ^ (unitExponent num den).toNat) := by
    simp [nearest, hnum.ne', shiftDown]
  rw [hnear, roundHalfEven_eq_zero_iff (Nat.mul_pos hden (Nat.two_pow_pos _))]
  have hlow : 2 ^ num.log2 ≤ num := Nat.log2_self_le hnum.ne'
  have hhigh : den < 2 ^ (den.log2 + 1) := Nat.lt_log2_self
  rcases unitExponent_cases num den with he | ⟨he, hplace⟩
  · have hunit : (-(-1074 : Int)).toNat = 1074 ∧ (-1074 : Int).toNat = 0 := by decide
    rw [he, hunit.1, hunit.2, pow_zero, mul_one]
  · -- The first bit of the fraction is too high for either side.
    have habove : ∀ a b : Nat, (den.log2 : Int) + b ≤ num.log2 + a →
        den * 2 ^ b < 2 * (num * 2 ^ a) := by
      intro a b hab
      calc den * 2 ^ b < 2 ^ (den.log2 + 1) * 2 ^ b :=
            Nat.mul_lt_mul_of_pos_right hhigh (Nat.two_pow_pos b)
        _ = 2 * 2 ^ (den.log2 + b) := by rw [pow_succ', mul_assoc, pow_add]
        _ ≤ 2 * 2 ^ (num.log2 + a) :=
            Nat.mul_le_mul_left 2 (Nat.pow_le_pow_right (by decide) (by omega))
        _ = 2 * (2 ^ num.log2 * 2 ^ a) := by rw [pow_add]
        _ ≤ 2 * (num * 2 ^ a) := Nat.mul_le_mul_left 2 (Nat.mul_le_mul_right _ hlow)
    have hround := habove (-unitExponent num den).toNat (unitExponent num den).toNat (by omega)
    have hvalue := habove 1074 0 (by omega)
    rw [pow_zero, mul_one] at hvalue
    exact iff_of_false (Nat.not_le.mpr hround) (Nat.not_le.mpr hvalue)

/-- Zero is in range. -/
theorem Dyadic.inRange_of_significand_eq_zero {x : Dyadic} (h : x.significand = 0) :
    x.inRange = true := by
  rw [inRange, h, Nat.zero_mul, decide_eq_true_eq]
  -- Which power of two bounds the range does not matter.
  generalize 1024 = k
  exact Nat.mul_pos (Nat.two_pow_pos k) (Nat.two_pow_pos _)

/-- So is it on every scale. -/
theorem Dyadic.scaled_of_significand_eq_zero {x : Dyadic} (h : x.significand = 0) (k : Nat) :
    x.scaled k = 0 := by
  have hpos : 0 < Nat.pow 2 (-(x.exponent + k)).toNat := Nat.two_pow_pos _
  rw [scaled, h, Nat.mul_zero, Nat.zero_mul, Nat.zero_add]
  exact Nat.div_eq_of_lt (by omega)

/-! ## Decimal numbers that are taken for zero -/

namespace Decimal

/-- Twice the magnitude is at most `2 ^ (-1074)`, the least positive number of binary64. -/
def IsNegligible (x : Decimal) : Prop :=
  2 * (x.digits * 10 ^ x.exponent.toNat * 2 ^ 1074) ≤ 10 ^ (-x.exponent).toNat

/-- A number whose digits all stand far behind the point is negligible. -/
theorem isNegligible_of_size_lt {x : Decimal} (h : x.size < -400) : x.IsNegligible := by
  simp only [size] at h
  have hexponent : x.exponent.toNat = 0 := by omega
  have hplaces : (decimalDigits x.digits).length + 400 ≤ (-x.exponent).toNat := by omega
  rw [IsNegligible, hexponent, pow_zero, mul_one]
  exact two_mul_mul_two_pow_le (lt_pow_length_decimalDigits x.digits) hplaces (by decide)

/-- A number with a digit before its point is not negligible. -/
theorem not_isNegligible_of_size_pos {x : Decimal} (hne : x.digits ≠ 0) (h : 0 < x.size) :
    ¬ x.IsNegligible := by
  have hlength : (decimalDigits x.digits).length ≠ 0 :=
    List.length_eq_zero_iff.not.mpr (decimalDigits_ne_nil x.digits)
  simp only [size] at h
  have hplaces : (-x.exponent).toNat < (decimalDigits x.digits).length := by omega
  have hdigits := pow_le_of_lt_length_decimalDigits hne hplaces
  have hscaled : x.digits ≤ x.digits * 10 ^ x.exponent.toNat :=
    Nat.le_mul_of_pos_right _ (pow_pos (by decide) _)
  have hpos : 0 < x.digits * 10 ^ x.exponent.toNat :=
    lt_of_lt_of_le (Nat.pos_of_ne_zero hne) hscaled
  exact Nat.not_le.mpr
    (lt_of_le_of_lt (hdigits.trans hscaled) (lt_two_mul_mul_two_pow hpos 1074))

/-- **A decimal number is taken for zero** exactly if it is negligible. -/
theorem magnitude?_eq_zero_iff {x : Decimal} :
    (∃ z, x.magnitude? = some z ∧ z.significand = 0) ↔ x.IsNegligible := by
  by_cases hzero : x.digits = 0
  · have hmagnitude : x.magnitude? = some ⟨0, 0⟩ := by simp [magnitude?, hzero]
    have hnegligible : x.IsNegligible := by
      rw [IsNegligible, hzero, zero_mul, zero_mul, mul_zero]
      exact Nat.zero_le _
    exact iff_of_true ⟨_, hmagnitude, rfl⟩ hnegligible
  by_cases hsmall : x.size < -400
  · have hmagnitude : x.magnitude? = some ⟨0, 0⟩ := by simp [magnitude?, hsmall]
    exact iff_of_true ⟨_, hmagnitude, rfl⟩ (isNegligible_of_size_lt hsmall)
  by_cases hlarge : 310 < x.size
  · have hmagnitude : x.magnitude? = none := by simp [magnitude?, hzero, hsmall, hlarge]
    refine iff_of_false ?_ (not_isNegligible_of_size_pos hzero (by omega))
    rintro ⟨z, hz, -⟩
    rw [hmagnitude] at hz
    cases hz
  · -- The number is computed, and zero is in range.
    have hmagnitude : x.magnitude? = (some (nearest (x.digits * 10 ^ x.exponent.toNat)
        (10 ^ (-x.exponent).toNat))).filter Dyadic.inRange := by
      simp [magnitude?, hzero, hsmall, hlarge]
    rw [IsNegligible, ← significand_nearest_eq_zero_iff (Nat.pow_pos (by decide)), hmagnitude]
    constructor
    · rintro ⟨z, hz, hsignificand⟩
      obtain ⟨hnearest, -⟩ := Option.filter_eq_some_iff.mp hz
      rwa [Option.some.inj hnearest]
    · intro hsignificand
      refine ⟨_, Option.filter_eq_some_iff.mpr ⟨rfl, ?_⟩, hsignificand⟩
      exact Dyadic.inRange_of_significand_eq_zero hsignificand

end Decimal

end LvmControl.Number
