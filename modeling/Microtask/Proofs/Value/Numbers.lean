import Microtask.Number.Basic
import Mathlib.Algebra.Ring.Nat

/-!
# Counts as numbers

A number has 53 bits for the mantissa, so every natural number below `2 ^ 53` is a number
exactly: nothing is rounded away, and reading the number as a count gives it back
(`Number.toCount_ofNat`).
-/

namespace Microtask.Number

/-! ## The fields of a word -/

theorem toNat_bits_ofMagnitude {low : Nat} (h : low < 2 ^ 63) :
    (ofMagnitude false low).bits.toNat = low := by
  simp only [ofMagnitude, Nat.pow_eq, Bool.false_eq_true, if_false, Nat.add_zero,
    Nat.mod_eq_of_lt h, UInt64.toNat_ofNat']
  omega

section Fields

variable {exponent fraction : Nat}

theorem bits_ofFields (he : exponent < 2048) (hf : fraction < 2 ^ 52) :
    (ofMagnitude false (exponent * 2 ^ 52 + fraction)).bits.toNat = exponent * 2 ^ 52 + fraction :=
  toNat_bits_ofMagnitude (by omega)

theorem isNegative_ofFields (he : exponent < 2048) (hf : fraction < 2 ^ 52) :
    (ofMagnitude false (exponent * 2 ^ 52 + fraction)).isNegative = false := by
  simp only [isNegative, bits_ofFields he hf, Nat.pow_eq, decide_eq_false_iff_not]
  omega

theorem exponentField_ofFields (he : exponent < 2048) (hf : fraction < 2 ^ 52) :
    (ofMagnitude false (exponent * 2 ^ 52 + fraction)).exponentField = exponent := by
  simp only [exponentField, bits_ofFields he hf, Nat.pow_eq]
  omega

theorem fractionField_ofFields (he : exponent < 2048) (hf : fraction < 2 ^ 52) :
    (ofMagnitude false (exponent * 2 ^ 52 + fraction)).fractionField = fraction := by
  simp only [fractionField, bits_ofFields he hf, Nat.pow_eq]
  omega

/-- A finite number without a sign counts as its magnitude. -/
theorem toCount_ofFields (he : exponent < 2047) (hf : fraction < 2 ^ 52) :
    (ofMagnitude false (exponent * 2 ^ 52 + fraction)).toCount =
      min (ofMagnitude false (exponent * 2 ^ 52 + fraction)).floorMagnitude (2 ^ 64 - 1) := by
  have he' : exponent < 2048 := by omega
  have hfinite : (exponent == 2047) = false := beq_eq_false_iff_ne.2 (Nat.ne_of_lt he)
  simp only [toCount, isNaN, isInfinite, isNegative_ofFields he' hf, exponentField_ofFields he' hf,
    hfinite, Bool.false_and, Bool.or_self, Bool.false_eq_true, if_false, Nat.pow_eq]

end Fields

theorem floorMagnitude_of_mantissa_eq_zero {x : Number} (h : x.mantissa = 0) :
    x.floorMagnitude = 0 := by
  simp only [floorMagnitude, h, Nat.zero_mul, Nat.zero_div, ite_self]

/-! ## Rounding -/

/-- A multiple of the denominator is not rounded. -/
theorem roundHalfEven_mul (m : Nat) {den : Nat} (h : 0 < den) :
    roundHalfEven (m * den) den = m := by
  simp [roundHalfEven, h]

theorem binaryExponent_one {n : Nat} (h : n ≠ 0) : binaryExponent n 1 = n.log2 := by
  have hle : 2 ^ n.log2 ≤ n := Nat.log2_self_le h
  have hone : Nat.log2 1 = 0 := by decide
  simp [binaryExponent, hone, hle]

/-- The hidden bit of a natural number that is shifted to 53 bits. -/
theorem mantissa_bounds {n shift : Nat} (h₀ : n ≠ 0) (hshift : n.log2 + shift = 52) :
    2 ^ 52 ≤ n * 2 ^ shift ∧ n * 2 ^ shift < 2 ^ 53 := by
  constructor
  · calc 2 ^ 52 = 2 ^ n.log2 * 2 ^ shift := by rw [← Nat.pow_add, hshift]
      _ ≤ n * 2 ^ shift := Nat.mul_le_mul_right _ (Nat.log2_self_le h₀)
  · calc n * 2 ^ shift < 2 ^ (n.log2 + 1) * 2 ^ shift :=
          Nat.mul_lt_mul_of_pos_right Nat.lt_log2_self (Nat.two_pow_pos _)
      _ = 2 ^ 53 := by rw [← Nat.pow_add, Nat.add_right_comm, hshift]

/-- A natural number of at most 53 bits is its own mantissa, shifted until the hidden bit is in
its place. -/
theorem ofNat_eq {n shift : Nat} (h₀ : n ≠ 0) (hshift : n.log2 + shift = 52) :
    ofNat n = ofMagnitude false ((1023 + n.log2) * 2 ^ 52 + (n * 2 ^ shift - 2 ^ 52)) := by
  obtain ⟨hle, hlt⟩ := mantissa_bounds h₀ hshift
  have hq : max (binaryExponent n 1 - 52) (-1074) = -(shift : Int) := by
    rw [binaryExponent_one h₀]
    omega
  have hm : (if 0 ≤ -(shift : Int) then roundHalfEven n (1 * 2 ^ (-(shift : Int)).toNat)
      else roundHalfEven (n * 2 ^ (- -(shift : Int)).toNat) 1) = n * 2 ^ shift := by
    cases shift with
    | zero => simpa using roundHalfEven_mul n Nat.one_pos
    | succ shift =>
      rw [if_neg (by omega)]
      simpa using roundHalfEven_mul (n * 2 ^ (shift + 1)) Nat.one_pos
  have hexponent : (-(shift : Int) + 1074).toNat = 1022 + n.log2 := by omega
  have hlow : (1022 + n.log2) * 2 ^ 52 + n * 2 ^ shift =
      (1023 + n.log2) * 2 ^ 52 + (n * 2 ^ shift - 2 ^ 52) := by omega
  simp only [ofNat, nearest, h₀, if_false, hq, hexponent, Nat.pow_eq, hm]
  rw [hlow, Nat.min_eq_left (by omega)]

theorem floorMagnitude_ofNat {n : Nat} (h₀ : n ≠ 0) (h : n < 2 ^ 53) :
    (ofNat n).floorMagnitude = n := by
  obtain ⟨shift, hshift⟩ := Nat.exists_eq_add_of_le (Nat.lt_succ_iff.1 ((Nat.log2_lt h₀).2 h))
  obtain ⟨hle, hlt⟩ := mantissa_bounds h₀ hshift.symm
  have he : 1023 + n.log2 < 2048 := by omega
  have hf : n * 2 ^ shift - 2 ^ 52 < 2 ^ 52 := by omega
  have hmantissa : (ofNat n).mantissa = n * 2 ^ shift := by
    rw [ofNat_eq h₀ hshift.symm, mantissa, exponentField_ofFields he hf,
      fractionField_ofFields he hf, if_neg (by omega), Nat.pow_eq]
    omega
  have hscale : (ofNat n).scale = -(shift : Int) := by
    rw [ofNat_eq h₀ hshift.symm, scale, exponentField_ofFields he hf]
    omega
  rw [floorMagnitude, hmantissa, hscale]
  cases shift with
  | zero => simp
  | succ shift =>
    rw [if_neg (by omega), Int.neg_neg, Int.toNat_natCast, Nat.pow_eq]
    exact Nat.mul_div_cancel _ (Nat.two_pow_pos _)

/-- **Counts below `2 ^ 53` are exact.** -/
theorem toCount_ofNat {n : Nat} (h : n < 2 ^ 53) : (ofNat n).toCount = n := by
  rcases eq_or_ne n 0 with rfl | h₀
  · have hcount : (ofMagnitude false (0 * 2 ^ 52 + 0)).toCount = min _ _ :=
      toCount_ofFields (by decide) (by decide)
    rw [floorMagnitude_of_mantissa_eq_zero (by decide)] at hcount
    exact hcount.trans (Nat.zero_min _)
  · obtain ⟨shift, hshift⟩ := Nat.exists_eq_add_of_le (Nat.lt_succ_iff.1 ((Nat.log2_lt h₀).2 h))
    obtain ⟨hle, hlt⟩ := mantissa_bounds h₀ hshift.symm
    rw [ofNat_eq h₀ hshift.symm, toCount_ofFields (by omega) (by omega), ← ofNat_eq h₀ hshift.symm,
      floorMagnitude_ofNat h₀ h]
    omega

end Microtask.Number
