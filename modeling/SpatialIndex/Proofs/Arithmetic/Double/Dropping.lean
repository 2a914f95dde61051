import SpatialIndex.Proofs.Arithmetic.Double.Canonical

/-!
# Dropping digits

What a significand leaves out is known as far as rounding needs it: nothing, less than half a unit,
half a unit, or more. That is kept while digits are dropped, so a result is rounded once, and to the
nearest form.
-/
namespace SpatialIndex.Double

open Float.Model (Format UnpackedFloat totalExponent)
open Float.Model.UnpackedFloat

/-- What an accuracy says of the rest that a significand leaves out. -/
def Rest : Accuracy → ℚ → Prop
  | .exact, rest => rest = 0
  | .inexact .lt, rest => 0 < rest ∧ rest < 1 / 2
  | .inexact .eq, rest => rest = 1 / 2
  | .inexact .gt, rest => 1 / 2 < rest ∧ rest < 1

/-- A rest that a significand leaves out is less than its last digit. -/
theorem Rest.bounds {accuracy : Accuracy} {rest : ℚ} (known : Rest accuracy rest) :
    0 ≤ rest ∧ rest < 1 := by
  unfold Rest at known
  split at known
  · rw [known]
    norm_num
  · exact ⟨le_of_lt known.1, by linarith [known.2]⟩
  · rw [known]
    norm_num
  · exact ⟨by linarith [known.1], known.2⟩

/-- A significand that stands for a number, with what it leaves out. -/
def Represents (digits : ExtendedMantissa) (x : ℚ) : Prop :=
  Rest digits.accuracy (x - digits.mantissa)

/-- A significand with the accuracy of a rest stands for the sum of both. -/
theorem represents_of {accuracy : Accuracy} {rest : ℚ} (known : Rest accuracy rest) (m : Nat) :
    Represents (.ofMantissaAndAccuracy m accuracy) (m + rest) := by
  unfold Represents ExtendedMantissa.ofMantissaAndAccuracy
  split <;> simpa [ExtendedMantissa.accuracy] using known

namespace Represents

variable {digits : ExtendedMantissa} {x : ℚ} (stands : Represents digits x)

include stands

/-- The significand is the number without its rest. -/
theorem floor : ⌊x⌋ = digits.mantissa := by
  have bounds := Rest.bounds stands
  exact Int.floor_eq_iff.mpr ⟨by push_cast; linarith [bounds.1], by push_cast; linarith [bounds.2]⟩

/-- The significand is rounded to the nearest integer. -/
theorem rounded : (digits.roundedMantissa : ℤ) = nearestInt x := by
  have whole := stands.floor
  obtain ⟨m, half, more⟩ := digits
  unfold nearestInt
  rw [whole]
  show _ = if x - (m : ℤ) < 1 / 2 then (m : ℤ) else
    if x - (m : ℤ) = 1 / 2 then (m : ℤ) + (m : ℤ) % 2 else (m : ℤ) + 1
  rw [Int.cast_natCast]
  cases half with
  | false =>
    have less : x - m < 1 / 2 := by
      cases more with
      | false => exact lt_of_eq_of_lt stands (by norm_num)
      | true => exact stands.2
    rw [if_pos less]
    cases more <;> rfl
  | true =>
    cases more with
    | false =>
      have same : x - m = 1 / 2 := stands
      rw [if_neg (not_lt.mpr (ge_of_eq same)), if_pos same]
      exact Int.natCast_add m (m % 2)
    | true =>
      have greater : 1 / 2 < x - m := stands.1
      rw [if_neg (not_lt.mpr (le_of_lt greater)), if_neg (ne_of_gt greater)]
      rfl

/-- One digit is dropped. -/
theorem shiftRightOne : Represents digits.shiftRightOne (x / 2) := by
  obtain ⟨m, half, more⟩ := digits
  have parts : ((m % 2 : Nat) : ℚ) + 2 * ((m / 2 : Nat) : ℚ) = m := by
    exact_mod_cast Nat.mod_add_div m 2
  have bounds := Rest.bounds stands
  show Rest (ExtendedMantissa.accuracy ⟨m / 2, m % 2 != 0, half || more⟩) (x / 2 - (m / 2 : Nat))
  -- what is left out is half of the dropped digit and of what was left out before
  have split : x / 2 - (m / 2 : Nat) = ((m % 2 : Nat) + (x - m)) / 2 := by linarith
  have none : x - m = 0 ↔ (half || more) = false := by
    cases half with
    | false => cases more with
      | false => exact iff_of_true stands rfl
      | true => exact iff_of_false (ne_of_gt stands.1) Bool.noConfusion
    | true => cases more with
      | false =>
        have half : x - m = 1 / 2 := stands
        exact iff_of_false (by linarith) Bool.noConfusion
      | true => exact iff_of_false (by linarith [stands.1]) Bool.noConfusion
  rw [split]
  generalize x - m = rest at bounds none
  generalize (half || more) = left at none
  obtain ⟨least, less⟩ := bounds
  have some (left : left = true) : 0 < rest :=
    lt_of_le_of_ne least fun zero => by rw [none.mp zero.symm] at left; cases left
  rcases Nat.mod_two_eq_zero_or_one m with even | odd
  · rw [even, Nat.cast_zero, zero_add]
    cases left with
    | false =>
      show rest / 2 = 0
      rw [none.mpr rfl, zero_div]
    | true => exact ⟨half_pos (some rfl), by linarith⟩
  · rw [odd, Nat.cast_one]
    cases left with
    | false =>
      show (1 + rest) / 2 = 1 / 2
      rw [none.mpr rfl, add_zero]
    | true => exact ⟨by linarith [some rfl], by linarith⟩

/-- Digits are dropped. -/
theorem shiftRight (count : Nat) : Represents (digits >>> count) (x / 2 ^ count) := by
  show Represents (count.repeat ExtendedMantissa.shiftRightOne digits) _
  induction count with
  | zero => rwa [pow_zero, div_one]
  | succ count ih =>
    rw [pow_succ, ← div_div]
    exact ih.shiftRightOne

end Represents

/-! ## To the last digit -/

section LastDigit

variable {m : Nat} {e : ℤ} {rest : ℚ} {accuracy : Accuracy}

/-- The logarithm of a number is that of its significand, if it has one. -/
theorem log_scaled (some : 0 < m) (least : 0 ≤ rest) (less : rest < 1) :
    Int.log 2 ((m + rest) * 2 ^ e) = m.log2 + e := by
  have unit := two_zpow_pos e
  have low : ((2 ^ m.log2 : Nat) : ℚ) ≤ m + rest := by
    have digits : ((2 ^ m.log2 : Nat) : ℚ) ≤ m :=
      Nat.cast_le.mpr (Nat.log2_self_le (Nat.ne_of_gt some))
    linarith
  have high : m + rest < ((2 ^ (m.log2 + 1) : Nat) : ℚ) := by
    have digits : ((m + 1 : Nat) : ℚ) ≤ ((2 ^ (m.log2 + 1) : Nat) : ℚ) :=
      Nat.cast_le.mpr Nat.lt_log2_self
    rw [Nat.cast_add, Nat.cast_one] at digits
    linarith
  apply log_eq
  · rw [zpow_add₀ (by norm_num), zpow_natCast]
    exact mul_le_mul_of_nonneg_right (by exact_mod_cast low) (le_of_lt unit)
  · rw [show (m.log2 : ℤ) + e + 1 = (m.log2 + 1 : Nat) + e by push_cast; ring,
      zpow_add₀ (by norm_num), zpow_natCast]
    exact mul_lt_mul_of_pos_right (by exact_mod_cast high) unit

/-- The place of the first digit of a significand with an exponent. -/
theorem log_size (some : 0 < m) (e : ℤ) : Int.log 2 (m * 2 ^ e : ℚ) = m.log2 + e := by
  have log := log_scaled (e := e) some (le_refl 0) zero_lt_one
  rwa [add_zero] at log

/-- The last digit that is kept: 53 digits from the first one, but none below that of the least
number. -/
theorem targetExponent_eq (total : ℤ) :
    Format.binary64.targetExponent total = max (total - 53) (-1074) := by
  have width : Format.binary64.mantissaBits = 53 := rfl
  have least : Format.binary64.minExponent = -1074 := by decide
  unfold Format.targetExponent
  rw [width, least]
  rfl

/-- Digits are dropped up to the last one that is kept. -/
theorem targetExponent_scaled (least : 0 ≤ rest) (less : rest < 1) (some : 0 < (m + rest : ℚ))
    (fine : 0 < m ∨ e ≤ lastDigit ((m + rest) * 2 ^ e)) :
    Format.binary64.targetExponent (totalExponent m e) = lastDigit ((m + rest) * 2 ^ e) := by
  rw [targetExponent_eq]
  unfold totalExponent
  rcases Nat.eq_zero_or_pos m with rfl | positive
  · -- without a significand, the number is below the least one
    have fine := fine.resolve_left (Nat.lt_irrefl 0)
    rw [Nat.cast_zero, zero_add] at some fine ⊢
    have unit := two_zpow_pos e
    have small : rest * 2 ^ e < 2 ^ e := mul_lt_of_lt_one_left unit less
    have log := log_lt (mul_pos some unit) small
    have none : Nat.log2 0 = 0 := by decide
    unfold lastDigit at fine ⊢
    omega
  · unfold lastDigit
    rw [log_scaled positive least less]
    omega

/-- What remains when digits are dropped stands for the number in units of its last digit. -/
theorem shiftToTargetExponent_spec (known : Rest accuracy rest) (some : 0 < (m + rest : ℚ))
    (fine : e ≤ lastDigit ((m + rest) * 2 ^ e)) :
    (shiftToTargetExponent Format.binary64 m e accuracy).2 = lastDigit ((m + rest) * 2 ^ e) ∧
      Represents (shiftToTargetExponent Format.binary64 m e accuracy).1
        ((m + rest) * 2 ^ e / 2 ^ lastDigit ((m + rest) * 2 ^ e)) := by
  have target := targetExponent_scaled known.bounds.1 known.bounds.2 some (.inr fine)
  unfold shiftToTargetExponent shiftToExponent
  rw [target]
  generalize lastDigit ((m + rest) * 2 ^ e) = last at fine
  obtain ⟨count, gap⟩ := Int.le.dest fine
  have shift : (last - e).toNat = count := by omega
  have quotient : (m + rest) * 2 ^ e / 2 ^ last = (m + rest) / 2 ^ count := by
    rw [← gap, zpow_add₀ (by norm_num), zpow_natCast, mul_comm ((2 : ℚ) ^ e) (2 ^ count),
      mul_div_mul_right _ _ (ne_of_gt (two_zpow_pos e))]
  simp only [shift]
  rw [quotient]
  exact ⟨gap, (represents_of known m).shiftRight count⟩

/-- A significand that was rounded is canonical once a digit was carried. -/
theorem carry_spec (short : m ≤ 2 ^ (53 : Nat)) (least : -1074 ≤ e)
    (first : 2 ^ (52 : Nat) ≤ m ∨ e = -1074) :
    let carried := shiftToTargetExponent Format.binary64 m e .exact
    Fits carried.1.mantissa carried.2 ∧
      (carried.1.mantissa * 2 ^ carried.2 : ℚ) = m * 2 ^ e := by
  unfold shiftToTargetExponent shiftToExponent
  rw [targetExponent_eq]
  unfold totalExponent
  rcases lt_or_eq_of_le short with less | rfl
  · have log : m.log2 < 53 := by
      rcases Nat.eq_zero_or_pos m with rfl | some
      · decide
      · exact (Nat.log2_lt (Nat.ne_of_gt some)).mpr less
    have shift : (max ((m.log2 : ℤ) + 1 + e - 53) (-1074) - e).toNat = 0 := by omega
    simp only [shift]
    show Fits m (e + (0 : Nat)) ∧ (m * 2 ^ (e + (0 : Nat)) : ℚ) = _
    rw [Nat.cast_zero, add_zero]
    exact ⟨⟨less, least, first⟩, rfl⟩
  · have shift : (max (((2 ^ (53 : Nat)).log2 : ℤ) + 1 + e - 53) (-1074) - e).toNat = 1 := by
      rw [Nat.log2_two_pow]
      omega
    simp only [shift]
    show Fits (2 ^ (52 : Nat)) (e + (1 : Nat)) ∧
      (((2 ^ (52 : Nat) : Nat) : ℚ) * 2 ^ (e + (1 : Nat)) : ℚ) = _
    refine ⟨⟨by norm_num, by omega, .inl (le_refl _)⟩, ?_⟩
    rw [Nat.cast_one, zpow_add₀ (by norm_num), zpow_one]
    push_cast
    ring

end LastDigit

/-! ## Results -/

/-- A result is rounded to the nearest form. -/
theorem packed_roundWithAccuracy (sign : Sign) {m : Nat} {e : ℤ} {rest : ℚ} {accuracy : Accuracy}
    (known : Rest accuracy rest) (some : 0 < (m + rest : ℚ))
    (fine : e ≤ lastDigit ((m + rest) * 2 ^ e)) :
    packed (roundWithAccuracy Format.binary64 sign m e accuracy) =
      round (signed sign (.finite ((m + rest) * 2 ^ e))) := by
  obtain ⟨last, stands⟩ := shiftToTargetExponent_spec known some fine
  have positive : (0 : ℚ) < (m + rest) * 2 ^ e := mul_pos some (two_zpow_pos e)
  rw [round_signed, round_of_nonneg (le_of_lt positive)]
  unfold roundWithAccuracy nearest
  generalize (m + rest) * 2 ^ e = x at last stands positive ⊢
  generalize shiftToTargetExponent Format.binary64 m e accuracy = dropped at last stands ⊢
  obtain ⟨digits, exponent⟩ := dropped
  obtain rfl : exponent = lastDigit x := last
  obtain ⟨high, low⟩ := digits_spec positive
  have value := stands.rounded
  have short : digits.roundedMantissa ≤ 2 ^ (53 : Nat) := by
    have bound := nearestInt_le (le_of_lt high)
    rw [← value] at bound
    exact_mod_cast bound
  have first : 2 ^ (52 : Nat) ≤ digits.roundedMantissa ∨ lastDigit x = -1074 := by
    rcases low with least | long
    · exact .inr least
    · have bound := le_nearestInt long
      rw [← value] at bound
      exact .inl (by exact_mod_cast bound)
  have least : -1074 ≤ lastDigit x := le_max_right _ _
  obtain ⟨fits, same⟩ := carry_spec short least first
  rw [← value, Int.cast_natCast]
  rw [← same]
  exact packed_canonical sign fits

/-- A number that is given exactly is rounded to the nearest form. -/
theorem packed_exact (sign : Sign) {m : Nat} {e : ℤ} (some : (0 : ℚ) < m)
    (fine : e ≤ lastDigit (m * 2 ^ e)) :
    packed (roundWithAccuracy Format.binary64 sign m e .exact) =
      round (signed sign (.finite (m * 2 ^ e))) := by
  have whole : (m + 0 : ℚ) = m := add_zero _
  have none : Rest .exact 0 := rfl
  have rounded := packed_roundWithAccuracy sign (m := m) (e := e) none
  rw [whole] at rounded
  exact rounded some fine

/-- A lesser exponent needs more digits. -/
theorem decreaseExponent_spec (m : Nat) (e least : ℤ) :
    (decreaseExponent m e least).2 = min e least ∧
      ((decreaseExponent m e least).1 * 2 ^ min e least : ℚ) = m * 2 ^ e := by
  have shift : (e - least).toNat + min e least = e := by omega
  refine ⟨eq_sub_of_add_eq' shift ▸ rfl, ?_⟩
  unfold decreaseExponent
  simp only [Nat.shiftLeft_eq]
  push_cast
  rw [mul_assoc, ← zpow_natCast, ← zpow_add₀ (by norm_num), shift]

/-- A number is rounded to the nearest form. -/
theorem packed_round (sign : Sign) {m : Nat} (some : 0 < m) (e : ℤ) :
    packed (UnpackedFloat.round Format.binary64 sign m e) =
      round (signed sign (.finite (m * 2 ^ e))) := by
  have whole : (m + 0 : ℚ) = m := add_zero _
  have target := targetExponent_scaled (e := e) (le_refl 0) zero_lt_one
    (by rw [add_zero]; exact Nat.cast_pos.mpr some) (.inl some)
  rw [whole] at target
  obtain ⟨exponent, value⟩ := decreaseExponent_spec m e (lastDigit (m * 2 ^ e))
  unfold UnpackedFloat.round
  rw [target]
  simp only
  rw [← exponent] at value
  have fine : (decreaseExponent m e (lastDigit (m * 2 ^ e))).2 ≤ lastDigit (m * 2 ^ e) := by
    rw [exponent]
    exact min_le_right _ _
  generalize decreaseExponent m e (lastDigit (m * 2 ^ e)) = finer at value fine
  rw [← value] at fine ⊢
  have positive := size_pos (e := e) some
  rw [← value, mul_pos_iff_of_pos_right (two_zpow_pos finer.2)] at positive
  exact packed_exact sign positive fine

/-- An integer and an exponent give the nearest form. -/
theorem packed_normalize (m e : ℤ) (zero : Sign) :
    packed (UnpackedFloat.normalize Format.binary64 m e zero) = round (.finite (m * 2 ^ e)) := by
  unfold UnpackedFloat.normalize
  rcases lt_trichotomy m 0 with negative | rfl | positive
  · have size : (((-m).toNat : Nat) : ℚ) = -m := by
      rw [← Int.cast_natCast, Int.toNat_of_nonneg (by omega), Int.cast_neg]
    rw [compare_lt_iff_lt.mpr negative]
    refine (packed_round .negative (by omega) e).trans ?_
    rw [size, neg_mul]
    show round (.finite (- -_)) = _
    rw [neg_neg]
  · rw [compare_eq_iff_eq.mpr rfl, Int.cast_zero, zero_mul]
    exact (packed_zero zero).trans round_zero.symm
  · have size : ((m.toNat : Nat) : ℚ) = m := by
      rw [← Int.cast_natCast, Int.toNat_of_nonneg (by omega)]
    rw [compare_gt_iff_gt.mpr positive]
    refine (packed_round .positive (by omega) e).trans ?_
    rw [size]
    rfl

end SpatialIndex.Double
