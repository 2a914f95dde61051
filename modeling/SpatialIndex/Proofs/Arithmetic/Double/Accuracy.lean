import SpatialIndex.Proofs.Arithmetic.Accuracy
import SpatialIndex.Proofs.Arithmetic.Double.Operations

/-!
# Doubles are accurate

A number from the least normal double on is rounded to a multiple of its last digit, which is the
52nd after its first. Below that all doubles are multiples of the least one, so their differences are
doubles too.
-/
namespace SpatialIndex.Double

open Rounding (leastNormal unitError)

/-! ## Nearest doubles -/

/-- The nearest integer is less than a unit away. -/
theorem nearestInt_near (x : ℚ) : |(nearestInt x : ℚ) - x| ≤ 1 := by
  obtain ⟨low, high⟩ := nearestInt_bounds x
  have least : ((⌊x⌋ : ℤ) : ℚ) ≤ nearestInt x := Int.cast_le.mpr low
  have most : (nearestInt x : ℚ) ≤ ⌊x⌋ + 1 := by exact_mod_cast high
  rw [abs_le]
  constructor
  · linarith only [least, Int.lt_floor_add_one x]
  · linarith only [most, Int.floor_le x]

/-- The relative error of a positive number that is not tiny. -/
theorem nearest_near {x : ℚ} (large : leastNormal ≤ x) : |nearest x - x| ≤ unitError * x := by
  have positive := lt_of_lt_of_le Rounding.leastNormal_pos large
  have unit := two_zpow_pos (lastDigit x)
  have log := le_log large
  have digit : lastDigit x = Int.log 2 x - 52 := by
    unfold lastDigit
    omega
  have error : nearest x - x =
      ((nearestInt (x / 2 ^ lastDigit x) : ℚ) - x / 2 ^ lastDigit x) * 2 ^ lastDigit x := by
    rw [sub_mul, div_mul_cancel₀ _ (ne_of_gt unit)]
    rfl
  have last : (2 : ℚ) ^ lastDigit x = unitError * 2 ^ Int.log 2 x := by
    rw [digit, zpow_sub₀ (by norm_num), unitError, ← zpow_natCast]
    ring
  rw [error, abs_mul, abs_of_pos unit]
  calc |(nearestInt (x / 2 ^ lastDigit x) : ℚ) - x / 2 ^ lastDigit x| * 2 ^ lastDigit x
      ≤ 1 * 2 ^ lastDigit x := mul_le_mul_of_nonneg_right (nearestInt_near _) (le_of_lt unit)
    _ = unitError * 2 ^ Int.log 2 x := by rw [one_mul, last]
    _ ≤ unitError * x :=
      mul_le_mul_of_nonneg_left (log_spec positive).1 Rounding.unitError_nonneg

/-! ## Signs -/

/-- What is rounded to a finite result, and to which, by the size and the sign. -/
theorem round_eq_finite_iff {x y : ℚ} : round (.finite x) = .finite y ↔
    nearest |x| < 2 ^ (1024 : Nat) ∧ y = if x < 0 then -nearest |x| else nearest |x| := by
  unfold round saturate
  simp only
  by_cases negative : x < 0
  · rw [abs_of_neg negative, if_pos negative, if_pos negative]
    split
    · rename_i small
      rw [show (Exact.finite (nearest (-x))).neg = .finite (-nearest (-x)) from rfl,
        Exact.finite.injEq, eq_comm, and_iff_right small]
    · rename_i large
      exact iff_of_false (fun absurd => by cases absurd) fun both => large both.1
  · rw [abs_of_nonneg (not_lt.mp negative), if_neg negative, if_neg negative]
    split
    · rename_i small
      rw [Exact.finite.injEq, eq_comm, and_iff_right small]
    · rename_i large
      exact iff_of_false (fun absurd => by cases absurd) fun both => large both.1

/-- What is not too great is rounded to a finite result. -/
theorem exists_round {x : ℚ} (small : nearest |x| < 2 ^ (1024 : Nat)) :
    ∃ y, round (.finite x) = .finite y :=
  ⟨_, round_eq_finite_iff.mpr ⟨small, rfl⟩⟩

/-- A number can be represented when its size can. -/
theorem round_eq_self_iff {x : ℚ} :
    round (.finite x) = .finite x ↔ nearest |x| = |x| ∧ |x| < 2 ^ (1024 : Nat) := by
  rw [round_eq_finite_iff]
  by_cases negative : x < 0
  · rw [if_pos negative, abs_of_neg negative]
    constructor
    · rintro ⟨small, same⟩
      have fixed : nearest (-x) = -x := by linarith only [same]
      exact ⟨fixed, fixed ▸ small⟩
    · rintro ⟨fixed, small⟩
      rw [fixed]
      exact ⟨small, (neg_neg x).symm⟩
  · rw [if_neg negative, abs_of_nonneg (not_lt.mp negative)]
    constructor
    · rintro ⟨small, same⟩
      exact ⟨same.symm, same ▸ small⟩
    · rintro ⟨fixed, small⟩
      rw [fixed]
      exact ⟨small, rfl⟩

/-- A finite result is as far from a number as the nearest double is from its size. -/
theorem round_near {x y : ℚ} (large : leastNormal ≤ |x|) (same : round (.finite x) = .finite y) :
    |y - x| ≤ unitError * |x| := by
  have error := nearest_near large
  obtain ⟨-, rfl⟩ := round_eq_finite_iff.mp same
  split
  · rename_i negative
    rw [abs_of_neg negative] at error ⊢
    rwa [← abs_neg, neg_sub', neg_neg]
  · rename_i positive
    rwa [abs_of_nonneg (not_lt.mp positive)] at error ⊢

/-! ## Digits -/

/-- The size of a double is a multiple of its last digit, with at most 53 digits. -/
theorem size_spec {x : ℚ} (fixed : round (.finite x) = .finite x) :
    ∃ m : Nat, m ≤ 2 ^ (53 : Nat) ∧ |x| = m * 2 ^ lastDigit |x| := by
  obtain ⟨same, -⟩ := round_eq_self_iff.mp fixed
  rcases lt_or_eq_of_le (abs_nonneg x) with positive | zero
  · have quotient := div_pos positive (two_zpow_pos (lastDigit |x|))
    have least : (0 : ℤ) ≤ nearestInt (|x| / 2 ^ lastDigit |x|) :=
      le_nearestInt (by rw [Int.cast_zero]; exact le_of_lt quotient)
    have most := nearestInt_le (le_of_lt (digits_spec positive).1)
    refine ⟨(nearestInt (|x| / 2 ^ lastDigit |x|)).toNat, by omega, ?_⟩
    rw [← Int.cast_natCast, Int.toNat_of_nonneg least]
    exact same.symm
  · exact ⟨0, Nat.zero_le _, by rw [← zero, Nat.cast_zero, zero_mul]⟩

/-- What has at most 53 digits can be represented, with both signs. -/
theorem round_size {x : ℚ} {m : Nat} {e : ℤ} (size : |x| = m * 2 ^ e) (short : m ≤ 2 ^ (53 : Nat))
    (least : -1074 ≤ e) (small : |x| < 2 ^ (1024 : Nat)) :
    round (.finite x) = .finite x := by
  refine round_eq_self_iff.mpr ⟨?_, small⟩
  rw [size]
  exact nearest_digits short least

/-- Half a double is one unless it is tiny. -/
theorem round_half {x : ℚ} (fixed : round (.finite x) = .finite x) (large : leastNormal ≤ |x / 2|) :
    round (.finite (x / 2)) = .finite (x / 2) := by
  obtain ⟨m, short, size⟩ := size_spec fixed
  have small := (round_eq_self_iff.mp fixed).2
  have half : |x / 2| = |x| / 2 := by rw [abs_div, abs_two]
  have twice : (2 : ℚ) ^ (-1021 : ℤ) ≤ |x| := by
    rw [half, leastNormal] at large
    rw [show (-1021 : ℤ) = -1022 + 1 by norm_num, zpow_add₀ (by norm_num), zpow_one]
    linarith only [large]
  have log := le_log twice
  refine round_size (m := m) (e := lastDigit |x| - 1) ?_ short ?_ ?_
  · rw [half, zpow_sub_one₀ (by norm_num), ← mul_assoc, ← size]
    rfl
  · unfold lastDigit
    omega
  · rw [half]
    exact lt_of_le_of_lt (half_le_self (abs_nonneg x)) small

/-! ## Differences -/

/-- A double is a multiple of the least positive one. -/
theorem fixed_multiple {x : ℚ} (fixed : round (.finite x) = .finite x) :
    ∃ n : ℤ, x = n * 2 ^ (-1074 : ℤ) := by
  obtain ⟨m, -, size⟩ := size_spec fixed
  have deep : -1074 ≤ lastDigit |x| := le_max_right _ _
  rw [two_zpow_split deep, ← mul_assoc, ← Nat.cast_mul, ← Int.cast_natCast] at size
  rcases abs_choice x with same | opposite
  · exact ⟨_, same ▸ size⟩
  · refine ⟨-(m * 2 ^ (lastDigit |x| - -1074).toNat : Nat), ?_⟩
    rw [Int.cast_neg, neg_mul, ← size, opposite, neg_neg]

/-- The least size that is not tiny does not overflow. -/
theorem leastNormal_lt : leastNormal < 2 ^ (1024 : Nat) :=
  lt_of_le_of_lt (zpow_le_one_of_nonpos₀ (by norm_num) (by norm_num))
    (one_lt_pow₀ (by norm_num) (by norm_num))

/-- A tiny difference of doubles is a double. -/
theorem round_tiny_sub {x y : ℚ} (first : round (.finite x) = .finite x)
    (second : round (.finite y) = .finite y) (tiny : |x - y| ≤ leastNormal) :
    round (.finite (x - y)) = .finite (x - y) := by
  obtain ⟨n, rfl⟩ := fixed_multiple first
  obtain ⟨k, rfl⟩ := fixed_multiple second
  rw [← sub_mul, ← Int.cast_sub] at tiny ⊢
  generalize n - k = steps at tiny
  have unit := two_zpow_pos (-1074)
  have size : |(steps : ℚ) * 2 ^ (-1074 : ℤ)| = steps.natAbs * 2 ^ (-1074 : ℤ) := by
    rw [abs_mul, abs_of_pos unit, Nat.cast_natAbs, Int.cast_abs]
  have few : steps.natAbs ≤ 2 ^ (52 : Nat) := by
    rw [size, leastNormal, show (-1022 : ℤ) = (52 : Nat) + -1074 by norm_num,
      zpow_add₀ (by norm_num), zpow_natCast] at tiny
    exact_mod_cast le_of_mul_le_mul_right tiny unit
  exact round_size size (by omega) (le_refl _) (lt_of_le_of_lt tiny leastNormal_lt)

/-- The greatest double. -/
def greatest : ℚ := (2 ^ (53 : Nat) - 1 : Nat) * 2 ^ (971 : ℤ)

/-- Where numbers become infinite. -/
theorem overflow_eq : (2 : ℚ) ^ (1024 : Nat) = (2 ^ (53 : Nat) : Nat) * 2 ^ (971 : ℤ) := by
  rw [Nat.cast_pow, Nat.cast_ofNat, ← zpow_natCast, ← zpow_natCast, ← zpow_add₀ (by norm_num)]
  norm_num

/-- The greatest double does not overflow. -/
theorem greatest_lt : greatest < 2 ^ (1024 : Nat) := by
  rw [overflow_eq]
  exact mul_lt_mul_of_pos_right (Nat.cast_lt.mpr (by norm_num)) (two_zpow_pos _)

/-- The first digit of the greatest double. -/
theorem le_greatest : (2 : ℚ) ^ (1023 : ℤ) ≤ greatest := by
  rw [show (1023 : ℤ) = (52 : Nat) + 971 by norm_num, zpow_add₀ (by norm_num), zpow_natCast]
  refine mul_le_mul_of_nonneg_right ?_ (le_of_lt (two_zpow_pos _))
  norm_num

/-- No double is above the greatest. -/
theorem size_le_greatest {x : ℚ} (fixed : round (.finite x) = .finite x) : |x| ≤ greatest := by
  obtain ⟨m, short, size⟩ := size_spec fixed
  have small := (round_eq_self_iff.mp fixed).2
  generalize lastDigit |x| = e at size
  rcases le_or_gt e 970 with low | high
  · have most : (m : ℚ) ≤ 2 ^ (53 : Nat) := by exact_mod_cast short
    calc |x| = m * 2 ^ e := size
      _ ≤ 2 ^ (53 : Nat) * 2 ^ (970 : ℤ) :=
        mul_le_mul most (two_zpow_le low) (le_of_lt (two_zpow_pos e)) (by norm_num)
      _ = 2 ^ (1023 : ℤ) := by
        rw [← zpow_natCast, ← zpow_add₀ (by norm_num)]
        norm_num
      _ ≤ greatest := le_greatest
  · -- the size is a multiple of the last digit of the greatest double
    rw [two_zpow_split (by omega : 971 ≤ e), ← mul_assoc, ← Nat.cast_mul] at size
    rw [size, overflow_eq] at small
    have fewer := Nat.cast_lt.mp (lt_of_mul_lt_mul_right small (le_of_lt (two_zpow_pos _)))
    rw [size, greatest]
    exact mul_le_mul_of_nonneg_right (Nat.cast_le.mpr (by omega)) (le_of_lt (two_zpow_pos _))

/-- A number a little above an integer is rounded to it. -/
theorem nearestInt_add {n : ℤ} {rest : ℚ} (nonneg : 0 ≤ rest) (less : rest < 1 / 2) :
    nearestInt (n + rest) = n := by
  have floor : ⌊n + rest⌋ = n := by
    rw [Int.floor_intCast_add, Int.floor_eq_zero_iff.mpr ⟨nonneg, by linarith⟩, add_zero]
  rw [nearestInt, floor, add_sub_cancel_left, if_pos less]

/-- What is above the greatest double by no more than a natural number that fits a significand is
rounded to it. -/
theorem nearest_greatest : nearest (greatest + 2 ^ (53 : Nat)) = greatest := by
  have unit := two_zpow_pos 971
  have rest : (2 : ℚ) ^ (53 : Nat) / 2 ^ (971 : ℤ) < 1 / 2 := by
    rw [← zpow_natCast, ← zpow_sub₀ (by norm_num)]
    exact lt_of_le_of_lt (two_zpow_le (by norm_num : ((53 : Nat) - 971 : ℤ) ≤ -2)) (by norm_num)
  have quotient : (greatest + 2 ^ (53 : Nat)) / 2 ^ (971 : ℤ) =
      ((2 ^ (53 : Nat) - 1 : ℤ) : ℚ) + 2 ^ (53 : Nat) / 2 ^ (971 : ℤ) := by
    rw [add_div, greatest, mul_div_cancel_right₀ _ (ne_of_gt unit)]
    norm_num
  have below : greatest + 2 ^ (53 : Nat) < 2 ^ (1023 + 1 : ℤ) := by
    have less : (2 : ℚ) ^ (53 : Nat) < 1 / 2 * 2 ^ (971 : ℤ) := (div_lt_iff₀ unit).mp rest
    rw [show (1023 + 1 : ℤ) = (1024 : Nat) by norm_num, zpow_natCast, overflow_eq, greatest]
    generalize (2 : ℚ) ^ (971 : ℤ) = digit at less unit
    norm_num
    linarith only [less, unit]
  have digit : lastDigit (greatest + 2 ^ (53 : Nat)) = 971 := by
    have log : Int.log 2 (greatest + 2 ^ (53 : Nat)) = 1023 :=
      log_eq (le_add_of_le_of_nonneg le_greatest (by norm_num)) below
    unfold lastDigit
    omega
  rw [nearest, digit, quotient, nearestInt_add (by positivity) rest, greatest]
  norm_num

/-- The difference of a natural number and a double does not overflow. -/
theorem exists_nat_sub {n : Nat} {x : ℚ} (short : n ≤ 2 ^ (53 : Nat))
    (fixed : round (.finite x) = .finite x) : ∃ y, round (.finite (n - x)) = .finite y := by
  have bound : |n - x| ≤ greatest + 2 ^ (53 : Nat) := by
    have count : (n : ℚ) ≤ 2 ^ (53 : Nat) := by exact_mod_cast short
    have apart := abs_sub (n : ℚ) x
    rw [Nat.abs_cast] at apart
    linarith only [apart, count, size_le_greatest fixed]
  have most := nearest_mono (abs_nonneg _) bound
  rw [nearest_greatest] at most
  exact exists_round (lt_of_le_of_lt most greatest_lt)

/-- Doubles are accurate. -/
theorem accurate : rounding.Accurate where
  near := round_near
  normal := round_size (m := 1) (e := -1022)
    (by rw [Nat.cast_one, one_mul]; exact abs_of_pos Rounding.leastNormal_pos) (by norm_num)
    (by norm_num) (lt_of_le_of_lt (le_of_eq (abs_of_pos Rounding.leastNormal_pos)) leastNormal_lt)
  tiny_sub := round_tiny_sub
  nat_sub := exists_nat_sub
  half := round_half

end SpatialIndex.Double
