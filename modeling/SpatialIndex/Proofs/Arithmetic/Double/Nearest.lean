import Mathlib.Data.Int.Log
import SpatialIndex.Proofs.Arithmetic.Exact

/-!
# Rounding to nearest

A number is rounded to the nearest multiple of a power of two that depends on its size, so that the
multiple has at most 53 binary digits; of two multiples that are equally near, the even one is
taken. What is too great becomes infinite. Rounding keeps order and signs, and it leaves alone what
has no more digits than that.
-/
namespace SpatialIndex.Double

/-! ## Integers -/

/-- The integer nearest to a number; of two that are equally near, the even one. -/
def nearestInt (x : ℚ) : ℤ :=
  if x - ⌊x⌋ < 1 / 2 then ⌊x⌋ else if x - ⌊x⌋ = 1 / 2 then ⌊x⌋ + ⌊x⌋ % 2 else ⌊x⌋ + 1

/-- The nearest integer is the one below or the one above. -/
theorem nearestInt_bounds (x : ℚ) : ⌊x⌋ ≤ nearestInt x ∧ nearestInt x ≤ ⌊x⌋ + 1 := by
  unfold nearestInt
  split
  · omega
  · split <;> omega

/-- An integer is the nearest one to itself. -/
theorem nearestInt_int (n : ℤ) : nearestInt n = n := by
  unfold nearestInt
  rw [Int.floor_intCast, sub_self, if_pos (by norm_num)]

/-- Of greater numbers the nearest integers are no less. -/
theorem nearestInt_mono {x y : ℚ} (ordered : x ≤ y) : nearestInt x ≤ nearestInt y := by
  have floors := Int.floor_mono ordered
  rcases lt_or_eq_of_le floors with less | same
  · have low := (nearestInt_bounds x).2
    have high := (nearestInt_bounds y).1
    omega
  · unfold nearestInt
    rw [same]
    have rests : x - ⌊y⌋ ≤ y - ⌊y⌋ := by linarith
    generalize x - ⌊y⌋ = first at rests
    generalize y - ⌊y⌋ = last at rests
    rcases lt_trichotomy first (1 / 2) with low | half | high
    · rw [if_pos low]
      split
      · omega
      · split <;> omega
    · rw [if_neg (by linarith), if_pos half, if_neg (by linarith)]
      split <;> omega
    · rw [if_neg (by linarith), if_neg (by linarith), if_neg (by linarith), if_neg (by linarith)]

/-- A number from an integer on is rounded to no less. -/
theorem le_nearestInt {n : ℤ} {x : ℚ} (least : (n : ℚ) ≤ x) : n ≤ nearestInt x := by
  have rounded := nearestInt_mono least
  rwa [nearestInt_int] at rounded

/-- A number up to an integer is rounded to no more. -/
theorem nearestInt_le {n : ℤ} {x : ℚ} (most : x ≤ n) : nearestInt x ≤ n := by
  have rounded := nearestInt_mono most
  rwa [nearestInt_int] at rounded

/-! ## Positive numbers -/

/-- The exponent of the last digit that is kept of a positive number. -/
def lastDigit (x : ℚ) : ℤ := max (Int.log 2 x - 52) (-1074)

/-- The multiple of the last digit that is nearest to a number. -/
def nearest (x : ℚ) : ℚ := nearestInt (x / 2 ^ lastDigit x) * 2 ^ lastDigit x

/-- Powers of two are positive. -/
theorem two_zpow_pos (e : ℤ) : (0 : ℚ) < 2 ^ e := zpow_pos (by norm_num) e

/-- The size of a significand with an exponent. -/
theorem size_pos {m : Nat} {e : ℤ} (some : 0 < m) : (0 : ℚ) < m * 2 ^ e :=
  mul_pos (Nat.cast_pos.mpr some) (two_zpow_pos e)

/-- Powers of two are in the order of their exponents. -/
theorem two_zpow_le {e f : ℤ} (ordered : e ≤ f) : (2 : ℚ) ^ e ≤ 2 ^ f :=
  zpow_le_zpow_right₀ (by norm_num) ordered

/-- A power of two is a whole multiple of every lesser one. -/
theorem two_zpow_split {e f : ℤ} (ordered : f ≤ e) :
    (2 : ℚ) ^ e = (2 ^ (e - f).toNat : Nat) * 2 ^ f := by
  rw [Nat.cast_pow, Nat.cast_ofNat, ← zpow_natCast, ← zpow_add₀ (by norm_num)]
  exact congrArg (fun exponent : ℤ => (2 : ℚ) ^ exponent) (by omega)

/-- A positive number lies between two powers of two. -/
theorem log_spec {x : ℚ} (positive : 0 < x) :
    (2 : ℚ) ^ Int.log 2 x ≤ x ∧ x < 2 ^ (Int.log 2 x + 1) := by
  have low := Int.zpow_log_le_self (b := 2) (by norm_num) positive
  have high := Int.lt_zpow_succ_log_self (b := 2) (by norm_num) x
  exact_mod_cast And.intro low high

/-- No power of two up to a number is above that of its logarithm. -/
theorem le_log {x : ℚ} {n : ℤ} (low : (2 : ℚ) ^ n ≤ x) : n ≤ Int.log 2 x := by
  have positive := lt_of_lt_of_le (two_zpow_pos n) low
  have before : n < Int.log 2 x + 1 :=
    (zpow_lt_zpow_iff_right₀ (by norm_num : (1 : ℚ) < 2)).mp
      (lt_of_le_of_lt low (log_spec positive).2)
  omega

/-- Every power of two above a positive number is above that of its logarithm. -/
theorem log_lt {x : ℚ} {n : ℤ} (positive : 0 < x) (high : x < 2 ^ n) : Int.log 2 x < n :=
  (zpow_lt_zpow_iff_right₀ (by norm_num : (1 : ℚ) < 2)).mp
    (lt_of_le_of_lt (log_spec positive).1 high)

/-- The powers between which a number lies are those of its logarithm. -/
theorem log_eq {x : ℚ} {n : ℤ} (low : (2 : ℚ) ^ n ≤ x) (high : x < 2 ^ (n + 1)) :
    Int.log 2 x = n := by
  have before := le_log low
  have after := log_lt (lt_of_lt_of_le (two_zpow_pos n) low) high
  omega

/-- A positive number has at most 53 digits before its last one, and no fewer unless it is small. -/
theorem digits_spec {x : ℚ} (positive : 0 < x) :
    x / 2 ^ lastDigit x < (2 ^ (53 : Nat) : ℤ) ∧
      (lastDigit x = -1074 ∨ ((2 ^ (52 : Nat) : ℤ) : ℚ) ≤ x / 2 ^ lastDigit x) := by
  obtain ⟨low, high⟩ := log_spec positive
  have unit := two_zpow_pos (lastDigit x)
  have whole : ((2 ^ (53 : Nat) : ℤ) : ℚ) * 2 ^ lastDigit x = 2 ^ (53 + lastDigit x) := by
    rw [zpow_add₀ (by norm_num)]
    norm_num
  have half : ((2 ^ (52 : Nat) : ℤ) : ℚ) * 2 ^ lastDigit x = 2 ^ (52 + lastDigit x) := by
    rw [zpow_add₀ (by norm_num)]
    norm_num
  rw [div_lt_iff₀ unit, le_div_iff₀ unit, whole, half]
  refine ⟨lt_of_lt_of_le high (two_zpow_le ?_), ?_⟩
  · unfold lastDigit
    omega
  · rcases le_total (Int.log 2 x - 52) (-1074) with small | large
    · exact .inl (max_eq_right small)
    · have digit : lastDigit x = Int.log 2 x - 52 := max_eq_left large
      refine .inr (le_trans (two_zpow_le ?_) low)
      omega

/-- Nothing is nearer to zero than zero. -/
theorem nearest_zero : nearest 0 = 0 := by
  unfold nearest
  rw [zero_div, show (0 : ℚ) = ((0 : ℤ) : ℚ) from rfl, nearestInt_int, Int.cast_zero, zero_mul]

/-- The nearest multiple to a number that is not negative is not negative. -/
theorem nearest_nonneg {x : ℚ} (nonneg : 0 ≤ x) : 0 ≤ nearest x := by
  have quotient : ((0 : ℤ) : ℚ) ≤ x / 2 ^ lastDigit x := by
    rw [Int.cast_zero]
    exact div_nonneg nonneg (le_of_lt (two_zpow_pos _))
  exact mul_nonneg (Int.cast_nonneg (le_nearestInt quotient)) (le_of_lt (two_zpow_pos _))

/-- Rounding keeps the order of numbers that are not negative. A greater last digit makes up for any
multiple of a lesser one. -/
theorem nearest_mono {x y : ℚ} (nonneg : 0 ≤ x) (ordered : x ≤ y) : nearest x ≤ nearest y := by
  rcases lt_or_eq_of_le nonneg with positive | rfl
  · have digits : lastDigit x ≤ lastDigit y := by
      have logs := Int.log_mono_right (b := 2) positive ordered
      unfold lastDigit
      omega
    rcases lt_or_eq_of_le digits with less | same
    · have below := nearestInt_le (le_of_lt (digits_spec positive).1)
      have deep : lastDigit y ≠ -1074 := by
        unfold lastDigit at less ⊢
        omega
      have above := le_nearestInt
        ((digits_spec (lt_of_lt_of_le positive ordered)).2.resolve_left deep)
      have first : nearest x ≤ ((2 ^ (53 : Nat) : ℤ) : ℚ) * 2 ^ lastDigit x :=
        mul_le_mul_of_nonneg_right (Int.cast_le.mpr below) (le_of_lt (two_zpow_pos _))
      have last : ((2 ^ (52 : Nat) : ℤ) : ℚ) * 2 ^ lastDigit y ≤ nearest y :=
        mul_le_mul_of_nonneg_right (Int.cast_le.mpr above) (le_of_lt (two_zpow_pos _))
      have double : (2 : ℚ) ^ (lastDigit x + 1) ≤ 2 ^ lastDigit y := two_zpow_le less
      rw [zpow_add₀ (by norm_num), zpow_one] at double
      refine le_trans first (le_trans ?_ last)
      push_cast
      linarith
    · unfold nearest
      rw [same]
      refine mul_le_mul_of_nonneg_right (Int.cast_le.mpr (nearestInt_mono ?_))
        (le_of_lt (two_zpow_pos _))
      exact div_le_div_of_nonneg_right ordered (le_of_lt (two_zpow_pos _))
  · rw [nearest_zero]
    exact nearest_nonneg ordered

/-- A multiple of the last digit is left alone. -/
theorem nearest_of_multiple {x : ℚ} {n : ℤ} (multiple : x = n * 2 ^ lastDigit x) :
    nearest x = x := by
  have quotient : x / 2 ^ lastDigit x = n := by
    rw [div_eq_iff (ne_of_gt (two_zpow_pos _))]
    exact multiple
  unfold nearest
  rw [quotient, nearestInt_int]
  exact multiple.symm

/-- What has at most 53 digits is left alone. -/
theorem nearest_digits {m : Nat} {e : ℤ} (short : m ≤ 2 ^ (53 : Nat)) (least : -1074 ≤ e) :
    nearest (m * 2 ^ e) = m * 2 ^ e := by
  rcases Nat.eq_zero_or_pos m with rfl | positive
  · rw [Nat.cast_zero, zero_mul, nearest_zero]
  · rcases lt_or_eq_of_le short with less | rfl
    · -- the last digit is none of those that would be dropped
      have some := size_pos (e := e) positive
      have high : (m * 2 ^ e : ℚ) < 2 ^ (53 + e) := by
        rw [zpow_add₀ (by norm_num)]
        exact mul_lt_mul_of_pos_right (by exact_mod_cast less) (two_zpow_pos e)
      have log := log_lt some high
      have digit : lastDigit (m * 2 ^ e) ≤ e := by
        unfold lastDigit
        omega
      apply nearest_of_multiple (n := m * 2 ^ (e - lastDigit (m * 2 ^ e)).toNat)
      have split := two_zpow_split digit
      generalize lastDigit (m * 2 ^ e) = last at split
      rw [split]
      push_cast
      ring
    · have power : ((2 ^ (53 : Nat) : Nat) : ℚ) * 2 ^ e = 2 ^ (53 + e) := by
        rw [zpow_add₀ (by norm_num)]
        norm_num
      have log : Int.log 2 ((2 : ℚ) ^ (53 + e)) = 53 + e :=
        log_eq (le_refl _) (zpow_lt_zpow_right₀ (by norm_num) (by omega))
      have digit : lastDigit ((2 : ℚ) ^ (53 + e)) = e + 1 := by
        unfold lastDigit
        omega
      rw [power]
      apply nearest_of_multiple (n := 2 ^ (52 : Nat))
      rw [digit, show 53 + e = 52 + (e + 1) by ring, zpow_add₀ (by norm_num)]
      norm_num

/-! ## All numbers -/

/-- A positive number, or infinity when it is too great. -/
def saturate (x : ℚ) : Exact := if x < 2 ^ (1024 : Nat) then .finite x else .top

/-- The double nearest to an exact result. -/
def round : Exact → Exact
  | .finite x => if x < 0 then (saturate (nearest (-x))).neg else saturate (nearest x)
  | x => x

/-- Without a sign, rounding takes the nearest multiple, or infinity when it is too great. -/
theorem round_of_nonneg {x : ℚ} (nonneg : 0 ≤ x) : round (.finite x) = saturate (nearest x) :=
  if_neg (not_lt.mpr nonneg)

/-- Zero is rounded to itself. -/
theorem round_zero : round (.finite 0) = .finite 0 := by
  rw [round_of_nonneg (le_refl 0), nearest_zero]
  exact if_pos (by positivity)

/-- The opposite is rounded to the opposite. -/
theorem round_neg (x : Exact) : round x.neg = (round x).neg := by
  cases x with
  | nan | bottom | top => rfl
  | finite x =>
    rcases lt_trichotomy x 0 with negative | rfl | positive
    · have opposite : ¬-x < 0 := not_lt.mpr (by linarith)
      show (if -x < 0 then _ else _) = Exact.neg (if x < 0 then _ else _)
      rw [if_neg opposite, if_pos negative]
      unfold saturate
      split
      · exact congrArg Exact.finite (neg_neg _).symm
      · rfl
    · show round (.finite (-0)) = (round (.finite 0)).neg
      rw [neg_zero, round_zero]
      exact congrArg Exact.finite neg_zero.symm
    · have opposite : -x < 0 := by linarith
      show (if -x < 0 then _ else _) = Exact.neg (if x < 0 then _ else _)
      rw [if_pos opposite, if_neg (not_lt.mpr (le_of_lt positive)), neg_neg]

/-- What is not negative stays so when it saturates. -/
theorem saturate_nonneg {x : ℚ} (nonneg : 0 ≤ x) :
    Arithmetic.le (.finite 0) (saturate x) = true := by
  unfold saturate
  split
  · exact Exact.le_finite.mpr nonneg
  · rfl

/-- Saturating keeps the order. -/
theorem saturate_mono {x y : ℚ} (ordered : x ≤ y) :
    Arithmetic.le (saturate x) (saturate y) = true := by
  unfold saturate
  split
  · split
    · exact Exact.le_finite.mpr ordered
    · rfl
  · rename_i large
    rw [if_neg (fun small => large (lt_of_le_of_lt ordered small))]
    rfl

/-- Opposites are in the opposite order. -/
theorem neg_anti {x y : Exact} (ordered : Arithmetic.le x y = true) :
    Arithmetic.le y.neg x.neg = true := by
  cases x with
  | nan => cases ordered
  | bottom => cases y <;> first | rfl | cases ordered
  | finite x =>
    cases y with
    | nan | bottom => cases ordered
    | finite y => exact Exact.le_finite.mpr (neg_le_neg_iff.mpr (Exact.le_finite.mp ordered))
    | top => rfl
  | top => cases y <;> first | rfl | cases ordered

/-- Rounding does not make a number negative. -/
theorem round_nonneg {x : ℚ} (nonneg : 0 ≤ x) :
    Arithmetic.le (.finite 0) (round (.finite x)) = true := by
  rw [round_of_nonneg nonneg]
  exact saturate_nonneg (nearest_nonneg nonneg)

/-- A finite number is rounded to a number. -/
theorem round_between (x : ℚ) : Arithmetic.le Exact.bottom (round (.finite x)) = true ∧
    Arithmetic.le (round (.finite x)) Exact.top = true := by
  show Arithmetic.le Exact.bottom (if x < 0 then _ else _) = true ∧
    Arithmetic.le (if x < 0 then _ else _) Exact.top = true
  unfold saturate
  split <;> split <;> exact ⟨rfl, rfl⟩

/-- Rounding keeps order. -/
theorem round_mono {x y : Exact} (ordered : Arithmetic.le x y = true) :
    Arithmetic.le (round x) (round y) = true := by
  have upward {x y : ℚ} (nonneg : 0 ≤ x) (ordered : x ≤ y) :
      Arithmetic.le (round (.finite x)) (round (.finite y)) = true := by
    rw [round_of_nonneg nonneg, round_of_nonneg (le_trans nonneg ordered)]
    exact saturate_mono (nearest_mono nonneg ordered)
  have opposite (x : ℚ) : round (.finite x) = (round (.finite (-x))).neg := by
    rw [← round_neg]
    exact congrArg (fun x => round (.finite x)) (neg_neg x).symm
  cases x with
  | nan => cases ordered
  | bottom =>
    cases y with
    | nan => cases ordered
    | bottom | top => rfl
    | finite y => exact (round_between y).1
  | finite x =>
    cases y with
    | nan | bottom => cases ordered
    | top => exact (round_between x).2
    | finite y =>
      have less := Exact.le_finite.mp ordered
      rcases lt_or_ge x 0 with negative | nonneg
      · rw [opposite x]
        rcases lt_or_ge y 0 with both | above
        · rw [opposite y]
          exact neg_anti (upward (by linarith) (by linarith))
        · exact LawfulArithmetic.le_trans (neg_anti (round_nonneg (by linarith : 0 ≤ -x)))
            (round_nonneg above)
      · exact upward nonneg less
  | top =>
    cases y with
    | top => rfl
    | nan | bottom | finite => cases ordered

/-- What has at most 53 digits and is not too great is left alone. -/
theorem round_digits {m : Nat} {e : ℤ} (short : m ≤ 2 ^ (53 : Nat)) (least : -1074 ≤ e)
    (small : (m * 2 ^ e : ℚ) < 2 ^ (1024 : Nat)) :
    round (.finite (m * 2 ^ e)) = .finite (m * 2 ^ e) := by
  have nonneg : (0 : ℚ) ≤ m * 2 ^ e := mul_nonneg (Nat.cast_nonneg m) (le_of_lt (two_zpow_pos e))
  rw [round_of_nonneg nonneg, nearest_digits short least, saturate, if_pos small]

/-- Natural numbers that fit a significand are left alone. -/
theorem round_nat {n : Nat} (small : n ≤ 2 ^ (53 : Nat)) : round (.finite n) = .finite n := by
  have whole : (n : ℚ) = n * 2 ^ (0 : ℤ) := by rw [zpow_zero, mul_one]
  rw [whole]
  refine round_digits small (by norm_num) ?_
  rw [zpow_zero, mul_one]
  have bound : (n : ℚ) ≤ 2 ^ (53 : Nat) := by exact_mod_cast small
  exact lt_of_le_of_lt bound (pow_lt_pow_right₀ (by norm_num) (by norm_num))

end SpatialIndex.Double
