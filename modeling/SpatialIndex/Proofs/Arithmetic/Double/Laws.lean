import SpatialIndex.Proofs.Arithmetic.Double.Accuracy
import SpatialIndex.Proofs.Arithmetic.Double.Conversion

/-!
# Doubles are a lawful arithmetic

Rounding keeps order, but three laws rest on more than that. Different doubles have a difference,
since all are multiples of the least one; what is no number stays none in a quotient by zero too;
and the counts below `2 ^ 64` do not overflow. Two equal doubles have the positive zero as their
difference, so a quotient by it is the infinity on the side of the dividend.
-/
namespace SpatialIndex.Double

open Float.Model (Format UnpackedFloat)
open Float.Model.UnpackedFloat

/-! ## Forms -/

/-- A finite double is a zero or has a significand that is not zero. -/
theorem unpack_of_finite {x : Float} {q : ℚ} (finite : value x = .finite q) :
    q = 0 ∨ ∃ sign m e, ∃ some : 0 < m, x.toModel.unpack = .finite sign m e some ∧
      (sign.apply m : ℚ) * 2 ^ e = q := by
  unfold value at finite
  cases form : x.toModel.unpack with
  | notANumber =>
    rw [form] at finite
    cases finite
  | infinity sign =>
    rw [form] at finite
    cases sign <;> cases finite
  | zero sign =>
    rw [form] at finite
    exact .inl (Exact.finite.inj finite).symm
  | finite sign m e some =>
    rw [form, denoted_finite, signed_apply, Exact.finite.injEq] at finite
    exact .inr ⟨sign, m, e, some, rfl, finite⟩

/-- Only one form denotes no number. -/
theorem unpack_of_nan {x : Float} (none : value x = .nan) : x.toModel.unpack = .notANumber := by
  unfold value at none
  cases form : x.toModel.unpack with
  | notANumber => rfl
  | infinity sign =>
    rw [form] at none
    cases sign <;> cases none
  | zero sign =>
    rw [form] at none
    cases none
  | finite sign m e some =>
    rw [form] at none
    cases sign <;> cases none

/-! ## Differences -/

/-- Different finite doubles are at least the least positive one apart. -/
theorem least_le_sub {x y : Float} {p q : ℚ} (first : value x = .finite p)
    (second : value y = .finite q) (strict : p < q) : (2 : ℚ) ^ (-1074 : ℤ) ≤ q - p := by
  have fixed {z : Float} {r : ℚ} (finite : value z = .finite r) :
      round (.finite r) = .finite r := by
    rw [← finite]
    exact rounding.round_value z
  obtain ⟨n, rfl⟩ := fixed_multiple (fixed first)
  obtain ⟨m, rfl⟩ := fixed_multiple (fixed second)
  have unit := two_zpow_pos (-1074)
  have less : n < m := by
    have multiples := lt_of_mul_lt_mul_right strict (le_of_lt unit)
    exact_mod_cast multiples
  have next : (n : ℚ) + 1 ≤ m := by exact_mod_cast less
  rw [← sub_mul]
  exact le_mul_of_one_le_left (le_of_lt unit) (by linarith only [next])

/-- Powers of two down to the least positive double are left alone by rounding. -/
theorem round_power {e : ℤ} (least : -1074 ≤ e) (most : e ≤ 0) :
    round (.finite (2 ^ e)) = .finite (2 ^ e) := by
  have single : (2 : ℚ) ^ e = (1 : Nat) * 2 ^ e := by rw [Nat.cast_one, one_mul]
  have small : (2 : ℚ) ^ e ≤ 1 := zpow_le_one_of_nonpos₀ (by norm_num) most
  have large : (1 : ℚ) < 2 ^ (1024 : Nat) := one_lt_pow₀ (by norm_num) (by norm_num)
  rw [single]
  refine round_digits (by norm_num) least ?_
  rw [← single]
  exact lt_of_le_of_lt small large

/-- What is not below a positive number is positive. -/
theorem pos_of_le {bound : ℚ} (positive : 0 < bound) {x : Exact}
    (above : Arithmetic.le (.finite bound) x = true) : Arithmetic.lt (.finite 0) x = true := by
  cases x with
  | nan | bottom => cases above
  | finite x => exact Exact.lt_finite.mpr (lt_of_lt_of_le positive (Exact.le_finite.mp above))
  | top => rfl

/-- The difference of doubles in strict order is positive: it is never rounded to zero. -/
theorem sub_pos {x y : Float} (strict : Arithmetic.lt x y = true) :
    Arithmetic.lt (Arithmetic.ofNat 0) (y - x) = true := by
  rw [value_lt] at strict
  have zero : value (Arithmetic.ofNat 0) = .finite 0 := rounding.value_zero
  have difference : value (y - x) = round (value y - value x) := rounding.sub y x
  rw [value_lt, zero, difference]
  cases first : value x with
  | nan | top =>
    rw [first] at strict
    cases second : value y <;> rw [second] at strict <;> cases strict
  | bottom =>
    cases second : value y with
    | nan | bottom =>
      rw [first, second] at strict
      cases strict
    | finite | top => rfl
  | finite p =>
    cases second : value y with
    | nan | bottom =>
      rw [first, second] at strict
      cases strict
    | top => rfl
    | finite q =>
      rw [first, second, Exact.lt_finite] at strict
      have rounded := round_mono (Exact.le_finite.mpr (least_le_sub first second strict))
      rw [round_power (le_refl _) (by norm_num)] at rounded
      rw [Exact.sub_finite]
      exact pos_of_le (two_zpow_pos (-1074)) rounded

/-- A double minus itself is zero, or it is no number. -/
theorem value_sub_self {x : Float} (number : Arithmetic.isNaN (x - x) = false) :
    value (x - x) = .finite 0 := by
  have difference : value (x - x) = round (value x - value x) := rounding.sub x x
  have some : value (x - x) ≠ .nan := by
    rw [rounding.isNaN] at number
    exact Exact.isNaN_eq_false.mp number
  rw [difference] at some ⊢
  cases same : value x with
  | nan | bottom | top =>
    rw [same] at some
    exact absurd rfl some
  | finite c =>
    rw [Exact.sub_finite, sub_self]
    exact round_zero

/-! ## Quotients -/

/-- What is no number stays none when it is divided, also by zero. -/
theorem div_nan {x s : Float} (none : value x = .nan) : value (x / s) = .nan := by
  have quotient : value (x / s) = packed (div Format.binary64 x.toModel.unpack s.toModel.unpack) :=
    rfl
  rw [quotient, unpack_of_nan none]
  exact packed_notANumber

/-- A quotient by the positive zero is the infinity on the side of the dividend. -/
theorem value_div_zero (x : Float) {zero : Float} (form : zero.toModel.unpack = .zero .positive) :
    value (x / zero) = value x / .finite 0 := by
  have quotient : value (x / zero) =
      packed (div Format.binary64 x.toModel.unpack zero.toModel.unpack) := rfl
  rw [quotient, form]
  unfold value
  cases x.toModel.unpack with
  | notANumber => exact packed_notANumber
  | infinity sign => cases sign <;> exact packed_infinity _
  | zero sign => exact packed_notANumber
  | finite sign m e some =>
    have size := size_pos (e := e) some
    cases sign with
    | positive => exact (packed_infinity _).trans (if_pos size).symm
    | negative =>
      have below : Exact.beyond (-(m * 2 ^ e)) = .bottom := by
        rw [Exact.beyond, if_neg (by linarith only [size]), if_pos (by linarith only [size])]
      exact (packed_infinity _).trans below.symm

/-- A positive span has no positive quotient with zero. -/
theorem zero_div_le {x span : Float} (zero : value x = .finite 0)
    (width : Arithmetic.lt (Arithmetic.ofNat 0) span = true) :
    Arithmetic.le (x / span) (Arithmetic.ofNat 0) = true := by
  have quotient : value (x / span) = round (value x / value span) :=
    rounding.div x (rounding.isZero_of_pos width)
  have base : value (Arithmetic.ofNat 0) = .finite 0 := rounding.value_zero
  rw [value_lt, base, ← Exact.zero_eq] at width
  rw [value_le, quotient, zero, base]
  rcases Exact.positive_cases width with infinite | ⟨size, above, finite⟩
  · have nothing : Exact.finite 0 / .top = .finite 0 := rfl
    rw [infinite, nothing, round_zero]
    exact Exact.le_finite.mpr (le_refl 0)
  · rw [finite, Exact.div_finite 0 (ne_of_gt above), zero_div, round_zero]
    exact Exact.le_finite.mpr (le_refl 0)

/-- The difference of two doubles of one finite value other than zero is the positive zero. -/
theorem unpack_sub_self {x y : Float} {q : ℚ} (some : q ≠ 0) (first : value x = .finite q)
    (second : value y = .finite q) : (x - y).toModel.unpack = .zero .positive := by
  have difference : (x - y).toModel.unpack = unpack Format.binary64
      (pack Format.binary64 (sub Format.binary64 x.toModel.unpack y.toModel.unpack)) := rfl
  obtain rfl | ⟨sign, m, e, positive, form, size⟩ := unpack_of_finite first
  · exact absurd rfl some
  obtain rfl | ⟨further, n, f, more, other, same⟩ := unpack_of_finite second
  · exact absurd rfl some
  -- the operands are the same multiple of the lesser of their last digits
  have equal : signed sign (.finite (m * 2 ^ e)) = signed further (.finite (n * 2 ^ f)) := by
    rw [signed_apply, signed_apply, size, same]
  rw [signed_decreaseExponent sign m (min_le_left e f),
    signed_decreaseExponent further n (min_le_right e f), Exact.finite.injEq] at equal
  have multiple := mul_right_cancel₀ (ne_of_gt (two_zpow_pos (min e f))) equal
  have nothing : sign.apply (decreaseExponent m e (min e f)).1 -
      further.apply (decreaseExponent n f (min e f)).1 = 0 := by
    rw [sub_eq_zero]
    exact_mod_cast multiple
  have cancelled : sub Format.binary64 (.finite sign m e positive) (.finite further n f more) =
      .zero .positive := by
    unfold sub
    dsimp only
    rw [nothing]
    rfl
  rw [difference, form, other, cancelled]
  rfl

/-! ## The laws -/

/-- No count below `2 ^ 64` overflows. -/
theorem isFinite_ofNat {n : Nat} (bounded : n < 2 ^ (64 : Nat)) :
    Arithmetic.isFinite (Arithmetic.ofNat n : Float) = true := by
  have limit : round (.finite ((1 : Nat) * 2 ^ (64 : ℤ))) = .finite ((1 : Nat) * 2 ^ (64 : ℤ)) := by
    refine round_digits (by norm_num) (by norm_num) ?_
    rw [Nat.cast_one, one_mul]
    exact_mod_cast pow_lt_pow_right₀ (by norm_num : (1 : ℚ) < 2) (by norm_num : 64 < 1024)
  have below : (n : ℚ) ≤ (1 : Nat) * 2 ^ (64 : ℤ) := by
    rw [Nat.cast_one, one_mul]
    exact_mod_cast le_of_lt bounded
  have most := round_mono (Exact.le_finite.mpr below)
  rw [limit] at most
  obtain ⟨count, value, -⟩ := Exact.finite_of_between (round_nonneg (Nat.cast_nonneg n)) most
  have finite := isFinite_value (Arithmetic.ofNat n)
  rw [value_ofNat bounded, value] at finite
  exact finite

/-- Doubles are lawful: every law holds of the numbers that they denote, rounded. -/
instance : LawfulArithmetic Float :=
  rounding.lawful value_ofCoordinate sub_pos
    (fun none => by
      rw [rounding.isNaN, Exact.isNaN_iff] at none ⊢
      exact div_nan none)
    isFinite_ofNat

/-! ## Signs of coordinates -/

/-- The numbers next to zero in a binary format. -/
theorem ofRank_one {format : Decimal.BinaryFormat} (wide : 1 < format.infinity)
    (single : Exact.steps format 1 = 1) :
    Exact.ofRank format 1 = .finite (2 ^ format.leastExponent) ∧
      Exact.ofRank format (-1) = .finite (-(2 ^ format.leastExponent)) := by
  have inside : ¬1 = format.infinity := by omega
  have size : (Exact.steps format 1 : ℚ) * 2 ^ format.leastExponent = 2 ^ format.leastExponent := by
    rw [single, Nat.cast_one, one_mul]
  have size_neg : -(Exact.steps format 1 * 2 ^ format.leastExponent : ℚ) =
      -(2 ^ format.leastExponent) := congrArg Neg.neg size
  exact ⟨(if_neg inside).trans (congrArg Exact.finite size),
    (if_neg inside).trans (congrArg Exact.finite size_neg)⟩

/-- The coordinates next to zero are powers of two that doubles can represent. -/
theorem exists_unit (numeric : Numeric) : ∃ e : ℤ, -1074 ≤ e ∧ e ≤ 0 ∧
    (Exact.InRange numeric 1 ∧ Exact.InRange numeric (-1)) ∧
      Exact.valueAt numeric 1 = .finite (2 ^ e) ∧ Exact.valueAt numeric (-1) = .finite (-(2 ^ e)) := by
  have whole : Exact.finite ((1 : Int) : ℚ) = .finite (2 ^ (0 : ℤ)) ∧
      Exact.finite ((-1 : Int) : ℚ) = .finite (-(2 ^ (0 : ℤ))) := by
    rw [zpow_zero, Int.cast_neg, Int.cast_one]
    exact ⟨rfl, rfl⟩
  cases numeric with
  | i8 | i16 | i32 | i64 | u8 | u16 | u32 | u64 =>
    exact ⟨0, by norm_num, le_refl _, ⟨trivial, trivial⟩, whole⟩
  | f32 =>
    have wide : 1 < Decimal.BinaryFormat.single.infinity := by decide
    exact ⟨_, by decide, by decide, ⟨le_of_lt wide, le_of_lt wide⟩, ofRank_one wide rfl⟩
  | f64 =>
    have wide : 1 < Decimal.BinaryFormat.double.infinity := by decide
    exact ⟨_, by decide, by decide, ⟨le_of_lt wide, le_of_lt wide⟩, ofRank_one wide rfl⟩

/-- Only zero is rounded to zero. -/
theorem rank_of_zero {coordinate : Coordinate}
    (zero : value (Arithmetic.ofCoordinate coordinate) = .finite 0) :
    coordinate.rank? = some 0 := by
  rw [value_ofCoordinate] at zero
  obtain ⟨e, least, most, ⟨inside, under⟩, above, below⟩ := exists_unit coordinate.numeric
  have unit := two_zpow_pos e
  have fixed := round_power least most
  cases ranked : coordinate.rank? with
  | none =>
    have none : coordinate.isNaN = true := by rw [Coordinate.isNaN, ranked]; rfl
    rw [Exact.ofCoordinate_nan none] at zero
    cases zero
  | some rank =>
    obtain ⟨same, range⟩ := Exact.ofCoordinate_eq ranked
    rw [same] at zero
    rcases lt_trichotomy rank 0 with negative | rfl | positive
    · have opposite := round_neg (.finite (2 ^ e))
      have order := round_mono (Exact.valueAt_mono range under (by omega))
      rw [fixed] at opposite
      rw [zero, below] at order
      have absurd := Exact.le_finite.mp (order.symm.trans (congrArg _ opposite)).symm
      linarith only [absurd, unit]
    · rfl
    · have order := round_mono (Exact.valueAt_mono inside range (by omega))
      rw [zero, above, fixed] at order
      have absurd := Exact.le_finite.mp order
      linarith only [absurd, unit]

end SpatialIndex.Double
