import SpatialIndex.Proofs.Arithmetic.Double.Nearest
import SpatialIndex.Proofs.Arithmetic.Double.Unpacked

/-!
# Canonical doubles

A double is unpacked to a canonical form: a significand of at most 53 digits, with its first digit
unless the exponent is the least one. A canonical form is packed to the double of its value, or to
an infinity when it is too great, and canonical forms are in the order of their values.
-/
namespace SpatialIndex.Double

open Float.Model (Format UnpackedFloat)
open Float.Model.UnpackedFloat

/-- A significand and an exponent of the canonical form. -/
structure Fits (m : Nat) (e : ℤ) : Prop where
  /-- There are at most 53 digits. -/
  short : m < 2 ^ (53 : Nat)
  /-- The last digit is not below the least number. -/
  least : -1074 ≤ e
  /-- The first digit is there, unless the last is that of the least number. -/
  first : 2 ^ (52 : Nat) ≤ m ∨ e = -1074

/-- The forms that can be packed. -/
def Canonical : UnpackedFloat → Prop
  | .finite _ m e _ => Fits m e
  | _ => True

/-- The forms to which doubles are unpacked. -/
def Stored : UnpackedFloat → Prop
  | .finite _ m e _ => Fits m e ∧ e ≤ 971
  | _ => True

/-- The forms to which doubles are unpacked can be packed. -/
theorem Stored.canonical {x : UnpackedFloat} (stored : Stored x) : Canonical x := by
  cases x with
  | finite => exact stored.1
  | infinity | notANumber | zero => trivial

/-- The exponent of a significand that is read as an integer is below the stored one by this. -/
theorem bias_eq : (Format.binary64.exponentBias : ℤ) +
    Format.binary64.mantissaBitsWithoutImplicit = 1075 := by
  decide

/-- What is unpacked can be stored. -/
theorem stored_unpack (bits : BitVec Format.binary64.numBits) :
    Stored (unpack Format.binary64 bits) := by
  have top := unpackExponent_eq_top bits
  have bottom := unpackExponent_eq_bottom bits
  unfold unpack
  simp only [top, bottom]
  split
  · split <;> trivial
  · rename_i finite
    split
    · rename_i small
      split
      · trivial
      · show Fits _ _ ∧ _ ≤ _
        rw [toNat_unpackMantissa, toNat_unpackExponent, small, bias_eq]
        exact ⟨⟨by omega, by norm_num, .inr (by norm_num)⟩, by norm_num⟩
    · rename_i normal
      show Fits _ _ ∧ _ ≤ _
      rw [toNat_leading, toNat_unpackMantissa, toNat_unpackExponent, bias_eq]
      exact ⟨⟨by omega, by omega, .inl (by omega)⟩, by omega⟩

/-! ## Packing -/

section Components

variable (sign : Sign) (exponent : BitVec 11) (fraction : BitVec 52)

/-- The sign that is packed is unpacked again. -/
theorem unpackSign_packComponents :
    unpackSign (packComponents Format.binary64 sign exponent fraction) = sign.toBitVec := by
  show (sign.toBitVec ++ exponent ++ fraction).extractLsb' 63 1 = _
  rw [BitVec.extractLsb'_append_eq_of_le (by decide),
    BitVec.extractLsb'_append_eq_of_le (by decide)]
  cases sign <;> rfl

/-- What is packed from fields is unpacked by them. -/
theorem denoted_packComponents :
    denoted (unpack Format.binary64 (packComponents Format.binary64 sign exponent fraction)) =
      if exponent = -1#_ then if fraction = 0#_ then signed sign .top else .nan
      else if exponent = 0#_ then signed sign (.finite (fraction.toNat * 2 ^ (-1074 : ℤ)))
      else signed sign (.finite ((2 ^ (52 : Nat) + fraction.toNat : Nat) *
        2 ^ (exponent.toNat - 1075 : ℤ))) := by
  have whole : Sign.ofBitVec sign.toBitVec = sign := by cases sign <;> rfl
  unfold unpack
  simp only [unpackSign_packComponents, unpackExponent_packComponents,
    unpackMantissa_packComponents, whole]
  split
  · split <;> rfl
  · split
    · rename_i small
      split
      · rename_i none
        rw [none]
        cases sign <;> simp [denoted, signed, Exact.neg]
      · rw [denoted_finite, small]
        rfl
    · rw [denoted_finite, toNat_leading]
      rfl

end Components

/-- A canonical form is not too great when its exponent is not. -/
theorem Fits.lt_iff {m : Nat} {e : ℤ} (fits : Fits m e) :
    (m * 2 ^ e : ℚ) < 2 ^ (1024 : Nat) ↔ e ≤ 971 := by
  have power (k : Nat) : ((2 ^ k : Nat) : ℚ) * 2 ^ e = 2 ^ (k + e) := by
    rw [zpow_add₀ (by norm_num), zpow_natCast, Nat.cast_pow, Nat.cast_ofNat]
  rw [← zpow_natCast]
  constructor
  · intro small
    by_contra large
    have long : ((2 ^ (52 : Nat) : Nat) : ℚ) ≤ m := by
      rcases fits.first with long | least
      · exact Nat.cast_le.mpr long
      · omega
    have great := mul_le_mul_of_nonneg_right long (le_of_lt (two_zpow_pos e))
    rw [power] at great
    have above : (2 : ℚ) ^ ((1024 : Nat) : ℤ) ≤ 2 ^ ((52 : Nat) + e) := two_zpow_le (by omega)
    linarith only [small, great, above]
  · intro bounded
    have short : (m : ℚ) < (2 ^ (53 : Nat) : Nat) := Nat.cast_lt.mpr fits.short
    have less := mul_lt_mul_of_pos_right short (two_zpow_pos e)
    rw [power] at less
    exact lt_of_lt_of_le less (two_zpow_le (by omega))

/-- A significand below `2 ^ 53` has 53 digits exactly when it has the first of them. -/
theorem log2_eq_iff {m : Nat} (some : 0 < m) (short : m < 2 ^ (53 : Nat)) :
    m.log2 + 1 = Format.binary64.mantissaBits ↔ 2 ^ (52 : Nat) ≤ m := by
  have width : Format.binary64.mantissaBits = 53 := rfl
  have below := (Nat.log2_lt (k := 53) (Nat.ne_of_gt some)).mpr short
  have long := Nat.le_log2 (k := 52) (Nat.ne_of_gt some)
  omega

/-- A form is packed to its value, or to an infinity when that is too great. -/
theorem denoted_pack (sign : Sign) {m : Nat} {e : ℤ} (some : 0 < m) (fits : Fits m e) :
    denoted (unpack Format.binary64 (pack Format.binary64 (.finite sign m e some))) =
      signed sign (saturate (m * 2 ^ e)) := by
  have short := fits.short
  have least := fits.least
  have first := fits.first
  have bias : e + Format.binary64.exponentBias + Format.binary64.mantissaBitsWithoutImplicit =
      e + 1075 := by
    rw [add_assoc, bias_eq]
  have digits : (BitVec.ofNat 52 m).toNat = m % 2 ^ (52 : Nat) := BitVec.toNat_ofNat m 52
  have biased (bounded : e ≤ 971) :
      (BitVec.ofNat 11 (e + 1075).toNat).toNat = (e + 1075).toNat := by
    rw [BitVec.toNat_ofNat]
    omega
  unfold pack saturate
  simp only [bias, log2_eq_iff some short, fits.lt_iff]
  show denoted (unpack _ (if 2048 ≤ (e + 1075).toNat + 1 then _ else _)) = _
  by_cases bounded : e ≤ 971
  · rw [if_neg (by omega), if_pos bounded]
    replace biased := biased bounded
    by_cases long : 2 ^ (52 : Nat) ≤ m
    · rw [if_pos long, denoted_packComponents, if_neg, if_neg, biased, digits]
      · congr 3
        · exact congrArg Nat.cast (by omega : 2 ^ (52 : Nat) + m % 2 ^ (52 : Nat) = m)
        · congr 1
          omega
      · intro zero
        rw [zero] at biased
        have none : (0#11).toNat = 0 := rfl
        omega
      · intro top
        rw [top] at biased
        have all : (-1#11).toNat = 2047 := rfl
        omega
    · rw [if_neg long, denoted_packComponents, if_neg (by decide), if_pos rfl, digits,
        Nat.mod_eq_of_lt (by omega), first.resolve_left long]
  · rw [if_pos (by omega), if_neg bounded]
    exact denoted_packComponents sign (-1#_) 0

/-- What a form is when it was packed. -/
def packed (x : UnpackedFloat) : Exact := denoted (unpack Format.binary64 (pack Format.binary64 x))

/-- A zero of either sign is packed as the number zero. -/
theorem packed_zero (sign : Sign) : packed (.zero sign) = .finite 0 := by
  have zero := denoted_packComponents sign 0#11 0#52
  rw [if_neg (by decide), if_pos rfl] at zero
  refine zero.trans ?_
  cases sign <;> simp [signed, Exact.neg]

/-- Rounding goes by the size: a sign may be put on before or after it. -/
theorem round_signed (sign : Sign) (x : Exact) : round (signed sign x) = signed sign (round x) := by
  cases sign with
  | positive => rfl
  | negative => exact round_neg x

/-- A canonical form is packed to its value, or to an infinity when that is too great. -/
theorem packed_canonical (sign : Sign) {m : Nat} {e : ℤ} (fits : Fits m e) :
    packed (if none : m = 0 then .zero sign else .finite sign m e (Nat.pos_of_ne_zero none)) =
      signed sign (saturate (m * 2 ^ e)) := by
  split
  · rename_i none
    rw [packed_zero, none, Nat.cast_zero, zero_mul, saturate, if_pos (by positivity)]
    cases sign with
    | positive => rfl
    | negative => exact congrArg Exact.finite neg_zero.symm
  · exact denoted_pack sign _ fits

/-! ## Order -/

/-- How two operands compare; not at all when one is no number. -/
def order (x y : Exact) : Option Ordering :=
  if Arithmetic.le x y then if Arithmetic.le y x then some .eq else some .lt
  else if Arithmetic.le y x then some .gt else none

/-- The strict order holds when the comparison says less. -/
theorem lt_eq_order (x y : Exact) : Arithmetic.lt x y = (order x y == some .lt) := by
  show (Arithmetic.le x y && !Arithmetic.le y x) = _
  unfold order
  cases Arithmetic.le x y <;> cases Arithmetic.le y x <;> rfl

/-- The order holds when the comparison says less or equal. -/
theorem le_eq_order (x y : Exact) : Arithmetic.le x y = (order x y).any (·.isLE) := by
  unfold order
  cases Arithmetic.le x y <;> cases Arithmetic.le y x <;> rfl

/-- Finite operands compare as their numbers do. -/
theorem order_finite (x y : ℚ) : order (.finite x) (.finite y) = some (compare x y) := by
  unfold order
  rcases lt_trichotomy x y with less | rfl | greater
  · rw [if_pos (Exact.le_finite.mpr (le_of_lt less)),
      if_neg (fun least => not_le.mpr less (Exact.le_finite.mp least)), compare_lt_iff_lt.mpr less]
  · rw [if_pos (Exact.le_finite.mpr (le_refl x)), if_pos (Exact.le_finite.mpr (le_refl x)),
      compare_eq_iff_eq.mpr rfl]
  · rw [if_neg (fun least => not_le.mpr greater (Exact.le_finite.mp least)),
      if_pos (Exact.le_finite.mpr (le_of_lt greater)), compare_gt_iff_gt.mpr greater]

/-- Of two forms, the one with the greater exponent is greater. -/
theorem Fits.lt_of_exponent {m n : Nat} {e f : ℤ} (first : Fits m e) (second : Fits n f)
    (less : e < f) : (m * 2 ^ e : ℚ) < n * 2 ^ f := by
  have long : 2 ^ (52 : Nat) ≤ n := second.first.resolve_right (by have := first.least; omega)
  have high : (m * 2 ^ e : ℚ) < ((2 ^ (53 : Nat) : Nat) : ℚ) * 2 ^ e :=
    mul_lt_mul_of_pos_right (Nat.cast_lt.mpr first.short) (two_zpow_pos e)
  have low : ((2 ^ (52 : Nat) : Nat) : ℚ) * 2 ^ f ≤ n * 2 ^ f :=
    mul_le_mul_of_nonneg_right (Nat.cast_le.mpr long) (le_of_lt (two_zpow_pos f))
  have grown : (2 : ℚ) ^ (e + 1) ≤ 2 ^ f := two_zpow_le less
  rw [zpow_add₀ (by norm_num), zpow_one] at grown
  push_cast at high low
  linarith

/-- Forms are compared by their exponents, then by their significands. -/
theorem Fits.compare_eq {m n : Nat} {e f : ℤ} (first : Fits m e) (second : Fits n f) :
    (compare e f).then (compare m n) = compare (m * 2 ^ e : ℚ) (n * 2 ^ f) := by
  rcases lt_trichotomy e f with less | rfl | greater
  · rw [compare_lt_iff_lt.mpr less, compare_lt_iff_lt.mpr (first.lt_of_exponent second less)]
    rfl
  · rw [compare_eq_iff_eq.mpr rfl]
    have unit := two_zpow_pos e
    rcases lt_trichotomy m n with less | rfl | greater
    · rw [compare_lt_iff_lt.mpr less,
        compare_lt_iff_lt.mpr (mul_lt_mul_of_pos_right (Nat.cast_lt.mpr less) unit)]
      rfl
    · rw [compare_eq_iff_eq.mpr rfl, compare_eq_iff_eq.mpr rfl]
      rfl
    · rw [compare_gt_iff_gt.mpr greater,
        compare_gt_iff_gt.mpr (mul_lt_mul_of_pos_right (Nat.cast_lt.mpr greater) unit)]
      rfl
  · rw [compare_gt_iff_gt.mpr greater, compare_gt_iff_gt.mpr (second.lt_of_exponent first greater)]
    rfl

/-- Numbers compare the other way round when both signs change. -/
theorem swap_compare (x y : ℚ) : (compare x y).swap = compare (-x) (-y) := by
  rcases lt_trichotomy x y with less | rfl | greater
  · rw [compare_lt_iff_lt.mpr less, compare_gt_iff_gt.mpr (neg_lt_neg less)]
    rfl
  · rw [compare_eq_iff_eq.mpr rfl, compare_eq_iff_eq.mpr rfl]
    rfl
  · rw [compare_gt_iff_gt.mpr greater, compare_lt_iff_lt.mpr (neg_lt_neg greater)]
    rfl

/-- Canonical forms compare as their values do. -/
theorem compare_eq {x y : UnpackedFloat} (first : Canonical x) (second : Canonical y) :
    x.compare y = order (denoted x) (denoted y) := by
  have neg {m : Nat} {e : ℤ} (some : 0 < m) : -(m * 2 ^ e : ℚ) < 0 :=
    neg_lt_zero.mpr (size_pos some)
  -- two finite forms are compared as numbers, and all others by what they are
  have numbers {x y : ℚ} {ordering : Ordering} (compared : compare x y = ordering) :
      some ordering = order (.finite x) (.finite y) := by
    rw [order_finite, compared]
  cases x with
  | notANumber => cases y with
    | notANumber => rfl
    | infinity other | zero other | finite other => cases other <;> rfl
  | infinity sign => cases y with
    | notANumber => cases sign <;> rfl
    | infinity other | zero other | finite other => cases sign <;> cases other <;> rfl
  | zero sign => cases y with
    | notANumber => rfl
    | infinity other | zero other => cases other <;> rfl
    | finite other n f some => cases other with
      | positive => exact numbers (compare_lt_iff_lt.mpr (size_pos some))
      | negative => exact numbers (compare_gt_iff_gt.mpr (neg some))
  | finite sign m e some => cases y with
    | notANumber => cases sign <;> rfl
    | infinity other => cases sign <;> cases other <;> rfl
    | zero other => cases sign with
      | positive => exact numbers (compare_gt_iff_gt.mpr (size_pos some))
      | negative => exact numbers (compare_lt_iff_lt.mpr (neg some))
    | finite other n f more =>
      have sizes := Fits.compare_eq first second
      cases sign with
      | positive => cases other with
        | positive => exact numbers sizes.symm
        | negative => exact numbers (compare_gt_iff_gt.mpr (lt_trans (neg more) (size_pos some)))
      | negative => cases other with
        | positive => exact numbers (compare_lt_iff_lt.mpr (lt_trans (neg some) (size_pos more)))
        | negative => exact numbers (by rw [← swap_compare, ← sizes])

end SpatialIndex.Double
