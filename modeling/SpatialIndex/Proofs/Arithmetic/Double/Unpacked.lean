import Mathlib
import SpatialIndex.Proofs.Arithmetic.Exact

/-!
# Values of doubles

A double is unpacked into a sign, a significand and an exponent, or into what is no finite number.
Its value is the exact number that they denote, which is also the value of its bit pattern.
-/
namespace SpatialIndex

open Decimal (BinaryFormat)
open Float.Model (Format UnpackedFloat)
open Float.Model.UnpackedFloat (Sign)

namespace Double

/-- An exact number with a sign. -/
def signed : Sign → Exact → Exact
  | .positive, x => x
  | .negative, x => x.neg

/-- The exact number that an unpacked double denotes. -/
def denoted : UnpackedFloat → Exact
  | .notANumber => .nan
  | .infinity sign => signed sign .top
  | .zero _ => .finite 0
  | .finite sign significand exponent _ => signed sign (.finite (significand * (2 : ℚ) ^ exponent))

/-- The value of a double. -/
def value (x : Float) : Exact := denoted x.toModel.unpack

/-! ## Bit patterns -/

/-- A pattern of a double is read by its fields. -/
theorem read_double (n : Nat) :
    BinaryFormat.double.read n =
      if n / 2 ^ (52 : Nat) % 2 ^ (11 : Nat) = 2047 then
        if n % 2 ^ (52 : Nat) = 0 then .infinite (n.testBit 63) else .nan
      else if n / 2 ^ (52 : Nat) % 2 ^ (11 : Nat) = 0 then
        .finite (n.testBit 63) (n % 2 ^ (52 : Nat)) (-1074)
      else .finite (n.testBit 63) (2 ^ (52 : Nat) + n % 2 ^ (52 : Nat))
        ((n / 2 ^ (52 : Nat) % 2 ^ (11 : Nat) : Nat) - 1075) := by
  have magnitude : BinaryFormat.double.magnitude n = n % 2 ^ (63 : Nat) := rfl
  have infinity : BinaryFormat.double.infinity = 2047 * 2 ^ (52 : Nat) := rfl
  have sign : BinaryFormat.double.negative n = n.testBit 63 := rfl
  have least : BinaryFormat.double.leastExponent = -1074 := rfl
  have fraction : n % 2 ^ (63 : Nat) % 2 ^ (52 : Nat) = n % 2 ^ (52 : Nat) := by omega
  have biased : n % 2 ^ (63 : Nat) / 2 ^ (52 : Nat) = n / 2 ^ (52 : Nat) % 2 ^ (11 : Nat) := by omega
  unfold BinaryFormat.read BinaryFormat.isNaN
  rw [magnitude, infinity, sign, least]
  show (if decide (_ < _) = true then Decimal.Reading.nan
    else if n % 2 ^ (63 : Nat) = 2047 * 2 ^ (52 : Nat) then .infinite (n.testBit 63)
    else if n % 2 ^ (63 : Nat) / 2 ^ (52 : Nat) = 0 then
      .finite (n.testBit 63) (n % 2 ^ (63 : Nat) % 2 ^ (52 : Nat)) (-1074)
    else .finite (n.testBit 63) (2 ^ (52 : Nat) + n % 2 ^ (63 : Nat) % 2 ^ (52 : Nat))
      (-1074 + (n % 2 ^ (63 : Nat) / 2 ^ (52 : Nat) - 1 : Nat))) = _
  rw [fraction, biased]
  simp only [decide_eq_true_eq]
  by_cases top : n / 2 ^ (52 : Nat) % 2 ^ (11 : Nat) = 2047
  · rw [if_pos top]
    by_cases zero : n % 2 ^ (52 : Nat) = 0
    · rw [if_neg (by omega), if_pos (by omega), if_pos zero]
    · rw [if_pos (by omega), if_neg zero]
  · rw [if_neg (by omega), if_neg (by omega), if_neg top]
    by_cases small : n / 2 ^ (52 : Nat) % 2 ^ (11 : Nat) = 0
    · rw [if_pos small, if_pos small]
    · rw [if_neg small, if_neg small]
      congr 1
      omega

/-- The first digit of a normal number is not stored. -/
theorem toNat_leading (fraction : BitVec 52) :
    (1#1 ++ fraction).toNat = 2 ^ (52 : Nat) + fraction.toNat := by
  have apart := Nat.two_pow_add_eq_or_of_lt fraction.isLt 1
  rw [mul_one] at apart
  rw [BitVec.toNat_append]
  exact apart.symm

/-- A finite form denotes its significand times its power of two, with its sign. -/
theorem denoted_finite (sign : Sign) {m : Nat} {e : ℤ} (some : 0 < m) :
    denoted (.finite sign m e some) = signed sign (.finite (m * 2 ^ e)) := rfl

section Pattern

variable (bits : BitVec Format.binary64.numBits)

/-- The fraction is the lowest 52 bits. -/
theorem toNat_unpackMantissa :
    (Float.Model.UnpackedFloat.unpackMantissa bits).toNat = bits.toNat % 2 ^ (52 : Nat) := by
  show (bits.extractLsb' 0 52).toNat = _
  simp [BitVec.extractLsb'_toNat]

/-- The exponent is the eleven bits above the fraction. -/
theorem toNat_unpackExponent :
    (Float.Model.UnpackedFloat.unpackExponent bits).toNat =
      bits.toNat / 2 ^ (52 : Nat) % 2 ^ (11 : Nat) := by
  show (bits.extractLsb' 52 11).toNat = _
  simp [BitVec.extractLsb'_toNat, Nat.shiftRight_eq_div_pow]

/-- The exponent field is all ones when its number is the greatest one. -/
theorem unpackExponent_eq_top :
    Float.Model.UnpackedFloat.unpackExponent bits = -1#_ ↔
      bits.toNat / 2 ^ (52 : Nat) % 2 ^ (11 : Nat) = 2047 := by
  rw [← BitVec.toNat_inj, toNat_unpackExponent]
  rfl

/-- The exponent field is all zeros when its number is zero. -/
theorem unpackExponent_eq_bottom :
    Float.Model.UnpackedFloat.unpackExponent bits = 0#_ ↔
      bits.toNat / 2 ^ (52 : Nat) % 2 ^ (11 : Nat) = 0 := by
  rw [← BitVec.toNat_inj, toNat_unpackExponent]
  rfl

/-- The fraction field is all zeros when its number is zero. -/
theorem unpackMantissa_eq_zero :
    Float.Model.UnpackedFloat.unpackMantissa bits = 0#_ ↔ bits.toNat % 2 ^ (52 : Nat) = 0 := by
  rw [← BitVec.toNat_inj, toNat_unpackMantissa]
  rfl

/-- The sign is the highest bit. -/
theorem unpackSign_eq :
    Sign.ofBitVec (Float.Model.UnpackedFloat.unpackSign bits) =
      if bits.toNat.testBit 63 then .negative else .positive := by
  show (if bits.extractLsb' 63 1 = 0#1 then Sign.positive else Sign.negative) = _
  have sign : (bits.extractLsb' 63 1 = 0#1) ↔ bits.toNat.testBit 63 = false := by
    rw [← BitVec.toNat_inj, BitVec.extractLsb'_toNat, Nat.shiftRight_eq_div_pow,
      Nat.testBit_eq_decide_div_mod_eq]
    simp
  cases bit : bits.toNat.testBit 63 with
  | false => rw [if_pos (sign.mpr bit)]; rfl
  | true =>
    rw [if_neg (fun absurd => by rw [sign.mp absurd] at bit; cases bit)]
    rfl

/-- A sign is read as a sign. -/
theorem signed_of_bit (negative : Bool) (size : ℚ) :
    signed (if negative then .negative else .positive) (.finite size) =
      .finite (if negative then -size else size) := by
  cases negative <;> rfl

/-- A pattern denotes its value. -/
theorem denoted_unpack :
    denoted (Float.Model.UnpackedFloat.unpack Format.binary64 bits) =
      Exact.ofPattern .double bits.toNat := by
  have top := unpackExponent_eq_top bits
  have bottom := unpackExponent_eq_bottom bits
  have zero := unpackMantissa_eq_zero bits
  unfold Float.Model.UnpackedFloat.unpack Exact.ofPattern
  rw [read_double]
  simp only [unpackSign_eq, top, bottom, zero]
  split
  · split
    · cases bits.toNat.testBit 63 <;> rfl
    · rfl
  · split
    · rename_i small
      split
      · rename_i none
        simp [denoted, none]
      · show signed _ (.finite _) = _
        rw [signed_of_bit, toNat_unpackMantissa, toNat_unpackExponent, small]
        rfl
    · show signed _ (.finite _) = _
      rw [signed_of_bit, toNat_leading, toNat_unpackMantissa, toNat_unpackExponent]
      congr 5

end Pattern

/-- A double is finite exactly when its value is. -/
theorem isFinite_value (x : Float) : x.isFinite = Arithmetic.isFinite (value x) := by
  show x.toModel.unpack.isFinite = _
  unfold value
  cases x.toModel.unpack with
  | notANumber | zero sign => rfl
  | infinity sign | finite sign _ _ _ => cases sign <;> rfl

end Double

end SpatialIndex
