import SpatialIndex.Proofs.Arithmetic.Double.Operations

/-!
# Conversion to doubles

Coordinates of every type are rounded to the nearest double. Only integers of 64 bits can have too
many digits for that to be exact.
-/
namespace SpatialIndex.Double

open Decimal (BinaryFormat)
open Float.Model (Format)
open Float.Model.UnpackedFloat

/-- A double has the value that its pattern denotes. -/
theorem value_ofBits (bits : UInt64) :
    value (Float.ofBits bits) = Exact.ofPattern .double bits.toNat :=
  (packed_stored (stored_unpack bits.toBitVec)).trans (denoted_unpack bits.toBitVec)

/-- The negative of a double has the negative value. -/
theorem value_neg (x : Float) : value (-x) = (value x).neg :=
  (packed_stored (stored x).neg).trans (denoted_neg _)

/-! ## Integers -/

/-- An integer is rounded. -/
theorem value_ofInt {n : Int} (small : n.natAbs < 2 ^ (64 : Nat)) :
    value (ofInt n) = round (.finite n) := by
  have size : value (ofNat n.natAbs) = round (.finite n.natAbs) := value_ofNat small
  unfold ofInt
  split
  · rename_i negative
    rw [value_neg, size, ← round_neg]
    refine congrArg (fun x => round (.finite x)) ?_
    rw [← Int.cast_natCast, ← Int.cast_neg]
    exact congrArg Int.cast (by omega)
  · rename_i positive
    rw [size]
    refine congrArg (fun x => round (.finite x)) ?_
    rw [← Int.cast_natCast]
    exact congrArg Int.cast (by omega)

/-! ## Numbers of 32 bits -/

/-- The value of a finite pattern. -/
theorem ofPattern_finite {format : BinaryFormat} {n m : Nat} {negative : Bool} {e : ℤ}
    (finite : format.read n = .finite negative m e) :
    Exact.ofPattern format n =
      signed (if negative then .negative else .positive) (.finite (m * 2 ^ e)) := by
  unfold Exact.ofPattern
  rw [finite, signed_of_bit]

/-- The pattern of a power of two. -/
theorem read_power {k : Nat} (some : 0 < k) (small : k < 2047) :
    BinaryFormat.double.read (k * 2 ^ (52 : Nat)) = .finite false (2 ^ (52 : Nat)) (k - 1075) := by
  have quotient : k * 2 ^ (52 : Nat) / 2 ^ (52 : Nat) = k :=
    Nat.mul_div_cancel k (Nat.two_pow_pos 52)
  have rest : k * 2 ^ (52 : Nat) % 2 ^ (52 : Nat) = 0 := Nat.mul_mod_left k _
  have exponent : k % 2 ^ (11 : Nat) = k := Nat.mod_eq_of_lt (by omega)
  have sign : (k * 2 ^ (52 : Nat)).testBit 63 = false := Nat.testBit_lt_two_pow (by omega)
  rw [read_double, quotient, exponent, rest, sign, if_neg (Nat.ne_of_lt small),
    if_neg (Nat.ne_of_gt some)]

/-- Powers of two in the range of normal numbers are exact. -/
theorem value_twoPow {e : ℤ} (least : -1022 ≤ e) (most : e ≤ 1023) :
    value (twoPow e) = .finite (2 ^ e) := by
  have pattern : (UInt64.ofNat ((e + 1023).toNat <<< 52)).toNat =
      (e + 1023).toNat * 2 ^ (52 : Nat) := by
    rw [Nat.shiftLeft_eq]
    refine UInt64.toNat_ofNat_of_lt' ?_
    show _ < 2 ^ (64 : Nat)
    omega
  unfold twoPow
  rw [value_ofBits, pattern, ofPattern_finite (read_power (by omega) (by omega))]
  refine congrArg Exact.finite ?_
  rw [Nat.cast_pow, ← zpow_natCast, Nat.cast_ofNat, ← zpow_add₀ (by norm_num)]
  exact congrArg (fun exponent : ℤ => (2 : ℚ) ^ exponent) (by omega)

/-- A finite pattern of 32 bits has at most 24 digits. -/
theorem read_single {n m : Nat} {negative : Bool} {e : ℤ}
    (finite : BinaryFormat.single.read n = .finite negative m e) :
    m < 2 ^ (24 : Nat) ∧ -149 ≤ e ∧ e ≤ 104 := by
  have infinity : BinaryFormat.single.infinity = 255 * 2 ^ (23 : Nat) := rfl
  have least : BinaryFormat.single.leastExponent = -149 := rfl
  have digits : BinaryFormat.single.fractionBits = 23 := rfl
  unfold BinaryFormat.read BinaryFormat.isNaN at finite
  rw [infinity, least, digits] at finite
  simp only [decide_eq_true_eq] at finite
  split at finite
  · cases finite
  · split at finite
    · cases finite
    · split at finite
      · cases finite
        omega
      · cases finite
        omega

/-- The pattern of NaN is no number. -/
theorem value_nan : value (Float.ofBits 0x7ff8000000000000) = .nan := by rfl

/-- Infinity is above all numbers. -/
theorem value_infinity : value infinity = .top := by rfl

/-- A number of 32 bits is a double. -/
theorem value_ofSingle (n : Nat) : value (ofSingle n) = round (Exact.ofPattern .single n) := by
  unfold ofSingle Exact.ofPattern
  cases reading : BinaryFormat.single.read n with
  | nan => exact value_nan
  | infinite negative => cases negative with
    | false => exact value_infinity
    | true => exact (value_neg infinity).trans (congrArg Exact.neg value_infinity)
  | finite negative m e =>
    obtain ⟨short, least, most⟩ := read_single reading
    have size : value (ofNat m * twoPow e) = round (.finite (m * 2 ^ e)) := by
      have count : value (ofNat m) = .finite m :=
        (value_ofNat (by omega)).trans (round_nat (by omega))
      refine (rounding.mul _ _).trans ?_
      show round (value (ofNat m) * value (twoPow e)) = _
      rw [count, value_twoPow (by omega) (by omega)]
      rfl
    cases negative with
    | false => exact size
    | true =>
      show value (-_) = round (.finite (-_))
      rw [value_neg, size, ← round_neg]
      rfl

/-- An integer that was read from 64 bits is not too great. -/
theorem natAbs_toInt_lt {width : Nat} (bits : BitVec width) (narrow : width ≤ 64) :
    bits.toInt.natAbs < 2 ^ (64 : Nat) := by
  have most := BitVec.two_mul_toInt_lt (x := bits)
  have least := BitVec.le_two_mul_toInt (x := bits)
  have bound : (2 : Int) ^ width ≤ 2 ^ 64 := by
    exact_mod_cast Nat.pow_le_pow_right (by omega : 0 < 2) narrow
  omega

/-- A coordinate is rounded. -/
theorem value_ofCoordinate (coordinate : Coordinate) :
    value (Arithmetic.ofCoordinate coordinate) = round (Exact.ofCoordinate coordinate) := by
  obtain ⟨numeric, bits⟩ := coordinate
  cases numeric with
  | i8 | i16 | i32 | i64 => exact value_ofInt (natAbs_toInt_lt bits (by decide))
  | u8 | u16 | u32 | u64 => exact value_ofNat (lt_of_lt_of_le bits.isLt (by decide))
  | f32 => exact value_ofSingle bits.toNat
  | f64 =>
    have same : (UInt64.ofNat bits.toNat).toNat = bits.toNat := UInt64.toNat_ofNat_of_lt' bits.isLt
    show value (Float.ofBits (UInt64.ofNat bits.toNat)) = round (Exact.ofPattern .double bits.toNat)
    have fixed := rounding.round_value (Float.ofBits (UInt64.ofNat bits.toNat))
    have pattern := value_ofBits (UInt64.ofNat bits.toNat)
    rw [same] at pattern
    rw [← pattern]
    exact fixed.symm

end SpatialIndex.Double
