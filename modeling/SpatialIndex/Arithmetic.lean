import SpatialIndex.Coordinate.Basic

/-!
# Arithmetic

Cells, ray crossings and hits are computed in an arithmetic `α`. The index runs with double
precision numbers; the definitions that use an arithmetic ask for no more than its operations,
so they can also be read with exact numbers.
-/
namespace SpatialIndex

/-- The numbers in which positions in space are computed. -/
class Arithmetic (α : Type) extends Add α, Sub α, Mul α, Div α where
  /-- A natural number. -/
  ofNat : Nat → α
  /-- A coordinate, rounded to this arithmetic. -/
  ofCoordinate : Coordinate → α
  /-- A setting given in double precision. -/
  ofFloat : Float → α
  /-- Strict order; false when an operand is no number. -/
  lt : α → α → Bool
  /-- Order; false when an operand is no number. -/
  le : α → α → Bool
  /-- Whether the operand is a number and not infinite. -/
  isFinite : α → Bool
  /-- The greatest natural number not above the operand, bounded for huge operands; zero for a
  negative operand and for one that is no number. -/
  floor : α → Nat
  /-- A number above all finite ones. -/
  infinity : α

namespace Arithmetic

variable {α : Type} [Arithmetic α]

/-- Whether the operand is not a number: it then differs from itself. -/
def isNaN (x : α) : Bool := !le x x

/-- Whether the operand equals zero. -/
def isZero (x : α) : Bool := le x (ofNat 0) && le (ofNat 0) x

/-- The greater operand; an operand that is no number is ignored. -/
def max (x y : α) : α := if isNaN x then y else if isNaN y then x else if lt x y then y else x

/-- The lesser operand; an operand that is no number is ignored. -/
def min (x y : α) : α := if isNaN x then y else if isNaN y then x else if lt y x then y else x

/-- Whether the magnitude of `x` is at most `bound`. -/
def within (x bound : α) : Bool := le x bound && le (ofNat 0 - x) bound

/-- The least natural number not below the operand, bounded for huge operands. -/
def ceil (x : α) : Nat := if lt (ofNat (floor x)) x then floor x + 1 else floor x

/-- The sum of the terms from first to last. -/
def sum {n : Nat} (terms : Fin n → α) : α :=
  (List.finRange n).foldl (fun total i => total + terms i) (ofNat 0)

end Arithmetic

namespace Double

/-- A natural number below `2 ^ 64`, rounded to the nearest double. -/
def ofNat (n : Nat) : Float := (UInt64.ofNat n).toFloat

/-- An integer of at most 64 bits, rounded to the nearest double. -/
def ofInt (n : Int) : Float := if n < 0 then -(ofNat n.natAbs) else ofNat n.natAbs

/-- Positive infinity. -/
def infinity : Float := Float.ofBits 0x7ff0000000000000

/-- The pattern of a power of two of a normal double. -/
def twoPow (exponent : Int) : Float := Float.ofBits (UInt64.ofNat ((exponent + 1023).toNat <<< 52))

/-- A number of the 32-bit format, which is always a double too. -/
def ofSingle (bits : Nat) : Float :=
  let signed (negative : Bool) (x : Float) : Float := if negative then -x else x
  match Decimal.BinaryFormat.single.read bits with
  | .nan => Float.ofBits 0x7ff8000000000000
  | .infinite negative => signed negative infinity
  | .finite negative significand exponent =>
    signed negative (ofNat significand * twoPow exponent)

/-- The double nearest to a coordinate. -/
def ofCoordinate (coordinate : Coordinate) : Float :=
  match coordinate.numeric with
  | .f32 => ofSingle coordinate.bits.toNat
  | .f64 => Float.ofBits (UInt64.ofNat coordinate.bits.toNat)
  | .i8 | .i16 | .i32 | .i64 => ofInt coordinate.bits.toInt
  | .u8 | .u16 | .u32 | .u64 => ofNat coordinate.bits.toNat

end Double

/-- Double precision arithmetic, each operation rounded once. -/
instance : Arithmetic Float where
  ofNat := Double.ofNat
  ofCoordinate := Double.ofCoordinate
  ofFloat x := x
  lt x y := x < y
  le x y := x ≤ y
  isFinite := Float.isFinite
  floor x := x.toUInt32.toNat
  infinity := Double.infinity

end SpatialIndex
