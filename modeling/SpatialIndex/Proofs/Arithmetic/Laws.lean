import SpatialIndex.Arithmetic

/-!
# Laws of an arithmetic

The laws that make the cells of coordinates monotone: order, conversion, and the operations by
which a coordinate is scaled, with the rules for infinities and for operands that are no number.
Rounded binary arithmetic obeys them, since rounding keeps order; so does exact arithmetic.
-/
namespace SpatialIndex

namespace Arithmetic

variable {α : Type} [Arithmetic α]

/-- Whether the operand is a number and infinite. -/
def isInfinite (x : α) : Bool := !isNaN x && !isFinite x

end Arithmetic

open Arithmetic

/-- An arithmetic whose operations keep order where their results are numbers. -/
class LawfulArithmetic (α : Type) [Arithmetic α] : Prop where
  /-- Order is transitive. -/
  le_trans {x y z : α} : le x y = true → le y z = true → le x z = true
  /-- Only numbers are in order. -/
  number_of_le {x y : α} : le x y = true → isNaN x = false ∧ isNaN y = false
  /-- Strict order is order. -/
  le_of_lt {x y : α} : lt x y = true → le x y = true
  /-- Strict order excludes the opposite order. -/
  not_le_of_lt {x y : α} : lt x y = true → le y x = false
  /-- An infinity is above all numbers or below all numbers. -/
  infinite_extreme {x : α} : isInfinite x = true →
    (∀ y, isNaN y = false → le y x = true) ∨ ∀ y, isNaN y = false → le x y = true
  /-- Conversion keeps the order of coordinates of one type. -/
  convert_mono {a b : Coordinate} : a.numeric = b.numeric → a.atMost b = true →
    le (ofCoordinate a : α) (ofCoordinate b) = true
  /-- Subtracting a constant keeps order. -/
  sub_mono {x y c : α} : le x y = true → isNaN (x - c) = false → isNaN (y - c) = false →
    le (x - c) (y - c) = true
  /-- The difference of numbers in strict order is positive. -/
  sub_pos {x y : α} : lt x y = true → lt (ofNat 0) (y - x) = true
  /-- What is no number stays none when a constant is subtracted. -/
  sub_nan {x c : α} : isNaN x = true → isNaN (x - c) = true
  /-- A difference of numbers is no number only when both are the same infinity. -/
  sub_number {x c : α} : isNaN x = false → isNaN c = false → isNaN (x - c) = true →
    isInfinite c = true ∧ le x c = true ∧ le c x = true
  /-- The difference of an infinity and itself is no number. -/
  sub_infinite {x c : α} : isInfinite c = true → le x c = true → le c x = true →
    isNaN (x - c) = true
  /-- Dividing by a positive number keeps order. -/
  div_mono {x y s : α} : lt (ofNat 0) s = true → le x y = true → isNaN (x / s) = false →
    isNaN (y / s) = false → le (x / s) (y / s) = true
  /-- What is no number stays none when it is divided. -/
  div_nan {x s : α} : isNaN x = true → isNaN (x / s) = true
  /-- The quotient of a number by a positive one is no number only when both are infinite. -/
  div_number {x s : α} : lt (ofNat 0) s = true → isNaN x = false → isNaN (x / s) = true →
    isInfinite x = true ∧ isInfinite s = true
  /-- The quotient of infinities is no number. -/
  infinite_div {x s : α} : isInfinite x = true → isInfinite s = true → isNaN (x / s) = true
  /-- The quotient of a finite number by an infinity is zero. -/
  div_infinite {x s : α} : isFinite x = true → isInfinite s = true → isZero (x / s) = true
  /-- Multiplying by a positive count keeps order. -/
  mul_mono {x y : α} {n : Nat} : 0 < n → n < 2 ^ (64 : Nat) → le x y = true →
    le (x * ofNat n) (y * ofNat n) = true
  /-- What is no number stays none when it is multiplied. -/
  mul_nan {x c : α} : isNaN x = true → isNaN (x * c) = true
  /-- A multiple of zero is not positive. -/
  zero_mul {n : Nat} : n < 2 ^ (64 : Nat) → le (ofNat 0 * ofNat n : α) (ofNat 0) = true
  /-- Rounding down keeps order. -/
  floor_mono {x y : α} : le x y = true → floor x ≤ floor y
  /-- Zero is rounded to zero. -/
  floor_zero : floor (ofNat 0 : α) = 0
  /-- What is no number is rounded to zero. -/
  floor_nan {x : α} : isNaN x = true → floor x = 0

end SpatialIndex
