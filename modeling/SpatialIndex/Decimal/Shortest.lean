import SpatialIndex.Decimal.Binary

/-!
# Shortest decimal digits

The decimal text of a floating-point number has the fewest digits that read back as the same
number, and of two such texts the nearer one. Every number of the interval that rounds to the
given one reads back; the interval contains its ends when the significand is even.
-/
namespace SpatialIndex.Decimal

/-- The positive number `digits * 10 ^ exponent`; the digits end in no zero. -/
structure Scientific where
  /-- The decimal digits as one natural number. -/
  digits : Nat
  /-- The power of ten of the last digit. -/
  exponent : Int
deriving DecidableEq

/-- How many decimal digits a natural number has. -/
def digitCount (n : Nat) : Nat := (Nat.toDigits 10 n).length

/-- Move trailing zeros of the digits into the exponent, at most `count` of them. -/
def Scientific.trim : Nat → Scientific → Scientific
  | 0, number => number
  | count + 1, number =>
    if number.digits % 10 = 0 then trim count ⟨number.digits / 10, number.exponent + 1⟩
    else number

/-- The numbers that round to `value / unit`: those between `low / unit` and `high / unit`. -/
structure RoundingInterval where
  /-- Numerator of the number itself. -/
  value : Nat
  /-- Numerator of the lower end. -/
  low : Nat
  /-- Numerator of the upper end. -/
  high : Nat
  /-- The common denominator. -/
  unit : Nat
  /-- Whether the ends round to the number too. -/
  closed : Bool

namespace RoundingInterval

/-- The interval of the number `significand * 2 ^ exponent` of a format. The gap below the least
significand of a binade is half the gap above it, the first binade excepted. -/
def ofFinite (format : BinaryFormat) (significand : Nat) (exponent : Int) : RoundingInterval :=
  let narrow := significand = 2 ^ format.fractionBits ∧ format.leastExponent < exponent
  let scale := 2 ^ (exponent - 2).toNat
  { value := 4 * significand * scale
    low := (4 * significand - if narrow then 1 else 2) * scale
    high := (4 * significand + 2) * scale
    unit := 2 ^ (2 - exponent).toNat
    closed := significand % 2 = 0 }

/-- The decimal exponent of the leading digit. -/
def leading (interval : RoundingInterval) : Int :=
  if interval.unit ≤ interval.value then (digitCount (interval.value / interval.unit) : Int) - 1
  else -(digitCount ((interval.unit + interval.value - 1) / interval.value - 1) : Int)

/-- The member of the interval nearest to the number among the multiples of `10 ^ exponent`; an
exact tie goes up. -/
def onGrid (interval : RoundingInterval) (exponent : Int) : Option Scientific :=
  let up := 10 ^ (-exponent).toNat
  let grid := interval.unit * 10 ^ exponent.toNat
  let value := interval.value * up
  let below := value / grid
  let inside (multiple : Nat) : Bool :=
    if interval.closed then
      interval.low * up ≤ multiple * grid ∧ multiple * grid ≤ interval.high * up
    else interval.low * up < multiple * grid ∧ multiple * grid < interval.high * up
  let rest := value - below * grid
  let found (multiple : Nat) : Option Scientific := some ⟨multiple, exponent⟩
  match inside below, inside (below + 1) with
  | true, true => if 2 * rest < grid then found below else found (below + 1)
  | true, false => found below
  | false, true => found (below + 1)
  | false, false => none

/-- The shortest member of the interval: the first grid that holds one, from one digit on. -/
def shortest (interval : RoundingInterval) : Scientific :=
  let grids := (List.range 18).map fun (count : Nat) => interval.leading - (count : Int)
  ((grids.findSome? interval.onGrid).getD ⟨interval.value, 0⟩).trim 20

end RoundingInterval

/-- The shortest decimal form of the positive number `significand * 2 ^ exponent`. -/
def shortest (format : BinaryFormat) (significand : Nat) (exponent : Int) : Scientific :=
  (RoundingInterval.ofFinite format significand exponent).shortest

end SpatialIndex.Decimal
