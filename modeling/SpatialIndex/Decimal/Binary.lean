/-!
# Binary floating-point formats

A bit pattern of a binary interchange format is read as a sign, a significand and a power of
two. The order of two patterns that are not NaN is the order of two integers
(`BinaryFormat.rank?`), so comparing needs no floating-point operation.
-/
namespace SpatialIndex

-- A power of naturals is the core one wherever this namespace is open.
attribute [scoped instance (high)] instPowNat

end SpatialIndex

namespace SpatialIndex.Decimal

/-- The widths of the fraction and exponent fields; a sign bit stands above both. -/
structure BinaryFormat where
  /-- Bits of the fraction. -/
  fractionBits : Nat
  /-- Bits of the biased exponent. -/
  exponentBits : Nat

/-- What a bit pattern denotes. -/
inductive Reading
  /-- Not a number. -/
  | nan
  /-- An infinity of the given sign. -/
  | infinite (negative : Bool)
  /-- The number `significand * 2 ^ exponent` of the given sign. -/
  | finite (negative : Bool) (significand : Nat) (exponent : Int)

namespace BinaryFormat

/-- The 32-bit format. -/
def single : BinaryFormat := ⟨23, 8⟩

/-- The 64-bit format. -/
def double : BinaryFormat := ⟨52, 11⟩

variable (format : BinaryFormat)

/-- The pattern without its sign bit. -/
def magnitude (bits : Nat) : Nat := bits % 2 ^ (format.fractionBits + format.exponentBits)

/-- Whether the sign bit is set. -/
def negative (bits : Nat) : Bool := bits.testBit (format.fractionBits + format.exponentBits)

/-- The magnitude of the infinities; every larger magnitude is a NaN. -/
def infinity : Nat := (2 ^ format.exponentBits - 1) * 2 ^ format.fractionBits

/-- Whether the pattern is a NaN. -/
def isNaN (bits : Nat) : Bool := format.infinity < format.magnitude bits

/-- The place of a pattern among all patterns, by value: the signed magnitude. Both zeros have
the place zero, and a NaN has none. -/
def rank? (bits : Nat) : Option Int :=
  if format.isNaN bits then none
  else some (if format.negative bits then -(format.magnitude bits : Int) else format.magnitude bits)

/-- The exponent of a subnormal number. -/
def leastExponent : Int := 2 - (2 ^ (format.exponentBits - 1) : Nat) - (format.fractionBits : Int)

/-- The denotation of a pattern. -/
def read (bits : Nat) : Reading :=
  let magnitude := format.magnitude bits
  let fraction := magnitude % 2 ^ format.fractionBits
  let biased := magnitude / 2 ^ format.fractionBits
  if format.isNaN bits then .nan
  else if magnitude = format.infinity then .infinite (format.negative bits)
  else if biased = 0 then .finite (format.negative bits) fraction format.leastExponent
  else .finite (format.negative bits) (2 ^ format.fractionBits + fraction)
    (format.leastExponent + (biased - 1 : Nat))

end BinaryFormat

end SpatialIndex.Decimal
