import SpatialIndex.Decimal.Shortest

/-!
# Notations of decimal numbers

How the shortest digits of a number are written: positionally, or with a power of ten when the
decimal point would be far from them.
-/
namespace SpatialIndex.Decimal

/-- The choices a written number leaves open. -/
structure Notation where
  /-- The places of the decimal point, counted from before the first digit, that are written
  positionally; all of them when absent. -/
  positional : Option (Int × Int)
  /-- What follows a number without a fraction in positional form. -/
  wholeSuffix : String

namespace Notation

/-- The full form: positional from `1e-4` to below `1e16`, and a fraction is always shown. -/
def exact : Notation := ⟨some (-3, 16), ".0"⟩

/-- The plain form: always positional, without an empty fraction. -/
def plain : Notation := ⟨none, ""⟩

/-- Digits with the point after the first `point` of them, filled with zeros where it lies
outside. -/
def writePositional (style : Notation) (digits : String) (point : Int) : String :=
  if point ≤ 0 then "0." ++ "".pushn '0' (-point).toNat ++ digits
  else if (digits.length : Int) ≤ point then
    digits ++ "".pushn '0' (point.toNat - digits.length) ++ style.wholeSuffix
  else String.ofList (digits.toList.take point.toNat) ++ "." ++
    String.ofList (digits.toList.drop point.toNat)

/-- One digit before the point and a power of ten. -/
def writeScientific (digits : String) (point : Int) : String :=
  let head := String.ofList (digits.toList.take 1)
  let tail := digits.toList.drop 1
  head ++ (if tail.isEmpty then "" else "." ++ String.ofList tail) ++ "e" ++ toString (point - 1)

/-- A positive number in this notation. -/
def writePositive (style : Notation) (number : Scientific) : String :=
  let digits := toString number.digits
  let point := (digits.length : Int) + number.exponent
  match style.positional with
  | none => style.writePositional digits point
  | some (least, greatest) =>
    if least ≤ point ∧ point ≤ greatest then style.writePositional digits point
    else writeScientific digits point

/-- The number that a bit pattern of a format denotes. -/
def write (style : Notation) (format : BinaryFormat) (bits : Nat) : String :=
  let sign (negative : Bool) : String := if negative then "-" else ""
  match format.read bits with
  | .nan => "NaN"
  | .infinite negative => sign negative ++ "inf"
  | .finite negative significand exponent =>
    if significand = 0 then sign negative ++ "0" ++ style.wholeSuffix
    else sign negative ++ style.writePositive (shortest format significand exponent)

end Notation

end SpatialIndex.Decimal
