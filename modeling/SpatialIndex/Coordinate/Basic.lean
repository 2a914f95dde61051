import SpatialIndex.Decimal.Notation
import SpatialIndex.Record.Archetype

/-!
# Coordinates

A coordinate is a number of one of ten numeric types, kept as its bit pattern, so that storing
and reading it back changes no bit. Within one type coordinates are ordered by an integer rank;
a NaN has no rank and compares with nothing.
-/
namespace SpatialIndex

open Decimal (BinaryFormat Notation)
open Record (Archetype)

/-- The numeric types that a coordinate, and a numeric record field, can have. -/
inductive Numeric
  | i8 | i16 | i32 | i64 | u8 | u16 | u32 | u64 | f32 | f64
deriving DecidableEq, Repr

namespace Numeric

/-- Every numeric type. -/
def all : List Numeric := [i8, i16, i32, i64, u8, u16, u32, u64, f32, f64]

/-- The short name. -/
def name : Numeric → String
  | i8 => "i8"
  | i16 => "i16"
  | i32 => "i32"
  | i64 => "i64"
  | u8 => "u8"
  | u16 => "u16"
  | u32 => "u32"
  | u64 => "u64"
  | f32 => "f32"
  | f64 => "f64"

/-- The name that tags a coordinate in messages. -/
def tag : Numeric → String
  | i8 => "I8"
  | i16 => "I16"
  | i32 => "I32"
  | i64 => "I64"
  | u8 => "U8"
  | u16 => "U16"
  | u32 => "U32"
  | u64 => "U64"
  | f32 => "F32"
  | f64 => "F64"

/-- Bytes of a number of this type. -/
def size : Numeric → Nat
  | i8 | u8 => 1
  | i16 | u16 => 2
  | i32 | u32 | f32 => 4
  | i64 | u64 | f64 => 8

/-- Bits of a number of this type. -/
def width (numeric : Numeric) : Nat := 8 * numeric.size

/-- The archetype of a field that holds numbers of this type. -/
def archetype : Numeric → Archetype
  | i8 | i16 | i32 | i64 => .int
  | u8 | u16 | u32 | u64 => .uint
  | f32 | f64 => .float

/-- How the bits of a number are to be read. -/
inductive Encoding
  /-- Two's complement. -/
  | signed
  /-- Plain binary. -/
  | unsigned
  /-- A binary floating-point format. -/
  | binary (format : BinaryFormat)

/-- The encoding of numbers of this type. -/
def encoding : Numeric → Encoding
  | i8 | i16 | i32 | i64 => .signed
  | u8 | u16 | u32 | u64 => .unsigned
  | f32 => .binary .single
  | f64 => .binary .double

end Numeric

/-- A number of one of the numeric types. -/
structure Coordinate where
  /-- Its type. -/
  numeric : Numeric
  /-- Its bit pattern. -/
  bits : BitVec numeric.width
deriving DecidableEq, Repr

namespace Coordinate

/-- The place of a coordinate among all of its type: an integer is its own rank, a
floating-point number has the rank of its pattern, and a NaN has none. -/
def rank? (coordinate : Coordinate) : Option Int :=
  match coordinate.numeric.encoding with
  | .signed => some coordinate.bits.toInt
  | .unsigned => some coordinate.bits.toNat
  | .binary format => format.rank? coordinate.bits.toNat

/-- Whether the coordinate is not a number. -/
def isNaN (coordinate : Coordinate) : Bool := coordinate.rank?.isNone

/-- Compare the ranks of two coordinates; false when one of them has none. -/
def compareRanks (test : Int → Int → Bool) (left right : Coordinate) : Bool :=
  match left.rank?, right.rank? with
  | some first, some second => test first second
  | _, _ => false

/-- Whether `left` is below `right`, both being of one type. -/
def below (left right : Coordinate) : Bool := compareRanks (fun x y => decide (x < y)) left right

/-- Whether `left` is at most `right`, both being of one type. -/
def atMost (left right : Coordinate) : Bool := compareRanks (fun x y => decide (x ≤ y)) left right

/-- Whether two coordinates are of one type and equal as numbers. -/
def sameNumber (left right : Coordinate) : Bool :=
  left.numeric == right.numeric && compareRanks (fun x y => decide (x = y)) left right

/-- The number alone, floating-point numbers in exact notation. -/
def text (coordinate : Coordinate) : String :=
  match coordinate.numeric.encoding with
  | .signed => toString coordinate.bits.toInt
  | .unsigned => toString coordinate.bits.toNat
  | .binary format => Notation.exact.write format coordinate.bits.toNat

/-- The number tagged with its type. -/
def taggedText (coordinate : Coordinate) : String :=
  coordinate.numeric.tag ++ "(" ++ coordinate.text ++ ")"

end Coordinate

end SpatialIndex
