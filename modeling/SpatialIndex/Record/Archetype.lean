/-!
# Field archetypes

The category of a record field limits its size and fixes its alignment.
-/
namespace SpatialIndex.Record

/-- The category of a field. -/
inductive Archetype
  /-- A flag in one byte. -/
  | bit
  /-- A signed integer. -/
  | int
  /-- An unsigned integer. -/
  | uint
  /-- A binary floating-point number. -/
  | float
  /-- A zero-terminated text stored in place. -/
  | string
  /-- Uninterpreted bytes. -/
  | block
deriving DecidableEq, Repr

namespace Archetype

/-- Every archetype. -/
def all : List Archetype := [.bit, .int, .uint, .float, .string, .block]

/-- The name shown in messages. -/
def name : Archetype → String
  | bit => "Bit"
  | int => "Int"
  | uint => "UInt"
  | float => "Float"
  | string => "String"
  | block => "Block"

/-- Whether a field of this archetype may have `size` bytes. -/
def AcceptsSize (size : Nat) : Archetype → Prop
  | bit => size = 1
  | int | uint => size ∈ [1, 2, 4, 8]
  | float => size ∈ [4, 8]
  | string | block => 0 < size

/-- Sizes can be tested. -/
instance (size : Nat) : DecidablePred (AcceptsSize size)
  | bit => inferInstanceAs (Decidable (size = 1))
  | int | uint => inferInstanceAs (Decidable (size ∈ [1, 2, 4, 8]))
  | float => inferInstanceAs (Decidable (size ∈ [4, 8]))
  | string | block => inferInstanceAs (Decidable (0 < size))

/-- The alignment of a field of `size` bytes: numbers are aligned to their size. -/
def alignment (size : Nat) : Archetype → Nat
  | int | uint | float => size
  | bit | string | block => 1

end Archetype

end SpatialIndex.Record
