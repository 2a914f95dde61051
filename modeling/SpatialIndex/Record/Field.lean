import SpatialIndex.Failure

/-!
# Fields of a record

A record is a list of bytes, and a field is a range of them. Numbers are stored with their
least byte first.
-/
namespace SpatialIndex.Record

/-- The bytes of a record. -/
abbrev Bytes := List UInt8

/-- The bytes of a number, least byte first. -/
def encode : (count : Nat) → Nat → Bytes
  | 0, _ => []
  | count + 1, n => UInt8.ofNat n :: encode count (n / 256)

/-- The number that bytes encode, least byte first. -/
def decode : Bytes → Nat
  | [] => 0
  | byte :: rest => byte.toNat + 256 * decode rest

/-- A field of a layout: its number, and where and what it stores. -/
structure Field where
  /-- Its position among the fields of its layout. -/
  id : Nat
  /-- The place of its first byte. -/
  offset : Nat
  /-- The count of its bytes. -/
  size : Nat
  /-- Its archetype. -/
  archetype : Archetype
deriving DecidableEq, Repr

namespace Field

/-- Whether the field stores numbers of a type. -/
def Holds (field : Field) (numeric : Numeric) : Prop :=
  field.archetype = numeric.archetype ∧ field.size = numeric.size

/-- The type of the numbers of a field can be tested. -/
instance (field : Field) (numeric : Numeric) : Decidable (field.Holds numeric) :=
  inferInstanceAs (Decidable (_ ∧ _))

/-- The bytes of the field, when the record reaches that far. -/
def bytes? (field : Field) (record : Bytes) : Option Bytes :=
  if field.offset + field.size ≤ record.length then
    some ((record.drop field.offset).take field.size)
  else none

/-- The bytes of the field. -/
def bytes (field : Field) (record : Bytes) : Except Fault Bytes :=
  match field.bytes? record with
  | some bytes => .ok bytes
  | none => .error .outsideRecord

/-- The number stored in the field. -/
def read (field : Field) (numeric : Numeric) (record : Bytes) : Except Fault Coordinate :=
  if field.Holds numeric then
    match field.bytes? record with
    | some bytes => .ok ⟨numeric, BitVec.ofNat _ (decode bytes)⟩
    | none => .error .outsideRecord
  else .error (.fieldType field.id numeric)

/-- The record with the bytes of the field replaced. -/
def replace (field : Field) (record bytes : Bytes) : Bytes :=
  record.take field.offset ++ bytes ++ record.drop (field.offset + field.size)

/-- Store a number in the field. -/
def write (field : Field) (value : Coordinate) (record : Bytes) : Except Fault Bytes :=
  if field.Holds value.numeric then
    if field.offset + field.size ≤ record.length then
      .ok (field.replace record (encode field.size value.bits.toNat))
    else .error .outsideRecord
  else .error (.fieldType field.id value.numeric)

/-- Whether two records store the same bytes in the field. -/
def equalIn (field : Field) (first second : Bytes) : Except Fault Bool := do
  let left ← field.bytes first
  let right ← field.bytes second
  return left == right

end Field

end SpatialIndex.Record
