import SpatialIndex.Record.Field

/-!
# Record layouts

A layout places its fields one after the other, each at the next multiple of its alignment, and
rounds the size of a record up to its greatest alignment.
-/
namespace SpatialIndex.Record

/-- A field to be placed. -/
structure FieldSpec where
  /-- Its name. -/
  name : String
  /-- Its archetype. -/
  archetype : Archetype
  /-- The count of its bytes. -/
  size : Nat
deriving DecidableEq, Repr

namespace FieldSpec

/-- A field for numbers of a type. -/
def number (name : String) (numeric : Numeric) : FieldSpec :=
  ⟨name, numeric.archetype, numeric.size⟩

/-- An uninterpreted block. -/
def block (name : String) (size : Nat) : FieldSpec := ⟨name, .block, size⟩

/-- A text stored in place. -/
def string (name : String) (size : Nat) : FieldSpec := ⟨name, .string, size⟩

/-- The alignment of the field. -/
def alignment (spec : FieldSpec) : Nat := spec.archetype.alignment spec.size

end FieldSpec

/-- A layout to be computed. -/
structure LayoutSpec where
  /-- Its name. -/
  name : String
  /-- Its fields in order. -/
  fields : List FieldSpec
deriving DecidableEq, Repr

/-- A field with its name. -/
structure NamedField extends Field where
  /-- Its name. -/
  name : String
deriving DecidableEq, Repr

/-- A layout of records. -/
structure Layout where
  /-- Its name. -/
  name : String
  /-- Its fields, each at the position that is its number. -/
  fields : List NamedField
  /-- The count of bytes of a record. -/
  size : Nat
deriving DecidableEq, Repr

/-- The end of the address space: no size reaches it. -/
def addressLimit : Nat := 2 ^ (64 : Nat)

/-- Round an offset up inside the address space, by clearing the bits below an alignment that is a
power of two. -/
def alignUp (offset alignment : Nat) : Except Fault Nat :=
  if offset + alignment < addressLimit then
    .ok ((offset + alignment - 1) &&& (addressLimit - alignment))
  else .error .addressOverflow

/-- The end of a range, inside the address space. -/
def advance (offset size : Nat) : Except Fault Nat :=
  if offset + size < addressLimit then .ok (offset + size) else .error .addressOverflow

namespace LayoutSpec

/-- The first reason to reject a field, after the names before it. -/
def fieldRejection? (layout : String) (names : List String) (field : FieldSpec) :
    Option Rejection :=
  if field.name ∈ names then some (.duplicateField field.name layout)
  else if field.archetype.AcceptsSize field.size then none
  else some (.fieldSize field.name layout field.archetype field.size)

/-- The first reason to reject one of the fields, in order. -/
def fieldsRejection? (layout : String) : List String → List FieldSpec → Option Rejection
  | _, [] => none
  | names, field :: rest =>
    (fieldRejection? layout names field).or (fieldsRejection? layout (field.name :: names) rest)

/-- The first reason to reject the layout. -/
def rejection? (spec : LayoutSpec) : Option Rejection :=
  if spec.fields.isEmpty then some (.noFields spec.name)
  else fieldsRejection? spec.name [] spec.fields

/-- Place fields from an offset on, the first one having the number `id`; the result ends with
the offset after the last field. -/
def place : (id offset : Nat) → List FieldSpec → Except Fault (List NamedField × Nat)
  | _, offset, [] => .ok ([], offset)
  | id, offset, field :: rest => do
    let start ← alignUp offset field.alignment
    let (placed, last) ← place (id + 1) (← advance start field.size) rest
    return ({ id, offset := start, size := field.size, archetype := field.archetype,
              name := field.name } :: placed, last)

/-- The greatest alignment of the fields. -/
def greatestAlignment (spec : LayoutSpec) : Nat :=
  (spec.fields.map FieldSpec.alignment).foldl max 1

/-- Compute the layout of accepted fields. -/
def arrange (spec : LayoutSpec) : Except Fault Layout := do
  let (fields, last) ← place 0 0 spec.fields
  return ⟨spec.name, fields, ← alignUp last spec.greatestAlignment⟩

end LayoutSpec

namespace Layout

/-- Compute a layout, or tell why there is none. -/
def ofSpec (spec : LayoutSpec) : Except Failure Layout :=
  match spec.rejection? with
  | some rejection => .error (.rejected rejection)
  | none => spec.arrange.mapError .aborted

/-- The field of a number. -/
def field? (layout : Layout) (id : Nat) : Option Field :=
  (layout.fields[id]?).map NamedField.toField

/-- The name of a field. -/
def fieldName? (layout : Layout) (id : Nat) : Option String :=
  (layout.fields[id]?).map NamedField.name

/-- The number of the field of a name. -/
def fieldId? (layout : Layout) (name : String) : Option Nat :=
  layout.fields.findIdx? fun field => field.name == name

/-- The field of a name. -/
def fieldNamed? (layout : Layout) (name : String) : Option Field :=
  (layout.fieldId? name).bind layout.field?

/-- The record of zeros. -/
def zeroRecord (layout : Layout) : Bytes := List.replicate layout.size 0

end Layout

end SpatialIndex.Record
