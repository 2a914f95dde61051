import SpatialIndex.Action
import SpatialIndex.Record.Layout

/-!
# Edits of a record

An edit changes the bytes of one record. An aborted edit leaves the bytes as it found them at
the step that failed, so the numbers stored before that step stay stored.
-/
namespace SpatialIndex.Record

/-- A change of the bytes of one record. -/
abbrev Edit := Action Bytes Unit

namespace Edit

/-- Replace all bytes by as many others. -/
def copy (bytes : Bytes) : Edit := do
  if bytes.length ≠ (← get).length then throw .recordLength
  set bytes

/-- Store a number in a field. -/
def store (field : Field) (value : Coordinate) : Edit := do
  set (← Action.ofExcept (field.write value (← get)))

/-- Store numbers in the fields of a layout one after the other; each comes with the number of
its field. -/
def storeAll (layout : Layout) : List (Nat × Coordinate) → Edit
  | [] => pure ()
  | (id, value) :: rest => do
    match layout.field? id with
    | none => throw .outsideRecord
    | some field => store field value
    storeAll layout rest

/-- The record that an edit makes of zeros. -/
def fresh (layout : Layout) (edit : Edit) : Except Fault Bytes :=
  match edit layout.zeroRecord with
  | .ok () record => .ok record
  | .error fault _ => .error fault

end Edit

end SpatialIndex.Record
