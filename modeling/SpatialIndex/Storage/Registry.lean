import SpatialIndex.Config
import SpatialIndex.Record.Layout

/-!
# Observed fields

A storage numbers the fields that its indices observe, so that an index knows by one mask
whether a change concerns it. A number is free again when no index observes its field any more.
-/
namespace SpatialIndex.Storage

open Record (Bytes Field)

/-- A set of numbers of observed fields. -/
abbrev FieldMask := BitVec 64

/-- A field and the count of indices that observe it; it is free when there are none. -/
structure Observed where
  /-- The field. -/
  field : Field
  /-- The count of indices. -/
  users : Nat
deriving DecidableEq, Repr

/-- The observed fields by number. -/
abbrev Registry := List Observed

namespace Registry

/-- Whether a slot is in use. -/
def isUsed (slot : Observed) : Bool := 0 < slot.users

/-- The count of observed fields. -/
def usedCount (registry : Registry) : Nat := registry.countP isUsed

/-- The number of an observed field. -/
def slot? (registry : Registry) (field : Field) : Option Nat :=
  registry.findIdx? fun slot => isUsed slot && slot.field.id == field.id

/-- Note one more index that observes a field, in the slot of the field, in the first free slot
or in a new one. -/
def observe (registry : Registry) (field : Field) : Nat × Registry :=
  match registry.slot? field with
  | some i => (i, registry.modify i fun slot => { slot with users := slot.users + 1 })
  | none =>
    match registry.findIdx? fun slot => !isUsed slot with
    | some i => (i, registry.set i ⟨field, 1⟩)
    | none => (registry.length, registry ++ [⟨field, 1⟩])

/-- Note one more index that observes the fields, each once. -/
def observeAll (fields : List Field) (registry : Registry) : FieldMask × Registry :=
  fields.foldl
    (fun (mask, registry) field =>
      let (i, registry) := observe registry field
      (mask ||| BitVec.twoPow 64 i, registry))
    (0, registry)

/-- Note one more index that observes the fields, unless that would be too many fields. -/
def register (layout : String) (fields : List Field) (registry : Registry) :
    Except Rejection (FieldMask × Registry) :=
  let fields := fields.eraseDups
  let missing := fields.countP fun field => (registry.slot? field).isNone
  if Limits.observedFields < registry.usedCount + missing then
    .error (.observedFields layout Limits.observedFields)
  else .ok (registry.observeAll fields)

/-- Note one index less that observes the fields of a mask. -/
def release (mask : FieldMask) (registry : Registry) : Registry :=
  registry.mapIdx fun i slot => if mask.getLsbD i then { slot with users := slot.users - 1 } else slot

/-- The observed fields whose bytes differ in two versions of a record, from number `i` on. -/
def changedFrom (record backup : Bytes) : (i : Nat) → Registry → Except Fault FieldMask
  | _, [] => .ok 0
  | i, slot :: rest => do
    let same ← if isUsed slot then slot.field.equalIn record backup else .ok true
    let later ← changedFrom record backup (i + 1) rest
    return if same then later else later ||| BitVec.twoPow 64 i

/-- The observed fields whose bytes differ in two versions of a record. -/
def changed (registry : Registry) (record backup : Bytes) : Except Fault FieldMask :=
  changedFrom record backup 0 registry

end Registry

end SpatialIndex.Storage
