import SpatialIndex.Storage.Basic

/-!
# Creating and dropping indices

An index is described by the fields and the world range of every axis. The description is
checked axis by axis before anything changes, and a new index holds every record at once.
-/
namespace SpatialIndex

open Record (Field Layout)
open World (Axis)

/-- The description of an axis. -/
structure AxisSpec where
  /-- The number of the field of the lower bound. -/
  lowField : Nat
  /-- The lower end of the world range. -/
  low : Coordinate
  /-- The number of the field of the upper bound. -/
  highField : Nat
  /-- The upper end of the world range. -/
  high : Coordinate
deriving DecidableEq

namespace AxisSpec

/-- A bound has the type of the first bound of the index. -/
def checkBound (axis : Nat) (first bound : Coordinate) : Except Rejection Unit :=
  if bound.numeric = first.numeric then .ok () else .error (.boundType axis bound first)

/-- The field of a bound, which has to hold numbers of the type of the bounds. -/
def boundField (layout : Layout) (axis : Nat) (first : Coordinate) (id : Nat) :
    Except Rejection Field :=
  match layout.fields[id]? with
  | none => .error (.missingField axis id layout.name)
  | some field =>
    if field.toField.Holds first.numeric then .ok field.toField
    else .error (.fieldType field.name field.archetype field.size axis first)

variable (α : Type) [Arithmetic α]

/-- The axis of a description, the `axis`-th of its index. -/
def resolve (layout : Layout) (first : Coordinate) (axis : Nat) (spec : AxisSpec) :
    Except Rejection Axis := do
  checkBound axis first spec.low
  checkBound axis first spec.high
  if !Arithmetic.lt (Arithmetic.ofCoordinate spec.low : α) (Arithmetic.ofCoordinate spec.high) then
    throw (.emptyRange axis spec.low spec.high)
  let lowField ← boundField layout axis first spec.lowField
  let highField ← boundField layout axis first spec.highField
  return ⟨lowField, spec.low, highField, spec.high⟩

/-- The axes of descriptions, from the `axis`-th on. -/
def resolveFrom (layout : Layout) (first : Coordinate) : (axis : Nat) → List AxisSpec →
    Except Rejection (List Axis)
  | _, [] => .ok []
  | axis, spec :: rest => do
    let resolved ← spec.resolve α layout first axis
    return resolved :: (← resolveFrom layout first (axis + 1) rest)

/-- The numeric type and the axes of the descriptions of an index. -/
def resolveAll (layout : Layout) (specs : List AxisSpec) :
    Except Rejection (Numeric × List Axis) :=
  match specs with
  | [] => .error (.dimensionCount 0)
  | spec :: rest =>
    if Limits.dimensions < (spec :: rest).length then .error (.dimensionCount (spec :: rest).length)
    else do
      let axes ← resolveFrom α layout spec.low 0 (spec :: rest)
      return (spec.low.numeric, axes)

end AxisSpec

namespace Storage

variable {α : Type} [Arithmetic α]

/-- Create an index over the records. -/
def createIndex (specs : List AxisSpec) : StorageOp α Key := do
  let storage ← get
  let (numeric, axes) ← orReject (AxisSpec.resolveAll α storage.layout specs)
  let fields := axes.flatMap fun axis => [axis.lowField, axis.highField]
  let (mask, registry) ← orReject (storage.registry.register storage.layout.name fields)
  set { storage with registry }
  let index ← orAbort (Index.create numeric axes storage.config)
  let journal := storage.journal.report .info "volumetric::VolumetricIndex" index.announcement
  match (storage.records.entries.forM fun (key, record) => Index.insert key record)
      (index, journal) with
  | .ok () (index, journal) =>
    let (key, indices) := storage.indices.insert ⟨index, mask⟩
    modify fun storage => { storage with indices, journal }
    return key
  | .error fault (_, journal) =>
    modify fun storage => { storage with journal }
    abort fault

/-- Drop an index that no cursor uses. -/
def dropIndex (key : Key) : StorageOp α Unit := do
  let dropped ← member key
  if !dropped.index.isIdle then abort (.openCursors key)
  modify fun storage =>
    { storage with
      indices := storage.indices.remove key
      registry := storage.registry.release dropped.mask }
  report .info ("Dropped index " ++ key.indexText)

/-- The index of a key. -/
def index? (storage : Storage α) (key : Key) : Option (Index α) :=
  (storage.indices.get? key).map Member.index

end Storage

end SpatialIndex
