import SpatialIndex.Journal
import SpatialIndex.Partition.Walk
import SpatialIndex.Record.Field

/-!
# World trees

A world tree keeps record keys in a partition. It reads the bounds of a record from two fields
on every axis and maps them from the world range of the axis to cells, those outside the range
to the cells at the border.
-/
namespace SpatialIndex.World

open Record (Bytes Field)

/-- An axis of an index: the fields that bound a record, and the world range it covers. -/
structure Axis where
  /-- The field of the lower bound. -/
  lowField : Field
  /-- The lower end of the world range. -/
  low : Coordinate
  /-- The field of the upper bound. -/
  highField : Field
  /-- The upper end of the world range. -/
  high : Coordinate
deriving DecidableEq

/-- The bounds of a record or a query, in world units. -/
structure Extent (D : Nat) where
  /-- The lower bounds. -/
  low : Vector Coordinate D
  /-- The upper bounds. -/
  high : Vector Coordinate D
deriving DecidableEq

/-- A partition of the keys of records by their bounds. -/
structure Tree (α : Type) (D : Nat) where
  /-- The type of all bounds. -/
  numeric : Numeric
  /-- The axes. -/
  axes : Vector Axis D
  /-- The keys in their cells. -/
  partition : Partition.Tree Key D
  /-- World units per cell, on every axis. -/
  factors : Vector α D
  /-- Ray directions of at most this magnitude count as zero. -/
  epsilon : α

namespace Axis

variable {α : Type} [Arithmetic α]

/-- The width of the world range. -/
def span (axis : Axis) : α := Arithmetic.ofCoordinate axis.high - Arithmetic.ofCoordinate axis.low

/-- The cell of a coordinate, out of `border` cells that divide the world range. A coordinate
that is no number has the first cell. -/
def cell (α : Type) [Arithmetic α] (axis : Axis) (border : Nat) (value : Coordinate) : Nat :=
  let low : α := Arithmetic.ofCoordinate axis.low
  let high : α := Arithmetic.ofCoordinate axis.high
  let scaled := (Arithmetic.ofCoordinate value - low) / (high - low) * Arithmetic.ofNat border
  min (Arithmetic.floor scaled) (border - 1)

/-- An axis has a world range and reads its bounds from fields of their type. -/
def check (numeric : Numeric) (axis : Axis) : Except Fault Unit :=
  if !axis.low.below axis.high then .error (.emptyRange axis.low axis.high)
  else if axis.lowField.Holds numeric ∧ axis.highField.Holds numeric then .ok ()
  else .error .boundField

end Axis

/-- The least power of two that is not below a number. -/
def leastPowerOfTwo (n : Nat) : Nat := if n ≤ 1 then 1 else 2 ^ ((n - 1).log2 + 1)

namespace Tree

variable {α : Type} [Arithmetic α] {D : Nat}

/-- The border of a partition whose longest axis has `density` cells per world unit: a power of
two inside the limits. -/
def borderFor (longest density : α) : Nat :=
  let ideal := longest * density
  let cells :=
    if Arithmetic.isNaN ideal then 0
    else max Limits.leastBorder (min (Arithmetic.ceil ideal) Limits.greatestBorder)
  min (leastPowerOfTwo cells) Limits.greatestBorder

/-- The greatest width of a world range. -/
def longestSpan (axes : Vector Axis D) : α :=
  axes.toList.foldl (fun longest axis => Arithmetic.max longest axis.span) (Arithmetic.ofNat 0)

/-- The tree without records over the given axes. -/
def create (numeric : Numeric) (axes : Vector Axis D) (config : Config) :
    Except Fault (Tree α D) := do
  axes.toList.forM (Axis.check numeric)
  let border := borderFor (longestSpan axes) (Arithmetic.ofFloat config.density : α)
  let partition ← Partition.Tree.create border
  return {
    numeric, axes, partition
    factors := axes.map fun axis => axis.span / Arithmetic.ofNat border
    epsilon := Arithmetic.ofFloat config.epsilon }

/-- The cells along every axis. -/
def border (tree : Tree α D) : Nat := tree.partition.border

/-! ## Bounds and cells -/

/-- The bounds stored in a record. -/
def extent (tree : Tree α D) (record : Bytes) : Except Fault (Extent D) := do
  let low ← tree.axes.mapM fun axis => axis.lowField.read tree.numeric record
  let high ← tree.axes.mapM fun axis => axis.highField.read tree.numeric record
  return ⟨low, high⟩

/-- The cell of a coordinate on an axis. -/
def cell (tree : Tree α D) (d : Fin D) (value : Coordinate) : Nat :=
  (tree.axes.get d).cell α tree.border value

/-- The box of cells of some bounds; inverted bounds are put in order. -/
def box (tree : Tree α D) (extent : Extent D) : Partition.Box D :=
  { low := Vector.ofFn fun d => min (tree.cell d (extent.low.get d)) (tree.cell d (extent.high.get d))
    high := Vector.ofFn fun d => max (tree.cell d (extent.low.get d)) (tree.cell d (extent.high.get d)) }

/-- Whether bounds lie inside the world range of every axis. -/
def covers (tree : Tree α D) (extent : Extent D) : Bool :=
  (List.finRange D).all fun d =>
    (tree.axes.get d).low.atMost (extent.low.get d) && (extent.high.get d).atMost (tree.axes.get d).high

/-- The box of cells of a record. -/
def recordBox (tree : Tree α D) (record : Bytes) : Except Fault (Partition.Box D) :=
  return tree.box (← tree.extent record)

/-- Whether two versions of a record have different boxes. -/
def isMoved (tree : Tree α D) (record backup : Bytes) : Except Fault Bool :=
  return (← tree.recordBox record) ≠ (← tree.recordBox backup)

/-! ## Changes -/

/-- The warning about a record that does not lie inside the world range. -/
def notice (key : Key) (extent : Extent D) : String :=
  "Record " ++ key.recordText ++ " with bounds " ++ bounds extent.low ++ ".." ++
    bounds extent.high ++ " exceeds the indexed world range, clamped to the border cells"
where
  bounds (values : Vector Coordinate D) : String :=
    "[" ++ ", ".intercalate (values.toList.map Coordinate.text) ++ "]"

/-- The journal after a record with the given bounds was looked at. -/
def report (tree : Tree α D) (key : Key) (extent : Extent D) (journal : Journal) : Journal :=
  if tree.covers extent then journal
  else journal.report .warn "volumetric::VolumetricTree" (notice key extent)

/-- Run an action on the partition. -/
def onPartition {β : Type} (action : Action (Partition.Tree Key D) β) : Action (Tree α D) β :=
  Action.onPart Tree.partition (fun partition tree => { tree with partition }) action

/-- Run an action on the tree of a tree with its journal. -/
def onTree {β : Type} (action : Action (Tree α D) β) : Action (Tree α D × Journal) β :=
  Action.onPart Prod.fst (fun tree state => (tree, state.2)) action

/-- The box of a record that is about to enter the tree; one outside the world range is
reported. -/
def place (key : Key) (record : Bytes) : Action (Tree α D × Journal) (Partition.Box D) := do
  let (tree, journal) ← get
  let extent ← Action.ofExcept (tree.extent record)
  set (tree, tree.report key extent journal)
  return tree.box extent

/-- Put a record into the tree. -/
def insert (key : Key) (record : Bytes) : Action (Tree α D × Journal) Unit := do
  let box ← place key record
  onTree (onPartition (Partition.Tree.insert key box))

/-- Remove a record, using the bounds it had when it was put in. -/
def erase (key : Key) (backup : Bytes) : Action (Tree α D) Unit := do
  let tree ← get
  let box ← Action.ofExcept (tree.recordBox backup)
  onPartition (Partition.Tree.erase key box)

/-- Move a record from the box of its former bytes to the box of its present ones. -/
def update (key : Key) (record backup : Bytes) : Action (Tree α D × Journal) Unit := do
  let former ← Action.ofExcept ((← get).1.recordBox backup)
  let present ← place key record
  if former ≠ present then
    onTree (onPartition (Partition.Tree.erase key former))
    onTree (onPartition (Partition.Tree.insert key present))

/-- Remove all records. -/
def clear (tree : Tree α D) : Tree α D := { tree with partition := tree.partition.clear }

end Tree

end SpatialIndex.World
