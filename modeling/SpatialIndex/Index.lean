import SpatialIndex.Query

/-!
# Indices

An index is a world tree of any numeric type and count of axes, with the count of the cursors
that use it and the records that an edit cursor took out of the tree, which return to it when
the writer closes.
-/
namespace SpatialIndex

open Record (Bytes)
open World (Axis)

/-- An index over the records of a storage. -/
structure Index (α : Type) where
  /-- The count of axes. -/
  dimensions : Nat
  /-- The records by their bounds. -/
  tree : World.Tree α dimensions
  /-- The count of open cursors. -/
  cursors : Nat
  /-- The records to be put back, in the order in which they were taken out. -/
  queue : List Key

namespace Index

variable {α : Type} [Arithmetic α]

/-- The index without records over the given axes, whose bounds are of the type of the first. -/
def create (numeric : Numeric) (axes : List Axis) (config : Config) : Except Fault (Index α) := do
  let tree ← World.Tree.create numeric ⟨axes.toArray, rfl⟩ config
  return ⟨_, tree, 0, []⟩

/-- The axes in order. -/
def axes (index : Index α) : List Axis := index.tree.axes.toList

/-- The type of all bounds. -/
def numeric (index : Index α) : Numeric := index.tree.numeric

/-- The cells along every axis. -/
def border (index : Index α) : Nat := index.tree.border

/-- What is reported of a new index. -/
def announcement (index : Index α) : String :=
  "Created " ++ toString index.dimensions ++ "D index over " ++ index.numeric.name ++ " (border " ++
    toString index.border ++ ", " ++ toString index.tree.partition.levels ++ " levels)"

/-- Whether no cursor uses the index. -/
def isIdle (index : Index α) : Bool := index.cursors == 0

/-- The fields that bound a record, in the order of the axes. -/
def fields (index : Index α) : List Record.Field :=
  index.axes.flatMap fun axis => [axis.lowField, axis.highField]

/-- Whether a field bounds a record on some axis. -/
def observes (index : Index α) (field : Nat) : Bool := index.fields.any fun f => f.id == field

/-- The tree, when it has the given count of axes. -/
def treeOver? (index : Index α) (D : Nat) : Option (World.Tree α D) :=
  if same : index.dimensions = D then some (same ▸ index.tree) else none

/-- The index with another tree. -/
def withTree {D : Nat} (index : Index α) (tree : World.Tree α D) : Index α :=
  { dimensions := D, tree, cursors := index.cursors, queue := index.queue }

/-- Run an action on the tree, whatever its count of axes is. -/
def onTree {β : Type} (action : (D : Nat) → Action (World.Tree α D × Journal) β) :
    Action (Index α × Journal) β := fun (index, journal) =>
  match action index.dimensions (index.tree, journal) with
  | .ok value (tree, journal) => .ok value (index.withTree tree, journal)
  | .error fault (tree, journal) => .error fault (index.withTree tree, journal)

/-- Put a record into the tree. -/
def insert (key : Key) (record : Bytes) : Action (Index α × Journal) Unit :=
  onTree fun _ => World.Tree.insert key record

/-- Remove a record by the bounds it had. -/
def erase (key : Key) (backup : Bytes) : Action (Index α × Journal) Unit :=
  onTree fun _ => World.Tree.onTree (World.Tree.erase key backup)

/-- Move a record whose bytes changed. -/
def update (key : Key) (record backup : Bytes) : Action (Index α × Journal) Unit :=
  onTree fun _ => World.Tree.update key record backup

/-- Put back a record that was taken out, unless it was deleted since. -/
def putBack (records : Pool Bytes) (key : Key) : Action (Index α × Journal) Unit :=
  match records.get? key with
  | some record => insert key record
  | none => pure ()

/-- Put back all records that were taken out. -/
def settle (records : Pool Bytes) : Action (Index α × Journal) Unit := do
  let (index, journal) ← get
  if index.queue.isEmpty then pure ()
  else
    let message := "Reinserting " ++ toString index.queue.length ++ " moved records"
    set ({ index with queue := [] }, journal.report .debug "volumetric::VolumetricIndex" message)
    index.queue.forM (putBack records)

/-- Remember a record that was taken out of the tree. -/
def defer (index : Index α) (key : Key) : Index α := { index with queue := index.queue ++ [key] }

/-- Remove all records. -/
def clear (index : Index α) : Index α :=
  { index with tree := index.tree.clear, queue := [] }

end Index

end SpatialIndex
