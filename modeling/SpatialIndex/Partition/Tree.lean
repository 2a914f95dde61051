import SpatialIndex.Action
import SpatialIndex.Config
import SpatialIndex.Partition.Box

/-!
# Partition trees

A partition tree keeps items in a cube of cells. An item sits in the deepest node whose part of
the cube is not split by the item's box, so a box leads to one node. Nodes are made when an item
needs them and released as soon as nothing is left below them; the root always stays. Every
change advances the epoch, by which a walk notices that its tree was changed by another.
-/
namespace SpatialIndex.Partition

/-- A node of a partition tree. -/
structure Node (R : Type) (D : Nat) where
  /-- The least cell of the upper half, on every axis. -/
  center : Cell D
  /-- The child of every corner. -/
  children : Vector (Option Key) (2 ^ D)
  /-- How many children there are. -/
  childCount : Nat
  /-- The items of this node. -/
  items : Array R

namespace Node

variable {R : Type} {D : Nat}

/-- A node without items and children. -/
def vacant (center : Cell D) : Node R D := ⟨center, Vector.replicate _ none, 0, #[]⟩

/-- Whether nothing is lost when the node is released. -/
def isVacant (node : Node R D) : Bool := node.items.isEmpty && node.childCount == 0

/-- The child in a corner. -/
def child? (node : Node R D) (corner : Corner D) : Option Key :=
  node.children.get corner.toFin

/-- Take a child into an empty corner. -/
def adopt (node : Node R D) (corner : Corner D) (child : Key) : Node R D :=
  { node with
    children := node.children.set corner.toNat (some child) corner.isLt
    childCount := node.childCount + 1 }

/-- Give the child of a corner away. -/
def abandon (node : Node R D) (corner : Corner D) : Node R D :=
  { node with
    children := node.children.set corner.toNat none corner.isLt
    childCount := node.childCount - 1 }

/-- Add an item at the end. -/
def addItem (node : Node R D) (item : R) : Node R D := { node with items := node.items.push item }

/-- Remove the item at a position; the last item takes its place. -/
def removeItem (node : Node R D) (position : Nat) : Node R D :=
  { node with items := (node.items.swapIfInBounds position (node.items.size - 1)).pop }

end Node

/-- One step of the way from the root to a node: the node it enters and the corner of the
parent it takes. The step to the root has the corner zero. -/
structure Step (D : Nat) where
  /-- The node entered. -/
  node : Key
  /-- Its corner in the parent. -/
  corner : Corner D
deriving DecidableEq

/-- A partition tree over `D` axes. -/
structure Tree (R : Type) (D : Nat) where
  /-- The nodes. -/
  nodes : Pool (Node R D)
  /-- The cells along every axis, a power of two. -/
  border : Nat
  /-- The count of changes. -/
  epoch : Nat

/-- How many levels a tree has: its deepest nodes are at least four cells wide, where the
border allows it. -/
def levelCount (border : Nat) : Nat := min (max (border.log2 - 2) 2) Limits.levels

/-- The key of the root: the first node of the pool. -/
def root : Key := ⟨1, 0⟩

namespace Tree

variable {R : Type} {D : Nat}

/-- The tree without items. -/
def create (border : Nat) : Except Fault (Tree R D) :=
  if ¬(1 ≤ D ∧ D ≤ Limits.dimensions) then .error (.dimensions D)
  else if 2 ^ border.log2 ≠ border then .error (.borderShape border)
  else if ¬(Limits.leastBorder ≤ border ∧ border ≤ Limits.greatestBorder) then
    .error (.borderRange border)
  else
    .ok { nodes := (Pool.empty.insert (Node.vacant (Vector.replicate D (border / 2)))).2
          border, epoch := 0 }

/-- The levels of the tree. -/
def levels (tree : Tree R D) : Nat := levelCount tree.border

/-- The count of nodes. -/
def nodeCount (tree : Tree R D) : Nat := tree.nodes.size

/-- The items of all nodes. -/
def items (tree : Tree R D) : List R := tree.nodes.values.flatMap fun node => node.items.toList

/-- The count of items. -/
def itemCount (tree : Tree R D) : Nat := tree.items.length

/-- Whether the tree has no items. -/
def isEmpty (tree : Tree R D) : Bool := tree.nodes.values.all fun node => node.items.isEmpty

/-- The node of a key. -/
def node (tree : Tree R D) (key : Key) : Except Fault (Node R D) :=
  match tree.nodes.get? key with
  | some node => .ok node
  | none => .error .staleKey

/-- A box has to be valid in the tree. -/
def accept (tree : Tree R D) (box : Box D) : Except Fault Unit :=
  if box.Valid tree.border then .ok () else .error (.invalidBox box.shown tree.border)

/-- Note a change. -/
def touch (tree : Tree R D) : Tree R D := { tree with epoch := tree.epoch + 1 }

/-! ## Insertion -/

/-- The node to which a box leads from `key` on, with `depth` levels below that node; `step` is
the distance from its center to those of its children. Missing nodes are made on the way. -/
def reach (box : Box D) :
    (depth step : Nat) → Key → Pool (Node R D) → Except Fault (Key × Pool (Node R D))
  | 0, _, key, nodes => .ok (key, nodes)
  | depth + 1, step, key, nodes =>
    match nodes.get? key with
    | none => .error .staleKey
    | some node =>
      match box.corner? node.center with
      | none => .ok (key, nodes)
      | some corner =>
        match node.child? corner with
        | some child => reach box depth (step / 2) child nodes
        | none =>
          let (child, grown) := nodes.insert (Node.vacant (corner.shift node.center step))
          reach box depth (step / 2) child (grown.set key (node.adopt corner child))

/-- The nodes after an item was put where its box leads. -/
def inserted (tree : Tree R D) (item : R) (box : Box D) : Except Fault (Pool (Node R D)) := do
  let (key, nodes) ← reach box (tree.levels - 1) (tree.border / 4) root tree.nodes
  match nodes.get? key with
  | none => .error .staleKey
  | some node => .ok (nodes.set key (node.addItem item))

/-- Put an item where its box leads. -/
def insert (item : R) (box : Box D) : Action (Tree R D) Unit := do
  let tree ← get
  Action.ofExcept (tree.accept box)
  set tree.touch
  let nodes ← Action.ofExcept (tree.inserted item box)
  set { tree.touch with nodes }

/-! ## Removal -/

/-- The steps to the node to which a box leads, the last one first, after the steps so far. -/
def route (box : Box D) (nodes : Pool (Node R D)) :
    (depth : Nat) → Step D → List (Step D) → Except Fault (List (Step D))
  | 0, last, before => .ok (last :: before)
  | depth + 1, last, before =>
    match nodes.get? last.node with
    | none => .error .staleKey
    | some node =>
      match box.corner? node.center with
      | none => .ok (last :: before)
      | some corner =>
        match node.child? corner with
        | some child => route box nodes depth ⟨child, corner⟩ (last :: before)
        | none => .error .missingChild

/-- Release the child of a corner, which has to be vacant. -/
def release (nodes : Pool (Node R D)) (parent : Key) (corner : Corner D) :
    Except Fault (Pool (Node R D)) :=
  match nodes.get? parent with
  | none => .error .staleKey
  | some node =>
    match node.child? corner with
    | none => .error .releasedTwice
    | some child =>
      match nodes.get? child with
      | none => .error .releasedOccupied
      | some gone =>
        if gone.isVacant then .ok ((nodes.set parent (node.abandon corner)).remove child)
        else .error .releasedOccupied

/-- Release the nodes of a way that are vacant, from its end up to the first that is not; the
root stays. The steps that are left are returned with the nodes. -/
def collapse (nodes : Pool (Node R D)) :
    List (Step D) → Except Fault (Pool (Node R D) × List (Step D))
  | [] => .ok (nodes, [])
  | [first] => .ok (nodes, [first])
  | last :: parent :: before =>
    match nodes.get? last.node with
    | none => .error .staleKey
    | some node =>
      if node.isVacant then
        match release nodes parent.node last.corner with
        | .error fault => .error fault
        | .ok nodes => collapse nodes (parent :: before)
      else .ok (nodes, last :: parent :: before)

/-- Remove the item at a position of the last node of a way, and release what it leaves
vacant. -/
def removeAt (nodes : Pool (Node R D)) (way : List (Step D)) (position : Nat) :
    Except Fault (Pool (Node R D) × List (Step D)) :=
  match way with
  | [] => .error .finishedWalk
  | last :: _ =>
    match nodes.get? last.node with
    | none => .error .staleKey
    | some node =>
      if position < node.items.size then
        collapse (nodes.set last.node (node.removeItem position)) way
      else .error (.itemPosition position)

/-- The nodes after the first copy of an item was removed from where its box leads. -/
def erased [DecidableEq R] (tree : Tree R D) (item : R) (box : Box D) :
    Except Fault (Pool (Node R D)) := do
  let way ← route box tree.nodes (tree.levels - 1) ⟨root, 0⟩ []
  let node ← tree.node ((way.head?.map Step.node).getD root)
  match node.items.findIdx? (· == item) with
  | none => .error .missingItem
  | some position =>
    let (nodes, _) ← removeAt tree.nodes way position
    return nodes

/-- Remove an item from where its box leads. The epoch advances also when it is not there. -/
def erase [DecidableEq R] (item : R) (box : Box D) : Action (Tree R D) Unit := do
  let tree ← get
  Action.ofExcept (tree.accept box)
  set tree.touch
  let nodes ← Action.ofExcept (tree.erased item box)
  set { tree.touch with nodes }

/-- Remove all items, and all nodes but the root. -/
def clear (tree : Tree R D) : Tree R D :=
  let nodes := tree.nodes.retain (· == root)
  { tree.touch with
    nodes :=
      match nodes.get? root with
      | some node => nodes.set root (Node.vacant node.center)
      | none => nodes }

end Tree

end SpatialIndex.Partition
