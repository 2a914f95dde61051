import SpatialIndex.Partition.BoxWalk
import SpatialIndex.Partition.RayWalk

/-!
# Walks

A walk visits nodes of one tree, those of a box or those of a ray, and can remove items of the
current node. A walk holds no tree: every step is given the tree it was started on, and is
refused when anything else has changed the tree since.
-/
namespace SpatialIndex.Partition

/-- A walk over the nodes of a box or of a ray. -/
inductive Walk (α : Type) (D : Nat)
  /-- Over the nodes that a box can meet. -/
  | box (walk : BoxWalk D)
  /-- Over the nodes that a ray crosses. -/
  | ray (walk : RayWalk α D)

namespace Walk

variable {α : Type} [Arithmetic α] {R : Type} {D : Nat}

/-- The steps to the current node, the last one first. -/
def way : Walk α D → List (Step D)
  | box walk => walk.way
  | ray walk => walk.stack

/-- The key of the current node; none when the walk is over. -/
def current? (walk : Walk α D) : Option Key := walk.way.head?.map Step.node

/-- The walk has to know the tree as it is. -/
def confirm (tree : Tree R D) : Walk α D → Except Fault Unit
  | box walk => walk.confirm tree
  | ray walk => walk.confirm tree

/-- The items of the current node; none when the walk is over. -/
def items? (tree : Tree R D) (walk : Walk α D) : Except Fault (Option (Array R)) := do
  walk.confirm tree
  match walk.current? with
  | none => return none
  | some key => return some (← tree.node key).items

/-- Go to the next node. -/
def advance (tree : Tree R D) : Walk α D → Except Fault (Walk α D)
  | box walk => return .box (← walk.advance tree)
  | ray walk => return .ray (← walk.advance tree)

/-- The walk after the tree was changed at its place. -/
def resume (tree : Tree R D) (kept : Nat) : Walk α D → Except Fault (Walk α D)
  | box walk => return .box (← walk.resume tree kept)
  | ray walk => return .ray (← walk.resume tree kept)

/-- Remove the item at a position of the current node. Nodes left vacant are released; the walk
then stands at the next node. The flag tells whether that happened. -/
def removeItem (tree : Tree R D) (walk : Walk α D) (position : Nat) :
    Except Fault (Tree R D × Walk α D × Bool) := do
  walk.confirm tree
  let (nodes, way) ← Tree.removeAt tree.nodes walk.way position
  let tree := { tree.touch with nodes }
  let resumed ← walk.resume tree way.length
  return (tree, resumed, way.length < walk.way.length)

/-- The walk at this node and at every later one, at most `fuel` of them, and at its end. -/
def stopsWithin (tree : Tree R D) : (fuel : Nat) → Walk α D → Except Fault (List (Walk α D))
  | 0, _ => .ok []
  | fuel + 1, walk => do
    match ← walk.items? tree with
    | none => return [walk]
    | some _ => return walk :: (← stopsWithin tree fuel (← walk.advance tree))

/-- The walk at this node and at every later one, and at its end. No node is visited twice, so
the count of nodes bounds the walk. -/
def stops (tree : Tree R D) (walk : Walk α D) : Except Fault (List (Walk α D)) :=
  stopsWithin tree (tree.nodeCount + 1) walk

end Walk

end SpatialIndex.Partition
