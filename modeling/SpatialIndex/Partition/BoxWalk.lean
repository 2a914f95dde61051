import SpatialIndex.Partition.Tree

/-!
# Walking the nodes of a box

A box walk visits, in pre-order and children in the order of their corners, the nodes that can
hold an item whose box meets the query. A child is skipped when the query lies in the other half
on some axis, which one comparison of masked corners decides.
-/
namespace SpatialIndex.Partition

/-- A node on the way to the current one, and the children of it that are still to be
visited. -/
structure BoxFrame (D : Nat) extends Step D where
  /-- The axes on which the query lies in one half of the node. -/
  mask : Corner D
  /-- The halves in which it lies there. -/
  half : Corner D
  /-- The least corner not yet visited. -/
  next : Nat
deriving DecidableEq

/-- A walk over the nodes that a box can meet. -/
structure BoxWalk (D : Nat) where
  /-- The query. -/
  query : Box D
  /-- The way to the current node, that node first; empty when the walk is over. -/
  stack : List (BoxFrame D)
  /-- The epoch of the tree that the walk knows. -/
  epoch : Nat
deriving DecidableEq

namespace BoxFrame

variable {R : Type} {D : Nat}

/-- The frame of a node that is entered, no child being visited. -/
def enter (query : Box D) (step : Step D) (node : Node R D) : BoxFrame D :=
  let low := Corner.side node.center query.low
  let high := Corner.side node.center query.high
  let mask := ~~~(low ^^^ high)
  { step with mask, half := low &&& mask, next := 0 }

/-- The next child to visit: the least corner from `next` on that has a child and that the query
can meet. -/
def nextChild? (frame : BoxFrame D) (node : Node R D) : Option (Step D) :=
  (List.finRange (2 ^ D)).findSome? fun i =>
    let corner := BitVec.ofFin i
    if frame.next ≤ i ∧ corner &&& frame.mask = frame.half then
      (node.child? corner).map fun child => ⟨child, corner⟩
    else none

end BoxFrame

namespace BoxWalk

variable {R : Type} {D : Nat}

/-- The way to the next node: into the next child of the current node, or of the first node
above it that has one left. -/
def follow (tree : Tree R D) (query : Box D) :
    List (BoxFrame D) → Except Fault (List (BoxFrame D))
  | [] => .ok []
  | frame :: above =>
    match tree.nodes.get? frame.node with
    | none => .error .staleKey
    | some node =>
      match frame.nextChild? node with
      | none => follow tree query above
      | some step =>
        match tree.nodes.get? step.node with
        | none => .error .staleKey
        | some child =>
          .ok (.enter query step child :: { frame with next := step.corner.toNat + 1 } :: above)

/-- A walk that stands at the root. -/
def start (tree : Tree R D) (query : Box D) : Except Fault (BoxWalk D) := do
  tree.accept query
  let node ← tree.node root
  return ⟨query, [.enter query ⟨root, 0⟩ node], tree.epoch⟩

/-- The walk has to know the tree as it is. -/
def confirm (tree : Tree R D) (walk : BoxWalk D) : Except Fault Unit :=
  if walk.epoch = tree.epoch then .ok () else .error .staleBoxWalk

/-- Go to the next node. -/
def advance (tree : Tree R D) (walk : BoxWalk D) : Except Fault (BoxWalk D) := do
  walk.confirm tree
  return { walk with stack := ← follow tree walk.query walk.stack }

/-- The steps to the current node. -/
def way (walk : BoxWalk D) : List (Step D) := walk.stack.map BoxFrame.toStep

/-- The walk after the tree was changed at its place: only the first `kept` nodes of the way are
left, and the walk goes on when nodes were released. -/
def resume (tree : Tree R D) (kept : Nat) (walk : BoxWalk D) : Except Fault (BoxWalk D) :=
  let walk := { walk with epoch := tree.epoch }
  if kept < walk.stack.length then do
    let stack ← follow tree walk.query (walk.stack.drop (walk.stack.length - kept))
    return { walk with stack }
  else .ok walk

end BoxWalk

end SpatialIndex.Partition
