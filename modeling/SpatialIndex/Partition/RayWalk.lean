import SpatialIndex.Arithmetic
import SpatialIndex.Partition.Tree

/-!
# Walking the nodes of a ray

A ray walk visits the nodes whose part of the cube a ray crosses, in the order of the ray. It
follows the ray over the finest cells: it descends towards the cell the ray is in as long as the
children exist, and where one is missing the whole part is empty and the ray moves to the far
side of it at once. The nodes left on the way are those that still contain the new cell.

A move takes the ray strictly forward on the axis whose boundary is nearest, so there are at
most `RayWalk.moveBound` moves between two nodes.
-/
namespace SpatialIndex.Partition

open Arithmetic (isZero lt le isFinite)

/-- A ray in cells; its origin can lie outside the cube. -/
structure Ray (α : Type) (D : Nat) where
  /-- The start of the ray. -/
  origin : Vector α D
  /-- Cells per unit of the ray's parameter. -/
  direction : Vector α D

/-- How far a ray is followed. -/
structure Reach (α : Type) (D : Nat) where
  /-- The greatest distance, in world units. -/
  distance : α
  /-- World units per cell, on every axis. -/
  factors : Vector α D

/-- A walk over the nodes that a ray crosses. -/
structure RayWalk (α : Type) (D : Nat) where
  /-- The way to the current node, that node first; empty when the walk is over. -/
  stack : List (Step D)
  /-- The finest cell in which the ray is, counted in finest cells. -/
  target : Cell D
  /-- The start of the ray. -/
  origin : Vector α D
  /-- The point that the ray has reached. -/
  point : Vector α D
  /-- Cells per unit of the ray's parameter. -/
  direction : Vector α D
  /-- World units per cell, on every axis. -/
  factors : Vector α D
  /-- The square of the distance travelled, in world units. -/
  travelled : α
  /-- The square of the greatest distance. -/
  limit : α
  /-- The cells along every axis of the tree. -/
  border : Nat
  /-- The epoch of the tree that the walk knows. -/
  epoch : Nat

namespace Ray

variable {α : Type} [Arithmetic α] {D : Nat}

/-- The parameter interval in which the ray is between zero and `border` on the axes looked at
so far, narrowed by one more axis. -/
def clipAxis (border : α) (ray : Ray α D) (interval : Option (α × α)) (d : Fin D) :
    Option (α × α) :=
  let zero := Arithmetic.ofNat 0
  match interval with
  | none => none
  | some (enter, leave) =>
    if isZero (ray.direction.get d) then
      if lt (ray.origin.get d) zero || lt border (ray.origin.get d) then none else some (enter, leave)
    else
      let first := (zero - ray.origin.get d) / ray.direction.get d
      let second := (border - ray.origin.get d) / ray.direction.get d
      some (Arithmetic.max enter (Arithmetic.min first second),
        Arithmetic.min leave (Arithmetic.max first second))

/-- The parameter at which the ray enters the cube, if it ever does. -/
def entry? (border : α) (ray : Ray α D) : Option α :=
  let start := some (Arithmetic.ofNat 0, Arithmetic.infinity)
  match (List.finRange D).foldl (clipAxis border ray) start with
  | some (enter, leave) => if le enter leave then some enter else none
  | none => none

end Ray

namespace RayWalk

variable {α : Type} [Arithmetic α] {R : Type} {D : Nat}

/-- The level of the deepest nodes. -/
def finest (walk : RayWalk α D) : Nat := levelCount walk.border - 1

/-- The width of a finest cell. -/
def cellWidth (walk : RayWalk α D) : Nat := walk.border >>> walk.finest

/-- The square of the distance of a point from the origin, in world units. -/
def distanceSquared (origin factors point : Vector α D) : α :=
  Arithmetic.sum fun (d : Fin D) =>
    let delta := (point.get d - origin.get d) * factors.get d
    delta * delta

/-! ## Moving -/

/-- Whether the ray moves along an axis. -/
def moves (walk : RayWalk α D) (d : Fin D) : Bool := !isZero (walk.direction.get d)

/-- Whether the ray moves up along an axis. -/
def ascends (walk : RayWalk α D) (d : Fin D) : Bool := lt (Arithmetic.ofNat 0) (walk.direction.get d)

/-- The binary logarithm of the width, in finest cells, of the part that the ray has to leave:
the missing child of the current node, or the current node when it is one of the deepest. -/
def shift (walk : RayWalk α D) : Nat := walk.finest - min walk.stack.length walk.finest

/-- The least cell of the part to leave. -/
def regionStart (walk : RayWalk α D) (d : Fin D) : Nat :=
  walk.target.get d >>> walk.shift <<< walk.shift

/-- The side on which the ray leaves the part, counted in finest cells. -/
def boundary (walk : RayWalk α D) (d : Fin D) : Nat :=
  if walk.ascends d then walk.regionStart d + 2 ^ walk.shift else walk.regionStart d

/-- The coordinate of that side. -/
def boundaryPoint (walk : RayWalk α D) (d : Fin D) : α :=
  Arithmetic.ofNat (walk.boundary d * walk.cellWidth)

/-- How much the parameter of the ray grows until it reaches that side. -/
def parameter (walk : RayWalk α D) (d : Fin D) : α :=
  Arithmetic.max ((walk.boundaryPoint d - walk.point.get d) / walk.direction.get d) (Arithmetic.ofNat 0)

/-- The axis whose side is reached first, with its parameter; the lower axis when two are
reached together. -/
def nearest? (walk : RayWalk α D) : Option (Fin D × α) :=
  (List.finRange D).foldl
    (fun best d =>
      if walk.moves d then
        match best with
        | some (e, least) =>
          if lt (walk.parameter d) least then some (d, walk.parameter d) else some (e, least)
        | none => some (d, walk.parameter d)
      else best) none

/-- How much later than the first a side may be reached to count as reached with it. -/
def tolerance (parameter : α) : α :=
  parameter * (Arithmetic.ofNat 1 / Arithmetic.ofNat 1000000000) +
    Arithmetic.ofNat 1 / Arithmetic.ofNat 1000000000000

/-- Whether the move reaches the side of an axis: the nearest one, and those within the
tolerance of it. -/
def crosses (walk : RayWalk α D) (axis : Fin D) (least : α) (d : Fin D) : Bool :=
  walk.moves d && (d == axis || le (walk.parameter d) (least + tolerance least))

/-- Whether the side of an axis is one of the cube. -/
def atCubeSide (walk : RayWalk α D) (d : Fin D) : Bool :=
  if walk.ascends d then decide (2 ^ walk.finest ≤ walk.boundary d) else walk.boundary d == 0

/-- The coordinate after the move. -/
def nextPoint (walk : RayWalk α D) (axis : Fin D) (least : α) (d : Fin D) : α :=
  if walk.crosses axis least d then walk.boundaryPoint d
  else if walk.moves d then walk.point.get d + walk.direction.get d * least
  else walk.point.get d

/-- The cell after the move: beyond the side where one is reached, and else inside the part. -/
def nextTarget (walk : RayWalk α D) (axis : Fin D) (least : α) (d : Fin D) : Nat :=
  if walk.crosses axis least d then
    if walk.ascends d then walk.boundary d else walk.boundary d - 1
  else if walk.moves d then
    let cell := Arithmetic.floor (walk.nextPoint axis least d / Arithmetic.ofNat walk.cellWidth)
    max (walk.regionStart d) (min cell (walk.regionStart d + 2 ^ walk.shift - 1))
  else walk.target.get d

/-- How many nodes of the way still contain a new cell: those above the highest bit that
changed. -/
def keptLevels (walk : RayWalk α D) (target : Cell D) : Nat :=
  (List.finRange D).foldl
    (fun kept d =>
      let changed := walk.target.get d ^^^ target.get d
      if changed = 0 then kept else min kept (walk.finest - changed.log2))
    walk.stack.length

/-- The walk that is over. -/
def stopped (walk : RayWalk α D) : RayWalk α D := { walk with stack := [] }

/-- Move the ray to the far side of the part it is in. The walk is over when the ray leaves the
cube, moves no more or exceeds its greatest distance. -/
def move (walk : RayWalk α D) : RayWalk α D :=
  match walk.nearest? with
  | none => walk.stopped
  | some (axis, least) =>
    if !isFinite least then walk.stopped
    else if (List.finRange D).any fun d => walk.crosses axis least d && walk.atCubeSide d then
      walk.stopped
    else
      let point := Vector.ofFn fun d => walk.nextPoint axis least d
      let target := Vector.ofFn fun d => walk.nextTarget axis least d
      let travelled := distanceSquared walk.origin walk.factors point
      let stack :=
        if lt walk.limit travelled then []
        else walk.stack.drop (walk.stack.length - walk.keptLevels target)
      { walk with point, target, travelled, stack }

/-! ## Descending -/

/-- The child of the current node that contains the cell of the ray. -/
def descent? (walk : RayWalk α D) (node : Node R D) : Option (Step D) :=
  if walk.finest < walk.stack.length then none
  else
    let corner := Corner.ofTest fun d => (walk.target.get d).testBit (walk.finest - walk.stack.length)
    (node.child? corner).map fun child => ⟨child, corner⟩

/-- A bound of the moves of a ray: a move goes forward on some axis by a part of some width and
goes back on none by as much, so the progress on all widths, the greatest first, only grows. -/
def moveBound (walk : RayWalk α D) : Nat := (D * 2 ^ walk.finest + 1) ^ (walk.finest + 1)

/-- Move until the ray enters a node or the walk is over, at most `fuel` moves. -/
def march (tree : Tree R D) : (fuel : Nat) → RayWalk α D → Except Fault (RayWalk α D)
  | 0, walk => .ok walk.stopped
  | fuel + 1, walk =>
    match walk.stack with
    | [] => .ok walk
    | last :: _ =>
      match tree.nodes.get? last.node with
      | none => .error .staleKey
      | some node =>
        match walk.descent? node with
        | some step => .ok { walk with stack := step :: walk.stack }
        | none => march tree fuel walk.move

/-- Go to the next node the ray enters. -/
def follow (tree : Tree R D) (walk : RayWalk α D) : Except Fault (RayWalk α D) :=
  march tree (walk.moveBound + 1) walk

/-- A walk that stands at the root, or is over when the ray misses the cube or starts too far
away from it. -/
def start (tree : Tree R D) (ray : Ray α D) (reach : Reach α D) : RayWalk α D :=
  let walk : RayWalk α D :=
    { stack := [], target := Vector.replicate D 0, origin := ray.origin, point := ray.origin
      direction := ray.direction, factors := reach.factors, travelled := Arithmetic.ofNat 0
      limit := reach.distance * reach.distance, border := tree.border, epoch := tree.epoch }
  match ray.entry? (Arithmetic.ofNat tree.border) with
  | none => walk
  | some entry =>
    let point := Vector.ofFn fun (d : Fin D) => ray.origin.get d + ray.direction.get d * entry
    let target := Vector.ofFn fun (d : Fin D) =>
      min (Arithmetic.floor (point.get d / Arithmetic.ofNat walk.cellWidth)) (2 ^ walk.finest - 1)
    let travelled := distanceSquared walk.origin walk.factors point
    { walk with
      point, target, travelled, stack := if le travelled walk.limit then [⟨root, 0⟩] else [] }

/-- The walk has to know the tree as it is. -/
def confirm (tree : Tree R D) (walk : RayWalk α D) : Except Fault Unit :=
  if walk.epoch = tree.epoch then .ok () else .error .staleRayWalk

/-- Go to the next node. -/
def advance (tree : Tree R D) (walk : RayWalk α D) : Except Fault (RayWalk α D) := do
  walk.confirm tree
  walk.follow tree

/-- The walk after the tree was changed at its place: only the first `kept` nodes of the way are
left, and the walk goes on when nodes were released. -/
def resume (tree : Tree R D) (kept : Nat) (walk : RayWalk α D) : Except Fault (RayWalk α D) :=
  let walk := { walk with epoch := tree.epoch }
  if kept < walk.stack.length then
    follow tree { walk with stack := walk.stack.drop (walk.stack.length - kept) }
  else .ok walk

end RayWalk

end SpatialIndex.Partition
