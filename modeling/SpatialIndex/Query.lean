import SpatialIndex.World.Search

/-!
# Queries

A query is given by coordinates of any numeric type and any count of axes. An index accepts it
when both are its own.
-/
namespace SpatialIndex

/-- A query of an index. -/
inductive Query
  /-- Bounds on every axis, the lower one first. -/
  | shape (bounds : List (Coordinate × Coordinate))
  /-- The origin and the direction on every axis, and the greatest distance, if any. -/
  | ray (axes : List (Coordinate × Coordinate)) (distance : Option Float)

namespace Query

/-- The query for the bounds between two points. -/
def between (low high : List Coordinate) : Query := .shape (low.zip high)

/-- The query along a ray from one point in the direction of another. -/
def along (origin direction : List Coordinate) (distance : Option Float) : Query :=
  .ray (origin.zip direction) distance

/-- A coordinate has to be of the type of the index. -/
def expect (numeric : Numeric) (value : Coordinate) : Except Fault Coordinate :=
  if value.numeric = numeric then .ok value else .error (.queryType value numeric)

/-- The two points of coordinate pairs, when there is one pair for every axis and all are of one
type. -/
def points (numeric : Numeric) (D : Nat) (isRay : Bool) (pairs : List (Coordinate × Coordinate)) :
    Except Fault (Vector Coordinate D × Vector Coordinate D) :=
  if sized : pairs.toArray.size = D then do
    let pairs : Vector (Coordinate × Coordinate) D := ⟨pairs.toArray, sized⟩
    let first ← pairs.mapM fun pair => expect numeric pair.1
    let second ← pairs.mapM fun pair => expect numeric pair.2
    return (first, second)
  else .error (.queryDimensions isRay pairs.length D)

/-- Start the search of a query in a tree. -/
def start {α : Type} [Arithmetic α] {D : Nat} (query : Query) (tree : World.Tree α D)
    (records : Pool Record.Bytes) : Except Fault (World.Search α D) :=
  match query with
  | shape bounds => do
    let (low, high) ← points tree.numeric D false bounds
    World.Search.overExtent tree ⟨low, high⟩ records
  | ray axes distance => do
    let (origin, direction) ← points tree.numeric D true axes
    let distance :=
      match distance with
      | some most => Arithmetic.ofFloat most
      | none => Arithmetic.infinity
    World.Search.alongRay tree origin direction distance records

end Query

end SpatialIndex
