import SpatialIndex.World.Beam
import SpatialIndex.World.Tree

/-!
# Searches

A search visits the records of a world tree that meet a query. A walk of the partition yields
the candidates, and each of them is compared with the query exactly, by its present bytes.
-/
namespace SpatialIndex.World

open Record (Bytes)

/-- What a record has to meet. -/
inductive Query (α : Type) (D : Nat)
  /-- Bounds that overlap the record's. -/
  | extent (extent : Extent D)
  /-- A beam that hits the record's bounds. -/
  | beam (beam : Beam α D)

/-- A search under way. -/
structure Search (α : Type) (D : Nat) where
  /-- The walk over the nodes of candidates. -/
  walk : Partition.Walk α D
  /-- The query. -/
  query : Query α D
  /-- The position among the items of the current node. -/
  position : Nat

namespace Extent

variable {D : Nat}

/-- Whether two extents overlap on every axis, by the order of their own type. -/
def overlaps (candidate query : Extent D) : Bool :=
  (List.finRange D).all fun d =>
    !((candidate.high.get d).below (query.low.get d) || (query.high.get d).below (candidate.low.get d))

end Extent

namespace Query

variable {α : Type} [Arithmetic α] {D : Nat}

/-- Whether bounds meet the query. -/
def meets (query : Query α D) (candidate : Extent D) : Bool :=
  match query with
  | .extent wanted => candidate.overlaps wanted
  | .beam line =>
    line.hits (candidate.low.map Arithmetic.ofCoordinate)
      (candidate.high.map Arithmetic.ofCoordinate)

end Query

namespace Search

variable {α : Type} [Arithmetic α] {D : Nat}

/-- Whether the record of a key meets the query. -/
def meets (tree : Tree α D) (records : Pool Bytes) (query : Query α D) (key : Key) :
    Except Fault Bool :=
  match records.get? key with
  | none => .error .staleKey
  | some record => return query.meets (← tree.extent record)

/-- The first position from the given one on whose key passes the test, or where the test
fails. -/
def scan (test : Key → Except Fault Bool) : List Key → Nat → Nat × Except Fault Bool
  | [], position => (position, .ok false)
  | key :: rest, position =>
    match test key with
    | .ok true => (position, .ok true)
    | .ok false => scan test rest (position + 1)
    | .error fault => (position, .error fault)

/-- Go on to the next record that meets the query, the current position included, over at most
`fuel` nodes. -/
def seekWithin (tree : Tree α D) (records : Pool Bytes) : (fuel : Nat) → Action (Search α D) Unit
  | 0 => pure ()
  | fuel + 1 => do
    let search ← get
    match ← Action.ofExcept (search.walk.items? tree.partition) with
    | none => pure ()
    | some items =>
      let (position, found) :=
        scan (meets tree records search.query) (items.toList.drop search.position) search.position
      set { search with position }
      if ← Action.ofExcept found then pure ()
      else
        let walk ← Action.ofExcept (search.walk.advance tree.partition)
        set { search with walk, position := 0 }
        seekWithin tree records fuel

/-- Go on to the next record that meets the query, the current position included. A walk visits
no node twice, so the count of nodes bounds the search. -/
def seek (tree : Tree α D) (records : Pool Bytes) : Action (Search α D) Unit :=
  seekWithin tree records (tree.partition.nodeCount + 1)

/-- The current record; none when the search is over. -/
def current? (tree : Tree α D) (search : Search α D) : Except Fault (Option Key) := do
  match ← search.walk.items? tree.partition with
  | none => return none
  | some items => return items[search.position]?

/-- The outcome of an action on a search that is thrown away when it fails. -/
def run (action : Action (Search α D) Unit) (search : Search α D) : Except Fault (Search α D) :=
  match action search with
  | .ok () search => .ok search
  | .error fault _ => .error fault

/-- Go on to the next record. -/
def advance (tree : Tree α D) (records : Pool Bytes) (search : Search α D) :
    Except Fault (Search α D) := do
  match ← search.walk.items? tree.partition with
  | none => return search
  | some _ => run (seek tree records) { search with position := search.position + 1 }

/-- The current record and the later ones, at most `fuel` of them, with the search at its end. -/
def restWithin (tree : Tree α D) (records : Pool Bytes) :
    (fuel : Nat) → Search α D → Except Fault (List Key × Search α D)
  | 0, search => .ok ([], search)
  | fuel + 1, search => do
    match ← search.current? tree with
    | none => return ([], search)
    | some key =>
      let (later, last) ← restWithin tree records fuel (← search.advance tree records)
      return (key :: later, last)

/-- The current record and the later ones, with the search at its end. No record is met twice,
so the count of records in the tree bounds the search. -/
def rest (tree : Tree α D) (records : Pool Bytes) (search : Search α D) :
    Except Fault (List Key × Search α D) :=
  restWithin tree records (tree.partition.itemCount + 1) search

/-- Remove the current record from the tree and go on to the next one. When a candidate cannot
be read, the removal and the way to that candidate remain. -/
def eraseCurrent (records : Pool Bytes) : Action (Tree α D × Search α D) Unit := do
  let (tree, search) ← get
  match ← Action.ofExcept (search.current? tree) with
  | none => throw .noCurrent
  | some _ =>
    let (partition, walk, left) ←
      Action.ofExcept (search.walk.removeItem tree.partition search.position)
    let tree := { tree with partition }
    set (tree, { search with walk, position := if left then 0 else search.position })
    Action.onPart Prod.snd (fun search state => (state.1, search)) (seek tree records)

/-- The search for the records whose bounds overlap the given ones. -/
def overExtent (tree : Tree α D) (extent : Extent D) (records : Pool Bytes) :
    Except Fault (Search α D) := do
  let walk ← Partition.BoxWalk.start tree.partition (tree.box extent)
  run (seek tree records) ⟨.box walk, .extent extent, 0⟩

/-- The search for the records that a ray hits no further than `distance` from its origin. -/
def alongRay (tree : Tree α D) (origin direction : Vector Coordinate D) (distance : α)
    (records : Pool Bytes) : Except Fault (Search α D) :=
  let origin : Vector α D := origin.map Arithmetic.ofCoordinate
  let direction := direction.map fun value =>
    let component : α := Arithmetic.ofCoordinate value
    if Arithmetic.within component tree.epsilon then Arithmetic.ofNat 0 else component
  let ray : Partition.Ray α D :=
    { origin := Vector.ofFn fun d =>
        (origin.get d - Arithmetic.ofCoordinate (tree.axes.get d).low) / tree.factors.get d
      direction := Vector.ofFn fun d => direction.get d / tree.factors.get d }
  let walk := Partition.RayWalk.start tree.partition ray ⟨distance, tree.factors⟩
  run (seek tree records) ⟨.ray walk, .beam ⟨origin, direction, distance * distance⟩, 0⟩

end Search

end SpatialIndex.World
