import SpatialIndex.Arithmetic

/-!
# Beams

A beam is a ray in world units with a greatest length. It hits a box when it starts inside, or
when it meets the box at the last of the planes that separate its start from the box, no further
than its length.
-/
namespace SpatialIndex.World

open Arithmetic (isZero lt le)

/-- A ray in world units with a limit of its length. -/
structure Beam (α : Type) (D : Nat) where
  /-- The start. -/
  origin : Vector α D
  /-- The direction, not normalised. -/
  direction : Vector α D
  /-- The square of the greatest length. -/
  limit : α

namespace Beam

variable {α : Type} [Arithmetic α] {D : Nat}

/-- The plane of the box `low`..`high` that separates it from the start of the beam, on an axis
on which the start is outside the box. -/
def plane? (beam : Beam α D) (low high : Vector α D) (d : Fin D) : Option α :=
  if lt (beam.origin.get d) (low.get d) then some (low.get d)
  else if lt (high.get d) (beam.origin.get d) then some (high.get d)
  else none

/-- The greatest parameter at which the beam meets a separating plane, with its axis; the lower
axis when two are met together. -/
def entry (beam : Beam α D) (low high : Vector α D) : α × Option (Fin D) :=
  (List.finRange D).foldl
    (fun best d =>
      match beam.plane? low high d with
      | none => best
      | some plane =>
        let parameter := (plane - beam.origin.get d) / beam.direction.get d
        if lt best.1 parameter then (parameter, some d) else best)
    (Arithmetic.ofNat 0 - Arithmetic.infinity, none)

/-- Whether the point of the beam at a parameter lies between `low` and `high` on an axis. -/
def between (beam : Beam α D) (low high : Vector α D) (parameter : α) (d : Fin D) : Bool :=
  let coordinate := beam.origin.get d + beam.direction.get d * parameter
  !(lt coordinate (low.get d) || lt (high.get d) coordinate)

/-- The square of the length of the beam up to a parameter. -/
def lengthSquared (beam : Beam α D) (parameter : α) : α :=
  Arithmetic.sum fun (d : Fin D) =>
    let offset := beam.direction.get d * parameter
    offset * offset

/-- Whether the beam hits the box `low`..`high`. -/
def hits (beam : Beam α D) (low high : Vector α D) : Bool :=
  let outside := (List.finRange D).filter fun d => (beam.plane? low high d).isSome
  if outside.isEmpty then true
  else if outside.any fun d => isZero (beam.direction.get d) then false
  else
    match beam.entry low high with
    | (_, none) => false
    | (parameter, some axis) =>
      !lt parameter (Arithmetic.ofNat 0) &&
        (List.finRange D).all (fun d => d == axis || beam.between low high parameter d) &&
        le (beam.lengthSquared parameter) beam.limit

end Beam

end SpatialIndex.World
