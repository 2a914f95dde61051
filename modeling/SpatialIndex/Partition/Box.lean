import SpatialIndex.Failure

/-!
# Boxes and corners

A partition divides a cube of cells. A node halves its part of the cube along every axis, and a
corner names one of the resulting parts: it has one bit for each axis, set for the upper half.
A box lies inside one part exactly when its two ends have the same corner.
-/
namespace SpatialIndex.Partition

/-- A cell, by its coordinate on every axis. -/
abbrev Cell (D : Nat) := Vector Nat D

/-- One of the `2 ^ D` parts around a center. -/
abbrev Corner (D : Nat) := BitVec D

namespace Corner

variable {D : Nat}

/-- The corner whose bits a test gives. -/
def ofTest (test : Fin D → Bool) : Corner D :=
  (BitVec.ofBoolListLE (List.ofFn test)).cast List.length_ofFn

/-- The part around `center` in which a cell lies. -/
def side (center cell : Cell D) : Corner D := ofTest fun d => decide (center.get d ≤ cell.get d)

/-- The cell `step` away from `center` on every axis, towards a corner. -/
def shift (corner : Corner D) (center : Cell D) (step : Nat) : Cell D :=
  Vector.ofFn fun d => if corner.getLsbD d then center.get d + step else center.get d - step

end Corner

/-- A box of cells, both ends included. -/
structure Box (D : Nat) where
  /-- The least cell. -/
  low : Cell D
  /-- The greatest cell. -/
  high : Cell D
deriving DecidableEq

namespace Box

variable {D : Nat}

/-- Whether the box is not inverted and lies below `border` on every axis. -/
def Valid (border : Nat) (box : Box D) : Prop :=
  ∀ d : Fin D, box.low.get d ≤ box.high.get d ∧ box.high.get d < border

/-- Validity can be tested. -/
instance (border : Nat) (box : Box D) : Decidable (box.Valid border) :=
  inferInstanceAs (Decidable (∀ _ : Fin D, _ ∧ _))

/-- The box as messages show it. -/
def shown (box : Box D) : ShownBox := ⟨box.low.toList, box.high.toList⟩

/-- The part around `center` that holds the whole box, if there is one. -/
def corner? (center : Cell D) (box : Box D) : Option (Corner D) :=
  let low := Corner.side center box.low
  if low = Corner.side center box.high then some low else none

end Box

end SpatialIndex.Partition
