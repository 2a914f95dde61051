import SpatialIndex.Failure

/-!
# Limits and settings
-/
namespace SpatialIndex

namespace Limits

/-- The most axes that an index can have. -/
def dimensions : Nat := 3

/-- The most levels of a partition. -/
def levels : Nat := 16

/-- The least border of a partition. -/
def leastBorder : Nat := 2 ^ (3 : Nat)

/-- The greatest border of a partition. -/
def greatestBorder : Nat := 2 ^ (18 : Nat)

/-- The most distinct fields that the indices of one storage can observe. -/
def observedFields : Nat := 64

end Limits

/-- The settings of an index. -/
structure Config where
  /-- Cells per world unit along the longest axis. -/
  density : Float
  /-- Ray directions of at most this magnitude count as parallel to the axis. -/
  epsilon : Float

namespace Config

/-- One cell per world unit, and a millionth as the least direction. -/
def standard : Config := ⟨1.0, 1e-6⟩

/-- A positive finite density and a finite tolerance that is not negative are accepted. -/
def check (config : Config) : Except Rejection Unit :=
  if !(config.density.isFinite && 0 < config.density) then
    .error (.density config.density)
  else if !(config.epsilon.isFinite && 0 ≤ config.epsilon) then
    .error (.epsilon config.epsilon)
  else .ok ()

/-- The settings by name. -/
def text (config : Config) : String :=
  let number (x : Float) : String := Decimal.Notation.exact.write .double x.toBits.toNat
  "VolumetricConfig \x7b partition_density: " ++ number config.density ++
    ", ray_epsilon: " ++ number config.epsilon ++ " \x7d"

end Config

end SpatialIndex
