import SpatialIndex.Failure

/-!
# Actions

An action changes a state and may be aborted; the state then stays as far as the action had
brought it, because a caller can go on with it.
-/
namespace SpatialIndex

/-- A computation on a state `σ` that may be aborted by a fault. -/
abbrev Action (σ : Type) := EStateM Fault σ

namespace Action

variable {ε σ τ α : Type}

/-- A computation that reads and changes no state. -/
def ofExcept (result : Except ε α) : EStateM ε σ α := fun state =>
  match result with
  | .ok value => .ok value state
  | .error failure => .error failure state

/-- Run an action on a part of the state. The part is put back also when the action fails. -/
def onPart (part : σ → τ) (replace : τ → σ → σ) (action : EStateM ε τ α) : EStateM ε σ α :=
  fun state =>
    match action (part state) with
    | .ok value changed => .ok value (replace changed state)
    | .error failure changed => .error failure (replace changed state)

end Action

end SpatialIndex
