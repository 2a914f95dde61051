import SpatialIndex.Action

/-!
# Running actions

A statement about an action names what holds after it ends well and what holds after it fails.
Every combinator passes such a statement on to its parts, so an operation is read step by step in
the order in which it runs.
-/
namespace SpatialIndex

/-- Two computations in a row have a value when both have one. -/
theorem Except.bind_eq_ok_iff {ε β γ : Type} {first : Except ε β} {next : β → Except ε γ}
    {value : γ} :
    (first >>= next) = .ok value ↔ ∃ found, first = .ok found ∧ next found = .ok value := by
  cases first with
  | error failure => simp [bind, Except.bind]
  | ok found => simp [bind, Except.bind]

namespace Action

variable {ε δ σ τ α β : Type}

/-- From `state`, an action either ends well with `done`, or it fails with `failed`. -/
def Ensures (action : EStateM ε σ α) (state : σ) (done : α → σ → Prop)
    (failed : ε → σ → Prop) : Prop :=
  match action state with
  | .ok value after => done value after
  | .error failure after => failed failure after

section Combinators

variable {state : σ} {done : α → σ → Prop} {failed : ε → σ → Prop}

/-- What is known of the end of an action that runs well is ensured. -/
theorem Ensures.of_eq {action : EStateM ε σ α} {value : α} {after : σ}
    (run : action state = .ok value after) (ends : done value after) :
    Ensures action state done failed := by
  unfold Ensures
  rw [run]
  exact ends

/-- What is ensured may be weakened. -/
theorem Ensures.imp {action : EStateM ε σ α} {weaker : α → σ → Prop}
    {weakerFailed : ε → σ → Prop} (ensured : Ensures action state done failed)
    (ends : ∀ value after, done value after → weaker value after)
    (fails : ∀ failure after, failed failure after → weakerFailed failure after) :
    Ensures action state weaker weakerFailed := by
  unfold Ensures at *
  cases run : action state with
  | ok value after => rw [run] at ensured; exact ends value after ensured
  | error failure after => rw [run] at ensured; exact fails failure after ensured

/-- An action that cannot fail ends well, whatever its failures are to ensure. -/
theorem Ensures.ends {action : EStateM ε σ α} {weaker : α → σ → Prop}
    (ensured : Ensures action state done fun _ _ => False)
    (ends : ∀ value after, done value after → weaker value after) :
    Ensures action state weaker failed :=
  ensured.imp ends fun _ _ => False.elim

/-- Two things that an action ensures hold together. -/
theorem Ensures.and {action : EStateM ε σ α} {state : σ} {done other : α → σ → Prop}
    {failed further : ε → σ → Prop} (first : Ensures action state done failed)
    (second : Ensures action state other further) :
    Ensures action state (fun value next => done value next ∧ other value next)
      fun failure next => failed failure next ∧ further failure next := by
  unfold Ensures at first second ⊢
  cases ran : action state with
  | ok value next =>
    rw [ran] at first second
    exact ⟨first, second⟩
  | error failure next =>
    rw [ran] at first second
    exact ⟨first, second⟩

/-- An action that cannot fail has an outcome. -/
theorem Ensures.exists_eq {action : EStateM ε σ α}
    (ensured : Ensures action state done fun _ _ => False) :
    ∃ value after, action state = .ok value after ∧ done value after := by
  unfold Ensures at ensured
  cases run : action state with
  | ok value after => rw [run] at ensured; exact ⟨value, after, rfl, ensured⟩
  | error failure after => rw [run] at ensured; exact ensured.elim

/-- A value alone ends in the state in which it started. -/
@[simp] theorem ensures_pure (value : α) :
    Ensures (pure value) state done failed ↔ done value state := Iff.rfl

/-- A failure alone fails in the state in which it started. -/
@[simp] theorem ensures_throw (failure : ε) :
    Ensures (throw failure) state done failed ↔ failed failure state := Iff.rfl

/-- Reading gives the state and leaves it as it is. -/
@[simp] theorem ensures_get (ends : σ → σ → Prop) :
    Ensures (get : EStateM ε σ σ) state ends failed ↔ ends state state := Iff.rfl

/-- Setting the state ends in the state that is set. -/
@[simp] theorem ensures_set (next : σ) (ends : PUnit → σ → Prop) :
    Ensures (set next : EStateM ε σ PUnit) state ends failed ↔ ends ⟨⟩ next := Iff.rfl

/-- Changing the state ends in the changed one. -/
@[simp] theorem ensures_modify (change : σ → σ) (ends : PUnit → σ → Prop) :
    Ensures (modify change : EStateM ε σ PUnit) state ends failed ↔ ends ⟨⟩ (change state) :=
  Iff.rfl

/-- Of two actions in a row the second one starts with the value of the first one and in the state
in which that one ends; both may fail. -/
@[simp] theorem ensures_bind (first : EStateM ε σ β) (next : β → EStateM ε σ α) :
    Ensures (first >>= next) state done failed ↔
      Ensures first state (fun value after => Ensures (next value) after done failed) failed := by
  unfold Ensures
  simp only [bind, EStateM.bind]
  cases first state <;> rfl

/-- Changing the value of an action changes nothing else of it. -/
@[simp] theorem ensures_map (change : β → α) (first : EStateM ε σ β) :
    Ensures (change <$> first) state done failed ↔
      Ensures first state (fun value after => done (change value) after) failed := by
  unfold Ensures
  simp only [Functor.map, EStateM.map]
  cases first state <;> rfl

/-- Dropping the value of an action changes nothing else of it. -/
@[simp] theorem ensures_discard (first : EStateM ε σ β) (ends : PUnit → σ → Prop) :
    Ensures (discard first) state ends failed ↔
      Ensures first state (fun _ after => ends ⟨⟩ after) failed :=
  ensures_map _ _

/-- A result that was computed well is a value alone. -/
@[simp] theorem ensures_ofExcept_ok (value : α) :
    Ensures (ofExcept (.ok value)) state done failed ↔ done value state := Iff.rfl

/-- A result that was not computed is a failure alone. -/
@[simp] theorem ensures_ofExcept_error (failure : ε) :
    Ensures (ofExcept (.error failure) : EStateM ε σ α) state done failed ↔
      failed failure state := Iff.rfl

/-- An action on a part leaves the rest of the state alone. -/
@[simp] theorem ensures_onPart (part : σ → τ) (replace : τ → σ → σ) (action : EStateM ε τ α) :
    Ensures (onPart part replace action) state done failed ↔
      Ensures action (part state) (fun value after => done value (replace after state))
        (fun failure after => failed failure (replace after state)) := by
  unfold Ensures onPart
  cases action (part state) <;> rfl

/-- What holds after the second of two actions, if both end well, does not depend on the first. -/
theorem Ensures.skip {first : EStateM ε σ β} {next : β → EStateM ε σ α}
    (second : ∀ value between, Ensures (next value) between done fun _ _ => True) :
    Ensures (first >>= next) state done fun _ _ => True := by
  rw [ensures_bind]
  unfold Ensures at second ⊢
  cases first state with
  | ok value between => exact second value between
  | error _ _ => trivial

/-- A loop over a list keeps an invariant that speaks of what is left of the list. -/
theorem Ensures.forM {items : List β} {action : β → EStateM ε σ PUnit}
    (inv : List β → σ → Prop)
    (step : ∀ item rest before, inv (item :: rest) before →
      Ensures (action item) before (fun _ after => inv rest after) failed)
    (start : inv items state) :
    Ensures (items.forM action) state (fun _ after => inv [] after) failed := by
  induction items generalizing state with
  | nil => exact start
  | cons item rest ih =>
    show Ensures (action item >>= fun _ => rest.forM action) state _ _
    rw [ensures_bind]
    exact (step item rest state start).imp (fun _ _ kept => ih kept) fun _ _ => id

end Combinators

/-! ## What actions leave alone -/

variable {κ : Type} {measure : σ → κ}

/-- An action that leaves a measure of the state as it is, whether it ends well or fails. -/
def Steady (measure : σ → κ) (action : EStateM ε σ α) : Prop :=
  ∀ state, Ensures action state (fun _ after => measure after = measure state)
    fun _ after => measure after = measure state

namespace Steady

/-- A value alone changes no state. -/
theorem pure (value : α) : Steady measure (Pure.pure value : EStateM ε σ α) := fun _ => rfl

/-- A failure alone changes no state. -/
theorem throw (failure : ε) : Steady measure (MonadExcept.throw failure : EStateM ε σ α) :=
  fun _ => rfl

/-- A result that was computed before changes no state. -/
theorem ofExcept (result : Except ε α) : Steady measure (Action.ofExcept result : EStateM ε σ α) :=
  fun _ => by cases result <;> rfl

/-- A change that a measure does not see leaves the measure alone. -/
theorem modify {change : σ → σ} (same : ∀ state, measure (change state) = measure state) :
    Steady measure (modify change : EStateM ε σ PUnit) := same

/-- What leaves a measure alone leaves it at what it was before. -/
theorem after {action : EStateM ε σ α} (steady : Steady measure action) {before state : σ}
    (same : measure state = measure before) :
    Ensures action state (fun _ after => measure after = measure before)
      fun _ after => measure after = measure before :=
  (steady state).imp (fun _ _ kept => kept.trans same) fun _ _ kept => kept.trans same

/-- Two actions in a row leave a measure alone when the first one does, and the second one whatever
value it is given. -/
theorem bind {first : EStateM ε σ β} {next : β → EStateM ε σ α} (before : Steady measure first)
    (further : ∀ value, Steady measure (next value)) : Steady measure (first >>= next) := by
  intro state
  rw [ensures_bind]
  exact (before state).imp (fun value _ => (further value).after) fun _ _ => id

/-- Reading the state and going on from it. -/
theorem get_bind {next : σ → EStateM ε σ α}
    (further : ∀ state, Ensures (next state) state (fun _ after => measure after = measure state)
      fun _ after => measure after = measure state) : Steady measure (get >>= next) := further

/-- Changing the value of an action leaves a measure alone when the action does. -/
theorem map {action : EStateM ε σ α} (steady : Steady measure action) (change : α → β) :
    Steady measure (change <$> action) := by
  intro state
  rw [ensures_map]
  exact steady state

/-- Dropping the value of an action leaves a measure alone when the action does. -/
theorem discard {action : EStateM ε σ α} (steady : Steady measure action) :
    Steady measure (discard action) := steady.map _

/-- A loop leaves a measure alone when its action does at every item. -/
theorem forM {items : List β} {action : β → EStateM ε σ PUnit}
    (each : ∀ item ∈ items, Steady measure (action item)) : Steady measure (items.forM action) := by
  induction items with
  | nil => exact Steady.pure _
  | cons item rest ih =>
    exact (each item List.mem_cons_self).bind fun _ =>
      ih fun other member => each other (List.mem_cons_of_mem _ member)

end Steady

end Action

end SpatialIndex
