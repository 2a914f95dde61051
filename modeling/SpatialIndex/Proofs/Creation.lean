import SpatialIndex.Proofs.Lockstep
import SpatialIndex.Proofs.Observation

/-!
# Which indices are created

A description of an index has to meet demands, which are looked at in a fixed order: the count of
its axes, then for every axis the types of its bounds, its world range and its two fields, and last
the room for observed fields. Nothing else keeps an index from being created: the first demand that
is not met gives the kind of the rejection, and where all are met the new index is in lockstep with
the records.
-/
open SpatialIndex.Action (Ensures)

namespace SpatialIndex

open Record (Bytes Layout)
open World (Axis)

/-! ## Demands -/

/-- What has to be met, and the kind of the rejection if it is not. -/
structure Demand where
  /-- What has to be met. -/
  met : Prop
  /-- The kind of the rejection. -/
  kind : RejectionKind

/-- Of some demands in order, the first that is not met has a kind. -/
inductive FirstUnmet : List Demand → RejectionKind → Prop
  /-- The first demand is not met. -/
  | here {demand : Demand} {rest : List Demand} : ¬demand.met →
    FirstUnmet (demand :: rest) demand.kind
  /-- The first demand is met, and a later one is the first that is not. -/
  | later {demand : Demand} {rest : List Demand} {kind : RejectionKind} : demand.met →
    FirstUnmet rest kind → FirstUnmet (demand :: rest) kind

namespace FirstUnmet

variable {demands further : List Demand} {kind other : RejectionKind}

/-- Some demand is not met. -/
theorem not_met (unmet : FirstUnmet demands kind) : ¬∀ demand ∈ demands, demand.met := by
  induction unmet with
  | here unmet => exact fun met => unmet (met _ List.mem_cons_self)
  | later _ _ ih => exact fun met => ih fun demand member => met demand (List.mem_cons_of_mem _ member)

/-- There is one first demand that is not met. -/
theorem unique (first : FirstUnmet demands kind) (second : FirstUnmet demands other) :
    kind = other := by
  induction first with
  | here unmet =>
    cases second with
    | here _ => rfl
    | later met _ => exact absurd met unmet
  | later met _ ih =>
    cases second with
    | here unmet => exact absurd met unmet
    | later _ second => exact ih second

/-- Demands that come later do not matter. -/
theorem append (unmet : FirstUnmet demands kind) (further : List Demand) :
    FirstUnmet (demands ++ further) kind := by
  induction unmet with
  | here unmet => exact .here unmet
  | later met _ ih => exact .later met ih

/-- Demands that are met do not matter. -/
theorem prepend (met : ∀ demand ∈ further, demand.met) (unmet : FirstUnmet demands kind) :
    FirstUnmet (further ++ demands) kind := by
  induction further with
  | nil => exact unmet
  | cons demand rest ih =>
    exact .later (met demand List.mem_cons_self)
      (ih fun other member => met other (List.mem_cons_of_mem _ member))

end FirstUnmet

/-- A result that there is exactly when demands are met, and that is otherwise rejected for the
first that is not. -/
def Screens {β : Type} (demands : List Demand) : Except Rejection β → Prop
  | .ok _ => ∀ demand ∈ demands, demand.met
  | .error rejection => FirstUnmet demands rejection.kind

namespace Screens

variable {β γ : Type} {demands further : List Demand}

/-- A demand that is met was looked at first. -/
theorem cons {demand : Demand} {result : Except Rejection β} (met : demand.met)
    (screens : Screens demands result) : Screens (demand :: demands) result := by
  cases result with
  | error rejection => exact .later met screens
  | ok value => exact List.forall_mem_cons.mpr ⟨met, screens⟩

/-- A result where there is nothing to meet. -/
theorem nil (value : β) : Screens [] (.ok value) := List.forall_mem_nil _

/-- Results that need each other are screened in order. -/
theorem bind {result : Except Rejection β} {next : β → Except Rejection γ}
    (first : Screens demands result)
    (second : ∀ value, result = .ok value → Screens further (next value)) :
    Screens (demands ++ further) (result >>= next) := by
  cases result with
  | error rejection => exact first.append further
  | ok value =>
    have met : ∀ demand ∈ demands, demand.met := first
    have later := second value rfl
    show Screens (demands ++ further) (next value)
    cases found : next value with
    | error rejection =>
      rw [found] at later
      exact FirstUnmet.prepend met later
    | ok value =>
      rw [found] at later
      intro demand member
      rcases List.mem_append.mp member with before | after
      · exact met demand before
      · exact later demand after

/-- A result that is only changed is screened by the same demands. -/
theorem map {result : Except Rejection β} (screens : Screens demands result) (change : β → γ) :
    Screens demands (result >>= fun value => pure (change value)) := by
  cases result with
  | error rejection => exact screens
  | ok value => exact screens

end Screens

/-! ## The demands of a description -/

/-- Numbers of one archetype and size have one type. -/
theorem Numeric.eq_of_archetype_of_size {first second : Numeric}
    (archetype : first.archetype = second.archetype) (size : first.size = second.size) :
    first = second := by
  revert archetype size
  cases first <;> cases second <;> decide

namespace AxisSpec

variable (α : Type) [Arithmetic α]

/-- The demands on an axis of an index whose first bound is known. -/
def demands (layout : Layout) (first : Coordinate) (spec : AxisSpec) : List Demand :=
  [bound spec.low, bound spec.high,
    ⟨Arithmetic.lt (Arithmetic.ofCoordinate spec.low : α) (Arithmetic.ofCoordinate spec.high) = true,
      .invalidLayout⟩,
    field spec.lowField, field spec.highField]
where
  /-- A bound has the archetype and the size of the first one. -/
  bound (coordinate : Coordinate) : Demand :=
    ⟨coordinate.numeric.archetype = first.numeric.archetype ∧
      coordinate.numeric.size = first.numeric.size, .invalidLayout⟩
  /-- A field of a bound is in the layout, with the archetype and the size of the first bound. -/
  field (id : Nat) : Demand :=
    ⟨∃ named, layout.fields[id]? = some named ∧ named.archetype = first.numeric.archetype ∧
      named.size = first.numeric.size, .invalidField⟩

variable {layout : Layout} {first : Coordinate}

/-- Checking a bound demands the type of the first one. -/
theorem checkBound_screens (axis : Nat) (bound : Coordinate) :
    Screens [demands.bound first bound] (checkBound axis first bound) := by
  unfold checkBound
  split
  · rename_i same
    exact .cons ⟨congrArg _ same, congrArg _ same⟩ (.nil _)
  · rename_i other
    exact .here fun met => other (Numeric.eq_of_archetype_of_size met.1 met.2)

/-- Looking up the field of a bound demands that it is there, with the type of the bounds. -/
theorem boundField_screens (axis id : Nat) :
    Screens [demands.field layout first id] (boundField layout axis first id) := by
  unfold boundField
  cases found : layout.fields[id]? with
  | none =>
    refine .here ?_
    rintro ⟨named, held, -⟩
    rw [found] at held
    cases held
  | some named =>
    simp only
    split
    · rename_i holds
      exact .cons ⟨named, found, holds⟩ (.nil _)
    · rename_i other
      refine .here ?_
      rintro ⟨held, same, holds⟩
      cases found.symm.trans same
      exact other holds

/-- The demands on an axis are looked at in order. -/
theorem resolve_screens (axis : Nat) (spec : AxisSpec) :
    Screens (spec.demands α layout first) (spec.resolve α layout first axis) := by
  unfold resolve
  refine .bind (checkBound_screens axis spec.low) fun _ _ => ?_
  refine .bind (checkBound_screens axis spec.high) fun _ _ => ?_
  cases spread : Arithmetic.lt (Arithmetic.ofCoordinate spec.low : α)
      (Arithmetic.ofCoordinate spec.high) with
  | false => exact .here (by simp)
  | true =>
    refine .cons rfl (.bind (boundField_screens axis spec.lowField) ?_)
    intro lowField _
    exact (boundField_screens axis spec.highField).map fun highField =>
      (⟨lowField, spec.low, highField, spec.high⟩ : Axis)

/-- The axes are looked at in order. -/
theorem resolveFrom_screens (axis : Nat) (specs : List AxisSpec) :
    Screens (specs.flatMap (demands α layout first)) (resolveFrom α layout first axis specs) := by
  induction specs generalizing axis with
  | nil =>
    exact .nil _
  | cons spec rest ih =>
    exact (resolve_screens α axis spec).bind fun resolved _ =>
      (ih (axis + 1)).map fun further => resolved :: further

/-- The demands on the axes of a description, whose first bound has the type of all bounds. -/
def allDemands (layout : Layout) : List AxisSpec → List Demand
  | [] => []
  | spec :: rest => (spec :: rest).flatMap (demands α layout spec.low)

/-- The demands on a description without regard to the other indices. -/
def description (layout : Layout) (specs : List AxisSpec) : List Demand :=
  ⟨1 ≤ specs.length ∧ specs.length ≤ Limits.dimensions, .invalidLayout⟩ :: allDemands α layout specs

/-- A description is resolved exactly when its demands are met. -/
theorem resolveAll_screens (specs : List AxisSpec) :
    Screens (description α layout specs) (resolveAll α layout specs) := by
  unfold resolveAll description
  cases specs with
  | nil => exact .here (by simp)
  | cons spec rest =>
    simp only
    split
    · exact .here (by omega)
    · rename_i few
      have screens : Screens ((spec :: rest).flatMap (demands α layout spec.low))
          (resolveFrom α layout spec.low 0 (spec :: rest)) := resolveFrom_screens α 0 _
      exact .cons ⟨Nat.succ_pos _, Nat.not_lt.mp few⟩
        (screens.map fun axes => (spec.low.numeric, axes))

end AxisSpec

/-! ## New indices -/

/-- A new index has the type and the axes that it was made for, and the border of their longest
span. -/
theorem Index.create_shape {α : Type} [Arithmetic α] {index : Index α} {numeric : Numeric}
    {axes : List Axis} {config : Config} (created : create numeric axes config = .ok index) :
    index.numeric = numeric ∧ index.axes = axes ∧ index.border =
      World.Tree.borderFor (World.Tree.longestSpan index.tree.axes)
        (Arithmetic.ofFloat config.density : α) := by
  unfold create at created
  rw [Except.bind_eq_ok_iff] at created
  obtain ⟨tree, made, same⟩ := created
  obtain rfl := Except.ok.inj same
  obtain ⟨typed, along, border⟩ := World.Tree.create_shape made
  refine ⟨typed, ?_, ?_⟩
  · show tree.axes.toList = axes
    rw [along]
    rfl
  · show tree.border = World.Tree.borderFor (World.Tree.longestSpan tree.axes) _
    rw [border, along]

namespace Storage

variable {α : Type} [Arithmetic α]

/-- The demands on the description of an index over a storage. -/
def demands (storage : Storage α) (specs : List AxisSpec) : List Demand :=
  AxisSpec.description α storage.layout specs ++
    [⟨(storage.observedFields ∪ (AxisSpec.fieldIds specs).toFinset).card ≤ Limits.observedFields,
      .capacityExceeded⟩]

/-- An index as it was described, over the records of a storage. -/
structure Described (storage : Storage α) (specs : List AxisSpec) (index : Index α) : Prop where
  /-- Its axes are the described ones. -/
  axes : index.axes.map AxisSpec.describe = specs
  /-- It reads bounds from fields of the layout. -/
  has : ∀ field ∈ index.fields, storage.layout.Has field
  /-- There is a description of every axis. -/
  dimensions : index.dimensions = specs.length
  /-- The described bounds are of its type. -/
  numeric : ∀ spec ∈ specs,
    spec.low.numeric = index.numeric ∧ spec.high.numeric = index.numeric
  /-- No axis is longer than its longest one. -/
  longest : (∀ axis ∈ index.axes,
      Arithmetic.le axis.span (World.Tree.longestSpan index.tree.axes : α) = true) ∧
    ∃ axis ∈ index.axes,
      Arithmetic.le (World.Tree.longestSpan index.tree.axes : α) axis.span = true
  /-- Its border is the least power of two for the cells of the longest axis, inside the limits. -/
  border : IsLeast {border | (∃ exponent, border = 2 ^ exponent) ∧
    max Limits.leastBorder (min (Arithmetic.ceil (World.Tree.longestSpan index.tree.axes *
      Arithmetic.ofFloat storage.config.density : α)) Limits.greatestBorder) ≤ border} index.border
  /-- No cursor uses it. -/
  unused : index.cursors = 0
  /-- It holds the records as they are. -/
  lockstep : index.Lockstep storage.records

/-- How the creation of an index ends. -/
structure Creation (storage : Storage α) (specs : List AxisSpec) : Prop where
  /-- It is not aborted. -/
  total : ∀ fault after, createIndex specs storage ≠ .error (.aborted fault) after
  /-- There is a new index exactly when all demands are met. -/
  accepts : (∃ key after, createIndex specs storage = .ok key after) ↔
    ∀ demand ∈ storage.demands specs, demand.met
  /-- It is rejected exactly when there is a first demand that is not met, for that demand. -/
  rejects : ∀ kind, (∃ rejection after,
      createIndex specs storage = .error (.rejected rejection) after ∧ rejection.kind = kind) ↔
    FirstUnmet (storage.demands specs) kind
  /-- The new index has a fresh key and is as it was described; the records, the other indices and
  the counts are as they were. -/
  creates : ∀ key after, createIndex specs storage = .ok key after →
    storage.indices.get? key = none ∧
    after = { storage with indices := after.indices, registry := after.registry,
                           journal := after.journal } ∧
    ∃ member, after.indices.get? = Function.update storage.indices.get? key (some member) ∧
      storage.Described specs member.index

variable {storage : Storage α} {specs : List AxisSpec} {views : Key → Key → Option Bytes}

/-- What is created for a description is as described. -/
theorem Creates.described (rounding : Rounding α) (usable : storage.config.Usable α)
    (sound : storage.layout.Sound) {member : Member α} {registry : Registry}
    (creates : storage.Creates specs member registry) (unused : member.index.cursors = 0)
    (lockstep : member.index.Lockstep storage.records) :
    storage.Described specs member.index := by
  obtain @⟨numeric, axes, empty, resolved, -, created, same⟩ := creates
  obtain ⟨typed, along, border⟩ := Index.create_shape created
  have descriptions := AxisSpec.describe_of_resolveAll sound resolved
  have each := AxisSpec.resolveAll_spec sound resolved
  obtain ⟨tree, ⟨partition, sides, rfl⟩, turned⟩ := same
  obtain ⟨index, mask⟩ := member
  simp only at turned unused lockstep ⊢
  subst turned
  have spans : ∀ axis ∈ empty.tree.axes.toList, Arithmetic.isNaN (axis.span : α) = false ∧
      Arithmetic.le (Arithmetic.ofNat 0 : α) axis.span = true := by
    intro axis listed
    rw [← along] at each
    exact rounding.span_spec (each axis listed).accepted.spread
  have zero : Arithmetic.isNaN (Arithmetic.ofNat 0 : α) = false := by
    rw [rounding.isNaN, rounding.value_zero]
    exact Exact.isNaN_eq_false.mpr Exact.noConfusion
  have count : empty.dimensions = specs.length := by
    rw [← descriptions, List.length_map, ← along]
    exact (Vector.length_toList).symm
  have some_axis : 0 < empty.dimensions := by
    have few := (AxisSpec.resolveAll_length resolved).1
    rw [← List.length_map (f := AxisSpec.describe), descriptions, ← count] at few
    exact few
  refine ⟨?_, ?_, count, ?_, ?_, ?_, unused, lockstep⟩
  · show empty.axes.map AxisSpec.describe = specs
    rw [along, descriptions]
  · show ∀ field ∈ Axis.fields empty.axes, storage.layout.Has field
    rw [along]
    exact has_of_resolved sound resolved
  · show ∀ spec ∈ specs, spec.low.numeric = empty.numeric ∧ spec.high.numeric = empty.numeric
    intro spec listed
    rw [← descriptions] at listed
    obtain ⟨axis, inside, rfl⟩ := List.mem_map.mp listed
    rw [typed]
    exact (each axis inside).accepted.typed
  · exact World.Tree.longestSpan_spec rounding some_axis spans
  · have product := rounding.number_mul (World.Tree.longestSpan_number zero empty.tree.axes)
      usable.1 usable.2
    have least := World.Tree.borderFor_least product
    rw [← border] at least
    show IsLeast _ partition.border
    rw [sides]
    exact least

/-- A creation is screened by its demands and is never aborted. -/
theorem Keeps.screens (keeps : storage.Keeps views) (balanced : storage.Balanced)
    (rounding : Rounding α) (converts : rounding.Converts) (usable : storage.config.Usable α)
    (specs : List AxisSpec) :
    Ensures (Storage.createIndex specs) storage
      (fun _ _ => ∀ demand ∈ storage.demands specs, demand.met)
      fun failure _ => ∃ rejection, failure = .rejected rejection ∧
        FirstUnmet (storage.demands specs) rejection.kind := by
  have screens : Screens (AxisSpec.description α storage.layout specs)
      (AxisSpec.resolveAll α storage.layout specs) := AxisSpec.resolveAll_screens α specs
  refine (keeps.createIndex specs).imp ?_ ?_
  · rintro key after ⟨member, registry, -, -, -, -, -, creates⟩
    obtain @⟨numeric, axes, empty, resolved, registered, -, -⟩ := creates
    rw [resolved] at screens
    have room := keeps.register_eq balanced resolved
    rw [registered] at room
    intro demand listed
    rcases List.mem_append.mp listed with own | last
    · exact screens demand own
    · rw [List.mem_singleton.mp last]
      show _ ≤ _
      by_contra many
      rw [if_pos (not_le.mp many)] at room
      cases room
  · rintro failure after ⟨uncreatable, -, -, -⟩
    obtain ⟨_, same⟩ := uncreatable.exists_rejection rounding converts usable keeps.sound
    cases uncreatable with
    | @described rejection failed =>
      rw [failed] at screens
      exact ⟨rejection, rfl, screens.append _⟩
    | @crowded numeric axes rejection resolved failed =>
      rw [resolved] at screens
      have room := keeps.register_eq balanced resolved
      rw [failed] at room
      refine ⟨rejection, rfl, .prepend screens ?_⟩
      split at room
      · rename_i many
        cases room
        exact .here (not_le.mpr many)
      · cases room
    | unmade => cases same

/-- A storage that keeps its indices and balances their slots creates exactly the indices whose
descriptions meet their demands. -/
theorem Keeps.creation (keeps : storage.Keeps views) (balanced : storage.Balanced)
    (rounding : Rounding α) (converts : rounding.Converts) (usable : storage.config.Usable α)
    (specs : List AxisSpec) : storage.Creation specs := by
  have screens := keeps.screens balanced rounding converts usable specs
  have outcome := keeps.createIndex specs
  unfold Ensures at screens outcome
  cases ran : Storage.createIndex specs storage with
  | ok key after =>
    rw [ran] at screens outcome
    obtain ⟨member, registry, rfl, calm, unused, rest, kept, creates⟩ := outcome
    have found : after.indices.get? =
        Function.update storage.indices.get? (storage.indices.insert member).1 (some member) := by
      rw [rest]
      exact Pool.get?_insert_eq_update keeps.indices member
    have lockstep : member.index.Lockstep storage.records := by
      have there : after.indices.get? (storage.indices.insert member).1 = some member := by
        rw [found, Function.update_self]
      have shown := kept.shown there
      rw [Function.update_self] at shown
      exact shown.lockstep calm
    refine ⟨fun _ _ absurd => by simp [ran] at absurd, ⟨fun _ => screens, fun _ => ⟨_, after, ran⟩⟩,
      fun kind => ⟨?_, fun unmet => absurd screens unmet.not_met⟩, ?_⟩
    · rintro ⟨rejection, other, absurd, -⟩
      rw [ran] at absurd
      cases absurd
    · intro key last again
      obtain ⟨rfl, rfl⟩ := EStateM.Result.ok.inj (ran.symm.trans again)
      refine ⟨Pool.get?_insert_key keeps.indices member, ?_, member, found,
        creates.described rounding usable keeps.sound unused lockstep⟩
      rw [rest]
  | error failure after =>
    rw [ran] at screens
    obtain ⟨rejection, rfl, unmet⟩ := screens
    refine ⟨fun _ _ absurd => by simp [ran] at absurd, ⟨?_, fun met => absurd met unmet.not_met⟩,
      fun kind => ⟨?_, fun other => ⟨rejection, after, ran, unmet.unique other⟩⟩, ?_⟩
    · rintro ⟨key, last, absurd⟩
      rw [ran] at absurd
      cases absurd
    · rintro ⟨other, last, again, rfl⟩
      obtain ⟨same, -⟩ := EStateM.Result.error.inj (ran.symm.trans again)
      cases same
      exact unmet
    · intro key last absurd
      rw [ran] at absurd
      cases absurd

end Storage

end SpatialIndex
