import SpatialIndex.Proofs.Storage.Cursor
import SpatialIndex.Storage.Indices

/-!
# Creating and dropping indices in step

An accepted description has axes that every record can be read along, so a new index takes in all
records. A rejected description and a failure at any later point leave the records and the other
indices as they are.
-/
open SpatialIndex.Action (Ensures)

namespace SpatialIndex

open Record (Bytes Field Layout)
open World (Axis)

namespace AxisSpec

/-- The description of an axis. -/
def describe (axis : Axis) : AxisSpec :=
  ⟨axis.lowField.id, axis.low, axis.highField.id, axis.high⟩

/-- The numbers of the fields that descriptions name. -/
def fieldIds (specs : List AxisSpec) : List Nat :=
  specs.flatMap fun spec => [spec.lowField, spec.highField]

/-- The descriptions of axes name the fields of their bounds. -/
theorem fieldIds_describe (axes : List Axis) :
    fieldIds (axes.map describe) = (Axis.fields axes).map Field.id := by
  simp [fieldIds, Axis.fields, describe, List.flatMap_map, List.map_flatMap]

variable {α : Type} [Arithmetic α] {layout : Layout} {first : Coordinate}

/-- A bound that passes its check has the type of the first one. -/
theorem checkBound_eq_ok {axis : Nat} {bound : Coordinate}
    (checked : checkBound axis first bound = .ok ⟨⟩) : bound.numeric = first.numeric := by
  unfold checkBound at checked
  split at checked
  · assumption
  · cases checked

/-- The field of a bound is placed by the layout and holds numbers of the type of the bounds. -/
theorem boundField_eq_ok {axis id : Nat} {field : Field}
    (found : boundField layout axis first id = .ok field) :
    layout.Has field ∧ field.Holds first.numeric := by
  unfold boundField at found
  cases named : layout.fields[id]? with
  | none =>
    rw [named] at found
    cases found
  | some held =>
    rw [named] at found
    simp only at found
    split at found
    · rename_i holds
      obtain rfl := Except.ok.inj found
      exact ⟨⟨held, List.mem_of_getElem? named, rfl⟩, holds⟩
    · cases found

/-- An axis as it comes from its description. -/
structure Resolved (α : Type) [Arithmetic α] (layout : Layout) (numeric : Numeric) (axis : Axis) :
    Prop where
  /-- Every record can be read along the axis. -/
  accepted : axis.Accepted α numeric layout.size
  /-- The layout places the fields of the bounds. -/
  has : layout.Has axis.lowField ∧ layout.Has axis.highField

/-- An axis comes from its description when every record can be read along it. -/
theorem resolve_spec {number : Nat} {spec : AxisSpec} {axis : Axis} (sound : layout.Sound)
    (resolved : spec.resolve α layout first number = .ok axis) :
    Resolved α layout first.numeric axis := by
  unfold resolve at resolved
  simp only [Except.bind_eq_ok_iff] at resolved
  obtain ⟨_, lowChecked, _, highChecked, resolved⟩ := resolved
  by_cases spread : Arithmetic.lt (Arithmetic.ofCoordinate spec.low : α)
      (Arithmetic.ofCoordinate spec.high) = true
  · simp only [spread, Bool.not_true, Bool.false_eq_true, if_false, Except.bind_eq_ok_iff]
      at resolved
    obtain ⟨lowField, low, highField, high, made⟩ := resolved
    obtain rfl := Except.ok.inj made
    obtain ⟨lowHas, lowHolds⟩ := boundField_eq_ok low
    obtain ⟨highHas, highHolds⟩ := boundField_eq_ok high
    exact ⟨⟨⟨⟨lowHolds, lowHas.inside sound⟩, highHolds, highHas.inside sound⟩,
      ⟨checkBound_eq_ok lowChecked, checkBound_eq_ok highChecked⟩, spread⟩, lowHas, highHas⟩
  · rw [Bool.not_eq_true] at spread
    simp only [spread] at resolved
    cases resolved

/-- All axes come from their descriptions. -/
theorem resolveFrom_spec {number : Nat} {specs : List AxisSpec} {axes : List Axis}
    (sound : layout.Sound) (resolved : resolveFrom α layout first number specs = .ok axes) :
    ∀ axis ∈ axes, Resolved α layout first.numeric axis := by
  induction specs generalizing number axes with
  | nil =>
    obtain rfl := Except.ok.inj resolved
    simp
  | cons spec rest ih =>
    simp only [resolveFrom, Except.bind_eq_ok_iff] at resolved
    obtain ⟨head, found, later, further, made⟩ := resolved
    obtain rfl := Except.ok.inj made
    intro axis member
    rcases List.mem_cons.mp member with rfl | behind
    · exact resolve_spec sound found
    · exact ih further axis behind

/-- Every record can be read along the axes of an accepted description. -/
theorem resolveAll_spec {specs : List AxisSpec} {numeric : Numeric} {axes : List Axis}
    (sound : layout.Sound) (resolved : resolveAll α layout specs = .ok (numeric, axes)) :
    ∀ axis ∈ axes, Resolved α layout numeric axis := by
  cases specs with
  | nil => cases resolved
  | cons spec rest =>
    simp only [resolveAll] at resolved
    split at resolved
    · cases resolved
    · rw [Except.bind_eq_ok_iff] at resolved
      obtain ⟨found, run, made⟩ := resolved
      cases made
      exact resolveFrom_spec sound run

/-- There is an axis for every description. -/
theorem resolveFrom_length {number : Nat} {specs : List AxisSpec} {axes : List Axis}
    (resolved : resolveFrom α layout first number specs = .ok axes) :
    axes.length = specs.length := by
  induction specs generalizing number axes with
  | nil =>
    obtain rfl := Except.ok.inj resolved
    rfl
  | cons spec rest ih =>
    simp only [resolveFrom, Except.bind_eq_ok_iff] at resolved
    obtain ⟨head, -, later, further, made⟩ := resolved
    obtain rfl := Except.ok.inj made
    rw [List.length_cons, List.length_cons, ih further]

/-- The number of the field of a bound is the one that was asked for. -/
theorem id_of_boundField {axis id : Nat} {field : Field} (sound : layout.Sound)
    (found : boundField layout axis first id = .ok field) : field.id = id := by
  unfold boundField at found
  cases named : layout.fields[id]? with
  | none =>
    rw [named] at found
    cases found
  | some held =>
    rw [named] at found
    simp only at found
    split at found
    · obtain rfl := Except.ok.inj found
      exact (sound named).1
    · cases found

/-- An axis has its description. -/
theorem describe_of_resolve {number : Nat} {spec : AxisSpec} {axis : Axis} (sound : layout.Sound)
    (resolved : spec.resolve α layout first number = .ok axis) : describe axis = spec := by
  unfold resolve at resolved
  simp only [Except.bind_eq_ok_iff] at resolved
  obtain ⟨_, -, _, -, resolved⟩ := resolved
  split at resolved
  · cases resolved
  · simp only [Except.bind_eq_ok_iff] at resolved
    obtain ⟨lowField, low, highField, high, made⟩ := resolved
    obtain rfl := Except.ok.inj made
    simp only [describe, id_of_boundField sound low, id_of_boundField sound high]

/-- Axes that come from descriptions are described by them. -/
theorem describe_of_resolveFrom {number : Nat} {specs : List AxisSpec} {axes : List Axis}
    (sound : layout.Sound) (resolved : resolveFrom α layout first number specs = .ok axes) :
    axes.map describe = specs := by
  induction specs generalizing number axes with
  | nil =>
    obtain rfl := Except.ok.inj resolved
    rfl
  | cons spec rest ih =>
    simp only [resolveFrom, Except.bind_eq_ok_iff] at resolved
    obtain ⟨head, found, later, further, made⟩ := resolved
    obtain rfl := Except.ok.inj made
    rw [List.map_cons, describe_of_resolve sound found, ih further]

/-- The axes of an accepted description have the descriptions that were given. -/
theorem describe_of_resolveAll {specs : List AxisSpec} {numeric : Numeric} {axes : List Axis}
    (sound : layout.Sound) (resolved : resolveAll α layout specs = .ok (numeric, axes)) :
    axes.map describe = specs := by
  cases specs with
  | nil => cases resolved
  | cons spec rest =>
    simp only [resolveAll] at resolved
    split at resolved
    · cases resolved
    · rw [Except.bind_eq_ok_iff] at resolved
      obtain ⟨found, run, made⟩ := resolved
      cases made
      exact describe_of_resolveFrom sound run

/-- An accepted description has one to three axes. -/
theorem resolveAll_length {specs : List AxisSpec} {numeric : Numeric} {axes : List Axis}
    (resolved : resolveAll α layout specs = .ok (numeric, axes)) :
    1 ≤ axes.length ∧ axes.length ≤ Limits.dimensions := by
  cases specs with
  | nil => cases resolved
  | cons spec rest =>
    simp only [resolveAll] at resolved
    split at resolved
    · cases resolved
    · rename_i few
      rw [Except.bind_eq_ok_iff] at resolved
      obtain ⟨found, run, made⟩ := resolved
      cases made
      rw [resolveFrom_length run]
      exact ⟨Nat.succ_pos _, Nat.not_lt.mp few⟩

end AxisSpec

namespace Storage

variable {α : Type}

/-- Why an index is not dropped. -/
inductive Undroppable (storage : Storage α) (key : Key) : Failure → Prop
  /-- There is no such index. -/
  | unknown : storage.indices.get? key = none →
    Undroppable storage key (.rejected (.unknownIndex key))
  /-- Cursors use the index. -/
  | used {member : Member α} : storage.indices.get? key = some member →
    member.index.cursors ≠ 0 → Undroppable storage key (.aborted (.openCursors key))

/-- A dropped index was there and not in use. -/
theorem dropIndex_spec (storage : Storage α) (key : Key) :
    Ensures (dropIndex key) storage
      (fun _ after => ∃ member, storage.indices.get? key = some member ∧
        member.index.cursors = 0 ∧
        after = { storage with indices := storage.indices.remove key,
                               registry := storage.registry.release member.mask,
                               journal := after.journal })
      fun failure after => after = storage.failing failure ∧
        storage.Undroppable key failure := by
  simp only [dropIndex, member, Action.ensures_bind, Action.ensures_get]
  cases found : storage.indices.get? key with
  | none =>
    simp only [reject, Action.ensures_bind, Action.ensures_modify, Action.ensures_throw]
    exact ⟨rfl, .unknown found⟩
  | some member =>
    simp only [Action.ensures_pure]
    by_cases idle : member.index.isIdle = true
    · have unused : member.index.cursors = 0 := by simpa [Index.isIdle] using idle
      simp only [idle, Bool.not_true, Bool.false_eq_true, if_false, report, Action.ensures_bind,
        Action.ensures_modify]
      exact ⟨member, rfl, unused, rfl⟩
    · have used : member.index.cursors ≠ 0 := by simpa [Index.isIdle] using idle
      simp only [idle, Bool.not_false, if_true, abort, Action.ensures_bind, Action.ensures_throw]
      exact ⟨rfl, .used found used⟩

variable [Arithmetic α] {storage : Storage α} {key : Key}

/-- A new index takes in every record. -/
theorem fill_spec {records : Pool Bytes} {index : Index α} {size : Nat}
    (keeps : index.Keeps size fun _ => none) (empty : index.queue = [])
    (sized : ∀ {key record}, records.get? key = some record → record.length = size)
    (journal : Journal) :
    Ensures (records.entries.forM fun (key, record) => Index.insert key record) (index, journal)
      (fun _ after => after.1.Keeps size records.get? ∧ index.SameSpace after.1)
      fun _ _ => False := by
  have nothing : Index.visible (records.entries.map Prod.fst) records.get? = fun _ => none := by
    funext key
    rw [Index.visible]
    cases found : records.get? key with
    | none => exact ite_self _
    | some record => exact if_pos ((Pool.mem_keys _ _).mpr ⟨record, found⟩)
  refine (Ensures.forM (fun rest state => (rest.map Prod.fst).Nodup ∧
    (∀ entry ∈ rest, records.get? entry.1 = some entry.2) ∧
    state.1.Keeps size (Index.visible (rest.map Prod.fst) records.get?) ∧
    index.SameSpace state.1) ?_ ?_).ends ?_
  · rintro ⟨key, record⟩ rest ⟨before, reported⟩ ⟨distinct, live, kept, same⟩
    rw [List.map_cons, List.nodup_cons] at distinct
    have found := live _ List.mem_cons_self
    have waits : key ∉ before.queue := by
      rw [same.queue, empty]
      exact List.not_mem_nil
    refine (kept.insert (by simp [Index.visible]) waits (sized found) reported).ends ?_
    rintro - after ⟨inserted, sameAfter⟩
    refine ⟨distinct.2, fun entry member => live entry (List.mem_cons_of_mem _ member), ?_,
      same.trans sameAfter⟩
    rw [Index.visible_cons records.get? distinct.1, found]
    exact inserted
  · exact ⟨records.keys_nodup, fun entry member => (Pool.mem_entries _ _ _).mp member,
      nothing.symm ▸ keeps, .refl _⟩
  · rintro - after ⟨-, -, kept, same⟩
    rw [List.map_nil, Index.visible_nil] at kept
    exact ⟨kept, same⟩

/-- Why no index is created. -/
inductive Uncreatable (storage : Storage α) (specs : List AxisSpec) : Failure → Prop
  /-- The description is rejected. -/
  | described {rejection : Rejection} :
    AxisSpec.resolveAll α storage.layout specs = .error rejection →
    Uncreatable storage specs (.rejected rejection)
  /-- There are too many observed fields. -/
  | crowded {numeric : Numeric} {axes : List Axis} {rejection : Rejection} :
    AxisSpec.resolveAll α storage.layout specs = .ok (numeric, axes) →
    storage.registry.register storage.layout.name (Axis.fields axes) = .error rejection →
    Uncreatable storage specs (.rejected rejection)
  /-- There is no index over the axes of the description. -/
  | unmade {numeric : Numeric} {axes : List Axis} {mask : FieldMask} {registry : Registry}
      {fault : Fault} :
    AxisSpec.resolveAll α storage.layout specs = .ok (numeric, axes) →
    storage.registry.register storage.layout.name (Axis.fields axes) = .ok (mask, registry) →
    (Index.create numeric axes storage.config : Except Fault (Index α)) = .error fault →
    Uncreatable storage specs (.aborted fault)

/-- What is created for a description: the index of it, with the mask under which the registry
knows its fields. -/
inductive Creates (storage : Storage α) (specs : List AxisSpec) (member : Member α)
    (registry : Registry) : Prop
  /-- The description is resolved, its fields are registered, and the index is made over its axes. -/
  | made {numeric : Numeric} {axes : List Axis} {empty : Index α} :
    AxisSpec.resolveAll α storage.layout specs = .ok (numeric, axes) →
    storage.registry.register storage.layout.name (Axis.fields axes) = .ok (member.mask, registry) →
    Index.create numeric axes storage.config = .ok empty → empty.SameSpace member.index →
    Creates storage specs member registry

/-- The fields of a resolved description have places in the layout. -/
theorem has_of_resolved (sound : storage.layout.Sound) {specs : List AxisSpec} {numeric : Numeric}
    {axes : List Axis}
    (resolved : AxisSpec.resolveAll α storage.layout specs = .ok (numeric, axes)) :
    ∀ field ∈ Axis.fields axes, storage.layout.Has field := by
  intro field member
  obtain ⟨axis, inside, named⟩ := List.mem_flatMap.mp member
  have has := (AxisSpec.resolveAll_spec sound resolved axis inside).has
  simp only [List.mem_cons, List.not_mem_nil, or_false] at named
  rcases named with rfl | rfl
  · exact has.1
  · exact has.2

variable {views : Key → Key → Option Bytes}

/-- A registry that serves the indices can be exchanged under them. -/
theorem Keeps.withRegistry (keeps : storage.Keeps views) {registry : Registry}
    (served : Registry.Serves storage.layout registry storage.members) :
    Keeps views { storage with registry } :=
  ⟨keeps.sound, keeps.records, keeps.sized, keeps.indices, served, keeps.shown⟩

/-- A registry that serves one more index lets it in. -/
theorem Keeps.addIndex (keeps : storage.Keeps views) {member : Member α} {registry : Registry}
    {view : Key → Option Bytes} (shown : member.index.Keeps storage.layout.size view)
    (served : Registry.Serves storage.layout registry
      ((member.mask, member.index.fields) :: storage.members)) :
    Keeps (Function.update views (storage.indices.insert member).1 view)
      { storage with registry, indices := (storage.indices.insert member).2 } := by
  refine ⟨keeps.sound, keeps.records, keeps.sized, keeps.indices.insert _,
    served.perm (Pool.values_map_insert _ keeps.indices _), fun {key other} found => ?_⟩
  have there : (storage.indices.insert member).2.get? key = some other := found
  rw [Pool.get?_insert_eq_update keeps.indices] at there
  by_cases new : key = (storage.indices.insert member).1
  · rw [new, Function.update_self, Option.some.injEq] at there
    rw [new, Function.update_self, ← there]
    exact shown
  · rw [Function.update_of_ne new] at there ⊢
    exact keeps.shown there

/-- A new index shows all records, and the other indices show what they did; at most the registry
changes when no index is created, and nothing but the journal when the description is rejected. -/
theorem Keeps.createIndex (keeps : storage.Keeps views) (specs : List AxisSpec) :
    Ensures (Storage.createIndex specs) storage
      (fun key after => ∃ member registry,
        key = (storage.indices.insert member).1 ∧ member.index.queue = [] ∧
        member.index.cursors = 0 ∧
        after = { storage with registry, indices := (storage.indices.insert member).2,
                               journal := after.journal } ∧
        after.Keeps (Function.update views key storage.records.get?) ∧
        storage.Creates specs member registry)
      fun failure after => storage.Uncreatable specs failure ∧
        (∃ registry, after = { storage with registry, journal := after.journal }) ∧
        after.Keeps views ∧
        ∀ rejection, failure = .rejected rejection → after = storage.failing failure := by
  have sound : storage.layout.Sound := keeps.sound
  unfold Storage.createIndex
  rw [Action.ensures_bind, Action.ensures_get, Action.ensures_bind]
  refine ensures_orReject _ ?_ fun rejection failed =>
    ⟨.described failed, ⟨_, rfl⟩, keeps.congr rfl rfl rfl rfl, fun _ _ => rfl⟩
  rintro ⟨numeric, axes⟩ resolved
  rw [Action.ensures_bind]
  refine ensures_orReject _ ?_ fun rejection failed =>
    ⟨.crowded resolved failed, ⟨_, rfl⟩, keeps.congr rfl rfl rfl rfl, fun _ _ => rfl⟩
  rintro ⟨mask, registry⟩ registered
  have served := (Registry.register_serves sound keeps.served (has_of_resolved sound resolved)
    registered).1
  have spare : Keeps views { storage with registry } := keeps.withRegistry served.drop
  simp only [Action.ensures_bind, Action.ensures_set]
  refine ensures_orAbort _ ?_ fun fault failed =>
    ⟨.unmade resolved registered failed, ⟨registry, rfl⟩, spare, fun _ absurd => by cases absurd⟩
  intro start created
  obtain ⟨empty, along, calm, unused⟩ := Index.create_keeps created fun axis member =>
    (AxisSpec.resolveAll_spec sound resolved axis member).accepted
  have full := fill_spec empty calm keeps.sized
    (storage.journal.report .info "volumetric::VolumetricIndex" start.announcement)
  obtain ⟨_, ⟨index, journal⟩, filled, shown, same⟩ := full.exists_eq
  have fields : index.fields = Axis.fields axes := by
    rw [same.toOver.fields, Index.fields, along]
    rfl
  rw [← fields] at served
  have kept : Keeps (Function.update views (storage.indices.insert ⟨index, mask⟩).1
      storage.records.get?)
      { storage with registry, indices := (storage.indices.insert ⟨index, mask⟩).2 } :=
    keeps.addIndex shown served
  simp only [filled, Action.ensures_bind, Action.ensures_modify, Action.ensures_pure]
  exact ⟨⟨index, mask⟩, registry, rfl, same.queue.trans calm, same.cursors.trans unused, rfl,
    kept.congr rfl rfl rfl rfl, .made resolved registered created same⟩

/-- Dropping an index leaves the others alone. -/
theorem Keeps.dropIndex (keeps : storage.Keeps views) (key : Key) :
    Ensures (Storage.dropIndex key) storage (fun _ after => after.Keeps views)
      fun _ after => after.Keeps views := by
  refine (dropIndex_spec storage key).imp ?_ ?_
  · rintro - after ⟨dropped, found, -, rest⟩
    have served : Registry.Serves storage.layout storage.registry
        ((dropped.mask, dropped.index.fields) ::
          (storage.indices.remove key).values.map
            fun member => (member.mask, member.index.fields)) :=
      keeps.served.perm (Pool.values_map_remove
        (fun member : Member α => (member.mask, member.index.fields)) found)
    rw [rest]
    refine ⟨keeps.sound, keeps.records, keeps.sized, keeps.indices.remove key,
      Registry.release_serves served, fun {other member} held => keeps.shown ?_⟩
    have there : (storage.indices.remove key).get? other = some member := held
    rw [Pool.get?_remove] at there
    split at there
    · cases there
    · exact there
  · rintro _ after ⟨rest, -⟩
    rw [rest]
    exact keeps.congr rfl rfl rfl rfl

/-- Creating an index keeps the storage in step, whether it succeeds or not. -/
theorem InStep.createIndex (inStep : storage.InStep) (specs : List AxisSpec) :
    Ensures (Storage.createIndex specs) storage (fun _ after => Stays storage after)
      fun _ after => Stays storage after := by
  refine (inStep.keeps.createIndex specs).imp ?_ ?_
  · rintro key after ⟨member, registry, new, calm, -, rest, keeps, -⟩
    have records : after.records = storage.records := by rw [rest]
    refine ⟨⟨?_, fun {other held} found => ?_⟩, by rw [rest], records⟩
    · have views : Function.update (fun _ => storage.records.get?) key storage.records.get? =
          fun _ => after.records.get? := by
        rw [records]
        exact Function.update_eq_self key _
      exact views ▸ keeps
    · have there : (storage.indices.insert member).2.get? other = some held := by
        rw [rest] at found
        exact found
      rw [Pool.get?_insert_eq_update inStep.keeps.indices] at there
      by_cases same : other = (storage.indices.insert member).1
      · rw [same, Function.update_self, Option.some.injEq] at there
        exact there ▸ calm
      · rw [Function.update_of_ne same] at there
        exact inStep.calm there
  · rintro - after ⟨-, ⟨registry, rest⟩, keeps, -⟩
    have records : after.records = storage.records := by rw [rest]
    refine ⟨⟨records ▸ keeps, fun {other held} found => ?_⟩, by rw [rest], records⟩
    rw [rest] at found
    exact inStep.calm found

/-- Dropping an index keeps the storage in step. -/
theorem InStep.dropIndex (inStep : storage.InStep) (key : Key) :
    Ensures (Storage.dropIndex key) storage (fun _ after => Stays storage after)
      fun _ after => Stays storage after := by
  have both := (inStep.keeps.dropIndex key).and (dropIndex_spec storage key)
  refine both.imp ?_ ?_
  · rintro - after ⟨keeps, dropped, found, -, rest⟩
    have records : after.records = storage.records := by rw [rest]
    refine ⟨⟨records ▸ keeps, fun {other held} there => ?_⟩, by rw [rest], records⟩
    have present : (storage.indices.remove key).get? other = some held := by
      rw [rest] at there
      exact there
    rw [Pool.get?_remove] at present
    split at present
    · cases present
    · exact inStep.calm present
  · rintro _ after ⟨keeps, rest, -⟩
    have records : after.records = storage.records := by rw [rest]
    refine ⟨⟨records ▸ keeps, fun {other held} found => ?_⟩, by rw [rest], records⟩
    rw [rest] at found
    exact inStep.calm found

end Storage

end SpatialIndex
