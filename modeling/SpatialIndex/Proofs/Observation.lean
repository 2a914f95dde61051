import SpatialIndex.Proofs.Safety
import SpatialIndex.Proofs.Storage.Frame

/-!
# What indices observe

A storage keeps account of the fields that its indices observe: every slot has as many users as
indices name it, a field has one slot, and an index names the slots of its own fields. So an index
is refused exactly when the observed fields would be too many, and the end of an edition tells
exactly the indices that observe a field whose bytes differ.
-/
open SpatialIndex.Action (Ensures Steady)

namespace SpatialIndex

open Record (Bytes Field Layout)
open World (Axis)

variable {α : Type}

namespace Storage

open Registry (isUsed)

/-! ## Marks -/

/-- The registry with the masks of the indices. -/
def marks (storage : Storage α) : Registry × (Key → Option FieldMask) :=
  (storage.registry, fun key => (storage.indices.get? key).map Member.mask)

/-- The marks see nothing of an index but that it is there. -/
theorem marks_uncounting : Uncounting (marks : Storage α → _) fun _ => () := by
  refine ⟨⟨fun _ _ => rfl, fun _ _ => rfl, fun _ _ => rfl, ⟨fun _ _ _ => rfl, fun _ _ => rfl⟩, ?_⟩,
    fun _ _ => rfl, fun _ _ => rfl, fun _ _ => rfl⟩
  intro storage key member index found _
  refine Prod.ext rfl (funext fun other => ?_)
  show ((storage.indices.set key { member with index }).get? other).map Member.mask =
    (storage.indices.get? other).map Member.mask
  by_cases same : other = key
  · rw [same, Pool.get?_set_self _ found, found]
    rfl
  · rw [Pool.get?_set_ne _ _ same]

/-- Every slot has as many users as indices name it. -/
def Balanced (storage : Storage α) : Prop :=
  ∀ i, storage.registry.users i = storage.indices.values.countP fun member => member.mask.getLsbD i

/-- The indices that name a slot, counted by their masks. -/
theorem countP_values (pool : Pool (Member α)) (i : Nat) :
    (pool.values.countP fun member => member.mask.getLsbD i) =
      (pool.values.map Member.mask).countP fun mask => mask.getLsbD i := by
  rw [List.countP_map]
  rfl

variable {storage after : Storage α}

/-- Only the marks matter. -/
theorem Balanced.congr (balanced : storage.Balanced) (same : after.marks = storage.marks) :
    after.Balanced := by
  obtain ⟨registry, masks⟩ := Prod.mk.inj same
  have perm : (after.indices.values.map Member.mask).Perm
      (storage.indices.values.map Member.mask) :=
    Pool.values_map_perm Member.mask fun key => congrFun masks key
  intro i
  rw [registry, balanced i, countP_values, countP_values, perm.countP_eq]

/-- A dropped index is no longer counted in the slots that it names. -/
theorem Balanced.dropIndex (balanced : storage.Balanced) (key : Key) :
    Ensures (Storage.dropIndex key) storage (fun _ after => after.Balanced)
      fun _ after => after.Balanced := by
  refine (dropIndex_spec storage key).imp ?_ ?_
  · rintro - after ⟨member, found, -, rest⟩ i
    have perm := (Pool.values_map_remove Member.mask found).countP_eq fun mask => mask.getLsbD i
    have before := balanced i
    have indices : after.indices = storage.indices.remove key := by rw [rest]
    have registry : after.registry = storage.registry.release member.mask := by rw [rest]
    rw [countP_values, ← perm, List.countP_cons] at before
    rw [registry, indices, Registry.users_release, countP_values, before]
    cases member.mask.getLsbD i <;> simp
  · rintro _ after ⟨rest, -⟩
    rw [rest]
    exact balanced.congr rfl

/-- The fields that some index observes, by number. -/
def observedFields (storage : Storage α) : Finset Nat :=
  (storage.indices.values.flatMap fun member => member.index.fields.map Field.id).toFinset

/-- An observed field is one that some index observes. -/
theorem mem_observedFields {id : Nat} :
    id ∈ storage.observedFields ↔
      ∃ key member, storage.indices.get? key = some member ∧ member.index.observes id = true := by
  simp only [observedFields, List.mem_toFinset, List.mem_flatMap, List.mem_map, Index.observes,
    List.any_eq_true, beq_iff_eq]
  constructor
  · rintro ⟨member, listed, field, inside, same⟩
    obtain ⟨⟨key, held⟩, entry, rfl⟩ := List.mem_map.mp listed
    exact ⟨key, held, (Pool.mem_entries _ _ _).mp entry, field, inside, same⟩
  · rintro ⟨key, member, found, field, inside, same⟩
    have entry : (key, member) ∈ storage.indices.entries := (Pool.mem_entries _ _ _).mpr found
    exact ⟨member, List.mem_map.mpr ⟨_, entry, rfl⟩, field, inside, same⟩

/-- The indices that observe a field whose bytes differ in two versions of a record. -/
def affected (storage : Storage α) (record backup : Bytes) : List Key :=
  (storage.indices.entries.filter fun (_, member) =>
    member.index.fields.any fun field => field.bytes? record != field.bytes? backup).map Prod.fst

variable [Arithmetic α]

/-- Tell some indices of an edited record, but the requester of the edition. The result tells
whether the requester is one of them. -/
def notify (key : Key) (record backup : Bytes) (requester : Option Key) (concerned : List Key) :
    StorageOp α Bool := do
  (concerned.filter fun index => some index != requester).forM fun index =>
    onIndex index (Index.update key record backup)
  return concerned.any fun index => some index == requester

/-- The end of an edition tells the indices whose masks have a changed field. -/
theorem endEdition_eq {key : Key} {record : Bytes} {changed : FieldMask}
    (found : storage.records.get? key = some record)
    (compared : storage.registry.changed record storage.backup = .ok changed)
    (requester : Option Key) :
    Storage.endEdition key requester storage =
      notify key record storage.backup requester ((storage.indices.entries.filter fun entry =>
        entry.2.mask &&& changed != 0).map Prod.fst) storage := by
  have told (entries : List (Key × Member α)) :
      (((entries.map Prod.fst).filter fun index => some index != requester).forM fun index =>
        onIndex index (Index.update key record storage.backup) : StorageOp α Unit) =
      (entries.filter fun entry => some entry.1 != requester).forM fun entry =>
        onIndex entry.1 (Index.update key record storage.backup) := by
    rw [List.filter_map]
    exact List.forM_map (m := StorageOp α)
  have reads : (get : StorageOp α (Storage α)) storage = .ok storage storage := rfl
  have bytes : Storage.record key storage = .ok record storage := by
    simp only [Storage.record, bind, EStateM.bind, reads, found]
    rfl
  have compares : (orAbort (storage.registry.changed record storage.backup) :
      StorageOp α FieldMask) storage = .ok changed storage := by
    rw [compared]
    rfl
  rw [notify, told, List.any_map]
  simp only [Storage.endEdition, bind, EStateM.bind, bytes, reads, compares]
  rfl

/-- A new index is counted in the slots that it names, in an arithmetic to which coordinates are
rounded. -/
theorem Balanced.createIndex (balanced : storage.Balanced) (rounding : Rounding α)
    (converts : rounding.Converts) (usable : storage.config.Usable α)
    {views : Key → Key → Option Bytes} (keeps : storage.Keeps views) (specs : List AxisSpec) :
    Ensures (Storage.createIndex specs) storage (fun _ after => after.Balanced)
      fun _ after => after.Balanced := by
  refine (keeps.createIndex specs).imp ?_ ?_
  · rintro key after ⟨member, registry, -, -, -, rest, -, creates⟩ i
    cases creates with
    | @made numeric axes empty resolved registered created same =>
      have gains := (Registry.register_serves keeps.sound keeps.served
        (has_of_resolved keeps.sound resolved) registered).2 i
      have perm := (Pool.values_map_insert Member.mask keeps.indices member).countP_eq
        fun mask => mask.getLsbD i
      have before := balanced i
      have indices : after.indices = (storage.indices.insert member).2 := by rw [rest]
      have changed : after.registry = registry := by rw [rest]
      rw [countP_values] at before
      rw [changed, indices, countP_values, perm, List.countP_cons, ← before]
      cases named : member.mask.getLsbD i <;> simp [named] at gains ⊢ <;> omega
  · rintro failure after ⟨uncreatable, -, -, journal⟩
    obtain ⟨rejection, rfl⟩ :=
      uncreatable.exists_rejection rounding converts usable keeps.sound
    rw [journal rejection rfl]
    exact balanced.congr rfl

/-! ## Storages that know what is observed -/

/-- A storage that knows what its indices observe. -/
structure Observing (storage : Storage α) : Prop where
  /-- Every slot has a place in a mask. -/
  short : storage.registry.length ≤ Limits.observedFields
  /-- A slot has as many users as indices name it. -/
  users : ∀ i, storage.registry.users i =
    storage.indices.values.countP fun member => member.mask.getLsbD i
  /-- Slots in use hold distinct fields. -/
  distinct : ∀ (i j : Nat) slot other, storage.registry[i]? = some slot →
    storage.registry[j]? = some other → isUsed slot = true → isUsed other = true →
    slot.field.id = other.field.id → i = j
  /-- An index names a slot in use exactly when it observes the field of the slot. -/
  names : ∀ key member, storage.indices.get? key = some member → ∀ i slot,
    storage.registry[i]? = some slot → isUsed slot = true →
      (member.mask.getLsbD i = true ↔ member.index.observes slot.field.id = true)
  /-- The slots in use are as many as the observed fields. -/
  count : storage.registry.usedCount = storage.observedFields.card
  /-- A described index is refused for its capacity exactly when the fields would be too many. -/
  capacity : ∀ specs numeric axes,
    AxisSpec.resolveAll α storage.layout specs = .ok (numeric, axes) →
      ((∃ rejection after, Storage.createIndex specs storage = .error (.rejected rejection) after ∧
          rejection.kind = .capacityExceeded) ↔
        Limits.observedFields <
          (storage.observedFields ∪ (AxisSpec.fieldIds specs).toFinset).card)
  /-- The end of an edition tells the indices, but the requester, that observe a field whose bytes
  differ, and tells whether the requester observes one. -/
  tells : ∀ records backup key record requester, records.get? key = some record →
    record.length = storage.layout.size → backup.length = storage.layout.size →
    Storage.endEdition key requester { storage with records, backup } =
      notify key record backup requester (storage.affected record backup)
        { storage with records, backup }

section Keeps

variable {views : Key → Key → Option Bytes}

omit [Arithmetic α] in
/-- An index of a storage is one of the members that the registry serves. -/
theorem mem_members {key : Key} {member : Member α}
    (found : storage.indices.get? key = some member) :
    (member.mask, member.index.fields) ∈ storage.members := by
  have entry : (key, member) ∈ storage.indices.entries := (Pool.mem_entries _ _ _).mpr found
  exact List.mem_map.mpr ⟨member, List.mem_map.mpr ⟨_, entry, rfl⟩, rfl⟩

/-- An index names a slot in use exactly when it observes the field of the slot. -/
theorem Keeps.names_iff (keeps : storage.Keeps views) {key : Key} {member : Member α}
    (found : storage.indices.get? key = some member) {i : Nat} {slot : Observed}
    (there : storage.registry[i]? = some slot) (used : isUsed slot = true) :
    member.mask.getLsbD i = true ↔ member.index.observes slot.field.id = true := by
  have inside := mem_members found
  rw [Index.observes, List.any_eq_true]
  constructor
  · intro named
    exact ⟨slot.field, keeps.served.names _ inside i slot named there, by simp⟩
  · rintro ⟨field, asked, same⟩
    obtain ⟨j, other, -, named, held, rfl⟩ := keeps.served.covers _ inside field asked
    have usedToo : isUsed other = true := by
      rw [Registry.isUsed_iff, ← Registry.users_of_getElem? held]
      exact keeps.served.used inside named
    rw [keeps.served.distinct there held used usedToo (beq_iff_eq.mp same).symm]
    exact named

/-- The fields that have slots are those that some index observes. -/
theorem Keeps.toFinset_usedIds (keeps : storage.Keeps views) (balanced : storage.Balanced) :
    storage.registry.usedIds.toFinset = storage.observedFields := by
  ext id
  rw [List.mem_toFinset, Registry.mem_usedIds, mem_observedFields]
  constructor
  · rintro ⟨slot, inside, used, rfl⟩
    obtain ⟨i, there⟩ := List.getElem?_of_mem inside
    have users := balanced i
    rw [Registry.users_of_getElem? there] at users
    have some_user : 0 < storage.indices.values.countP fun member => member.mask.getLsbD i :=
      users ▸ (Registry.isUsed_iff slot).mp used
    obtain ⟨member, listed, named⟩ := List.countP_pos_iff.mp some_user
    obtain ⟨⟨key, held⟩, entry, rfl⟩ := List.mem_map.mp listed
    have found := (Pool.mem_entries _ _ _).mp entry
    exact ⟨key, held, found, (keeps.names_iff found there used).mp named⟩
  · rintro ⟨key, member, found, observes⟩
    rw [Index.observes, List.any_eq_true] at observes
    obtain ⟨field, asked, same⟩ := observes
    have inside := mem_members found
    obtain ⟨i, slot, -, named, there, rfl⟩ := keeps.served.covers _ inside field asked
    refine ⟨slot, List.mem_of_getElem? there, ?_, beq_iff_eq.mp same⟩
    rw [Registry.isUsed_iff, ← Registry.users_of_getElem? there]
    exact keeps.served.used inside named

/-- The fields of a resolved description are registered unless they would be too many. -/
theorem Keeps.register_eq (keeps : storage.Keeps views) (balanced : storage.Balanced)
    {specs : List AxisSpec} {numeric : Numeric} {axes : List Axis}
    (resolved : AxisSpec.resolveAll α storage.layout specs = .ok (numeric, axes)) :
    storage.registry.register storage.layout.name (Axis.fields axes) =
      if Limits.observedFields <
          (storage.observedFields ∪ (AxisSpec.fieldIds specs).toFinset).card then
        .error (.observedFields storage.layout.name Limits.observedFields)
      else .ok (storage.registry.observeAll (Axis.fields axes).eraseDups) := by
  have ids : (Axis.fields axes).map Field.id = AxisSpec.fieldIds specs := by
    rw [← AxisSpec.fieldIds_describe, AxisSpec.describe_of_resolveAll keeps.sound resolved]
  rw [keeps.served.register_eq keeps.sound (has_of_resolved keeps.sound resolved), ids,
    keeps.toFinset_usedIds balanced]

/-- An index is refused for its capacity exactly when the fields would be too many. -/
theorem Keeps.capacity (keeps : storage.Keeps views) (balanced : storage.Balanced)
    {specs : List AxisSpec} {numeric : Numeric} {axes : List Axis}
    (resolved : AxisSpec.resolveAll α storage.layout specs = .ok (numeric, axes)) :
    (∃ rejection after, Storage.createIndex specs storage = .error (.rejected rejection) after ∧
        rejection.kind = .capacityExceeded) ↔
      Limits.observedFields <
        (storage.observedFields ∪ (AxisSpec.fieldIds specs).toFinset).card := by
  have registers := keeps.register_eq balanced resolved
  have outcome := keeps.createIndex specs
  unfold Ensures at outcome
  constructor
  · rintro ⟨rejection, after, ran, -⟩
    rw [ran] at outcome
    by_contra few
    rw [if_neg few] at registers
    cases outcome.1 with
    | described failed => cases resolved.symm.trans failed
    | crowded again failed =>
      cases resolved.symm.trans again
      cases registers.symm.trans failed
  · intro many
    rw [if_pos many] at registers
    cases ran : Storage.createIndex specs storage with
    | ok key after =>
      rw [ran] at outcome
      obtain ⟨member, registry, -, -, -, -, -, creates⟩ := outcome
      cases creates with
      | made again registered created same =>
        cases resolved.symm.trans again
        cases registers.symm.trans registered
    | error failure after =>
      rw [ran] at outcome
      cases outcome.1 with
      | described failed => cases resolved.symm.trans failed
      | crowded again failed =>
        cases resolved.symm.trans again
        cases registers.symm.trans failed
        exact ⟨_, after, rfl, rfl⟩
      | unmade again registered failed =>
        cases resolved.symm.trans again
        cases registers.symm.trans registered

/-- The end of an edition tells exactly the indices that observe a changed field. -/
theorem Keeps.tells (keeps : storage.Keeps views) {records : Pool Bytes} {key : Key}
    {record backup : Bytes} (found : records.get? key = some record)
    (sized : record.length = storage.layout.size)
    (backupSized : backup.length = storage.layout.size) (requester : Option Key) :
    Storage.endEdition key requester { storage with records, backup } =
      notify key record backup requester (storage.affected record backup)
        { storage with records, backup } := by
  obtain ⟨changed, compared, meets⟩ := keeps.served.changed keeps.sound sized backupSized
  have concerned : (storage.indices.entries.filter fun entry => entry.2.mask &&& changed != 0) =
      storage.indices.entries.filter fun entry =>
        entry.2.index.fields.any fun field => field.bytes? record != field.bytes? backup := by
    refine List.filter_congr fun entry listed => ?_
    have met := meets _ (mem_members ((Pool.mem_entries _ _ _).mp listed))
    rw [Bool.eq_iff_iff]
    simpa using met
  let edited : Storage α := { storage with records, backup }
  have there : edited.records.get? key = some record := found
  have ends := endEdition_eq there compared requester
  show Storage.endEdition key requester edited = _
  rw [ends]
  show notify key record backup requester ((storage.indices.entries.filter fun entry =>
    entry.2.mask &&& changed != 0).map Prod.fst) edited = _
  rw [concerned]
  rfl

/-- A storage that keeps its indices and balances their slots knows what they observe. -/
theorem Keeps.observing (keeps : storage.Keeps views) (balanced : storage.Balanced) :
    storage.Observing where
  short := keeps.served.short
  users := balanced
  distinct _ _ _ _ := @keeps.served.distinct _ _ _ _
  names _ _ found _ _ := keeps.names_iff found
  count := by
    rw [← keeps.toFinset_usedIds balanced,
      List.toFinset_card_of_nodup keeps.served.distinct.nodup_usedIds, Registry.length_usedIds]
  capacity _ _ _ := keeps.capacity balanced
  tells _ _ _ _ requester found sized backupSized := keeps.tells found sized backupSized requester

end Keeps

end Storage

/-- Whether a request creates or drops an index. -/
def Request.reindexes : Request → Bool
  | call (.createIndex _) | call (.dropIndex _) => true
  | _ => false

namespace Session

open Storage (Use)

/-- What an operation ensures of the storage, whatever becomes of it, holds after it. -/
theorem perform_storage {β : Type} {storage : Storage α} {operation : StorageOp α β}
    {hold : β → Holding α} {rest : Holding α} {property : Storage α → Prop}
    (ensured : Ensures operation storage (fun _ after => property after)
      fun _ after => property after) :
    property (perform storage operation hold rest).storage := by
  let holds (session : Session α) : Prop := property session.storage
  have kept : holds (perform storage operation hold rest) :=
    perform_of_ensures ensured (fun _ _ => id) fun _ _ => id
  exact kept

variable [Arithmetic α]

/-- A call that neither creates nor drops an index leaves alone what sees no counts. -/
theorem steady_call {ι κ : Type} {measure : Storage α → κ} {seen : Index α → ι}
    (blind : Storage.Uncounting measure seen) {call : Call}
    (other : (Request.call call).reindexes = false) : Steady measure (call.run : StorageOp α Unit) := by
  cases call with
  | createIndex specs => cases other
  | dropIndex key => cases other
  | insert bytes => exact (blind.insertRecord bytes).discard
  | modify key edit => exact (blind.modifyRecord key edit).discard
  | delete key => exact (blind.deleteRecord key).discard
  | clear => exact blind.clear

/-- A request that neither creates nor drops an index leaves alone what sees no counts. -/
theorem steady_operation {ι κ : Type} {measure : Storage α → κ} {seen : Index α → ι}
    (blind : Storage.Uncounting measure seen) (session : Session α) {request : Request}
    (other : request.reindexes = false) : Steady measure (session.operation request) := by
  obtain ⟨storage, held⟩ := session
  cases held with
  | readers cursors =>
    cases request with
    | call call =>
      cases cursors with
      | nil => exact (steady_call blind other).map _
      | cons cursor rest => exact .pure _
    | openInserter =>
      cases cursors with
      | nil => exact blind.openInserter.map _
      | cons cursor rest => exact .pure _
    | edit index query =>
      cases cursors with
      | nil => exact (blind.edit index query).map _
      | cons cursor rest => exact .pure _
    | read index query => cases cursors <;> exact (blind.read index query).map _
    | copy position =>
      unfold operation
      cases found : cursors[position]? with
      | none => cases cursors <;> simp only [found] <;> exact .pure _
      | some cursor => cases cursors <;> simp only [found] <;> exact (blind.openRead cursor).map _
    | advance position =>
      unfold operation
      cases found : cursors[position]? with
      | none => cases cursors <;> simp only [found] <;> exact .pure _
      | some cursor =>
        cases cursors <;> simp only [found] <;> exact (Storage.steady_orAbort _).map _
    | close position =>
      unfold operation
      cases found : cursors[position]? with
      | none => cases cursors <;> simp only [found] <;> exact .pure _
      | some cursor => cases cursors <;> simp only [found] <;> exact (blind.closeRead cursor).map _
    | _ => cases cursors <;> exact .pure _
  | inserter inserter =>
    obtain ⟨pending⟩ := inserter
    cases request with
    | allocate => exact (blind.allocate _).map _
    | fill edit =>
      cases pending with
      | none => exact .pure _
      | some key => exact (blind.editRecord key edit).map _
    | drop => exact (blind.close _).map _
    | _ => exact .pure _
  | editor cursor =>
    cases request with
    | change edit => exact (blind.changeCurrent cursor edit).map _
    | leave => exact (blind.advanceEdit cursor).map _
    | erase => exact (blind.eraseEdit cursor).map _
    | drop => exact (blind.closeEdit cursor).map _
    | _ => exact .pure _

section Balance

variable {session : Session α} {config : Config} {lost : List Use}

/-- Every request keeps the slots balanced, in an arithmetic to which coordinates are rounded. -/
theorem Kept.balanced_step (kept : session.Kept config lost) (rounding : Rounding α)
    (converts : rounding.Converts) (usable : config.Usable α)
    (balanced : session.storage.Balanced) (request : Request) :
    (session.step request).storage.Balanced := by
  have settings : session.storage.config = config :=
    congrArg Storage.Account.config kept.counted.account
  have operates : Ensures (session.operation request) session.storage
      (fun _ after => after.Balanced) fun _ after => after.Balanced := by
    by_cases other : request.reindexes = false
    · refine (steady_operation Storage.marks_uncounting session other session.storage).imp ?_ ?_
      · exact fun _ _ same => balanced.congr same
      · exact fun _ _ same => balanced.congr same
    · obtain ⟨views, keeps, -⟩ := kept.sound.upkept
      obtain ⟨storage, held⟩ := session
      cases request with
      | call call =>
        cases held with
        | readers cursors =>
          cases cursors with
          | nil =>
            show Ensures ((fun _ => Holding.readers []) <$> call.run) storage _ _
            rw [Action.ensures_map]
            cases call with
            | createIndex specs =>
              rw [Call.run, Action.ensures_discard]
              exact balanced.createIndex rounding converts (settings ▸ usable) keeps specs
            | dropIndex key => exact balanced.dropIndex key
            | _ => exact absurd rfl other
          | cons cursor rest => exact balanced
        | inserter inserter => exact balanced
        | editor cursor => exact balanced
      | _ => exact absurd rfl other
  rw [session.step_eq_perform]
  exact perform_storage operates

end Balance

end Session

end SpatialIndex
