import SpatialIndex.Proofs.Index
import SpatialIndex.Proofs.Storage.Registry
import SpatialIndex.Storage.Basic

/-!
# Storages that keep their indices

A storage keeps a view when every index shows it, the registry serves every index, and every
record has the size of the layout. It is in step when the view is the records themselves and no
record waits. An action on some of the indices leaves everything else alone.
-/
open SpatialIndex.Action (Ensures)

namespace SpatialIndex

open Record (Bytes Field)

/-- The journal after an operation failed: a rejection is reported. -/
def Journal.failing (journal : Journal) : Failure → Journal
  | .rejected rejection => journal.reject rejection
  | .aborted _ => journal

namespace Storage

variable {α : Type}

/-- The indices by their masks and fields. -/
def members (storage : Storage α) : List (FieldMask × List Field) :=
  storage.indices.values.map fun member => (member.mask, member.index.fields)

/-! ## Actions on indices -/

/-- An action on an index that is there runs on the index and the journal. -/
theorem ensures_onIndex {storage : Storage α} {key : Key} {member : Member α} {β : Type}
    (found : storage.indices.get? key = some member) (action : Action (Index α × Journal) β)
    {done : β → Storage α → Prop} {failed : Failure → Storage α → Prop} :
    Ensures (onIndex key action) storage done failed ↔
      Ensures action (member.index, storage.journal)
        (fun value result => done value { storage with
          indices := storage.indices.set key { member with index := result.1 }
          journal := result.2 })
        (fun fault result => failed (.aborted fault) { storage with
          indices := storage.indices.set key { member with index := result.1 }
          journal := result.2 }) := by
  unfold Ensures onIndex
  rw [found]
  simp only
  cases action (member.index, storage.journal) <;> rfl

/-- The storage after some indices turned into others. -/
structure Turns (chosen : Key → Prop) (turned : Key → Index α → Index α → Prop)
    (storage after : Storage α) : Prop where
  /-- Nothing but the indices and the journal changed. -/
  rest : after = { storage with indices := after.indices, journal := after.journal }
  /-- The pool of indices stays well formed. -/
  formed : storage.indices.WellFormed → after.indices.WellFormed
  /-- There is no new index. -/
  absent : ∀ {key}, storage.indices.get? key = none → after.indices.get? key = none
  /-- Every index is there, turned when it was chosen. -/
  present : ∀ {key member}, storage.indices.get? key = some member →
    ∃ index, after.indices.get? key = some { member with index } ∧
      (chosen key → turned key member.index index) ∧ (¬chosen key → index = member.index)

variable {storage after : Storage α}

/-- An index of the storage before is behind every index of the storage after. -/
theorem Turns.former {chosen : Key → Prop} {turned : Key → Index α → Index α → Prop}
    (turns : Turns chosen turned storage after) {key : Key} {changed : Member α}
    (found : after.indices.get? key = some changed) :
    ∃ member, storage.indices.get? key = some member ∧ changed.mask = member.mask ∧
      (chosen key → turned key member.index changed.index) ∧
      (¬chosen key → changed.index = member.index) := by
  cases before : storage.indices.get? key with
  | none =>
    rw [turns.absent before] at found
    cases found
  | some member =>
    obtain ⟨index, held, yes, no⟩ := turns.present before
    rw [held, Option.some.injEq] at found
    subst found
    exact ⟨member, rfl, rfl, yes, no⟩

/-- Where no index is chosen, no index turns. -/
theorem Turns.refl (turned : Key → Index α → Index α → Prop) (storage : Storage α) :
    Turns (fun _ => False) turned storage storage :=
  ⟨rfl, id, id, fun {_ member} found => ⟨member.index, found, False.elim, fun _ => rfl⟩⟩

/-- Running an action on one more index. -/
theorem Turns.onIndex {chosen : Key → Prop} {turned : Key → Index α → Index α → Prop} {β : Type}
    (turns : Turns chosen turned storage after) {key : Key} {member : Member α}
    (found : storage.indices.get? key = some member) (other : ¬chosen key)
    {action : Action (Index α × Journal) β}
    (ensures : ∀ journal, Ensures action (member.index, journal)
      (fun _ result => turned key member.index result.1) fun _ _ => False) :
    Ensures (Storage.onIndex key action) after
      (fun _ last => Turns (fun k => chosen k ∨ k = key) turned storage last)
      fun _ _ => False := by
  obtain ⟨index, held, -, same⟩ := turns.present found
  obtain rfl := same other
  rw [ensures_onIndex held]
  refine (ensures after.journal).ends ?_
  rintro - ⟨changed, journal⟩ result
  refine ⟨?_, ?_, ?_, ?_⟩
  · show ({ after with indices := _, journal := _ } : Storage α) = _
    rw [turns.rest]
  · exact fun formed => (turns.formed formed).set _ _
  · intro k missing
    show (after.indices.set key _).get? k = none
    rw [Pool.get?_set, held]
    by_cases same : k = key
    · rw [same, found] at missing
      cases missing
    · rw [if_neg same, turns.absent missing]
  · intro k before there
    show ∃ index, (after.indices.set key _).get? k = _ ∧ _
    rw [Pool.get?_set, held]
    by_cases same : k = key
    · subst same
      rw [found, Option.some.injEq] at there
      subst there
      exact ⟨changed, by rw [if_pos rfl]; rfl, fun _ => result, fun no => (no (.inr rfl)).elim⟩
    · obtain ⟨further, kept, yes, no⟩ := turns.present there
      refine ⟨further, by rw [if_neg same, kept], ?_, ?_⟩
      · exact fun either => yes (either.resolve_right same)
      · exact fun neither => no fun was => neither (.inl was)

/-- Running an action on every item of a list that names each index at most once. -/
theorem Turns.forM (turned : Key → Index α → Index α → Prop) {β : Type} {items : List β}
    (name : β → Key) (distinct : (items.map name).Nodup)
    (live : ∀ item ∈ items, ∃ member, storage.indices.get? (name item) = some member)
    {action : β → Action (Index α × Journal) Unit}
    (ensures : ∀ item ∈ items, ∀ member journal, storage.indices.get? (name item) = some member →
      Ensures (action item) (member.index, journal)
        (fun _ result => turned (name item) member.index result.1) fun _ _ => False) :
    Ensures (items.forM fun item => Storage.onIndex (name item) (action item)) storage
      (fun _ last => Turns (fun key => key ∈ items.map name) turned storage last)
      fun _ _ => False := by
  refine (Ensures.forM (fun rest state => ∃ done, items = done ++ rest ∧
    Turns (fun key => key ∈ done.map name) turned storage state) ?_ ⟨[], rfl, ?_⟩).ends ?_
  · rintro item rest state ⟨done, split, turns⟩
    have inside : item ∈ items := by simp [split]
    obtain ⟨member, found⟩ := live item inside
    have fresh : name item ∉ done.map name := by
      rw [split, List.map_append, List.nodup_append] at distinct
      exact fun again => distinct.2.2 _ again _ (by simp) rfl
    refine (turns.onIndex found fresh fun journal =>
      ensures item inside member journal found).ends ?_
    intro _ last further
    refine ⟨done ++ [item], by simp [split], ?_⟩
    have chosen : (fun key => key ∈ (done ++ [item]).map name) =
        fun key => key ∈ done.map name ∨ key = name item := by
      funext key
      simp
    rw [chosen]
    exact further
  · have none_chosen : (fun key => key ∈ ([] : List β).map name) = fun _ => False := by
      funext key
      simp
    rw [none_chosen]
    exact .refl _ _
  · rintro - last ⟨done, split, turns⟩
    rw [List.append_nil] at split
    exact split ▸ turns

/-- Running an action on all indices. -/
theorem turns_onIndices (storage : Storage α) (turned : Key → Index α → Index α → Prop)
    {action : Key → Action (Index α × Journal) Unit}
    (ensures : ∀ key member journal, storage.indices.get? key = some member →
      Ensures (action key) (member.index, journal)
        (fun _ result => turned key member.index result.1) fun _ _ => False) :
    Ensures (Storage.onIndices action) storage
      (fun _ last => Turns (fun key => ∃ member, storage.indices.get? key = some member) turned
        storage last)
      fun _ _ => False := by
  simp only [Storage.onIndices, Action.ensures_bind, Action.ensures_get]
  refine (Turns.forM turned id (by simpa using storage.indices.keys_nodup)
    (fun key member => (Pool.mem_keys _ _).mp member)
    fun key _ member journal found => ensures key member journal found).ends ?_
  intro _ last turns
  have chosen : (fun key => key ∈ storage.indices.keys.map id) =
      fun key => ∃ member, storage.indices.get? key = some member := by
    funext key
    rw [List.map_id, Pool.mem_keys]
  rw [chosen] at turns
  exact turns

/-- The storage after an operation that failed before it changed anything. -/
abbrev failing (storage : Storage α) (failure : Failure) : Storage α :=
  { storage with journal := storage.journal.failing failure }

/-- An operation that failed before it changed anything leaves all but the journal alone. -/
theorem rest_of_failing {storage after : Storage α} {failure : Failure}
    (same : after = storage.failing failure) : after = { storage with journal := after.journal } := by
  rw [same]

/-- A value or its rejection; a rejection is reported. -/
theorem ensures_orReject {β : Type} (result : Except Rejection β) {done : β → Storage α → Prop}
    {failed : Failure → Storage α → Prop}
    (ends : ∀ value, result = .ok value → done value storage)
    (fails : ∀ rejection, result = .error rejection →
      failed (.rejected rejection) { storage with journal := storage.journal.reject rejection }) :
    Ensures (orReject result) storage done failed := by
  cases result with
  | ok value => exact ends value rfl
  | error rejection => exact fails rejection rfl

/-- A value or its fault; nothing changes. -/
theorem ensures_orAbort {β : Type} (result : Except Fault β) {done : β → Storage α → Prop}
    {failed : Failure → Storage α → Prop}
    (ends : ∀ value, result = .ok value → done value storage)
    (fails : ∀ fault, result = .error fault → failed (.aborted fault) storage) :
    Ensures (orAbort result) storage done failed := by
  cases result with
  | ok value => exact ends value rfl
  | error fault => exact fails fault rfl

/-- A value that is there. -/
theorem ensures_orAbort_ok {β : Type} {result : Except Fault β} {value : β}
    {done : β → Storage α → Prop} {failed : Failure → Storage α → Prop}
    (there : result = .ok value) (ends : done value storage) :
    Ensures (orAbort result) storage done failed := there ▸ ends

/-- A storage over the same layout with indices over the same spaces. -/
structure Alike (storage after : Storage α) : Prop where
  /-- The layout stays. -/
  layout : after.layout = storage.layout
  /-- There is no new index. -/
  absent : ∀ {key}, storage.indices.get? key = none → after.indices.get? key = none
  /-- Every index stays over its space. -/
  present : ∀ {key member}, storage.indices.get? key = some member →
    ∃ index, after.indices.get? key = some { member with index } ∧ member.index.Over index

namespace Alike

/-- Nothing that counts has changed. -/
theorem of_eq (layout : after.layout = storage.layout) (indices : after.indices = storage.indices) :
    storage.Alike after :=
  ⟨layout, fun missing => indices ▸ missing, fun {_ member} found =>
    ⟨member.index, indices ▸ found, .refl _⟩⟩

/-- Storages that are alike in a row are alike. -/
theorem trans {last : Storage α} (before : storage.Alike after) (further : after.Alike last) :
    storage.Alike last := by
  refine ⟨further.layout.trans before.layout, fun missing => further.absent (before.absent missing),
    fun found => ?_⟩
  obtain ⟨index, held, stays⟩ := before.present found
  obtain ⟨final, kept, overLast⟩ := further.present held
  exact ⟨final, kept, stays.trans overLast⟩

/-- Only the layout and the indices count. -/
theorem congr {other : Storage α} (alike : other.Alike after)
    (layout : other.layout = storage.layout) (indices : other.indices = storage.indices) :
    storage.Alike after := by
  have same : storage.Alike other := .of_eq layout indices
  exact same.trans alike

end Alike

/-- Indices that turn over their spaces leave the storage alike. -/
theorem Turns.alike {chosen : Key → Prop} {turned : Key → Index α → Index α → Prop}
    (turns : Turns chosen turned storage after)
    (stays : ∀ {key before last}, turned key before last → before.Over last) :
    storage.Alike after := by
  refine ⟨by rw [turns.rest], turns.absent, fun {key _} found => ?_⟩
  obtain ⟨index, held, yes, no⟩ := turns.present found
  refine ⟨index, held, ?_⟩
  by_cases inside : chosen key
  · exact stays (yes inside)
  · rw [no inside]
    exact .refl _

/-- What an operation leaves alone: the readers and the spaces of the indices stay, and the
records are the given ones. -/
structure Carries (storage after : Storage α) (records : Pool Bytes) : Prop where
  /-- The readers stay. -/
  readers : after.readers = storage.readers
  /-- These are the records. -/
  records : after.records = records
  /-- The indices stay over their spaces. -/
  alike : storage.Alike after

namespace Carries

variable {records : Pool Bytes}

/-- Nothing but the records has changed of what counts. -/
theorem of_eq (readers : after.readers = storage.readers) (layout : after.layout = storage.layout)
    (same : after.records = records) (indices : after.indices = storage.indices) :
    Carries storage after records := ⟨readers, same, .of_eq layout indices⟩

/-- What is carried by two operations is carried by both in a row. -/
theorem trans {last : Storage α} {others : Pool Bytes} (before : Carries storage after records)
    (further : Carries after last others) : Carries storage last others :=
  ⟨further.readers.trans before.readers, further.records, before.alike.trans further.alike⟩

end Carries

/-- Indices that turn over their spaces carry everything else. -/
theorem Turns.carries {chosen : Key → Prop} {turned : Key → Index α → Index α → Prop}
    (turns : Turns chosen turned storage after)
    (stays : ∀ {key before last}, turned key before last → before.Over last) :
    Carries storage after storage.records :=
  ⟨by rw [turns.rest], by rw [turns.rest], turns.alike stays⟩

/-! ## Upkeep -/

variable [Arithmetic α]

/-- A storage whose indices show views of the records, each index its own. -/
structure Keeps (views : Key → Key → Option Bytes) (storage : Storage α) : Prop where
  /-- The fields of the layout lie inside the records. -/
  sound : storage.layout.Sound
  /-- New records get new keys. -/
  records : storage.records.WellFormed
  /-- Every record has the size of the layout. -/
  sized : ∀ {key record}, storage.records.get? key = some record →
    record.length = storage.layout.size
  /-- New indices get new keys. -/
  indices : storage.indices.WellFormed
  /-- The registry serves every index. -/
  served : Registry.Serves storage.layout storage.registry storage.members
  /-- Every index shows its view. -/
  shown : ∀ {key member}, storage.indices.get? key = some member →
    member.index.Keeps storage.layout.size (views key)

/-- No record waits to be put back into an index. -/
def Calm (storage : Storage α) : Prop :=
  ∀ {key member}, storage.indices.get? key = some member → member.index.queue = []

/-- A storage whose indices show the records as they are. -/
structure InStep (storage : Storage α) : Prop where
  /-- Every index shows the records. -/
  keeps : storage.Keeps fun _ => storage.records.get?
  /-- No record waits. -/
  calm : storage.Calm

variable {views changed : Key → Key → Option Bytes}

/-- A storage whose indices turned shows what they turned to show. -/
theorem Keeps.turns {chosen : Key → Prop} {turned : Key → Index α → Index α → Prop}
    (keeps : storage.Keeps views) (turns : Turns chosen turned storage after)
    (shows : ∀ {key before last}, chosen key → before.Keeps storage.layout.size (views key) →
      turned key before last →
      last.Keeps storage.layout.size (changed key) ∧ last.fields = before.fields)
    (stays : ∀ {key member}, storage.indices.get? key = some member → ¬chosen key →
      member.index.Keeps storage.layout.size (views key) →
      member.index.Keeps storage.layout.size (changed key)) : after.Keeps changed := by
  have layout : after.layout = storage.layout := by rw [turns.rest]
  have records : after.records = storage.records := by rw [turns.rest]
  have registry : after.registry = storage.registry := by rw [turns.rest]
  refine ⟨layout ▸ keeps.sound, records ▸ keeps.records, ?_, turns.formed keeps.indices, ?_, ?_⟩
  · intro key record found
    rw [records] at found
    rw [layout]
    exact keeps.sized found
  · rw [layout, registry]
    apply keeps.served.perm
    apply Pool.values_map_perm
    intro key
    cases before : storage.indices.get? key with
    | none => rw [turns.absent before]
    | some member =>
      obtain ⟨index, held, yes, no⟩ := turns.present before
      rw [held, Option.map_some, Option.map_some]
      by_cases inside : chosen key
      · rw [(shows inside (keeps.shown before) (yes inside)).2]
      · rw [no inside]
  · intro key member found
    obtain ⟨former, before, -, yes, no⟩ := turns.former found
    rw [layout]
    by_cases inside : chosen key
    · exact (shows inside (keeps.shown before) (yes inside)).1
    · rw [no inside]
      exact stays before inside (keeps.shown before)

/-- The indices of a storage after an action on each of them, and nothing else of it. -/
structure Spread (turned : Index α → Index α → Prop) (changed : Key → Option Bytes)
    (storage after : Storage α) : Prop where
  /-- Every index shows the view. -/
  keeps : after.Keeps fun _ => changed
  /-- The indices stay over their spaces. -/
  alike : storage.Alike after
  /-- Nothing but the indices and the journal changed. -/
  rest : after = { storage with indices := after.indices, journal := after.journal }
  /-- Every index turned from one before. -/
  former : ∀ {key member}, after.indices.get? key = some member →
    ∃ before, storage.indices.get? key = some before ∧ turned before.index member.index

/-- An action on every index carries everything else. -/
theorem Spread.carries {turned : Index α → Index α → Prop} {changed : Key → Option Bytes}
    (spread : Spread turned changed storage after) : Carries storage after storage.records :=
  ⟨by rw [spread.rest], by rw [spread.rest], spread.alike⟩

/-- An action that makes an index show a changed view makes all of them show it. -/
theorem Keeps.spread {view : Key → Option Bytes} (keeps : storage.Keeps fun _ => view)
    (changed : Key → Option Bytes)
    {turned : Index α → Index α → Prop} {action : Key → Action (Index α × Journal) Unit}
    (stays : ∀ {before last}, turned before last → before.Over last)
    (ensures : ∀ {key member} journal, storage.indices.get? key = some member →
      member.index.Keeps storage.layout.size view →
      Ensures (action key) (member.index, journal)
        (fun _ result => result.1.Keeps storage.layout.size changed ∧ turned member.index result.1)
        fun _ _ => False) :
    Ensures (onIndices action) storage (fun _ after => Spread turned changed storage after)
      fun _ _ => False := by
  refine (turns_onIndices storage (fun _ before last =>
    last.Keeps storage.layout.size changed ∧ turned before last)
    fun _ _ journal found => ensures journal found (keeps.shown found)).ends ?_
  intro _ after turns
  refine ⟨?_, turns.alike fun result => stays result.2, turns.rest, ?_⟩
  · exact keeps.turns turns (fun _ _ result => ⟨result.1, (stays result.2).fields⟩)
      fun found absent _ => absurd ⟨_, found⟩ absent
  · intro key member found
    obtain ⟨before, held, -, yes, -⟩ := turns.former found
    exact ⟨before, held, (yes ⟨before, held⟩).2⟩

end Storage

end SpatialIndex
