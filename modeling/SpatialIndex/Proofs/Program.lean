import SpatialIndex.Proofs.Arithmetic.Double.Conversion
import SpatialIndex.Proofs.Failures

/-!
# Programs

The library computes with doubles, which are a rounded arithmetic. So whatever a program does with
the library, requests abort only for what their callers got wrong, registries know what indices
observe, indices are created exactly for descriptions that meet their demands, and failures leave
everything intact.
-/
namespace SpatialIndex

/-- Doubles round coordinates, and accepted settings are usable with them. -/
theorem Double.faithful : Host.Faithful Double.rounding :=
  ⟨Double.value_ofCoordinate, Config.usable_of_check⟩

namespace Host

section Sound

variable {α : Type} [Arithmetic α] {host : Host α} {storage : Storage α}

/-- In a sound host, every storage keeps its indices, balances their slots and has accepted
settings. -/
theorem Sound.keeps (sound : host.Sound) (member : storage ∈ host.storages) :
    (∃ views, storage.Keeps views) ∧ storage.Balanced ∧ storage.config.check = .ok () := by
  obtain ⟨session, there, rfl⟩ := List.mem_map.mp member
  obtain ⟨config, lost, kept, accepted, balanced, -⟩ := sound.ready session there
  have working := kept.withJournal host.engine.journal
  obtain ⟨views, keeps, -⟩ := working.sound.upkept
  have settings : (session.withJournal host.engine.journal).storage.config = config :=
    congrArg Storage.Account.config working.counted.account
  exact ⟨⟨views, keeps⟩, balanced.congr rfl, settings ▸ accepted⟩

/-- In a sound host, registries know what indices observe. -/
theorem Sound.observing (sound : host.Sound) (member : storage ∈ host.storages) :
    storage.Observing := by
  obtain ⟨⟨views, keeps⟩, balanced, -⟩ := sound.keeps member
  exact keeps.observing balanced

/-- In a sound host, indices are created exactly as described. -/
theorem Sound.creation (sound : host.Sound) {rounding : Rounding α} (faithful : Faithful rounding)
    (member : storage ∈ host.storages) (specs : List AxisSpec) : storage.Creation specs := by
  obtain ⟨⟨views, keeps⟩, balanced, accepted⟩ := sound.keeps member
  exact keeps.creation balanced rounding faithful.converts (faithful.usable accepted) specs

/-- In a sound host, requests abort only for what their callers got wrong. -/
theorem Sound.safe (sound : host.Sound) {rounding : Rounding α} (faithful : Faithful rounding)
    {session : Session α} (member : session ∈ host.sessions) :
    (session.withJournal host.engine.journal).Safe := by
  obtain ⟨config, lost, kept, accepted, -, -⟩ := sound.ready session member
  exact (kept.withJournal host.engine.journal).safe rounding faithful.converts
    (faithful.usable accepted)

end Sound

/-- The host after every run is sound. -/
theorem sound_of_run (commands : List Command) : ((initial : Host Float).run commands).Sound :=
  initial_sound.run Double.faithful commands

/-- After every run, requests abort only for what their callers got wrong. -/
theorem requests_safe (commands : List Command) :
    ∀ session ∈ ((initial : Host Float).run commands).sessions,
      (session.withJournal ((initial : Host Float).run commands).engine.journal).Safe :=
  fun _ => (sound_of_run commands).safe Double.faithful

/-- After every run, the registry of every storage knows what the indices observe: who is told of an
edition, and which index there is no room for. -/
theorem observing_of_run (commands : List Command) :
    ∀ storage ∈ ((initial : Host Float).run commands).storages, storage.Observing :=
  fun _ => (sound_of_run commands).observing

namespace Sample

/-- A program that opens a storage and uses it. -/
def after (requests : List Request) : Host Float :=
  initial.run (.openStorage Session.Sample.spec none :: requests.map (.use 0))

/-- An index whose bounds are one field. -/
def flat (field : Nat) : AxisSpec := ⟨field, Session.Sample.bound 0, field, Session.Sample.bound 8⟩

/-- An index is created and dropped, and two indices are created after it. The first index is gone
when it is dropped again. -/
def reindexed : List Request :=
  [.call (.createIndex [flat 0]), .call (.dropIndex ⟨1, 0⟩), .call (.createIndex [flat 1]),
    .call (.createIndex [Session.Sample.line]), .call (.dropIndex ⟨1, 0⟩)]

end Sample

/-- The slot of a dropped index is taken for another field, which two indices observe in the end. -/
theorem observing_after_reuse :
    ∃ storage ∈ (Sample.after Sample.reindexed).storages, storage.Observing ∧
      (storage.registry.map fun slot => (slot.field.id, slot.users)) = [(1, 2), (0, 1)] := by
  have slots : ((Sample.after Sample.reindexed).storages.map fun storage =>
      storage.registry.map fun slot => (slot.field.id, slot.users)) = [[(1, 2), (0, 1)]] := by
    decide +kernel
  obtain ⟨storage, single, same⟩ := List.map_eq_singleton_iff.mp slots
  have member : storage ∈ (Sample.after Sample.reindexed).storages := by
    rw [single]
    exact List.mem_singleton_self storage
  exact ⟨storage, member, observing_of_run _ storage member, same⟩

/-- After every run, every storage creates an index exactly when its description meets its demands;
otherwise the first demand that is not met gives the kind of the rejection. -/
theorem creation_of_run (commands : List Command) :
    ∀ storage ∈ ((initial : Host Float).run commands).storages, ∀ specs, storage.Creation specs :=
  fun _ => (sound_of_run commands).creation Double.faithful

namespace Sample

/-- A second axis whose upper bound is of another type, and which names a missing field. -/
def mixed : List AxisSpec :=
  [Session.Sample.line, ⟨0, Session.Sample.bound 0, 7, ⟨.u8, 8⟩⟩]

/-- A program that drops indices and edits records. -/
def worked : Host Float := after (reindexed ++ Session.Sample.edits)

/-- The kind of the rejection of a description. -/
def rejects? (specs : List AxisSpec) (storage : Storage Float) : Option RejectionKind :=
  match Storage.createIndex specs storage with
  | .error (.rejected rejection) _ => some rejection.kind
  | _ => none

end Sample

/-- A further index is created over records that were edited, and a description with two mistakes
is rejected for the first of them. -/
theorem creation_after_edits :
    ∃ storage ∈ Sample.worked.storages,
      (storage.Creation [Session.Sample.line] ∧
        Sample.rejects? [Session.Sample.line] storage = none) ∧
      storage.Creation Sample.mixed ∧
        Sample.rejects? Sample.mixed storage = some .invalidLayout := by
  have kinds : (Sample.worked.storages.map fun storage =>
      (Sample.rejects? [Session.Sample.line] storage, Sample.rejects? Sample.mixed storage)) =
        [(none, some .invalidLayout)] := by
    decide +kernel
  obtain ⟨storage, single, same⟩ := List.map_eq_singleton_iff.mp kinds
  have member : storage ∈ Sample.worked.storages := by
    rw [single]
    exact List.mem_singleton_self storage
  have creation := creation_of_run _ storage member
  exact ⟨storage, member, ⟨creation _, congrArg Prod.fst same⟩, creation _, congrArg Prod.snd same⟩

/-- After every run, failures leave everything intact. -/
theorem intact_of_run (commands : List Command) : ((initial : Host Float).run commands).Intact :=
  (sound_of_run commands).intact Double.faithful

namespace Sample

/-- An index is created, and a read cursor over its one record is leaked. -/
def leaking : List Request :=
  [.call (.createIndex [Session.Sample.line]), .call (.insert [1, 1]),
    .read ⟨1, 0⟩ (Session.Sample.between 0 3), .leak 0]

end Sample

/-- While a leaked cursor is counted, a record of another size is rejected, and the insertion of one
of the right size is aborted. -/
theorem intact_after_leak :
    (Sample.after Sample.leaking).Intact ∧
      (Sample.after Sample.leaking).failure? (.use 0 (.call (.insert [1]))) =
        some (.rejected (.recordSize 1 "Span" 2)) ∧
      (Sample.after Sample.leaking).failure? (.use 0 (.call (.insert [1, 1]))) =
        some (.aborted .writerDuringReader) :=
  ⟨intact_of_run _, by decide +kernel, by decide +kernel⟩

end Host

end SpatialIndex
