import SpatialIndex.Proofs.Storage.Indices

/-!
# Sessions

A session is a storage with what its callers hold of it: any number of read cursors, or an
inserter, or an edit cursor. A request is carried out when the holdings admit it. An operation
that fails leaves the storage as far as it came; a holding that is leaked is gone without being
closed.
-/
open SpatialIndex.Action (Ensures)

namespace SpatialIndex

open Record (Bytes Edit Layout)
open Storage (Inserter)

/-- What callers hold of a storage. -/
inductive Holding (α : Type)
  /-- Read cursors; none when the storage is free. -/
  | readers (cursors : List (Cursor α))
  /-- An inserter. -/
  | inserter (inserter : Inserter)
  /-- An edit cursor. -/
  | editor (cursor : Cursor α)

/-- A storage with what its callers hold of it. -/
structure Session (α : Type) where
  /-- The storage. -/
  storage : Storage α
  /-- What callers hold. -/
  held : Holding α

/-- A call of a storage that nothing else is held of. -/
inductive Call
  /-- Create an index. -/
  | createIndex (specs : List AxisSpec)
  /-- Drop an index. -/
  | dropIndex (key : Key)
  /-- Insert a record. -/
  | insert (bytes : Bytes)
  /-- Modify a record by an edit that may be aborted. -/
  | modify (key : Key) (edit : Edit)
  /-- Delete a record. -/
  | delete (key : Key)
  /-- Delete all records. -/
  | clear

/-- What callers can do. -/
inductive Request
  /-- Call the storage. -/
  | call (call : Call)
  /-- Open a read cursor. -/
  | read (index : Key) (query : Query)
  /-- Copy a read cursor. -/
  | copy (position : Nat)
  /-- Move a read cursor on. -/
  | advance (position : Nat)
  /-- Close a read cursor. -/
  | close (position : Nat)
  /-- Leak a read cursor. -/
  | leak (position : Nat)
  /-- Open an inserter. -/
  | openInserter
  /-- Have the next record handed out. -/
  | allocate
  /-- Edit the record handed out last. -/
  | fill (edit : Edit)
  /-- Open an edit cursor. -/
  | edit (index : Key) (query : Query)
  /-- Edit the current record. -/
  | change (edit : Edit)
  /-- Leave the current record. -/
  | leave
  /-- Delete the current record. -/
  | erase
  /-- Close the inserter or the edit cursor. -/
  | drop
  /-- Leak the inserter or the edit cursor. -/
  | forget

variable {α : Type}

namespace Session

/-- The session after an operation: what is held then depends on its outcome. -/
def perform {β : Type} (storage : Storage α) (operation : StorageOp α β) (done : β → Holding α)
    (failed : Holding α) : Session α :=
  match operation storage with
  | .ok value storage => ⟨storage, done value⟩
  | .error _ storage => ⟨storage, failed⟩

/-- What an operation ensures holds of the session after it. -/
theorem perform_of_ensures {β : Type} {storage : Storage α} {operation : StorageOp α β}
    {hold : β → Holding α} {rest : Holding α} {done : β → Storage α → Prop}
    {failed : Failure → Storage α → Prop} {property : Session α → Prop}
    (ensured : Ensures operation storage done failed)
    (ends : ∀ value after, done value after → property ⟨after, hold value⟩)
    (fails : ∀ failure after, failed failure after → property ⟨after, rest⟩) :
    property (perform storage operation hold rest) := by
  unfold Ensures at ensured
  unfold perform
  cases ran : operation storage with
  | ok value after =>
    rw [ran] at ensured
    exact ends value after ensured
  | error failure after =>
    rw [ran] at ensured
    exact fails failure after ensured

end Session

variable [Arithmetic α]

/-- The operation of a call. -/
def Call.run : Call → StorageOp α Unit
  | createIndex specs => discard (Storage.createIndex specs)
  | dropIndex key => Storage.dropIndex key
  | insert bytes => discard (Storage.insertRecord bytes)
  | modify key edit => discard (Storage.modifyRecord key edit)
  | delete key => discard (Storage.deleteRecord key)
  | clear => Storage.clear

namespace Session

/-- The session after a request; one that the holdings do not admit changes nothing. -/
def step (session : Session α) (request : Request) : Session α :=
  match session.held, request with
  | .readers [], .call call => perform session.storage call.run (fun _ => .readers []) (.readers [])
  | .readers [], .openInserter =>
    perform session.storage Storage.openInserter .inserter (.readers [])
  | .readers [], .edit index query =>
    perform session.storage (Storage.edit index query) .editor (.readers [])
  | .readers cursors, .read index query =>
    perform session.storage (Storage.read index query) (fun cursor => .readers (cursor :: cursors))
      (.readers cursors)
  | .readers cursors, .copy position =>
    match cursors[position]? with
    | some cursor =>
      perform session.storage (Storage.openRead cursor) (fun _ => .readers (cursor :: cursors))
        (.readers cursors)
    | none => session
  | .readers cursors, .advance position =>
    match cursors[position]? with
    | some cursor =>
      match session.storage.advanceRead cursor with
      | .ok next => { session with held := .readers (cursors.set position next) }
      | .error _ => session
    | none => session
  | .readers cursors, .close position =>
    match cursors[position]? with
    | some cursor =>
      perform session.storage (Storage.closeRead cursor)
        (fun _ => .readers (cursors.eraseIdx position)) (.readers (cursors.eraseIdx position))
    | none => session
  | .readers cursors, .leak position =>
    { session with held := .readers (cursors.eraseIdx position) }
  | .inserter inserter, .allocate =>
    perform session.storage inserter.allocate (fun handed => .inserter handed.2)
      (.inserter inserter)
  | .inserter ⟨some key⟩, .fill edit =>
    perform session.storage (Storage.editRecord key edit) (fun _ => .inserter ⟨some key⟩)
      (.inserter ⟨some key⟩)
  | .inserter inserter, .drop =>
    perform session.storage inserter.close (fun _ => .readers []) (.readers [])
  | .inserter _, .forget => { session with held := .readers [] }
  | .editor cursor, .change edit =>
    perform session.storage (Storage.changeCurrent cursor edit) (fun _ => .editor cursor)
      (.editor cursor)
  | .editor cursor, .leave =>
    perform session.storage (Storage.advanceEdit cursor) .editor (.editor cursor)
  | .editor cursor, .erase =>
    perform session.storage (Storage.eraseEdit cursor) .editor (.editor cursor)
  | .editor cursor, .drop =>
    perform session.storage (Storage.closeEdit cursor) (fun _ => .readers []) (.readers [])
  | .editor _, .forget => { session with held := .readers [] }
  | _, _ => session

/-- The session after requests in their order. -/
def run (session : Session α) (requests : List Request) : Session α := requests.foldl step session

/-- The session of a new storage of a layout. -/
def start (layout : Layout) (config : Config) (journal : Journal) : Session α :=
  ⟨Storage.create layout config journal, .readers []⟩

end Session

/-! ## Storages at rest -/

namespace Storage

variable {storage : Storage α}

/-- A storage whose indices show records that are there. -/
def Upkept (storage : Storage α) : Prop :=
  ∃ views, storage.Keeps views ∧
    ∀ index, World.Search.Backed storage.layout.size (views index) storage.records

/-- A storage that no inserter and no edit cursor is held of: it is in step, unless a writer is open
for good. -/
structure Resting (storage : Storage α) : Prop where
  /-- Without a writer the indices show the records as they are. -/
  inStep : storage.writers = 0 → storage.InStep
  /-- What the indices show has a record. -/
  upkept : storage.Upkept

/-- A storage in step may rest. -/
theorem InStep.resting (inStep : storage.InStep) : storage.Resting :=
  ⟨fun _ => inStep, _, inStep.keeps, fun _ => inStep.live⟩

/-- What is upkept does not depend on the counts, the backup and the journal. -/
theorem Upkept.congr {other : Storage α} (upkept : storage.Upkept)
    (layout : other.layout = storage.layout) (records : other.records = storage.records)
    (indices : other.indices = storage.indices) (registry : other.registry = storage.registry) :
    other.Upkept := by
  obtain ⟨views, keeps, backed⟩ := upkept
  refine ⟨views, keeps.congr layout records indices registry, ?_⟩
  rw [layout, records]
  exact backed

/-- The counts of cursors do not matter. -/
theorem Upkept.recounted {after : Storage α} (upkept : storage.Upkept)
    (recounted : storage.Recounted after) : after.Upkept := by
  obtain ⟨views, keeps, backed⟩ := upkept
  cases recounted with
  | readers readers => exact ⟨views, keeps.congr rfl rfl rfl rfl, backed⟩
  | cursors found cursors readers =>
    exact ⟨views, (keeps.usedBy found cursors).congr rfl rfl rfl rfl, backed⟩

/-- The indices still show the records as they were when the edit of one is aborted. -/
theorem InStep.brokenOff (inStep : storage.InStep) {key : Key} {bytes : Bytes}
    (found : storage.records.get? key = some bytes) (edited : Bytes) :
    (storage.brokenOff key bytes edited).Upkept := by
  refine ⟨fun _ => storage.records.get?, (inStep.keeps.overwrite found edited).congr rfl rfl rfl rfl,
    fun _ other content known => ?_⟩
  by_cases same : other = key
  · subst same
    refine ⟨_, Pool.get?_set_self (overwrite bytes edited) found, ?_⟩
    rw [length_overwrite]
    exact inStep.keeps.sized found
  · exact ⟨content, (Pool.get?_set_ne _ _ same).trans known, inStep.keeps.sized known⟩

/-- What the indices show while an inserter is open has a record. -/
theorem Filling.upkept {inserter : Inserter} (filling : storage.Filling inserter) :
    storage.Upkept := by
  refine ⟨_, filling.keeps, fun _ key bytes shown => ⟨bytes, ?_⟩⟩
  have found : storage.records.get? key = some bytes := by
    obtain ⟨pending⟩ := inserter
    cases pending with
    | none => exact shown
    | some handed =>
      simp only [Inserter.shown] at shown
      by_cases same : key = handed
      · rw [same, Function.update_self] at shown
        cases shown
      · rw [Function.update_of_ne same] at shown
        exact shown
  exact ⟨found, filling.keeps.sized found⟩

/-- What the indices show while an edit cursor is open has a record. -/
theorem Editing.upkept {view : Key → Option Bytes} {own : Key} {member : Member α}
    (editing : Editing storage view own member) : storage.Upkept :=
  ⟨_, editing.keeps, fun _ => editing.live⟩

/-- A storage stays at rest when its writer is leaked. -/
theorem Upkept.resting (upkept : storage.Upkept) (writing : storage.writers = 1) :
    storage.Resting :=
  ⟨fun idle => absurd (writing.symm.trans idle) Nat.one_ne_zero, upkept⟩

namespace Resting

/-- The journal does not matter to a storage at rest. -/
theorem withJournal (resting : storage.Resting) (journal : Journal) :
    ({ storage with journal } : Storage α).Resting := by
  refine ⟨fun idle => ?_, resting.upkept.congr rfl rfl rfl rfl⟩
  have inStep := resting.inStep idle
  exact ⟨inStep.keeps.congr rfl rfl rfl rfl, inStep.calm⟩

/-- Counts do not matter to a storage at rest. -/
theorem recounted {after : Storage α} (resting : storage.Resting)
    (recounted : storage.Recounted after) : after.Resting := by
  refine ⟨fun idle => ?_, resting.upkept.recounted recounted⟩
  have unwritten : storage.writers = 0 := by cases recounted <;> exact idle
  exact ((resting.inStep unwritten).recounted recounted).inStep

/-- Creating an index keeps a storage at rest. -/
theorem createIndex (resting : storage.Resting) (specs : List AxisSpec) :
    Ensures (Storage.createIndex specs) storage (fun _ after => after.Resting)
      fun _ after => after.Resting := by
  by_cases idle : storage.writers = 0
  · exact ((resting.inStep idle).createIndex specs).imp (fun _ _ stays => stays.inStep.resting)
      fun _ _ stays => stays.inStep.resting
  · obtain ⟨views, keeps, backed⟩ := resting.upkept
    refine (keeps.createIndex specs).imp ?_ ?_
    · rintro key after ⟨member, registry, -, -, -, rest, kept, -⟩
      have records : after.records = storage.records := by rw [rest]
      have layout : after.layout = storage.layout := by rw [rest]
      refine ⟨fun unwritten => absurd ?_ idle, _, kept, fun index => ?_⟩
      · rw [rest] at unwritten
        exact unwritten
      · rw [records, layout]
        by_cases new : index = key
        · rw [new, Function.update_self]
          exact fun other content known => ⟨content, known, keeps.sized known⟩
        · rw [Function.update_of_ne new]
          exact backed index
    · rintro - after ⟨-, ⟨registry, rest⟩, kept, -⟩
      have records : after.records = storage.records := by rw [rest]
      have layout : after.layout = storage.layout := by rw [rest]
      refine ⟨fun unwritten => absurd ?_ idle, views, kept, ?_⟩
      · rw [rest] at unwritten
        exact unwritten
      · rw [records, layout]
        exact backed

/-- Dropping an index keeps a storage at rest. -/
theorem dropIndex (resting : storage.Resting) (key : Key) :
    Ensures (Storage.dropIndex key) storage (fun _ after => after.Resting)
      fun _ after => after.Resting := by
  by_cases idle : storage.writers = 0
  · exact ((resting.inStep idle).dropIndex key).imp (fun _ _ stays => stays.inStep.resting)
      fun _ _ stays => stays.inStep.resting
  · obtain ⟨views, keeps, backed⟩ := resting.upkept
    refine ((keeps.dropIndex key).and (dropIndex_spec storage key)).imp ?_ ?_
    · rintro - after ⟨kept, dropped, -, -, rest⟩
      refine ⟨fun unwritten => absurd ?_ idle, views, kept, ?_⟩
      · rw [rest] at unwritten
        exact unwritten
      · rw [rest]
        exact backed
    · exact fun _ after failed => failed.2.1 ▸ resting.withJournal _

/-- Every call keeps a storage at rest. -/
theorem call (resting : storage.Resting) (call : Call) :
    Ensures call.run storage (fun _ after => after.Resting) fun _ after => after.Resting := by
  cases call with
  | createIndex specs =>
    rw [Call.run, Action.ensures_discard]
    exact resting.createIndex specs
  | dropIndex key => exact resting.dropIndex key
  | insert bytes =>
    rw [Call.run, Action.ensures_discard]
    exact (insertRecord_spec resting.inStep bytes).imp
      (fun _ _ landed => landed.2.2.2.inStep.resting) fun _ _ failed => failed.1 ▸ resting.withJournal _
  | modify key edit =>
    rw [Call.run, Action.ensures_discard]
    refine (modifyRecord_spec resting.inStep key edit).imp ?_ ?_
    · rintro - after (⟨-, -, rfl⟩ | ⟨bytes, edited, -, -, -, -, lands⟩)
      · exact resting
      · exact lands.inStep.resting
    · rintro - after (⟨rfl, -⟩ | ⟨bytes, fault, edited, -, idle, found, -, -, rfl⟩)
      · exact resting
      · exact ((resting.inStep idle).brokenOff found edited).resting rfl
  | delete key =>
    rw [Call.run, Action.ensures_discard]
    refine (deleteRecord_spec resting.inStep key).imp ?_ fun _ _ failed => failed.1 ▸ resting
    rintro found after ⟨-, unfound | landed⟩
    · exact unfound.2.2 ▸ resting
    · exact landed.2.inStep.resting
  | clear =>
    exact (clear_spec resting.inStep).imp (fun _ _ landed => landed.2.inStep.resting)
      fun _ _ failed => failed.1 ▸ resting

end Resting

end Storage

/-! ## Sound sessions -/

namespace Session

open Storage (Resting)

/-- What a session keeps: its storage is in step but for what its holder is about. -/
def Sound (session : Session α) : Prop :=
  match session.held with
  | .readers _ => session.storage.Resting
  | .inserter inserter => session.storage.Filling inserter
  | .editor cursor => ∃ own member search place current,
      cursor = Storage.Member.cursor member own search ∧
        session.storage.Visiting own member search place current

variable {storage : Storage α}

/-- An inserter opens on a free storage, or nothing happens. -/
theorem openInserter_sound (resting : storage.Resting) :
    (perform storage Storage.openInserter .inserter (.readers [])).Sound :=
  perform_of_ensures (Storage.openInserter_spec resting.inStep)
    (fun _ _ opened => opened.2.2.2.2) fun _ _ failed => failed.1 ▸ resting

/-- An edit cursor opens on a free storage, or at most the journal changes. -/
theorem edit_sound (resting : storage.Resting) (index : Key) (query : Query) :
    (perform storage (Storage.edit index query) .editor (.readers [])).Sound := by
  refine perform_of_ensures (Storage.edit_spec resting.inStep index query) ?_
    fun _ _ failed => failed.1 ▸ resting.withJournal _
  rintro _ after ⟨member, search, place, current, -, rfl, visiting, -⟩
  exact ⟨index, member.usedBy (member.index.cursors + 1), search, place, current, rfl, visiting⟩

/-- A request to a storage that is free or read keeps the session sound. -/
theorem Sound.step_readers (resting : storage.Resting) (cursors : List (Cursor α))
    (request : Request) : (step ⟨storage, .readers cursors⟩ request).Sound := by
  cases request with
  | call call =>
    cases cursors with
    | nil => exact perform_of_ensures (resting.call call) (fun _ _ => id) fun _ _ => id
    | cons cursor rest => exact resting
  | openInserter =>
    cases cursors with
    | nil => exact openInserter_sound resting
    | cons cursor rest => exact resting
  | edit index query =>
    cases cursors with
    | nil => exact edit_sound resting index query
    | cons cursor rest => exact resting
  | read index query =>
    have reads : Sound (perform storage (Storage.read index query)
        (fun cursor => .readers (cursor :: cursors)) (.readers cursors)) := by
      refine perform_of_ensures (Storage.read_spec storage index query) ?_
        fun _ _ failed => failed.1 ▸ resting.withJournal _
      rintro _ _ ⟨idle, member, search, found, -, -, rfl⟩
      exact resting.recounted (.cursors found _ _)
    cases cursors <;> exact reads
  | copy position =>
    have copies (cursor : Cursor α) : Sound (perform storage (Storage.openRead cursor)
        (fun _ => .readers (cursor :: cursors)) (.readers cursors)) :=
      perform_of_ensures (Storage.openRead_spec storage cursor)
        (fun _ _ opened => resting.recounted opened.2)
        fun _ _ => resting.recounted
    unfold step
    cases found : cursors[position]? with
    | none => cases cursors <;> simp only [found] <;> exact resting
    | some cursor => cases cursors <;> simp only [found] <;> exact copies cursor
  | advance position =>
    unfold step
    cases found : cursors[position]? with
    | none => cases cursors <;> simp only [found] <;> exact resting
    | some cursor =>
      cases cursors <;> simp only [found] <;> split <;> exact resting
  | close position =>
    have closes (cursor : Cursor α) : Sound (perform storage (Storage.closeRead cursor)
        (fun _ => .readers (cursors.eraseIdx position)) (.readers (cursors.eraseIdx position))) :=
      perform_of_ensures (Storage.closeRead_spec storage cursor)
        (fun _ _ => resting.recounted)
        fun _ _ => resting.recounted
    unfold step
    cases found : cursors[position]? with
    | none => cases cursors <;> simp only [found] <;> exact resting
    | some cursor => cases cursors <;> simp only [found] <;> exact closes cursor
  | leak position => cases cursors <;> exact resting
  | _ => cases cursors <;> exact resting

/-- A request to an inserter keeps the session sound. -/
theorem Sound.step_inserter {inserter : Inserter} (filling : storage.Filling inserter)
    (request : Request) : (step ⟨storage, .inserter inserter⟩ request).Sound := by
  cases request with
  | allocate =>
    exact perform_of_ensures filling.allocate (fun _ _ allocated => allocated.2.1)
      fun _ _ => False.elim
  | fill edit =>
    obtain ⟨pending⟩ := inserter
    cases pending with
    | none => exact filling
    | some key =>
      obtain ⟨bytes, found⟩ := filling.live key rfl
      refine perform_of_ensures (Storage.editRecord_spec found edit) ?_ ?_
      · rintro - _ ⟨edited, -, rfl⟩
        exact filling.edit found edited
      · rintro - _ ⟨-, edited, -, -, rfl⟩
        exact filling.edit found edited
  | drop =>
    exact perform_of_ensures filling.close (fun _ _ lands => lands.inStep.resting)
      fun _ _ => False.elim
  | forget => exact filling.upkept.resting filling.writers
  | _ => exact filling

/-- A request to an edit cursor keeps the session sound. -/
theorem Sound.step_editor {own : Key} {member : Storage.Member α}
    {search : World.Search α member.index.dimensions}
    {place : Option (Partition.Address member.index.dimensions)} {current : Option Key}
    (visiting : storage.Visiting own member search place current) (request : Request) :
    (step ⟨storage, .editor (member.cursor own search)⟩ request).Sound := by
  have sound : Sound ⟨storage, .editor (member.cursor own search)⟩ :=
    ⟨own, member, search, place, current, rfl, visiting⟩
  have proceeds {key : Key} {records : Pool Bytes} (cursor : Cursor α) (after : Storage α)
      (left : storage.Proceeds own member search place key records cursor after) :
      Sound ⟨after, .editor cursor⟩ := by
    obtain ⟨tree, queue, next, there, current, rfl, visiting, -⟩ := left
    exact ⟨own, member.withTree tree queue, next, there, current, rfl, visiting⟩
  have stays (after : Storage α) (same : after = storage) :
      Sound ⟨after, .editor (member.cursor own search)⟩ := same ▸ sound
  cases request with
  | change edit =>
    cases current with
    | none =>
      exact perform_of_ensures (visiting.changeCurrent_over edit) (fun _ => stays)
        fun _ _ => False.elim
    | some key =>
      obtain ⟨bytes, found⟩ := visiting.present key rfl
      refine perform_of_ensures (visiting.changeCurrent found edit) ?_ ?_
      · rintro - after ⟨edited, -, further⟩
        exact ⟨own, member, search, place, some key, rfl, further⟩
      · rintro - after ⟨⟨edited, -, further⟩, -⟩
        exact ⟨own, member, search, place, some key, rfl, further⟩
  | leave =>
    cases current with
    | none =>
      exact perform_of_ensures visiting.advanceEdit_over (fun _ _ => False.elim)
        fun _ after failed => stays after failed.1
    | some key => exact perform_of_ensures visiting.advanceEdit proceeds fun _ _ => False.elim
  | erase =>
    cases current with
    | none =>
      exact perform_of_ensures visiting.eraseEdit_over (fun _ _ => False.elim)
        fun _ after failed => stays after failed.1
    | some key => exact perform_of_ensures visiting.eraseEdit proceeds fun _ _ => False.elim
  | drop =>
    exact perform_of_ensures visiting.closeEdit (fun _ _ lands => lands.inStep.resting)
      fun _ _ => False.elim
  | forget => exact visiting.editing.upkept.resting visiting.editing.writers
  | _ => exact sound

/-- Every request keeps a session sound. -/
theorem Sound.step {session : Session α} (sound : session.Sound) (request : Request) :
    (session.step request).Sound := by
  obtain ⟨storage, held⟩ := session
  cases held with
  | readers cursors => exact Sound.step_readers sound cursors request
  | inserter inserter => exact Sound.step_inserter sound request
  | editor cursor =>
    obtain ⟨own, member, search, place, current, rfl, visiting⟩ := sound
    exact Sound.step_editor visiting request

/-- Every run keeps a session sound. -/
theorem Sound.run {session : Session α} (sound : session.Sound) (requests : List Request) :
    (session.run requests).Sound := by
  induction requests generalizing session with
  | nil => exact sound
  | cons request rest ih => exact ih (sound.step request)

/-- A new storage is in step. -/
theorem start_sound {spec : Record.LayoutSpec} {layout : Layout}
    (computed : Layout.ofSpec spec = .ok layout) (config : Config) (journal : Journal) :
    (start layout config journal : Session α).Sound := by
  have nothing {β : Type} {key : Key} {value : β}
      (found : (Pool.empty : Pool β).get? key = some value) : False := by
    rw [Pool.get?_empty] at found
    cases found
  have inStep : (Storage.create layout config journal : Storage α).InStep :=
    ⟨⟨Layout.sound_of_spec computed, Pool.wellFormed_empty, fun found => (nothing found).elim,
      Pool.wellFormed_empty, Storage.Registry.serves_nil, fun found => (nothing found).elim⟩,
      fun found => (nothing found).elim⟩
  exact inStep.resting

/-- A session without an open writer has its storage in step. -/
theorem Sound.inStep {session : Session α} (sound : session.Sound)
    (idle : session.storage.writers = 0) : session.storage.InStep := by
  obtain ⟨storage, held⟩ := session
  cases held with
  | readers cursors => exact Storage.Resting.inStep sound idle
  | inserter inserter => exact absurd (sound.writers.symm.trans idle) Nat.one_ne_zero
  | editor cursor =>
    obtain ⟨own, member, search, place, current, -, visiting⟩ := sound
    exact absurd (visiting.editing.writers.symm.trans idle) Nat.one_ne_zero

/-! ## A small storage -/

namespace Sample

/-- Records with two bounds. -/
def spec : Record.LayoutSpec := ⟨"Span", [.number "low" .i8, .number "high" .i8]⟩

/-- Their layout. -/
def layout : Layout := ⟨"Span", [⟨⟨0, 0, 1, .int⟩, "low"⟩, ⟨⟨1, 1, 1, .int⟩, "high"⟩], 2⟩

/-- The layout is the one that is computed from the description. -/
theorem layout_computed : Layout.ofSpec spec = .ok layout := rfl

/-- An integer of a bound. -/
def bound (n : Nat) : Coordinate := ⟨.i8, n⟩

/-- The index over eight cells of the line. -/
def line : AxisSpec := ⟨0, bound 0, 1, bound 8⟩

/-- The records between two points. -/
def between (low high : Nat) : Query := .shape [(bound low, bound high)]

/-- The journal that keeps errors only. -/
def journal : Journal := ⟨.error, #[]⟩

end Sample

end Session

end SpatialIndex
