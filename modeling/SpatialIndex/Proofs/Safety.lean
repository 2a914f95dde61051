import SpatialIndex.Proofs.Partition.Course
import SpatialIndex.Proofs.Protocol
import SpatialIndex.Proofs.Storage.Access

/-!
# Requests that abort

Whatever was requested of a storage before, a request aborts only for what its caller got wrong: it
breaks the rules of readers and writers, its query does not fit, an edit cursor is at its end, an
index is still in use, or the caller's own edit is aborted. The cursors that are held are read
without a failure, and no stack of a walk grows beyond its room.
-/
open SpatialIndex.Action (Ensures)

namespace SpatialIndex

open Record (Edit Layout)
open Storage (Use)

variable {α : Type}

/-- The cursors that are held. -/
def Holding.cursors : Holding α → List (Cursor α)
  | readers cursors => cursors
  | inserter _ => []
  | editor cursor => [cursor]

/-- Whether a fault is the failure of an internal check, and not of a rule of use. -/
def Fault.isInternal : Fault → Bool
  | dimensions _ | borderShape _ | borderRange _ | invalidBox _ _ | missingChild | missingItem
  | releasedTwice | releasedOccupied | staleBoxWalk | staleRayWalk | finishedWalk | itemPosition _
  | emptyRange _ _ | boundField | axis _ | fieldType _ _ | outsideRecord | recordLength
  | addressOverflow | staleKey | noCurrent | foreignCursor | countUnderflow => true
  | queryDimensions _ _ _ | queryType _ _ | readerDuringWriter | writerDuringReader
  | writerDuringWriter | deleteDuringWriter | clearDuringWriter | openCursors _ | advancedPastEnd
  | erasedPastEnd => false

/-- Whether a request opens a writer. -/
def Request.opensWriter : Request → Bool
  | call (.insert _) | call (.modify _ _) | openInserter | edit _ _ => true
  | _ => false

namespace Session

/-! ## The operation of a request -/

/-- What is held after an operation can be told by the operation or after it. -/
theorem perform_map {β : Type} (storage : Storage α) (operation : StorageOp α β)
    (done : β → Holding α) (failed : Holding α) :
    perform storage (done <$> operation) id failed = perform storage operation done failed := by
  unfold perform
  simp only [Functor.map, EStateM.map]
  cases operation storage <;> rfl

/-- An operation that does nothing leaves the storage as it is. -/
theorem perform_pure (storage : Storage α) (held failed : Holding α) :
    perform storage (pure held) id failed = ⟨storage, held⟩ := rfl

variable [Arithmetic α]

/-- The operation of a request, with what is held when it ends; a request that the holdings do not
admit does nothing. -/
def operation (session : Session α) (request : Request) : StorageOp α (Holding α) :=
  match session.held, request with
  | .readers [], .call call => (fun _ => .readers []) <$> call.run
  | .readers [], .openInserter => .inserter <$> Storage.openInserter
  | .readers [], .edit index query => .editor <$> Storage.edit index query
  | .readers cursors, .read index query =>
    (fun cursor => .readers (cursor :: cursors)) <$> Storage.read index query
  | .readers cursors, .copy position =>
    match cursors[position]? with
    | some cursor => (fun _ => .readers (cursor :: cursors)) <$> Storage.openRead cursor
    | none => pure (.readers cursors)
  | .readers cursors, .advance position =>
    match cursors[position]? with
    | some cursor =>
      (fun next => .readers (cursors.set position next)) <$>
        Storage.orAbort (session.storage.advanceRead cursor)
    | none => pure (.readers cursors)
  | .readers cursors, .close position =>
    match cursors[position]? with
    | some cursor => (fun _ => .readers (cursors.eraseIdx position)) <$> Storage.closeRead cursor
    | none => pure (.readers cursors)
  | .readers cursors, .leak position => pure (.readers (cursors.eraseIdx position))
  | .inserter inserter, .allocate => (fun handed => .inserter handed.2) <$> inserter.allocate
  | .inserter ⟨some key⟩, .fill edit =>
    (fun _ => .inserter ⟨some key⟩) <$> Storage.editRecord key edit
  | .inserter inserter, .drop => (fun _ => .readers []) <$> inserter.close
  | .inserter _, .forget => pure (.readers [])
  | .editor cursor, .change edit =>
    (fun _ => .editor cursor) <$> Storage.changeCurrent cursor edit
  | .editor cursor, .leave => .editor <$> Storage.advanceEdit cursor
  | .editor cursor, .erase => .editor <$> Storage.eraseEdit cursor
  | .editor cursor, .drop => (fun _ => .readers []) <$> Storage.closeEdit cursor
  | .editor _, .forget => pure (.readers [])
  | held, _ => pure held

/-- The fault for which a request aborts, if it does. -/
def fault? (session : Session α) (request : Request) : Option Fault :=
  match session.operation request session.storage with
  | .error (.aborted fault) _ => some fault
  | _ => none

/-- What is held when the operation of a request fails. -/
def remainder (session : Session α) (request : Request) : Holding α :=
  match session.held, request with
  | .readers cursors, .close position => .readers (cursors.eraseIdx position)
  | .inserter _, .drop => .readers []
  | .editor _, .drop => .readers []
  | held, _ => held

/-- A request is its operation. -/
theorem step_eq_perform (session : Session α) (request : Request) :
    session.step request =
      perform session.storage (session.operation request) id (session.remainder request) := by
  obtain ⟨storage, held⟩ := session
  cases held with
  | readers cursors =>
    cases request with
    | advance position =>
      unfold step operation
      cases found : cursors[position]? with
      | none => cases cursors <;> simp only [found] <;> rfl
      | some cursor =>
        cases went : storage.advanceRead cursor <;> cases cursors <;> simp only [found, went] <;>
          rfl
    | copy position | close position =>
      unfold step operation
      cases found : cursors[position]? with
      | none => cases cursors <;> simp only [found] <;> rfl
      | some cursor => cases cursors <;> simp only [found, perform_map] <;> rfl
    | _ => cases cursors <;> simp only [step, operation, perform_map, perform_pure] <;> rfl
  | inserter inserter =>
    obtain ⟨pending⟩ := inserter
    cases pending <;> cases request <;>
      simp only [step, operation, perform_map, perform_pure] <;> rfl
  | editor cursor =>
    cases request <;> simp only [step, operation, perform_map, perform_pure] <;> rfl

/-! ## What a request may abort for -/

/-- The record that a request edits by an edit of its caller. -/
def edited? (session : Session α) : Request → Option (Key × Edit)
  | .call (.modify key edit) => some (key, edit)
  | .fill edit =>
    match session.held with
    | .inserter ⟨some key⟩ => some (key, edit)
    | _ => none
  | .change edit =>
    match session.held with
    | .editor cursor =>
      match session.storage.current? cursor with
      | .ok (some key) => some (key, edit)
      | _ => none
    | _ => none
  | _ => none

/-- The faults of callers: what a request may abort for. -/
inductive Permitted (session : Session α) : Request → Fault → Prop
  /-- A reader opens while a writer is open. -/
  | reader {key : Key} {query : Query} : session.storage.writers ≠ 0 →
    Permitted session (.read key query) .readerDuringWriter
  /-- A writer opens while readers or another writer are open. -/
  | writer {request : Request} {fault : Fault} : request.opensWriter = true →
    session.storage.Busy (.aborted fault) → Permitted session request fault
  /-- The query of a cursor does not fit its index. -/
  | query {request : Request} {key : Key} {query : Query} {index : Index α} {fault : Fault} :
    request = .read key query ∨ request = .edit key query →
    session.storage.index? key = some index →
    query.Misfit index.numeric index.dimensions fault → Permitted session request fault
  /-- An edit cursor moves on after its end. -/
  | leave {cursor : Cursor α} : session.held = .editor cursor →
    session.storage.current? cursor = .ok none → Permitted session .leave .advancedPastEnd
  /-- A record is erased after the end of an edit cursor. -/
  | erase {cursor : Cursor α} : session.held = .editor cursor →
    session.storage.current? cursor = .ok none → Permitted session .erase .erasedPastEnd
  /-- An index is dropped while cursors use it. -/
  | drop {key : Key} {index : Index α} : session.storage.index? key = some index →
    index.cursors ≠ 0 → Permitted session (.call (.dropIndex key)) (.openCursors key)
  /-- A record is deleted while a writer is open. -/
  | delete {key : Key} : session.storage.writers ≠ 0 →
    Permitted session (.call (.delete key)) .deleteDuringWriter
  /-- The records are deleted while a writer is open. -/
  | clear : session.storage.writers ≠ 0 → Permitted session (.call .clear) .clearDuringWriter
  /-- The edit of the caller is aborted. -/
  | own {request : Request} {key : Key} {edit : Edit} {bytes edited : Record.Bytes}
    {fault : Fault} : session.edited? request = some (key, edit) →
    session.storage.records.get? key = some bytes →
    edit bytes = .error fault edited → Permitted session request fault

omit [Arithmetic α] in
/-- Only the edit of a caller may fail an internal check. -/
theorem Permitted.of_internal {session : Session α} {request : Request} {fault : Fault}
    (permitted : session.Permitted request fault) (internal : fault.isInternal = true) :
    ∃ key edit bytes edited, session.edited? request = some (key, edit) ∧
      session.storage.records.get? key = some bytes ∧ edit bytes = .error fault edited := by
  cases permitted with
  | own target found failed => exact ⟨_, _, _, _, target, found, failed⟩
  | writer _ busy => cases busy <;> cases internal
  | query _ _ misfit => cases misfit <;> cases internal
  | _ => cases internal

/-- How a request fails, with the storage after it. -/
inductive Fails (session : Session α) (request : Request) : Failure → Storage α → Prop
  /-- It is rejected, which is reported, or its caller got something wrong; nothing changes, and
  what was held is still held. -/
  | unharmed {failure : Failure} :
    (∀ fault, failure = .aborted fault → session.Permitted request fault) →
    session.remainder request = session.held →
    Fails session request failure (session.storage.failing failure)
  /-- The edit of the caller is carried out, and aborted. -/
  | own {key : Key} {edit : Edit} {bytes edited : Record.Bytes} {fault : Fault}
    {after : Storage α} : session.edited? request = some (key, edit) →
    (request.opensWriter = true → session.storage.readers = 0 ∧ session.storage.writers = 0) →
    session.storage.records.get? key = some bytes →
    edit bytes = .error fault edited → Fails session request (.aborted fault) after

omit [Arithmetic α] in
/-- What a request aborts for is permitted. -/
theorem Fails.permitted {session : Session α} {request : Request} {failure : Failure}
    {after : Storage α} (fails : session.Fails request failure after) {fault : Fault}
    (aborted : failure = .aborted fault) : session.Permitted request fault := by
  cases fails with
  | unharmed permitted _ => exact permitted fault aborted
  | own target _ found failed =>
    cases aborted
    exact .own target found failed

omit [Arithmetic α] in
/-- A request that is refused changes nothing. -/
theorem Fails.refused {session : Session α} {request : Request} {fault : Fault}
    (permitted : session.Permitted request fault)
    (still : session.remainder request = session.held) :
    session.Fails request (.aborted fault) session.storage := by
  have same : session.storage.failing (.aborted fault) = session.storage := rfl
  rw [← same]
  refine .unharmed (fun other aborted => ?_) still
  cases aborted
  exact permitted

omit [Arithmetic α] in
/-- A request that would open a writer, and finds the storage in use, changes nothing. -/
theorem Fails.busy {session : Session α} {request : Request} {failure : Failure}
    (opens : request.opensWriter = true) (busy : session.storage.Busy failure)
    (still : session.remainder request = session.held) :
    session.Fails request failure session.storage := by
  rw [← busy.failing]
  exact .unharmed (fun fault same => .writer opens (same ▸ busy)) still

omit [Arithmetic α] in
/-- A request that is rejected changes nothing but the journal. -/
theorem Fails.rejected {session : Session α} {request : Request} (rejection : Rejection)
    (still : session.remainder request = session.held) :
    session.Fails request (.rejected rejection)
      (session.storage.failing (.rejected rejection)) :=
  .unharmed (fun _ absurd => nomatch absurd) still

end Session

/-! ## Operations that fail in no other way -/

namespace Storage

variable {storage : Storage α}

/-- An operation that fails in some ways only. -/
def FailsOnly {β : Type} (storage : Storage α) (operation : StorageOp α β)
    (failed : Failure → Storage α → Prop) : Prop :=
  Ensures operation storage (fun _ _ => True) failed

section FailsOnly

variable {β : Type} {operation : StorageOp α β} {failed : Failure → Storage α → Prop}

/-- What is known of the failures of an operation bounds the ways in which it fails. -/
theorem FailsOnly.of_ensures {done : β → Storage α → Prop}
    {otherwise : Failure → Storage α → Prop} (ensured : Ensures operation storage done otherwise)
    (fails : ∀ failure after, otherwise failure after → failed failure after) :
    storage.FailsOnly operation failed :=
  ensured.imp (fun _ _ _ => trivial) fails

/-- An operation that cannot fail. -/
theorem FailsOnly.of_ends {done : β → Storage α → Prop}
    (ensured : Ensures operation storage done fun _ _ => False) :
    storage.FailsOnly operation failed :=
  .of_ensures ensured fun _ _ => False.elim

/-- Doing nothing does not fail. -/
theorem FailsOnly.of_pure (value : β) : storage.FailsOnly (pure value) failed := trivial

/-- Changing the value of an operation adds no way to fail. -/
theorem FailsOnly.map {γ : Type} (only : storage.FailsOnly operation failed)
    (change : β → γ) : storage.FailsOnly (change <$> operation) failed :=
  (Action.ensures_map _ _).mpr only

/-- Dropping the value of an operation adds no way to fail. -/
theorem FailsOnly.discard (only : storage.FailsOnly operation failed) :
    storage.FailsOnly (discard operation) failed :=
  (Action.ensures_discard _ _).mpr only

end FailsOnly

variable [Arithmetic α]

/-- What an index shows of a storage is in its tree and has records. -/
theorem Upkept.tree {own : Key} {member : Member α} (upkept : storage.Upkept)
    (found : storage.indices.get? own = some member) :
    ∃ shown, member.index.tree.Keeps storage.layout.size shown ∧
      World.Search.Backed storage.layout.size shown storage.records := by
  obtain ⟨views, keeps, backed⟩ := upkept
  exact ⟨_, (keeps.shown found).tree, backed_visible (backed own) _⟩

/-- An index that is there refuses only a query that does not fit it. -/
theorem Upkept.misfit {own : Key} {query : Query} {fault : Fault} (upkept : storage.Upkept)
    (astray : storage.Astray own query (.aborted fault)) :
    ∃ index, storage.index? own = some index ∧
      query.Misfit index.numeric index.dimensions fault := by
  cases astray with
  | @refused member _ found failed =>
    obtain ⟨shown, keeps, live⟩ := upkept.tree found
    exact ⟨member.index, Option.map_eq_some_iff.mpr ⟨member, found, rfl⟩,
      Query.start_misfit keeps live failed⟩

end Storage

namespace Session

open Storage (FailsOnly)

variable [Arithmetic α]

/-- Whether the read cursors that are held stand in the trees of their indices, and the frames of
an edit cursor have passed one another. -/
def Placing (session : Session α) : Prop :=
  match session.held with
  | .readers cursors => ∀ cursor ∈ cursors, session.storage.Placed cursor
  | .inserter _ => True
  | .editor cursor => cursor.search.walk.Aligned

/-- What a run keeps of a session: it is sound and counted, and its cursors are placed. -/
structure Kept (config : Config) (lost : List Use) (session : Session α) : Prop where
  /-- The storage is in step but for what its holder is about. -/
  sound : session.Sound
  /-- The counts are those of what is held or lost. -/
  counted : session.Counted config lost
  /-- Every cursor that is held is placed. -/
  placed : session.Placing

section Requests

variable {storage : Storage α} {config : Config} {lost : List Use}

/-- A call fails before it changes anything, but in the edit of its caller. -/
theorem Fails.call (rounding : Rounding α) (converts : rounding.Converts)
    (usable : storage.config.Usable α) (resting : storage.Resting) (cursors : List (Cursor α))
    (call : Call) :
    storage.FailsOnly call.run (Fails ⟨storage, .readers cursors⟩ (.call call)) := by
  cases call with
  | createIndex specs =>
    obtain ⟨views, keeps, -⟩ := resting.upkept
    refine (FailsOnly.of_ensures (keeps.createIndex specs) ?_).discard
    rintro failure after ⟨uncreatable, -, -, untouched⟩
    obtain ⟨rejection, rfl⟩ :=
      uncreatable.exists_rejection rounding converts usable keeps.sound
    exact untouched rejection rfl ▸ .rejected rejection rfl
  | dropIndex key =>
    refine FailsOnly.of_ensures (storage.dropIndex_spec key) ?_
    rintro failure _ ⟨rfl, undroppable⟩
    cases undroppable with
    | unknown absent => exact .rejected _ rfl
    | @used member found used =>
      exact .refused (.drop (Option.map_eq_some_iff.mpr ⟨member, found, rfl⟩) used) rfl
  | insert bytes =>
    refine (FailsOnly.of_ensures (Storage.insertRecord_spec resting.inStep bytes) ?_).discard
    rintro failure _ ⟨rfl, ⟨-, rejection, rfl⟩ | busy⟩
    · exact .rejected rejection rfl
    · exact busy.failing.symm ▸ .busy rfl busy rfl
  | modify key edit =>
    refine (FailsOnly.of_ensures (Storage.modifyRecord_spec resting.inStep key edit) ?_).discard
    rintro failure after
      (⟨rfl, busy⟩ | ⟨bytes, broken, edited, unread, unwritten, found, failed, rfl, -⟩)
    · exact .busy rfl busy rfl
    · exact .own rfl (fun _ => ⟨unread, unwritten⟩) found failed
  | delete key =>
    refine (FailsOnly.of_ensures (Storage.deleteRecord_spec resting.inStep key) ?_).discard
    rintro failure _ ⟨rfl, writing, rfl⟩
    exact .refused (.delete writing) rfl
  | clear =>
    refine FailsOnly.of_ensures (Storage.clear_spec resting.inStep) ?_
    rintro failure _ ⟨rfl, writing, rfl⟩
    exact .refused (.clear writing) rfl

/-- A lookup of a query fails before it changes anything. -/
theorem Fails.lookup (upkept : storage.Upkept) {request : Request} {key : Key} {query : Query}
    {cursors : List (Cursor α)} (asks : request = .read key query ∨ request = .edit key query)
    {failure : Failure} (astray : storage.Astray key query failure) :
    Fails ⟨storage, .readers cursors⟩ request failure (storage.failing failure) := by
  refine .unharmed ?_ (by rcases asks with rfl | rfl <;> rfl)
  rintro fault rfl
  obtain ⟨found, there, misfit⟩ := upkept.misfit astray
  exact .query asks there misfit

/-- A request to a storage that is free or read fails before it changes anything, but in the edit
of its caller. -/
theorem Kept.fails_readers (rounding : Rounding α) (converts : rounding.Converts)
    (usable : config.Usable α) {cursors : List (Cursor α)}
    (kept : Kept config lost ⟨storage, .readers cursors⟩) (request : Request) :
    storage.FailsOnly (operation ⟨storage, .readers cursors⟩ request)
      (Fails ⟨storage, .readers cursors⟩ request) := by
  have resting : storage.Resting := kept.sound
  have settings : storage.config = config := congrArg Storage.Account.config kept.counted.account
  cases request with
  | call call =>
    cases cursors with
    | nil => exact (Fails.call rounding converts (settings ▸ usable) resting _ call).map _
    | cons cursor rest => exact .of_pure _
  | openInserter =>
    cases cursors with
    | nil =>
      refine (FailsOnly.of_ensures (Storage.openInserter_spec resting.inStep) ?_).map _
      rintro failure _ ⟨rfl, busy⟩
      exact .busy rfl busy rfl
    | cons cursor rest => exact .of_pure _
  | edit index query =>
    cases cursors with
    | nil =>
      refine (FailsOnly.of_ensures (Storage.edit_spec resting.inStep index query) ?_).map _
      rintro failure _ ⟨rfl, astray | busy⟩
      · exact .lookup resting.upkept (.inr rfl) astray
      · exact busy.failing.symm ▸ .busy rfl busy rfl
    | cons cursor rest => exact .of_pure _
  | read index query =>
    have reads : storage.FailsOnly ((fun cursor => Holding.readers (cursor :: cursors)) <$>
        Storage.read index query) (Fails ⟨storage, .readers cursors⟩ (.read index query)) := by
      refine (FailsOnly.of_ensures (storage.read_spec index query) ?_).map _
      rintro failure _ ⟨rfl, astray | ⟨writing, rfl⟩⟩
      · exact .lookup resting.upkept (.inl rfl) astray
      · exact .refused (.reader writing) rfl
    cases cursors <;> exact reads
  | copy position =>
    unfold operation
    cases found : cursors[position]? with
    | none => cases cursors <;> simp only [found] <;> exact .of_pure _
    | some cursor =>
      obtain ⟨⟨member, there, -⟩, idle, -⟩ := kept.counted.stands (List.mem_of_getElem? found)
      have copies : storage.FailsOnly ((fun _ => Holding.readers (cursor :: cursors)) <$>
          Storage.openRead cursor) (Fails ⟨storage, .readers cursors⟩ (.copy position)) :=
        (FailsOnly.of_ends (Storage.openRead_opens there idle)).map _
      cases cursors <;> simp only [found] <;> exact copies
  | advance position =>
    unfold operation
    cases found : cursors[position]? with
    | none => cases cursors <;> simp only [found] <;> exact .of_pure _
    | some cursor =>
      have member := List.mem_of_getElem? found
      obtain ⟨-, idle, -⟩ := kept.counted.stands member
      have placed : storage.Placed cursor := kept.placed cursor member
      obtain ⟨next, went, -⟩ := placed.advanceRead (resting.inStep idle)
      have advances : storage.FailsOnly
          ((fun next => Holding.readers (cursors.set position next)) <$>
            Storage.orAbort (storage.advanceRead cursor))
          (Fails ⟨storage, .readers cursors⟩ (.advance position)) := by
        rw [went]
        exact .of_pure _
      cases cursors <;> simp only [found] <;> exact advances
  | close position =>
    unfold operation
    cases found : cursors[position]? with
    | none => cases cursors <;> simp only [found] <;> exact .of_pure _
    | some cursor =>
      obtain ⟨⟨member, there, used⟩, -, reading⟩ :=
        kept.counted.stands (List.mem_of_getElem? found)
      have closes : storage.FailsOnly ((fun _ => Holding.readers (cursors.eraseIdx position)) <$>
          Storage.closeRead cursor) (Fails ⟨storage, .readers cursors⟩ (.close position)) :=
        (FailsOnly.of_ends (Storage.closeRead_closes there used reading)).map _
      cases cursors <;> simp only [found] <;> exact closes
  | _ => cases cursors <;> exact .of_pure _

/-- A request to an inserter fails only in the edit of its caller. -/
theorem Fails.inserter {inserter : Storage.Inserter} (filling : storage.Filling inserter)
    (request : Request) :
    storage.FailsOnly (operation ⟨storage, .inserter inserter⟩ request)
      (Fails ⟨storage, .inserter inserter⟩ request) := by
  cases request with
  | allocate => exact (FailsOnly.of_ends filling.allocate).map _
  | fill edit =>
    obtain ⟨pending⟩ := inserter
    cases pending with
    | none => exact .of_pure _
    | some key =>
      obtain ⟨bytes, found⟩ := filling.live key rfl
      refine (FailsOnly.of_ensures (Storage.editRecord_spec found edit) ?_).map _
      rintro failure after ⟨broken, edited, failed, rfl, -⟩
      exact .own rfl (fun absurd => nomatch absurd) found failed
  | drop => exact (FailsOnly.of_ends filling.close).map _
  | _ => exact .of_pure _

/-- A request to an edit cursor fails only at its end, before it changes anything, or in the edit
of its caller. -/
theorem Fails.editor {own : Key} {member : Storage.Member α}
    {search : World.Search α member.index.dimensions}
    {place : Option (Partition.Address member.index.dimensions)} {current : Option Key}
    (visiting : storage.Visiting own member search place current) (request : Request) :
    storage.FailsOnly (operation ⟨storage, .editor (member.cursor own search)⟩ request)
      (Fails ⟨storage, .editor (member.cursor own search)⟩ request) := by
  have facing : storage.current? (member.cursor own search) = .ok current :=
    visiting.editing.current?_eq visiting.faces
  cases request with
  | change edit =>
    cases current with
    | none => exact (FailsOnly.of_ends (visiting.changeCurrent_over edit)).map _
    | some key =>
      obtain ⟨bytes, found⟩ := visiting.present key rfl
      refine (FailsOnly.of_ensures (visiting.changeCurrent found edit) ?_).map _
      rintro failure after ⟨-, broken, edited, failed, rfl⟩
      have target : edited? ⟨storage, .editor (member.cursor own search)⟩ (.change edit) =
          some (key, edit) := by
        unfold edited?
        simp only [facing]
      exact .own target (fun absurd => nomatch absurd) found failed
  | leave =>
    cases current with
    | none =>
      refine (FailsOnly.of_ensures visiting.advanceEdit_over ?_).map _
      rintro failure _ ⟨rfl, rfl⟩
      exact .refused (.leave rfl facing) rfl
    | some key => exact (FailsOnly.of_ends visiting.advanceEdit).map _
  | erase =>
    cases current with
    | none =>
      refine (FailsOnly.of_ensures visiting.eraseEdit_over ?_).map _
      rintro failure _ ⟨rfl, rfl⟩
      exact .refused (.erase rfl facing) rfl
    | some key => exact (FailsOnly.of_ends visiting.eraseEdit).map _
  | drop => exact (FailsOnly.of_ends visiting.closeEdit).map _
  | _ => exact .of_pure _

/-- Every request fails before it changes anything, but in the edit of its caller. -/
theorem Kept.fails (rounding : Rounding α) (converts : rounding.Converts)
    (usable : config.Usable α) {session : Session α} (kept : session.Kept config lost)
    (request : Request) :
    session.storage.FailsOnly (session.operation request) (session.Fails request) := by
  obtain ⟨storage, held⟩ := session
  cases held with
  | readers cursors => exact kept.fails_readers rounding converts usable request
  | inserter inserter => exact Fails.inserter kept.sound request
  | editor cursor =>
    obtain ⟨own, member, search, place, current, rfl, visiting⟩ := kept.sound
    exact Fails.editor visiting request

end Requests

/-! ## What a run keeps -/

section Steps

variable {storage : Storage α}

/-- What is held when nothing is read has no read cursor to place. -/
theorem placing_free : Placing (⟨storage, .readers []⟩ : Session α) :=
  fun _ absurd => by cases absurd

/-- An operation leaves the cursors placed when what is held then is placed whatever comes of it. -/
theorem placing_perform {β : Type} {operation : StorageOp α β} {done : β → Holding α}
    {failed : Holding α} (ends : ∀ value after, Placing ⟨after, done value⟩)
    (fails : ∀ after, Placing ⟨after, failed⟩) :
    (perform storage operation done failed).Placing := by
  unfold perform
  split
  · exact ends _ _
  · exact fails _

/-- A cursor that starts is placed. -/
theorem placed_of_start {own : Key} {query : Query} {member : Storage.Member α}
    {search : World.Search α member.index.dimensions} (inStep : storage.InStep)
    (found : storage.indices.get? own = some member)
    (started : query.start member.index.tree storage.records = .ok search) :
    storage.Placed (member.cursor own search) := by
  obtain ⟨place, settled⟩ := Storage.start_settled (inStep.tree found) inStep.live started
  exact ⟨own, member, search, place, rfl, found, settled, Query.aligned_start started⟩

/-- A request to a storage that is free or read leaves the cursors placed. -/
theorem Kept.placing_readers {config : Config} {lost : List Use} {cursors : List (Cursor α)}
    (kept : Kept config lost ⟨storage, .readers cursors⟩) (request : Request) :
    (step ⟨storage, .readers cursors⟩ request).Placing := by
  have resting : storage.Resting := kept.sound
  have placed : ∀ cursor ∈ cursors, storage.Placed cursor := kept.placed
  have part (position : Nat) : ∀ cursor ∈ cursors.eraseIdx position, storage.Placed cursor :=
    fun cursor member => placed cursor (List.mem_of_mem_eraseIdx member)
  cases request with
  | call call =>
    cases cursors with
    | nil => exact placing_perform (fun _ _ => placing_free) fun _ => placing_free
    | cons cursor rest => exact placed
  | openInserter =>
    cases cursors with
    | nil => exact placing_perform (fun _ _ => trivial) fun _ => placing_free
    | cons cursor rest => exact placed
  | edit index query =>
    cases cursors with
    | nil =>
      refine perform_of_ensures (Storage.edit_spec resting.inStep index query) ?_
        fun _ _ _ => placing_free
      rintro _ after ⟨member, search, place, current, starts, rfl, -⟩
      exact Query.aligned_start starts.2
    | cons cursor rest => exact placed
  | read index query =>
    have reads : Placing (perform storage (Storage.read index query)
        (fun cursor => .readers (cursor :: cursors)) (.readers cursors)) := by
      refine perform_of_ensures (storage.read_spec index query) ?_ ?_
      · rintro _ after ⟨idle, member, search, found, started, rfl, rfl⟩
        have first := placed_of_start (resting.inStep idle) found started
        have counts : storage.Recounted (storage.recount index member (storage.readers + 1)
          (member.index.cursors + 1)) := .cursors found _ _
        intro cursor held
        rcases List.mem_cons.mp held with rfl | earlier
        · exact first.recounted counts
        · exact (placed cursor earlier).recounted counts
      · rintro _ after ⟨rest, -⟩ cursor held
        rw [rest]
        exact (placed cursor held).congr rfl fun {_ member} found => ⟨member.index.cursors, found⟩
    cases cursors <;> exact reads
  | copy position =>
    have copies {cursor : Cursor α} (found : cursors[position]? = some cursor) :
        Placing (perform storage (Storage.openRead cursor)
          (fun _ => .readers (cursor :: cursors)) (.readers cursors)) := by
      refine perform_of_ensures (storage.openRead_spec cursor) ?_ ?_
      · rintro - after ⟨-, counts⟩ other held
        rcases List.mem_cons.mp held with rfl | earlier
        · exact (placed other (List.mem_of_getElem? found)).recounted counts
        · exact (placed other earlier).recounted counts
      · exact fun _ after counts other held => (placed other held).recounted counts
    unfold step
    cases found : cursors[position]? with
    | none => cases cursors <;> simp only [found] <;> exact placed
    | some cursor => cases cursors <;> simp only [found] <;> exact copies found
  | advance position =>
    unfold step
    cases found : cursors[position]? with
    | none => cases cursors <;> simp only [found] <;> exact placed
    | some cursor =>
      have member := List.mem_of_getElem? found
      obtain ⟨-, idle, -⟩ := kept.counted.stands member
      obtain ⟨next, went, there⟩ := (placed cursor member).advanceRead (resting.inStep idle)
      have moved : ∀ other ∈ cursors.set position next, storage.Placed other := by
        intro other held
        rcases List.mem_or_eq_of_mem_set held with earlier | rfl
        · exact placed other earlier
        · exact there
      cases cursors <;> simp only [found, went] <;> exact moved
  | close position =>
    have closes (cursor : Cursor α) : Placing (perform storage (Storage.closeRead cursor)
        (fun _ => .readers (cursors.eraseIdx position))
        (.readers (cursors.eraseIdx position))) :=
      perform_of_ensures (storage.closeRead_spec cursor)
        (fun _ _ counts other held => (part position other held).recounted counts)
        fun _ _ counts other held => (part position other held).recounted counts
    unfold step
    cases found : cursors[position]? with
    | none => cases cursors <;> simp only [found] <;> exact placed
    | some cursor => cases cursors <;> simp only [found] <;> exact closes cursor
  | leak position => cases cursors <;> exact part position
  | _ => cases cursors <;> exact placed

/-- A request to an inserter leaves no cursor to place. -/
theorem placing_inserter (inserter : Storage.Inserter) (request : Request) :
    (step ⟨storage, .inserter inserter⟩ request).Placing := by
  obtain ⟨pending⟩ := inserter
  cases request with
  | fill edit =>
    cases pending with
    | none => exact trivial
    | some key => exact placing_perform (fun _ _ => trivial) fun _ => trivial
  | allocate => exact placing_perform (fun _ _ => trivial) fun _ => trivial
  | drop => exact placing_perform (fun _ _ => placing_free) fun _ => placing_free
  | forget => exact placing_free
  | _ => exact trivial

/-- A request to an edit cursor leaves it placed. -/
theorem placing_editor {cursor : Cursor α} (aligned : cursor.search.walk.Aligned)
    (request : Request) : (step ⟨storage, .editor cursor⟩ request).Placing := by
  have goes {operation : StorageOp α (Cursor α)}
      (becomes : Ensures operation storage (fun next _ => cursor.Becomes next) fun _ _ => True) :
      (perform storage operation .editor (.editor cursor)).Placing :=
    perform_of_ensures becomes (fun _ _ next => next.aligned aligned) fun _ _ _ => aligned
  cases request with
  | change edit => exact placing_perform (fun _ _ => aligned) fun _ => aligned
  | leave => exact goes (Storage.advanceEdit_becomes storage cursor)
  | erase => exact goes (Storage.eraseEdit_becomes storage cursor)
  | drop => exact placing_perform (fun _ _ => placing_free) fun _ => placing_free
  | forget => exact placing_free
  | _ => exact aligned

end Steps

/-- A request leaves the cursors placed. -/
theorem Kept.placing {session : Session α} {config : Config} {lost : List Use}
    (kept : session.Kept config lost) (request : Request) : (session.step request).Placing := by
  obtain ⟨storage, held⟩ := session
  cases held with
  | readers cursors => exact kept.placing_readers request
  | inserter inserter => exact placing_inserter inserter request
  | editor cursor => exact placing_editor kept.placed request

/-- Every request keeps what a run keeps. -/
theorem Kept.step {session : Session α} {config : Config} {lost : List Use}
    (kept : session.Kept config lost) (request : Request) :
    (session.step request).Kept config (lost ++ session.loses request) :=
  ⟨kept.sound.step request, kept.counted.step kept.sound request, kept.placing request⟩

/-- Every run keeps what a run keeps. -/
theorem Kept.run {session : Session α} {config : Config} {lost : List Use}
    (kept : session.Kept config lost) (requests : List Request) :
    (session.run requests).Kept config (lost ++ session.losses requests) := by
  induction requests generalizing session lost with
  | nil =>
    rw [losses, List.append_nil]
    exact kept
  | cons request rest ih =>
    rw [losses, ← List.append_assoc]
    exact ih (kept.step request)

/-- A new storage has what a run keeps. -/
theorem start_kept {spec : Record.LayoutSpec} {layout : Layout}
    (computed : Layout.ofSpec spec = .ok layout) (config : Config) (journal : Journal) :
    (start layout config journal : Session α).Kept config [] :=
  ⟨start_sound computed config journal, start_counted layout config journal, placing_free⟩

/-! ## Safety -/

/-- What the trees of a session show has records, whoever holds the storage. -/
theorem Sound.upkept {session : Session α} (sound : session.Sound) : session.storage.Upkept := by
  obtain ⟨storage, held⟩ := session
  cases held with
  | readers cursors => exact Storage.Resting.upkept sound
  | inserter inserter => exact Storage.Filling.upkept sound
  | editor cursor =>
    obtain ⟨own, member, search, place, current, -, visiting⟩ := sound
    exact visiting.editing.upkept

/-- A session in which nothing goes wrong but what callers get wrong. -/
structure Safe (session : Session α) : Prop where
  /-- A request is its operation. -/
  performs : ∀ request, session.step request =
    perform session.storage (session.operation request) id (session.remainder request)
  /-- A request aborts only for a fault of its caller. -/
  faults : ∀ request fault, session.fault? request = some fault → session.Permitted request fault
  /-- No request fails an internal check, but in the edit of its caller. -/
  internal : ∀ request fault, session.fault? request = some fault → fault.isInternal = true →
    ∃ key edit bytes edited, session.edited? request = some (key, edit) ∧
      session.storage.records.get? key = some bytes ∧ edit bytes = .error fault edited
  /-- The current record of every cursor that is held can be read. -/
  reads : ∀ cursor ∈ session.held.cursors,
    (∃ current, session.storage.current? cursor = .ok current) ∧
      ∃ bytes, session.storage.currentBytes? cursor = .ok bytes
  /-- Every read cursor that is held meets the rest of its records. -/
  rests : ∀ cursors, session.held = .readers cursors → ∀ cursor ∈ cursors,
    ∃ result, session.storage.rest cursor = .ok result
  /-- All walks that start in an index rely on what is there and have room on their stacks. -/
  trees : ∀ key index, session.storage.index? key = some index → index.tree.partition.Firm α
  /-- So does the walk of every cursor that is held, in the tree of the cursor. -/
  walks : ∀ cursor ∈ session.held.cursors, ∃ tree, session.storage.cursorTree cursor = .ok tree ∧
    cursor.search.walk.Firm tree.partition
  /-- The observed fields fit a mask, and every field that an index observes has a user. -/
  fields : session.storage.registry.length ≤ Limits.observedFields ∧
    ∀ key member, session.storage.indices.get? key = some member → ∀ i,
      member.mask.getLsbD i = true → 0 < session.storage.registry.users i

section Safety

variable {session : Session α} {config : Config} {lost : List Use}

/-- A cursor that is held can be read, and its walk is firm. -/
theorem Kept.holds (kept : session.Kept config lost) {cursor : Cursor α}
    (held : cursor ∈ session.held.cursors) :
    ((∃ current, session.storage.current? cursor = .ok current) ∧
        ∃ bytes, session.storage.currentBytes? cursor = .ok bytes) ∧
      ∃ tree, session.storage.cursorTree cursor = .ok tree ∧
        cursor.search.walk.Firm tree.partition := by
  obtain ⟨storage, holding⟩ := session
  cases holding with
  | readers cursors =>
    obtain ⟨-, idle, -⟩ := kept.counted.stands held
    have inStep := Storage.Resting.inStep kept.sound idle
    have placed : storage.Placed cursor := kept.placed cursor held
    obtain ⟨current, now, -⟩ := placed.current? inStep
    refine ⟨⟨⟨current, now⟩, placed.currentBytes? inStep⟩, ?_⟩
    obtain ⟨own, member, search, place, rfl, found, settled, aligned⟩ := placed
    exact ⟨_, Storage.cursorTree_eq found search,
      settled.stands.firm (inStep.tree found).places.sound aligned⟩
  | inserter inserter => cases held
  | editor editor =>
    obtain ⟨own, member, search, place, current, rfl, visiting⟩ := kept.sound
    obtain rfl := List.mem_singleton.mp held
    have now := visiting.editing.current?_eq visiting.faces
    refine ⟨⟨⟨current, now⟩, ?_⟩, _, Storage.cursorTree_eq visiting.editing.found search,
      visiting.faces.stands.firm visiting.editing.tree.places.sound kept.placed⟩
    unfold Storage.currentBytes?
    rw [now]
    cases current with
    | none => exact ⟨none, rfl⟩
    | some key =>
      obtain ⟨bytes, found⟩ := visiting.present key rfl
      refine ⟨some bytes, ?_⟩
      simp only [bind, Except.bind, found]
      rfl

/-- The observed fields of a storage fit a mask, and those of its indices have users. -/
theorem observed_used {storage : Storage α} (upkept : storage.Upkept) :
    storage.registry.length ≤ Limits.observedFields ∧
      ∀ key member, storage.indices.get? key = some member → ∀ i,
        member.mask.getLsbD i = true → 0 < storage.registry.users i := by
  obtain ⟨views, keeps, -⟩ := upkept
  refine ⟨keeps.served.short, fun key member found i named => ?_⟩
  have entry : (key, member) ∈ storage.indices.entries := (Pool.mem_entries _ _ _).mpr found
  have inside : (member.mask, member.index.fields) ∈ storage.members :=
    List.mem_map.mpr ⟨member, List.mem_map.mpr ⟨_, entry, rfl⟩, rfl⟩
  exact keeps.served.used inside named

/-- A session with what a run keeps is safe. -/
theorem Kept.safe (rounding : Rounding α) (converts : rounding.Converts)
    (usable : config.Usable α) (kept : session.Kept config lost) : session.Safe := by
  have permits {request : Request} {fault : Fault} (failed : session.fault? request = some fault) :
      session.Permitted request fault := by
    have only := kept.fails rounding converts usable request
    unfold Storage.FailsOnly Ensures at only
    unfold fault? at failed
    split at failed
    · rename_i ran
      cases failed
      rw [ran] at only
      exact only.permitted rfl
    · cases failed
  refine ⟨session.step_eq_perform, fun _ _ => permits,
    fun _ _ failed internal => (permits failed).of_internal internal,
    fun cursor held => (kept.holds held).1, ?_, ?_,
    fun cursor held => (kept.holds held).2, observed_used kept.sound.upkept⟩
  · intro cursors holding cursor held
    obtain ⟨storage, _⟩ := session
    subst holding
    obtain ⟨-, idle, -⟩ := kept.counted.stands held
    have placed : storage.Placed cursor := kept.placed cursor held
    exact placed.rest (Storage.Resting.inStep kept.sound idle)
  · intro key index there
    obtain ⟨member, found, rfl⟩ := Option.map_eq_some_iff.mp there
    obtain ⟨shown, keeps, -⟩ := kept.sound.upkept.tree found
    exact keeps.places.sound.firm α

end Safety

/-- After every run of every storage, a request aborts only for what its caller got wrong, whatever
is held can be read, and no walk loses its way or its room, in an arithmetic to which coordinates
are rounded. -/
theorem safe_of_run (rounding : Rounding α) (converts : rounding.Converts)
    {spec : Record.LayoutSpec} {layout : Layout} (computed : Layout.ofSpec spec = .ok layout)
    {config : Config} (usable : config.Usable α) (journal : Journal) (requests : List Request) :
    ((start layout config journal : Session α).run requests).Safe :=
  ((start_kept computed config journal).run requests).safe rounding converts usable

namespace Sample

/-- A new storage with exact arithmetic. -/
def precise : Session Exact := start layout .standard journal

/-- The standard settings are usable in exact arithmetic. -/
theorem standard_usable : Config.standard.Usable Exact := by
  constructor
  · decide +kernel
  · decide +kernel

end Sample

/-- A query of another count of axes aborts while a leaked cursor is counted, and a deletion of all
records aborts once a modification broke off. -/
theorem safe_after_losses :
    ((Sample.precise.run Sample.leaks).Safe ∧
      (Sample.precise.run Sample.leaks).fault? (.read ⟨1, 0⟩ (.shape [])) =
        some (.queryDimensions false 0 1)) ∧
    (Sample.precise.run Sample.breaks).Safe ∧
      (Sample.precise.run Sample.breaks).fault? (.call .clear) = some .clearDuringWriter :=
  ⟨⟨safe_of_run Exact.rounding Exact.rounding_converts Sample.layout_computed
      Sample.standard_usable Sample.journal Sample.leaks, by decide +kernel⟩,
    safe_of_run Exact.rounding Exact.rounding_converts Sample.layout_computed
      Sample.standard_usable Sample.journal Sample.breaks, by decide +kernel⟩

end Session

end SpatialIndex
