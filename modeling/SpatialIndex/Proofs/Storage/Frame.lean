import SpatialIndex.Proofs.Storage.Upkeep
import SpatialIndex.Storage.Cursor

/-!
# What operations leave alone

Most operations change records, trees and queues, and report. A measure of a storage that sees none
of these is the same after such an operation as before it, whether it ends well or fails. A measure
that sees no counts either stays through all operations but the creation and the drop of an index.
-/
open SpatialIndex.Action (Ensures Steady)

namespace SpatialIndex

open Record (Bytes Edit)

variable {α β ι κ : Type}

/-! ## Readings of indices -/

namespace Index

/-- A reading of the index, when an action runs on an index and on the journal. -/
def sees (seen : Index α → ι) (state : Index α × Journal) : ι := seen state.1

/-- A reading of indices that sees neither the tree nor the queue. -/
structure Blind (seen : Index α → ι) : Prop where
  /-- The tree is not seen. -/
  tree : ∀ index {D : Nat} (tree : World.Tree α D), seen (index.withTree tree) = seen index
  /-- The queue is not seen. -/
  queue : ∀ index queue, seen { index with queue } = seen index

namespace Blind

variable {seen : Index α → ι}

/-- What is done to the tree of an index is not seen. -/
theorem onTree (blind : Blind seen) (action : (D : Nat) → Action (World.Tree α D × Journal) β) :
    Steady (sees seen) (Index.onTree action) := by
  rintro ⟨index, journal⟩
  rw [ensures_onTree]
  unfold Ensures
  cases action index.dimensions (index.tree, journal) <;> exact blind.tree index _

/-- A change that is not seen. -/
theorem modify {change : Index α → Index α} (same : ∀ index, seen (change index) = seen index) :
    Steady (sees seen)
      (modify fun (index, journal) => (change index, journal) :
        Action (Index α × Journal) PUnit) :=
  .modify fun state => same state.1

/-- Clearing an index is not seen: it touches the tree and the queue. -/
theorem clear (blind : Blind seen) (index : Index α) : seen index.clear = seen index :=
  (blind.queue (index.withTree index.tree.clear) []).trans (blind.tree index _)

variable [Arithmetic α]

/-- Putting a record back into the tree of its index is not seen. -/
theorem putBack (blind : Blind seen) (records : Pool Bytes) (key : Key) :
    Steady (sees seen)
      (Index.putBack records key : Action (Index α × Journal) Unit) := by
  unfold Index.putBack
  split
  · exact blind.onTree _
  · exact .pure _

/-- Settling the queue of an index is not seen. -/
theorem settle (blind : Blind seen) (records : Pool Bytes) :
    Steady (sees seen)
      (Index.settle records : Action (Index α × Journal) Unit) := by
  refine .get_bind fun ⟨index, journal⟩ => ?_
  dsimp only
  split
  · rfl
  · rw [Action.ensures_bind, Action.ensures_set]
    have puts : Steady (sees seen)
        (index.queue.forM (Index.putBack records) : Action (Index α × Journal) Unit) :=
      .forM fun key _ => blind.putBack records key
    exact puts.after (blind.queue index [])

end Blind

end Index

/-! ## Measures of storages -/

namespace Storage

variable {measure : Storage α → κ} {seen : Index α → ι}

/-- A result computed from the storage changes nothing of it. -/
theorem steady_orAbort (result : Except Fault β) :
    Steady measure (orAbort result : StorageOp α β) := .ofExcept _

/-- An abort changes nothing. -/
theorem steady_abort (fault : Fault) :
    Steady measure (abort fault : StorageOp α β) := .throw _

/-- Reading a record changes nothing. -/
theorem steady_record (key : Key) :
    Steady measure (record key : StorageOp α Bytes) := by
  refine .get_bind fun storage => ?_
  split
  · rfl
  · exact steady_abort _ storage

/-- A measure of storages that sees no records, no reports, and of an index that is there no more
than a reading of it. -/
structure Blind (measure : Storage α → κ) (seen : Index α → ι) : Prop where
  /-- The records are not seen. -/
  records : ∀ (storage : Storage α) records, measure { storage with records } = measure storage
  /-- The backup is not seen. -/
  backup : ∀ (storage : Storage α) backup, measure { storage with backup } = measure storage
  /-- The journal is not seen. -/
  journal : ∀ (storage : Storage α) journal, measure { storage with journal } = measure storage
  /-- Of an index no tree and no queue is seen. -/
  reading : Index.Blind seen
  /-- An index can be exchanged for one of the same reading. -/
  index : ∀ {storage : Storage α} {key member index}, storage.indices.get? key = some member →
    seen index = seen member.index →
    measure { storage with indices := storage.indices.set key { member with index } } =
      measure storage

namespace Blind

/-- A report goes to the journal only. -/
theorem report (blind : Blind measure seen) (severity : Severity) (message : String) :
    Steady measure (Storage.report severity message : StorageOp α Unit) :=
  .modify fun storage => blind.journal storage _

/-- A rejection goes to the journal and ends the operation. -/
theorem reject (blind : Blind measure seen) (rejection : Rejection) :
    Steady measure (Storage.reject rejection : StorageOp α β) :=
  (Steady.modify fun storage => blind.journal storage _).bind fun _ => .throw _

/-- What leaves the reading of an index alone leaves the measure of its storage alone. -/
theorem onIndex (blind : Blind measure seen) (key : Key) {action : Action (Index α × Journal) β}
    (steady : Steady (Index.sees seen) action) :
    Steady measure (Storage.onIndex key action) := by
  intro storage
  cases found : storage.indices.get? key with
  | none =>
    unfold Ensures Storage.onIndex
    rw [found]
  | some member =>
    have same {index : Index α} {journal : Journal} (kept : seen index = seen member.index) :
        measure { storage with indices := storage.indices.set key { member with index }, journal } =
          measure storage :=
      (blind.journal { storage with indices := storage.indices.set key { member with index } }
        journal).trans (blind.index found kept)
    rw [ensures_onIndex found]
    exact (steady _).imp (fun _ _ => same) fun _ _ => same

/-- An action on all indices is steady when it is steady on every index. -/
theorem onIndices (blind : Blind measure seen) {action : Key → Action (Index α × Journal) Unit}
    (steady : ∀ key, Steady (Index.sees seen) (action key)) :
    Steady measure (Storage.onIndices action) := by
  refine .get_bind fun storage => ?_
  have each : ∀ key ∈ storage.indices.keys, Steady measure (Storage.onIndex key (action key)) :=
    fun key _ => blind.onIndex key (steady key)
  exact Steady.forM each storage

/-- A change of an index that is not seen there is not seen of the storage. -/
theorem modifyIndex (blind : Blind measure seen) (key : Key) {change : Index α → Index α}
    (same : ∀ index, seen (change index) = seen index) :
    Steady measure (Storage.modifyIndex key change) := blind.onIndex key (Index.Blind.modify same)

/-- Editing a record changes its bytes only, also when the edit breaks off. -/
theorem editRecord (blind : Blind measure seen) (key : Key) (edit : Edit) :
    Steady measure (Storage.editRecord key edit : StorageOp α Unit) := by
  intro storage
  unfold Ensures Storage.editRecord
  split
  · rename_i _ _ _ ran
    split at ran
    · cases ran
    · simp only at ran
      split at ran <;> cases ran
      exact blind.records storage _
  · rename_i _ _ _ ran
    split at ran
    · cases ran
      rfl
    · simp only at ran
      split at ran <;> cases ran
      exact blind.records storage _

/-- Beginning an edition keeps a backup of the record. -/
theorem beginEdition (blind : Blind measure seen) (key : Key) :
    Steady measure (Storage.beginEdition key : StorageOp α Unit) :=
  (steady_record key).bind fun _ => .modify fun storage => blind.backup storage _

/-- Clearing a storage changes the records, the trees and the queues. -/
theorem clear (blind : Blind measure seen) :
    Steady measure (Storage.clear : StorageOp α Unit) := by
  refine .get_bind fun storage => ?_
  dsimp only
  split
  · exact steady_abort _ storage
  · rw [Action.ensures_bind, Action.ensures_set]
    have further : Steady measure (Storage.onIndices fun _ =>
        modify fun (index, journal) => (index.clear, journal) : StorageOp α Unit) :=
      blind.onIndices fun _ => Index.Blind.modify blind.reading.clear
    exact further.after (blind.records storage _)

/-- Showing the record of an edit cursor takes a backup only. -/
theorem editCurrent (blind : Blind measure seen) (cursor : Cursor α) :
    Steady measure (Storage.editCurrent cursor : StorageOp α Unit) := by
  refine .get_bind fun storage => Steady.bind (steady_orAbort _) (fun current => ?_) storage
  cases current with
  | none => exact .pure _
  | some key => exact blind.beginEdition key

/-- Changing the record of an edit cursor changes its bytes, the trees and the queues. -/
theorem changeCurrent (blind : Blind measure seen) (cursor : Cursor α) (change : Edit) :
    Steady measure (Storage.changeCurrent cursor change : StorageOp α Bool) := by
  refine .get_bind fun storage => Steady.bind (steady_orAbort _) (fun current => ?_) storage
  cases current with
  | none => exact .pure _
  | some key => exact (blind.editRecord key change).bind fun _ => .pure _

variable [Arithmetic α]

/-- Putting a record into all indices changes their trees. -/
theorem indexRecord (blind : Blind measure seen) (key : Key) :
    Steady measure (Storage.indexRecord key : StorageOp α Unit) :=
  (steady_record key).bind fun _ => blind.onIndices fun _ => blind.reading.onTree _

/-- Ending an edition moves the record in the indices that observe what has changed. -/
theorem endEdition (blind : Blind measure seen) (key : Key) (requester : Option Key) :
    Steady measure (Storage.endEdition key requester : StorageOp α Bool) := by
  refine (steady_record key).bind fun edited => .get_bind fun storage => ?_
  refine Steady.bind (steady_orAbort _) (fun changed => ?_) storage
  refine Steady.bind (.forM fun entry _ => ?_) fun _ => .pure _
  exact blind.onIndex _ (blind.reading.onTree _)

/-- Flushing an inserter puts its record into the indices. -/
theorem flush (blind : Blind measure seen) (inserter : Inserter) :
    Steady measure (inserter.flush : StorageOp α Unit) := by
  unfold Inserter.flush
  split
  · exact blind.indexRecord _
  · exact .pure _

/-- Making room for a record flushes the one before and adds the new one. -/
theorem allocate (blind : Blind measure seen) (inserter : Inserter) :
    Steady measure (inserter.allocate : StorageOp α (Key × Inserter)) :=
  (blind.flush inserter).bind fun _ => .get_bind fun storage => blind.records storage _

/-- Deleting a record changes the records and the trees. -/
theorem deleteRecord (blind : Blind measure seen) (key : Key) :
    Steady measure (Storage.deleteRecord key : StorageOp α Bool) := by
  refine .get_bind fun storage => ?_
  dsimp only
  split
  · exact steady_abort _ storage
  · split
    · rfl
    · rename_i bytes _
      rw [Action.ensures_bind, Action.ensures_set]
      have further : Steady measure (do
          Storage.onIndices fun _ => Index.erase key bytes
          Storage.report .trace ("Deleted record " ++ key.recordText ++ " from " ++
            toString storage.indices.size ++ " indices")
          return true : StorageOp α Bool) :=
        (blind.onIndices fun _ => blind.reading.onTree _).bind fun _ =>
          (blind.report _ _).bind fun _ => .pure _
      exact further.after (blind.records storage _)

/-- Taking the record of a cursor out of its tree changes the tree and the journal only. -/
theorem takeCurrent (blind : Blind measure seen) (cursor : Cursor α) :
    Steady measure (Storage.takeCurrent cursor : StorageOp α (Cursor α)) := by
  refine .get_bind fun storage => Steady.bind (steady_orAbort _) (fun tree => ?_) storage
  split
  · refine Steady.bind (blind.modifyIndex _ ?_) fun _ => .pure _
    exact fun index => blind.reading.tree index _
  · refine Steady.bind (blind.modifyIndex _ ?_) fun _ => steady_abort _
    exact fun index => blind.reading.tree index _

/-- Leaving the record of an edit cursor ends its edition and goes on in the tree. -/
theorem leaveCurrent (blind : Blind measure seen) (cursor : Cursor α) (key : Key) (onward : Bool) :
    Steady measure (Storage.leaveCurrent cursor key onward : StorageOp α (Cursor α)) := by
  refine (blind.endEdition key _).bind fun concerned => .get_bind fun storage => ?_
  refine Steady.bind (steady_record key) (fun edited => ?_) storage
  refine Steady.bind (steady_orAbort _) fun tree => ?_
  have goes (moved : Bool) : Steady measure (do
      if moved then
        let cursor ← Storage.takeCurrent cursor
        Storage.modifyIndex cursor.index fun index => index.defer key
        return cursor
      else if onward then orAbort (storage.next cursor)
      else return cursor : StorageOp α (Cursor α)) := by
    cases moved with
    | true =>
      refine (blind.takeCurrent cursor).bind fun next => ?_
      refine Steady.bind (blind.modifyIndex _ ?_) fun _ => .pure _
      exact fun index => blind.reading.queue index _
    | false =>
      cases onward with
      | true => exact steady_orAbort _
      | false => exact .pure _
  dsimp only
  split
  · exact (steady_orAbort _).bind goes
  · exact goes false

/-- An edit cursor that goes on leaves the counts and the settings alone. -/
theorem advanceEdit (blind : Blind measure seen) (cursor : Cursor α) :
    Steady measure (Storage.advanceEdit cursor : StorageOp α (Cursor α)) := by
  refine .get_bind fun storage => Steady.bind (steady_orAbort _) (fun current => ?_) storage
  cases current with
  | none => exact steady_abort _
  | some key =>
    exact (blind.leaveCurrent cursor key true).bind fun next =>
      (blind.editCurrent next).bind fun _ => .pure _

/-- Deleting the record of a cursor takes it out of the other indices and of the pool. -/
theorem deleteEdited (blind : Blind measure seen) (key requester : Key) :
    Steady measure (Storage.deleteEdited key requester : StorageOp α Unit) := by
  refine .get_bind fun storage => Steady.bind ?_ (fun _ => ?_) storage
  · exact .forM fun index _ => blind.onIndex index (blind.reading.onTree _)
  · exact Steady.bind (.modify fun storage => blind.records storage _) fun _ => blind.report _ _

/-- An edit cursor that erases its record leaves the counts and the settings alone. -/
theorem eraseEdit (blind : Blind measure seen) (cursor : Cursor α) :
    Steady measure (Storage.eraseEdit cursor : StorageOp α (Cursor α)) := by
  refine .get_bind fun storage => Steady.bind (steady_orAbort _) (fun current => ?_) storage
  cases current with
  | none => exact steady_abort _
  | some key =>
    exact (blind.takeCurrent cursor).bind fun next =>
      (blind.deleteEdited key next.index).bind fun _ =>
        (blind.editCurrent next).bind fun _ => .pure _

end Blind

/-! ## Measures that see no counts -/

/-- A measure that sees no count of readers, writers and cursors. -/
structure Uncounting (measure : Storage α → κ) (seen : Index α → ι) : Prop
    extends Blind measure seen where
  /-- The readers are not seen. -/
  readers : ∀ (storage : Storage α) readers, measure { storage with readers } = measure storage
  /-- The writers are not seen. -/
  writers : ∀ (storage : Storage α) writers, measure { storage with writers } = measure storage
  /-- The cursors over an index are not seen. -/
  cursors : ∀ index cursors, seen { index with cursors } = seen index

namespace Uncounting

/-- Opening a reader changes the count of readers, or nothing. -/
theorem openReader (blind : Uncounting measure seen) :
    Steady measure (Storage.openReader : StorageOp α Unit) := by
  refine .get_bind fun storage => ?_
  dsimp only
  split
  · exact steady_abort _ storage
  · exact blind.readers storage _

/-- Closing a reader changes the count of readers, or nothing. -/
theorem closeReader (blind : Uncounting measure seen) :
    Steady measure (Storage.closeReader : StorageOp α Unit) := by
  refine .get_bind fun storage => ?_
  dsimp only
  split
  · exact steady_abort _ storage
  · exact blind.readers storage _

/-- Opening a writer changes the count of writers, or nothing. -/
theorem openWriter (blind : Uncounting measure seen) :
    Steady measure (Storage.openWriter : StorageOp α Unit) := by
  refine .get_bind fun storage => ?_
  dsimp only
  split
  · exact steady_abort _ storage
  · split
    · exact steady_abort _ storage
    · exact blind.writers storage _

/-- Opening an inserter opens a writer. -/
theorem openInserter (blind : Uncounting measure seen) :
    Steady measure (Storage.openInserter : StorageOp α Inserter) :=
  blind.openWriter.bind fun _ => .pure _

/-- Noting a cursor changes the count of its index. -/
theorem openCursor (blind : Uncounting measure seen) (key : Key) :
    Steady measure (Storage.openCursor key : StorageOp α Unit) :=
  blind.modifyIndex key fun index => blind.cursors index _

/-- Noting the end of a cursor changes the count of its index, or nothing. -/
theorem closeCursor (blind : Uncounting measure seen) (key : Key) :
    Steady measure (Storage.closeCursor key : StorageOp α Unit) := by
  refine blind.onIndex key (.get_bind fun ⟨index, journal⟩ => ?_)
  dsimp only
  split
  · rfl
  · exact blind.cursors index _

/-- Registering a read cursor changes counts only. -/
theorem openRead (blind : Uncounting measure seen) (cursor : Cursor α) :
    Steady measure (Storage.openRead cursor : StorageOp α Unit) :=
  blind.openReader.bind fun _ => blind.openCursor _

/-- The end of a read cursor changes counts only. -/
theorem closeRead (blind : Uncounting measure seen) (cursor : Cursor α) :
    Steady measure (Storage.closeRead cursor : StorageOp α Unit) :=
  (blind.closeCursor _).bind fun _ => blind.closeReader

variable [Arithmetic α]

/-- Closing a writer settles the queues and changes the count of writers. -/
theorem closeWriter (blind : Uncounting measure seen) :
    Steady measure (Storage.closeWriter : StorageOp α Unit) := by
  refine .get_bind fun storage => ?_
  dsimp only
  split
  · exact steady_abort _ storage
  · rw [Action.ensures_bind, Action.ensures_set]
    have settles : Steady measure
        (Storage.onIndices fun _ => Index.settle storage.records : StorageOp α Unit) :=
      blind.onIndices fun _ => blind.reading.settle _
    exact settles.after (blind.writers storage _)

/-- Closing an inserter flushes it and closes its writer. -/
theorem close (blind : Uncounting measure seen) (inserter : Inserter) :
    Steady measure (inserter.close : StorageOp α Unit) :=
  (blind.flush inserter).bind fun _ => blind.closeWriter

/-- Inserting a record opens an inserter and closes it. -/
theorem insertRecord (blind : Uncounting measure seen) (bytes : Bytes) :
    Steady measure (Storage.insertRecord bytes : StorageOp α Key) := by
  refine .get_bind fun storage => ?_
  have inserts : Steady measure (do
      let inserter ← Storage.openInserter
      let handed ← inserter.allocate
      Storage.editRecord handed.1 (Edit.copy bytes)
      handed.2.close
      return handed.1 : StorageOp α Key) :=
    blind.openInserter.bind fun inserter => (blind.allocate inserter).bind fun handed =>
      (blind.editRecord _ _).bind fun _ => (blind.close handed.2).bind fun _ => .pure _
  dsimp only
  split
  · exact (blind.reject _).bind (fun _ => inserts) storage
  · exact inserts storage

/-- Modifying a record opens a writer, and closes it unless the edit breaks off. -/
theorem modifyRecord (blind : Uncounting measure seen) (key : Key) (edit : Edit) :
    Steady measure (Storage.modifyRecord key edit : StorageOp α Bool) := by
  refine .get_bind fun storage => ?_
  have modifies : Steady measure (do
      Storage.openWriter
      Storage.beginEdition key
      Storage.editRecord key edit
      discard (Storage.endEdition key none)
      Storage.closeWriter
      return true : StorageOp α Bool) :=
    blind.openWriter.bind fun _ => (blind.beginEdition key).bind fun _ =>
      (blind.editRecord key edit).bind fun _ => (blind.endEdition key none).discard.bind fun _ =>
        blind.closeWriter.bind fun _ => .pure _
  split
  · rfl
  · exact modifies storage

/-- Locating the records of a query reads only, or reports that there is no such index. -/
theorem locate (blind : Uncounting measure seen) (index : Key) (query : Query) :
    Steady measure (Storage.locate index query : StorageOp α (Cursor α)) := by
  have finds : Steady measure (member index : StorageOp α (Member α)) := by
    refine .get_bind fun storage => ?_
    split
    · rfl
    · exact blind.reject _ storage
  exact finds.bind fun found => .get_bind fun storage =>
    Steady.bind (steady_orAbort _) (fun _ => .pure _) storage

/-- Opening a read cursor changes counts only. -/
theorem read (blind : Uncounting measure seen) (index : Key) (query : Query) :
    Steady measure (Storage.read index query : StorageOp α (Cursor α)) :=
  (blind.locate index query).bind fun cursor => (blind.openRead cursor).bind fun _ => .pure _

/-- Opening an edit cursor changes counts only. -/
theorem edit (blind : Uncounting measure seen) (index : Key) (query : Query) :
    Steady measure (Storage.edit index query : StorageOp α (Cursor α)) :=
  (blind.locate index query).bind fun cursor => blind.openWriter.bind fun _ =>
    (blind.openCursor _).bind fun _ => (blind.editCurrent cursor).bind fun _ => .pure _

/-- Closing an edit cursor ends its edition and closes its writer. -/
theorem closeEdit (blind : Uncounting measure seen) (cursor : Cursor α) :
    Steady measure (Storage.closeEdit cursor : StorageOp α Unit) := by
  have closes (last : Cursor α) : Steady measure (do
      Storage.closeCursor last.index
      Storage.closeWriter : StorageOp α Unit) :=
    (blind.closeCursor _).bind fun _ => blind.closeWriter
  refine .get_bind fun storage => Steady.bind (steady_orAbort _) (fun current => ?_) storage
  cases current with
  | none => exact closes cursor
  | some key => exact (blind.leaveCurrent cursor key false).bind closes

end Uncounting

end Storage

end SpatialIndex
