import SpatialIndex.Index
import SpatialIndex.Storage.Registry

/-!
# Storages

A storage owns the records of one layout and the indices over them, and keeps every index in
step with the records. Any number of readers can be open, or one writer; changes go through a
writer, and closing it puts back the records that it took out of an index.
-/
namespace SpatialIndex

open Record (Bytes Layout)

/-- An index with the observed fields it depends on. -/
structure Storage.Member (α : Type) where
  /-- The index. -/
  index : Index α
  /-- The numbers of its fields. -/
  mask : Storage.FieldMask

/-- Records and the indices over them. -/
structure Storage (α : Type) where
  /-- The layout of every record. -/
  layout : Layout
  /-- The settings of new indices. -/
  config : Config
  /-- The records. -/
  records : Pool Bytes
  /-- The indices. -/
  indices : Pool (Storage.Member α)
  /-- The observed fields. -/
  registry : Storage.Registry
  /-- The count of open readers. -/
  readers : Nat
  /-- The count of open writers. -/
  writers : Nat
  /-- The record under edition, as it was before. -/
  backup : Bytes
  /-- What was reported. -/
  journal : Journal

/-- An operation on a storage, which can be rejected or aborted. -/
abbrev StorageOp (α : Type) := EStateM Failure (Storage α)

namespace Storage

variable {α : Type} [Arithmetic α]

/-- The storage without records and indices. -/
def create (layout : Layout) (config : Config) (journal : Journal) : Storage α :=
  { layout, config, records := .empty, indices := .empty, registry := [], readers := 0
    writers := 0, backup := layout.zeroRecord, journal }

/-- Abort. -/
def abort {β : Type} (fault : Fault) : StorageOp α β := throw (.aborted fault)

/-- Report a rejection and fail with it. -/
def reject {β : Type} (rejection : Rejection) : StorageOp α β := do
  modify fun storage => { storage with journal := storage.journal.reject rejection }
  throw (.rejected rejection)

/-- Report a message. -/
def report (severity : Severity) (message : String) : StorageOp α Unit :=
  modify fun storage =>
    { storage with journal := storage.journal.report severity "volumetric::Storage" message }

/-- A value computed from the storage, or its fault. -/
def orAbort {β : Type} (result : Except Fault β) : StorageOp α β :=
  Action.ofExcept (result.mapError .aborted)

/-- A value computed from the storage, or its rejection, which is reported. -/
def orReject {β : Type} (result : Except Rejection β) : StorageOp α β :=
  match result with
  | .ok value => pure value
  | .error rejection => reject rejection

/-- The index of a key, or the rejection of the key. -/
def member (key : Key) : StorageOp α (Member α) := do
  match (← get).indices.get? key with
  | some member => return member
  | none => reject (.unknownIndex key)

/-- Run an action on an index and the journal. -/
def onIndex {β : Type} (key : Key) (action : Action (Index α × Journal) β) : StorageOp α β :=
  fun storage =>
    match storage.indices.get? key with
    | none => .error (.aborted .staleKey) storage
    | some member =>
      let updated (index : Index α) (journal : Journal) : Storage α :=
        { storage with indices := storage.indices.set key { member with index }, journal }
      match action (member.index, storage.journal) with
      | .ok value (index, journal) => .ok value (updated index journal)
      | .error fault (index, journal) => .error (.aborted fault) (updated index journal)

/-- Run an action on every index in order. -/
def onIndices (action : Key → Action (Index α × Journal) Unit) : StorageOp α Unit := do
  (← get).indices.keys.forM fun key => onIndex key (action key)

/-- Change an index. -/
def modifyIndex (key : Key) (change : Index α → Index α) : StorageOp α Unit :=
  onIndex key (modify fun (index, journal) => (change index, journal))

/-! ## Readers and writers -/

/-- Open a reader; no writer can be open. -/
def openReader : StorageOp α Unit := do
  let storage ← get
  if storage.writers ≠ 0 then abort .readerDuringWriter
  set { storage with readers := storage.readers + 1 }

/-- Close a reader. -/
def closeReader : StorageOp α Unit := do
  let storage ← get
  if storage.readers = 0 then abort .countUnderflow
  set { storage with readers := storage.readers - 1 }

/-- Open a writer; no reader and no other writer can be open. -/
def openWriter : StorageOp α Unit := do
  let storage ← get
  if storage.readers ≠ 0 then abort .writerDuringReader
  if storage.writers ≠ 0 then abort .writerDuringWriter
  set { storage with writers := storage.writers + 1 }

/-- Close a writer; every index puts back the records taken out of it. -/
def closeWriter : StorageOp α Unit := do
  let storage ← get
  if storage.writers = 0 then abort .countUnderflow
  set { storage with writers := storage.writers - 1 }
  onIndices fun _ => Index.settle storage.records

/-- Note a cursor over an index. -/
def openCursor (key : Key) : StorageOp α Unit :=
  modifyIndex key fun index => { index with cursors := index.cursors + 1 }

/-- Note the end of a cursor over an index. -/
def closeCursor (key : Key) : StorageOp α Unit :=
  onIndex key do
    let (index, journal) ← get
    if index.cursors = 0 then throw .countUnderflow
    set ({ index with cursors := index.cursors - 1 }, journal)

end Storage

end SpatialIndex
