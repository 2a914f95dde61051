import SpatialIndex.Record.Edit
import SpatialIndex.Storage.Basic

/-!
# Inserting, changing and deleting records

A change of a record is propagated to every index that observes a changed field. The caller
changes a record by an edit; when the edit is aborted, the bytes it has changed stay changed and
the writer stays open.
-/
namespace SpatialIndex.Storage

open Record (Bytes Edit)

variable {α : Type} [Arithmetic α]

/-- The bytes of a record after an edit: as many as before, whatever the edit made of them. -/
def overwrite (former edited : Bytes) : Bytes :=
  edited.take former.length ++ former.drop edited.length

/-- Edit the bytes of a record. -/
def editRecord (key : Key) (edit : Edit) : StorageOp α Unit := fun storage =>
  match storage.records.get? key with
  | none => .error (.aborted .staleKey) storage
  | some record =>
    let updated (edited : Bytes) : Storage α :=
      { storage with records := storage.records.set key (overwrite record edited) }
    match edit record with
    | .ok () edited => .ok () (updated edited)
    | .error fault edited => .error (.aborted fault) (updated edited)

/-- The bytes of a record that is there. -/
def record (key : Key) : StorageOp α Bytes := do
  match (← get).records.get? key with
  | some record => return record
  | none => abort .staleKey

/-- Put a record into every index. -/
def indexRecord (key : Key) : StorageOp α Unit := do
  let bytes ← record key
  onIndices fun _ => Index.insert key bytes

/-! ## Edition -/

/-- Keep a copy of a record that is about to be edited. -/
def beginEdition (key : Key) : StorageOp α Unit := do
  let backup ← record key
  modify fun storage => { storage with backup }

/-- Tell every index that observes a changed field of an edited record, the requester excepted.
The result tells whether the requester observes one. -/
def endEdition (key : Key) (requester : Option Key) : StorageOp α Bool := do
  let edited ← record key
  let storage ← get
  let changed ← orAbort (storage.registry.changed edited storage.backup)
  let concerned := storage.indices.entries.filter fun (_, member) => member.mask &&& changed != 0
  (concerned.filter fun (index, _) => some index != requester).forM fun (index, _) =>
    onIndex index (Index.update key edited storage.backup)
  return concerned.any fun (index, _) => some index == requester

/-! ## Operations -/

/-- Hands out records to be filled; the one handed out last is not indexed yet. -/
structure Inserter where
  /-- The record handed out last. -/
  pending : Option Key
deriving DecidableEq, Repr

/-- Open an inserter, which is a writer. -/
def openInserter : StorageOp α Inserter := do
  openWriter
  return ⟨none⟩

/-- Index the record handed out last. -/
def Inserter.flush (inserter : Inserter) : StorageOp α Unit :=
  match inserter.pending with
  | some key => indexRecord key
  | none => pure ()

/-- Hand out a new record of zeros, after indexing the one before it. -/
def Inserter.allocate (inserter : Inserter) : StorageOp α (Key × Inserter) := do
  inserter.flush
  let storage ← get
  let (key, records) := storage.records.insert storage.layout.zeroRecord
  set { storage with records }
  return (key, ⟨some key⟩)

/-- Index the last record and close the writer. -/
def Inserter.close (inserter : Inserter) : StorageOp α Unit := do
  inserter.flush
  closeWriter

/-- Insert a record of the size of the layout. -/
def insertRecord (bytes : Bytes) : StorageOp α Key := do
  let storage ← get
  if bytes.length ≠ storage.layout.size then
    reject (.recordSize bytes.length storage.layout.name storage.layout.size)
  let inserter ← openInserter
  let (key, inserter) ← inserter.allocate
  editRecord key (Edit.copy bytes)
  inserter.close
  return key

/-- Change a record; false when there is none. -/
def modifyRecord (key : Key) (edit : Edit) : StorageOp α Bool := do
  if !(← get).records.contains key then return false
  openWriter
  beginEdition key
  editRecord key edit
  discard (endEdition key none)
  closeWriter
  return true

/-- Delete a record; false when there is none. No writer can be open. -/
def deleteRecord (key : Key) : StorageOp α Bool := do
  let storage ← get
  if storage.writers ≠ 0 then abort .deleteDuringWriter
  match storage.records.get? key with
  | none => return false
  | some bytes =>
    set { storage with records := storage.records.remove key }
    onIndices fun _ => Index.erase key bytes
    report .trace ("Deleted record " ++ key.recordText ++ " from " ++
      toString storage.indices.size ++ " indices")
    return true

/-- Delete all records. No writer can be open. -/
def clear : StorageOp α Unit := do
  let storage ← get
  if storage.writers ≠ 0 then abort .clearDuringWriter
  set { storage with records := storage.records.clear }
  onIndices fun _ => modify fun (index, journal) => (index.clear, journal)

end SpatialIndex.Storage
