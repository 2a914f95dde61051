import SpatialIndex.Storage.Records

/-!
# Cursors

A cursor yields the records of an index that meet a query. Read cursors are readers. An edit
cursor is the writer: its current record is under edition, and leaving the record propagates the
changes. A record that its new bounds lead to another node is taken out of the tree until the
cursor closes, so the cursor meets no record twice.
-/
namespace SpatialIndex

open Record (Bytes Edit)

/-- A place among the records of an index that meet a query. -/
structure Cursor (α : Type) where
  /-- The index. -/
  index : Key
  /-- The count of axes of the index. -/
  dimensions : Nat
  /-- The search. -/
  search : World.Search α dimensions

namespace Storage

variable {α : Type} [Arithmetic α]

/-- The cursor at the first record of a query. It is not registered yet. -/
def locate (index : Key) (query : Query) : StorageOp α (Cursor α) := do
  let found ← member index
  let search ← orAbort (query.start found.index.tree (← get).records)
  return ⟨index, _, search⟩

/-- The tree of a cursor. -/
def cursorTree (storage : Storage α) (cursor : Cursor α) :
    Except Fault (World.Tree α cursor.dimensions) :=
  match storage.indices.get? cursor.index with
  | none => .error .staleKey
  | some member =>
    match member.index.treeOver? cursor.dimensions with
    | none => .error .foreignCursor
    | some tree => .ok tree

/-- The current record of a cursor; none at its end. -/
def current? (storage : Storage α) (cursor : Cursor α) : Except Fault (Option Key) := do
  cursor.search.current? (← storage.cursorTree cursor)

/-- The bytes of the current record. -/
def currentBytes? (storage : Storage α) (cursor : Cursor α) : Except Fault (Option Bytes) := do
  match ← storage.current? cursor with
  | none => return none
  | some key =>
    match storage.records.get? key with
    | some bytes => return some bytes
    | none => throw .staleKey

/-- The cursor at the next record. -/
def next (storage : Storage α) (cursor : Cursor α) : Except Fault (Cursor α) := do
  let tree ← storage.cursorTree cursor
  return { cursor with search := ← cursor.search.advance tree storage.records }

/-! ## Read cursors -/

/-- Register a read cursor. -/
def openRead (cursor : Cursor α) : StorageOp α Unit := do
  openReader
  openCursor cursor.index

/-- A read cursor at the first record of a query. -/
def read (index : Key) (query : Query) : StorageOp α (Cursor α) := do
  let cursor ← locate index query
  openRead cursor
  return cursor

/-- Close a read cursor. -/
def closeRead (cursor : Cursor α) : StorageOp α Unit := do
  closeCursor cursor.index
  closeReader

/-- The read cursor at the next record; it stays at its end. -/
def advanceRead (storage : Storage α) (cursor : Cursor α) : Except Fault (Cursor α) := do
  match ← storage.current? cursor with
  | none => return cursor
  | some _ => storage.next cursor

/-- The current record of a read cursor and the later ones, with the cursor at its end. -/
def rest (storage : Storage α) (cursor : Cursor α) : Except Fault (List Key × Cursor α) := do
  let (keys, search) ← cursor.search.rest (← storage.cursorTree cursor) storage.records
  return (keys, { cursor with search })

/-- The records that meet a query, in the order in which a read cursor meets them. -/
def find (index : Key) (query : Query) : StorageOp α (List Key) := do
  let cursor ← read index query
  let found := (← get).rest cursor
  closeRead cursor
  return (← orAbort found).1

/-! ## Edit cursors -/

/-- Put the current record of a cursor under edition. -/
def editCurrent (cursor : Cursor α) : StorageOp α Unit := do
  match ← orAbort ((← get).current? cursor) with
  | some key => beginEdition key
  | none => pure ()

/-- An edit cursor at the first record of a query. -/
def edit (index : Key) (query : Query) : StorageOp α (Cursor α) := do
  let cursor ← locate index query
  openWriter
  openCursor cursor.index
  editCurrent cursor
  return cursor

/-- Take the current record of a cursor out of the tree and go on to the next one. -/
def takeCurrent (cursor : Cursor α) : StorageOp α (Cursor α) := do
  let storage ← get
  let tree ← orAbort (storage.cursorTree cursor)
  match World.Search.eraseCurrent storage.records (tree, cursor.search) with
  | .ok () (tree, search) =>
    modifyIndex cursor.index fun index => index.withTree tree
    return { cursor with search }
  | .error fault (tree, _) =>
    modifyIndex cursor.index fun index => index.withTree tree
    abort fault

/-- Propagate the edition of the current record `key`. A record that moves is taken out of the
tree to be put back later; otherwise the cursor goes on when `onward` is set. -/
def leaveCurrent (cursor : Cursor α) (key : Key) (onward : Bool) : StorageOp α (Cursor α) := do
  let concerned ← endEdition key (some cursor.index)
  let storage ← get
  let edited ← record key
  let tree ← orAbort (storage.cursorTree cursor)
  let moved ← if concerned then orAbort (tree.isMoved edited storage.backup) else pure false
  if moved then
    let cursor ← takeCurrent cursor
    modifyIndex cursor.index fun index => index.defer key
    return cursor
  else if onward then orAbort (storage.next cursor)
  else return cursor

/-- Change the current record of an edit cursor; false at its end. -/
def changeCurrent (cursor : Cursor α) (change : Edit) : StorageOp α Bool := do
  match ← orAbort ((← get).current? cursor) with
  | none => return false
  | some key =>
    editRecord key change
    return true

/-- Leave the current record and go on to the next one. -/
def advanceEdit (cursor : Cursor α) : StorageOp α (Cursor α) := do
  match ← orAbort ((← get).current? cursor) with
  | none => abort .advancedPastEnd
  | some key =>
    let cursor ← leaveCurrent cursor key true
    editCurrent cursor
    return cursor

/-- Delete the record under edition by a cursor of `requester`, which has taken it out of its own
tree; the other indices still hold it under its former bounds. -/
def deleteEdited (key requester : Key) : StorageOp α Unit := do
  let storage ← get
  (storage.indices.keys.filter fun index => index != requester).forM fun index =>
    onIndex index (Index.erase key storage.backup)
  modify fun storage => { storage with records := storage.records.remove key }
  report .trace ("Deleted edited record " ++ key.recordText)

/-- Delete the current record, whatever was changed in it, and go on to the next one. -/
def eraseEdit (cursor : Cursor α) : StorageOp α (Cursor α) := do
  match ← orAbort ((← get).current? cursor) with
  | none => abort .erasedPastEnd
  | some key =>
    let cursor ← takeCurrent cursor
    deleteEdited key cursor.index
    editCurrent cursor
    return cursor

/-- Leave the current record and close an edit cursor. -/
def closeEdit (cursor : Cursor α) : StorageOp α Unit := do
  let cursor ←
    match ← orAbort ((← get).current? cursor) with
    | none => pure cursor
    | some key => leaveCurrent cursor key false
  closeCursor cursor.index
  closeWriter

end Storage

end SpatialIndex
