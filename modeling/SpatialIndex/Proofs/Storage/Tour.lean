import SpatialIndex.Proofs.Storage.Cursor

/-!
# The tour of an edit cursor

An edit cursor visits records one after the other: it leaves each with the bytes that were
written, or erased. While it is open the records are those that single edits of the visited ones
lead to, but for the current one; it will not meet a visited record again, and every record that
met its query when it opened is visited or still ahead.
-/
open SpatialIndex.Action (Ensures)

namespace SpatialIndex

open Record (Bytes Edit)
open World.Search (Todo Settled Faces Leaves meets)

variable {α : Type}

/-- A record that an edit cursor has left, with the bytes it was left with; none when it was
erased. -/
structure Visit where
  /-- The record. -/
  key : Key
  /-- Its bytes. -/
  bytes : Option Bytes
deriving DecidableEq, Repr

/-! ## Keys at places -/

/-- Indices over the same space with the same keys in every node. -/
def Index.SameKeys (first second : Index α) : Prop :=
  ∃ tree cursors queue, second = ⟨first.dimensions, tree, cursors, queue⟩ ∧
    tree.border = first.tree.border ∧
    ∀ address key, key ∈ Partition.itemsAt first.tree.partition.nodes address ↔
      key ∈ Partition.itemsAt tree.partition.nodes address

/-- Storages that have the same records, and the same indices with the same keys in every node. -/
structure Storage.Agrees (first second : Storage α) : Prop where
  /-- The records are the same. -/
  records : first.records = second.records
  /-- Every index is in both or in none, and has the same keys in every node. -/
  indices : ∀ index, (first.indices.get? index = none ∧ second.indices.get? index = none) ∨
    ∃ here there, first.indices.get? index = some here ∧
      second.indices.get? index = some there ∧ here.index.SameKeys there.index

/-- The records after one of them was modified or deleted as a visit has left it. -/
def Visit.apply (visit : Visit) (records : Pool Bytes) : Pool Bytes :=
  match visit.bytes with
  | some bytes => records.set visit.key bytes
  | none => records.remove visit.key

variable [Arithmetic α]

/-- Modify or delete one record as a visit has left it. -/
def Visit.replay (visit : Visit) : StorageOp α Bool :=
  match visit.bytes with
  | some bytes => Storage.modifyRecord visit.key (Edit.copy bytes)
  | none => Storage.deleteRecord visit.key

namespace Storage

variable {former first second : Storage α}

/-- Storages in step that came from one storage and have the same records agree. -/
theorem agrees_of_inStep (inStep : first.InStep) (other : second.InStep)
    (alike : former.Alike first) (otherAlike : former.Alike second)
    (records : first.records = second.records) : first.Agrees second := by
  refine ⟨records, fun index => ?_⟩
  cases present : former.indices.get? index with
  | none => exact .inl ⟨alike.absent present, otherAlike.absent present⟩
  | some member =>
    obtain ⟨here, held, tree, cursors, queue, space, rfl⟩ := alike.present present
    obtain ⟨there, otherHeld, otherTree, otherCursors, otherQueue, otherSpace, rfl⟩ :=
      otherAlike.present present
    refine .inr ⟨_, _, held, otherHeld, otherTree, otherCursors, otherQueue, rfl,
      otherSpace.border.trans space.border.symm, fun address key => ?_⟩
    have stored := (inStep.tree held).places.stored address key
    have otherStored := (other.tree otherHeld).places.stored address key
    simp only [World.Tree.placement, space.address?] at stored
    simp only [World.Tree.placement, otherSpace.address?] at otherStored
    rw [stored, otherStored, records]

/-- A single edit of a record that is there succeeds in a storage that is not in use. -/
theorem InStep.replay {storage : Storage α} {visit : Visit} {bytes : Bytes}
    (inStep : storage.InStep) (free : storage.readers = 0) (idle : storage.writers = 0)
    (found : storage.records.get? visit.key = some bytes)
    (sized : ∀ edited, visit.bytes = some edited → edited.length = storage.layout.size) :
    ∃ after, visit.replay storage = .ok true after ∧
      Lands storage after (visit.apply storage.records) := by
  obtain ⟨key, edited⟩ := visit
  have present : storage.records.get? key = some bytes := found
  cases edited with
  | none =>
    have ensured := deleteRecord_spec (fun _ => inStep) key
    unfold Ensures at ensured
    unfold Visit.replay
    simp only
    cases ran : deleteRecord key storage with
    | ok deleted after =>
      rw [ran] at ensured
      rcases ensured.2 with ⟨-, absent, -⟩ | ⟨rfl, lands⟩
      · rw [present] at absent
        cases absent
      · exact ⟨after, rfl, lands⟩
    | error failure after =>
      rw [ran] at ensured
      exact absurd idle ensured.2.1
  | some edited =>
    have same : edited.length = bytes.length :=
      (sized edited rfl).trans (inStep.keeps.sized present).symm
    have copied := copy_run same
    have ensured := modifyRecord_spec (fun _ => inStep) key (Edit.copy edited)
    unfold Ensures at ensured
    unfold Visit.replay
    simp only
    cases ran : modifyRecord key (Edit.copy edited) storage with
    | ok modified after =>
      rw [ran] at ensured
      rcases ensured with ⟨-, absent, -⟩ | ⟨former, last, rfl, held, -, edits, lands⟩
      · rw [present] at absent
        cases absent
      · rw [present] at held
        cases held
        rw [copied] at edits
        cases edits
        rw [overwrite_of_length_eq same] at lands
        exact ⟨after, rfl, lands⟩
    | error failure after =>
      rw [ran] at ensured
      rcases ensured with ⟨-, busy⟩ | ⟨former, fault, last, -, -, held, fails, -⟩
      · exact absurd idle (busy.in_use free)
      · rw [present] at held
        cases held
        rw [copied] at fails
        cases fails

/-! ## Open tours -/

/-- Single edits in the order of some visits, which all found their records. -/
structure Replayed (former : Storage α) (visits : List Visit) (plain : Storage α) : Prop where
  /-- They succeed. -/
  ran : visits.mapM Visit.replay former = .ok (visits.map fun _ => true) plain
  /-- They end in step. -/
  lands : Lands former plain plain.records
  /-- They leave the other records alone. -/
  untouched : ∀ key, key ∉ visits.map Visit.key →
    plain.records.get? key = former.records.get? key

/-- One more edit of a record that was not visited. -/
theorem Replayed.snoc {visits : List Visit} {plain : Storage α} (free : former.readers = 0)
    (replayed : Replayed former visits plain) {visit : Visit} {bytes : Bytes}
    (found : plain.records.get? visit.key = some bytes)
    (sized : ∀ edited, visit.bytes = some edited → edited.length = plain.layout.size) :
    ∃ after, Replayed former (visits ++ [visit]) after ∧
      after.records = visit.apply plain.records := by
  obtain ⟨after, ran, lands⟩ := replayed.lands.inStep.replay
    (replayed.lands.readers.trans free) replayed.lands.writers found sized
  refine ⟨after, ⟨?_, ?_, ?_⟩, lands.records⟩
  · rw [List.mapM_append, List.map_append]
    simp only [List.mapM_cons, List.mapM_nil, bind, EStateM.bind, replayed.ran, ran, pure,
      EStateM.pure, List.map_cons, List.map_nil]
  · rw [lands.records]
    exact replayed.lands.toCarries.lands lands
  · intro key fresh
    rw [List.map_append, List.mem_append, not_or, List.map_cons, List.map_nil,
      List.mem_singleton] at fresh
    rw [lands.records, ← replayed.untouched key fresh.1]
    unfold Visit.apply
    split
    · exact Pool.get?_set_ne _ _ fresh.2
    · rw [Pool.get?_remove, if_neg fresh.2]

/-- The place of an open edit cursor: what is to do there was to do in the beginning, and every
record that met the query then is to do or was visited. -/
structure Stand (former : Storage α) (own : Key) (first : Member α)
    (search : World.Search α first.index.dimensions)
    (place : Option (Partition.Address first.index.dimensions)) (visits : List Visit)
    (storage : Storage α) (tree : World.Tree α first.index.dimensions) (queue : List Key)
    (now : World.Search α first.index.dimensions)
    (there : Option (Partition.Address first.index.dimensions)) (current : Option Key) :
    Prop where
  /-- The cursor is the writer. -/
  visiting : Visiting storage own
    ((first.usedBy (first.index.cursors + 1)).withTree tree queue) now there current
  /-- The indices are those of the beginning. -/
  carries : Carries former storage storage.records
  /-- The space is that of the beginning. -/
  space : first.index.tree.SameSpace tree
  /-- The query stays. -/
  query : now.query = search.query
  /-- Nothing visited is to do. -/
  todo : ∀ key, Todo tree now there key →
    Todo first.index.tree search place key ∧ key ∉ visits.map Visit.key
  /-- Nothing is lost. -/
  exact : search.walk.Exact → now.walk.Exact ∧ ∀ key, Todo first.index.tree search place key →
    meets first.index.tree former.records search.query key = .ok true →
    key ∈ visits.map Visit.key ∨ Todo tree now there key

/-- What an open edit cursor has done since it was opened over the storage `former`. -/
structure Touring (former : Storage α) (own : Key) (first : Member α)
    (search : World.Search α first.index.dimensions)
    (place : Option (Partition.Address first.index.dimensions)) (visits : List Visit)
    (storage : Storage α) (cursor : Cursor α) (current : Option Key) : Prop where
  /-- Single edits lead to the same records but for the current one. -/
  replayed : ∃ plain, Replayed former visits plain ∧
    (current = none → storage.records = plain.records) ∧
    ∀ key, current = some key → ∃ bytes, storage.records.get? key = some bytes ∧
      storage.records = plain.records.set key bytes
  /-- No record is visited twice. -/
  distinct : (visits.map Visit.key).Nodup
  /-- Every visited record was to do and met the query. -/
  seen : ∀ key ∈ visits.map Visit.key, Todo first.index.tree search place key ∧
    meets first.index.tree former.records search.query key = .ok true
  /-- So does the current record, whose bytes were backed up. -/
  passed : ∀ key, current = some key →
    meets first.index.tree former.records search.query key = .ok true ∧
      former.records.get? key = some storage.backup
  /-- The cursor stands at the current record. -/
  stands : ∃ tree queue now there,
    cursor = ((first.usedBy (first.index.cursors + 1)).withTree tree queue).cursor own now ∧
    Stand former own first search place visits storage tree queue now there current

/-- Everything that met the query is visited when the cursor has come to its end. -/
theorem Touring.complete {own : Key} {first : Member α}
    {search : World.Search α first.index.dimensions}
    {place : Option (Partition.Address first.index.dimensions)} {visits : List Visit}
    {storage : Storage α} {cursor : Cursor α}
    (touring : Touring former own first search place visits storage cursor none)
    (exact : search.walk.Exact) {key : Key} (todo : Todo first.index.tree search place key)
    (passes : meets first.index.tree former.records search.query key = .ok true) :
    key ∈ visits.map Visit.key := by
  obtain ⟨tree, queue, now, there, -, stand⟩ := touring.stands
  cases (stand.exact exact).2 key todo passes with
  | inl visited => exact visited
  | inr ahead => exact absurd ahead stand.visiting.faces.not_todo

section Touring

variable {own : Key} {first : Member α} {search : World.Search α first.index.dimensions}
  {place : Option (Partition.Address first.index.dimensions)} {visits : List Visit}
  {storage : Storage α} {cursor : Cursor α} {current : Option Key} {key : Key}

/-- A record that was not visited and is not the current one has the bytes of the beginning. -/
theorem Touring.untouched (touring : Touring former own first search place visits storage cursor
    (some key)) {other : Key} (fresh : other ∉ visits.map Visit.key) (different : other ≠ key) :
    storage.records.get? other = former.records.get? other := by
  obtain ⟨plain, replayed, -, edited⟩ := touring.replayed
  obtain ⟨bytes, -, same⟩ := edited key rfl
  rw [same, Pool.get?_set_ne _ _ different]
  exact replayed.untouched other fresh

/-- With the current record, the visited ones are distinct, and all of them were to do and met the
query. -/
theorem Touring.whole {current : Option Key}
    (touring : Touring former own first search place visits storage cursor current) :
    (visits.map Visit.key ++ current.toList).Nodup ∧
      ∀ key ∈ visits.map Visit.key ++ current.toList, Todo first.index.tree search place key ∧
        meets first.index.tree former.records search.query key = .ok true := by
  cases current with
  | none =>
    rw [Option.toList_none, List.append_nil]
    exact ⟨touring.distinct, touring.seen⟩
  | some key =>
    obtain ⟨tree, queue, now, there, -, stand⟩ := touring.stands
    have here := stand.todo key stand.visiting.faces.todo
    rw [Option.toList_some]
    constructor
    · rw [List.nodup_append]
      refine ⟨touring.distinct, List.nodup_singleton key, ?_⟩
      intro other visited again single same
      rw [List.mem_singleton] at single
      exact here.2 (single ▸ same ▸ visited)
    · intro other visited
      rw [List.mem_append, List.mem_singleton] at visited
      cases visited with
      | inl before => exact touring.seen other before
      | inr now => exact now ▸ ⟨here.1, (touring.passed key rfl).1⟩

/-- Leaving the current record adds a visit, when the records are those that a single edit of it
leaves. -/
theorem Touring.proceed (touring : Touring former own first search place visits storage cursor
      (some key))
    {tree : World.Tree α first.index.dimensions} {queue : List Key}
    {now : World.Search α first.index.dimensions}
    {there : Option (Partition.Address first.index.dimensions)}
    (stand : Stand former own first search place visits storage tree queue now there (some key))
    {visit : Visit} (named : visit.key = key) {plain : Storage α}
    (replayed : Replayed former (visits ++ [visit]) plain) {next : Cursor α} {after : Storage α}
    (proceeds : Proceeds storage own ((first.usedBy (first.index.cursors + 1)).withTree tree queue)
      now there key plain.records next after) :
    ∃ upcoming, Touring former own first search place (visits ++ [visit]) after next upcoming := by
  obtain ⟨last, rest, ahead, further, upcoming, rfl, visiting, carries, same, leaves, fresh⟩ :=
    proceeds
  have keys : (visits ++ [visit]).map Visit.key = visits.map Visit.key ++ [key] := by
    rw [List.map_append, List.map_cons, List.map_nil, named]
  have coming {other : Key} (todo : Todo last ahead further other) :
      Todo tree now there other ∧ Todo first.index.tree search place other ∧
        other ∉ visits.map Visit.key ∧ other ≠ key := by
    obtain ⟨before, different⟩ := leaves.todo other todo
    obtain ⟨start, unseen⟩ := stand.todo other before
    exact ⟨before, start, unseen, different⟩
  have unvisited {other : Key} (todo : Todo last ahead further other) :
      other ∉ (visits ++ [visit]).map Visit.key := by
    have absent := coming todo
    rw [keys, List.mem_append, List.mem_singleton, not_or]
    exact ⟨absent.2.2.1, absent.2.2.2⟩
  have kept {other : Key} (found : upcoming = some other) :
      Todo last ahead further other ∧ plain.records.get? other = some after.backup := by
    subst found
    have backup := fresh other rfl
    rw [carries.records] at backup
    exact ⟨visiting.faces.todo, backup⟩
  refine ⟨upcoming, ⟨plain, replayed, fun _ => carries.records, fun other found => ?_⟩, ?_, ?_,
    fun other found => ?_, last, rest, ahead, further, rfl, ?_⟩
  · have backup := (kept found).2
    rw [carries.records]
    exact ⟨after.backup, backup, (Pool.set_self backup).symm⟩
  · exact keys ▸ touring.whole.1
  · exact keys ▸ touring.whole.2
  · obtain ⟨todo, backup⟩ := kept found
    obtain ⟨-, -, unseen, different⟩ := coming todo
    subst found
    have passes := leaves.settled.passes visiting.faces
    have space : first.index.tree.SameSpace last := stand.space.trans same
    rw [leaves.query, stand.query] at passes
    have same := World.Search.meets_congr space (touring.untouched unseen different) search.query
    exact ⟨same.symm.trans passes, (replayed.untouched other (unvisited todo)).symm.trans backup⟩
  · refine ⟨visiting, ?_, stand.space.trans same, leaves.query.trans stand.query, ?_, ?_⟩
    · rw [carries.records]
      exact stand.carries.trans carries
    · intro other todo
      exact ⟨(coming todo).2.1, unvisited todo⟩
    · intro exact
      obtain ⟨exactNow, all⟩ := stand.exact exact
      obtain ⟨exactAhead, lost⟩ := leaves.exact exactNow
      refine ⟨exactAhead, fun other todo passes => ?_⟩
      rw [keys, List.mem_append, List.mem_singleton]
      cases all other todo passes with
      | inl before => exact .inl (.inl before)
      | inr later =>
        by_cases same : other = key
        · exact .inl (.inr same)
        · refine .inr (lost other later same ?_)
          have unseen := (stand.todo other later).2
          have still := World.Search.meets_congr stand.space (touring.untouched unseen same)
            search.query
          rw [stand.query]
          exact still.trans passes

/-- The current record can be edited by itself after the visits. -/
theorem Touring.single (touring : Touring former own first search place visits storage cursor
    (some key)) (free : former.readers = 0) :
    ∃ (plain : Storage α) (bytes : Bytes), storage.records.get? key = some bytes ∧
      storage.records = plain.records.set key bytes ∧
      ∀ left, left = some bytes ∨ left = none →
        ∃ after, Replayed former (visits ++ [⟨key, left⟩]) after ∧
          after.records = Visit.apply ⟨key, left⟩ plain.records := by
  obtain ⟨plain, replayed, -, edited⟩ := touring.replayed
  obtain ⟨bytes, found, same⟩ := edited key rfl
  obtain ⟨tree, queue, now, there, -, stand⟩ := touring.stands
  have unseen := (stand.todo key stand.visiting.faces.todo).2
  have backup : plain.records.get? key = some storage.backup :=
    (replayed.untouched key unseen).trans (touring.passed key rfl).2
  have sized : bytes.length = plain.layout.size := by
    rw [replayed.lands.alike.layout, ← stand.carries.alike.layout]
    exact stand.visiting.editing.keeps.sized found
  refine ⟨plain, bytes, found, same, fun left either => ?_⟩
  have backed : plain.records.get? (Visit.mk key left).key = some storage.backup := backup
  apply replayed.snoc free backed
  intro kept has
  cases either with
  | inl written =>
    rw [show left = some kept from has, Option.some.injEq] at written
    exact written ▸ sized
  | inr erased =>
    rw [show left = some kept from has] at erased
    cases erased

/-- Going on adds a visit with the bytes that the record has. -/
theorem Touring.advance (touring : Touring former own first search place visits storage cursor
    (some key)) (free : former.readers = 0) :
    Ensures (advanceEdit cursor) storage
      (fun next after => ∃ upcoming, Touring former own first search place
        (visits ++ [⟨key, storage.records.get? key⟩]) after next upcoming)
      fun _ _ => False := by
  obtain ⟨plain, bytes, found, same, single⟩ := touring.single free
  obtain ⟨after, replayed, records⟩ := single _ (.inl rfl)
  obtain ⟨tree, queue, now, there, rfl, stand⟩ := touring.stands
  refine stand.visiting.advanceEdit.ends ?_
  intro next last proceeds
  rw [found]
  have kept : after.records = storage.records := records.trans same.symm
  exact touring.proceed stand rfl replayed (kept ▸ proceeds)

/-- Erasing adds a visit without bytes. -/
theorem Touring.erase (touring : Touring former own first search place visits storage cursor
    (some key)) (free : former.readers = 0) :
    Ensures (eraseEdit cursor) storage
      (fun next after => ∃ upcoming, Touring former own first search place
        (visits ++ [⟨key, none⟩]) after next upcoming)
      fun _ _ => False := by
  obtain ⟨plain, bytes, found, same, single⟩ := touring.single free
  obtain ⟨after, replayed, records⟩ := single _ (.inr rfl)
  obtain ⟨tree, queue, now, there, rfl, stand⟩ := touring.stands
  refine stand.visiting.eraseEdit.ends ?_
  intro next last proceeds
  have removed : after.records = storage.records.remove key := by
    rw [same, Pool.remove_set]
    exact records
  exact touring.proceed stand rfl replayed (removed ▸ proceeds)

/-- An edit of the current record, also one that is aborted, changes nothing but its bytes. -/
theorem Touring.change (touring : Touring former own first search place visits storage cursor
    (some key)) (edit : Edit) :
    Ensures (changeCurrent cursor edit) storage
      (fun _ after => Touring former own first search place visits after cursor (some key))
      fun _ after => Touring former own first search place visits after cursor (some key) := by
  obtain ⟨plain, replayed, -, edited⟩ := touring.replayed
  obtain ⟨bytes, found, same⟩ := edited key rfl
  obtain ⟨tree, queue, now, there, rfl, stand⟩ := touring.stands
  have remains {after : Storage α} (changed : ∃ edited, after = { storage with
        records := storage.records.set key (overwrite bytes edited) } ∧
      Visiting after own ((first.usedBy (first.index.cursors + 1)).withTree tree queue) now there
        (some key)) :
      Touring former own first search place visits after
        (((first.usedBy (first.index.cursors + 1)).withTree tree queue).cursor own now)
        (some key) := by
    obtain ⟨edited, rfl, visiting⟩ := changed
    have last := Pool.get?_set_self (overwrite bytes edited) found
    refine ⟨⟨plain, replayed, (fun absurd => by cases absurd), fun other here => ?_⟩,
      touring.distinct, touring.seen, touring.passed, tree, queue, now, there, rfl,
      visiting, ?_, stand.space, stand.query, stand.todo, stand.exact⟩
    · obtain rfl := Option.some.inj here
      refine ⟨_, last, ?_⟩
      show storage.records.set key (overwrite bytes edited) = _
      rw [same, Pool.set_set]
    · exact stand.carries.trans (.of_eq rfl rfl rfl rfl)
  exact (stand.visiting.changeCurrent found edit).imp (fun _ _ => remains)
    fun _ _ failed => remains failed.1

/-- The current record is what the cursor looks at. -/
theorem Touring.current?_eq {current : Option Key}
    (touring : Touring former own first search place visits storage cursor current) :
    storage.current? cursor = .ok current := by
  obtain ⟨tree, queue, now, there, rfl, stand⟩ := touring.stands
  exact stand.visiting.editing.current?_eq stand.visiting.faces

/-- At its end an edit cursor changes nothing any more. -/
theorem Touring.ended
    (touring : Touring former own first search place visits storage cursor none) (edit : Edit) :
    Ensures (changeCurrent cursor edit) storage (fun _ after => after = storage)
        (fun _ _ => False) ∧
      Ensures (advanceEdit cursor) storage (fun _ _ => False) (fun _ after => after = storage) ∧
      Ensures (eraseEdit cursor) storage (fun _ _ => False) fun _ after => after = storage := by
  obtain ⟨tree, queue, now, there, rfl, stand⟩ := touring.stands
  exact ⟨stand.visiting.changeCurrent_over edit,
    stand.visiting.advanceEdit_over.imp (fun _ _ => id) fun _ _ => And.left,
    stand.visiting.eraseEdit_over.imp (fun _ _ => id) fun _ _ => And.left⟩

/-- Closing a cursor leaves its current record with the bytes that it has; the storage then agrees
with single edits of all visited records. -/
theorem Touring.close {current : Option Key}
    (touring : Touring former own first search place visits storage cursor current)
    (free : former.readers = 0) :
    Ensures (closeEdit cursor) storage
      (fun _ after => after.InStep ∧ after.writers = 0 ∧ ∃ plain,
        Replayed former
          (visits ++ (current.map fun key => ⟨key, storage.records.get? key⟩).toList) plain ∧
        after.Agrees plain)
      fun _ _ => False := by
  have last : ∃ plain, Replayed former
      (visits ++ (current.map fun key => ⟨key, storage.records.get? key⟩).toList) plain ∧
        storage.records = plain.records := by
    cases current with
    | none =>
      obtain ⟨plain, replayed, same, -⟩ := touring.replayed
      exact ⟨plain, by rw [Option.map_none, Option.toList_none, List.append_nil]; exact replayed,
        same rfl⟩
    | some key =>
      obtain ⟨plain, bytes, found, same, single⟩ := touring.single free
      obtain ⟨after, replayed, records⟩ := single _ (.inl found)
      rw [found] at records
      exact ⟨after, replayed, same.trans records.symm⟩
  obtain ⟨plain, replayed, records⟩ := last
  obtain ⟨tree, queue, now, there, rfl, stand⟩ := touring.stands
  refine stand.visiting.closeEdit.ends ?_
  intro _ after lands
  refine ⟨lands.inStep, lands.writers, plain, replayed, ?_⟩
  exact agrees_of_inStep lands.inStep replayed.lands.inStep
    (stand.carries.alike.trans lands.alike) replayed.lands.alike (lands.records.trans records)

end Touring

end Storage

end SpatialIndex
