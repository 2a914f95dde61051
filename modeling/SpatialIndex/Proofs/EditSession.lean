import SpatialIndex.Proofs.Session
import SpatialIndex.Proofs.Storage.Tour

/-!
# Edit sessions

Whatever is done with an edit cursor before it is closed, it visits no record twice and only
records that met its query when it opened; over a shape a read cursor would have yielded them, and
no others when the end was reached. The storage is then as if every visited record had been
modified or deleted by itself, in the order of the visits.
-/
open SpatialIndex.Action (Ensures)

namespace SpatialIndex

open Record (Bytes Edit Layout LayoutSpec)
open Storage (Touring)
open World.Search (Settled meets)

/-- Whether a request ends a cursor. -/
def Request.closes : Request → Bool
  | drop => true
  | forget => true
  | _ => false

variable {α : Type} [Arithmetic α]

namespace Session

/-- The current record of an edit cursor. -/
def current? (session : Session α) : Option Key :=
  match session.held with
  | .editor cursor => (session.storage.current? cursor).toOption.join
  | _ => none

/-- The record that a request has an edit cursor leave, if any. -/
def leaves (session : Session α) (request : Request) : List Visit :=
  match request with
  | .leave => (session.current?.map fun key => ⟨key, session.storage.records.get? key⟩).toList
  | .drop => (session.current?.map fun key => ⟨key, session.storage.records.get? key⟩).toList
  | .erase => (session.current?.map fun key => ⟨key, none⟩).toList
  | _ => []

/-- The records that requests have an edit cursor leave, in their order. -/
def visits (session : Session α) : List Request → List Visit
  | [] => []
  | request :: rest => session.leaves request ++ (session.step request).visits rest

/-- A session with an edit cursor that has visited some records since it opened. -/
def Tours (former : Storage α) (own : Key) (first : Storage.Member α)
    (search : World.Search α first.index.dimensions)
    (place : Option (Partition.Address first.index.dimensions)) (visits : List Visit)
    (session : Session α) : Prop :=
  ∃ cursor current, session.held = .editor cursor ∧
    Touring former own first search place visits session.storage cursor current

variable {former : Storage α} {own : Key} {first : Storage.Member α}
  {search : World.Search α first.index.dimensions}
  {place : Option (Partition.Address first.index.dimensions)} {visited : List Visit}
  {session : Session α}

/-- The current record of a tour. -/
theorem current?_eq {storage : Storage α} {cursor : Cursor α} {current : Option Key}
    (touring : Touring former own first search place visited storage cursor current) :
    current? ⟨storage, .editor cursor⟩ = current := by
  show (storage.current? cursor).toOption.join = current
  rw [touring.current?_eq]
  rfl

/-- A request to an edit cursor adds the visit of the record that it leaves. -/
theorem Tours.step (tours : Tours former own first search place visited session)
    (free : former.readers = 0) {request : Request} (stays : request.closes = false) :
    Tours former own first search place (visited ++ session.leaves request)
      (session.step request) := by
  obtain ⟨storage, held⟩ := session
  obtain ⟨cursor, current, rfl, touring⟩ := tours
  have now := current?_eq touring
  have same (after : Storage α) (unchanged : after = storage) :
      Tours former own first search place visited ⟨after, .editor cursor⟩ :=
    ⟨cursor, current, rfl, unchanged ▸ touring⟩
  cases request with
  | change edit =>
    rw [show leaves ⟨storage, .editor cursor⟩ (.change edit) = [] from rfl, List.append_nil]
    cases current with
    | none =>
      exact perform_of_ensures (touring.ended edit).1 (fun _ => same) fun _ _ => False.elim
    | some key =>
      exact perform_of_ensures (touring.change edit)
        (fun _ _ changed => ⟨cursor, some key, rfl, changed⟩)
        fun _ _ changed => ⟨cursor, some key, rfl, changed⟩
  | leave =>
    unfold leaves
    simp only [now]
    cases current with
    | none =>
      rw [Option.map_none, Option.toList_none, List.append_nil]
      exact perform_of_ensures (touring.ended (fun _ => .ok () [])).2.1 (fun _ _ => False.elim)
        fun _ => same
    | some key =>
      refine perform_of_ensures (touring.advance free) ?_ fun _ _ => False.elim
      rintro next after ⟨upcoming, further⟩
      exact ⟨next, upcoming, rfl, further⟩
  | erase =>
    unfold leaves
    simp only [now]
    cases current with
    | none =>
      rw [Option.map_none, Option.toList_none, List.append_nil]
      exact perform_of_ensures (touring.ended (fun _ => .ok () [])).2.2 (fun _ _ => False.elim)
        fun _ => same
    | some key =>
      refine perform_of_ensures (touring.erase free) ?_ fun _ _ => False.elim
      rintro next after ⟨upcoming, further⟩
      exact ⟨next, upcoming, rfl, further⟩
  | drop => cases stays
  | forget => cases stays
  | _ =>
    rw [show leaves ⟨storage, .editor cursor⟩ _ = [] from rfl, List.append_nil]
    exact same storage rfl

/-- A run of an edit cursor adds its visits. -/
theorem Tours.run (tours : Tours former own first search place visited session)
    (free : former.readers = 0) {requests : List Request}
    (stays : ∀ request ∈ requests, request.closes = false) :
    Tours former own first search place (visited ++ session.visits requests)
      (session.run requests) := by
  induction requests generalizing session visited with
  | nil =>
    rw [visits, List.append_nil]
    exact tours
  | cons request rest ih =>
    rw [visits, ← List.append_assoc]
    exact ih (tours.step free (stays request List.mem_cons_self))
      fun other later => stays other (List.mem_cons_of_mem _ later)

/-- What an edit cursor that was opened over a storage, and closed when it was `last`, has done:
the records that it visited, and the session that it left. -/
structure Edits (former : Storage α) (own : Key) (first : Storage.Member α) (query : Query)
    (last : Session α) (visited : List Visit) (closed : Session α) : Prop where
  /-- Nothing is held of the storage any more. -/
  held : closed.held = .readers []
  /-- It is not in use any more. -/
  idle : closed.storage.writers = 0
  /-- No record was visited twice. -/
  distinct : (visited.map Visit.key).Nodup
  /-- The visited records met the query when the cursor opened. -/
  met : ∃ search, query.start first.index.tree former.records = .ok search ∧
    ∀ key ∈ visited.map Visit.key,
      meets first.index.tree former.records search.query key = .ok true
  /-- Over a shape a read cursor would have yielded them, and no others if the end was reached. -/
  found : ∀ bounds, query = .shape bounds → ∃ keys after,
    Storage.find own query former = .ok keys after ∧ visited.map Visit.key ⊆ keys ∧
      (last.current? = none → (visited.map Visit.key).Perm keys)
  /-- Single edits of the visited records lead to the same records at the same places. -/
  agrees : ∃ plain, visited.mapM Visit.replay former = .ok (visited.map fun _ => true) plain ∧
    closed.storage.Agrees plain

/-- Closing an edit cursor. -/
theorem Tours.close {query : Query} (tours : Tours former own first search place visited session)
    (inStep : former.InStep) (free : former.readers = 0) (idle : former.writers = 0)
    (starts : former.Starts own query first search)
    (settled : Settled first.index.tree former.records search place)
    (exact : ∀ bounds, query = .shape bounds → search.walk.Exact) :
    Edits former own first query session (visited ++ session.leaves .drop)
      (session.step .drop) := by
  obtain ⟨storage, held⟩ := session
  obtain ⟨cursor, current, rfl, touring⟩ := tours
  have now := current?_eq touring
  have last : leaves ⟨storage, .editor cursor⟩ .drop =
      (current.map fun key => ⟨key, storage.records.get? key⟩).toList := by
    unfold leaves
    simp only [now]
  have keys : (visited ++ leaves ⟨storage, .editor cursor⟩ .drop).map Visit.key =
      visited.map Visit.key ++ current.toList := by
    rw [last, List.map_append]
    cases current <;> rfl
  obtain ⟨distinct, seen⟩ := touring.whole
  refine perform_of_ensures (touring.close free) ?_ fun _ _ => False.elim
  rintro - after ⟨-, unused, plain, replayed, agrees⟩
  refine ⟨rfl, unused, keys ▸ distinct, ⟨search, starts.2, ?_⟩, ?_, plain, ?_, agrees⟩
  · intro key visited
    exact (seen key (keys ▸ visited)).2
  · intro bounds shape
    obtain ⟨yielded, rest, ran, once, sound, complete⟩ :=
      (inStep.find idle starts.1 starts.2 settled).exists_eq
    have all := exact bounds shape
    refine ⟨yielded, rest, ran, ?_, fun ended => ?_⟩
    · intro key visited
      obtain ⟨todo, passes⟩ := seen key (keys ▸ visited)
      exact complete all key todo passes
    · have none : current = none := now.symm.trans ended
      subst none
      rw [keys, Option.toList_none, List.append_nil] at *
      rw [List.perm_ext_iff_of_nodup distinct once]
      intro key
      constructor
      · intro visited
        obtain ⟨todo, passes⟩ := seen key visited
        exact complete all key todo passes
      · intro met
        obtain ⟨todo, passes⟩ := sound key met
        exact touring.complete all todo passes
  · rw [last]
    exact replayed.ran

/-- Three records, two of them between zero and three. -/
def Sample.fills : List Request :=
  [.call (.createIndex [line]), .call (.insert [1, 1]), .call (.insert [2, 3]),
    .call (.insert [6, 6])]

/-- A storage of them. -/
def Sample.stored : Session Float :=
  (start Sample.layout .standard Sample.journal).run Sample.fills

/-- The first record that is visited moves across the line, and the second is deleted. -/
def Sample.moves : List Request := [.change (Edit.copy [6, 7]), .leave, .erase]

end Session

end SpatialIndex
