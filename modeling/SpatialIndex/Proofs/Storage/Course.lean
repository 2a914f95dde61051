import SpatialIndex.Proofs.Partition.Footing
import SpatialIndex.Proofs.Storage.Indices

/-!
# Cursors that go on

Wherever a cursor goes, it stays a cursor of its index, and the frames of its walk have passed one
another as they had when its search started.
-/
open SpatialIndex.Action (Ensures)

namespace SpatialIndex

open Record (Bytes)

variable {α : Type} [Arithmetic α]

/-! ## Searches -/

namespace World.Search

variable {D : Nat} {tree : Tree α D} {records : Pool Bytes} {search next : Search α D}

/-- Going on to a record keeps the frames of the walk. -/
theorem aligned_seekWithin (fuel : Nat) (aligned : search.walk.Aligned) :
    Ensures (seekWithin tree records fuel) search (fun _ after => after.walk.Aligned)
      fun _ _ => True := by
  induction fuel generalizing search with
  | zero => exact aligned
  | succ fuel ih =>
    rw [seekWithin, Action.ensures_bind, Action.ensures_get, Action.ensures_bind]
    cases search.walk.items? tree.partition with
    | error fault => trivial
    | ok items =>
      cases items with
      | none => exact aligned
      | some items =>
        rw [Action.ensures_ofExcept_ok, Action.ensures_bind, Action.ensures_set,
          Action.ensures_bind]
        generalize scan (meets tree records search.query) (items.toList.drop search.position)
          search.position = outcome
        obtain ⟨position, found⟩ := outcome
        cases found with
        | error fault => trivial
        | ok passes =>
          rw [Action.ensures_ofExcept_ok]
          cases passes with
          | true => exact aligned
          | false =>
            rw [if_neg Bool.false_ne_true, Action.ensures_bind]
            cases went : search.walk.advance tree.partition with
            | error fault => trivial
            | ok walk =>
              rw [Action.ensures_ofExcept_ok, Action.ensures_bind, Action.ensures_set]
              exact ih (aligned.advance went)

/-- Seeking the next key that is met keeps a search aligned. -/
theorem aligned_seek (aligned : search.walk.Aligned) :
    Ensures (seek tree records) search (fun _ after => after.walk.Aligned) fun _ _ => True :=
  aligned_seekWithin _ aligned

omit [Arithmetic α] in
/-- A search that is run keeps what its action ensures. -/
theorem aligned_of_run {action : Action (Search α D) Unit}
    (ensured : Ensures action search (fun _ after => after.walk.Aligned) fun _ _ => True)
    (run : World.Search.run action search = .ok next) : next.walk.Aligned := by
  unfold World.Search.run at run
  unfold Ensures at ensured
  split at run
  · rename_i ran
    cases run
    rw [ran] at ensured
    exact ensured
  · cases run

/-- A search that goes on stays aligned. -/
theorem aligned_advance (aligned : search.walk.Aligned)
    (run : search.advance tree records = .ok next) : next.walk.Aligned := by
  unfold advance at run
  obtain ⟨items, -, run⟩ := Except.bind_eq_ok_iff.mp run
  cases items with
  | none =>
    cases run
    exact aligned
  | some items =>
    refine aligned_of_run (aligned_seek ?_) run
    exact aligned

/-- Removing the current record keeps the frames of the walk. -/
theorem aligned_eraseCurrent (aligned : search.walk.Aligned) :
    Ensures (eraseCurrent records) (tree, search) (fun _ after => after.2.walk.Aligned)
      fun _ _ => True := by
  rw [eraseCurrent, Action.ensures_bind, Action.ensures_get, Action.ensures_bind]
  cases search.current? tree with
  | error fault => trivial
  | ok current =>
    cases current with
    | none => trivial
    | some key =>
      rw [Action.ensures_ofExcept_ok, Action.ensures_bind]
      cases removed : search.walk.removeItem tree.partition search.position with
      | error fault => trivial
      | ok outcome =>
        obtain ⟨partition, walk, left⟩ := outcome
        rw [Action.ensures_ofExcept_ok, Action.ensures_bind, Action.ensures_set,
          Action.ensures_onPart]
        exact aligned_seek (aligned.removeItem removed)

end World.Search

/-- A search starts with frames that have passed one another. -/
theorem Query.aligned_start {D : Nat} {tree : World.Tree α D} {records : Pool Bytes} {query : Query}
    {search : World.Search α D} (started : query.start tree records = .ok search) :
    search.walk.Aligned := by
  cases query with
  | shape bounds =>
    obtain ⟨⟨low, high⟩, -, runs⟩ := Except.bind_eq_ok_iff.mp started
    obtain ⟨walk, begun, run⟩ := Except.bind_eq_ok_iff.mp runs
    have passed : (Partition.Walk.box walk : Partition.Walk α D).Aligned :=
      Partition.BoxWalk.passed_of_start begun
    refine World.Search.aligned_of_run (World.Search.aligned_seek ?_) run
    exact passed
  | ray axes distance =>
    obtain ⟨⟨origin, direction⟩, -, run⟩ := Except.bind_eq_ok_iff.mp started
    refine World.Search.aligned_of_run (World.Search.aligned_seek ?_) run
    exact trivial

/-! ## Cursors -/

/-- A cursor that another one has become: it is over the same index, and its frames have passed one
another if those of the other had. -/
structure Cursor.Becomes (cursor next : Cursor α) : Prop where
  /-- The index stays. -/
  index : next.index = cursor.index
  /-- The frames of the walk pass one another. -/
  aligned : cursor.search.walk.Aligned → next.search.walk.Aligned

namespace Storage

variable {storage : Storage α} {cursor next : Cursor α}

/-- A cursor that goes on is over the same index. -/
theorem next_becomes (went : storage.next cursor = .ok next) : cursor.Becomes next := by
  simp only [Storage.next, Except.bind_eq_ok_iff] at went
  obtain ⟨tree, -, search, advanced, made⟩ := went
  cases made
  exact ⟨rfl, fun aligned => World.Search.aligned_advance aligned advanced⟩

/-- A read cursor that goes on is over the same index. -/
theorem advanceRead_becomes (went : storage.advanceRead cursor = .ok next) :
    cursor.Becomes next := by
  simp only [Storage.advanceRead, Except.bind_eq_ok_iff] at went
  obtain ⟨current, -, went⟩ := went
  cases current with
  | none =>
    cases went
    exact ⟨rfl, id⟩
  | some key => exact next_becomes went

variable (cursor) (storage)

/-- A cursor whose record is taken out of the tree is over the same index. -/
theorem takeCurrent_becomes :
    Ensures (takeCurrent cursor) storage (fun next _ => cursor.Becomes next) fun _ _ => True := by
  refine .skip fun storage _ => .skip fun tree _ => ?_
  by_cases aligned : cursor.search.walk.Aligned
  · have erased : Ensures (World.Search.eraseCurrent storage.records) (tree, cursor.search)
        (fun _ after => after.2.walk.Aligned) fun _ _ => True :=
      World.Search.aligned_eraseCurrent aligned
    unfold Ensures at erased
    split
    · rename_i ran
      rw [ran] at erased
      exact .skip fun _ _ => ⟨rfl, fun _ => erased⟩
    · exact .skip fun _ _ => trivial
  · split
    · exact .skip fun _ _ => ⟨rfl, fun absurd => (aligned absurd).elim⟩
    · exact .skip fun _ _ => trivial

/-- Leaving a record does not lead to another index. -/
theorem leaveCurrent_becomes (key : Key) (onward : Bool) :
    Ensures (leaveCurrent cursor key onward) storage (fun next _ => cursor.Becomes next)
      fun _ _ => True := by
  have goes (moved : Bool) (left former : Storage α) : Ensures (do
      if moved then
        let cursor ← takeCurrent cursor
        modifyIndex cursor.index fun index => index.defer key
        return cursor
      else if onward then orAbort (former.next cursor)
      else return cursor : StorageOp α (Cursor α)) left (fun next _ => cursor.Becomes next)
      fun _ _ => True := by
    cases moved with
    | true =>
      simp only [if_true, Action.ensures_bind]
      refine (takeCurrent_becomes left cursor).imp (fun next taken same => ?_) fun _ _ => id
      rw [← Action.ensures_bind]
      exact .skip fun _ _ => same
    | false =>
      cases onward with
      | true => exact ensures_orAbort _ (fun _ => next_becomes) fun _ _ => trivial
      | false => exact ⟨rfl, id⟩
  refine .skip fun concerned _ => .skip fun former _ => .skip fun edited _ => .skip fun tree _ => ?_
  dsimp only
  split
  · exact .skip fun moved left => goes moved left former
  · exact .skip fun moved left => goes moved left former

/-- An edit cursor that goes on is over the same index. -/
theorem advanceEdit_becomes :
    Ensures (advanceEdit cursor) storage (fun next _ => cursor.Becomes next) fun _ _ => True := by
  refine .skip fun storage _ => .skip fun current left => ?_
  cases current with
  | none => trivial
  | some key =>
    dsimp only
    rw [Action.ensures_bind]
    exact (leaveCurrent_becomes left cursor key true).imp
      (fun _ _ goes => .skip fun _ _ => goes) fun _ _ => id

/-- An edit cursor that erases its record is over the same index. -/
theorem eraseEdit_becomes :
    Ensures (eraseEdit cursor) storage (fun next _ => cursor.Becomes next) fun _ _ => True := by
  refine .skip fun storage _ => .skip fun current left => ?_
  cases current with
  | none => trivial
  | some key =>
    dsimp only
    rw [Action.ensures_bind]
    exact (takeCurrent_becomes left cursor).imp
      (fun _ _ goes => .skip fun _ _ => .skip fun _ _ => goes) fun _ _ => id

end Storage

end SpatialIndex
