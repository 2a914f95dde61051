import SpatialIndex.Proofs.Storage.Records
import SpatialIndex.Proofs.World.Search
import SpatialIndex.Storage.Cursor

/-!
# Cursors keep indices in step

A read cursor changes no index. While an edit cursor is open, the record under edition is where
its former bytes lead, in its own index and in the others; leaving the record brings the others
up to date, and its own index too unless the record moves and waits.
-/
open SpatialIndex.Action (Ensures)

namespace SpatialIndex

open Record (Bytes Edit)
open World.Search (Backed Faces Leaves Settled)

namespace Query

/-- The pairs of coordinates of a query, one for each axis. -/
def pairs : Query → List (Coordinate × Coordinate)
  | shape bounds => bounds
  | ray axes _ => axes

/-- A query of a type and a count of axes. -/
structure Fits (query : Query) (numeric : Numeric) (D : Nat) : Prop where
  /-- There is a pair for every axis. -/
  sized : query.pairs.length = D
  /-- All coordinates are of the type. -/
  typed : ∀ pair ∈ query.pairs, pair.1.numeric = numeric ∧ pair.2.numeric = numeric

/-- Pairs of coordinates of the type of an index make two points. -/
theorem points_eq {numeric : Numeric} {D : Nat} (isRay : Bool)
    {pairs : Vector (Coordinate × Coordinate) D}
    (typed : ∀ d : Fin D, (pairs.get d).1.numeric = numeric ∧ (pairs.get d).2.numeric = numeric) :
    points numeric D isRay pairs.toList = .ok (pairs.map Prod.fst, pairs.map Prod.snd) := by
  have sized : pairs.toList.toArray.size = D := by simp
  have first : pairs.mapM (fun pair => expect numeric pair.1) = .ok (pairs.map Prod.fst) := by
    apply Except.mapM_vector_eq_ok
    intro d
    rw [expect, if_pos (typed d).1]
    simp [Vector.get]
  have second : pairs.mapM (fun pair => expect numeric pair.2) = .ok (pairs.map Prod.snd) := by
    apply Except.mapM_vector_eq_ok
    intro d
    rw [expect, if_pos (typed d).2]
    simp [Vector.get]
  unfold points
  rw [dif_pos sized]
  have same : (⟨pairs.toList.toArray, sized⟩ : Vector (Coordinate × Coordinate) D) = pairs := rfl
  simp only [same, first, second, bind, Except.bind]
  rfl

/-- A query that fits an index has two points. -/
theorem Fits.exists_points {query : Query} {numeric : Numeric} {D : Nat}
    (fits : query.Fits numeric D) (isRay : Bool) :
    ∃ first second, points numeric D isRay query.pairs = .ok (first, second) := by
  have enough : query.pairs.toArray.size = D := by rw [List.size_toArray, fits.sized]
  have each (d : Fin D) : (⟨query.pairs.toArray, enough⟩ : Vector _ D).get d ∈ query.pairs := by
    simp [Vector.get]
  exact ⟨_, _, points_eq isRay fun d => fits.typed _ (each d)⟩

end Query

namespace Storage

variable {α : Type} {storage : Storage α} {own key : Key} {member : Member α}

/-- A member with another tree over the same space and another queue. -/
def Member.withTree (member : Member α) (tree : World.Tree α member.index.dimensions)
    (queue : List Key) : Member α :=
  ⟨⟨member.index.dimensions, tree, member.index.cursors, queue⟩, member.mask⟩

/-- A member that as many cursors use. -/
def Member.usedBy (member : Member α) (cursors : Nat) : Member α :=
  { member with index := { member.index with cursors } }

/-- The cursor of an index over a search of its tree. -/
def Member.cursor (member : Member α) (own : Key)
    (search : World.Search α member.index.dimensions) : Cursor α :=
  ⟨own, member.index.dimensions, search⟩

/-- A cursor of an index finds the tree of the index. -/
theorem cursorTree_eq (found : storage.indices.get? own = some member)
    (search : World.Search α member.index.dimensions) :
    storage.cursorTree (member.cursor own search) = .ok member.index.tree := by
  have tree : member.index.treeOver? member.index.dimensions = some member.index.tree :=
    Index.treeOver?_eq_some_iff.mpr rfl
  simp only [cursorTree, Member.cursor, found, tree]

/-- An index that is there is changed. -/
theorem modifyIndex_spec (found : storage.indices.get? own = some member)
    (change : Index α → Index α) :
    Ensures (modifyIndex own change) storage
      (fun _ after => after = { storage with
        indices := storage.indices.set own { member with index := change member.index } })
      fun _ _ => False := by
  rw [modifyIndex, ensures_onIndex found, Action.ensures_modify]

/-- An exchange of an index for one over the same space leaves the storage alike. -/
theorem Alike.replace (found : storage.indices.get? own = some member) {index : Index α}
    (stays : member.index.Over index) :
    storage.Alike
      { storage with indices := storage.indices.set own { member with index } } := by
  refine ⟨rfl, fun {key} missing => ?_, fun {key other} there => ?_⟩
  · show (storage.indices.set own { member with index }).get? key = none
    rw [Pool.get?_set_ne _ _ (fun same => by rw [same, found] at missing; cases missing), missing]
  · show ∃ index', (storage.indices.set own { member with index }).get? key = _ ∧ _
    by_cases same : key = own
    · subst same
      rw [found, Option.some.injEq] at there
      exact ⟨index, there ▸ Pool.get?_set_self _ found, there ▸ stays⟩
    · exact ⟨other.index, by rw [Pool.get?_set_ne _ _ same, there], .refl _⟩

/-- Another count of cursors leaves the storage alike. -/
theorem Alike.usedBy (found : storage.indices.get? own = some member) (cursors : Nat) :
    storage.Alike { storage with indices := storage.indices.set own (member.usedBy cursors) } :=
  .replace found ⟨member.index.tree, cursors, member.index.queue, .refl _, rfl⟩

/-- A cursor of an index is noted. -/
theorem openCursor_spec (found : storage.indices.get? own = some member) :
    Ensures (openCursor own) storage
      (fun _ after => after = { storage with
        indices := storage.indices.set own (member.usedBy (member.index.cursors + 1)) })
      fun _ _ => False :=
  modifyIndex_spec found _

/-- The end of a cursor of an index in use is noted. -/
theorem closeCursor_spec (found : storage.indices.get? own = some member)
    (used : 0 < member.index.cursors) :
    Ensures (closeCursor own) storage
      (fun _ after => after = { storage with
        indices := storage.indices.set own (member.usedBy (member.index.cursors - 1)) })
      fun _ _ => False := by
  have positive : ¬member.index.cursors = 0 := by omega
  simp only [closeCursor, ensures_onIndex found, Action.ensures_bind, Action.ensures_get,
    if_neg positive, Action.ensures_set]
  rfl

/-- A storage of which only the counts of readers and cursors differ. -/
inductive Recounted (storage : Storage α) : Storage α → Prop
  /-- The readers differ. -/
  | readers (readers : Nat) : Recounted storage { storage with readers }
  /-- The readers differ, and the cursors of an index. -/
  | cursors {own : Key} {member : Member α} (found : storage.indices.get? own = some member)
    (cursors readers : Nat) : Recounted storage { storage with
      readers
      indices := storage.indices.set own (member.usedBy cursors) }

/-- A storage differs from itself in no count. -/
theorem Recounted.refl (storage : Storage α) : storage.Recounted storage := .readers storage.readers

/-- Registering a read cursor changes counts at most. -/
theorem openRead_spec (storage : Storage α) (cursor : Cursor α) :
    Ensures (openRead cursor) storage
      (fun _ after => storage.writers = 0 ∧ storage.Recounted after)
      fun _ after => storage.Recounted after := by
  unfold openRead
  rw [Action.ensures_bind]
  refine (openReader_spec storage).imp ?_ fun _ _ failed => failed.1 ▸ .refl storage
  rintro - _ ⟨idle, rfl⟩
  let opened : Storage α := { storage with readers := storage.readers + 1 }
  cases found : storage.indices.get? cursor.index with
  | none =>
    have failed : openCursor cursor.index opened = .error (.aborted .staleKey) opened := by
      unfold openCursor modifyIndex onIndex
      rw [show opened.indices.get? cursor.index = none from found]
    unfold Ensures
    rw [failed]
    exact .readers _
  | some member =>
    refine (openCursor_spec (show opened.indices.get? cursor.index = _ from found)).ends ?_
    rintro - _ rfl
    exact ⟨idle, .cursors found _ _⟩

/-- Closing a read cursor changes counts at most. -/
theorem closeRead_spec (storage : Storage α) (cursor : Cursor α) :
    Ensures (closeRead cursor) storage (fun _ after => storage.Recounted after)
      fun _ after => storage.Recounted after := by
  unfold closeRead
  rw [Action.ensures_bind]
  cases found : storage.indices.get? cursor.index with
  | none =>
    have failed : closeCursor cursor.index storage = .error (.aborted .staleKey) storage := by
      unfold closeCursor onIndex
      rw [found]
    unfold Ensures
    rw [failed]
    exact .refl storage
  | some member =>
    by_cases used : 0 < member.index.cursors
    · refine (closeCursor_spec found used).ends ?_
      rintro - _ rfl
      refine (closeReader_spec _).imp ?_ ?_
      · rintro - _ rfl
        exact .cursors found _ _
      · rintro - _ ⟨rfl, -⟩
        exact .cursors found _ _
    · have none_uses : member.index.cursors = 0 := by omega
      simp only [closeCursor, ensures_onIndex found, Action.ensures_bind, Action.ensures_get,
        none_uses, if_true, Action.ensures_throw]
      exact .cursors found member.index.cursors storage.readers

/-- What the indices show while a record is under edition: its bytes as they were before. -/
def believed (storage : Storage α) (current : Option Key) : Key → Option Bytes :=
  match current with
  | none => storage.records.get?
  | some key => Function.update storage.records.get? key (some storage.backup)

/-- Under edition, what is shown becomes the records when the new bytes are shown. -/
theorem believed_update {bytes : Bytes} (found : storage.records.get? key = some bytes) :
    Function.update (storage.believed (some key)) key (some bytes) = storage.records.get? := by
  rw [believed, Function.update_idem, ← found, Function.update_eq_self]

/-- An edit of the record under edition is not shown. -/
theorem believed_set {bytes : Bytes} (found : storage.records.get? key = some bytes)
    (edited : Bytes) :
    believed { storage with records := storage.records.set key edited } (some key) =
      storage.believed (some key) := by
  show Function.update (storage.records.set key edited).get? key (some storage.backup) = _
  rw [Pool.get?_set_eq_update found, Function.update_idem]
  rfl

variable [Arithmetic α]

/-! ## Locating -/

/-- A search that starts in an index of a storage. -/
def Starts (storage : Storage α) (own : Key) (query : Query) (member : Member α)
    (search : World.Search α member.index.dimensions) : Prop :=
  storage.indices.get? own = some member ∧
    query.start member.index.tree storage.records = .ok search

/-- Why no search starts in an index of a storage. -/
inductive Astray (storage : Storage α) (own : Key) (query : Query) : Failure → Prop
  /-- There is no such index. -/
  | unknown : storage.indices.get? own = none →
    Astray storage own query (.rejected (.unknownIndex own))
  /-- The index refuses the query. -/
  | refused {member : Member α} {fault : Fault} : storage.indices.get? own = some member →
    query.start member.index.tree storage.records = .error fault →
    Astray storage own query (.aborted fault)

/-- A cursor starts at the first record of its query, unless no search starts. -/
theorem locate_spec (storage : Storage α) (own : Key) (query : Query) :
    Ensures (locate own query) storage
      (fun cursor after => after = storage ∧ ∃ member search,
        storage.Starts own query member search ∧ cursor = member.cursor own search)
      fun failure after => after = storage.failing failure ∧
        storage.Astray own query failure := by
  simp only [locate, Storage.member, Action.ensures_bind, Action.ensures_get]
  cases found : storage.indices.get? own with
  | none =>
    simp only [reject, Action.ensures_bind, Action.ensures_modify, Action.ensures_throw]
    exact ⟨rfl, .unknown found⟩
  | some member =>
    simp only [Action.ensures_pure]
    refine ensures_orAbort _ (fun search started => ?_) fun fault failed => ?_
    · exact ⟨rfl, member, search, ⟨found, started⟩, rfl⟩
    · exact ⟨rfl, .refused found failed⟩

/-- The trees of a storage in step hold the records. -/
theorem InStep.tree (inStep : storage.InStep) (found : storage.indices.get? own = some member) :
    member.index.tree.Keeps storage.layout.size storage.records.get? := by
  have kept := (inStep.keeps.shown found).tree
  rw [inStep.calm found, Index.visible_nil] at kept
  exact kept

/-- What a storage in step shows are its records. -/
theorem InStep.live (inStep : storage.InStep) :
    Backed storage.layout.size storage.records.get? storage.records :=
  fun _ bytes known => ⟨bytes, known, inStep.keeps.sized known⟩

/-- A query that fits an index starts a search; over a shape the search is exact. -/
theorem InStep.starts (inStep : storage.InStep) (found : storage.indices.get? own = some member)
    {query : Query} (fits : query.Fits member.index.numeric member.index.dimensions) :
    ∃ search, storage.Starts own query member search ∧
      ∀ bounds, query = .shape bounds → search.walk.Exact := by
  have keeps := inStep.tree found
  cases query with
  | shape bounds =>
    obtain ⟨low, high, points⟩ := fits.exists_points false
    obtain ⟨search, place, run, -, -, exact, -⟩ :=
      World.Search.overExtent_spec keeps.holds inStep.live ⟨low, high⟩
    refine ⟨search, ⟨found, ?_⟩, fun _ _ => exact⟩
    unfold Query.start
    exact (congrArg (Except.bind · _) points).trans run
  | ray axes distance =>
    obtain ⟨origin, direction, points⟩ := fits.exists_points true
    have along (most : α) : ∃ search, World.Search.alongRay member.index.tree origin direction most
        storage.records = .ok search := by
      obtain ⟨search, place, run, -⟩ :=
        World.Search.alongRay_spec keeps.holds inStep.live origin direction most
      exact ⟨search, run⟩
    have started : ∃ search, (Query.ray axes distance).start member.index.tree storage.records =
        .ok search := by
      unfold Query.start
      simp only [Query.pairs, Index.numeric] at points
      simp only [points, bind, Except.bind]
      exact along _
    obtain ⟨search, started⟩ := started
    exact ⟨search, ⟨found, started⟩, fun _ absurd => by cases absurd⟩

/-- The search of a query settles. -/
theorem start_settled {D size : Nat} {tree : World.Tree α D} {records : Pool Bytes}
    {shown : Key → Option Bytes} {query : Query} {search : World.Search α D}
    (keeps : tree.Keeps size shown)
    (live : Backed size shown records)
    (started : query.start tree records = .ok search) :
    ∃ place, Settled tree records search place := by
  cases query with
  | shape bounds =>
    simp only [Query.start, Except.bind_eq_ok_iff] at started
    obtain ⟨⟨low, high⟩, -, started⟩ := started
    obtain ⟨found, place, run, settled, -⟩ :=
      World.Search.overExtent_spec keeps.holds live ⟨low, high⟩
    rw [run] at started
    exact Except.ok.inj started ▸ ⟨place, settled⟩
  | ray axes distance =>
    simp only [Query.start, Except.bind_eq_ok_iff] at started
    obtain ⟨⟨origin, direction⟩, -, started⟩ := started
    obtain ⟨found, place, run, settled, -⟩ :=
      World.Search.alongRay_spec keeps.holds live origin direction _
    rw [run] at started
    exact Except.ok.inj started ▸ ⟨place, settled⟩

/-! ## Open edit cursors -/

/-- What is left of a view that has records has records too when some of them wait. -/
theorem backed_visible {size : Nat} {view : Key → Option Bytes} {records : Pool Bytes}
    (live : Backed size view records) (queue : List Key) :
    Backed size (Index.visible queue view) records := by
  refine live.of_less fun key bytes shown => ?_
  unfold Index.visible at shown
  split at shown
  · cases shown
  · exact shown

/-- A storage whose writer is an edit cursor of the index `own`: the indices show a view, and
records wait in that index alone. -/
structure Editing (storage : Storage α) (view : Key → Option Bytes) (own : Key)
    (member : Member α) : Prop where
  /-- The indices show the view. -/
  keeps : storage.Keeps fun _ => view
  /-- The cursor is the writer. -/
  writers : storage.writers = 1
  /-- No record waits in another index. -/
  calm : ∀ {index other}, storage.indices.get? index = some other → index ≠ own →
    other.index.queue = []
  /-- The index of the cursor is there. -/
  found : storage.indices.get? own = some member
  /-- The cursor uses it. -/
  cursors : 0 < member.index.cursors
  /-- What is shown has a record. -/
  live : Backed storage.layout.size view storage.records

namespace Editing

variable {view : Key → Option Bytes} {search : World.Search α member.index.dimensions}
  {place : Option (Partition.Address member.index.dimensions)}

/-- The tree of the cursor shows the view but for what waits. -/
theorem tree (editing : Editing storage view own member) :
    member.index.tree.Keeps storage.layout.size (Index.visible member.index.queue view) :=
  (editing.keeps.shown editing.found).tree

/-- What the tree shows has a record. -/
theorem visible_live (editing : Editing storage view own member) :
    Backed storage.layout.size (Index.visible member.index.queue view) storage.records :=
  backed_visible editing.live _

/-- The record that the cursor looks at does not wait. -/
theorem waits (editing : Editing storage view own member)
    (faces : Faces member.index.tree search place (some key)) : key ∉ member.index.queue := by
  intro waiting
  obtain ⟨address, -, held⟩ := faces.held
  rw [editing.tree.places.stored, World.Tree.placement, Index.visible, if_pos waiting] at held
  cases held

/-- No record that the cursor looks at waits anywhere. -/
theorem waits_nowhere (editing : Editing storage view own member)
    (faces : Faces member.index.tree search place (some key)) {index : Key} {other : Member α}
    (found : storage.indices.get? index = some other) : key ∉ other.index.queue := by
  by_cases same : index = own
  · subst same
    rw [editing.found, Option.some.injEq] at found
    exact found ▸ editing.waits faces
  · rw [editing.calm found same]
    exact List.not_mem_nil

/-- The current record is what the cursor looks at. -/
theorem current?_eq {current : Option Key} (editing : Editing storage view own member)
    (faces : Faces member.index.tree search place current) :
    storage.current? (member.cursor own search) = .ok current := by
  unfold Storage.current?
  rw [cursorTree_eq editing.found]
  exact faces.current? editing.tree.places.sound.linked

end Editing

/-! ## Leaving a record -/

/-- An index can be exchanged for one over the same space. -/
theorem Keeps.replace {views changed : Key → Key → Option Bytes} (keeps : storage.Keeps views)
    (found : storage.indices.get? own = some member) {index : Index α}
    (stays : member.index.Over index) (shown : index.Keeps storage.layout.size (changed own))
    (others : ∀ {key other}, storage.indices.get? key = some other → key ≠ own →
      other.index.Keeps storage.layout.size (changed key)) :
    Keeps changed
      { storage with indices := storage.indices.set own { member with index } } := by
  have held {key : Key} : (storage.indices.set own { member with index }).get? key =
      if key = own then some { member with index } else storage.indices.get? key := by
    rw [Pool.get?_set_eq_update found]
    exact Function.update_apply ..
  refine ⟨keeps.sound, keeps.records, keeps.sized, keeps.indices.set _ _, ?_, ?_⟩
  · apply keeps.served.perm
    apply Pool.values_map_perm
    intro key
    show Option.map _ ((storage.indices.set own { member with index }).get? key) = _
    rw [held]
    by_cases same : key = own
    · rw [if_pos same, same, found, Option.map_some, Option.map_some, stays.fields]
    · rw [if_neg same]
  · intro key other there
    have present : _ = some other := there
    rw [held] at present
    by_cases same : key = own
    · rw [if_pos same, Option.some.injEq] at present
      rw [same, ← present]
      exact shown
    · rw [if_neg same] at present
      exact others present same

/-- Taking the current record out of the tree goes on to the next record. -/
theorem takeCurrent_spec {shown : Key → Option Bytes}
    {search : World.Search α member.index.dimensions}
    {place : Option (Partition.Address member.index.dimensions)}
    (found : storage.indices.get? own = some member)
    (keeps : member.index.tree.Keeps storage.layout.size shown)
    (live : Backed storage.layout.size shown storage.records)
    (faces : Faces member.index.tree search place (some key)) :
    Ensures (takeCurrent (member.cursor own search)) storage
      (fun cursor after => ∃ tree next there, cursor = member.cursor own next ∧
        tree.Keeps storage.layout.size (Function.update shown key none) ∧
        member.index.tree.SameSpace tree ∧
        Leaves member.index.tree storage.records search place key tree next there ∧
        after = { storage with
          indices := storage.indices.set own (member.withTree tree member.index.queue) })
      fun _ _ => False := by
  obtain ⟨_, ⟨tree, next⟩, erased, left, same, there, leaves⟩ :=
    (faces.eraseCurrent keeps.holds live).exists_eq
  have kept := World.Tree.Keeps.of_holds (keeps.formed.sameSpace same) left
  simp only [takeCurrent, Action.ensures_bind, Action.ensures_get]
  refine ensures_orAbort_ok (cursorTree_eq found search) ?_
  simp only [Member.cursor, erased, Action.ensures_bind]
  refine (modifyIndex_spec found _).ends ?_
  rintro - _ rfl
  rw [Action.ensures_pure]
  exact ⟨tree, next, there, rfl, kept, same, leaves, rfl⟩

/-- A record that moves is taken out of the tree and waits. -/
theorem deferCurrent_spec {shown : Key → Option Bytes}
    {search : World.Search α member.index.dimensions}
    {place : Option (Partition.Address member.index.dimensions)}
    (found : storage.indices.get? own = some member)
    (keeps : member.index.tree.Keeps storage.layout.size shown)
    (live : Backed storage.layout.size shown storage.records)
    (faces : Faces member.index.tree search place (some key)) :
    Ensures (do
        let cursor ← takeCurrent (member.cursor own search)
        modifyIndex cursor.index fun index => index.defer key
        return cursor) storage
      (fun cursor after => ∃ tree next there, cursor = member.cursor own next ∧
        tree.Keeps storage.layout.size (Function.update shown key none) ∧
        member.index.tree.SameSpace tree ∧
        Leaves member.index.tree storage.records search place key tree next there ∧
        after = { storage with
          indices := storage.indices.set own (member.withTree tree (member.index.queue ++ [key])) })
      fun _ _ => False := by
  rw [Action.ensures_bind]
  refine (takeCurrent_spec found keeps live faces).ends ?_
  rintro _ _ ⟨tree, next, there, rfl, taken, same, leaves, rfl⟩
  rw [Action.ensures_bind]
  refine (modifyIndex_spec (Pool.get?_set_self _ found) _).ends ?_
  rintro - _ rfl
  rw [Action.ensures_pure]
  have twice := Pool.set_set storage.indices own (member.withTree tree member.index.queue)
    (member.withTree tree (member.index.queue ++ [key]))
  exact ⟨tree, next, there, rfl, taken, same, leaves,
    congrArg (fun indices => { storage with indices }) twice⟩

namespace Editing

variable {view : Key → Option Bytes} {search : World.Search α member.index.dimensions}
  {place : Option (Partition.Address member.index.dimensions)} {bytes : Bytes}

/-- What the end of an edition leaves of an open edit cursor: the other indices show the new bytes
of the record, and its own index shows either the former or the new ones. -/
theorem endEdition (editing : Editing storage view own member)
    (faces : Faces member.index.tree search place (some key))
    (known : view key = some storage.backup) (found : storage.records.get? key = some bytes) :
    Ensures (endEdition key (some own)) storage
      (fun concerned after =>
        Carries storage after storage.records ∧ after.writers = 1 ∧
        after.backup = storage.backup ∧ after.layout = storage.layout ∧
        after.indices.get? own = some member ∧
        (∀ {index other}, after.indices.get? index = some other → index ≠ own →
          other.index.queue = []) ∧
        after.Keeps fun index => if concerned = true ∧ some index = some own then view
          else Function.update view key (some bytes))
      fun _ _ => False := by
  have shown : Index.visible member.index.queue view key = some storage.backup := by
    rw [Index.visible, if_neg (editing.waits faces), known]
  refine (endEdition_spec editing.keeps known (editing.tree.sized shown)
    (fun held => editing.waits_nowhere faces held) found (some own)).ends ?_
  rintro concerned after ⟨chosen, turns, spared, keeps⟩
  refine ⟨turns.carries fun result => result.2.toOver, by rw [turns.rest]; exact editing.writers,
    by rw [turns.rest], by rw [turns.rest], ?_, ?_, keeps⟩
  · obtain ⟨index, held, -, same⟩ := turns.present editing.found
    rw [held, same (spared own rfl)]
  · intro index other held different
    obtain ⟨former, before, -, yes, no⟩ := turns.former held
    have empty := editing.calm before different
    by_cases told : chosen index
    · rw [(yes told).2.queue, empty]
    · rw [no told, empty]

/-- What is shown of a changed record has a record. -/
theorem live_update (editing : Editing storage view own member)
    (found : storage.records.get? key = some bytes) :
    Backed storage.layout.size (Function.update view key (some bytes)) storage.records := by
  intro other content shown
  by_cases same : other = key
  · exact ⟨bytes, same ▸ found, editing.keeps.sized found⟩
  · rw [Function.update_of_ne same] at shown
    exact editing.live other content shown

/-- The storage after the current record was left behind with new bytes: the cursor edits on, and has
gone on to another record when it was to. -/
def LeavesBehind (storage : Storage α) (shown : Key → Option Bytes) (own : Key)
    (member : Member α) (search : World.Search α member.index.dimensions)
    (place : Option (Partition.Address member.index.dimensions)) (key : Key) (onward : Bool)
    (cursor : Cursor α) (after : Storage α) : Prop :=
  ∃ tree queue next, cursor = member.cursor own next ∧
    Editing after shown own (member.withTree tree queue) ∧
    Carries storage after storage.records ∧ member.index.tree.SameSpace tree ∧
    (onward = true → ∃ there,
      Leaves member.index.tree storage.records search place key tree next there)

/-- A record that does not move leaves the tree as it is. -/
theorem leave_unmoved (editing : Editing storage view own member)
    (faces : Faces member.index.tree search place (some key)) {told : Storage α}
    {shown : Key → Option Bytes} (still : Editing told shown own member)
    (carries : Carries storage told storage.records) (onward : Bool) :
    Ensures (if onward then orAbort (told.next (member.cursor own search))
      else pure (member.cursor own search) : StorageOp α (Cursor α)) told
      (LeavesBehind storage shown own member search place key onward) fun _ _ => False := by
  cases onward with
  | false => exact ⟨_, _, search, rfl, still, carries, .refl _, fun absurd => by cases absurd⟩
  | true =>
    obtain ⟨next, there, advanced, leaves⟩ := faces.advance editing.tree.places
      (World.Search.testable_of_holds editing.tree.holds editing.visible_live search.query)
    have run : told.next (member.cursor own search) = .ok (member.cursor own next) := by
      unfold Storage.next
      rw [cursorTree_eq still.found, carries.records]
      simp only [Member.cursor, bind, Except.bind, advanced]
      rfl
    exact ensures_orAbort_ok run
      ⟨_, _, next, rfl, still, carries, .refl _, fun _ => ⟨there, leaves⟩⟩

/-- Leaving a record propagates its new bytes: the record waits when it moves, and otherwise it
stays where it is. -/
theorem leaveCurrent (editing : Editing storage view own member)
    (faces : Faces member.index.tree search place (some key))
    (known : view key = some storage.backup) (found : storage.records.get? key = some bytes)
    (onward : Bool) :
    Ensures (leaveCurrent (member.cursor own search) key onward) storage
      (LeavesBehind storage (Function.update view key (some bytes)) own member search place key
        onward) fun _ _ => False := by
  unfold Storage.leaveCurrent
  rw [Action.ensures_bind]
  refine (editing.endEdition faces known found).ends ?_
  rintro concerned told ⟨carries, writers, backup, layout, held, calm, keeps⟩
  have present : told.records.get? key = some bytes := by rw [carries.records, found]
  have waits := editing.waits faces
  have live : Backed told.layout.size (Function.update view key (some bytes)) told.records := by
    rw [carries.records, layout]
    exact editing.live_update found
  have still (kept : told.Keeps fun _ => Function.update view key (some bytes)) :
      Editing told (Function.update view key (some bytes)) own member :=
    ⟨kept, writers, calm, held, editing.cursors, live⟩
  simp only [Action.ensures_bind, Action.ensures_get]
  refine ensures_record present ?_
  refine ensures_orAbort_ok (cursorTree_eq held search) ?_
  cases concerned with
  | false =>
    simp only [Bool.false_eq_true, if_false]
    exact editing.leave_unmoved faces (still (by simpa using keeps)) carries onward
  | true =>
    have shown : member.index.Keeps told.layout.size view := by simpa using keeps.shown held
    have others {index : Key} {other : Member α} (there : told.indices.get? index = some other)
        (different : index ≠ own) :
        other.index.Keeps told.layout.size (Function.update view key (some bytes)) := by
      simpa [different] using keeps.shown there
    have visible : Index.visible member.index.queue view key = some storage.backup := by
      rw [Index.visible, if_neg waits, known]
    obtain ⟨moved, compared, unmoved⟩ := shown.tree.isMoved_eq visible (keeps.sized present)
    rw [if_pos rfl, Action.ensures_bind]
    refine ensures_orAbort_ok (backup ▸ compared) ?_
    cases moved with
    | false =>
      simp only [Bool.false_eq_true, if_false]
      refine editing.leave_unmoved faces (still ⟨keeps.sound, keeps.records, keeps.sized,
        keeps.indices, keeps.served, ?_⟩) carries onward
      intro index other there
      by_cases same : index = own
      · subst same
        rw [held, Option.some.injEq] at there
        exact there ▸ shown.unmoved known waits (keeps.sized present) (unmoved rfl)
      · exact others there same
    | true =>
      rw [if_pos rfl]
      have leaving := deferCurrent_spec held shown.tree
        (by rw [carries.records, layout]; exact editing.visible_live) faces
      refine leaving.ends ?_
      rintro _ _ ⟨tree, next, there, rfl, taken, same, leaves, rfl⟩
      have covers : member.index.Over (member.withTree tree (member.index.queue ++ [key])).index :=
        ⟨tree, _, _, same, rfl⟩
      rw [carries.records] at leaves
      refine ⟨tree, member.index.queue ++ [key], next, rfl, ⟨?_, writers, ?_, ?_, editing.cursors,
        live⟩, ?_, same, fun _ => ⟨there, leaves⟩⟩
      · exact keeps.replace held covers (shown.defer waits taken (some bytes)) others
      · intro index other there different
        rw [Pool.get?_set_ne _ _ different] at there
        exact calm there different
      · exact Pool.get?_set_self _ held
      · exact ⟨carries.readers, carries.records, carries.alike.trans (.replace held covers)⟩

end Editing

/-! ## Visiting records -/

/-- An open edit cursor with its current record under edition. -/
structure Visiting (storage : Storage α) (own : Key) (member : Member α)
    (search : World.Search α member.index.dimensions)
    (place : Option (Partition.Address member.index.dimensions)) (current : Option Key) : Prop where
  /-- The indices show the current record as it was before. -/
  editing : Editing storage (storage.believed current) own member
  /-- The search looks at the current record. -/
  faces : Faces member.index.tree search place current
  /-- The current record is there. -/
  present : ∀ key, current = some key → ∃ bytes, storage.records.get? key = some bytes

/-- What leaving the current record `key` of an edit cursor brings about: another record is under
edition or the cursor is at its end, the records are the given ones, and nothing else is lost. -/
def Proceeds (storage : Storage α) (own : Key) (member : Member α)
    (search : World.Search α member.index.dimensions)
    (place : Option (Partition.Address member.index.dimensions)) (key : Key)
    (records : Pool Bytes) (cursor : Cursor α) (after : Storage α) : Prop :=
  ∃ tree queue next there current, cursor = member.cursor own next ∧
    Visiting after own (member.withTree tree queue) next there current ∧
    Carries storage after records ∧ member.index.tree.SameSpace tree ∧
    Leaves member.index.tree storage.records search place key tree next there ∧
    ∀ other, current = some other → after.records.get? other = some after.backup

variable {search : World.Search α member.index.dimensions}
  {place : Option (Partition.Address member.index.dimensions)} {current : Option Key}
  {bytes : Bytes}

/-- The current record of a cursor is put under edition. -/
theorem Editing.editCurrent (editing : Editing storage storage.records.get? own member)
    (faces : Faces member.index.tree search place current) :
    Ensures (editCurrent (member.cursor own search)) storage
      (fun _ after => after = { storage with backup := after.backup } ∧
        Visiting after own member search place current ∧
        ∀ key, current = some key → after.records.get? key = some after.backup)
      fun _ _ => False := by
  simp only [Storage.editCurrent, Action.ensures_bind, Action.ensures_get]
  refine ensures_orAbort_ok (editing.current?_eq faces) ?_
  cases current with
  | none =>
    exact ⟨rfl, ⟨editing, faces, fun _ absurd => by cases absurd⟩,
      fun _ absurd => by cases absurd⟩
  | some key =>
    obtain ⟨address, -, held⟩ := faces.held
    rw [editing.tree.places.stored, World.Tree.placement] at held
    obtain ⟨bytes, shown, -⟩ := Option.bind_eq_some_iff.mp held
    have found : storage.records.get? key = some bytes := by
      rw [Index.visible, if_neg (editing.waits faces)] at shown
      exact shown
    refine (beginEdition_spec found).ends ?_
    rintro - _ rfl
    have same : Function.update storage.records.get? key (some bytes) = storage.records.get? := by
      rw [← found, Function.update_eq_self]
    have present : ∀ other, some key = some other → storage.records.get? other = some bytes :=
      fun other here => Option.some.inj here ▸ found
    refine ⟨rfl, ⟨⟨?_, editing.writers, editing.calm, editing.found, editing.cursors, ?_⟩, faces,
      fun other here => ⟨bytes, present other here⟩⟩, present⟩
    · show Keeps (fun _ => Function.update storage.records.get? key (some bytes)) _
      rw [same]
      exact editing.keeps.congr rfl rfl rfl rfl
    · show Backed _ (Function.update storage.records.get? key (some bytes)) _
      rw [same]
      exact editing.live

/-- After the current record was left behind, the next one is put under edition. -/
theorem Editing.resume {between : Storage α} {records : Pool Bytes} {queue : List Key}
    {tree : World.Tree α member.index.dimensions} {next : World.Search α member.index.dimensions}
    {there : Option (Partition.Address member.index.dimensions)}
    (editing : Editing between between.records.get? own (member.withTree tree queue))
    (carries : Carries storage between records) (same : member.index.tree.SameSpace tree)
    (leaves : Leaves member.index.tree storage.records search place key tree next there) :
    Ensures (Storage.editCurrent (member.cursor own next)) between
      (fun _ after => Proceeds storage own member search place key records
        (member.cursor own next) after)
      fun _ _ => False := by
  obtain ⟨current, faces, -⟩ := leaves.settled.faces
  refine (editing.editCurrent faces).ends ?_
  rintro - after ⟨rest, visiting, fresh⟩
  refine ⟨tree, queue, next, there, current, rfl, visiting, carries.trans ?_, same, leaves, fresh⟩
  rw [rest]
  exact .of_eq rfl rfl carries.records rfl

/-- An edit of the current record changes its bytes and nothing else, also when it is aborted. -/
theorem Visiting.changeCurrent (visiting : Visiting storage own member search place (some key))
    (found : storage.records.get? key = some bytes) (change : Edit) :
    Ensures (changeCurrent (member.cursor own search) change) storage
      (fun _ after => ∃ edited, after = { storage with
          records := storage.records.set key (overwrite bytes edited) } ∧
        Visiting after own member search place (some key))
      fun failure after => (∃ edited, after = { storage with
          records := storage.records.set key (overwrite bytes edited) } ∧
        Visiting after own member search place (some key)) ∧
        ∃ fault edited, change bytes = .error fault edited ∧ failure = .aborted fault := by
  have remains (edited : Bytes) : Visiting { storage with
      records := storage.records.set key (overwrite bytes edited) } own member search place
        (some key) := by
    have editing := visiting.editing
    have present := Pool.get?_set_self (overwrite bytes edited) found
    refine ⟨⟨?_, editing.writers, editing.calm, editing.found, editing.cursors, ?_⟩,
      visiting.faces, fun other here => ?_⟩
    · rw [believed_set found]
      exact editing.keeps.overwrite found edited
    · rw [believed_set found]
      intro other content shown
      obtain ⟨record, held, sized⟩ := editing.live other content shown
      by_cases same : other = key
      · rw [same]
        exact ⟨_, present, (length_overwrite _ _).trans (editing.keeps.sized found)⟩
      · exact ⟨record, (Pool.get?_set_ne _ _ same).trans held, sized⟩
    · obtain rfl := Option.some.inj here
      exact ⟨_, present⟩
  simp only [Storage.changeCurrent, Action.ensures_bind, Action.ensures_get]
  refine ensures_orAbort_ok (visiting.editing.current?_eq visiting.faces) ?_
  simp only [Action.ensures_bind, Action.ensures_pure]
  refine (editRecord_spec found change).imp ?_ ?_
  · rintro - _ ⟨edited, -, rfl⟩
    exact ⟨edited, rfl, remains edited⟩
  · rintro - _ ⟨fault, edited, failed, rfl, rfl⟩
    exact ⟨⟨edited, rfl, remains edited⟩, fault, edited, failed, rfl⟩

/-- An edit cursor at its end has nothing to edit. -/
theorem Visiting.changeCurrent_over (visiting : Visiting storage own member search place none)
    (change : Edit) :
    Ensures (Storage.changeCurrent (member.cursor own search) change) storage
      (fun _ after => after = storage) fun _ _ => False := by
  simp only [Storage.changeCurrent, Action.ensures_bind, Action.ensures_get]
  refine ensures_orAbort_ok (visiting.editing.current?_eq visiting.faces) ?_
  rw [Action.ensures_pure]

/-- An edit cursor goes on to the next record. -/
theorem Visiting.advanceEdit (visiting : Visiting storage own member search place (some key)) :
    Ensures (advanceEdit (member.cursor own search)) storage
      (fun cursor after =>
        Proceeds storage own member search place key storage.records cursor after)
      fun _ _ => False := by
  obtain ⟨bytes, found⟩ := visiting.present key rfl
  simp only [Storage.advanceEdit, Action.ensures_bind, Action.ensures_get]
  refine ensures_orAbort_ok (visiting.editing.current?_eq visiting.faces) ?_
  rw [Action.ensures_bind]
  refine (visiting.editing.leaveCurrent visiting.faces (Function.update_self ..) found true).ends ?_
  rintro _ after ⟨tree, queue, next, rfl, editing, carries, same, leaves⟩
  obtain ⟨there, leaves⟩ := leaves rfl
  rw [believed_update found, ← carries.records] at editing
  simp only [Action.ensures_bind, Action.ensures_pure]
  exact editing.resume carries same leaves

/-- An edit cursor at its end cannot go on. -/
theorem Visiting.advanceEdit_over (visiting : Visiting storage own member search place none) :
    Ensures (Storage.advanceEdit (member.cursor own search)) storage (fun _ _ => False)
      fun failure after => after = storage ∧ failure = .aborted .advancedPastEnd := by
  simp only [Storage.advanceEdit, Action.ensures_bind, Action.ensures_get]
  refine ensures_orAbort_ok (visiting.editing.current?_eq visiting.faces) ?_
  simp only [abort, Action.ensures_throw]
  exact ⟨trivial, trivial⟩

/-- Deleting a record that was taken out of one index takes it out of the others. -/
theorem deleteEdited_spec {view : Key → Option Bytes}
    (keeps : storage.Keeps fun index =>
      if index = own then Function.update view key none else view)
    (known : view key = some storage.backup)
    (waits : ∀ {index other}, storage.indices.get? index = some other → index ≠ own →
      key ∉ other.index.queue) :
    Ensures (deleteEdited key own) storage
      (fun _ after => after.Keeps (fun _ => Function.update view key none) ∧
        Carries storage after (storage.records.remove key) ∧ after.writers = storage.writers ∧
        after.layout = storage.layout ∧
        after.indices.get? own = storage.indices.get? own ∧
        ∀ {index other}, after.indices.get? index = some other → index ≠ own →
          ∃ former, storage.indices.get? index = some former ∧
            other.index.queue = former.index.queue)
      fun _ _ => False := by
  let others := storage.indices.keys.filter fun index => index != own
  have chosen {index : Key} (member : index ∈ others) : index ≠ own := by
    simpa using List.of_mem_filter member
  have distinct : (others.map id).Nodup := by
    rw [List.map_id]
    exact storage.indices.keys_nodup.filter _
  have told : Ensures (others.forM fun index => onIndex index (Index.erase key storage.backup))
      storage _ _ :=
    Turns.forM (fun _ before last => last.Keeps storage.layout.size
        (Function.update view key none) ∧ before.SameSpace last) id distinct
      (fun index member => (Pool.mem_keys _ _).mp (List.mem_of_mem_filter member))
      fun index member other journal held => by
        have shown : other.index.Keeps _ (if index = own then _ else view) := keeps.shown held
        rw [if_neg (chosen member)] at shown
        exact shown.erase known (waits held (chosen member)) journal
  simp only [deleteEdited, Action.ensures_bind, Action.ensures_get]
  refine told.ends ?_
  intro _ after turns
  have records : after.records = storage.records := by rw [turns.rest]
  have carries : Carries storage after storage.records :=
    turns.carries fun result => result.2.toOver
  simp only [Action.ensures_modify, report]
  refine ⟨?_, carries.trans (.of_eq rfl rfl (by rw [records]) rfl), by rw [turns.rest],
    by rw [turns.rest], ?_, ?_⟩
  · have kept : after.Keeps fun _ => Function.update view key none := by
      refine keeps.turns turns (fun _ _ result => ⟨result.1, result.2.toOver.fields⟩) ?_
      intro index other held unchosen shown
      by_cases same : index = own
      · simpa [same] using shown
      · refine absurd (List.mem_map.mpr ⟨index, List.mem_filter.mpr ⟨?_, ?_⟩, rfl⟩) unchosen
        · exact (Pool.mem_keys _ _).mpr ⟨other, held⟩
        · simpa using same
    have removed := kept.withRecords (kept.records.remove key) (fun {other record} held => ?_)
    · exact removed.congr rfl rfl rfl rfl
    · rw [Pool.get?_remove] at held
      split at held
      · cases held
      · exact kept.sized held
  · show after.indices.get? own = storage.indices.get? own
    cases before : storage.indices.get? own with
    | none => exact turns.absent before
    | some member =>
      obtain ⟨index, held, -, same⟩ := turns.present before
      rw [held, same fun listed => ?_]
      obtain ⟨other, inside, named⟩ := List.mem_map.mp listed
      exact chosen inside named
  · intro index other held different
    obtain ⟨former, before, -, yes, -⟩ := turns.former held
    refine ⟨former, before, (yes ?_).2.queue⟩
    exact List.mem_map.mpr ⟨index, List.mem_filter.mpr
      ⟨(Pool.mem_keys _ _).mpr ⟨former, before⟩, by simpa using different⟩, rfl⟩

/-- An edit cursor deletes its current record and goes on to the next one. -/
theorem Visiting.eraseEdit (visiting : Visiting storage own member search place (some key)) :
    Ensures (eraseEdit (member.cursor own search)) storage
      (fun cursor after =>
        Proceeds storage own member search place key (storage.records.remove key) cursor after)
      fun _ _ => False := by
  have editing := visiting.editing
  have waits := editing.waits visiting.faces
  simp only [Storage.eraseEdit, Action.ensures_bind, Action.ensures_get]
  refine ensures_orAbort_ok (editing.current?_eq visiting.faces) ?_
  rw [Action.ensures_bind]
  refine (takeCurrent_spec editing.found editing.tree editing.visible_live visiting.faces).ends ?_
  rintro _ taken ⟨tree, next, there, rfl, kept, same, leaves, rest⟩
  have stays : member.index.Over (member.withTree tree member.index.queue).index :=
    ⟨tree, _, _, same, rfl⟩
  have held : taken.indices.get? own = some (member.withTree tree member.index.queue) := by
    rw [rest]
    exact Pool.get?_set_self _ editing.found
  have elsewhere {index : Key} (different : index ≠ own) :
      taken.indices.get? index = storage.indices.get? index := by
    rw [rest]
    exact Pool.get?_set_ne _ _ different
  have shown : taken.Keeps fun index => if index = own then
      Function.update (storage.believed (some key)) key none else storage.believed (some key) := by
    rw [rest]
    refine editing.keeps.replace editing.found stays ?_ fun there different => ?_
    · rw [if_pos rfl]
      exact (editing.keeps.shown editing.found).withTree waits kept
    · rw [if_neg different]
      exact editing.keeps.shown there
  have calm {index : Key} {other : Member α} (there : taken.indices.get? index = some other)
      (different : index ≠ own) : other.index.queue = [] := by
    rw [elsewhere different] at there
    exact editing.calm there different
  have carries : Carries storage taken storage.records := by
    rw [rest]
    exact ⟨rfl, rfl, .replace editing.found stays⟩
  have backup : storage.believed (some key) key = some taken.backup := by
    rw [rest]
    exact Function.update_self ..
  simp only [Action.ensures_bind, Action.ensures_pure]
  refine (deleteEdited_spec shown backup fun there different => by
    rw [calm there different]; exact List.not_mem_nil).ends ?_
  rintro - after ⟨keeps, further, writers, layout, stays, queues⟩
  rw [carries.records] at further
  have view : Function.update (storage.believed (some key)) key none = after.records.get? := by
    rw [further.records, believed, Function.update_idem, Pool.get?_remove_eq_update]
  rw [view] at keeps
  have still : Editing after after.records.get? own
      (member.withTree tree member.index.queue) := by
    refine ⟨keeps, ?_, ?_, stays.trans held, editing.cursors, ?_⟩
    · rw [writers, rest]
      exact editing.writers
    · intro index other there different
      obtain ⟨former, before, queue⟩ := queues there different
      rw [queue, calm before different]
    · exact fun other content known => ⟨content, known, keeps.sized known⟩
  exact still.resume (carries.trans further) same leaves

/-- An edit cursor at its end cannot delete anything. -/
theorem Visiting.eraseEdit_over (visiting : Visiting storage own member search place none) :
    Ensures (Storage.eraseEdit (member.cursor own search)) storage (fun _ _ => False)
      fun failure after => after = storage ∧ failure = .aborted .erasedPastEnd := by
  simp only [Storage.eraseEdit, Action.ensures_bind, Action.ensures_get]
  refine ensures_orAbort_ok (visiting.editing.current?_eq visiting.faces) ?_
  simp only [abort, Action.ensures_throw]
  exact ⟨trivial, trivial⟩

/-! ## Opening and closing cursors -/

/-- The count of the cursors of an index does not matter to what the indices show. -/
theorem Keeps.usedBy {views : Key → Key → Option Bytes} (keeps : storage.Keeps views)
    (found : storage.indices.get? own = some member) (cursors : Nat) :
    Keeps views
      { storage with indices := storage.indices.set own (member.usedBy cursors) } :=
  keeps.replace found ⟨member.index.tree, cursors, member.index.queue, .refl _, rfl⟩
    ⟨(keeps.shown found).tree, (keeps.shown found).distinct⟩ fun there _ => keeps.shown there

/-- A cursor that has left its last record closes, and the storage is in step again. -/
theorem Editing.close {between : Storage α}
    (editing : Editing between between.records.get? own member)
    (carries : Carries storage between storage.records) :
    Ensures (do closeCursor own; closeWriter) between
      (fun _ after => Lands storage after storage.records) fun _ _ => False := by
  rw [Action.ensures_bind]
  refine (closeCursor_spec editing.found editing.cursors).ends ?_
  rintro - _ rfl
  let counted : Storage α := { between with
    indices := between.indices.set own (member.usedBy (member.index.cursors - 1)) }
  have kept : counted.Keeps fun _ => counted.records.get? := editing.keeps.usedBy editing.found _
  refine (closeWriter_spec kept editing.writers).ends ?_
  intro _ after lands
  rw [show counted.records = storage.records from carries.records] at lands
  have alike := carries.alike.trans (.usedBy editing.found (member.index.cursors - 1))
  exact ⟨⟨lands.readers.trans carries.readers, lands.records, alike.trans lands.alike⟩,
    lands.inStep, lands.writers⟩

/-- An edit cursor closes at any time, and the storage is in step again. -/
theorem Visiting.closeEdit (visiting : Visiting storage own member search place current) :
    Ensures (closeEdit (member.cursor own search)) storage
      (fun _ after => Lands storage after storage.records) fun _ _ => False := by
  simp only [Storage.closeEdit, Action.ensures_bind, Action.ensures_get]
  refine ensures_orAbort_ok (visiting.editing.current?_eq visiting.faces) ?_
  cases current with
  | none => exact visiting.editing.close (.of_eq rfl rfl rfl rfl)
  | some key =>
    obtain ⟨bytes, found⟩ := visiting.present key rfl
    rw [Action.ensures_bind]
    refine (visiting.editing.leaveCurrent visiting.faces (Function.update_self ..) found
      false).ends ?_
    rintro _ between ⟨tree, queue, next, rfl, editing, carries, -, -⟩
    rw [believed_update found, ← carries.records] at editing
    exact editing.close carries

/-- An edit cursor opens with its first record under edition. -/
theorem edit_spec (rests : storage.writers = 0 → storage.InStep) (own : Key) (query : Query) :
    Ensures (edit own query) storage
      (fun cursor after => ∃ member search place current,
        storage.Starts own query member search ∧
        cursor = member.cursor own search ∧
        Visiting after own (member.usedBy (member.index.cursors + 1)) search place current ∧
        Settled member.index.tree storage.records search place ∧
        Carries storage after storage.records ∧
        (∀ key, current = some key → after.records.get? key = some after.backup) ∧
        storage.readers = 0 ∧ storage.writers = 0)
      fun failure after => after = storage.failing failure ∧
        (storage.Astray own query failure ∨ storage.Busy failure) := by
  unfold Storage.edit
  rw [Action.ensures_bind]
  refine (locate_spec storage own query).imp ?_ fun _ _ failed => ⟨failed.1, .inl failed.2⟩
  rintro _ storage ⟨rfl, member, search, ⟨found, started⟩, rfl⟩
  rw [Action.ensures_bind]
  refine (openWriter_spec storage).imp ?_ fun _ _ ⟨same, busy⟩ =>
    ⟨same.trans busy.failing.symm, .inr busy⟩
  rintro - _ ⟨idle, unwritten, rfl⟩
  have inStep := rests unwritten
  rw [Action.ensures_bind]
  let opened : Storage α := { storage with writers := 1 }
  have held : opened.indices.get? own = some member := found
  refine (openCursor_spec held).ends ?_
  rintro - _ rfl
  let counted : Storage α := { opened with
    indices := opened.indices.set own (member.usedBy (member.index.cursors + 1)) }
  obtain ⟨place, settled⟩ := start_settled (inStep.tree found) inStep.live started
  obtain ⟨current, faces, -⟩ := settled.faces
  have kept : opened.Keeps fun _ => storage.records.get? := inStep.keeps.congr rfl rfl rfl rfl
  have editing : Editing counted counted.records.get? own
      (member.usedBy (member.index.cursors + 1)) := by
    refine ⟨kept.usedBy held _, rfl, ?_, Pool.get?_set_self _ held, Nat.succ_pos _,
      inStep.live⟩
    intro index other there different
    rw [show counted.indices.get? index = storage.indices.get? index from
      Pool.get?_set_ne _ _ different] at there
    exact inStep.calm there
  have counting : Carries storage counted storage.records :=
    ⟨rfl, rfl, .congr (.usedBy held _) rfl rfl⟩
  rw [Action.ensures_bind]
  refine (editing.editCurrent faces).ends ?_
  rintro - after ⟨rest, visiting, fresh⟩
  rw [Action.ensures_pure]
  refine ⟨member, search, place, current, ⟨found, started⟩, rfl, visiting, settled,
    counting.trans ?_, fresh, idle, unwritten⟩
  rw [rest]
  exact .of_eq rfl rfl rfl rfl

/-- A read cursor opens at the first record of its query when no writer is open. -/
theorem read_spec (storage : Storage α) (own : Key) (query : Query) :
    Ensures (read own query) storage
      (fun cursor after => storage.writers = 0 ∧ ∃ member search,
        storage.indices.get? own = some member ∧
        query.start member.index.tree storage.records = .ok search ∧
        cursor = member.cursor own search ∧
        after = { storage with
          readers := storage.readers + 1
          indices := storage.indices.set own (member.usedBy (member.index.cursors + 1)) })
      fun failure after => after = storage.failing failure ∧
        (storage.Astray own query failure ∨
          storage.writers ≠ 0 ∧ failure = .aborted .readerDuringWriter) := by
  unfold read openRead
  rw [Action.ensures_bind]
  refine (locate_spec storage own query).imp ?_ fun _ _ failed => ⟨failed.1, .inl failed.2⟩
  rintro _ storage ⟨rfl, member, search, ⟨found, started⟩, rfl⟩
  simp only [Action.ensures_bind]
  refine (openReader_spec storage).imp ?_ ?_
  rotate_left
  · rintro _ _ ⟨same, writing, rfl⟩
    exact ⟨same, .inr ⟨writing, rfl⟩⟩
  rintro - _ ⟨idle, rfl⟩
  let opened : Storage α := { storage with readers := storage.readers + 1 }
  have held : opened.indices.get? own = some member := found
  refine (openCursor_spec held).ends ?_
  rintro - _ rfl
  rw [Action.ensures_pure]
  exact ⟨idle, member, search, found, started, rfl, rfl⟩

/-- What an operation leaves that keeps the records: a storage in step with the same writers. -/
structure Stays (storage after : Storage α) : Prop where
  /-- The indices show the records. -/
  inStep : after.InStep
  /-- The writers stay. -/
  writers : after.writers = storage.writers
  /-- The records stay. -/
  records : after.records = storage.records

/-- Counts do not matter to a storage in step. -/
theorem InStep.recounted {after : Storage α} (inStep : storage.InStep)
    (recounted : storage.Recounted after) : Stays storage after := by
  cases recounted with
  | readers readers => exact ⟨⟨inStep.keeps.congr rfl rfl rfl rfl, inStep.calm⟩, rfl, rfl⟩
  | @cursors own member found cursors readers =>
    refine ⟨⟨(inStep.keeps.usedBy found cursors).congr rfl rfl rfl rfl, ?_⟩, rfl, rfl⟩
    intro key other there
    have present : (storage.indices.set own (member.usedBy cursors)).get? key = some other := there
    by_cases same : key = own
    · rw [same, Pool.get?_set_self _ found, Option.some.injEq] at present
      have calm := inStep.calm found
      exact present ▸ calm
    · rw [Pool.get?_set_ne _ _ same] at present
      exact inStep.calm present

/-- The keys found are those that the search yields from its start. -/
theorem InStep.find {search : World.Search α member.index.dimensions}
    {place : Option (Partition.Address member.index.dimensions)} {query : Query}
    (inStep : storage.InStep) (idle : storage.writers = 0)
    (found : storage.indices.get? own = some member)
    (started : query.start member.index.tree storage.records = .ok search)
    (settled : Settled member.index.tree storage.records search place) :
    Ensures (find own query) storage
      (fun keys _ => keys.Nodup ∧
        (∀ key ∈ keys, World.Search.Todo member.index.tree search place key ∧
          World.Search.meets member.index.tree storage.records search.query key = .ok true) ∧
        (search.walk.Exact → ∀ key, World.Search.Todo member.index.tree search place key →
          World.Search.meets member.index.tree storage.records search.query key = .ok true →
          key ∈ keys))
      fun _ _ => False := by
  obtain ⟨met, last, run, distinct, sound, complete, -⟩ := World.Search.rest_spec
    (inStep.tree found).places
    (World.Search.testable_of_holds (inStep.tree found).holds inStep.live search.query) settled
  simp only [Storage.find, read, openRead, locate, Storage.member, Action.ensures_bind,
    Action.ensures_get, found, Action.ensures_pure]
  refine ensures_orAbort_ok started ?_
  simp only [openReader, Action.ensures_bind, Action.ensures_get, idle, ne_eq, not_true_eq_false,
    if_false, Action.ensures_set]
  let opened : Storage α := { storage with readers := storage.readers + 1, writers := 0 }
  have held : opened.indices.get? own = some member := found
  refine (openCursor_spec held).ends ?_
  rintro - _ rfl
  let counted : Storage α := { opened with
    indices := opened.indices.set own (member.usedBy (member.index.cursors + 1)) }
  have there : counted.indices.get? own = some (member.usedBy (member.index.cursors + 1)) :=
    Pool.get?_set_self _ held
  have yielded : counted.rest (member.cursor own search) =
      .ok (met, member.cursor own last) := by
    have tree : counted.cursorTree (member.cursor own search) = .ok member.index.tree :=
      cursorTree_eq there search
    have walked : World.Search.rest member.index.tree counted.records search =
        .ok (met, last) := run
    unfold Storage.rest
    rw [tree]
    simp only [Member.cursor, bind, Except.bind, walked]
    rfl
  unfold Storage.closeRead
  rw [Action.ensures_bind]
  refine (closeCursor_spec there (Nat.succ_pos _)).ends ?_
  rintro - _ rfl
  refine (closeReader_spec _).imp ?_ fun _ _ failed => absurd failed.2 (Nat.succ_ne_zero _)
  rintro - _ rfl
  refine ensures_orAbort_ok yielded ?_
  exact ⟨distinct, sound, complete⟩

end Storage

end SpatialIndex
