import SpatialIndex.Proofs.Storage.Account
import SpatialIndex.Proofs.World.Border

/-!
# Access to records

What can go wrong when records are looked up or an index is created is what the caller got wrong: a
query that does not fit, or a description that is rejected. A read cursor that stands at a place of
its index goes on to the end without a failure.
-/
namespace SpatialIndex

open Record (Bytes)
open World.Search (Backed Settled)

/-! ## Queries that do not fit -/

namespace Query

/-- Whether a query is along a ray. -/
def isRay : Query → Bool
  | shape _ => false
  | ray _ _ => true

/-- Why a query does not fit an index of a type and a count of axes. -/
inductive Misfit (query : Query) (numeric : Numeric) (D : Nat) : Fault → Prop
  /-- It has another count of axes. -/
  | dimensions : query.pairs.length ≠ D →
    Misfit query numeric D (.queryDimensions query.isRay query.pairs.length D)
  /-- A coordinate is of another type. -/
  | type {pair : Coordinate × Coordinate} {value : Coordinate} : pair ∈ query.pairs →
    value = pair.1 ∨ value = pair.2 → value.numeric ≠ numeric →
    Misfit query numeric D (.queryType value numeric)

/-- A coordinate is refused for its type. -/
theorem expect_eq_error {numeric : Numeric} {value : Coordinate} {fault : Fault}
    (failed : expect numeric value = .error fault) :
    value.numeric ≠ numeric ∧ fault = .queryType value numeric := by
  unfold expect at failed
  split at failed
  · cases failed
  · rename_i other
    cases failed
    exact ⟨other, rfl⟩

/-- Only a query that does not fit has no points. -/
theorem points_misfit {query : Query} {numeric : Numeric} {D : Nat} {fault : Fault}
    (failed : points numeric D query.isRay query.pairs = .error fault) :
    query.Misfit numeric D fault := by
  unfold points at failed
  split at failed
  · rename_i sized
    have typed {side : Coordinate × Coordinate → Coordinate}
        (either : ∀ pair, side pair = pair.1 ∨ side pair = pair.2)
        (refused : (⟨query.pairs.toArray, sized⟩ : Vector _ D).mapM
          (fun pair => expect numeric (side pair)) = .error fault) :
        query.Misfit numeric D fault := by
      obtain ⟨pair, member, refused⟩ := Except.mapM_vector_eq_error refused
      obtain ⟨other, rfl⟩ := expect_eq_error refused
      exact .type (by simpa using member) (either pair) other
    simp only at failed
    cases first : (⟨query.pairs.toArray, sized⟩ : Vector _ D).mapM
        fun pair => expect numeric pair.1 with
    | error refused =>
      simp only [first, bind, Except.bind] at failed
      cases failed
      exact typed (fun _ => .inl rfl) first
    | ok points =>
      cases second : (⟨query.pairs.toArray, sized⟩ : Vector _ D).mapM
          fun pair => expect numeric pair.2 with
      | error refused =>
        simp only [first, second, bind, Except.bind] at failed
        cases failed
        exact typed (fun _ => .inr rfl) second
      | ok others =>
        simp only [first, second, bind, Except.bind] at failed
        cases failed
  · rename_i sized
    cases failed
    exact .dimensions (by simpa using sized)

/-- Only a query that does not fit starts no search, whatever a tree shows of the records. -/
theorem start_misfit {α : Type} [Arithmetic α] {D size : Nat} {tree : World.Tree α D}
    {records : Pool Bytes} {shown : Key → Option Bytes} {query : Query} {fault : Fault}
    (keeps : tree.Keeps size shown) (live : Backed size shown records)
    (failed : query.start tree records = .error fault) :
    query.Misfit tree.numeric D fault := by
  apply points_misfit
  cases query with
  | shape bounds =>
    unfold start at failed
    cases points : points tree.numeric D false bounds with
    | error refused =>
      simp only [points, bind, Except.bind] at failed
      cases failed
      exact points
    | ok found =>
      obtain ⟨search, _, started, -⟩ :=
        World.Search.overExtent_spec keeps.holds live ⟨found.1, found.2⟩
      simp only [points, bind, Except.bind, started] at failed
      cases failed
  | ray axes distance =>
    unfold start at failed
    cases points : points tree.numeric D true axes with
    | error refused =>
      simp only [points, bind, Except.bind] at failed
      cases failed
      exact points
    | ok found =>
      have along (most : α) : World.Search.alongRay tree found.1 found.2 most records ≠
          .error fault := by
        obtain ⟨search, _, started, -⟩ :=
          World.Search.alongRay_spec keeps.holds live found.1 found.2 most
        intro same
        cases started.symm.trans same
      simp only [points, bind, Except.bind] at failed
      exact absurd failed (along _)

end Query

namespace Storage

variable {α : Type} [Arithmetic α] {storage : Storage α} {own : Key} {member : Member α}

/-! ## Indices that cannot be made -/

/-- Only a rejected description makes no index, in an arithmetic to which coordinates are
rounded. -/
theorem Uncreatable.exists_rejection (rounding : Rounding α) (converts : rounding.Converts)
    (usable : storage.config.Usable α) (sound : storage.layout.Sound) {specs : List AxisSpec}
    {failure : Failure} (uncreatable : storage.Uncreatable specs failure) :
    ∃ rejection, failure = .rejected rejection := by
  cases uncreatable with
  | @described rejection _ => exact ⟨rejection, rfl⟩
  | @crowded _ _ rejection _ _ => exact ⟨rejection, rfl⟩
  | @unmade numeric axes _ _ fault resolved _ failed =>
    have accepted (axis : World.Axis) (listed : axis ∈ axes) :
        axis.Accepted α numeric storage.layout.size :=
      (AxisSpec.resolveAll_spec sound resolved axis listed).accepted
    obtain ⟨tree, made⟩ : ∃ tree : World.Tree α axes.toArray.size,
        World.Tree.create numeric ⟨axes.toArray, rfl⟩ storage.config = .ok tree :=
      World.Tree.create_succeeds rounding converts usable (AxisSpec.resolveAll_length resolved)
        fun axis listed => accepted axis (by simpa using listed)
    unfold Index.create at failed
    simp only [made, bind, Except.bind] at failed
    cases failed

/-! ## Read cursors -/

/-- A cursor whose index is there, whose search is settled in the tree of the index, and the frames
of whose walk have passed one another. -/
def Placed (storage : Storage α) (cursor : Cursor α) : Prop :=
  ∃ own member search place, cursor = Member.cursor member own search ∧
    storage.indices.get? own = some member ∧
    Settled member.index.tree storage.records search place ∧ search.walk.Aligned

namespace Placed

variable {cursor : Cursor α}

/-- A cursor stays where it is when the counts of cursors change. -/
theorem congr {other : Storage α} (placed : storage.Placed cursor)
    (records : other.records = storage.records)
    (indices : ∀ {key member}, storage.indices.get? key = some member →
      ∃ cursors, other.indices.get? key = some (member.usedBy cursors)) : other.Placed cursor := by
  obtain ⟨own, member, search, place, rfl, found, settled, aligned⟩ := placed
  obtain ⟨cursors, held⟩ := indices found
  exact ⟨own, member.usedBy cursors, search, place, rfl, held, records ▸ settled, aligned⟩

/-- Counts do not move a cursor. -/
theorem recounted {after : Storage α} (placed : storage.Placed cursor)
    (recounted : storage.Recounted after) : after.Placed cursor := by
  cases recounted with
  | readers readers =>
    exact placed.congr rfl fun {_ member} found => ⟨member.index.cursors, found⟩
  | @cursors own member found cursors readers =>
    refine placed.congr rfl fun {key other} there => ?_
    show ∃ count, (storage.indices.set own (member.usedBy cursors)).get? key = _
    by_cases same : key = own
    · subst same
      obtain rfl := Option.some.inj (found.symm.trans there)
      exact ⟨cursors, Pool.get?_set_self _ found⟩
    · exact ⟨other.index.cursors, (Pool.get?_set_ne _ _ same).trans there⟩

/-- The current record is found, and it is there. -/
theorem current? (placed : storage.Placed cursor) (inStep : storage.InStep) :
    ∃ current, storage.current? cursor = .ok current ∧
      ∀ key, current = some key → ∃ bytes, storage.records.get? key = some bytes := by
  obtain ⟨own, member, search, place, rfl, found, settled, -⟩ := placed
  obtain ⟨current, faces, passes⟩ := settled.faces
  refine ⟨current, ?_, fun key here => ?_⟩
  · unfold Storage.current?
    rw [cursorTree_eq found]
    exact faces.current? (inStep.tree found).places.sound.linked
  · have met := passes key here
    unfold World.Search.meets at met
    cases there : storage.records.get? key with
    | none =>
      rw [there] at met
      cases met
    | some bytes => exact ⟨bytes, rfl⟩

/-- The bytes of the current record are read. -/
theorem currentBytes? (placed : storage.Placed cursor) (inStep : storage.InStep) :
    ∃ bytes, storage.currentBytes? cursor = .ok bytes := by
  obtain ⟨current, now, there⟩ := placed.current? inStep
  unfold Storage.currentBytes?
  rw [now]
  cases current with
  | none => exact ⟨none, rfl⟩
  | some key =>
    obtain ⟨bytes, found⟩ := there key rfl
    refine ⟨some bytes, ?_⟩
    simp only [bind, Except.bind, found]
    rfl

/-- A read cursor goes on, and stands at a place again. -/
theorem advanceRead (placed : storage.Placed cursor) (inStep : storage.InStep) :
    ∃ next, storage.advanceRead cursor = .ok next ∧ storage.Placed next := by
  obtain ⟨current, now, -⟩ := placed.current? inStep
  have again := placed
  obtain ⟨own, member, search, place, rfl, found, settled, aligned⟩ := placed
  unfold Storage.advanceRead
  rw [now]
  cases current with
  | none => exact ⟨_, rfl, again⟩
  | some key =>
    obtain ⟨faced, faces, -⟩ := settled.faces
    have facing : storage.current? (member.cursor own search) = .ok faced := by
      unfold Storage.current?
      rw [cursorTree_eq found]
      exact faces.current? (inStep.tree found).places.sound.linked
    obtain rfl := Except.ok.inj (now.symm.trans facing)
    obtain ⟨next, there, went, leaves⟩ := faces.advance (inStep.tree found).places
      (World.Search.testable_of_holds (inStep.tree found).holds inStep.live search.query)
    refine ⟨member.cursor own next, ?_, own, member, next, there, rfl, found, leaves.settled,
      World.Search.aligned_advance aligned went⟩
    simp only [bind, Except.bind, Storage.next, cursorTree_eq found]
    have advanced : search.advance member.index.tree storage.records = .ok next := went
    simp only [Member.cursor, advanced]
    rfl

/-- A read cursor meets the rest of its records. -/
theorem rest (placed : storage.Placed cursor) (inStep : storage.InStep) :
    ∃ result, storage.rest cursor = .ok result := by
  obtain ⟨own, member, search, place, rfl, found, settled, -⟩ := placed
  obtain ⟨met, last, run, -⟩ := World.Search.rest_spec (inStep.tree found).places
    (World.Search.testable_of_holds (inStep.tree found).holds inStep.live search.query) settled
  refine ⟨(met, member.cursor own last), ?_⟩
  unfold Storage.rest
  rw [cursorTree_eq found]
  have walked : World.Search.rest member.index.tree storage.records search = .ok (met, last) := run
  simp only [Member.cursor, bind, Except.bind, walked]
  rfl

end Placed

end Storage

end SpatialIndex
