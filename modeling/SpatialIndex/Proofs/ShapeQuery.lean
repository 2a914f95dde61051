import SpatialIndex.Proofs.Arithmetic.Exact
import SpatialIndex.Proofs.Session
import SpatialIndex.Proofs.World.Cells

/-!
# Shape queries

In a lawful arithmetic a query for the records between two points loses none of them: whatever
callers did before, a read cursor that is run to its end yields every record that passes the exact
test once, and nothing else, wherever records and query lie.
-/
namespace SpatialIndex

open Record (Bytes Layout LayoutSpec)

variable {α : Type} [Arithmetic α]

namespace Query

/-- Two points of the type of an index are the points of a query between them. -/
theorem points_zip {numeric : Numeric} {D : Nat} (isRay : Bool) {first second : Vector Coordinate D}
    (firstTyped : ∀ d : Fin D, (first.get d).numeric = numeric)
    (secondTyped : ∀ d : Fin D, (second.get d).numeric = numeric) :
    points numeric D isRay (first.toList.zip second.toList) = .ok (first, second) := by
  have pair (d : Fin D) : (first.zip second).get d = (first.get d, second.get d) := by
    simp [Vector.get]
  have typed (d : Fin D) : ((first.zip second).get d).1.numeric = numeric ∧
      ((first.zip second).get d).2.numeric = numeric := by
    rw [pair]
    exact ⟨firstTyped d, secondTyped d⟩
  have points := points_eq isRay typed
  rw [Vector.map_fst_zip, Vector.map_snd_zip, Vector.toList_zip] at points
  exact points

end Query

/-- The keys that answer the query between two points exactly. -/
structure Index.Answers (records : Pool Bytes) (index : Index α)
    (wanted : World.Extent index.dimensions) (keys : List Key) : Prop where
  /-- No key is yielded twice. -/
  distinct : keys.Nodup
  /-- Every yielded record is there and passes the exact test by its bytes. -/
  sound : ∀ key ∈ keys, ∃ record extent, records.get? key = some record ∧
    index.tree.extent record = .ok extent ∧ wanted.Passes extent
  /-- Every record that passes the exact test with bounds that are numbers is yielded. -/
  complete : ∀ {key record extent}, records.get? key = some record →
    index.tree.extent record = .ok extent → extent.Numbers → wanted.Passes extent → key ∈ keys

variable [LawfulArithmetic α]

/-- A storage in step answers queries between points of numbers exactly. -/
theorem Storage.InStep.find_between {storage : Storage α} {own : Key} {member : Storage.Member α}
    (inStep : storage.InStep) (idle : storage.writers = 0)
    (found : storage.indices.get? own = some member) {wanted : World.Extent member.index.dimensions}
    (typed : wanted.Typed member.index.numeric) (numbers : wanted.Numbers) :
    ∃ keys after, Storage.find own (.between wanted.low.toList wanted.high.toList) storage =
      .ok keys after ∧ member.index.Answers storage.records wanted keys := by
  have keeps := inStep.tree found
  obtain ⟨search, place, started, settled, query, exact, todo⟩ :=
    World.Search.overExtent_spec keeps.holds inStep.live wanted
  have start : (Query.between wanted.low.toList wanted.high.toList).start member.index.tree
      storage.records = .ok search := by
    unfold Query.between Query.start
    simp only
    have points := Query.points_zip false (fun d => (typed d).1) fun d => (typed d).2
    unfold Index.numeric at points
    rw [points]
    exact started
  obtain ⟨keys, after, ran, distinct, sound, complete⟩ :=
    (inStep.find idle found start settled).exists_eq
  refine ⟨keys, after, ran, distinct, fun key yielded => ?_, ?_⟩
  · have met := (sound key yielded).2
    rw [query] at met
    unfold World.Search.meets at met
    cases known : storage.records.get? key with
    | none => rw [known] at met; cases met
    | some record =>
      rw [known] at met
      simp only [Except.bind_eq_ok_iff] at met
      obtain ⟨extent, read, overlaps⟩ := met
      exact ⟨record, extent, rfl, read, World.Extent.overlaps_iff.mp (Except.ok.inj overlaps)⟩
  · intro key record extent known read numeric passes
    have meets : World.Search.meets member.index.tree storage.records (.extent wanted) key =
        .ok true := by
      unfold World.Search.meets
      rw [known]
      simp only [read, bind, Except.bind]
      exact congrArg Except.ok (World.Extent.overlaps_iff.mpr passes)
    have candidateTyped : extent.Typed member.index.tree.numeric := by
      obtain ⟨other, again, typed⟩ := keeps.reads.extent (inStep.keeps.sized known)
      rw [read] at again
      exact Except.ok.inj again ▸ typed
    obtain ⟨box, found, placed⟩ := keeps.holds.placement_eq known
    have same : box = member.index.tree.box extent := by
      unfold World.Tree.recordBox at found
      rw [read] at found
      exact (Except.ok.inj found).symm
    rw [same] at placed
    have admitted := (keeps.formed.meets typed candidateTyped numbers numeric passes).admitsAll
      (Partition.Box.address_follows member.index.tree.border (member.index.tree.box extent))
    have reached := (todo key meets).mpr ⟨_, admitted, (keeps.places.stored _ key).mpr placed⟩
    exact complete exact key reached (query.symm ▸ meets)

/-- In every state of every session in which no writer is open, the query between two points of
numbers yields exactly the records that pass the exact test, each once. -/
theorem Session.find_exact {spec : LayoutSpec} {layout : Layout}
    (computed : Layout.ofSpec spec = .ok layout) (config : Config) (journal : Journal)
    (requests : List Request) {own : Key} {member : Storage.Member α}
    (idle : ((start layout config journal : Session α).run requests).storage.writers = 0)
    (found : ((start layout config journal : Session α).run requests).storage.indices.get? own =
      some member)
    {wanted : World.Extent member.index.dimensions} (typed : wanted.Typed member.index.numeric)
    (numbers : wanted.Numbers) :
    ∃ keys after, Storage.find own (.between wanted.low.toList wanted.high.toList)
        ((start layout config journal : Session α).run requests).storage = .ok keys after ∧
      member.index.Answers
        ((start layout config journal : Session α).run requests).storage.records wanted keys :=
  (((start_sound computed config journal).run requests).inStep idle).find_between idle found typed
    numbers

namespace Session

/-- Some records, one of them across the end of the line and one inverted. -/
def Sample.inserts : List Request :=
  [.call (.createIndex [line]), .call (.insert [1, 1]), .call (.insert [6, 12]),
    .call (.insert [5, 2]), .call (.insert [0, 0])]

/-- A storage of them in exact arithmetic. -/
def Sample.filled : Session Exact :=
  (start Sample.layout .standard Sample.journal).run Sample.inserts

/-- The query from four to nine is answered exactly. -/
theorem find_in_sample : ∃ member : Storage.Member Exact,
    Sample.filled.storage.indices.get? ⟨1, 0⟩ = some member ∧ member.index.dimensions = 1 ∧
      ∃ (wanted : World.Extent member.index.dimensions) (keys : List Key) (after : Storage Exact),
        wanted.low = Vector.replicate _ (Sample.bound 4) ∧
        wanted.high = Vector.replicate _ (Sample.bound 9) ∧
        Storage.find ⟨1, 0⟩ (.between wanted.low.toList wanted.high.toList)
          Sample.filled.storage = .ok keys after ∧
        member.index.Answers Sample.filled.storage.records wanted keys := by
  have there : (Sample.filled.storage.indices.get? ⟨1, 0⟩).map
      (fun member => (member.index.dimensions, member.index.numeric)) = some (1, .i8) := by
    decide +kernel
  obtain ⟨member, found, shape⟩ := Option.map_eq_some_iff.mp there
  have line := congrArg Prod.fst shape
  have numeric : member.index.numeric = .i8 := congrArg Prod.snd shape
  have low (d : Fin member.index.dimensions) :
      (Vector.replicate member.index.dimensions (Sample.bound 4)).get d = Sample.bound 4 :=
    Vector.getElem_replicate d.isLt
  have high (d : Fin member.index.dimensions) :
      (Vector.replicate member.index.dimensions (Sample.bound 9)).get d = Sample.bound 9 :=
    Vector.getElem_replicate d.isLt
  let wanted : World.Extent member.index.dimensions :=
    ⟨Vector.replicate _ (Sample.bound 4), Vector.replicate _ (Sample.bound 9)⟩
  have typed : wanted.Typed member.index.numeric := by
    intro d
    rw [numeric]
    exact ⟨congrArg Coordinate.numeric (low d), congrArg Coordinate.numeric (high d)⟩
  have numbers : wanted.Numbers := by
    intro d
    exact ⟨congrArg Coordinate.isNaN (low d), congrArg Coordinate.isNaN (high d)⟩
  refine ⟨member, found, line, wanted, ?_⟩
  unfold Sample.filled at found ⊢
  obtain ⟨keys, after, ran, answers⟩ := find_exact Sample.layout_computed .standard Sample.journal
    Sample.inserts (by decide +kernel) found typed numbers
  exact ⟨keys, after, rfl, rfl, ran, answers⟩

end Session

end SpatialIndex
