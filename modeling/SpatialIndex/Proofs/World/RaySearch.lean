import SpatialIndex.Proofs.World.Aim

/-!
# Searches along a ray

In every arithmetic a ray query yields only records that its beam hits, each once: every candidate
is compared with the beam. In exact arithmetic it loses none along a clear line, since the search is
promised every record that the beam hits and keeps its promise over every node it leaves.
-/
open SpatialIndex.Action (Ensures)
open SpatialIndex.Partition (Address Line RayWalk Step Tree.Sound Walk itemsAt)

namespace SpatialIndex

open Record (Bytes)

namespace Partition

variable {R : Type} {D : Nat}

/-- A ray walk stands at one address. -/
theorem Walk.At.ray_unique {α : Type} {tree : Partition.Tree R D} {walk : RayWalk α D}
    {place : Address D} (stands : Walk.At tree (.ray walk) (some place))
    {other : Option (Address D)} (again : Walk.At tree (.ray walk) other) : other = some place := by
  cases stands with
  | ray _ _ held =>
    have length := held.way.length
    cases again with
    | ray _ _ also =>
      have sameLength := also.way.length
      rw [held.along, also.along]
      congr 2
      omega
    | rayOver _ ended =>
      rw [ended] at length
      cases length

end Partition

namespace World.Search

variable {D : Nat} {tree : Tree Exact D} {records : Pool Bytes} {line : Line D}
  {factors : Fin D → ℚ} {search : Search Exact D} {place : Address D} {key : Key}

/-- What a search along a line has still to look at: a key of its node from its position on, or one
of a node that its walk owes the line. -/
def Promises (tree : Tree Exact D) (line : Line D) (factors : Fin D → ℚ) (search : Search Exact D)
    (place : Address D) (key : Key) : Prop :=
  ∃ walk s, search.walk = .ray walk ∧ Walk.At tree.partition (.ray walk) (some place) ∧
    walk.Follows line factors s ∧
    (key ∈ (itemsAt tree.partition.nodes place).drop search.position ∨
      ∃ address, walk.Owes tree.partition.nodes line factors s place address ∧
        key ∈ itemsAt tree.partition.nodes address)

/-- A search that has still to look at a key stands in its tree. -/
theorem Promises.stands (promises : Promises tree line factors search place key) :
    search.walk.At tree.partition (some place) := by
  obtain ⟨walk, -, shape, stands, -⟩ := promises
  rw [shape]
  exact stands

/-- Where a walk that is promised something stands is known. -/
theorem Promises.unique (promises : Promises tree line factors search place key)
    {other : Option (Address D)} (again : search.walk.At tree.partition other) :
    other = some place := by
  obtain ⟨walk, -, shape, stands, -⟩ := promises
  rw [shape] at again
  exact stands.ray_unique again

/-- A walk that owes a node goes on to a node, and what is stored in the owed one is to do there or
still promised. -/
theorem advance_of_owes (linked : Partition.Linked tree.partition.border tree.partition.nodes)
    (clear : line.Clear tree.border) {walk : RayWalk Exact D} {s : ℚ}
    (stands : Walk.At tree.partition (.ray walk) (some place))
    (follows : walk.Follows line factors s) {address : Address D}
    (owes : walk.Owes tree.partition.nodes line factors s place address)
    (stored : key ∈ itemsAt tree.partition.nodes address) (query : Query Exact D) :
    ∃ next there, Walk.advance tree.partition (.ray walk) = .ok next ∧
      Promises tree line factors ⟨next, query, 0⟩ there key := by
  cases stands with
  | ray known border held =>
    obtain ⟨final, run, marches⟩ := held.follow linked
    have frame := marches.frame
    have advanced : Walk.advance tree.partition (.ray walk) = .ok (.ray final) := by
      rw [Walk.advance, RayWalk.advance_of_follow known run]
      rfl
    obtain ⟨there, later, standing, along, owed⟩ :=
      RayWalk.Stands.owes_marches marches held follows (border ▸ clear) owes
    refine ⟨_, there, advanced, final, later, rfl,
      .ray (frame.2.2.trans known) (frame.2.1.trans border) standing, along, ?_⟩
    rcases owed with rfl | owes
    · exact .inl stored
    · exact .inr ⟨address, owes, stored⟩

/-- Seeking keeps the promise of a key that passes the test. -/
theorem Promises.seekWithin (promises : Promises tree line factors search place key)
    (linked : Partition.Linked tree.partition.border tree.partition.nodes)
    (clear : line.Clear tree.border) (fuel : Nat) (testable : Testable tree records search.query)
    (passes : meets tree records search.query key = .ok true) :
    Ensures (Search.seekWithin tree records fuel) search
      (fun _ next => ∃ there, Promises tree line factors next there key) fun _ _ => True := by
  induction fuel generalizing search place with
  | zero => exact ⟨place, promises⟩
  | succ fuel ih =>
    rcases ensures_seekWithin_at promises.stands linked testable fuel with
      ⟨position, -, -, -, -, keeps, ends⟩ | ⟨all, goesOn⟩
    · rw [ends]
      obtain ⟨walk, s, shape, stands, follows, due⟩ := promises
      exact ⟨place, walk, s, shape, stands, follows,
        due.imp_left fun here => keeps key here passes⟩
    · obtain ⟨walk, s, shape, stands, follows, here | ⟨address, owes, stored⟩⟩ := promises
      · rw [all key here] at passes
        cases passes
      · obtain ⟨next, there, advanced, promised⟩ :=
          advance_of_owes linked clear stands follows owes stored search.query
        rw [← shape] at advanced
        rw [goesOn advanced]
        exact ih promised testable passes

/-- A search that is run keeps its promise. -/
theorem Promises.seek (promises : Promises tree line factors search place key)
    (linked : Partition.Linked tree.partition.border tree.partition.nodes)
    (clear : line.Clear tree.border) (testable : Testable tree records search.query)
    (passes : meets tree records search.query key = .ok true) {next : Search Exact D}
    (ran : Search.run (Search.seek tree records) search = .ok next) :
    ∃ there, Promises tree line factors next there key := by
  have sought := promises.seekWithin linked clear (tree.partition.nodeCount + 1) testable passes
  unfold Search.run Search.seek at ran
  unfold Ensures at sought
  split at ran
  · rename_i after found
    rw [found] at sought
    cases ran
    exact sought
  · cases ran

/-- Going on from another key keeps the promise. -/
theorem Promises.advance (promises : Promises tree line factors search place key)
    (linked : Partition.Linked tree.partition.border tree.partition.nodes)
    (clear : line.Clear tree.border) (testable : Testable tree records search.query)
    (passes : meets tree records search.query key = .ok true) {current : Key}
    (found : (itemsAt tree.partition.nodes place)[search.position]? = some current)
    (different : key ≠ current) {next : Search Exact D}
    (advanced : search.advance tree records = .ok next) :
    ∃ there, Promises tree line factors next there key := by
  obtain ⟨items, run, -⟩ := promises.stands.items? linked
  have later : Promises tree line factors { search with position := search.position + 1 } place
      key := by
    obtain ⟨walk, s, shape, standing, follows, due⟩ := promises
    refine ⟨walk, s, shape, standing, follows, due.imp_left fun here => ?_⟩
    obtain ⟨bound, rfl⟩ := List.getElem?_eq_some_iff.mp found
    rw [List.drop_eq_getElem_cons bound] at here
    exact (List.mem_cons.mp here).resolve_left different
  unfold Search.advance at advanced
  rw [run] at advanced
  exact later.seek linked clear testable passes advanced

/-- A search that is promised a key that passes the test meets it. -/
theorem Promises.mem (promises : Promises tree line factors search place key)
    {whereabouts : Key → Option (Address D)} (places : tree.partition.Places whereabouts)
    (clear : line.Clear tree.border) (fuel : Nat) (testable : Testable tree records search.query)
    (settled : Settled tree records search (some place))
    (passes : meets tree records search.query key = .ok true) {met : List Key}
    {last : Search Exact D} (run : restWithin tree records fuel search = .ok (met, last))
    (ends : last.walk.At tree.partition none) : key ∈ met := by
  induction fuel generalizing search place met with
  | zero =>
    cases run
    cases promises.unique ends
  | succ fuel ih =>
    obtain ⟨current, faces, -⟩ := settled.faces
    have now := faces.current? places.sound.linked
    rw [restWithin, now] at run
    cases faces with
    | @key _ current stands found =>
      obtain ⟨next, there, advanced, leaves⟩ := (Faces.key stands found).advance places testable
      simp only [bind, Except.bind, advanced] at run
      cases rested : restWithin tree records fuel next with
      | error fault =>
        rw [rested] at run
        cases run
      | ok outcome =>
        rw [rested] at run
        cases run
        by_cases same : key = current
        · exact same ▸ List.mem_cons_self
        · obtain ⟨further, promised⟩ := promises.advance places.sound.linked clear testable passes
            found same advanced
          have query : next.query = search.query := leaves.query
          obtain rfl := promised.unique leaves.settled.stands
          exact List.mem_cons_of_mem _
            (ih promised (query ▸ testable) leaves.settled (query ▸ passes) rested)

end World.Search

namespace World

open Search (beamOf lineOf rayOf)

variable {D : Nat}

/-- A tree over a world range of finite numbers, in step with records that lie inside it with their
bounds in order. -/
structure Tree.Covers (size : Nat) (records : Pool Bytes) (tree : Tree Exact D) : Prop where
  /-- The tree keeps the records. -/
  keeps : tree.Keeps size records.get?
  /-- The ends of the world range are finite. -/
  range : ∀ d : Fin D, Arithmetic.isFinite (Exact.ofCoordinate (tree.axes.get d).low) = true ∧
    Arithmetic.isFinite (Exact.ofCoordinate (tree.axes.get d).high) = true
  /-- The records lie inside the world range. -/
  covered : ∀ {key record extent}, records.get? key = some record →
    tree.extent record = .ok extent → tree.covers extent = true
  /-- No record is inverted. -/
  upright : ∀ {key record extent}, records.get? key = some record →
    tree.extent record = .ok extent →
    ∀ d : Fin D, (extent.low.get d).atMost (extent.high.get d) = true

namespace Search

/-- The record of a key is hit by the beam of a ray query. -/
def Struck {α : Type} [Arithmetic α] (tree : Tree α D) (records : Pool Bytes)
    (beam : Beam α D) (key : Key) : Prop :=
  ∃ record extent, records.get? key = some record ∧ tree.extent record = .ok extent ∧
    beam.hits (extent.low.map Arithmetic.ofCoordinate) (extent.high.map Arithmetic.ofCoordinate) =
      true

/-- The test of a ray search is whether the beam hits the record. -/
theorem meets_beam_iff {α : Type} [Arithmetic α] {tree : Tree α D} {records : Pool Bytes}
    {beam : Beam α D} {key : Key} :
    meets tree records (.beam beam) key = .ok true ↔ Struck tree records beam key := by
  unfold meets Struck
  cases records.get? key with
  | none => simp
  | some record =>
    simp only [Except.bind_eq_ok_iff, Option.some.injEq]
    constructor
    · rintro ⟨extent, read, passes⟩
      exact ⟨record, extent, rfl, read, Except.ok.inj passes⟩
    · rintro ⟨_, extent, rfl, read, hit⟩
      exact ⟨extent, read, congrArg Except.ok hit⟩

/-- In every arithmetic a ray query yields records that its beam hits, each once. -/
theorem alongRay_sound {α : Type} [Arithmetic α] {tree : Tree α D} {records : Pool Bytes}
    {size : Nat} (holds : tree.Holds size records.get?) (origin direction : Vector Coordinate D)
    (distance : α) :
    ∃ search place met last, alongRay tree origin direction distance records = .ok search ∧
      Settled tree records search place ∧
      search.query = .beam (beamOf tree origin direction distance) ∧
      rest tree records search = .ok (met, last) ∧ last.walk.At tree.partition none ∧ met.Nodup ∧
      ∀ key ∈ met, Struck tree records (beamOf tree origin direction distance) key := by
  have live := backed_of_holds holds
  obtain ⟨search, place, started, settled, query⟩ :=
    alongRay_spec holds live origin direction distance
  obtain ⟨met, last, run, distinct, sound, -, ends⟩ :=
    rest_spec holds.places (testable_of_holds holds live search.query) settled
  refine ⟨search, place, met, last, started, settled, query, run, ends, distinct, ?_⟩
  intro key member
  have passes := (sound key member).2
  rw [query] at passes
  exact meets_beam_iff.mp passes

/-- A ray search is promised every record that its beam hits. -/
theorem start_promises {tree : Tree Exact D} {records : Pool Bytes} {size : Nat}
    (covers : tree.Covers size records) {low high : Fin D → ℚ} (spans : tree.Spans low high)
    {origin direction : Vector Coordinate D}
    (starts : ∀ d : Fin D, Arithmetic.isFinite (Exact.ofCoordinate (origin.get d)) = true)
    (heads : ∀ d : Fin D, Arithmetic.isFinite (Exact.ofCoordinate (direction.get d)) = true)
    {distance : Exact} (reaches : Arithmetic.le (Arithmetic.ofNat 0) distance = true) {key : Key}
    (struck : Struck tree records (beamOf tree origin direction distance) key) :
    Promises tree (lineOf tree origin direction) (tree.step low high)
      ⟨.ray (RayWalk.start tree.partition (rayOf tree origin direction) ⟨distance, tree.factors⟩),
        .beam (beamOf tree origin direction distance), 0⟩ [] key := by
  obtain ⟨record, extent, known, read, hit⟩ := struck
  have formed := covers.keeps.formed
  obtain ⟨_, again, typed⟩ := covers.keeps.reads.extent (covers.keeps.sized known)
  rw [read, Except.ok.injEq] at again
  subst again
  obtain ⟨box, found, placed⟩ := covers.keeps.holds.placement_eq known
  rw [Tree.recordBox_of_extent read, Except.ok.injEq] at found
  subst found
  obtain ⟨t, gets, there⟩ := gets_of_hits spans formed starts heads reaches typed
    (covers.covered known read) (covers.upright known read) hit
  obtain ⟨start, motion, aims⟩ := exists_aims spans formed starts heads
  have stored : key ∈ itemsAt tree.partition.nodes ((tree.box extent).address tree.border) :=
    (covers.keeps.places.stored _ key).mpr placed
  obtain ⟨s, standing, follows, due⟩ := RayWalk.start_owes tree.partition
    (rayOf tree origin direction) ⟨distance, tree.factors⟩ formed.legal aims.rayStart aims.rayMotion
    (spans.factors formed) gets (Partition.located_of_mem_itemsAt stored)
    (Partition.Box.address_length _ _) there
  obtain ⟨place, stands, rfl | rfl⟩ := Walk.start_ray tree.partition (rayOf tree origin direction)
    ⟨distance, tree.factors⟩
  · have length := standing.way.length
    cases stands with
    | rayOver _ ended =>
      rw [ended] at length
      cases length
  refine ⟨_, s, rfl, stands, follows, ?_⟩
  rcases due with here | owes
  · rw [← here] at stored
    exact .inl stored
  · exact .inr ⟨_, owes, stored⟩

/-- A ray query of finite numbers along a clear line yields exactly the records that its beam hits,
each once. -/
theorem alongRay_exact {tree : Tree Exact D} {records : Pool Bytes} {size : Nat}
    (covers : tree.Covers size records) {origin direction : Vector Coordinate D}
    (starts : ∀ d : Fin D, Arithmetic.isFinite (Exact.ofCoordinate (origin.get d)) = true)
    (heads : ∀ d : Fin D, Arithmetic.isFinite (Exact.ofCoordinate (direction.get d)) = true)
    {distance : Exact} (reaches : Arithmetic.le (Arithmetic.ofNat 0) distance = true)
    (clear : (lineOf tree origin direction).Clear tree.border) :
    ∃ search met last, alongRay tree origin direction distance records = .ok search ∧
      rest tree records search = .ok (met, last) ∧ met.Nodup ∧
      ∀ key, key ∈ met ↔ Struck tree records (beamOf tree origin direction distance) key := by
  have holds := covers.keeps.holds
  have live := backed_of_holds holds
  have spans : tree.Spans (fun d => (Exact.ofCoordinate (tree.axes.get d).low).value)
      fun d => (Exact.ofCoordinate (tree.axes.get d).high).value :=
    ⟨fun d => Exact.eq_finite (covers.range d).1, fun d => Exact.eq_finite (covers.range d).2⟩
  obtain ⟨search, place, met, last, started, settled, query, run, ends, distinct, sound⟩ :=
    alongRay_sound holds origin direction distance
  refine ⟨search, met, last, started, run, distinct, fun key => ⟨sound key, fun struck => ?_⟩⟩
  have testable (asked : Query Exact D) : Testable tree records asked :=
    testable_of_holds holds live asked
  have passes := meets_beam_iff.mpr struck
  have promises := start_promises covers spans starts heads reaches struck
  rw [alongRay_eq] at started
  obtain ⟨there, promised⟩ :=
    promises.seek covers.keeps.places.sound.linked clear (testable _) passes started
  obtain rfl := promised.unique settled.stands
  exact promised.mem covers.keeps.places clear _ (testable _) settled (query ▸ passes) run ends

/-- A square of eight cells by eight. -/
def Sample.axes : Vector Axis 2 :=
  #v[⟨⟨0, 0, 1, .int⟩, ⟨.i8, 0⟩, ⟨2, 2, 1, .int⟩, ⟨.i8, 8⟩⟩,
    ⟨⟨1, 1, 1, .int⟩, ⟨.i8, 0⟩, ⟨3, 3, 1, .int⟩, ⟨.i8, 8⟩⟩]

/-- The diagonal of the square meets the sides of its cells at the corners only, and goes on upwards
on both axes. -/
theorem Sample.clear {line : Line 2} (origin : ∀ d, line.origin d = 0)
    (velocity : ∀ d, line.velocity d = 1) : line.Clear 8 := by
  intro d e i j _ _ _ inside _ _ _ ordered close
  have grain : Partition.grain 8 = 4 := by decide
  have levels : Partition.levelCount 8 - 1 = 1 := by decide
  have crossing (d : Fin 2) (side : Nat) : line.crossing 8 d side = side * 4 := by
    rw [Line.crossing, origin, velocity, grain]
    norm_num
  rw [levels] at inside
  rw [crossing, crossing] at ordered close
  unfold Line.tolerance at close
  have bound : (i : ℚ) ≤ 2 := by exact_mod_cast inside
  have below : (j : ℚ) < i + 1 := by linarith
  have same : i = j := by
    have least : (i : ℚ) ≤ j := by linarith
    have first : i ≤ j := by exact_mod_cast least
    have last : j < i + 1 := by exact_mod_cast below
    omega
  subst same
  refine ⟨by rw [crossing, crossing], ?_⟩
  unfold Line.Climbs
  rw [velocity, velocity]

/-- The diagonal. -/
def Sample.origin : Vector Coordinate 2 := #v[⟨.i8, 0⟩, ⟨.i8, 0⟩]

/-- The way of the diagonal. -/
def Sample.direction : Vector Coordinate 2 := #v[⟨.i8, 1⟩, ⟨.i8, 1⟩]

/-- A tree over the square with one record, in which the diagonal is as it seems. -/
theorem Sample.filled : ∃ (tree : Tree Exact 2) (records : Pool Bytes), records.size = 1 ∧
    tree.Covers 4 records ∧ tree.border = 8 ∧
    ∀ d, (lineOf tree Sample.origin Sample.direction).origin d = 0 ∧
      (lineOf tree Sample.origin Sample.direction).velocity d = 1 := by
  have made : (match (Tree.create .i8 Sample.axes .standard : Except Fault (Tree Exact 2)) with
    | .ok tree => decide (tree.border = 8 ∧
      ∀ d, (lineOf tree Sample.origin Sample.direction).origin d = 0 ∧
        (lineOf tree Sample.origin Sample.direction).velocity d = 1)
    | .error _ => false) = true := by
    decide +kernel
  have accepted (d : Fin 2) : (Sample.axes.get d).Accepted Exact .i8 4 := by
    match d with
    | 0 => exact ⟨⟨⟨by decide, by decide⟩, by decide, by decide⟩, ⟨rfl, rfl⟩, by decide +kernel⟩
    | 1 => exact ⟨⟨⟨by decide, by decide⟩, by decide, by decide⟩, ⟨rfl, rfl⟩, by decide +kernel⟩
  cases created : (Tree.create .i8 Sample.axes .standard : Except Fault (Tree Exact 2)) with
  | error fault =>
    rw [created] at made
    cases made
  | ok start =>
    rw [created] at made
    obtain ⟨border, aims⟩ := of_decide_eq_true made
    obtain ⟨kept, numeric, axes⟩ := Tree.create_keeps created accepted
    have none_yet : (Pool.empty : Pool Bytes).get? = fun _ => none := funext Pool.get?_empty
    obtain ⟨-, ⟨_, _⟩, -, held, partition, sameBorder, rfl⟩ :=
      (kept.insert rfl (rfl : ([4, 4, 5, 5] : Bytes).length = 4) ⟨.error, #[]⟩).exists_eq
    rw [← none_yet, ← Pool.get?_insert_eq_update Pool.wellFormed_empty] at held
    have only {key : Key} {record : Bytes}
        (known : ((Pool.empty : Pool Bytes).insert [4, 4, 5, 5]).2.get? key = some record) :
        record = [4, 4, 5, 5] := by
      rw [Pool.get?_insert_eq_update Pool.wellFormed_empty, none_yet] at known
      by_cases here : key = ((Pool.empty : Pool Bytes).insert [4, 4, 5, 5]).1
      · rw [here, Function.update_self] at known
        exact (Option.some.inj known).symm
      · rw [Function.update_of_ne here] at known
        cases known
    have extent : start.extent [4, 4, 5, 5] =
        .ok ⟨#v[⟨.i8, 4⟩, ⟨.i8, 4⟩], #v[⟨.i8, 5⟩, ⟨.i8, 5⟩]⟩ := by
      apply Tree.extent_of_reads
      all_goals
        rw [numeric, axes]
        decide
    have square {key : Key} {record : Bytes} {found : Extent 2}
        (known : ((Pool.empty : Pool Bytes).insert [4, 4, 5, 5]).2.get? key = some record)
        (read : Tree.extent { start with partition } record = .ok found) :
        found = ⟨#v[⟨.i8, 4⟩, ⟨.i8, 4⟩], #v[⟨.i8, 5⟩, ⟨.i8, 5⟩]⟩ := by
      rw [only known] at read
      exact Except.ok.inj (read.symm.trans extent)
    refine ⟨{ start with partition }, _, rfl,
      ⟨held, ?_, fun known read => ?_, fun known read => ?_⟩, sameBorder.trans border, aims⟩
    · show ∀ d : Fin 2, Arithmetic.isFinite (Exact.ofCoordinate (start.axes.get d).low) = true ∧
        Arithmetic.isFinite (Exact.ofCoordinate (start.axes.get d).high) = true
      rw [axes]
      decide
    · rw [square known read]
      unfold Tree.covers
      rw [axes]
      decide
    · rw [square known read]
      decide

/-- The diagonal of the square is a clear line, and a query along it is answered exactly. -/
theorem alongRay_diagonal :
    ∃ (tree : Tree Exact 2) (records : Pool Bytes), records.size = 1 ∧ tree.Covers 4 records ∧
      (lineOf tree Sample.origin Sample.direction).Clear tree.border ∧
      ∃ search met last,
        alongRay tree Sample.origin Sample.direction .top records = .ok search ∧
        rest tree records search = .ok (met, last) ∧ met.Nodup ∧
        ∀ key, key ∈ met ↔
          Struck tree records (beamOf tree Sample.origin Sample.direction .top) key := by
  obtain ⟨tree, records, one, covers, border, aims⟩ := Sample.filled
  have clear : (lineOf tree Sample.origin Sample.direction).Clear tree.border := by
    rw [border]
    exact Sample.clear (fun d => (aims d).1) fun d => (aims d).2
  exact ⟨tree, records, one, covers, clear, alongRay_exact covers (by decide) (by decide) rfl clear⟩

/-- The descent of the square that meets the record at a corner: it goes up on one axis and down on
the other there, passes from the cell before the corner to the one behind it, and misses the record
in the cell beside. -/
example :
    (match (Tree.create .i8 Sample.axes .standard : Except Fault (Tree Exact 2)) with
    | .error _ => none
    | .ok empty =>
      let (key, records) := (Pool.empty : Pool Bytes).insert [4, 4, 5, 5]
      match Tree.insert key [4, 4, 5, 5] (empty, ⟨.error, #[]⟩) with
      | .error _ _ => none
      | .ok _ (tree, _) =>
        let origin : Vector Coordinate 2 := #v[⟨.i8, 3⟩, ⟨.i8, 5⟩]
        let direction : Vector Coordinate 2 := #v[⟨.i8, 1⟩, ⟨.i8, -1⟩]
        match alongRay tree origin direction .top records with
        | .error _ => none
        | .ok search =>
          match rest tree records search,
            meets tree records (.beam (beamOf tree origin direction .top)) key with
          | .ok (met, _), .ok hit => some (met, hit)
          | _, _ => none) = some ([], true) := by
  decide +kernel

end Search

end World

end SpatialIndex
