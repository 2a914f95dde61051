import SpatialIndex.Proofs.Arithmetic.Exact
import SpatialIndex.Proofs.Partition.Alike
import SpatialIndex.Proofs.World.Search

/-!
# Erasing while searching

A sweep goes from record to record of a search and decides at each of them whether it stays in
the tree or is erased. Whatever it decides, it meets the records that the untouched search meets,
each once, and ends with the tree that erasing those records by their boxes leaves.
-/
namespace SpatialIndex

open Record (Bytes)

namespace Partition.Tree

variable {R : Type} {D : Nat} {tree first second : Tree R D} {place : R → Option (Address D)}

/-- Trees that place the same items are alike. -/
theorem Places.alike (places : first.Places place) (other : second.Places place)
    (border : second.border = first.border) : first.Alike second :=
  places.sound.alike other.sound border fun address =>
    (List.perm_ext_iff_of_nodup (places.once address) (other.once address)).mpr fun item => by
      rw [places.stored, other.stored]

variable [DecidableEq R]

/-- The tree after items were erased by their boxes, one after the other. -/
def eraseAll : List (R × Box D) → Tree R D → Except Fault (Tree R D)
  | [], tree => .ok tree
  | (item, box) :: rest, tree =>
    match Tree.erase item box tree with
    | .ok () changed => eraseAll rest changed
    | .error fault _ => .error fault

/-- What is left of a map when some items are gone. -/
def without {β : Type} (whole : R → Option β) (gone : List R) (item : R) : Option β :=
  if item ∈ gone then none else whole item

/-- A map from which nothing is gone is whole. -/
@[simp] theorem without_nil {β : Type} (whole : R → Option β) : without whole [] = whole := by
  funext item
  simp [without]

/-- An item that is gone first is gone with the others. -/
theorem without_cons {β : Type} (whole : R → Option β) (item : R) (gone : List R) :
    without (Function.update whole item none) gone = without whole (item :: gone) := by
  funext other
  unfold without
  by_cases same : other = item
  · subst same
    simp
  · simp [same]

/-- Erasing different items by boxes that lead where they are succeeds, and takes away exactly
these. -/
theorem Places.eraseAll (places : tree.Places place) (pairs : List (R × Box D))
    (valid : ∀ pair ∈ pairs, pair.2.Valid tree.border)
    (held : ∀ pair ∈ pairs, place pair.1 = some (pair.2.address tree.border))
    (distinct : (pairs.map Prod.fst).Nodup) :
    ∃ changed, Tree.eraseAll pairs tree = .ok changed ∧ changed.border = tree.border ∧
      changed.Places (without place (pairs.map Prod.fst)) := by
  induction pairs generalizing tree place with
  | nil => exact ⟨tree, rfl, rfl, by simpa using places⟩
  | cons pair rest ih =>
    obtain ⟨item, box⟩ := pair
    rw [List.map_cons, List.nodup_cons] at distinct
    obtain ⟨changed, run, border, left⟩ := places.erase (valid _ List.mem_cons_self)
      (held _ List.mem_cons_self)
    have others : ∀ pair ∈ rest, Function.update place item none pair.1 =
        some (pair.2.address changed.border) := by
      intro pair member
      have different : pair.1 ≠ item := by
        intro same
        exact distinct.1 (List.mem_map.mpr ⟨pair, member, same⟩)
      rw [Function.update_of_ne different, border]
      exact held pair (List.mem_cons_of_mem _ member)
    obtain ⟨final, runs, same, gone⟩ := ih left
      (fun pair member => border ▸ valid pair (List.mem_cons_of_mem _ member)) others distinct.2
    refine ⟨final, ?_, same.trans border, ?_⟩
    · rw [Tree.eraseAll, run]
      exact runs
    · rw [List.map_cons, ← without_cons]
      exact gone

end Partition.Tree

namespace World.Search

open SpatialIndex.Partition (itemsAt)
open SpatialIndex.Partition.Tree (without without_cons)

variable {α : Type} [Arithmetic α] {D : Nat}

/-- Leave the current record behind, in the tree or erased, and go on to the next one. -/
def leave (records : Pool Bytes) (erases : Bool) (tree : Tree α D) (search : Search α D) :
    Except Fault (Tree α D × Search α D) :=
  if erases then
    match eraseCurrent records (tree, search) with
    | .ok () after => .ok after
    | .error fault _ => .error fault
  else do return (tree, ← search.advance tree records)

/-- Go over the records of a search, at most as many as there are choices; a choice tells whether
the current record is erased. The records are returned with what was chosen for them. -/
def sweep (records : Pool Bytes) : (choices : List Bool) → Tree α D → Search α D →
    Except Fault (List (Key × Bool) × Tree α D × Search α D)
  | [], tree, search => .ok ([], tree, search)
  | erases :: choices, tree, search => do
    match ← search.current? tree with
    | none => return ([], tree, search)
    | some key =>
      let (changed, next) ← leave records erases tree search
      let (later, last) ← sweep records choices changed next
      return ((key, erases) :: later, last)

/-- The records that a sweep erased. -/
def erasedOf (visits : List (Key × Bool)) : List Key := (visits.filter Prod.snd).map Prod.fst

section Sweep

variable {tree : Tree α D} {search : Search α D} {place : Option (Partition.Address D)}
  {records : Pool Bytes} {size : Nat} {shown : Key → Option Bytes}

/-- Leaving a record behind never fails, and takes it out of the tree when it is erased. -/
theorem leave_spec {key : Key} (faces : Faces tree search place (some key))
    (holds : tree.Holds size shown)
    (live : Backed size shown records) (erases : Bool) :
    ∃ changed next there, leave records erases tree search = .ok (changed, next) ∧
      tree.SameSpace changed ∧
      changed.Holds size (if erases then Function.update shown key none else shown) ∧
      Leaves tree records search place key changed next there := by
  cases erases with
  | true =>
    obtain ⟨_, ⟨changed, next⟩, run, left, same, there, leaves⟩ :=
      (faces.eraseCurrent holds live).exists_eq
    refine ⟨changed, next, there, ?_, same, left, leaves⟩
    simp only [leave, if_true, run]
  | false =>
    obtain ⟨next, there, run, leaves⟩ :=
      faces.advance holds.places (testable_of_holds holds live search.query)
    refine ⟨tree, next, there, ?_, .refl tree, holds, leaves⟩
    simp only [leave, Bool.false_eq_true, if_false, run, bind, Except.bind, pure, Except.pure]

/-- A sweep with a choice for every record to do never fails and ends with the search over; it
meets the records that are to do and pass the test, each once, and takes the erased ones out of
the tree. -/
theorem sweep_spec (choices : List Bool) {tree : Tree α D} {search : Search α D}
    {place : Option (Partition.Address D)} {shown : Key → Option Bytes}
    (holds : tree.Holds size shown)
    (live : Backed size shown records)
    (settled : Settled tree records search place) (exact : search.walk.Exact) (keys : List Key)
    (all : ∀ key, Todo tree search place key → key ∈ keys)
    (enough : keys.length ≤ choices.length) :
    ∃ visits after last, sweep records choices tree search = .ok (visits, after, last) ∧
      last.current? after = .ok none ∧ tree.SameSpace after ∧
      after.Holds size (without shown (erasedOf visits)) ∧ (visits.map Prod.fst).Nodup ∧
      ∀ key, key ∈ visits.map Prod.fst ↔
        Todo tree search place key ∧ meets tree records search.query key = .ok true := by
  induction choices generalizing tree search place shown keys with
  | nil =>
    have nothing (key : Key) : ¬Todo tree search place key := by
      intro todo
      have member := all key todo
      rw [List.length_eq_zero_iff.mp (Nat.le_zero.mp enough)] at member
      cases member
    obtain ⟨current, faces, -⟩ := settled.faces
    cases current with
    | some key => exact absurd faces.todo (nothing key)
    | none =>
      refine ⟨[], tree, search, rfl, faces.current? holds.places.sound.linked, .refl tree,
        by simpa [erasedOf] using holds, List.nodup_nil, fun key => ?_⟩
      simp [nothing key]
  | cons erases choices ih =>
    obtain ⟨current, faces, passed⟩ := settled.faces
    have now := faces.current? holds.places.sound.linked
    cases current with
    | none =>
      refine ⟨[], tree, search, ?_, now, .refl tree,
        by simpa [erasedOf] using holds, List.nodup_nil, fun key => ?_⟩
      · rw [sweep, now]
        rfl
      · simp [faces.not_todo]
    | some key =>
      obtain ⟨changed, next, there, run, same, left, leaves⟩ :=
        leave_spec faces holds live erases
      obtain ⟨stays, keeps⟩ := leaves.exact exact
      obtain ⟨shorter, fewer⟩ := leaves.erase faces.todo all
      have alive : Backed size (if erases then Function.update shown key none else shown)
          records := by
        cases erases with
        | false => exact live
        | true => exact live.update_none key
      rw [List.length_cons] at enough
      obtain ⟨visits, after, last, runs, ended, space, holdsAfter, distinct, visited⟩ :=
        ih left alive leaves.settled stays (keys.erase key) fewer (by omega)
      have tests (other : Key) : meets changed records next.query other =
          meets tree records search.query other := by
        rw [leaves.query]
        exact meets_congr same rfl _
      refine ⟨(key, erases) :: visits, after, last, ?_, ended, same.trans space, ?_, ?_, ?_⟩
      · rw [sweep, now]
        simp only [bind, Except.bind, run, runs]
        rfl
      · cases erases with
        | false => exact holdsAfter
        | true => exact (without_cons shown key (erasedOf visits)) ▸ holdsAfter
      · rw [List.map_cons, List.nodup_cons]
        exact ⟨fun again => (leaves.todo key ((visited key).mp again).1).2 rfl, distinct⟩
      · intro other
        rw [List.map_cons, List.mem_cons, visited, tests]
        constructor
        · rintro (rfl | ⟨further, passes⟩)
          · exact ⟨faces.todo, passed _ rfl⟩
          · exact ⟨(leaves.todo other further).1, passes⟩
        · rintro ⟨todo, passes⟩
          by_cases here : other = key
          · exact .inl here
          · exact .inr ⟨keeps other todo here passes, passes⟩

end Sweep

/-- What a sweep over a search of an extent does. -/
structure Swept (tree : Tree α D) (extent : Extent D) (records : Pool Bytes) (search : Search α D)
    (visits : List (Key × Bool)) (after : Tree α D) (last : Search α D) : Prop where
  /-- Nothing but the partition of the tree changed. -/
  space : tree.SameSpace after
  /-- The search is over. -/
  ended : last.current? after = .ok none
  /-- No record is visited twice. -/
  distinct : (visits.map Prod.fst).Nodup
  /-- The records visited are those of the search that nothing is erased from. -/
  same : ∃ met final, rest tree records search = .ok (met, final) ∧
    ∀ key, key ∈ visits.map Prod.fst ↔ key ∈ met
  /-- The tree is what erasing the erased records by their boxes leaves. -/
  erased : ∃ boxed result, boxed.map Prod.fst = erasedOf visits ∧
    (∀ pair ∈ boxed, ∃ record, records.get? pair.1 = some record ∧
      tree.recordBox record = .ok pair.2) ∧
    Partition.Tree.eraseAll boxed tree.partition = .ok result ∧ result.Alike after.partition
  /-- No node but the root is left without records and children. -/
  tidy : ∀ key node, after.partition.nodes.get? key = some node → node.items = #[] →
    node.childCount = 0 → key = Partition.root
  /-- When all were erased, the search finds nothing any more. -/
  cleared : (∀ visit ∈ visits, visit.2 = true) → ∃ fresh final,
    overExtent after extent records = .ok fresh ∧ rest after records fresh = .ok ([], final)

section Outcome

variable {tree after : Tree α D} {records : Pool Bytes} {size : Nat}
  {shown : Key → Option Bytes} {gone : List Key}

/-- Records that are gone are gone from the places of the others. -/
theorem placement_without (same : tree.SameSpace after) :
    after.placement (without shown gone) = without (tree.placement shown) gone := by
  funext key
  unfold Tree.placement without
  rw [same.address?]
  split <;> rfl

/-- A tree that holds all but some records is what erasing these by their boxes leaves. -/
theorem erased_alike (holds : tree.Holds size shown) (left : after.Holds size (without shown gone))
    (same : tree.SameSpace after) (distinct : gone.Nodup)
    (known : ∀ key ∈ gone, ∃ record, shown key = some record) :
    ∃ boxed result, boxed.map Prod.fst = gone ∧
      (∀ pair ∈ boxed, ∃ record, shown pair.1 = some record ∧
        tree.recordBox record = .ok pair.2) ∧
      Partition.Tree.eraseAll boxed tree.partition = .ok result ∧ result.Alike after.partition := by
  have boxes (key : Key) : ∃ box : Partition.Box D, key ∈ gone → ∃ record,
      shown key = some record ∧ tree.recordBox record = .ok box ∧
        tree.placement shown key = some (box.address tree.border) := by
    by_cases member : key ∈ gone
    · obtain ⟨record, found⟩ := known key member
      obtain ⟨box, read, placed⟩ := holds.placement_eq found
      exact ⟨box, fun _ => ⟨record, found, read, placed⟩⟩
    · exact ⟨⟨Vector.replicate D 0, Vector.replicate D 0⟩, fun absurd => (member absurd).elim⟩
  choose boxOf spec using boxes
  have keys : (gone.map fun key => (key, boxOf key)).map Prod.fst = gone := by
    rw [List.map_map]
    exact List.map_id gone
  have listed {pair : Key × Partition.Box D} (member : pair ∈ gone.map fun key => (key, boxOf key)) :
      ∃ record, shown pair.1 = some record ∧ tree.recordBox record = .ok pair.2 ∧
        tree.placement shown pair.1 = some (pair.2.address tree.border) := by
    obtain ⟨key, inside, rfl⟩ := List.mem_map.mp member
    exact spec key inside
  obtain ⟨result, run, border, places⟩ := holds.places.eraseAll
    (gone.map fun key => (key, boxOf key))
    (fun pair member => by
      obtain ⟨record, -, read, -⟩ := listed member
      exact Tree.recordBox_valid holds.reads.positive read)
    (fun pair member => by
      obtain ⟨record, -, -, placed⟩ := listed member
      exact placed)
    (keys.symm ▸ distinct)
  refine ⟨_, result, keys, fun pair member => ?_, run, ?_⟩
  · obtain ⟨record, found, read, -⟩ := listed member
    exact ⟨record, found, read⟩
  · rw [keys, ← placement_without same] at places
    exact places.alike left.places (same.border.trans border.symm)

/-- After all records that a search meets were erased, a search over the same extent meets
nothing. -/
theorem finds_nothing (holds : tree.Holds size shown)
    (live : Backed size shown records)
    (left : after.Holds size (without shown gone)) (same : tree.SameSpace after) (extent : Extent D)
    (all : ∀ key, meets tree records (.extent extent) key = .ok true →
      (∃ address, (tree.box extent).AdmitsAll tree.border address ∧
        key ∈ itemsAt tree.partition.nodes address) → key ∈ gone) :
    ∃ fresh final, overExtent after extent records = .ok fresh ∧
      rest after records fresh = .ok ([], final) := by
  have alive : Backed size (without shown gone) records := by
    refine live.of_less fun key bytes known => ?_
    unfold without at known
    split at known
    · cases known
    · exact known
  obtain ⟨fresh, there, started, settled, query, -, todo⟩ := overExtent_spec left alive extent
  obtain ⟨met, final, run, -, sound, -⟩ :=
    rest_spec left.places (testable_of_holds left alive fresh.query) settled
  refine ⟨fresh, final, started, ?_⟩
  have none_met : met = [] := by
    refine List.eq_nil_iff_forall_not_mem.mpr fun key member => ?_
    obtain ⟨further, passes⟩ := sound key member
    rw [query] at passes
    obtain ⟨address, admitted, stored⟩ := (todo key passes).mp further
    rw [left.places.stored, placement_without same] at stored
    rw [meets_congr same rfl] at passes
    rw [same.box, same.border] at admitted
    unfold without at stored
    split at stored
    · cases stored
    · rename_i still
      exact still (all key passes ⟨address, admitted, (holds.places.stored address key).mpr stored⟩)
  rw [run, none_met]

/-- Erasing while searching loses and repeats nothing, whatever is chosen at each record. -/
theorem overExtent_sweep (holds : tree.Holds size records.get?) (extent : Extent D)
    (choices : List Bool) (enough : tree.partition.itemCount ≤ choices.length) :
    ∃ search visits after last, overExtent tree extent records = .ok search ∧
      sweep records choices tree search = .ok (visits, after, last) ∧
      Swept tree extent records search visits after last := by
  have live := backed_of_holds holds
  obtain ⟨search, place, started, settled, query, exact, todo⟩ := overExtent_spec holds live extent
  obtain ⟨visits, after, last, run, ended, same, left, distinct, visited⟩ :=
    sweep_spec choices holds live settled exact tree.partition.items
      (fun _ further => further.mem_items holds.places) enough
  obtain ⟨met, final, rested, -, sound, complete, -⟩ :=
    rest_spec holds.places (testable_of_holds holds live search.query) settled
  have part : (erasedOf visits).Sublist (visits.map Prod.fst) := List.filter_sublist.map _
  refine ⟨search, visits, after, last, started, run, same, ended, distinct, ⟨met, final, rested, ?_⟩,
    erased_alike holds left same (part.nodup distinct) ?_,
    fun key node found => left.places.sound.eq_root_of_empty found, ?_⟩
  · intro key
    rw [visited]
    exact ⟨fun ⟨further, passes⟩ => complete exact key further passes, sound key⟩
  · intro key member
    have passes := ((visited key).mp (part.subset member)).2
    unfold meets at passes
    cases found : records.get? key with
    | none =>
      rw [found] at passes
      cases passes
    | some record => exact ⟨record, rfl⟩
  · intro erases
    refine finds_nothing holds live left same extent fun key passes stored => ?_
    have whole : erasedOf visits = visits.map Prod.fst := by
      rw [erasedOf, List.filter_eq_self.mpr erases]
    rw [whole, visited, query]
    exact ⟨(todo key passes).mpr stored, passes⟩

end Outcome

/-- Two records on a line of eight cells are in step with their tree; the first one that the sweep
meets is erased and the other one stays. -/
theorem overExtent_sweep_two :
    ∃ (tree : Tree Exact 1) (records : Pool Bytes) (extent : Extent 1), records.size = 2 ∧
      tree.Holds 2 records.get? ∧
      ∃ search visits after last, overExtent tree extent records = .ok search ∧
        sweep records (true :: List.replicate tree.partition.itemCount false) tree search =
          .ok (visits, after, last) ∧
        Swept tree extent records search visits after last := by
  let axis : Axis := ⟨⟨0, 0, 1, .int⟩, ⟨.i8, 0⟩, ⟨1, 1, 1, .int⟩, ⟨.i8, 8⟩⟩
  have made : (Tree.create .i8 #v[axis] .standard : Except Fault (Tree Exact 1)).isOk = true := by
    decide +kernel
  have accepted (d : Fin 1) : (#v[axis].get d).Accepted Exact .i8 2 := by
    obtain rfl := Subsingleton.elim d 0
    exact ⟨⟨⟨by decide, by decide⟩, by decide, by decide⟩, ⟨rfl, rfl⟩, by decide +kernel⟩
  cases created : (Tree.create .i8 #v[axis] .standard : Except Fault (Tree Exact 1)) with
  | error fault =>
    rw [created] at made
    cases made
  | ok start =>
    have none_yet : (Pool.empty : Pool Bytes).get? = fun _ => none := funext Pool.get?_empty
    have formed := Pool.wellFormed_empty.insert ([1, 2] : Bytes)
    obtain ⟨-, ⟨one, journal⟩, -, held, -⟩ :=
      ((Tree.create_keeps created accepted).1.insert rfl (rfl : ([1, 2] : Bytes).length = 2)
        ⟨.error, #[]⟩).exists_eq
    rw [← none_yet, ← Pool.get?_insert_eq_update Pool.wellFormed_empty] at held
    obtain ⟨-, ⟨two, _⟩, -, both, -⟩ :=
      (held.insert (Pool.get?_insert_key formed [4, 6]) (rfl : ([4, 6] : Bytes).length = 2)
        journal).exists_eq
    rw [← Pool.get?_insert_eq_update formed] at both
    exact ⟨two, _, ⟨#v[⟨.i8, 0⟩], #v[⟨.i8, 7⟩]⟩, rfl, both.holds,
      overExtent_sweep both.holds _ _ (by simp)⟩

end World.Search

end SpatialIndex
