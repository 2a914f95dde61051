import SpatialIndex.Proofs.Partition.Walk
import SpatialIndex.Proofs.World.Upkeep
import SpatialIndex.World.Search

/-!
# What is left to a search

A search that stands at a record has some keys to do: those at its node from its position on, and
those of the nodes ahead. Seeking passes over keys that fail the test, so it loses no record that
passes; what is to do only shrinks, and a record that is left behind is not met again.
-/
open SpatialIndex.Action (Ensures)
open SpatialIndex.Partition (Address Walk itemsAt)

namespace SpatialIndex.World.Search

open Record (Bytes)

variable {α : Type} {D : Nat} {tree : Tree α D} {search : Search α D}
  {place : Option (Address D)}

/-- What a search looks at: a key of its node, or nothing when it is over. -/
inductive Faces (tree : Tree α D) (search : Search α D) :
    Option (Address D) → Option Key → Prop
  /-- A search looks at the key at its position. -/
  | key {address : Address D} {key : Key} : search.walk.At tree.partition (some address) →
    (itemsAt tree.partition.nodes address)[search.position]? = some key →
    Faces tree search (some address) (some key)
  /-- A search that is over looks at nothing. -/
  | ended : search.walk.At tree.partition none → Faces tree search none none

/-- A search stands where it looks. -/
theorem Faces.stands {current : Option Key} (faces : Faces tree search place current) :
    search.walk.At tree.partition place := by
  cases faces with
  | key stands _ => exact stands
  | ended stands => exact stands

/-- The record that a search looks at is in the tree. -/
theorem Faces.held {key : Key} (faces : Faces tree search place (some key)) :
    ∃ address, place = some address ∧ key ∈ itemsAt tree.partition.nodes address := by
  cases faces with
  | key stands found => exact ⟨_, rfl, List.mem_of_getElem? found⟩

/-- The current record is what the search faces. -/
theorem Faces.current? {current : Option Key} (faces : Faces tree search place current)
    (linked : Partition.Linked tree.partition.border tree.partition.nodes) :
    search.current? tree = .ok current := by
  unfold Search.current?
  cases faces with
  | key stands found =>
    obtain ⟨items, run, same⟩ := stands.items? linked
    rw [run]
    simp only [bind, Except.bind, pure, Except.pure]
    rw [← Array.getElem?_toList, same, found]
  | ended stands =>
    rw [stands.items?_over]
    rfl

variable [Arithmetic α] {records : Pool Bytes}

/-- The keys that a search at a place has still to look at. -/
def Todo (tree : Tree α D) (search : Search α D) (place : Option (Address D)) (key : Key) : Prop :=
  (∃ address, place = some address ∧
      key ∈ (itemsAt tree.partition.nodes address).drop search.position) ∨
    ∃ address, search.walk.Ahead tree.partition place address ∧
      key ∈ itemsAt tree.partition.nodes address

/-- Whether every key of the tree can be tested. -/
def Testable (tree : Tree α D) (records : Pool Bytes) (query : Query α D) : Prop :=
  ∀ address, ∀ key ∈ itemsAt tree.partition.nodes address,
    ∃ passes, meets tree records query key = .ok passes

/-- A search that stands at a record that passes the test, or is over. -/
structure Settled (tree : Tree α D) (records : Pool Bytes) (search : Search α D)
    (place : Option (Address D)) : Prop where
  /-- The walk of the search stands there. -/
  stands : search.walk.At tree.partition place
  /-- The current record passes the test. -/
  current : ∀ address, place = some address →
    ∃ key, (itemsAt tree.partition.nodes address)[search.position]? = some key ∧
      meets tree records search.query key = .ok true

/-- What a search becomes when it seeks: it has nothing new to do, and when its walk is exact it
has lost nothing that passes the test. -/
structure Seeks (tree : Tree α D) (records : Pool Bytes) (search : Search α D)
    (place : Option (Address D)) (next : Search α D) (there : Option (Address D)) : Prop where
  /-- The search stands at a record again, or it is over. -/
  settled : Settled tree records next there
  /-- The query stays. -/
  query : next.query = search.query
  /-- There is nothing new to do. -/
  todo : ∀ key, Todo tree next there key → Todo tree search place key
  /-- Nothing that passes the test is lost. -/
  exact : search.walk.Exact → next.walk.Exact ∧
    ∀ key, Todo tree search place key → meets tree records search.query key = .ok true →
      Todo tree next there key

/-- What a search becomes when it leaves its current record `key` behind, in the tree or not. -/
structure Leaves (tree : Tree α D) (records : Pool Bytes) (search : Search α D)
    (place : Option (Address D)) (key : Key) (changed : Tree α D) (next : Search α D)
    (there : Option (Address D)) : Prop where
  /-- The search stands at a record again, or it is over. -/
  settled : Settled changed records next there
  /-- The query stays. -/
  query : next.query = search.query
  /-- There is nothing new to do, and the record left behind is not to do any more. -/
  todo : ∀ other, Todo changed next there other → Todo tree search place other ∧ other ≠ key
  /-- Nothing else that passes the test is lost. -/
  exact : search.walk.Exact → next.walk.Exact ∧
    ∀ other, Todo tree search place other → other ≠ key →
      meets tree records search.query other = .ok true → Todo changed next there other

/-- A list of what is to do gets shorter by the record left behind. -/
theorem Leaves.erase {key : Key} {changed : Tree α D} {next : Search α D}
    {there : Option (Address D)} {keys : List Key}
    (leaves : Leaves tree records search place key changed next there)
    (current : Todo tree search place key) (all : ∀ other, Todo tree search place other →
      other ∈ keys) :
    (keys.erase key).length + 1 = keys.length ∧
      ∀ other, Todo changed next there other → other ∈ keys.erase key := by
  have member := all key current
  refine ⟨?_, fun other further => ?_⟩
  · rw [List.length_erase_of_mem member]
    exact Nat.sub_add_cancel (List.length_pos_of_mem member)
  · obtain ⟨before, different⟩ := leaves.todo other further
    exact (List.mem_erase_of_ne different).mpr (all other before)

/-- A settled search looks at a record that passes the test. -/
theorem Settled.faces (settled : Settled tree records search place) :
    ∃ current, Faces tree search place current ∧
      ∀ key, current = some key → meets tree records search.query key = .ok true := by
  cases place with
  | none => exact ⟨none, .ended settled.stands, fun _ absurd => by cases absurd⟩
  | some address =>
    obtain ⟨key, found, passed⟩ := settled.current address rfl
    exact ⟨some key, .key settled.stands found, fun _ same => Option.some.inj same ▸ passed⟩

/-- The record that a settled search looks at passes the test. -/
theorem Settled.passes {key : Key} (settled : Settled tree records search place)
    (faces : Faces tree search place (some key)) :
    meets tree records search.query key = .ok true := by
  cases faces with
  | key stands found =>
    obtain ⟨other, held, passed⟩ := settled.current _ rfl
    rw [found, Option.some.injEq] at held
    exact held ▸ passed

/-- The record that a search looks at is to do. -/
theorem Faces.todo {key : Key} (faces : Faces tree search place (some key)) :
    Todo tree search place key := by
  cases faces with
  | key stands found =>
    obtain ⟨bound, rfl⟩ := List.getElem?_eq_some_iff.mp found
    refine .inl ⟨_, rfl, ?_⟩
    rw [List.drop_eq_getElem_cons bound]
    exact List.mem_cons_self

/-- A search that is over has nothing to do. -/
theorem Faces.not_todo {key : Key} (faces : Faces tree search place none) :
    ¬Todo tree search place key := by
  cases faces with
  | ended stands =>
    rintro (⟨address, absurd, -⟩ | ⟨address, absurd, -⟩)
    · cases absurd
    · exact absurd.elim

/-- At the start of a node, all keys of the nodes left are to do. -/
theorem todo_at_start {walk : Walk α D} {query : Query α D} {key : Key} :
    Todo tree ⟨walk, query, 0⟩ place key ↔
      ∃ address, walk.Left tree.partition place address ∧
        key ∈ itemsAt tree.partition.nodes address := by
  constructor
  · rintro (⟨address, here, member⟩ | ⟨address, ahead, member⟩)
    · exact ⟨address, .inl here, member⟩
    · exact ⟨address, .inr ahead, member⟩
  · rintro ⟨address, here | ahead, member⟩
    · exact .inl ⟨address, here, member⟩
    · exact .inr ⟨address, ahead, member⟩

/-! ## Scanning a node -/

/-- A scan stops at the first key that passes the test, if there is one. -/
theorem scan_spec {test : Key → Except Fault Bool} {keys : List Key}
    (testable : ∀ key ∈ keys, ∃ passes, test key = .ok passes) (position : Nat) :
    (∃ skipped key, keys[skipped]? = some key ∧ test key = .ok true ∧
        scan test keys position = (position + skipped, .ok true) ∧
        ∀ other ∈ keys.take skipped, test other = .ok false) ∨
      (scan test keys position = (position + keys.length, .ok false) ∧
        ∀ other ∈ keys, test other = .ok false) := by
  induction keys generalizing position with
  | nil => exact .inr ⟨rfl, by simp⟩
  | cons key rest ih =>
    obtain ⟨passes, tested⟩ := testable key List.mem_cons_self
    cases passes with
    | true => exact .inl ⟨0, key, rfl, tested, by rw [scan, tested]; rfl, by simp⟩
    | false =>
      have run : scan test (key :: rest) position = scan test rest (position + 1) := by
        rw [scan, tested]
      rcases ih (fun other member => testable other (List.mem_cons_of_mem _ member))
        (position + 1) with ⟨skipped, found, at_skipped, passed, scanned, before⟩ | ⟨scanned, all⟩
      · refine .inl ⟨skipped + 1, found, at_skipped, passed, ?_, ?_⟩
        · rw [run, scanned, Nat.add_assoc, Nat.add_comm 1]
        · intro other member
          rcases List.mem_cons.mp member with rfl | later
          · exact tested
          · exact before other later
      · refine .inr ⟨?_, ?_⟩
        · rw [run, scanned, List.length_cons, Nat.add_assoc, Nat.add_comm 1]
        · intro other member
          rcases List.mem_cons.mp member with rfl | later
          · exact tested
          · exact all other later

/-! ## Seeking -/

/-- A search that is over stays so. -/
theorem ensures_seekWithin_over {fuel : Nat} (stands : search.walk.At tree.partition none)
    {done : Unit → Search α D → Prop} {failed : Fault → Search α D → Prop} :
    Ensures (seekWithin tree records (fuel + 1)) search done failed ↔ done () search := by
  simp only [seekWithin, Action.ensures_bind, Action.ensures_get, stands.items?_over,
    Action.ensures_ofExcept_ok, Action.ensures_pure]

/-- At a node, a search stops at the first key from its position on that passes the test, and goes
on to the next node when none does. -/
theorem ensures_seekWithin_at {address : Address D}
    (stands : search.walk.At tree.partition (some address))
    (linked : Partition.Linked tree.partition.border tree.partition.nodes)
    (testable : Testable tree records search.query) (fuel : Nat) :
    (∃ position key, (itemsAt tree.partition.nodes address)[position]? = some key ∧
      meets tree records search.query key = .ok true ∧ search.position ≤ position ∧
      (∀ other ∈ (itemsAt tree.partition.nodes address).drop search.position,
        meets tree records search.query other = .ok true →
          other ∈ (itemsAt tree.partition.nodes address).drop position) ∧
      ∀ done failed, Ensures (seekWithin tree records (fuel + 1)) search done failed ↔
        done () { search with position }) ∨
    ((∀ key ∈ (itemsAt tree.partition.nodes address).drop search.position,
        meets tree records search.query key = .ok false) ∧
      ∀ {walk}, search.walk.advance tree.partition = .ok walk →
        ∀ done failed, Ensures (seekWithin tree records (fuel + 1)) search done failed ↔
          Ensures (seekWithin tree records fuel) { search with walk, position := 0 } done
            failed) := by
  obtain ⟨items, run, same⟩ := stands.items? linked
  have tests : ∀ key ∈ (itemsAt tree.partition.nodes address).drop search.position,
      ∃ passes, meets tree records search.query key = .ok passes :=
    fun key member => testable address key (List.mem_of_mem_drop member)
  rcases scan_spec tests search.position with
    ⟨skipped, key, found, passed, scanned, before⟩ | ⟨scanned, all⟩
  · rw [List.getElem?_drop] at found
    refine .inl ⟨search.position + skipped, key, found, passed, Nat.le_add_right _ _, ?_, ?_⟩
    · intro other member passes
      rw [← List.take_append_drop skipped
        ((itemsAt tree.partition.nodes address).drop search.position), List.mem_append] at member
      rcases member with earlier | later
      · rw [before other earlier] at passes
        cases passes
      · rwa [List.drop_drop] at later
    · intro done failed
      simp only [seekWithin, Action.ensures_bind, Action.ensures_get, run, same, scanned,
        Action.ensures_ofExcept_ok, Action.ensures_set, if_true, Action.ensures_pure]
  · refine .inr ⟨all, fun advanced done failed => ?_⟩
    simp only [seekWithin, Action.ensures_bind, Action.ensures_get, run, same, scanned, advanced,
      Action.ensures_ofExcept_ok, Action.ensures_set, Bool.false_eq_true, if_false]

/-- Seeking never fails, and ends at a record when the fuel exceeds the nodes left. -/
theorem seekWithin_spec (search : Search α D)
    (linked : Partition.Linked tree.partition.border tree.partition.nodes)
    (testable : Testable tree records search.query) (fuel : Nat)
    (stands : search.walk.At tree.partition place) (nodes : List (Address D))
    (left : ∀ address, search.walk.Left tree.partition place address → address ∈ nodes)
    (room : nodes.length < fuel) :
    Ensures (seekWithin tree records fuel) search
      (fun _ next => ∃ there, Seeks tree records search place next there) fun _ _ => False := by
  induction fuel generalizing search place nodes with
  | zero => omega
  | succ fuel ih =>
    cases place with
    | none =>
      rw [ensures_seekWithin_over stands]
      exact ⟨none, ⟨stands, fun _ absurd => by cases absurd⟩, rfl, fun _ => id,
        fun exact => ⟨exact, fun _ todo _ => todo⟩⟩
    | some address =>
      rcases ensures_seekWithin_at stands linked testable fuel with
        ⟨position, key, found, passed, further, keeps, ends⟩ | ⟨all, goesOn⟩
      · rw [ends]
        refine ⟨some address, ⟨stands, ?_⟩, rfl, ?_, ?_⟩
        · intro other here
          obtain rfl := Option.some.inj here
          exact ⟨key, found, passed⟩
        · rintro other (⟨there, here, member⟩ | ahead)
          · exact .inl ⟨there, here, List.drop_subset_drop_left _ further member⟩
          · exact .inr ahead
        · refine fun exact => ⟨exact, ?_⟩
          rintro other (⟨there, here, member⟩ | ahead) passes
          · obtain rfl := Option.some.inj here
            exact .inl ⟨address, rfl, keeps other member passes⟩
          · exact .inr ahead
      · obtain ⟨walk, there, advanced, goes⟩ := stands.advance linked
        rw [goesOn advanced]
        have member : address ∈ nodes := left address (.inl rfl)
        have fewer : ∀ other, walk.Left tree.partition there other →
            other ∈ nodes.erase address := by
          intro other further
          have ahead := goes.ahead other further
          refine (List.mem_erase_of_ne ?_).mpr (left other (.inr ahead))
          rintro rfl
          exact stands.not_ahead ahead
        have shorter := List.length_erase_of_mem member
        have positive := List.length_pos_of_mem member
        refine (ih { search with walk, position := 0 } testable goes.stands
          (nodes.erase address) fewer (by omega)).ends ?_
        rintro - next ⟨final, seeks⟩
        refine ⟨final, seeks.settled, seeks.query, ?_, ?_⟩
        · intro key todo
          obtain ⟨other, further, member⟩ := todo_at_start.mp (seeks.todo key todo)
          exact .inr ⟨other, goes.ahead other further, member⟩
        · intro exact
          obtain ⟨stays, leaves⟩ := goes.exact exact
          obtain ⟨ends, keeps⟩ := seeks.exact stays
          refine ⟨ends, ?_⟩
          rintro key (⟨other, here, member⟩ | ⟨other, ahead, member⟩) passes
          · obtain rfl := Option.some.inj here
            rw [all key member] at passes
            cases passes
          · exact keeps key (todo_at_start.mpr ⟨other, leaves other ahead, member⟩) passes

/-- Seeking never fails and never stops for want of nodes. -/
theorem seek_spec (search : Search α D)
    (linked : Partition.Linked tree.partition.border tree.partition.nodes)
    (testable : Testable tree records search.query)
    (stands : search.walk.At tree.partition place) :
    Ensures (seek tree records) search
      (fun _ next => ∃ there, Seeks tree records search place next there) fun _ _ => False := by
  obtain ⟨nodes, count, all⟩ := linked.exists_addresses
  refine seekWithin_spec search linked testable _ stands nodes ?_
    (Nat.lt_succ_of_le (Nat.le_of_eq count))
  intro address left
  obtain ⟨key, located⟩ := stands.located left
  exact all address key located

/-! ## Going on -/

section Placed

variable {whereabouts : Key → Option (Address D)} {address : Address D} {key : Key}

/-- What is to do is the current record and what is to do behind it. -/
theorem todo_iff (search : Search α D)
    (found : (itemsAt tree.partition.nodes address)[search.position]? = some key)
    (other : Key) :
    Todo tree search (some address) other ↔
      other = key ∨
        Todo tree { search with position := search.position + 1 } (some address) other := by
  obtain ⟨bound, rfl⟩ := List.getElem?_eq_some_iff.mp found
  have split := List.drop_eq_getElem_cons bound
  constructor
  · rintro (⟨there, here, member⟩ | ahead)
    · obtain rfl := Option.some.inj here
      rw [split, List.mem_cons] at member
      exact member.imp_right fun later => .inl ⟨address, rfl, later⟩
    · exact .inr (.inr ahead)
  · rintro (rfl | ⟨there, here, member⟩ | ahead)
    · exact .inl ⟨address, rfl, by rw [split]; exact List.mem_cons_self⟩
    · obtain rfl := Option.some.inj here
      exact .inl ⟨address, rfl, by rw [split]; exact List.mem_cons_of_mem _ member⟩
    · exact .inr ahead

/-- The current record is not met again. -/
theorem not_todo_current (places : tree.partition.Places whereabouts)
    (stands : search.walk.At tree.partition (some address))
    (found : (itemsAt tree.partition.nodes address)[search.position]? = some key) :
    ¬Todo tree { search with position := search.position + 1 } (some address) key := by
  obtain ⟨bound, rfl⟩ := List.getElem?_eq_some_iff.mp found
  rintro (⟨there, here, member⟩ | ⟨other, ahead, member⟩)
  · obtain rfl := Option.some.inj here
    have once := places.once address
    rw [← List.take_append_drop search.position (itemsAt tree.partition.nodes address),
      List.drop_eq_getElem_cons bound, List.nodup_append, List.nodup_cons] at once
    exact once.2.1.1 member
  · have here := (places.stored address _).mp (List.getElem_mem bound)
    rw [places.stored, here, Option.some.injEq] at member
    exact stands.not_ahead (member ▸ ahead)

/-- Going on never fails and leaves the current record behind. -/
theorem Faces.advance (faces : Faces tree search place (some key))
    (places : tree.partition.Places whereabouts) (testable : Testable tree records search.query) :
    ∃ next there, search.advance tree records = .ok next ∧
      Leaves tree records search place key tree next there := by
  cases faces with
  | key stands found =>
    have later := todo_iff search found
    have once := not_todo_current places stands found
    obtain ⟨items, run, -⟩ := stands.items? places.sound.linked
    obtain ⟨_, next, sought, there, seeks⟩ :=
      (seek_spec { search with position := search.position + 1 } places.sound.linked testable
        stands).exists_eq
    refine ⟨next, there, ?_, seeks.settled, seeks.query, ?_, ?_⟩
    · unfold Search.advance
      rw [run]
      simp only [bind, Except.bind, Search.run, sought]
    · intro other todo
      have behind := seeks.todo other todo
      refine ⟨(later other).mpr (.inr behind), ?_⟩
      rintro rfl
      exact once behind
    · intro exact
      obtain ⟨stays, keeps⟩ := seeks.exact exact
      refine ⟨stays, fun other todo different passes => keeps other ?_ passes⟩
      exact ((later other).mp todo).resolve_left different

/-- The current record and the later ones are met once each; they are among what is to do and
pass the test, and an exact walk meets all of these. -/
theorem restWithin_spec (places : tree.partition.Places whereabouts) (fuel : Nat)
    (testable : Testable tree records search.query) (settled : Settled tree records search place)
    (keys : List Key) (all : ∀ key, Todo tree search place key → key ∈ keys)
    (room : keys.length < fuel) :
    ∃ met last, restWithin tree records fuel search = .ok (met, last) ∧ met.Nodup ∧
      (∀ key ∈ met, Todo tree search place key ∧
        meets tree records search.query key = .ok true) ∧
      (search.walk.Exact → ∀ key, Todo tree search place key →
        meets tree records search.query key = .ok true → key ∈ met) ∧
      last.walk.At tree.partition none := by
  induction fuel generalizing search place keys with
  | zero => omega
  | succ fuel ih =>
    obtain ⟨current, faces, passed⟩ := settled.faces
    have now := faces.current? places.sound.linked
    cases current with
    | none =>
      refine ⟨[], search, ?_, List.nodup_nil, by simp, ?_, ?_⟩
      · rw [restWithin, now]
        rfl
      · exact fun _ key todo => absurd todo faces.not_todo
      · cases faces with
        | ended stands => exact stands
    | some key =>
      obtain ⟨next, there, advanced, leaves⟩ := faces.advance places testable
      have todo := faces.todo
      obtain ⟨shorter, fewer⟩ := leaves.erase todo all
      have sameQuery : next.query = search.query := leaves.query
      obtain ⟨met, last, run, distinct, sound, complete, ends⟩ :=
        ih (sameQuery ▸ testable) leaves.settled (keys.erase key) fewer (by omega)
      refine ⟨key :: met, last, ?_, ?_, ?_, ?_, ends⟩
      · rw [restWithin, now]
        simp only [bind, Except.bind, advanced, run]
        rfl
      · rw [List.nodup_cons]
        exact ⟨fun again => (leaves.todo key (sound key again).1).2 rfl, distinct⟩
      · intro other listed
        rcases List.mem_cons.mp listed with rfl | further
        · exact ⟨todo, passed _ rfl⟩
        · obtain ⟨ahead, passes⟩ := sound other further
          rw [sameQuery] at passes
          exact ⟨(leaves.todo other ahead).1, passes⟩
      · intro exact other before passes
        obtain ⟨stays, keeps⟩ := leaves.exact exact
        by_cases same : other = key
        · exact same ▸ List.mem_cons_self
        · refine List.mem_cons_of_mem _ (complete stays other (keeps other before same passes) ?_)
          rw [sameQuery]
          exact passes

/-- What is to do is in the tree. -/
theorem Todo.mem_items {other : Key} (todo : Todo tree search place other)
    (places : tree.partition.Places whereabouts) : other ∈ tree.partition.items := by
  have all {address : Partition.Address D} (member : other ∈ itemsAt tree.partition.nodes address) :
      other ∈ tree.partition.items :=
    (places.mem_items other).mpr ⟨address, (places.stored address other).mp member⟩
  rcases todo with ⟨address, -, member⟩ | ⟨address, -, member⟩
  · exact all (List.mem_of_mem_drop member)
  · exact all member

/-- A search yields the rest of its records, whatever their count. -/
theorem rest_spec (places : tree.partition.Places whereabouts)
    (testable : Testable tree records search.query) (settled : Settled tree records search place) :
    ∃ met last, rest tree records search = .ok (met, last) ∧ met.Nodup ∧
      (∀ key ∈ met, Todo tree search place key ∧
        meets tree records search.query key = .ok true) ∧
      (search.walk.Exact → ∀ key, Todo tree search place key →
        meets tree records search.query key = .ok true → key ∈ met) ∧
      last.walk.At tree.partition none := by
  exact restWithin_spec places _ testable settled tree.partition.items
    (fun _ todo => todo.mem_items places) (Nat.lt_succ_self _)

end Placed

/-! ## The records of what a tree shows -/

section Backed

variable {size : Nat} {shown : Key → Option Bytes}

/-- Every key that is shown has a record, of the size of all. -/
def Backed (size : Nat) (shown : Key → Option Bytes) (records : Pool Bytes) : Prop :=
  ∀ key bytes, shown key = some bytes →
    ∃ record, records.get? key = some record ∧ record.length = size

/-- What a tree holds of the records themselves has a record. -/
theorem backed_of_holds (holds : tree.Holds size records.get?) : Backed size records.get? records :=
  fun _ bytes known => ⟨bytes, known, holds.sized known⟩

/-- Showing less keeps a record behind all that is shown. -/
theorem Backed.of_less {less : Key → Option Bytes} (live : Backed size shown records)
    (part : ∀ key bytes, less key = some bytes → shown key = some bytes) :
    Backed size less records :=
  fun key bytes known => live key bytes (part key bytes known)

/-- A key that is no longer shown leaves a record behind all others. -/
theorem Backed.update_none (live : Backed size shown records) (gone : Key) :
    Backed size (Function.update shown gone none) records := by
  refine live.of_less fun key bytes known => ?_
  by_cases same : key = gone
  · rw [same, Function.update_self] at known
    cases known
  · rwa [Function.update_of_ne same] at known

/-- Every key can be tested when every key of the tree has a record. -/
theorem testable_of_holds (holds : tree.Holds size shown) (live : Backed size shown records)
    (query : Query α D) :
    Testable tree records query := by
  intro address key member
  rw [holds.places.stored] at member
  unfold Tree.placement at member
  obtain ⟨bytes, known, -⟩ := Option.bind_eq_some_iff.mp member
  obtain ⟨record, found, sized⟩ := live key bytes known
  obtain ⟨extent, read, -⟩ := holds.reads.extent sized
  refine ⟨query.meets extent, ?_⟩
  simp only [meets, found, read, bind, Except.bind, pure, Except.pure]

end Backed

/-! ## Erasing -/

/-- Removing an item keeps the items behind it to do, in some order. -/
theorem drop_of_removes {partition changed : Partition.Tree Key D} {address : Address D}
    {position : Nat} {key : Key} (removes : Walk.Removes partition changed address position key) :
    (key :: (itemsAt changed.nodes address).drop position).Perm
      ((itemsAt partition.nodes address).drop position) := by
  have former := List.take_append_drop position (itemsAt partition.nodes address)
  have present := List.take_append_drop position (itemsAt changed.nodes address)
  rw [removes.before] at present
  have whole : (key :: ((itemsAt partition.nodes address).take position ++
      (itemsAt changed.nodes address).drop position)).Perm
        ((itemsAt partition.nodes address).take position ++
          (itemsAt partition.nodes address).drop position) := by
    rw [present, former]
    exact removes.here
  exact (List.perm_append_left_iff _).mp (List.perm_middle.trans whole)

/-- After the current key was removed, nothing new is to do; an exact walk has still to do all that
was but that key. -/
theorem todo_of_removes {address : Address D} {partition : Partition.Tree Key D}
    {walk : Walk α D} {there : Option (Address D)} {key : Key} {released : Bool}
    (stands : search.walk.At tree.partition (some address))
    (removes : Walk.Removes tree.partition partition address search.position key)
    (stays : released = false →
      Walk.Stays tree.partition partition search.walk address walk there)
    (goes : released = true → itemsAt partition.nodes address = [] ∧
      Walk.Goes tree.partition partition search.walk (some address) walk there) :
    let next := { search with walk, position := if released then 0 else search.position }
    (∀ other, Todo { tree with partition } next there other →
      Todo tree search (some address) other) ∧
    (search.walk.Exact → walk.Exact ∧ ∀ other, Todo tree search (some address) other →
      other ≠ key → Todo { tree with partition } next there other) := by
  have elsewhere {other : Address D}
      (ahead : search.walk.Ahead tree.partition (some address) other) :
      itemsAt partition.nodes other = itemsAt tree.partition.nodes other := by
    apply removes.elsewhere
    rintro rfl
    exact stands.not_ahead ahead
  have behind := drop_of_removes removes
  cases released with
  | false =>
    obtain ⟨-, rfl, stillExact, shares⟩ := stays rfl
    refine ⟨?_, fun exact => ⟨stillExact exact, ?_⟩⟩
    · rintro other (⟨_, here, member⟩ | ⟨place, ahead, member⟩)
      · obtain rfl := Option.some.inj here
        exact .inl ⟨address, rfl, behind.mem_iff.mp (List.mem_cons_of_mem _ member)⟩
      · have before := (shares place).mp ahead
        exact .inr ⟨place, before, elsewhere before ▸ member⟩
    · rintro other (⟨_, here, member⟩ | ⟨place, ahead, member⟩) different
      · obtain rfl := Option.some.inj here
        refine .inl ⟨address, rfl, ?_⟩
        exact (List.mem_cons.mp (behind.mem_iff.mpr member)).resolve_left different
      · exact .inr ⟨place, (shares place).mpr ahead, (elsewhere ahead).symm ▸ member⟩
  | true =>
    obtain ⟨empty, further⟩ := goes rfl
    refine ⟨?_, fun exact => ?_⟩
    · intro other todo
      obtain ⟨place, left, member⟩ := todo_at_start.mp todo
      have before := further.ahead place left
      exact .inr ⟨place, before, elsewhere before ▸ member⟩
    · obtain ⟨stillExact, leaves⟩ := further.exact exact
      refine ⟨stillExact, ?_⟩
      rintro other (⟨_, here, member⟩ | ⟨place, ahead, member⟩) different
      · obtain rfl := Option.some.inj here
        rw [empty, List.drop_nil] at behind
        exact absurd (List.mem_singleton.mp (behind.mem_iff.mpr member)) different
      · exact todo_at_start.mpr ⟨place, leaves place ahead, (elsewhere ahead).symm ▸ member⟩

/-- What is to do is held by the tree. -/
theorem Todo.shown {size : Nat} {shown : Key → Option Bytes} {key : Key}
    (todo : Todo tree search place key) (holds : tree.Holds size shown) : shown key ≠ none := by
  intro absent
  have nowhere (address : Address D) : key ∉ itemsAt tree.partition.nodes address := by
    intro member
    rw [holds.places.stored, Tree.placement, absent] at member
    cases member
  rcases todo with ⟨address, -, member⟩ | ⟨address, -, member⟩
  · exact nowhere address (List.mem_of_mem_drop member)
  · exact nowhere address member

/-- Erasing the current record takes it out of the tree and goes on to the next record. -/
theorem Faces.eraseCurrent {size : Nat} {shown : Key → Option Bytes} {key : Key}
    (faces : Faces tree search place (some key)) (holds : tree.Holds size shown)
    (live : Backed size shown records) :
    Ensures (Search.eraseCurrent records) (tree, search)
      (fun _ after => after.1.Holds size (Function.update shown key none) ∧
        tree.SameSpace after.1 ∧
        ∃ there, Leaves tree records search place key after.1 after.2 there)
      fun _ _ => False := by
  have places := holds.places
  have now := faces.current? places.sound.linked
  cases faces with
  | @key address _ stands found =>
  obtain ⟨partition, walk, released, there, run, removes, stays, goes⟩ :=
    stands.removeItem places.sound found
  simp only [Search.eraseCurrent, Action.ensures_bind, Action.ensures_get, now,
    Action.ensures_ofExcept_ok, run, Action.ensures_set,
    Action.ensures_onPart]
  let changed : Tree α D := { tree with partition }
  have same : tree.SameSpace changed := ⟨partition, removes.border, rfl⟩
  have kept : changed.Holds size (Function.update shown key none) := by
    apply holds.withPartition holds.sized_erase removes.border
    rw [Tree.placement_update_none]
    exact places.shrink removes.sound removes.here removes.elsewhere
  have testable : Testable changed records search.query :=
    testable_of_holds kept (live.update_none key) _
  have standsAgain : walk.At changed.partition there := by
    cases released with
    | false => exact (stays rfl).stands
    | true => exact (goes rfl).2.stands
  obtain ⟨former, remain⟩ := todo_of_removes stands removes stays goes
  refine (seek_spec { search with walk, position := if released then 0 else search.position }
    kept.places.sound.linked testable standsAgain).ends ?_
  rintro - next ⟨final, seeks⟩
  refine ⟨kept, same, final, seeks.settled, seeks.query, ?_, ?_⟩
  · intro other todo
    have further := seeks.todo other todo
    refine ⟨former other further, ?_⟩
    rintro rfl
    exact further.shown kept (Function.update_self _ _ _)
  · intro exact
    obtain ⟨stillExact, rest⟩ := remain exact
    obtain ⟨ends, keepsAll⟩ := seeks.exact stillExact
    exact ⟨ends, fun other todo different => keepsAll other (rest other todo different)⟩

/-! ## Starting -/

section Start

variable {size : Nat} {shown : Key → Option Bytes}

/-- A search that is run from the start of its walk settles. -/
theorem run_seek (search : Search α D) (holds : tree.Holds size shown)
    (live : Backed size shown records)
    (stands : search.walk.At tree.partition place) :
    ∃ next there, run (seek tree records) search = .ok next ∧
      Seeks tree records search place next there := by
  obtain ⟨_, next, sought, there, seeks⟩ := (seek_spec search holds.places.sound.linked
    (testable_of_holds holds live search.query) stands).exists_eq
  exact ⟨next, there, by rw [run, sought], seeks⟩

/-- A search over bounds settles, and of the records that pass the test it has those to do that
lie where the box of the bounds leads. -/
theorem overExtent_spec (holds : tree.Holds size shown)
    (live : Backed size shown records) (extent : Extent D) :
    ∃ search there, overExtent tree extent records = .ok search ∧
      Settled tree records search there ∧ search.query = .extent extent ∧ search.walk.Exact ∧
      ∀ key, meets tree records (.extent extent) key = .ok true →
        (Todo tree search there key ↔ ∃ address, (tree.box extent).AdmitsAll tree.border address ∧
          key ∈ itemsAt tree.partition.nodes address) := by
  obtain ⟨walk, started, stands, left⟩ := Walk.start_box α holds.places.sound
    (Tree.box_valid holds.reads.positive extent)
  obtain ⟨search, there, ran, seeks⟩ := run_seek ⟨.box walk, .extent extent, 0⟩ holds
    live stands
  obtain ⟨exact, complete⟩ := seeks.exact trivial
  refine ⟨search, there, ?_, seeks.settled, seeks.query, exact, fun key passes => ⟨?_, ?_⟩⟩
  · unfold overExtent
    rw [started]
    exact ran
  · intro todo
    obtain ⟨address, further, member⟩ := todo_at_start.mp (seeks.todo key todo)
    exact ⟨address, ((left address).mp further).2, member⟩
  · rintro ⟨address, admitted, member⟩
    refine complete key (todo_at_start.mpr ⟨address, (left address).mpr ⟨?_, admitted⟩, member⟩)
      passes
    exact Partition.located_of_mem_itemsAt member

/-- Whether the record of a key meets a query depends on its bytes and the space of the tree. -/
theorem meets_congr {changed : Tree α D} (same : tree.SameSpace changed) {others : Pool Bytes}
    {key : Key} (kept : others.get? key = records.get? key) (query : Query α D) :
    meets changed others query key = meets tree records query key := by
  obtain ⟨partition, -, rfl⟩ := same
  unfold meets
  rw [kept]
  rfl

/-- The components of a direction, those within the tolerance of the tree set to zero. -/
def directionOf (tree : Tree α D) (direction : Vector Coordinate D) : Vector α D :=
  direction.map fun value =>
    let component : α := Arithmetic.ofCoordinate value
    if Arithmetic.within component tree.epsilon then Arithmetic.ofNat 0 else component

/-- The beam of a ray query. -/
def beamOf (tree : Tree α D) (origin direction : Vector Coordinate D) (distance : α) : Beam α D :=
  ⟨origin.map Arithmetic.ofCoordinate, directionOf tree direction, distance * distance⟩

/-- The ray of a ray query in cells. -/
def rayOf (tree : Tree α D) (origin direction : Vector Coordinate D) : Partition.Ray α D :=
  let origin : Vector α D := origin.map Arithmetic.ofCoordinate
  { origin := Vector.ofFn fun d =>
      (origin.get d - Arithmetic.ofCoordinate (tree.axes.get d).low) / tree.factors.get d
    direction := Vector.ofFn fun d => (directionOf tree direction).get d / tree.factors.get d }

/-- A search along a ray seeks from the start of its walk. -/
theorem alongRay_eq (tree : Tree α D) (origin direction : Vector Coordinate D) (distance : α)
    (records : Pool Bytes) :
    alongRay tree origin direction distance records =
      run (seek tree records)
        ⟨.ray (Partition.RayWalk.start tree.partition (rayOf tree origin direction)
          ⟨distance, tree.factors⟩), .beam (beamOf tree origin direction distance), 0⟩ := rfl

/-- A search along a ray settles. -/
theorem alongRay_spec (holds : tree.Holds size shown)
    (live : Backed size shown records)
    (origin direction : Vector Coordinate D) (distance : α) :
    ∃ search there, alongRay tree origin direction distance records = .ok search ∧
      Settled tree records search there ∧
      search.query = .beam (beamOf tree origin direction distance) := by
  obtain ⟨place, stands, -⟩ := Walk.start_ray tree.partition (rayOf tree origin direction)
    ⟨distance, tree.factors⟩
  obtain ⟨search, there, ran, seeks⟩ := run_seek ⟨.ray _,
    .beam (beamOf tree origin direction distance), 0⟩ holds live stands
  exact ⟨search, there, (alongRay_eq _ _ _ _ _).trans ran, seeks.settled, seeks.query⟩

end Start

end SpatialIndex.World.Search
