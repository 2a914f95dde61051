import SpatialIndex.Proofs.Record.Field
import SpatialIndex.Proofs.Record.Layout
import SpatialIndex.Record.Edit

/-!
# Fields as variables

The fields of a computed layout are variables of its records that do not depend on each other. After
numbers were stored one after the other, every field has the last number stored in it, and all other
bytes are as before. A number of another type than the field's is refused, and the record stays as
the numbers before it left it.
-/
namespace SpatialIndex.Record

variable {layout : Layout} {field : Field} {numeric : Numeric} {value : Coordinate}
  {record before after : Bytes} {id : Nat}

/-! ## Edits that store numbers -/

namespace Edit

variable {next : Bytes} {fault : Fault}

/-- Storing a number that can be written leaves the record with it. -/
theorem store_eq_ok (written : field.write value record = .ok next) :
    store field value record = .ok () next := by
  change (Action.ofExcept (field.write value record) >>= set : Edit) record = _
  rw [written]
  rfl

/-- Storing a number that cannot be written leaves the record as it is. -/
theorem store_eq_error (failed : field.write value record = .error fault) :
    store field value record = .error fault record := by
  change (Action.ofExcept (field.write value record) >>= set : Edit) record = _
  rw [failed]
  rfl

/-- The first of several numbers is stored before the others. -/
theorem storeAll_cons (found : layout.field? id = some field)
    (written : field.write value record = .ok next) (rest : List (Nat × Coordinate)) :
    storeAll layout ((id, value) :: rest) record = storeAll layout rest next := by
  simp only [storeAll, found, bind, EStateM.bind, store_eq_ok written]

/-- A number that cannot be stored ends the edit. -/
theorem storeAll_cons_error (found : layout.field? id = some field)
    (failed : field.write value record = .error fault) (rest : List (Nat × Coordinate)) :
    storeAll layout ((id, value) :: rest) record = .error fault record := by
  simp only [storeAll, found, bind, EStateM.bind, store_eq_error failed]

/-- A number for a field that the layout does not have ends the edit. -/
theorem storeAll_cons_missing (missing : layout.field? id = none)
    (rest : List (Nat × Coordinate)) :
    storeAll layout ((id, value) :: rest) record = .error .outsideRecord record := by
  simp only [storeAll, missing, bind, EStateM.bind]
  rfl

/-- Numbers are stored in the record that the ones before them left. -/
theorem storeAll_append {earlier : List (Nat × Coordinate)}
    (run : storeAll layout earlier record = .ok () next) (later : List (Nat × Coordinate)) :
    storeAll layout (earlier ++ later) record = storeAll layout later next := by
  induction earlier generalizing record with
  | nil =>
    cases run
    rfl
  | cons first rest ih =>
    obtain ⟨id, value⟩ := first
    rw [List.cons_append]
    cases found : layout.field? id with
    | none =>
      rw [storeAll_cons_missing found] at run
      cases run
    | some field =>
      cases written : field.write value record with
      | error fault =>
        rw [storeAll_cons_error found written] at run
        cases run
      | ok middle =>
        rw [storeAll_cons found written] at run ⊢
        exact ih run

end Edit

namespace Layout

/-! ## Layouts of separate fields -/

namespace Arranges

variable {spec : LayoutSpec}

/-- Different fields share no byte. -/
theorem apart (arranged : layout.Arranges spec) {other : Field} {otherId : Nat}
    (found : layout.field? id = some field) (there : layout.field? otherId = some other)
    (different : id ≠ otherId) : field.Apart other := by
  rcases Nat.lt_or_gt_of_ne different with earlier | later
  · exact .inl (arranged.ordered earlier found there)
  · exact .inr (arranged.ordered later there found)

/-- A field of the type fits into every record of the layout's size. -/
theorem fits (arranged : layout.Arranges spec) (found : layout.field? id = some field)
    (holds : field.Holds numeric) (sized : record.length = layout.size) :
    field.Fits numeric record.length := by
  refine ⟨holds, ?_⟩
  rw [sized]
  exact arranged.inside found

end Arranges

/-! ## Numbers stored one after the other -/

/-- A number has the type of the field that it comes with. -/
def Takes (layout : Layout) (write : Nat × Coordinate) : Prop :=
  ∃ field, layout.field? write.1 = some field ∧ field.Holds write.2.numeric

/-- Two records of one length differ in the bytes of some fields only, given by their numbers. -/
structure Spares (layout : Layout) (ids : List Nat) (before after : Bytes) : Prop where
  /-- The lengths are the same. -/
  length : after.length = before.length
  /-- A byte outside the fields is the same. -/
  outside : ∀ {place}, (∀ id ∈ ids, ∀ {field}, layout.field? id = some field →
    ¬ field.Covers place) → after[place]? = before[place]?

/-- A record differs nowhere from itself. -/
theorem Spares.refl (layout : Layout) (ids : List Nat) (record : Bytes) :
    layout.Spares ids record record := ⟨rfl, fun _ => rfl⟩

/-- A record that differs in some fields differs in them and in a field stored before. -/
theorem Spares.cons {middle : Bytes} {ids : List Nat} (found : layout.field? id = some field)
    (stored : field.Stored value before middle) (spares : layout.Spares ids middle after) :
    layout.Spares (id :: ids) before after := by
  refine ⟨spares.length.trans stored.length, fun elsewhere => ?_⟩
  rw [spares.outside fun other member => elsewhere other (List.mem_cons_of_mem _ member)]
  exact stored.outside (elsewhere id List.mem_cons_self found)

/-- Any other field has the same bytes in both records. -/
theorem Spares.bytes?_eq {ids : List Nat} (spares : layout.Spares ids before after)
    {spec : LayoutSpec} (arranged : layout.Arranges spec) (found : layout.field? id = some field)
    (absent : id ∉ ids) : field.bytes? after = field.bytes? before := by
  refine Field.bytes?_congr spares.length fun place covers => spares.outside ?_
  intro other member otherField there
  have different : id ≠ other := fun same => absent (same ▸ member)
  exact (arranged.apart found there different).not_covers covers

/-- Numbers of the right types can all be stored, and change their fields only. -/
theorem Arranges.exists_storeAll {spec : LayoutSpec} (arranged : layout.Arranges spec)
    {writes : List (Nat × Coordinate)} (sized : record.length = layout.size)
    (taken : ∀ write ∈ writes, layout.Takes write) :
    ∃ after, Edit.storeAll layout writes record = .ok () after ∧
      layout.Spares (writes.map Prod.fst) record after := by
  induction writes generalizing record with
  | nil => exact ⟨record, rfl, .refl layout [] record⟩
  | cons first rest ih =>
    obtain ⟨id, value⟩ := first
    obtain ⟨field, found, holds⟩ := taken _ List.mem_cons_self
    obtain ⟨middle, written, stored⟩ := (arranged.fits found holds sized).exists_write
    -- the other fields fit as well, because the record keeps its length
    obtain ⟨after, run, spares⟩ := ih (stored.length.trans sized)
      fun write member => taken write (List.mem_cons_of_mem _ member)
    rw [Edit.storeAll_cons found written]
    exact ⟨after, run, spares.cons found stored⟩

/-- A field has the number that was stored in it last. -/
theorem Arranges.read_last {spec : LayoutSpec} (arranged : layout.Arranges spec)
    {earlier later : List (Nat × Coordinate)} (sized : record.length = layout.size)
    (taken : ∀ write ∈ earlier ++ (id, value) :: later, layout.Takes write)
    (run : Edit.storeAll layout (earlier ++ (id, value) :: later) record = .ok () after)
    (last : id ∉ later.map Prod.fst) (found : layout.field? id = some field) :
    field.read value.numeric after = .ok value := by
  have takenEarlier : ∀ write ∈ earlier, layout.Takes write :=
    fun write member => taken write (List.mem_append_left _ member)
  have takenLater : ∀ write ∈ later, layout.Takes write := fun write member =>
    taken write (List.mem_append_right _ (List.mem_cons_of_mem _ member))
  obtain ⟨same, here, holds⟩ := taken (id, value) (List.mem_append_right _ List.mem_cons_self)
  obtain rfl : field = same := Option.some.inj (found.symm.trans here)
  -- the run in three parts: before the last store into the field, that store, and after it
  obtain ⟨first, ranEarlier, spared⟩ := arranged.exists_storeAll sized takenEarlier
  have sizedFirst := spared.length.trans sized
  obtain ⟨second, written, stored⟩ := (arranged.fits found holds sizedFirst).exists_write
  obtain ⟨third, ranLater, spares⟩ :=
    arranged.exists_storeAll (stored.length.trans sizedFirst) takenLater
  rw [Edit.storeAll_append ranEarlier, Edit.storeAll_cons found written, ranLater] at run
  cases run
  rw [Field.read_congr (spares.bytes?_eq arranged found last), stored.read]

/-! ## Independent fields -/

/-- What storing numbers one after the other makes of a record. -/
structure Stored (layout : Layout) (writes : List (Nat × Coordinate)) (before after : Bytes) :
    Prop where
  /-- The record keeps its length and every byte outside the fields stored in. -/
  spares : layout.Spares (writes.map Prod.fst) before after
  /-- From a field stored in, the last number is read bit for bit. -/
  last : ∀ {earlier id value later field}, writes = earlier ++ (id, value) :: later →
    id ∉ later.map Prod.fst → layout.field? id = some field →
    field.read value.numeric after = .ok value
  /-- Any other field has the bytes that it had and reads as before. -/
  others : ∀ {id field}, id ∉ writes.map Prod.fst → layout.field? id = some field →
    field.bytes? after = field.bytes? before ∧
      ∀ numeric, field.read numeric after = field.read numeric before

/-- The fields of a layout are independent variables of the records of its size. -/
structure Independent (layout : Layout) : Prop where
  /-- Numbers of the right types can be stored one after the other. -/
  stores : ∀ {record writes}, record.length = layout.size →
    (∀ write ∈ writes, layout.Takes write) →
    ∃ after, Edit.storeAll layout writes record = .ok () after ∧ layout.Stored writes record after
  /-- A number can be read from every field of its type, and storing it again changes nothing. -/
  restores : ∀ {record id field numeric}, record.length = layout.size →
    layout.field? id = some field → field.Holds numeric →
    ∃ bits, field.read numeric record = .ok ⟨numeric, bits⟩ ∧
      Edit.store field ⟨numeric, bits⟩ record = .ok () record
  /-- Two records are equal in a field of numbers exactly when their patterns in it are. -/
  distinguishes : ∀ {first second id field numeric}, first.length = layout.size →
    second.length = layout.size → layout.field? id = some field → field.Holds numeric →
    ∃ left right : BitVec numeric.width, field.read numeric first = .ok ⟨numeric, left⟩ ∧
      field.read numeric second = .ok ⟨numeric, right⟩ ∧
      field.equalIn first second = .ok (left == right)
  /-- A number of another type is refused, and the record stays as it is. -/
  refuses : ∀ {record id field value}, layout.field? id = some field →
    ¬ field.Holds value.numeric →
    Edit.store field value record = .error (.fieldType id value.numeric) record
  /-- Among several numbers, the first one of another type leaves the record to those before it. -/
  breaksOff : ∀ {record earlier id value later field}, record.length = layout.size →
    (∀ write ∈ earlier, layout.Takes write) → layout.field? id = some field →
    ¬ field.Holds value.numeric →
    ∃ after, Edit.storeAll layout earlier record = .ok () after ∧
      Edit.storeAll layout (earlier ++ (id, value) :: later) record =
        .error (.fieldType id value.numeric) after

/-- Numbers of the right types can be stored one after the other, and each is read back until its
field is stored again. -/
theorem Arranges.stored {spec : LayoutSpec} (arranged : layout.Arranges spec)
    {writes : List (Nat × Coordinate)} (sized : record.length = layout.size)
    (taken : ∀ write ∈ writes, layout.Takes write) :
    ∃ after, Edit.storeAll layout writes record = .ok () after ∧
      layout.Stored writes record after := by
  obtain ⟨after, run, spares⟩ := arranged.exists_storeAll sized taken
  refine ⟨after, run, spares, fun split last found => ?_, fun absent found => ?_⟩
  · subst split
    exact arranged.read_last sized taken run last found
  · have same := spares.bytes?_eq arranged found absent
    exact ⟨same, Field.read_congr same⟩

/-- The fields of every computed layout are independent. -/
theorem independent_of_spec {spec : LayoutSpec} (computed : ofSpec spec = .ok layout) :
    layout.Independent := by
  obtain ⟨accepted, named, _, row, least⟩ := placed_of_spec computed
  have arranged := arranges_of_placed accepted named row least
  have refused {id : Nat} {field : Field} {value : Coordinate} (record : Bytes)
      (found : layout.field? id = some field) (other : ¬ field.Holds value.numeric) :
      field.write value record = .error (.fieldType id value.numeric) := by
    obtain ⟨named, there, rfl⟩ := field?_eq_some_iff.mp found
    rw [Field.write_of_not_holds other, (sound_of_spec computed there).1]
  refine ⟨arranged.stored, ?_, ?_, fun found other => Edit.store_eq_error (refused _ found other),
    ?_⟩
  · intro record id field numeric sized found holds
    obtain ⟨⟨_, bits⟩, read, rfl⟩ := (arranged.fits found holds sized).read rfl
    exact ⟨bits, read, Edit.store_eq_ok (Field.write_of_read read)⟩
  · intro first second id field numeric sizedFirst sizedSecond found holds
    exact Field.equalIn_eq (arranged.fits found holds sizedFirst)
      (arranged.fits found holds sizedSecond)
  · intro record earlier id value later field sized taken found other
    obtain ⟨after, run, -⟩ := arranged.exists_storeAll sized taken
    refine ⟨after, run, ?_⟩
    rw [Edit.storeAll_append run, Edit.storeAll_cons_error found (refused after found other)]

/-- A count is stored twice, and a weight that is a NaN once; the flag, the block and the padding
stay. -/
theorem mixed_independent : ∃ layout, ofSpec mixed = .ok layout ∧ layout.Independent ∧
    Edit.storeAll layout [(1, ⟨.i16, 300⟩), (2, ⟨.f64, 0xFFF0000000000001⟩), (1, ⟨.i16, -2⟩)]
      (List.replicate 24 170) = .ok ()
        [170, 170, 254, 255, 170, 170, 170, 170, 1, 0, 0, 0, 0, 0, 240, 255,
          170, 170, 170, 170, 170, 170, 170, 170] :=
  have computed : ofSpec mixed = .ok _ := rfl
  ⟨_, computed, independent_of_spec computed, rfl⟩

end Layout

end SpatialIndex.Record
