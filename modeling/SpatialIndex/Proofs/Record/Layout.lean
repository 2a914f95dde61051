import Mathlib.Order.Bounds.Basic
import Mathlib.Order.Lattice.Nat
import SpatialIndex.Record.Layout

/-!
# Where layouts place fields

An accepted layout places the fields of its description one after the other: every field has its
position as its number, starts at the next multiple of its alignment, and ends inside the record.
Clearing bits rounds to such multiples because accepted sizes have powers of two as alignments.
-/
namespace SpatialIndex.Record

/-- Fields are numbered by their positions and lie inside the record. -/
def Layout.Sound (layout : Layout) : Prop :=
  ∀ {id : Nat} {field : NamedField}, layout.fields[id]? = some field →
    field.id = id ∧ field.offset + field.size ≤ layout.size

/-- Fields of a sound layout with one number are the same. -/
theorem Layout.Sound.unique {layout : Layout} (sound : layout.Sound) {i j : Nat}
    {first second : NamedField} (atFirst : layout.fields[i]? = some first)
    (atSecond : layout.fields[j]? = some second) (same : first.id = second.id) :
    first = second := by
  rw [(sound atFirst).1, (sound atSecond).1] at same
  rw [same, atSecond] at atFirst
  exact (Option.some.inj atFirst).symm

/-- A field that the layout places. -/
def Layout.Has (layout : Layout) (field : Field) : Prop :=
  ∃ named ∈ layout.fields, named.toField = field

namespace Layout.Has

variable {layout : Layout} {first second : Field}

/-- A field of a sound layout is known by its number. -/
theorem unique (has : layout.Has first) (sound : layout.Sound) (hasOther : layout.Has second)
    (same : first.id = second.id) : first = second := by
  obtain ⟨named, member, rfl⟩ := has
  obtain ⟨other, otherMember, rfl⟩ := hasOther
  obtain ⟨i, found⟩ := List.getElem?_of_mem member
  obtain ⟨j, otherFound⟩ := List.getElem?_of_mem otherMember
  rw [sound.unique found otherFound same]

/-- A field of a sound layout lies inside the record. -/
theorem inside (has : layout.Has first) (sound : layout.Sound) :
    first.offset + first.size ≤ layout.size := by
  obtain ⟨named, member, rfl⟩ := has
  obtain ⟨i, found⟩ := List.getElem?_of_mem member
  exact (sound found).2

end Layout.Has

/-! ## Alignment -/

/-- An alignment that an archetype may ask for. -/
def IsAlignment (alignment : Nat) : Prop := ∃ k ≤ 3, alignment = 2 ^ k

/-- An alignment is not zero. -/
theorem IsAlignment.pos {alignment : Nat} (valid : IsAlignment alignment) : 0 < alignment := by
  obtain ⟨k, -, rfl⟩ := valid
  exact Nat.two_pow_pos k

/-- No alignment is greater than that of the widest number. -/
theorem IsAlignment.le {alignment : Nat} (valid : IsAlignment alignment) : alignment ≤ 8 := by
  obtain ⟨k, small, rfl⟩ := valid
  exact Nat.pow_le_pow_right (by decide) small

/-- Sizes that an archetype accepts have powers of two as alignments. -/
theorem Archetype.isAlignment {size : Nat} {archetype : Archetype}
    (accepted : archetype.AcceptsSize size) : IsAlignment (archetype.alignment size) := by
  have one : IsAlignment 1 := ⟨0, by decide, rfl⟩
  have two : IsAlignment 2 := ⟨1, by decide, rfl⟩
  have four : IsAlignment 4 := ⟨2, by decide, rfl⟩
  have eight : IsAlignment 8 := ⟨3, by decide, rfl⟩
  cases archetype <;> simp only [AcceptsSize, alignment, List.mem_cons] at * <;> grind

/-- Inside the address space, clearing the bits below a power of two rounds down to its
multiples. -/
theorem and_addressLimit_sub {n k : Nat} (inside : n < addressLimit) (small : k ≤ 64) :
    n &&& (addressLimit - 2 ^ k) = n / 2 ^ k * 2 ^ k := by
  have mask : addressLimit - 2 ^ k = 2 ^ 64 - ((2 ^ k - 1) + 1) := by
    rw [Nat.sub_add_cancel (Nat.two_pow_pos k)]
    rfl
  have bounded : 2 ^ k - 1 < 2 ^ 64 :=
    Nat.lt_of_lt_of_le (Nat.sub_lt (Nat.two_pow_pos k) Nat.one_pos)
      (Nat.pow_le_pow_right (by decide) small)
  apply Nat.eq_of_testBit_eq
  intro i
  rw [Nat.testBit_and, mask, Nat.testBit_two_pow_sub_succ bounded, Nat.testBit_two_pow_sub_one,
    Nat.testBit_mul_two_pow, Nat.testBit_div_two_pow]
  by_cases low : i < k
  · simp [low, Nat.not_le.mpr low]
  · have high : k ≤ i := Nat.not_lt.mp low
    rw [Nat.sub_add_cancel high]
    by_cases far : i < 64
    · simp [low, high, far]
    · have beyond : n.testBit i = false :=
        Nat.testBit_lt_two_pow (Nat.lt_of_lt_of_le inside
          (Nat.pow_le_pow_right (by decide) (Nat.not_lt.mp far)))
      simp [beyond]

/-- Rounding up to a valid alignment gives its least multiple that is not below. -/
theorem alignUp_isLeast {offset alignment start : Nat} (valid : IsAlignment alignment)
    (aligned : alignUp offset alignment = .ok start) :
    IsLeast {n | alignment ∣ n ∧ offset ≤ n} start := by
  have positive := valid.pos
  obtain ⟨k, small, rfl⟩ := valid
  unfold alignUp at aligned
  split at aligned
  · rename_i inside
    have bounded : offset + 2 ^ k - 1 < addressLimit := by omega
    have narrow : k ≤ 64 := by omega
    rw [and_addressLimit_sub bounded narrow, Except.ok.injEq] at aligned
    have split := Nat.div_add_mod (offset + 2 ^ k - 1) (2 ^ k)
    have rest := Nat.mod_lt (offset + 2 ^ k - 1) positive
    rw [Nat.mul_comm, aligned] at split
    refine ⟨⟨⟨_, (aligned.symm.trans (Nat.mul_comm _ _))⟩, by omega⟩, ?_⟩
    rintro n ⟨⟨m, rfl⟩, above⟩
    -- the quotient of a number below the next multiple
    have quotient : (offset + 2 ^ k - 1) / 2 ^ k ≤ m := by
      apply Nat.le_of_lt_succ
      rw [Nat.div_lt_iff_lt_mul positive, Nat.succ_mul, Nat.mul_comm m]
      omega
    rw [← aligned, Nat.mul_comm]
    exact Nat.mul_le_mul_left _ quotient
  · cases aligned

/-- The next multiple of an alignment is less than an alignment away. -/
theorem lt_of_isLeast {offset alignment start : Nat} (positive : 0 < alignment)
    (next : IsLeast {n | alignment ∣ n ∧ offset ≤ n} start) : start < offset + alignment := by
  by_contra far
  have before : start - alignment ∈ {n | alignment ∣ n ∧ offset ≤ n} :=
    ⟨Nat.dvd_sub next.1.1 (Nat.dvd_refl alignment), by omega⟩
  have least := next.2 before
  omega

/-- Rounding up fails only at the end of the address space. -/
theorem alignUp_cases (offset : Nat) {alignment : Nat} (valid : IsAlignment alignment) :
    (∃ start, alignUp offset alignment = .ok start ∧
        IsLeast {n | alignment ∣ n ∧ offset ≤ n} start) ∨
      alignUp offset alignment = .error .addressOverflow ∧ addressLimit ≤ offset + alignment := by
  by_cases inside : offset + alignment < addressLimit
  · have aligned : alignUp offset alignment =
        .ok ((offset + alignment - 1) &&& (addressLimit - alignment)) := if_pos inside
    exact .inl ⟨_, aligned, alignUp_isLeast valid aligned⟩
  · exact .inr ⟨if_neg inside, Nat.not_lt.mp inside⟩

/-- The end of a range is reached unless it is beyond the end of the address space. -/
theorem advance_cases (offset size : Nat) :
    advance offset size = .ok (offset + size) ∨
      advance offset size = .error .addressOverflow ∧ addressLimit ≤ offset + size := by
  by_cases inside : offset + size < addressLimit
  · exact .inl (if_pos inside)
  · exact .inr ⟨if_neg inside, Nat.not_lt.mp inside⟩

/-! ## Fields in a row -/

/-- Fields placed one after the other from an offset on, each at the next multiple of its alignment;
the first one has the number `id`, and the last one ends at `last`. -/
inductive Placed : (id offset : Nat) → List FieldSpec → List NamedField → (last : Nat) → Prop
  /-- No field takes no room. -/
  | nil (id offset : Nat) : Placed id offset [] [] offset
  /-- One more field stands before the others. -/
  | cons {id offset start last : Nat} {field : FieldSpec} {rest : List FieldSpec}
      {placed : List NamedField}
      (first : IsLeast {n | field.alignment ∣ n ∧ offset ≤ n} start)
      (others : Placed (id + 1) (start + field.size) rest placed last) :
      Placed id offset (field :: rest)
        (⟨⟨id, start, field.size, field.archetype⟩, field.name⟩ :: placed) last

namespace Placed

variable {id offset last : Nat} {specs : List FieldSpec} {placed : List NamedField}

/-- Fields in a row do not end before they start. -/
theorem offset_le (run : Placed id offset specs placed last) : offset ≤ last := by
  induction run with
  | nil => exact Nat.le_refl _
  | cons first others ih =>
    have forward := first.1.2
    omega

/-- Every field has its number and what its description asks for. -/
theorem described (run : Placed id offset specs placed last) (i : Nat) :
    placed[i]?.map (fun field => (field.id, field.name, field.archetype, field.size)) =
      specs[i]?.map fun spec => (id + i, spec.name, spec.archetype, spec.size) := by
  induction run generalizing i with
  | nil => simp
  | cons first others ih =>
    cases i with
    | zero => rfl
    | succ i =>
      have next := ih i
      simp only [List.getElem?_cons_succ]
      rw [next]
      congr 1
      funext spec
      congr 1
      omega

/-- Every field lies between the start and the end of the row. -/
theorem bounds (run : Placed id offset specs placed last) {field : NamedField}
    (member : field ∈ placed) : offset ≤ field.offset ∧ field.offset + field.size ≤ last := by
  induction run with
  | nil => cases member
  | cons first others ih =>
    have forward := first.1.2
    have rest := others.offset_le
    rcases List.mem_cons.mp member with rfl | later
    · exact ⟨forward, rest⟩
    · have inside := ih later
      exact ⟨by omega, inside.2⟩

/-- Every field ends before the next ones start. -/
theorem ordered (run : Placed id offset specs placed last) :
    placed.Pairwise fun first second => first.offset + first.size ≤ second.offset := by
  induction run with
  | nil => exact .nil
  | cons first others ih => exact .cons (fun field member => (others.bounds member).1) ih

/-- The first field is at the next multiple of its alignment from the start on. -/
theorem first (run : Placed id offset specs placed last) {field : NamedField}
    (found : placed[0]? = some field) :
    IsLeast {n | field.archetype.alignment field.size ∣ n ∧ offset ≤ n} field.offset := by
  cases run with
  | nil => cases found
  | cons first others =>
    cases found
    exact first

/-- Every other field is at the next multiple of its alignment from the end of the field before. -/
theorem next (run : Placed id offset specs placed last) {i : Nat} {before field : NamedField}
    (here : placed[i]? = some before) (found : placed[i + 1]? = some field) :
    IsLeast {n | field.archetype.alignment field.size ∣ n ∧ before.offset + before.size ≤ n}
      field.offset := by
  induction run generalizing i with
  | nil => cases found
  | cons first others ih =>
    cases i with
    | zero =>
      cases here
      exact others.first found
    | succ i => exact ih here found

/-- The row ends where its last field ends. -/
theorem last_eq (run : Placed id offset specs placed last) {field : NamedField}
    (final : placed.getLast? = some field) : field.offset + field.size = last := by
  induction run with
  | nil => cases final
  | @cons id offset start last spec rest placed first others ih =>
    cases others with
    | nil =>
      cases final
      rfl
    | cons second others => exact ih (by simpa using final)

/-- A row has a field for every description. -/
theorem length_eq (run : Placed id offset specs placed last) : placed.length = specs.length := by
  induction run with
  | nil => rfl
  | cons first others ih => exact congrArg (· + 1) ih

/-- The last field is at the position of the last description. -/
theorem exists_last (run : Placed id offset specs placed last) (nonempty : specs ≠ []) :
    ∃ field, placed[specs.length - 1]? = some field ∧ field.offset + field.size = last := by
  have inside : specs.length - 1 < placed.length := by
    have positive := List.length_pos_iff.mpr nonempty
    rw [run.length_eq]
    omega
  refine ⟨_, List.getElem?_eq_getElem inside, run.last_eq ?_⟩
  rw [List.getLast?_eq_getElem?, run.length_eq]
  exact List.getElem?_eq_getElem inside

/-- The names are those of the descriptions. -/
theorem map_name (run : Placed id offset specs placed last) :
    placed.map NamedField.name = specs.map FieldSpec.name := by
  induction run with
  | nil => rfl
  | cons first others ih => exact congrArg (_ :: ·) ih

end Placed

/-- The alignment of a field. -/
def Field.alignment (field : Field) : Nat := field.archetype.alignment field.size

namespace LayoutSpec

/-! ## Accepted descriptions -/

/-- A description of fields, not none, of different names and of sizes that their archetypes
accept. -/
structure Accepted (spec : LayoutSpec) : Prop where
  /-- There is a field. -/
  nonempty : spec.fields ≠ []
  /-- No name is repeated. -/
  distinct : (spec.fields.map FieldSpec.name).Nodup
  /-- Every size is accepted. -/
  sizes : ∀ field ∈ spec.fields, field.archetype.AcceptsSize field.size

/-- The fields of a description that is accepted have alignments. -/
theorem Accepted.isAlignment {spec : LayoutSpec} (accepted : spec.Accepted) :
    ∀ field ∈ spec.fields, IsAlignment field.alignment :=
  fun field member => Archetype.isAlignment (accepted.sizes field member)

/-- A field is accepted when its name is new and its archetype takes its size. -/
theorem fieldRejection?_eq_none_iff {layout : String} {names : List String} {field : FieldSpec} :
    fieldRejection? layout names field = none ↔
      field.name ∉ names ∧ field.archetype.AcceptsSize field.size := by
  unfold fieldRejection?
  split
  · simp [*]
  · split <;> simp [*]

/-- Fields are accepted after some names when they repeat none of them and none of their own. -/
theorem fieldsRejection?_eq_none_iff {layout : String} {names : List String}
    {fields : List FieldSpec} : fieldsRejection? layout names fields = none ↔
      (fields.map FieldSpec.name).Nodup ∧ (∀ field ∈ fields, field.name ∉ names) ∧
        ∀ field ∈ fields, field.archetype.AcceptsSize field.size := by
  induction fields generalizing names with
  | nil => simp [fieldsRejection?]
  | cons first rest ih =>
    rw [fieldsRejection?, Option.or_eq_none_iff, fieldRejection?_eq_none_iff, ih]
    simp only [List.map_cons, List.nodup_cons, List.mem_map, List.mem_cons, forall_eq_or_imp,
      not_or, not_exists, not_and]
    constructor
    · rintro ⟨⟨fresh, size⟩, distinct, others, sizes⟩
      exact ⟨⟨fun field member => (others field member).1, distinct⟩,
        ⟨fresh, fun field member => (others field member).2⟩, size, sizes⟩
    · rintro ⟨⟨own, distinct⟩, ⟨fresh, others⟩, size, sizes⟩
      exact ⟨⟨fresh, size⟩, distinct, fun field member => ⟨own field member, others field member⟩,
        sizes⟩

/-- The descriptions that are not rejected. -/
theorem rejection?_eq_none_iff (spec : LayoutSpec) : spec.rejection? = none ↔ spec.Accepted := by
  unfold rejection?
  split
  · rename_i empty
    exact iff_of_false (Option.some_ne_none _) fun accepted =>
      accepted.nonempty (List.isEmpty_iff.mp empty)
  · rename_i some_field
    have nonempty : spec.fields ≠ [] := fun none => some_field (List.isEmpty_iff.mpr none)
    rw [fieldsRejection?_eq_none_iff]
    constructor
    · rintro ⟨distinct, -, sizes⟩
      exact ⟨nonempty, distinct, sizes⟩
    · intro accepted
      exact ⟨accepted.distinct, fun _ _ => List.not_mem_nil, accepted.sizes⟩

/-- A description is rejected for its fields as an invalid layout. -/
theorem kind_of_fieldsRejection? {layout : String} {names : List String} {fields : List FieldSpec}
    {rejection : Rejection} (rejected : fieldsRejection? layout names fields = some rejection) :
    rejection.kind = .invalidLayout := by
  induction fields generalizing names with
  | nil => cases rejected
  | cons first rest ih =>
    rw [fieldsRejection?] at rejected
    rcases Option.or_eq_some_iff.mp rejected with here | ⟨-, later⟩
    · unfold fieldRejection? at here
      split at here
      · cases here
        rfl
      · split at here
        · cases here
        · cases here
          rfl
    · exact ih later

/-- A description is rejected for its inconsistency. -/
theorem kind_of_rejection? {spec : LayoutSpec} {rejection : Rejection}
    (rejected : spec.rejection? = some rejection) : rejection.kind = .invalidLayout := by
  unfold rejection? at rejected
  split at rejected
  · cases rejected
    rfl
  · exact kind_of_fieldsRejection? rejected

/-! ## Computed layouts -/

/-- Bytes that are enough for fields in a row: less than eight stand before each. -/
def room : List FieldSpec → Nat
  | [] => 0
  | field :: rest => field.size + 8 + room rest

/-- Fields are placed in a row, unless the address space is too small for them. -/
theorem place_cases {fields : List FieldSpec} (valid : ∀ field ∈ fields, IsAlignment field.alignment)
    (id offset : Nat) :
    (∃ placed last, place id offset fields = .ok (placed, last) ∧
        Placed id offset fields placed last ∧ last ≤ offset + room fields) ∨
      place id offset fields = .error .addressOverflow ∧ addressLimit ≤ offset + room fields := by
  induction fields generalizing id offset with
  | nil => exact .inl ⟨[], offset, rfl, .nil id offset, Nat.le_refl _⟩
  | cons field rest ih =>
    have aligned := valid field List.mem_cons_self
    have narrow := aligned.le
    have needed : room (field :: rest) = field.size + 8 + room rest := rfl
    rcases alignUp_cases offset aligned with ⟨start, up, least⟩ | ⟨up, far⟩
    · have near := lt_of_isLeast aligned.pos least
      rcases advance_cases start field.size with ends_at | ⟨ends_at, far⟩
      · rcases ih (fun other member => valid other (List.mem_cons_of_mem _ member)) (id + 1)
          (start + field.size) with ⟨placed, last, further, run, ends⟩ | ⟨further, far⟩
        · refine .inl ⟨_, last, ?_, .cons least run, by omega⟩
          simp only [place, up, ends_at, further, bind, Except.bind, pure, Except.pure]
        · refine .inr ⟨?_, by omega⟩
          simp only [place, up, ends_at, further, bind, Except.bind]
      · refine .inr ⟨?_, by omega⟩
        simp only [place, up, ends_at, bind, Except.bind]
    · refine .inr ⟨?_, by omega⟩
      simp only [place, up, bind, Except.bind]

/-- The greatest alignment is the one of a field. -/
theorem greatestAlignment_isGreatest {spec : LayoutSpec} (accepted : spec.Accepted) :
    IsGreatest {alignment | ∃ field ∈ spec.fields, field.alignment = alignment}
      spec.greatestAlignment := by
  have greatest : (1 :: spec.fields.map FieldSpec.alignment).max? = some spec.greatestAlignment :=
    List.max?_cons'
  obtain ⟨member, above⟩ := List.max?_eq_some_iff.mp greatest
  have upper : ∀ field ∈ spec.fields, field.alignment ≤ spec.greatestAlignment :=
    fun field here => above _ (List.mem_cons_of_mem _ (List.mem_map_of_mem here))
  constructor
  · rcases List.mem_cons.mp member with one | given
    · obtain ⟨field, here⟩ := List.exists_mem_of_ne_nil _ accepted.nonempty
      have positive := (accepted.isAlignment field here).pos
      have least := upper field here
      exact ⟨field, here, by omega⟩
    · exact List.mem_map.mp given
  · rintro alignment ⟨field, here, rfl⟩
    exact upper field here

/-- The layout of an accepted description has its fields in a row, and its size is the next multiple
of the greatest alignment, unless the address space is too small. -/
theorem arrange_cases {spec : LayoutSpec} (accepted : spec.Accepted) :
    (∃ layout, spec.arrange = .ok layout ∧ layout.name = spec.name ∧
        ∃ last, Placed 0 0 spec.fields layout.fields last ∧
          IsLeast {n | spec.greatestAlignment ∣ n ∧ last ≤ n} layout.size) ∨
      spec.arrange = .error .addressOverflow ∧ addressLimit ≤ room spec.fields + 8 := by
  have valid : IsAlignment spec.greatestAlignment := by
    obtain ⟨field, member, same⟩ := (greatestAlignment_isGreatest accepted).1
    exact same ▸ accepted.isAlignment field member
  have narrow := valid.le
  rcases place_cases accepted.isAlignment 0 0 with ⟨placed, last, run, row, ends⟩ | ⟨run, far⟩
  · rcases alignUp_cases last valid with ⟨size, up, least⟩ | ⟨up, far⟩
    · refine .inl ⟨⟨spec.name, placed, size⟩, ?_, rfl, last, row, least⟩
      simp only [arrange, run, up, bind, Except.bind, pure, Except.pure]
    · refine .inr ⟨?_, by omega⟩
      simp only [arrange, run, up, bind, Except.bind]
  · refine .inr ⟨?_, by omega⟩
    simp only [arrange, run, bind, Except.bind]

end LayoutSpec

namespace Layout

/-- A computed layout comes from an accepted description, and has its fields in a row. -/
theorem placed_of_spec {spec : LayoutSpec} {layout : Layout} (computed : ofSpec spec = .ok layout) :
    spec.Accepted ∧ layout.name = spec.name ∧ ∃ last, Placed 0 0 spec.fields layout.fields last ∧
      IsLeast {n | spec.greatestAlignment ∣ n ∧ last ≤ n} layout.size := by
  unfold ofSpec at computed
  cases rejected : spec.rejection? with
  | some rejection =>
    rw [rejected] at computed
    cases computed
  | none =>
    have accepted := spec.rejection?_eq_none_iff.mp rejected
    rw [rejected] at computed
    rcases LayoutSpec.arrange_cases accepted with ⟨made, run, named, row⟩ | ⟨run, -⟩
    · rw [run] at computed
      cases computed
      exact ⟨accepted, named, row⟩
    · rw [run] at computed
      cases computed

/-- A layout that was computed is sound. -/
theorem sound_of_spec {spec : LayoutSpec} {layout : Layout}
    (computed : ofSpec spec = .ok layout) : layout.Sound := by
  obtain ⟨-, -, last, row, least⟩ := placed_of_spec computed
  intro id field found
  have told := row.described id
  have inside := (row.bounds (List.mem_of_getElem? found)).2
  have enough := least.1.2
  rw [found] at told
  cases given : spec.fields[id]? with
  | none => simp [given] at told
  | some spec =>
    simp only [given, Option.map_some, Option.some.injEq, Prod.mk.injEq] at told
    exact ⟨by omega, by omega⟩

/-! ## Layouts of structures -/

/-- A layout has the fields of a description in the order, at the places and of the size that a
structure in memory has. -/
structure Arranges (layout : Layout) (spec : LayoutSpec) : Prop where
  /-- The names are kept. -/
  name : layout.name = spec.name
  /-- Every position has the field described there, with the position as its number. -/
  described : ∀ i, (layout.field? i).map (fun field => (field.id, field.archetype, field.size)) =
    spec.fields[i]?.map fun given => (i, given.archetype, given.size)
  /-- Every field has the name described at its position. -/
  named : ∀ i, layout.fieldName? i = spec.fields[i]?.map FieldSpec.name
  /-- The first field is at the start. -/
  first : ∀ {field}, layout.field? 0 = some field → field.offset = 0
  /-- Any other field is at the next multiple of its alignment from the end of the one before. -/
  next : ∀ {i before field}, layout.field? i = some before → layout.field? (i + 1) = some field →
    IsLeast {n | field.alignment ∣ n ∧ before.offset + before.size ≤ n} field.offset
  /-- The size is the next multiple of the greatest alignment from the end of the last field. -/
  size : ∃ last greatest, layout.field? (spec.fields.length - 1) = some last ∧
    IsGreatest {alignment | ∃ given ∈ spec.fields, given.alignment = alignment} greatest ∧
    IsLeast {n | greatest ∣ n ∧ last.offset + last.size ≤ n} layout.size
  /-- A field ends before any later one starts. -/
  ordered : ∀ {i j first second}, i < j → layout.field? i = some first →
    layout.field? j = some second → first.offset + first.size ≤ second.offset
  /-- No field ends after the record. -/
  inside : ∀ {i field}, layout.field? i = some field → field.offset + field.size ≤ layout.size
  /-- The numbers of names are those that have the names. -/
  known : ∀ {name i}, layout.fieldId? name = some i ↔ layout.fieldName? i = some name
  /-- The fields of names are those whose numbers have the names. -/
  found : ∀ {name field}, layout.fieldNamed? name = some field ↔
    ∃ i, layout.fieldName? i = some name ∧ layout.field? i = some field

/-- The field of a number is the one at that place of the layout. -/
theorem field?_eq_some_iff {layout : Layout} {i : Nat} {field : Field} :
    layout.field? i = some field ↔ ∃ named, layout.fields[i]? = some named ∧
      named.toField = field := by
  unfold field?
  exact Option.map_eq_some_iff

/-- The name of a number is that of the field at that place of the layout. -/
theorem fieldName?_eq_some_iff {layout : Layout} {i : Nat} {name : String} :
    layout.fieldName? i = some name ↔ ∃ named, layout.fields[i]? = some named ∧
      named.name = name := by
  unfold fieldName?
  exact Option.map_eq_some_iff

/-- Where no name is repeated, a number is found for a name when it has the name. -/
theorem fieldId?_eq_some_iff {layout : Layout} (distinct : (layout.fields.map NamedField.name).Nodup)
    {name : String} {i : Nat} : layout.fieldId? name = some i ↔ layout.fieldName? i = some name := by
  unfold fieldId?
  rw [fieldName?_eq_some_iff, List.findIdx?_eq_some_iff_getElem]
  constructor
  · rintro ⟨inside, same, -⟩
    exact ⟨layout.fields[i], List.getElem?_eq_getElem inside, eq_of_beq same⟩
  · rintro ⟨named, found, rfl⟩
    obtain ⟨inside, rfl⟩ := List.getElem?_eq_some_iff.mp found
    refine ⟨inside, beq_self_eq_true _, fun j before => ?_⟩
    intro repeated
    have earlier : j < (layout.fields.map NamedField.name).length := by
      rw [List.length_map]
      omega
    have later : i < (layout.fields.map NamedField.name).length := by
      rw [List.length_map]
      exact inside
    have same : (layout.fields.map NamedField.name)[j] = (layout.fields.map NamedField.name)[i] := by
      rw [List.getElem_map, List.getElem_map]
      exact eq_of_beq repeated
    have equal := (List.Nodup.getElem_inj_iff distinct).mp same
    omega

/-- The fields of a row that ends inside the size are arranged. -/
theorem arranges_of_placed {spec : LayoutSpec} {layout : Layout} (accepted : spec.Accepted)
    (named : layout.name = spec.name) {last : Nat}
    (row : Placed 0 0 spec.fields layout.fields last)
    (least : IsLeast {n | spec.greatestAlignment ∣ n ∧ last ≤ n} layout.size) :
    layout.Arranges spec := by
  have names (i : Nat) : layout.fieldName? i = spec.fields[i]?.map FieldSpec.name := by
    rw [fieldName?, ← List.getElem?_map, row.map_name, List.getElem?_map]
  have distinct : (layout.fields.map NamedField.name).Nodup := row.map_name ▸ accepted.distinct
  refine ⟨named, fun i => ?_, names, ?_, ?_, ?_, ?_, ?_, fieldId?_eq_some_iff distinct, ?_⟩
  · have told := congrArg (Option.map fun parts => (parts.1, parts.2.2)) (row.described i)
    rw [Option.map_map, Option.map_map, Nat.zero_add] at told
    rw [field?, Option.map_map]
    exact told
  · intro field here
    obtain ⟨named, found, rfl⟩ := field?_eq_some_iff.mp here
    have least := (row.first found).2 ⟨Nat.dvd_zero _, Nat.le_refl 0⟩
    exact Nat.eq_zero_of_le_zero least
  · intro i before field here there
    obtain ⟨first, found, rfl⟩ := field?_eq_some_iff.mp here
    obtain ⟨second, next, rfl⟩ := field?_eq_some_iff.mp there
    exact row.next found next
  · obtain ⟨field, found, ends⟩ := row.exists_last accepted.nonempty
    refine ⟨field.toField, _, field?_eq_some_iff.mpr ⟨field, found, rfl⟩,
      LayoutSpec.greatestAlignment_isGreatest accepted, ?_⟩
    exact ends ▸ least
  · intro i j first second before here there
    obtain ⟨one, found, rfl⟩ := field?_eq_some_iff.mp here
    obtain ⟨other, next, rfl⟩ := field?_eq_some_iff.mp there
    obtain ⟨_, rfl⟩ := List.getElem?_eq_some_iff.mp found
    obtain ⟨_, rfl⟩ := List.getElem?_eq_some_iff.mp next
    exact List.pairwise_iff_getElem.mp row.ordered i j _ _ before
  · intro i field here
    obtain ⟨named, found, rfl⟩ := field?_eq_some_iff.mp here
    have ends := (row.bounds (List.mem_of_getElem? found)).2
    have enough := least.1.2
    omega
  · intro name field
    unfold fieldNamed?
    simp only [Option.bind_eq_some_iff, fieldId?_eq_some_iff distinct]

/-- The outcomes of a description: it is rejected for its inconsistency exactly when it is not
accepted; an accepted one gives a layout unless the address space is too small for it; and every
layout has its fields where a structure in memory has them. -/
theorem ofSpec_arranges (spec : LayoutSpec) :
    ((∃ rejection, ofSpec spec = .error (.rejected rejection)) ↔ ¬ spec.Accepted) ∧
      (∀ rejection, ofSpec spec = .error (.rejected rejection) →
        rejection.kind = .invalidLayout) ∧
      (spec.Accepted → (∃ layout, ofSpec spec = .ok layout) ∨
        ofSpec spec = .error (.aborted .addressOverflow) ∧
          addressLimit ≤ LayoutSpec.room spec.fields + 8) ∧
      ∀ layout, ofSpec spec = .ok layout → layout.Arranges spec := by
  have rejects {rejection : Rejection} : ofSpec spec = .error (.rejected rejection) ↔
      spec.rejection? = some rejection := by
    unfold ofSpec
    cases spec.rejection? with
    | some other => simp
    | none => cases spec.arrange <;> simp [Except.mapError]
  refine ⟨?_, fun rejection failed => ?_, fun accepted => ?_, fun layout computed => ?_⟩
  · rw [← spec.rejection?_eq_none_iff, ← ne_eq, Option.ne_none_iff_exists']
    exact exists_congr fun rejection => rejects
  · exact LayoutSpec.kind_of_rejection? (rejects.mp failed)
  · have allowed := spec.rejection?_eq_none_iff.mpr accepted
    unfold ofSpec
    rw [allowed]
    rcases LayoutSpec.arrange_cases accepted with ⟨layout, run, -⟩ | ⟨run, far⟩
    · exact .inl ⟨layout, by rw [run]; rfl⟩
    · exact .inr ⟨by rw [run]; rfl, far⟩
  · obtain ⟨accepted, named, last, row, least⟩ := placed_of_spec computed
    exact arranges_of_placed accepted named row least

/-- A flag, two numbers and a block. -/
def mixed : LayoutSpec :=
  ⟨"Mixed", [⟨"flag", .bit, 1⟩, ⟨"count", .int, 2⟩, ⟨"weight", .float, 8⟩, ⟨"rest", .block, 3⟩]⟩

/-- Both numbers stand at multiples of their sizes, and so does the next record. -/
theorem mixed_arranges : ∃ layout, ofSpec mixed = .ok layout ∧ layout.Arranges mixed ∧
    layout.fields.map (·.offset) = [0, 2, 8, 16] ∧ layout.size = 24 :=
  ⟨_, rfl, (ofSpec_arranges mixed).2.2.2 _ rfl, rfl, rfl⟩

end Layout

end SpatialIndex.Record
