import SpatialIndex.Proofs.Action
import SpatialIndex.Proofs.Partition.Placement
import SpatialIndex.Proofs.Record.Field
import SpatialIndex.World.Tree
import Mathlib.Tactic.Choose

/-!
# Reading bounds

A tree whose fields lie inside every record can read the bounds of every record, and the cells of
the bounds always form a valid box. Two records with the same bytes in the observed fields have
the same bounds.
-/
namespace SpatialIndex

open Record (Bytes Field)

/-! ## Results -/

section Results

variable {ε β γ : Type} {n : Nat}

/-- Results that are all there make a list of values. -/
theorem Except.mapM_list_eq_ok {f : β → Except ε γ} {items : List β} {values : List γ}
    (each : items.map f = values.map .ok) : items.mapM f = .ok values := by
  induction items generalizing values with
  | nil =>
    rw [List.map_nil, eq_comm, List.map_eq_nil_iff] at each
    rw [each]
    rfl
  | cons item items ih =>
    cases values with
    | nil => simp at each
    | cons value values =>
      rw [List.map_cons, List.map_cons, List.cons.injEq] at each
      rw [List.mapM_cons, each.1, ih each.2]
      rfl

/-- Results that are all there make a vector of values. -/
theorem Except.mapM_vector_eq_ok {f : β → Except ε γ} {items : Vector β n} {values : Vector γ n}
    (each : ∀ d : Fin n, f (items.get d) = .ok (values.get d)) : items.mapM f = .ok values := by
  have listed : items.toArray.toList.map f = values.toArray.toList.map .ok := by
    apply List.ext_getElem
    · simp
    · intro i bound _
      have inside : i < n := by simpa using bound
      simpa [Vector.get] using each ⟨i, inside⟩
  have arrays : Vector.toArray <$> items.mapM f = .ok values.toArray := by
    rw [Vector.toArray_mapM, Array.mapM_eq_mapM_toList, Except.mapM_list_eq_ok listed]
    rfl
  cases run : items.mapM f with
  | error failure =>
    rw [run] at arrays
    cases arrays
  | ok found =>
    rw [run] at arrays
    congr 1
    exact Vector.toArray_inj.mp (Except.ok.inj arrays)

/-- Results that do not make a list of values have the failure of one of them. -/
theorem Except.mapM_list_eq_error {f : β → Except ε γ} {items : List β} {failure : ε}
    (failed : items.mapM f = .error failure) : ∃ item ∈ items, f item = .error failure := by
  induction items with
  | nil => cases failed
  | cons item rest ih =>
    rw [List.mapM_cons] at failed
    cases head : f item with
    | error other =>
      rw [head] at failed
      cases failed
      exact ⟨item, List.mem_cons_self, head⟩
    | ok value =>
      rw [head] at failed
      cases tail : rest.mapM f with
      | error other =>
        simp only [tail, bind, Except.bind] at failed
        cases failed
        obtain ⟨inner, member, same⟩ := ih tail
        exact ⟨inner, List.mem_cons_of_mem _ member, same⟩
      | ok values =>
        simp only [tail, bind, Except.bind] at failed
        cases failed

/-- Results that do not make a vector of values have the failure of one of them. -/
theorem Except.mapM_vector_eq_error {f : β → Except ε γ} {items : Vector β n} {failure : ε}
    (failed : items.mapM f = .error failure) : ∃ item ∈ items.toList, f item = .error failure := by
  have arrays : Vector.toArray <$> items.mapM f = .error failure := by
    rw [failed]
    rfl
  rw [Vector.toArray_mapM, Array.mapM_eq_mapM_toList] at arrays
  cases run : items.toArray.toList.mapM f with
  | error other =>
    rw [run] at arrays
    cases arrays
    exact Except.mapM_list_eq_error run
  | ok values =>
    rw [run] at arrays
    cases arrays

/-- A check of a list that succeeds has succeeded on every item. -/
theorem Except.forM_eq_ok {f : β → Except ε PUnit} {items : List β}
    (checked : items.forM f = .ok ⟨⟩) : ∀ item ∈ items, f item = .ok ⟨⟩ := by
  induction items with
  | nil => simp
  | cons first rest ih =>
    have run : (f first >>= fun _ => rest.forM f) = .ok ⟨⟩ := checked
    cases head : f first with
    | error failure =>
      rw [head] at run
      cases run
    | ok _ =>
      rw [head] at run
      intro item member
      rcases List.mem_cons.mp member with rfl | later
      · exact head
      · exact ih run item later

/-- A check of a list succeeds when it succeeds on every item. -/
theorem Except.forM_of_ok {f : β → Except ε PUnit} {items : List β}
    (checked : ∀ item ∈ items, f item = .ok ⟨⟩) : items.forM f = .ok ⟨⟩ := by
  induction items with
  | nil => rfl
  | cons first rest ih =>
    show (f first >>= fun _ => rest.forM f) = .ok ⟨⟩
    rw [checked first List.mem_cons_self]
    exact ih fun item member => checked item (List.mem_cons_of_mem _ member)

end Results

namespace World

variable {α : Type} {D : Nat}

/-- An axis whose bounds can be read from every record of `size` bytes. -/
def Axis.Fits (numeric : Numeric) (size : Nat) (axis : Axis) : Prop :=
  axis.lowField.Fits numeric size ∧ axis.highField.Fits numeric size

/-- The description of an axis, as an index accepts it for records of `size` bytes. -/
structure Axis.Accepted (α : Type) [Arithmetic α] (numeric : Numeric) (size : Nat) (axis : Axis) :
    Prop where
  /-- The bounds can be read from every record. -/
  fits : axis.Fits numeric size
  /-- The ends of the world range have the type of the bounds. -/
  typed : axis.low.numeric = numeric ∧ axis.high.numeric = numeric
  /-- The world range is not empty in the arithmetic. -/
  spread : Arithmetic.lt (Arithmetic.ofCoordinate axis.low : α)
    (Arithmetic.ofCoordinate axis.high) = true

/-- An axis of a tree over records of `size` bytes. -/
structure Axis.Formed (α : Type) [Arithmetic α] (numeric : Numeric) (size : Nat) (axis : Axis) :
    Prop extends Axis.Accepted α numeric size axis where
  /-- The world range is not empty in its own type. -/
  ordered : axis.low.below axis.high = true

/-- The world range of an axis that passes the check is not empty. -/
theorem Axis.ordered_of_check {numeric : Numeric} {axis : Axis}
    (checked : axis.check numeric = .ok ⟨⟩) : axis.low.below axis.high = true := by
  unfold Axis.check at checked
  split at checked
  · cases checked
  · rename_i ordered
    simpa using ordered

/-- The fields of the bounds, in the order of the axes. -/
def Axis.fields (axes : List Axis) : List Field :=
  axes.flatMap fun axis => [axis.lowField, axis.highField]

/-- The fields of the bounds of an axis are among those of all axes. -/
theorem Axis.mem_fields {axes : List Axis} {axis : Axis} (member : axis ∈ axes) :
    axis.lowField ∈ fields axes ∧ axis.highField ∈ fields axes := by
  unfold fields
  constructor
  · exact List.mem_flatMap.mpr ⟨axis, member, List.mem_cons_self⟩
  · exact List.mem_flatMap.mpr ⟨axis, member, List.mem_cons_of_mem _ List.mem_cons_self⟩

namespace Tree

/-- A tree that can read the bounds of every record of `size` bytes. -/
structure Reads (size : Nat) (tree : Tree α D) : Prop where
  /-- Every axis fits. -/
  fits : ∀ d : Fin D, (tree.axes.get d).Fits tree.numeric size
  /-- There is a cell. -/
  positive : 0 < tree.border

variable {tree : Tree α D} {size : Nat} {record : Bytes}

/-- What the fields of the bounds read are the bounds of a record. -/
theorem extent_of_reads {extent : Extent D}
    (low : ∀ d : Fin D,
      (tree.axes.get d).lowField.read tree.numeric record = .ok (extent.low.get d))
    (high : ∀ d : Fin D,
      (tree.axes.get d).highField.read tree.numeric record = .ok (extent.high.get d)) :
    tree.extent record = .ok extent := by
  have lows : tree.axes.mapM (fun axis => axis.lowField.read tree.numeric record) =
      .ok extent.low := Except.mapM_vector_eq_ok low
  have highs : tree.axes.mapM (fun axis => axis.highField.read tree.numeric record) =
      .ok extent.high := Except.mapM_vector_eq_ok high
  unfold Tree.extent
  rw [lows, highs]
  rfl

/-- The fields of the bounds of a record can be read. -/
theorem Reads.fields (reads : tree.Reads size) (sized : record.length = size) :
    ∃ extent : Extent D, ∀ d : Fin D,
      (tree.axes.get d).lowField.read tree.numeric record = .ok (extent.low.get d) ∧
        (tree.axes.get d).highField.read tree.numeric record = .ok (extent.high.get d) := by
  have lowRead (d : Fin D) := (reads.fits d).1.read sized
  have highRead (d : Fin D) := (reads.fits d).2.read sized
  choose low lowFound _ using lowRead
  choose high highFound _ using highRead
  refine ⟨⟨Vector.ofFn low, Vector.ofFn high⟩, fun d => ⟨?_, ?_⟩⟩
  · have same : (Vector.ofFn low).get d = low d := Vector.getElem_ofFn d.isLt
    rw [lowFound, same]
  · have same : (Vector.ofFn high).get d = high d := Vector.getElem_ofFn d.isLt
    rw [highFound, same]

/-- The bounds of a record can be read, and are of the type of the tree. -/
theorem Reads.extent (reads : tree.Reads size) (sized : record.length = size) :
    ∃ extent, tree.extent record = .ok extent ∧
      ∀ d : Fin D, (extent.low.get d).numeric = tree.numeric ∧
        (extent.high.get d).numeric = tree.numeric := by
  obtain ⟨extent, read⟩ := reads.fields sized
  refine ⟨extent, extent_of_reads (fun d => (read d).1) (fun d => (read d).2), fun d => ?_⟩
  obtain ⟨low, lowRead, lowTyped⟩ := (reads.fits d).1.read sized
  obtain ⟨high, highRead, highTyped⟩ := (reads.fits d).2.read sized
  rw [(read d).1, Except.ok.injEq] at lowRead
  rw [(read d).2, Except.ok.injEq] at highRead
  exact ⟨lowRead ▸ lowTyped, highRead ▸ highTyped⟩

/-- The bounds depend on the bytes of the observed fields alone. -/
theorem Reads.extent_congr (reads : tree.Reads size) {first second : Bytes}
    (sized : first.length = size)
    (same : ∀ field ∈ Axis.fields tree.axes.toList, field.bytes? first = field.bytes? second) :
    tree.extent first = tree.extent second := by
  obtain ⟨extent, read⟩ := reads.fields sized
  have listed (d : Fin D) : tree.axes.get d ∈ tree.axes.toList :=
    Vector.mem_toList_iff.mpr (Vector.getElem_mem d.isLt)
  have observed (d : Fin D) := Axis.mem_fields (listed d)
  rw [extent_of_reads (fun d => (read d).1) (fun d => (read d).2), eq_comm]
  apply extent_of_reads
  · intro d
    rw [← Field.read_congr (same _ (observed d).1), (read d).1]
  · intro d
    rw [← Field.read_congr (same _ (observed d).2), (read d).2]

/-! ## Boxes of records -/

variable [Arithmetic α]

/-- A record has a box. -/
theorem Reads.recordBox (reads : tree.Reads size) (sized : record.length = size) :
    ∃ box, tree.recordBox record = .ok box := by
  obtain ⟨extent, read, -⟩ := reads.extent sized
  refine ⟨tree.box extent, ?_⟩
  unfold Tree.recordBox
  rw [read]
  rfl

/-- The box of a record is that of the extent that it has. -/
theorem recordBox_of_extent {extent : Extent D} (read : tree.extent record = .ok extent) :
    tree.recordBox record = .ok (tree.box extent) := by
  unfold Tree.recordBox
  rw [read]
  rfl

/-- Every cell is below the border. -/
theorem cell_lt (positive : 0 < tree.border) (d : Fin D) (value : Coordinate) :
    tree.cell d value < tree.border := by
  unfold Tree.cell Axis.cell
  simp only
  omega

/-- A box goes from the lesser to the greater cell of the bounds of an axis. -/
theorem box_get (extent : Extent D) (d : Fin D) :
    (tree.box extent).low.get d =
        min (tree.cell d (extent.low.get d)) (tree.cell d (extent.high.get d)) ∧
      (tree.box extent).high.get d =
        max (tree.cell d (extent.low.get d)) (tree.cell d (extent.high.get d)) :=
  ⟨Vector.getElem_ofFn d.isLt, Vector.getElem_ofFn d.isLt⟩

/-- Bounds put in order form a valid box, inverted or not. -/
theorem box_valid (positive : 0 < tree.border) (extent : Extent D) :
    (tree.box extent).Valid tree.border := by
  intro d
  have low := cell_lt positive d (extent.low.get d)
  have high := cell_lt positive d (extent.high.get d)
  rw [(box_get extent d).1, (box_get extent d).2]
  omega

/-- The box of a record is valid. -/
theorem recordBox_valid (positive : 0 < tree.border) {box : Partition.Box D}
    (found : tree.recordBox record = .ok box) : box.Valid tree.border := by
  unfold Tree.recordBox at found
  cases read : tree.extent record with
  | error fault =>
    rw [read] at found
    cases found
  | ok extent =>
    rw [read] at found
    have same : tree.box extent = box := Except.ok.inj found
    exact same ▸ box_valid positive extent

/-! ## Addresses of records -/

/-- The address to which the bounds of a record lead. -/
def address? (tree : Tree α D) (record : Bytes) : Option (Partition.Address D) :=
  match tree.recordBox record with
  | .ok box => some (box.address tree.border)
  | .error _ => none

/-- The bounds of a record lead where its box leads. -/
theorem address?_of_recordBox {box : Partition.Box D} (found : tree.recordBox record = .ok box) :
    tree.address? record = some (box.address tree.border) := by
  unfold address?
  rw [found]

/-- Records that agree in the fields of the bounds lead to the same address. -/
theorem Reads.address?_congr (reads : tree.Reads size) {first second : Bytes}
    (sized : first.length = size)
    (same : ∀ field ∈ Axis.fields tree.axes.toList, field.bytes? first = field.bytes? second) :
    tree.address? first = tree.address? second := by
  unfold Tree.address? Tree.recordBox
  rw [reads.extent_congr sized same]

/-- Another partition of the same space gives every record the same box. -/
theorem recordBox_withPartition (partition : Partition.Tree Key D)
    (border : partition.border = tree.partition.border) :
    recordBox { tree with partition } = tree.recordBox := by
  have sameExtent : extent { tree with partition } = tree.extent := rfl
  have sameBorder : Tree.border { tree with partition } = tree.border := border
  have sameBox : box { tree with partition } = tree.box := by
    funext extent
    unfold box cell
    rw [sameBorder]
  funext record
  unfold recordBox
  rw [sameExtent, sameBox]

/-- A tree as it is made for records of `size` bytes. -/
structure Formed (size : Nat) (tree : Tree α D) : Prop where
  /-- Every axis was accepted. -/
  axes : ∀ d : Fin D, (tree.axes.get d).Formed α tree.numeric size
  /-- There are one to three axes. -/
  dimensions : 1 ≤ D ∧ D ≤ Limits.dimensions
  /-- The border is a power of two. -/
  shape : 2 ^ tree.border.log2 = tree.border
  /-- The border is inside the limits. -/
  range : Limits.leastBorder ≤ tree.border ∧ tree.border ≤ Limits.greatestBorder
  /-- The world range of every axis is divided into as many cells. -/
  factors : tree.factors = tree.axes.map fun axis => axis.span / Arithmetic.ofNat tree.border

/-- A formed tree can read the bounds of its records. -/
theorem Formed.reads (formed : tree.Formed size) : tree.Reads size := by
  refine ⟨fun d => (formed.axes d).fits, ?_⟩
  have least := formed.range.1
  unfold Limits.leastBorder at least
  omega

/-- A tree over accepted axes is formed, and its partition is empty. -/
theorem create_formed {numeric : Numeric} {axes : Vector Axis D} {config : Config}
    (created : create numeric axes config = .ok tree)
    (accepted : ∀ d : Fin D, (axes.get d).Accepted α numeric size) :
    tree.Formed size ∧ tree.numeric = numeric ∧ tree.axes = axes ∧
      tree.partition.Places fun _ => none := by
  unfold create at created
  cases checked : axes.toList.forM (Axis.check numeric) with
  | error fault =>
    rw [checked] at created
    cases created
  | ok _ =>
    rw [checked] at created
    simp only [bind, Except.bind] at created
    split at created
    · cases created
    · rename_i partition made
      obtain ⟨border, dimensions, shape, range, places⟩ := Partition.Tree.create_spec made
      have same := Except.ok.inj created
      subst same
      refine ⟨⟨fun d => ?_, dimensions, ?_, ?_, ?_⟩, rfl, rfl, places⟩
      · have listed : axes.get d ∈ axes.toList :=
          Vector.mem_toList_iff.mpr (Vector.getElem_mem d.isLt)
        exact ⟨accepted d, Axis.ordered_of_check (Except.forM_eq_ok checked _ listed)⟩
      · show 2 ^ partition.border.log2 = partition.border
        rw [border]
        exact shape
      · show _ ≤ partition.border ∧ partition.border ≤ _
        rw [border]
        exact range
      · show axes.map (fun axis => (axis.span / Arithmetic.ofNat _ : α)) =
          axes.map fun axis => (axis.span / Arithmetic.ofNat partition.border : α)
        rw [border]

end Tree

end World

end SpatialIndex
