import SpatialIndex.Proofs.Partition.Placement
import SpatialIndex.Proofs.World.Extent

/-!
# Trees that keep records

A view gives the bytes under which a tree knows a record. A tree keeps a view when it holds
exactly the keys of the view, each once and where its bytes lead. Insertion, removal and updates
change the view at one key, and nothing of the tree but its partition.
-/
open SpatialIndex.Action (Ensures)
open SpatialIndex.Partition (Address)

namespace SpatialIndex.World.Tree

open Record (Bytes)

variable {α : Type} {D : Nat}

/-- A tree over the same space, with another partition. -/
def SameSpace (tree changed : Tree α D) : Prop :=
  ∃ partition, partition.border = tree.partition.border ∧ changed = { tree with partition }

namespace SameSpace

/-- A tree is over its own space. -/
theorem refl (tree : Tree α D) : tree.SameSpace tree := ⟨tree.partition, rfl, rfl⟩

/-- Trees over the same space in a row are over the same space. -/
theorem trans {first second third : Tree α D} (before : first.SameSpace second)
    (after : second.SameSpace third) : first.SameSpace third := by
  obtain ⟨partition, border, rfl⟩ := before
  obtain ⟨last, lastBorder, rfl⟩ := after
  exact ⟨last, lastBorder.trans border, rfl⟩

/-- Trees over the same space have the same axes. -/
theorem axes {tree changed : Tree α D} (same : tree.SameSpace changed) :
    changed.axes = tree.axes := by
  obtain ⟨partition, -, rfl⟩ := same
  rfl

/-- Trees over the same space have the same border. -/
theorem border {tree changed : Tree α D} (same : tree.SameSpace changed) :
    changed.border = tree.border := by
  obtain ⟨partition, border, rfl⟩ := same
  exact border

end SameSpace

/-- Trees over the same space read the same records. -/
theorem Reads.sameSpace {size : Nat} {tree changed : Tree α D} (reads : tree.Reads size)
    (same : tree.SameSpace changed) : changed.Reads size := by
  obtain ⟨partition, border, rfl⟩ := same
  have sameBorder : Tree.border { tree with partition } = tree.border := border
  exact ⟨reads.fits, sameBorder ▸ reads.positive⟩

variable [Arithmetic α] {size : Nat} {view : Key → Option Bytes} {tree : Tree α D} {key : Key}
  {record backup : Bytes}

/-- Trees over the same space give every record the same box. -/
theorem SameSpace.recordBox {changed : Tree α D} (same : tree.SameSpace changed) :
    changed.recordBox = tree.recordBox := by
  obtain ⟨partition, border, rfl⟩ := same
  exact recordBox_withPartition partition border

/-- Trees over the same space give every extent the same box. -/
theorem SameSpace.box {changed : Tree α D} (same : tree.SameSpace changed) :
    changed.box = tree.box := by
  obtain ⟨partition, border, rfl⟩ := same
  have sameBorder : Tree.border { tree with partition } = tree.border := border
  funext extent
  unfold Tree.box Tree.cell
  rw [sameBorder]

/-- Trees over the same space lead every record the same way. -/
theorem SameSpace.address? {changed : Tree α D} (same : tree.SameSpace changed) :
    changed.address? = tree.address? := by
  funext record
  unfold Tree.address?
  rw [same.recordBox, same.border]

/-- A tree over the space of a formed one is formed. -/
theorem Formed.sameSpace {changed : Tree α D} (formed : tree.Formed size)
    (same : tree.SameSpace changed) : changed.Formed size := by
  obtain ⟨partition, border, rfl⟩ := same
  have sameBorder : Tree.border { tree with partition } = tree.border := border
  refine ⟨formed.axes, formed.dimensions, ?_, ?_, ?_⟩
  · rw [sameBorder]
    exact formed.shape
  · rw [sameBorder]
    exact formed.range
  · rw [sameBorder]
    exact formed.factors

/-- The addresses of the records of a view. -/
def placement (tree : Tree α D) (view : Key → Option Bytes) (key : Key) : Option (Address D) :=
  (view key).bind tree.address?

/-- A record that is shown anew is placed where its bytes lead. -/
theorem placement_update_some (tree : Tree α D) (view : Key → Option Bytes) (key : Key)
    (record : Bytes) :
    tree.placement (Function.update view key (some record)) =
      Function.update (tree.placement view) key (tree.address? record) := by
  funext other
  by_cases same : other = key
  · subst same
    simp [placement]
  · simp [placement, Function.update_of_ne same]

/-- A record that is no longer shown is placed nowhere. -/
theorem placement_update_none (tree : Tree α D) (view : Key → Option Bytes) (key : Key) :
    tree.placement (Function.update view key none) =
      Function.update (tree.placement view) key none := by
  funext other
  by_cases same : other = key
  · subst same
    simp [placement]
  · simp [placement, Function.update_of_ne same]

/-- A tree holds exactly the records of a view, each once and where its bytes lead, whatever its
world ranges are. -/
structure Holds (size : Nat) (view : Key → Option Bytes) (tree : Tree α D) : Prop where
  /-- The bounds of the records can be read. -/
  reads : tree.Reads size
  /-- Every record has the same size. -/
  sized : ∀ {key record}, view key = some record → record.length = size
  /-- Every key is in its place. -/
  places : tree.partition.Places (tree.placement view)

namespace Holds

/-- Another partition of the same space holds what it places. -/
theorem withPartition (holds : tree.Holds size view) {changed : Key → Option Bytes}
    (sized : ∀ {key record}, changed key = some record → record.length = size)
    {partition : Partition.Tree Key D} (border : partition.border = tree.partition.border)
    (places : partition.Places (tree.placement changed)) :
    Holds size changed { tree with partition } := by
  have space : tree.SameSpace { tree with partition } := ⟨partition, border, rfl⟩
  refine ⟨holds.reads.sameSpace space, sized, ?_⟩
  have same : placement { tree with partition } changed = tree.placement changed := by
    funext key
    rw [placement, placement, space.address?]
  rw [same]
  exact places

/-- A view without a key shows records of the same size. -/
theorem sized_erase (holds : tree.Holds size view) {other : Key} {found : Bytes}
    (updated : Function.update view key none other = some found) : found.length = size := by
  by_cases same : other = key
  · rw [same, Function.update_self] at updated
    cases updated
  · rw [Function.update_of_ne same] at updated
    exact holds.sized updated

/-- A key of the view is in the tree where the box of its bytes leads. -/
theorem placement_eq (holds : tree.Holds size view) (known : view key = some record) :
    ∃ box, tree.recordBox record = .ok box ∧
      tree.placement view key = some (box.address tree.border) := by
  obtain ⟨box, found⟩ := holds.reads.recordBox (holds.sized known)
  refine ⟨box, found, ?_⟩
  rw [placement, known, Option.bind_some, address?_of_recordBox found]

end Holds

/-- A formed tree holds exactly the records of a view. -/
structure Keeps (size : Nat) (view : Key → Option Bytes) (tree : Tree α D) : Prop where
  /-- The tree was made for records of this size. -/
  formed : tree.Formed size
  /-- Every record has the same size. -/
  sized : ∀ {key record}, view key = some record → record.length = size
  /-- Every key is in its place. -/
  places : tree.partition.Places (tree.placement view)

namespace Keeps

/-- A tree that keeps a view can read the bounds of its records. -/
theorem reads (keeps : tree.Keeps size view) : tree.Reads size := keeps.formed.reads

/-- A tree that keeps a view holds it. -/
theorem holds (keeps : tree.Keeps size view) : tree.Holds size view :=
  ⟨keeps.reads, keeps.sized, keeps.places⟩

/-- A formed tree keeps what it holds. -/
theorem of_holds (formed : tree.Formed size) (holds : tree.Holds size view) :
    tree.Keeps size view := ⟨formed, holds.sized, holds.places⟩

/-- Another partition of the same space keeps what it places. -/
theorem withPartition (keeps : tree.Keeps size view) {changed : Key → Option Bytes}
    (sized : ∀ {key record}, changed key = some record → record.length = size)
    {partition : Partition.Tree Key D} (border : partition.border = tree.partition.border)
    (places : partition.Places (tree.placement changed)) :
    Keeps size changed { tree with partition } :=
  of_holds (keeps.formed.sameSpace ⟨partition, border, rfl⟩)
    (keeps.holds.withPartition sized border places)

/-- Views that lead every record the same way are kept alike. -/
theorem congr (keeps : tree.Keeps size view) {changed : Key → Option Bytes}
    (sized : ∀ {key record}, changed key = some record → record.length = size)
    (same : tree.placement changed = tree.placement view) : tree.Keeps size changed :=
  ⟨keeps.formed, sized, same ▸ keeps.places⟩

/-- A view with a record of the size of all shows records of that size. -/
theorem sized_update (keeps : tree.Keeps size view) (record : Bytes)
    (fits : record.length = size) {other : Key} {found : Bytes}
    (updated : Function.update view key (some record) other = some found) :
    found.length = size := by
  by_cases same : other = key
  · rw [same, Function.update_self, Option.some.injEq] at updated
    exact updated ▸ fits
  · rw [Function.update_of_ne same] at updated
    exact keeps.sized updated

/-! ## Changes -/

/-- Placing a box of a valid record in the partition puts the key where the box leads. -/
theorem insertBox (keeps : tree.Keeps size view) (absent : view key = none)
    (fits : record.length = size) {box : Partition.Box D}
    (found : tree.recordBox record = .ok box) (journal : Journal) :
    Ensures (onTree (onPartition (Partition.Tree.insert key box))) (tree, journal)
      (fun _ after => after.1.Keeps size (Function.update view key (some record)) ∧
        tree.SameSpace after.1)
      fun _ _ => False := by
  have missing : tree.placement view key = none := by rw [placement, absent, Option.bind_none]
  obtain ⟨partition, run, border, places⟩ :=
    keeps.places.insert (recordBox_valid keeps.reads.positive found) missing
  rw [onTree, onPartition, Action.ensures_onPart, Action.ensures_onPart]
  refine .of_eq run ⟨?_, partition, border, rfl⟩
  apply keeps.withPartition (keeps.sized_update record fits) border
  rw [placement_update_some, address?_of_recordBox found]
  exact places

/-- Erasing the box of the bytes of a key takes the key out. -/
theorem eraseBox (keeps : tree.Keeps size view) (known : view key = some backup)
    {box : Partition.Box D} (found : tree.recordBox backup = .ok box) :
    Ensures (onPartition (Partition.Tree.erase key box)) tree
      (fun _ after => after.Keeps size (Function.update view key none) ∧ tree.SameSpace after)
      fun _ _ => False := by
  have held : tree.placement view key = some (box.address tree.border) := by
    rw [placement, known, Option.bind_some, address?_of_recordBox found]
  obtain ⟨partition, run, border, places⟩ :=
    keeps.places.erase (recordBox_valid keeps.reads.positive found) held
  rw [onPartition, Action.ensures_onPart]
  refine .of_eq run ⟨?_, partition, border, rfl⟩
  apply keeps.withPartition keeps.holds.sized_erase border
  rw [placement_update_none]
  exact places

/-- Looking at a record finds its box and reports at most a warning. -/
theorem place (keeps : tree.Keeps size view) (fits : record.length = size) (journal : Journal) :
    Ensures (Tree.place key record) (tree, journal)
      (fun box after => after.1 = tree ∧ tree.recordBox record = .ok box) fun _ _ => False := by
  obtain ⟨extent, read, -⟩ := keeps.reads.extent fits
  simp only [Tree.place, Action.ensures_bind, Action.ensures_get, read,
    Action.ensures_ofExcept_ok, Action.ensures_set, Action.ensures_pure]
  exact ⟨trivial, recordBox_of_extent read⟩

/-- Inserting a record that the tree does not know adds it to the view. -/
theorem insert (keeps : tree.Keeps size view) (absent : view key = none)
    (fits : record.length = size) (journal : Journal) :
    Ensures (Tree.insert key record) (tree, journal)
      (fun _ after => after.1.Keeps size (Function.update view key (some record)) ∧
        tree.SameSpace after.1)
      fun _ _ => False := by
  rw [Tree.insert, Action.ensures_bind]
  refine (keeps.place fits journal).ends ?_
  rintro box ⟨_, reported⟩ ⟨rfl, found⟩
  exact keeps.insertBox absent fits found reported

/-- Erasing a record by the bytes under which the tree knows it takes it out of the view. -/
theorem erase (keeps : tree.Keeps size view) (known : view key = some backup) :
    Ensures (Tree.erase key backup) tree
      (fun _ after => after.Keeps size (Function.update view key none) ∧ tree.SameSpace after)
      fun _ _ => False := by
  obtain ⟨box, found, -⟩ := keeps.holds.placement_eq known
  simp only [Tree.erase, Action.ensures_bind, Action.ensures_get, found,
    Action.ensures_ofExcept_ok]
  exact keeps.eraseBox known found

/-- Updating a record changes the bytes under which the tree knows it, whether it moves or
not. -/
theorem update (keeps : tree.Keeps size view) (known : view key = some backup)
    (fits : record.length = size) (journal : Journal) :
    Ensures (Tree.update key record backup) (tree, journal)
      (fun _ after => after.1.Keeps size (Function.update view key (some record)) ∧
        tree.SameSpace after.1)
      fun _ _ => False := by
  obtain ⟨former, found, -⟩ := keeps.holds.placement_eq known
  simp only [Tree.update, Action.ensures_bind, Action.ensures_get, found,
    Action.ensures_ofExcept_ok]
  refine (keeps.place fits journal).ends ?_
  rintro present ⟨_, reported⟩ ⟨rfl, reached⟩
  by_cases moved : former ≠ present
  · rw [if_pos moved, Action.ensures_bind, onTree, Action.ensures_onPart]
    refine (keeps.eraseBox known found).ends ?_
    rintro - after ⟨erased, same⟩
    have absent : Function.update view key none key = none := Function.update_self ..
    have box : after.recordBox record = .ok present := by rw [same.recordBox, reached]
    refine (erased.insertBox absent fits box reported).ends ?_
    rintro - final ⟨inserted, sameAgain⟩
    rw [Function.update_idem] at inserted
    exact ⟨inserted, same.trans sameAgain⟩
  · rw [if_neg moved, Action.ensures_pure]
    refine ⟨?_, .refl _⟩
    apply keeps.congr (keeps.sized_update record fits)
    rw [placement_update_some, address?_of_recordBox reached, ← not_not.mp moved,
      ← address?_of_recordBox found]
    exact Function.update_eq_self_iff.mpr (by rw [placement, known, Option.bind_some])

/-- A record that is led to where it was does not move. -/
theorem unmoved (keeps : tree.Keeps size view) (known : view key = some backup)
    (fits : record.length = size) (same : tree.address? record = tree.address? backup) :
    tree.Keeps size (Function.update view key (some record)) := by
  apply keeps.congr (keeps.sized_update record fits)
  rw [placement_update_some, same]
  exact Function.update_eq_self_iff.mpr (by rw [placement, known, Option.bind_some])

/-- Whether a record moved can be told. -/
theorem isMoved_eq (keeps : tree.Keeps size view) (known : view key = some backup)
    (fits : record.length = size) :
    ∃ moved, tree.isMoved record backup = .ok moved ∧
      (moved = false → tree.address? record = tree.address? backup) := by
  obtain ⟨former, found, -⟩ := keeps.holds.placement_eq known
  obtain ⟨present, reached⟩ := keeps.reads.recordBox fits
  refine ⟨decide (present ≠ former), ?_, fun same => ?_⟩
  · unfold Tree.isMoved
    rw [reached, found]
    rfl
  · rw [address?_of_recordBox reached, address?_of_recordBox found]
    rw [decide_eq_false_iff_not, not_not] at same
    rw [same]

/-- Clearing leaves nothing. -/
theorem clear (keeps : tree.Keeps size view) :
    tree.clear.Keeps size (fun _ => none) ∧ tree.SameSpace tree.clear :=
  ⟨keeps.withPartition (fun absurd => by cases absurd) rfl keeps.places.clear,
    tree.partition.clear, rfl, rfl⟩

end Keeps

/-- A tree over accepted axes starts without records. -/
theorem create_keeps {numeric : Numeric} {axes : Vector Axis D} {config : Config}
    (created : create numeric axes config = .ok tree)
    (accepted : ∀ d : Fin D, (axes.get d).Accepted α numeric size) :
    tree.Keeps size (fun _ => none) ∧ tree.numeric = numeric ∧ tree.axes = axes := by
  obtain ⟨formed, numeric, axes, places⟩ := create_formed created accepted
  refine ⟨⟨formed, ?_, places⟩, numeric, axes⟩
  intro key record absurd
  cases absurd

end SpatialIndex.World.Tree
