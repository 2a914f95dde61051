import SpatialIndex.Index
import SpatialIndex.Proofs.World.Upkeep

/-!
# Indices that keep records

An index shows a view of the records except for those that were taken out and wait in its queue.
Settling the queue makes it show all of them again.
-/
open SpatialIndex.Action (Ensures)

namespace SpatialIndex.Index

open Record (Bytes Field)
open World (Axis)

variable {α : Type}

/-- What an index with a queue shows of a view. -/
def visible (queue : List Key) (view : Key → Option Bytes) (key : Key) : Option Bytes :=
  if key ∈ queue then none else view key

/-- Without a queue all of a view is shown. -/
@[simp] theorem visible_nil (view : Key → Option Bytes) : visible [] view = view := by
  funext key
  simp [visible]

/-- A change of a record that does not wait is shown. -/
theorem visible_update {queue : List Key} {view : Key → Option Bytes} {key : Key}
    (waits : key ∉ queue) (content : Option Bytes) :
    visible queue (Function.update view key content) =
      Function.update (visible queue view) key content := by
  funext other
  by_cases same : other = key
  · subst same
    simp [visible, waits]
  · simp [visible, Function.update_of_ne same]

/-- One more record that waits is one less that is shown. -/
theorem visible_append (queue : List Key) (view : Key → Option Bytes) (key : Key) :
    visible (queue ++ [key]) view = Function.update (visible queue view) key none := by
  funext other
  by_cases same : other = key
  · subst same
    simp [visible]
  · simp [visible, same]

/-- The first record that waits is shown again when it is put back. -/
theorem visible_cons {queue : List Key} (view : Key → Option Bytes) {key : Key}
    (once : key ∉ queue) :
    visible queue view = Function.update (visible (key :: queue) view) key (view key) := by
  funext other
  by_cases same : other = key
  · subst same
    simp [visible, once]
  · simp [visible, same]

/-- An index over the same space, with the same queue and cursors. -/
def SameSpace (index changed : Index α) : Prop :=
  ∃ tree, index.tree.SameSpace tree ∧ changed = index.withTree tree

/-- An index is over its own space. -/
theorem SameSpace.refl (index : Index α) : index.SameSpace index := ⟨index.tree, .refl _, rfl⟩

/-- What stays over the same space twice stays over it. -/
theorem SameSpace.trans {first second third : Index α} (before : first.SameSpace second)
    (after : second.SameSpace third) : first.SameSpace third := by
  obtain ⟨tree, same, rfl⟩ := before
  obtain ⟨last, sameLast, rfl⟩ := after
  exact ⟨last, same.trans sameLast, rfl⟩

/-- An action on the tree of an index leaves its cursors and its queue alone. -/
theorem ensures_onTree {β : Type} {index : Index α}
    {action : (D : Nat) → Action (World.Tree α D × Journal) β}
    {journal : Journal} {done : β → Index α × Journal → Prop}
    {failed : Fault → Index α × Journal → Prop} :
    Ensures (onTree action) (index, journal) done failed ↔
      Ensures (action index.dimensions) (index.tree, journal)
        (fun value after => done value (index.withTree after.1, after.2))
        (fun fault after => failed fault (index.withTree after.1, after.2)) := by
  unfold Ensures onTree
  simp only
  cases action index.dimensions (index.tree, journal) <;> rfl

/-- An index over the same space. -/
def Over (index changed : Index α) : Prop :=
  ∃ tree cursors queue, index.tree.SameSpace tree ∧
    changed = ⟨index.dimensions, tree, cursors, queue⟩

/-- An index is over its own space. -/
theorem Over.refl (index : Index α) : index.Over index :=
  ⟨index.tree, index.cursors, index.queue, .refl _, rfl⟩

/-- What stays over a space twice stays over it. -/
theorem Over.trans {first second third : Index α} (before : first.Over second)
    (after : second.Over third) : first.Over third := by
  obtain ⟨tree, _, _, same, rfl⟩ := before
  obtain ⟨last, cursors, queue, sameLast, rfl⟩ := after
  exact ⟨last, cursors, queue, same.trans sameLast, rfl⟩

/-- The same queue and cursors are more than the same space. -/
theorem SameSpace.toOver {index changed : Index α} (same : index.SameSpace changed) :
    index.Over changed := by
  obtain ⟨tree, same, rfl⟩ := same
  exact ⟨tree, _, _, same, rfl⟩

/-- Over the same space the same fields are observed. -/
theorem Over.fields {index changed : Index α} (stays : index.Over changed) :
    changed.fields = index.fields := by
  obtain ⟨tree, _, _, same, rfl⟩ := stays
  show World.Axis.fields tree.axes.toList = World.Axis.fields index.tree.axes.toList
  rw [same.axes]

/-- The queue stays. -/
theorem SameSpace.queue {index changed : Index α} (same : index.SameSpace changed) :
    changed.queue = index.queue := by
  obtain ⟨tree, -, rfl⟩ := same
  rfl

/-- The cursors stay. -/
theorem SameSpace.cursors {index changed : Index α} (same : index.SameSpace changed) :
    changed.cursors = index.cursors := by
  obtain ⟨tree, -, rfl⟩ := same
  rfl

/-- The tree of an index is found under its own count of axes. -/
theorem treeOver?_eq_some_iff {D : Nat} {index : Index α} {tree : World.Tree α D} :
    index.treeOver? D = some tree ↔ index = index.withTree tree := by
  obtain ⟨dimensions, own, cursors, queue⟩ := index
  unfold treeOver?
  constructor
  · intro found
    split at found
    · rename_i same
      have sized : dimensions = D := same
      subst sized
      rw [← Option.some.inj found]
      rfl
    · cases found
  · intro same
    have sized : dimensions = D := congrArg Index.dimensions same
    subst sized
    have trees : own = tree := by
      injection same
    rw [dif_pos rfl, trees]

variable [Arithmetic α] {size : Nat} {view : Key → Option Bytes} {index : Index α} {key : Key}
  {record backup : Bytes}

/-- An index that shows a view, apart from the records that wait. -/
structure Keeps (size : Nat) (view : Key → Option Bytes) (index : Index α) : Prop where
  /-- The tree holds what is shown. -/
  tree : index.tree.Keeps size (visible index.queue view)
  /-- No record waits twice. -/
  distinct : index.queue.Nodup

namespace Keeps

/-- A tree that was changed at one shown record shows the changed view. -/
theorem withTree (keeps : index.Keeps size view) (waits : key ∉ index.queue)
    {content : Option Bytes} {tree : World.Tree α index.dimensions}
    (changed : tree.Keeps size (Function.update (visible index.queue view) key content)) :
    (index.withTree tree).Keeps size (Function.update view key content) := by
  refine ⟨?_, keeps.distinct⟩
  show tree.Keeps size (visible index.queue (Function.update view key content))
  rw [visible_update waits]
  exact changed

/-- Inserting a record that is not shown shows it. -/
theorem insert (keeps : index.Keeps size view) (absent : view key = none)
    (waits : key ∉ index.queue) (fits : record.length = size) (journal : Journal) :
    Ensures (Index.insert key record) (index, journal)
      (fun _ after => after.1.Keeps size (Function.update view key (some record)) ∧
        index.SameSpace after.1)
      fun _ _ => False := by
  have hidden : visible index.queue view key = none := by rw [visible, if_neg waits, absent]
  rw [Index.insert, ensures_onTree]
  refine (keeps.tree.insert hidden fits journal).ends ?_
  rintro - after ⟨inserted, same⟩
  exact ⟨keeps.withTree waits inserted, after.1, same, rfl⟩

/-- Erasing a record that is shown hides it. -/
theorem erase (keeps : index.Keeps size view) (known : view key = some backup)
    (waits : key ∉ index.queue) (journal : Journal) :
    Ensures (Index.erase key backup) (index, journal)
      (fun _ after => after.1.Keeps size (Function.update view key none) ∧
        index.SameSpace after.1)
      fun _ _ => False := by
  have shown : visible index.queue view key = some backup := by rw [visible, if_neg waits, known]
  rw [Index.erase, ensures_onTree, World.Tree.onTree, Action.ensures_onPart]
  refine (keeps.tree.erase shown).ends ?_
  rintro - after ⟨erased, same⟩
  exact ⟨keeps.withTree waits erased, after, same, rfl⟩

/-- Updating a record that is shown shows its new bytes. -/
theorem update (keeps : index.Keeps size view) (known : view key = some backup)
    (waits : key ∉ index.queue) (fits : record.length = size) (journal : Journal) :
    Ensures (Index.update key record backup) (index, journal)
      (fun _ after => after.1.Keeps size (Function.update view key (some record)) ∧
        index.SameSpace after.1)
      fun _ _ => False := by
  have shown : visible index.queue view key = some backup := by rw [visible, if_neg waits, known]
  rw [Index.update, ensures_onTree]
  refine (keeps.tree.update shown fits journal).ends ?_
  rintro - after ⟨updated, same⟩
  exact ⟨keeps.withTree waits updated, after.1, same, rfl⟩

/-- Putting back a record that waits shows it again, unless it is gone. -/
theorem putBack {records : Pool Bytes} {rest : List Key}
    (sized : ∀ {key record}, records.get? key = some record → record.length = size)
    (once : key ∉ rest)
    (keeps : index.tree.Keeps size (visible (key :: rest) records.get?)) (journal : Journal) :
    Ensures (Index.putBack records key) (index, journal)
      (fun _ after => after.1.tree.Keeps size (visible rest records.get?) ∧
        index.SameSpace after.1)
      fun _ _ => False := by
  have shown := visible_cons records.get? once
  have hidden : visible (key :: rest) records.get? key = none := by simp [visible]
  unfold Index.putBack
  cases found : records.get? key with
  | none =>
    rw [found] at shown
    have same : visible rest records.get? = visible (key :: rest) records.get? := by
      rw [shown, ← hidden, Function.update_eq_self]
    rw [Action.ensures_pure, same]
    exact ⟨keeps, .refl _⟩
  | some record =>
    rw [found] at shown
    simp only
    rw [Index.insert, ensures_onTree, shown]
    refine (keeps.insert hidden (sized found) journal).ends ?_
    rintro - after ⟨inserted, same⟩
    exact ⟨inserted, after.1, same, rfl⟩

/-- Settling puts back every record that waits. -/
theorem settle {records : Pool Bytes}
    (sized : ∀ {key record}, records.get? key = some record → record.length = size)
    (keeps : index.Keeps size records.get?) (journal : Journal) :
    Ensures (Index.settle records) (index, journal)
      (fun _ after => after.1.Keeps size records.get? ∧ after.1.queue = [] ∧
        { index with queue := [] }.SameSpace after.1)
      fun _ _ => False := by
  simp only [Index.settle, Action.ensures_bind, Action.ensures_get]
  by_cases empty : index.queue.isEmpty
  · rw [if_pos empty, Action.ensures_pure]
    have none_waits : index.queue = [] := List.isEmpty_iff.mp empty
    refine ⟨keeps, none_waits, ?_⟩
    rw [← none_waits]
    exact .refl _
  · rw [if_neg empty]
    simp only [Action.ensures_bind, Action.ensures_set]
    refine (Ensures.forM (fun rest state => rest.Nodup ∧
      state.1.tree.Keeps size (visible rest records.get?) ∧
      { index with queue := [] }.SameSpace state.1)
    ?_ ⟨keeps.distinct, keeps.tree, .refl _⟩).ends ?_
    · rintro item rest ⟨before, reported⟩ ⟨distinct, kept, same⟩
      rw [List.nodup_cons] at distinct
      refine (Keeps.putBack sized distinct.1 kept reported).ends ?_
      rintro - after ⟨further, sameAfter⟩
      exact ⟨distinct.2, further, same.trans sameAfter⟩
    · rintro - ⟨after, reported⟩ ⟨-, kept, same⟩
      have cleared : after.queue = [] := by
        obtain ⟨tree, -, rfl⟩ := same
        rfl
      refine ⟨⟨?_, ?_⟩, cleared, same⟩
      · show after.tree.Keeps size (visible after.queue records.get?)
        rw [cleared]
        exact kept
      · show after.queue.Nodup
        rw [cleared]
        exact List.nodup_nil

/-- A record that a cursor took out of the tree waits, whatever its bytes are. -/
theorem defer (keeps : index.Keeps size view) (waits : key ∉ index.queue)
    {tree : World.Tree α index.dimensions}
    (taken : tree.Keeps size (Function.update (visible index.queue view) key none))
    (content : Option Bytes) :
    ((index.withTree tree).defer key).Keeps size (Function.update view key content) := by
  refine ⟨?_, ?_⟩
  · show tree.Keeps size (visible (index.queue ++ [key]) (Function.update view key content))
    rw [visible_append, visible_update waits, Function.update_idem]
    exact taken
  · show (index.queue ++ [key]).Nodup
    exact List.nodup_append_comm.mp (List.nodup_cons.mpr ⟨waits, keeps.distinct⟩)

/-- A record that is led to where it was does not move. -/
theorem unmoved (keeps : index.Keeps size view) (known : view key = some backup)
    (waits : key ∉ index.queue) (fits : record.length = size)
    (same : index.tree.address? record = index.tree.address? backup) :
    index.Keeps size (Function.update view key (some record)) := by
  have shown : visible index.queue view key = some backup := by rw [visible, if_neg waits, known]
  exact keeps.withTree waits (keeps.tree.unmoved shown fits same)

/-- A record whose observed bytes did not change does not move. -/
theorem untouched (keeps : index.Keeps size view) (known : view key = some backup)
    (waits : key ∉ index.queue) (fits : record.length = size)
    (same : ∀ field ∈ index.fields, field.bytes? record = field.bytes? backup) :
    index.Keeps size (Function.update view key (some record)) :=
  keeps.unmoved known waits fits (keeps.tree.reads.address?_congr fits same)

/-- An index that was cleared shows nothing, and its queue is empty. -/
theorem clear (keeps : index.Keeps size view) :
    index.clear.Keeps size (fun _ => none) ∧ { index with queue := [] }.SameSpace index.clear := by
  obtain ⟨cleared, same⟩ := keeps.tree.clear
  refine ⟨⟨?_, List.nodup_nil⟩, _, same, rfl⟩
  show index.tree.clear.Keeps size (visible [] fun _ => none)
  rw [visible_nil]
  exact cleared

end Keeps

/-- A new index shows nothing. -/
theorem create_keeps {numeric : Numeric} {axes : List Axis} {config : Config}
    (created : create numeric axes config = .ok index)
    (accepted : ∀ axis ∈ axes, axis.Accepted α numeric size) :
    index.Keeps size (fun _ => none) ∧ index.axes = axes ∧ index.queue = [] ∧
      index.cursors = 0 := by
  unfold create at created
  cases made : (World.Tree.create numeric ⟨axes.toArray, rfl⟩ config :
      Except Fault (World.Tree α axes.length)) with
  | error fault =>
    rw [made] at created
    cases created
  | ok tree =>
    rw [made] at created
    have same := Except.ok.inj created
    subst same
    obtain ⟨keeps, -, same⟩ := World.Tree.create_keeps made fun d =>
      accepted _ (List.getElem_mem d.isLt)
    refine ⟨⟨?_, List.nodup_nil⟩, ?_, rfl, rfl⟩
    · show tree.Keeps size (visible [] fun _ => none)
      rw [visible_nil]
      exact keeps
    · show tree.axes.toList = axes
      rw [same]
      rfl

end SpatialIndex.Index
