import SpatialIndex.Proofs.Session

/-!
# Indices in lockstep with records

Whatever callers do with a storage, as soon as no writer is open every index holds exactly the
records that are there, each once and in the node into which an insertion by its present bytes
would put it.
-/
namespace SpatialIndex

open Record (Bytes Edit Layout LayoutSpec)

variable {α : Type} [Arithmetic α]

/-- An index that holds the records as they are. -/
structure Index.Lockstep (records : Pool Bytes) (index : Index α) : Prop where
  /-- No record waits to be put back. -/
  settled : index.queue = []
  /-- Every key of a record is in the tree once, and no other key is. -/
  once : ∀ key, index.tree.partition.items.count key = if records.contains key then 1 else 0
  /-- Every key is in the node into which an insertion of the box of its bytes puts anything. -/
  placed : ∀ {key record}, records.get? key = some record →
    ∃ box node content, index.tree.recordBox record = .ok box ∧
      index.tree.partition.nodes.get? node = some content ∧ key ∈ content.items ∧
      ∀ other, Partition.Tree.insert other box index.tree.partition = .ok ()
        { index.tree.partition.touch with
          nodes := index.tree.partition.nodes.set node (content.addItem other) }

/-- An index that shows the records and has none waiting holds them as they are. -/
theorem Index.Keeps.lockstep {index : Index α} {size : Nat} {records : Pool Bytes}
    (shown : index.Keeps size records.get?) (calm : index.queue = []) :
    index.Lockstep records := by
  have keeps : index.tree.Keeps size records.get? := by
    have tree := shown.tree
    rw [calm, visible_nil] at tree
    exact tree
  have stored (key : Key) : key ∈ index.tree.partition.items ↔ records.contains key = true := by
    rw [keeps.places.mem_items, Pool.contains_iff]
    constructor
    · rintro ⟨address, placed⟩
      obtain ⟨record, known, -⟩ := Option.bind_eq_some_iff.mp placed
      exact ⟨record, known⟩
    · rintro ⟨record, known⟩
      obtain ⟨box, -, placed⟩ := keeps.holds.placement_eq known
      exact ⟨_, placed⟩
  refine ⟨calm, fun key => ?_, fun {key record} known => ?_⟩
  · rw [keeps.places.items_nodup.count]
    simp only [stored]
  · obtain ⟨box, read, placed⟩ := keeps.holds.placement_eq known
    obtain ⟨node, content, present, held, inserts⟩ := keeps.places.insert_beside
      (World.Tree.recordBox_valid keeps.reads.positive read) placed
    exact ⟨box, node, content, read, present, held, inserts⟩

/-- The indices of a storage in step hold the records as they are. -/
theorem Storage.InStep.lockstep {storage : Storage α} (inStep : storage.InStep) {own : Key}
    {member : Storage.Member α} (found : storage.indices.get? own = some member) :
    member.index.Lockstep storage.records :=
  (inStep.keeps.shown found).lockstep (inStep.calm found)

namespace Session

/-- In every state of every session in which no writer is open, every index holds the records as
they are. -/
theorem lockstep_of_idle {spec : LayoutSpec} {layout : Layout}
    (computed : Layout.ofSpec spec = .ok layout)
    (config : Config) (journal : Journal) (requests : List Request) {own : Key}
    {member : Storage.Member α}
    (idle : ((start layout config journal : Session α).run requests).storage.writers = 0)
    (found : ((start layout config journal : Session α).run requests).storage.indices.get? own =
      some member) :
    member.index.Lockstep
      ((start layout config journal : Session α).run requests).storage.records :=
  (((start_sound computed config journal).run requests).inStep idle).lockstep found

/-- An edit cursor moves one record across the line, deletes another and is closed. -/
def Sample.edits : List Request :=
  [.call (.createIndex [line]), .call (.insert [1, 1]), .call (.insert [2, 3]),
    .call (.insert [6, 6]), .edit ⟨1, 0⟩ (between 0 3), .change (Edit.copy [6, 7]), .leave, .erase,
    .drop]

/-- The session after these edits. -/
def Sample.edited : Session Float :=
  (start Sample.layout .standard Sample.journal).run Sample.edits

/-- The index is in lockstep after the edits. -/
theorem lockstep_after_edits : ∃ member,
    Sample.edited.storage.indices.get? ⟨1, 0⟩ = some member ∧
      member.index.Lockstep Sample.edited.storage.records := by
  have there : (Sample.edited.storage.indices.get? ⟨1, 0⟩).isSome := by decide +kernel
  obtain ⟨member, found⟩ := Option.isSome_iff_exists.mp there
  refine ⟨member, found, ?_⟩
  unfold Sample.edited at found ⊢
  refine lockstep_of_idle Sample.layout_computed .standard Sample.journal Sample.edits ?_ found
  decide +kernel

end Session

end SpatialIndex
