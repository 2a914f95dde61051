import SpatialIndex.Proofs.Arithmetic.Exact
import SpatialIndex.Proofs.Partition.Reached

/-!
# The representation of a tree

What every tree looks like that a run can reach: which nodes its pool holds, how they hang
together, where their centers lie, and which items they hold. A node is there because something
lies in its cube that no smaller cube of a node holds whole; the arithmetic of the centers stays
inside the border on all levels.
-/
namespace SpatialIndex.Partition

variable {α R : Type} {D : Nat} {border : Nat}

namespace Linked

variable {nodes : Pool (Node R D)}

/-- The nodes of the pool are those that links reach from the root. -/
theorem present_iff_located (linked : Linked border nodes) (key : Key) :
    (∃ node, nodes.get? key = some node) ↔ ∃ address, locate nodes address = some key :=
  ⟨fun ⟨_, found⟩ => linked.located found, fun ⟨_, located⟩ => linked.present located⟩

/-- A child hangs below the address of its parent. -/
theorem located_child (linked : Linked border nodes) {parent key : Key} {corner : Corner D}
    (taken : child? nodes parent corner = some key) :
    ∃ above, locate nodes above = some parent ∧ locate nodes (corner :: above) = some key := by
  have held := taken
  rw [child?, Option.bind_eq_some_iff] at held
  obtain ⟨node, found, -⟩ := held
  obtain ⟨above, upper⟩ := linked.located found
  exact ⟨above, upper, by rw [locate_cons upper, taken]⟩

/-- The root is the child of no node. -/
theorem child?_ne_root (linked : Linked border nodes) (parent : Key) (corner : Corner D) :
    child? nodes parent corner ≠ some root := by
  intro taken
  obtain ⟨above, -, located⟩ := linked.located_child taken
  have same := linked.unique located (show locate nodes [] = some root from rfl)
  cases same

/-- Every other node is the child of one node, in one corner. -/
theorem existsUnique_slot (linked : Linked border nodes) {key : Key} (other : key ≠ root)
    (present : ∃ node, nodes.get? key = some node) :
    ∃! slot : Key × Corner D, child? nodes slot.1 slot.2 = some key := by
  obtain ⟨address, located⟩ := (linked.present_iff_located key).mp present
  cases address with
  | nil => exact absurd (Option.some.inj located).symm other
  | cons corner above =>
    obtain ⟨parent, upper⟩ := located_of_suffix located (List.suffix_cons corner above)
    refine ⟨(parent, corner), (locate_cons upper corner).symm.trans located, ?_⟩
    rintro ⟨second, elsewhere⟩ taken
    obtain ⟨place, there, below⟩ := linked.located_child taken
    obtain ⟨rfl, rfl⟩ := List.cons.inj (linked.unique below located)
    exact Prod.ext (Option.some.inj (there.symm.trans upper)) rfl

/-- The center of a child lies a quarter of the parent's width away from that of the parent. -/
theorem center_child (linked : Linked border nodes) (legal : Legal border) {address : Address D}
    {key child : Key} {node held : Node R D} {corner : Corner D}
    (located : locate nodes address = some key) (found : nodes.get? key = some node)
    (taken : node.child? corner = some child) (holds : nodes.get? child = some held) (d : Fin D) :
    if corner.getLsbD d then
      held.center.get d = node.center.get d + border / 2 ^ (address.length + 2)
    else held.center.get d + border / 2 ^ (address.length + 2) = node.center.get d := by
  have below : locate nodes (corner :: address) = some child := by
    rw [locate_child located found, taken]
  have room := (Address.step_le_center legal (linked.shallow located) d).2.1
  have shifted : held.center.get d = if corner.getLsbD d then
      (Address.center border address).get d + border / 2 ^ (address.length + 2)
    else (Address.center border address).get d - border / 2 ^ (address.length + 2) := by
    rw [linked.center below holds]
    exact Vector.getElem_ofFn d.isLt
  rw [linked.center located found, shifted]
  split
  · rfl
  · exact Nat.sub_add_cancel room

end Linked

namespace Tree

/-- The nodes of a tree are what its border and the pairs that it stores make of them. -/
structure Represents (border : Nat) (tree : Tree R D) (live : Multiset (R × Box D)) : Prop where
  /-- The border is the one that was asked for. -/
  border_eq : tree.border = border
  /-- The nodes of the pool are those that links reach from the root. -/
  reached : ∀ key, (∃ node, tree.nodes.get? key = some node) ↔
    ∃ address, locate tree.nodes address = some key
  /-- The root is the child of no node. -/
  top : ∀ parent corner, child? tree.nodes parent corner ≠ some root
  /-- Every other node is the child of one node, in one corner. -/
  slot : ∀ key, key ≠ root → (∃ node, tree.nodes.get? key = some node) →
    ∃! slot : Key × Corner D, child? tree.nodes slot.1 slot.2 = some key
  /-- There are no children but those of corners, which the type of a node carries: it has one slot
  for each corner. They are counted. -/
  counted : ∀ key node, tree.nodes.get? key = some node →
    (∀ index, 2 ^ D ≤ index → node.children[index]? = none) ∧
      node.childCount = node.children.countP Option.isSome
  /-- Every node lies on a level of the tree, and its center is the midpoint of its cube. -/
  center : ∀ address key node, locate tree.nodes address = some key →
    tree.nodes.get? key = some node → address.length < levelCount border ∧
      ∀ d : Fin D,
        node.center.get d = (address.cube border).low.get d + address.width border / 2 ∧
          node.center.get d + address.width border / 2 = (address.cube border).high.get d + 1
  /-- The distance to the centers of children is not zero, and leads neither below zero nor up to
  the border. -/
  room : ∀ address key node, locate tree.nodes address = some key →
    tree.nodes.get? key = some node → ∀ d : Fin D,
      0 < border / 2 ^ (address.length + 2) ∧
        border / 2 ^ (address.length + 2) ≤ node.center.get d ∧
        node.center.get d + border / 2 ^ (address.length + 2) < border
  /-- The centers of children lie at that distance, nothing being cut off. -/
  shifted : ∀ address key node corner child held, locate tree.nodes address = some key →
    tree.nodes.get? key = some node → node.child? corner = some child →
    tree.nodes.get? child = some held → ∀ d : Fin D,
      if corner.getLsbD d then
        held.center.get d = node.center.get d + border / 2 ^ (address.length + 2)
      else held.center.get d + border / 2 ^ (address.length + 2) = node.center.get d
  /-- No node but the root is without items and children. -/
  tidy : ∀ key node, tree.nodes.get? key = some node → node.items = #[] → node.childCount = 0 →
    key = root
  /-- The items of every node are those that their boxes lead there. -/
  items : ∀ address,
    (itemsAt tree.nodes address : Multiset R) = ledTo border live address
  /-- A box leads along the corners that hold it, to the smallest cube around it that a node can
  have. -/
  deepest : ∀ item box, (item, box) ∈ live →
    (∃ key, locate tree.nodes (box.address border) = some key) ∧
      box.Follows border (box.address border) ∧
      (box.address border).length < levelCount border ∧
      box.Within ((box.address border).cube border) ∧
      ∀ other : Address D, other.length < levelCount border → box.Within (other.cube border) →
        other <:+ box.address border

end Tree

variable [Arithmetic α] [DecidableEq R] {tree : Tree R D} {walks : List (Walk α D)}
  {live : Multiset (R × Box D)}

/-- Every tree that a run can reach has the representation that its contents demand. -/
theorem Reached.represents (reached : Reached border tree walks live) :
    tree.Represents border live := by
  obtain ⟨rfl, stores, -⟩ := reached.kept
  have linked := stores.sound.linked
  exact {
    border_eq := rfl
    reached := linked.present_iff_located
    top := linked.child?_ne_root
    slot := fun key other present => linked.existsUnique_slot other present
    counted := fun key node found =>
      ⟨fun index beyond => Vector.getElem?_eq_none beyond, linked.counted found⟩
    center := by
      intro address key node located found
      rw [linked.center located found]
      exact ⟨linked.shallow located, Address.center_midpoint stores.legal (linked.shallow located)⟩
    room := by
      intro address key node located found
      rw [linked.center located found]
      exact Address.step_le_center stores.legal (linked.shallow located)
    shifted := fun address key node corner child held located found taken holds =>
      linked.center_child stores.legal located found taken holds
    tidy := fun key node found empty childless =>
      stores.sound.eq_root_of_empty found empty childless
    items := stores.items
    deepest := by
      intro item box member
      obtain ⟨level, inside, smallest⟩ := Box.address_spec stores.legal (stores.valid member)
      refine ⟨?_, box.address_follows _, level, inside, smallest⟩
      exact located_of_mem_itemsAt (stores.mem_items.mpr ⟨box, member, rfl⟩) }

/-- After an item was put into a corner and one into the root, a walk removes the first; the node in
the corner is gone then. -/
theorem represents_after_removal :
    ∃ (tree : Tree Nat 2) (walks : List (Walk Exact 2)) (live : Multiset (Nat × Box 2)),
      Reached 8 tree walks live ∧ live = {(9, ⟨#v[0, 0], #v[7, 7]⟩)} ∧ tree.nodeCount = 1 ∧
        tree.Represents 8 live := by
  have placed : Reached 8 _ ([] : List (Walk Exact 2))
      ((9, (⟨#v[0, 0], #v[7, 7]⟩ : Box 2)) ::ₘ (7, ⟨#v[0, 0], #v[0, 0]⟩) ::ₘ 0) :=
    .insert (.insert (.create rfl) (by decide) rfl) (by decide) rfl
  have walked := (placed.startBox (by decide : (⟨#v[0, 0], #v[0, 0]⟩ : Box 2).Valid 8) rfl).advance
    (List.mem_cons_self) rfl
  have removed := walked.remove (List.mem_cons_self) rfl (rfl : #[7][0]? = some 7)
    (by decide : (7, ⟨#v[0, 0], #v[0, 0]⟩) ∈ _) rfl rfl
  exact ⟨_, _, _, removed, by decide, rfl, removed.represents⟩

end SpatialIndex.Partition
