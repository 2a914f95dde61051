import SpatialIndex.Proofs.Partition.Address
import SpatialIndex.Proofs.Pool
import Mathlib.Tactic.Choose

/-!
# Links between nodes

The nodes of a partition hang together by the children of each node. `locate` follows these links
from the root along an address. In a linked pool every node has exactly one address, and its
center and its count of children are what the address and the links say. Taking a child into an
empty corner, and releasing a vacant child, change `locate` at one address only.
-/
namespace SpatialIndex.Partition

variable {R : Type} {D : Nat}

/-! ## Children of one node -/

namespace Node

/-- The child at a corner stands in the slot with the number of the corner. -/
theorem child?_eq_getElem (node : Node R D) (corner : Corner D) :
    node.child? corner = node.children[corner.toFin] := rfl

/-- Only the corner of a new child changes. -/
theorem child?_adopt (node : Node R D) (corner other : Corner D) (child : Key) :
    (node.adopt corner child).child? other =
      if other = corner then some child else node.child? other := by
  simp only [child?_eq_getElem, adopt]
  by_cases same : other = corner
  · subst same
    simp
  · have places : corner.toNat ≠ other.toNat := fun equal => same (BitVec.eq_of_toNat_eq equal.symm)
    rw [if_neg same]
    exact Vector.getElem_set_ne _ _ places

/-- Only the corner of a child given away changes. -/
theorem child?_abandon (node : Node R D) (corner other : Corner D) :
    (node.abandon corner).child? other = if other = corner then none else node.child? other := by
  simp only [child?_eq_getElem, abandon]
  by_cases same : other = corner
  · subst same
    simp
  · have places : corner.toNat ≠ other.toNat := fun equal => same (BitVec.eq_of_toNat_eq equal.symm)
    rw [if_neg same]
    exact Vector.getElem_set_ne _ _ places

/-- The count of children is the count of occupied corners. -/
def Counted (node : Node R D) : Prop := node.childCount = node.children.countP Option.isSome

/-- A vacant node has no child at any corner. -/
theorem child?_vacant (center : Cell D) (corner : Corner D) :
    (vacant center : Node R D).child? corner = none := by
  simp [vacant, child?_eq_getElem]

/-- A vacant node counts its children rightly: it has none. -/
theorem counted_vacant (center : Cell D) : (vacant center : Node R D).Counted := by
  simp [Counted, vacant, Vector.countP_replicate]

/-- A node that adopts a child at a free corner counts it. -/
theorem Counted.adopt {node : Node R D} (counted : node.Counted) {corner : Corner D} (child : Key)
    (free : node.child? corner = none) : (node.adopt corner child).Counted := by
  unfold Counted at *
  simp only [child?_eq_getElem, Fin.getElem_fin, BitVec.val_toFin] at free
  simp only [Node.adopt, Vector.countP_set]
  simp [free, counted]

/-- A node that abandons a child no longer counts it. -/
theorem Counted.abandon {node : Node R D} (counted : node.Counted) {corner : Corner D} {child : Key}
    (taken : node.child? corner = some child) : (node.abandon corner).Counted := by
  unfold Counted at *
  simp only [child?_eq_getElem, Fin.getElem_fin, BitVec.val_toFin] at taken
  simp only [Node.abandon, Vector.countP_set]
  simp [taken, counted]

/-- A vacant node has no children. -/
theorem Counted.child?_eq_none {node : Node R D} (counted : node.Counted)
    (nothing : node.isVacant = true) (corner : Corner D) : node.child? corner = none := by
  unfold isVacant at nothing
  unfold Counted at counted
  simp only [Bool.and_eq_true, beq_iff_eq] at nothing
  rw [nothing.2] at counted
  have empty := Vector.countP_eq_zero.mp counted.symm
  rw [child?_eq_getElem]
  have member : node.children[corner.toFin] ∈ node.children := Vector.getElem_mem corner.isLt
  simpa using empty _ member

/-- A node that counts children has one. -/
theorem Counted.exists_child {node : Node R D} (counted : node.Counted)
    (some_child : node.childCount ≠ 0) : ∃ corner child, node.child? corner = some child := by
  unfold Counted at counted
  have positive : 0 < node.children.countP Option.isSome := by omega
  obtain ⟨link, member, taken⟩ := Vector.countP_pos_iff.mp positive
  obtain ⟨index, within, rfl⟩ := Vector.getElem_of_mem member
  obtain ⟨child, held⟩ := Option.isSome_iff_exists.mp taken
  exact ⟨BitVec.ofFin ⟨index, within⟩, child, held⟩

/-- A node with a child is not vacant. -/
theorem Counted.isVacant_eq_false {node : Node R D} (counted : node.Counted) {corner : Corner D}
    {child : Key} (taken : node.child? corner = some child) : node.isVacant = false := by
  cases nothing : node.isVacant with
  | false => rfl
  | true => rw [counted.child?_eq_none nothing] at taken; simp at taken

end Node

/-! ## Nodes by address -/

/-- The child of a node in a corner. -/
def child? (nodes : Pool (Node R D)) (key : Key) (corner : Corner D) : Option Key :=
  (nodes.get? key).bind fun node => node.child? corner

/-- The key to which the links lead along an address. -/
def locate (nodes : Pool (Node R D)) : Address D → Option Key
  | [] => some root
  | corner :: above => (locate nodes above).bind fun key => child? nodes key corner

/-- The node at an address. -/
def nodeAt (nodes : Pool (Node R D)) (address : Address D) : Option (Node R D) :=
  (locate nodes address).bind nodes.get?

/-- The items of the node at an address; none where there is no node. -/
def itemsAt (nodes : Pool (Node R D)) (address : Address D) : List R :=
  ((nodeAt nodes address).map fun node => node.items.toList).getD []

/-- The child at a corner of a key is the one of the node under that key. -/
theorem child?_of_get? {nodes : Pool (Node R D)} {key : Key} {node : Node R D}
    (found : nodes.get? key = some node) (corner : Corner D) :
    child? nodes key corner = node.child? corner := by
  rw [child?, found, Option.bind_some]

/-- The last corner of an address leads from the node above to its child there. -/
theorem locate_cons {nodes : Pool (Node R D)} {above : Address D} {key : Key}
    (located : locate nodes above = some key) (corner : Corner D) :
    locate nodes (corner :: above) = child? nodes key corner := by
  rw [locate, located, Option.bind_some]

/-- The addresses below a node are those of its children. -/
theorem locate_child {nodes : Pool (Node R D)} {above : Address D} {key : Key} {node : Node R D}
    (located : locate nodes above = some key) (found : nodes.get? key = some node)
    (corner : Corner D) : locate nodes (corner :: above) = node.child? corner := by
  rw [locate_cons located, child?_of_get? found]

/-- Every address above a located one is located. -/
theorem located_of_suffix {nodes : Pool (Node R D)} {address above : Address D} {key : Key}
    (located : locate nodes address = some key) (suffix : above <:+ address) :
    ∃ parent, locate nodes above = some parent := by
  induction address generalizing key with
  | nil =>
    rw [List.suffix_nil.mp suffix]
    exact ⟨key, located⟩
  | cons corner rest ih =>
    rcases List.suffix_cons_iff.mp suffix with rfl | shorter
    · exact ⟨key, located⟩
    · rw [locate, Option.bind_eq_some_iff] at located
      obtain ⟨parent, upper, -⟩ := located
      exact ih upper shorter

/-- The items at an address are those of the node there. -/
theorem itemsAt_of_get? {nodes : Pool (Node R D)} {address : Address D} {key : Key}
    {node : Node R D} (located : locate nodes address = some key)
    (found : nodes.get? key = some node) : itemsAt nodes address = node.items.toList := by
  simp [itemsAt, nodeAt, located, found]

/-- There are no items at an address without a node. -/
theorem itemsAt_of_locate_eq_none {nodes : Pool (Node R D)} {address : Address D}
    (missing : locate nodes address = none) : itemsAt nodes address = [] := by
  simp [itemsAt, nodeAt, missing]

/-- Items are only where a node is. -/
theorem located_of_mem_itemsAt {nodes : Pool (Node R D)} {address : Address D} {item : R}
    (stored : item ∈ itemsAt nodes address) : ∃ key, locate nodes address = some key := by
  cases located : locate nodes address with
  | none =>
    rw [itemsAt_of_locate_eq_none located] at stored
    cases stored
  | some key => exact ⟨key, rfl⟩

/-- Links determine where addresses lead. -/
theorem locate_congr {nodes changed : Pool (Node R D)}
    (links : ∀ key corner, child? changed key corner = child? nodes key corner)
    (address : Address D) : locate changed address = locate nodes address := by
  induction address with
  | nil => rfl
  | cons corner above ih => simp only [locate, ih, links]

/-- One link, below which neither before nor after anything hangs, matters for one address. -/
theorem locate_relink {nodes changed : Pool (Node R D)} {address : Address D} {key : Key}
    {corner : Corner D} {link : Option Key}
    (links : ∀ k c, child? changed k c = if k = key ∧ c = corner then link else child? nodes k c)
    (located : locate nodes address = some key)
    (unique : ∀ other, locate nodes other = some key → other = address)
    (before : ∀ k, child? nodes key corner = some k → ∀ c, child? nodes k c = none)
    (after : ∀ k, link = some k → ∀ c, child? changed k c = none) (other : Address D) :
    locate changed other = if other = corner :: address then link else locate nodes other := by
  induction other with
  | nil => simp [locate]
  | cons c above ih =>
    by_cases below : above = corner :: address
    · have different : c :: above ≠ corner :: address := by
        intro same
        have lengths := congrArg List.length same
        rw [below] at lengths
        simp at lengths
      rw [if_pos below] at ih
      rw [if_neg different]
      have former : locate nodes (c :: above) = none := by
        rw [locate, below, locate_cons located]
        cases taken : child? nodes key corner with
        | none => rfl
        | some k => exact before k taken c
      rw [former, locate, ih]
      cases taken : link with
      | none => rfl
      | some k => exact after k taken c
    · rw [if_neg below] at ih
      rw [locate, ih, locate]
      cases reached : locate nodes above with
      | none =>
        have different : c :: above ≠ corner :: address := by
          intro same
          rw [(List.cons.inj same).2, located] at reached
          simp at reached
        simp [different]
      | some k =>
        rw [Option.bind_some, Option.bind_some, links]
        by_cases here : k = key ∧ c = corner
        · obtain ⟨rfl, rfl⟩ := here
          rw [unique above reached, if_pos ⟨rfl, rfl⟩, if_pos rfl]
        · have different : c :: above ≠ corner :: address := by
            intro same
            obtain ⟨rfl, rfl⟩ := List.cons.inj same
            rw [located] at reached
            exact here ⟨(Option.some.inj reached).symm, rfl⟩
          rw [if_neg here, if_neg different]

/-- The nodes of a pool hang together as a tree of a border. -/
structure Linked (border : Nat) (nodes : Pool (Node R D)) : Prop where
  /-- Fresh keys are fresh. -/
  formed : nodes.WellFormed
  /-- Every node has an address. -/
  located : ∀ {key node}, nodes.get? key = some node → ∃ address, locate nodes address = some key
  /-- No link leads nowhere. -/
  present : ∀ {address key}, locate nodes address = some key → ∃ node, nodes.get? key = some node
  /-- A node has one address only. -/
  unique : ∀ {first second key}, locate nodes first = some key → locate nodes second = some key →
    first = second
  /-- The address determines the center. -/
  center : ∀ {address key node}, locate nodes address = some key → nodes.get? key = some node →
    node.center = Address.center border address
  /-- Nodes lie on the levels of the border. -/
  shallow : ∀ {address key}, locate nodes address = some key → address.length < levelCount border
  /-- The counts of children are right. -/
  counted : ∀ {key node}, nodes.get? key = some node → node.Counted

namespace Linked

variable {R : Type} {D : Nat} {border : Nat} {nodes : Pool (Node R D)}

/-- There are no more addresses of nodes than nodes. -/
theorem exists_addresses (linked : Linked border nodes) :
    ∃ addresses : List (Address D), addresses.length = nodes.size ∧
      ∀ address key, locate nodes address = some key → address ∈ addresses := by
  have known : ∀ key : Key, ∃ address : Address D, key ∈ nodes.keys →
      locate nodes address = some key := by
    intro key
    by_cases member : key ∈ nodes.keys
    · obtain ⟨node, found⟩ := (Pool.mem_keys _ _).mp member
      obtain ⟨address, located⟩ := linked.located found
      exact ⟨address, fun _ => located⟩
    · exact ⟨[], fun absurd => (member absurd).elim⟩
  choose address located using known
  refine ⟨nodes.keys.map address, ?_, ?_⟩
  · rw [List.length_map, Pool.keys, List.length_map]
    rfl
  · intro other key found
    obtain ⟨node, present⟩ := linked.present found
    have member := (Pool.mem_keys _ _).mpr ⟨node, present⟩
    rw [linked.unique found (located key member)]
    exact List.mem_map_of_mem member

end Linked

/-- Vacant nodes are found at the root and at one address only. -/
def VacantOnlyAt (nodes : Pool (Node R D)) (address : Address D) : Prop :=
  ∀ {other key node}, locate nodes other = some key → nodes.get? key = some node →
    node.isVacant = true → other = [] ∨ other = address

end SpatialIndex.Partition
