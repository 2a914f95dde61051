import Mathlib.Data.Multiset.Filter
import SpatialIndex.Proofs.Partition.Cube
import SpatialIndex.Proofs.Partition.Walk

/-!
# Contents of trees

What a tree stores is a multiset of pairs: each is an item with the box it was inserted with. The
box of a pair leads to one address, and the items there are exactly those of the pairs led there.
Every mutation keeps this relation while it adds a pair, takes one away or takes away all; none of
them fails on a valid box, on a pair that is stored, or at an item of the current node of a walk.
-/
namespace SpatialIndex.Partition

variable {α R : Type} {D : Nat}

/-- The items of the pairs whose boxes lead to an address. -/
def ledTo (border : Nat) (live : Multiset (R × Box D)) (address : Address D) : Multiset R :=
  (live.filter fun pair => pair.2.address border = address).map Prod.fst

section LedTo

variable {border : Nat} {live : Multiset (R × Box D)} {address : Address D}

/-- No items lead nowhere. -/
@[simp] theorem ledTo_zero : ledTo border (0 : Multiset (R × Box D)) address = 0 := rfl

/-- One more item counts only at the address to which its box leads. -/
theorem ledTo_cons (item : R) (box : Box D) :
    ledTo border ((item, box) ::ₘ live) address =
      if box.address border = address then item ::ₘ ledTo border live address
      else ledTo border live address := by
  unfold ledTo
  rw [Multiset.filter_cons]
  by_cases leads : box.address border = address
  · simp [leads]
  · simp [leads]

/-- An item is led to an address by one of its boxes. -/
theorem mem_ledTo {item : R} :
    item ∈ ledTo border live address ↔ ∃ box, (item, box) ∈ live ∧ box.address border = address := by
  simp [ledTo]

/-- A pair that is taken away is missed where its box leads, and nowhere else. -/
theorem ledTo_erase [DecidableEq R] {item : R} {box : Box D} (held : (item, box) ∈ live) :
    ledTo border live address =
      if box.address border = address then item ::ₘ ledTo border (live.erase (item, box)) address
      else ledTo border (live.erase (item, box)) address := by
  conv_lhs => rw [← Multiset.cons_erase held]
  exact ledTo_cons item box

end LedTo

namespace Tree

/-- A tree stores exactly the live pairs, every item where its box leads. -/
structure Stores (tree : Tree R D) (live : Multiset (R × Box D)) : Prop where
  /-- The tree has axes. -/
  axes : 1 ≤ D ∧ D ≤ Limits.dimensions
  /-- The border is one that a tree can have. -/
  legal : Legal tree.border
  /-- The tree is between two mutations. -/
  sound : tree.Sound
  /-- No box is inverted or reaches over the border. -/
  valid : ∀ {item box}, (item, box) ∈ live → box.Valid tree.border
  /-- The items at an address are those led there. -/
  items : ∀ address, (itemsAt tree.nodes address : Multiset R) = ledTo tree.border live address

section Contents

variable {tree changed : Tree R D} {live : Multiset (R × Box D)}

/-- An item is stored where a box of it leads. -/
theorem Stores.mem_items (stores : tree.Stores live) {address : Address D} {item : R} :
    item ∈ itemsAt tree.nodes address ↔
      ∃ box, (item, box) ∈ live ∧ box.address tree.border = address := by
  rw [← Multiset.mem_coe, stores.items, mem_ledTo]

/-- A tree is made exactly for axes and a border inside the limits. -/
theorem exists_create (axes : 1 ≤ D ∧ D ≤ Limits.dimensions) {border : Nat}
    (legal : Legal border) : ∃ tree : Tree R D, create border = .ok tree := by
  unfold create
  rw [if_neg (not_not_intro axes), if_neg (not_not_intro legal.shape),
    if_neg (not_not_intro legal.range)]
  exact ⟨_, rfl⟩

/-- A new tree stores nothing. -/
theorem Stores.of_create {border : Nat} (created : create border = .ok tree) :
    tree.border = border ∧ tree.Stores 0 := by
  obtain ⟨same, axes, shape, range, places⟩ := create_spec created
  refine ⟨same, axes, same ▸ ⟨shape, range⟩, places.sound, fun absurd => by simp at absurd, ?_⟩
  intro address
  rw [ledTo_zero, Multiset.coe_eq_zero]
  refine List.eq_nil_iff_forall_not_mem.mpr fun item member => ?_
  have nowhere := (places.stored address item).mp member
  cases nowhere

/-- One more item where its box leads is one more pair. -/
theorem Stores.grow (stores : tree.Stores live) (sound : changed.Sound)
    (border : changed.border = tree.border) {item : R} {box : Box D}
    (valid : box.Valid tree.border)
    (items : ∀ other, itemsAt changed.nodes other =
      if other = box.address tree.border then itemsAt tree.nodes other ++ [item]
      else itemsAt tree.nodes other) :
    changed.Stores ((item, box) ::ₘ live) := by
  refine ⟨stores.axes, border ▸ stores.legal, sound, ?_, ?_⟩
  · intro other shape member
    rw [border]
    rcases Multiset.mem_cons.mp member with same | former
    · rw [(Prod.mk.inj same).2]
      exact valid
    · exact stores.valid former
  · intro address
    rw [border, ledTo_cons, ← stores.items, items]
    by_cases here : address = box.address tree.border
    · rw [if_pos here, if_pos here.symm, ← Multiset.coe_add, add_comm]
      rfl
    · rw [if_neg here, if_neg (Ne.symm here)]

section Taking

variable [DecidableEq R]

/-- One item less where a box of it leads is one pair less. -/
theorem Stores.shrink (stores : tree.Stores live) (sound : changed.Sound)
    (border : changed.border = tree.border) {item : R} {box : Box D} (held : (item, box) ∈ live)
    (here : (item :: itemsAt changed.nodes (box.address tree.border)).Perm
      (itemsAt tree.nodes (box.address tree.border)))
    (elsewhere : ∀ other, other ≠ box.address tree.border →
      itemsAt changed.nodes other = itemsAt tree.nodes other) :
    changed.Stores (live.erase (item, box)) := by
  refine ⟨stores.axes, border ▸ stores.legal, sound, ?_, ?_⟩
  · intro other shape member
    rw [border]
    exact stores.valid (Multiset.mem_of_mem_erase member)
  · intro address
    have former := stores.items address
    rw [ledTo_erase held] at former
    rw [border]
    by_cases leads : box.address tree.border = address
    · subst leads
      rw [if_pos rfl, ← Multiset.coe_eq_coe.mpr here, ← Multiset.cons_coe] at former
      exact (Multiset.cons_inj_right item).mp former
    · rw [if_neg leads] at former
      rw [elsewhere address (Ne.symm leads), former]

end Taking

/-! ## The operations -/

/-- Inserting with a valid box succeeds, and stores one more pair. -/
theorem Stores.insert (stores : tree.Stores live) (item : R) {box : Box D}
    (valid : box.Valid tree.border) :
    ∃ changed, Tree.insert item box tree = .ok () changed ∧ changed.border = tree.border ∧
      changed.epoch = tree.epoch + 1 ∧ changed.Stores ((item, box) ::ₘ live) := by
  obtain ⟨nodes, run, linked, tidy, -, items⟩ := inserted_spec stores.sound item box
  have accepted : tree.accept box = .ok () := if_pos valid
  have sound : Sound { tree.touch with nodes } := ⟨linked, tidy⟩
  exact ⟨_, insert_eq accepted run, rfl, rfl, stores.grow sound rfl valid items⟩

/-- Erasing an item with a valid box that leads where a box of it led succeeds, and takes one of
its pairs away. -/
theorem Stores.erase [DecidableEq R] (stores : tree.Stores live) {item : R} {box held : Box D}
    (valid : box.Valid tree.border) (member : (item, held) ∈ live)
    (leads : held.address tree.border = box.address tree.border) :
    ∃ changed, Tree.erase item box tree = .ok () changed ∧ changed.border = tree.border ∧
      changed.epoch = tree.epoch + 1 ∧ changed.Stores (live.erase (item, held)) := by
  have stored := stores.mem_items.mpr ⟨held, member, leads⟩
  obtain ⟨nodes, run, linked, tidy, here, -, elsewhere, -⟩ := erased_spec stores.sound stored
  have accepted : tree.accept box = .ok () := if_pos valid
  rw [← leads] at here elsewhere
  have sound : Sound { tree.touch with nodes } := ⟨linked, tidy⟩
  exact ⟨_, erase_eq accepted run, rfl, rfl, stores.shrink sound rfl member here elsewhere⟩

/-- A cleared tree stores nothing. -/
theorem Stores.clear (stores : tree.Stores live) : tree.clear.Stores 0 := by
  obtain ⟨formed, only⟩ := stores.sound.clear_single
  obtain ⟨linked, tidy, empty⟩ := single_spec formed only
  refine ⟨stores.axes, stores.legal, ⟨linked, tidy⟩, fun absurd => by simp at absurd, ?_⟩
  intro address
  rw [empty, ledTo_zero, Multiset.coe_nil]

/-- Removing an item of the node where a walk stands takes one of the pairs away that lead
there. -/
theorem Stores.remove [DecidableEq R] (stores : tree.Stores live) {address : Address D}
    {position : Nat} {item : R} {box : Box D}
    (removes : Walk.Removes tree changed address position item) (member : (item, box) ∈ live)
    (leads : box.address tree.border = address) : changed.Stores (live.erase (item, box)) := by
  subst leads
  exact stores.shrink removes.sound removes.border member removes.here removes.elsewhere

end Contents

end Tree

end SpatialIndex.Partition
