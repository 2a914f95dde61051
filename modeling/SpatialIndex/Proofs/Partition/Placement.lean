import Mathlib.Logic.Function.Basic
import SpatialIndex.Proofs.Partition.Mutation

/-!
# Placements

A tree that stores no item twice is a finite map from items to addresses. Insertion and removal
update this map at one item; they succeed exactly on the terms of the map, and never leave the
tree unsound.
-/
namespace SpatialIndex.Partition

variable {R : Type} {D : Nat} {border : Nat} {nodes : Pool (Node R D)}

namespace Tree

/-- A tree stores exactly the items that have an address, each once and there. -/
structure Places (tree : Tree R D) (place : R → Option (Address D)) : Prop where
  /-- The tree is between two mutations. -/
  sound : tree.Sound
  /-- No item is stored twice at one address. -/
  once : ∀ address, (itemsAt tree.nodes address).Nodup
  /-- An item is stored at its own address only. -/
  stored : ∀ address item, item ∈ itemsAt tree.nodes address ↔ place item = some address

/-- A pool with one vacant root is linked and holds nothing. -/
theorem single_spec (formed : nodes.WellFormed)
    (only : ∀ key, nodes.get? key =
      if key = root then some (Node.vacant (Address.center border [])) else none) :
    Linked border nodes ∧ VacantOnlyAt nodes [] ∧ ∀ address, itemsAt nodes address = [] := by
  have childless (key : Key) (corner : Corner D) : child? nodes key corner = none := by
    rw [child?, only]
    by_cases same : key = root
    · rw [if_pos same, Option.bind_some, Node.child?_vacant]
    · rw [if_neg same, Option.bind_none]
  have nowhere (corner : Corner D) (above : Address D) :
      locate nodes (corner :: above) = none := by
    rw [locate]
    cases locate nodes above with
    | none => rfl
    | some key => exact childless key corner
  have atRoot {address : Address D} {key : Key} (located : locate nodes address = some key) :
      address = [] ∧ key = root := by
    cases address with
    | nil => exact ⟨rfl, (Option.some.inj located).symm⟩
    | cons corner above => rw [nowhere] at located; simp at located
  have isRoot {key : Key} {node : Node R D} (found : nodes.get? key = some node) :
      key = root ∧ node = Node.vacant (Address.center border []) := by
    rw [only] at found
    by_cases same : key = root
    · rw [if_pos same, Option.some.injEq] at found
      exact ⟨same, found.symm⟩
    · rw [if_neg same] at found
      simp at found
  refine ⟨⟨formed, ?_, ?_, ?_, ?_, ?_, ?_⟩, ?_, ?_⟩
  · intro key node found
    exact ⟨[], by rw [(isRoot found).1]; rfl⟩
  · intro address key located
    exact ⟨_, by rw [only, if_pos (atRoot located).2]⟩
  · intro first second key at₁ at₂
    rw [(atRoot at₁).1, (atRoot at₂).1]
  · intro address key node located found
    rw [(isRoot found).2, (atRoot located).1]
    rfl
  · intro address key located
    rw [(atRoot located).1]
    unfold levelCount Limits.levels
    rw [List.length_nil]
    omega
  · intro key node found
    rw [(isRoot found).2]
    exact Node.counted_vacant _
  · intro address key node located found nothing
    exact .inl (atRoot located).1
  · intro address
    cases address with
    | nil => simp [itemsAt, nodeAt, locate, only, Node.vacant]
    | cons corner above => exact itemsAt_of_locate_eq_none (nowhere corner above)

/-- A tree whose only node is a vacant root places nothing. -/
theorem Places.of_single {tree : Tree R D} (formed : tree.nodes.WellFormed)
    (only : ∀ key, tree.nodes.get? key =
      if key = root then some (Node.vacant (Address.center tree.border [])) else none) :
    tree.Places fun _ => none := by
  obtain ⟨linked, tidy, empty⟩ := single_spec formed only
  exact ⟨⟨linked, tidy⟩, fun address => by rw [empty]; exact List.nodup_nil,
    fun address item => by rw [empty]; simp⟩

/-- A new tree places nothing, and has the border asked for, which is inside the limits. -/
theorem create_spec {border : Nat} {tree : Tree R D} (created : create border = .ok tree) :
    tree.border = border ∧ (1 ≤ D ∧ D ≤ Limits.dimensions) ∧ 2 ^ border.log2 = border ∧
      (Limits.leastBorder ≤ border ∧ border ≤ Limits.greatestBorder) ∧
      tree.Places fun _ => none := by
  unfold create at created
  by_cases axes : 1 ≤ D ∧ D ≤ Limits.dimensions
  · by_cases shape : 2 ^ border.log2 = border
    · by_cases range : Limits.leastBorder ≤ border ∧ border ≤ Limits.greatestBorder
      · rw [if_neg (not_not_intro axes), if_neg (not_not_intro shape),
          if_neg (not_not_intro range), Except.ok.injEq] at created
        subst created
        refine ⟨rfl, axes, shape, range, .of_single ?_ ?_⟩
        · exact Pool.wellFormed_empty.insert _
        · intro key
          show (Pool.insert _ _).2.get? key = _
          rw [Pool.get?_insert Pool.wellFormed_empty, Pool.get?_empty]
          rfl
      · rw [if_neg (not_not_intro axes), if_neg (not_not_intro shape), if_pos range] at created
        simp at created
    · rw [if_neg (not_not_intro axes), if_pos shape] at created
      simp at created
  · rw [if_pos axes] at created
    simp at created

section Placed

variable {tree : Tree R D} {place : R → Option (Address D)}

/-! ## The actions on a tree -/

/-- What the state of a tree is. -/
private theorem get_tree (tree : Tree R D) :
    (get : Action (Tree R D) (Tree R D)) tree = .ok tree tree := rfl

/-- What becomes the state of a tree. -/
private theorem set_tree (tree next : Tree R D) :
    (set next : Action (Tree R D) PUnit) tree = .ok ⟨⟩ next := rfl

/-- Inserting with an accepted box stores the nodes that the insertion computes. -/
theorem insert_eq {item : R} {box : Box D} {nodes : Pool (Node R D)}
    (accepted : tree.accept box = .ok ()) (run : tree.inserted item box = .ok nodes) :
    Tree.insert item box tree = .ok () { tree.touch with nodes } := by
  simp only [Tree.insert, Action.ofExcept, accepted, run, bind, EStateM.bind, get_tree, set_tree]

/-- Erasing with an accepted box stores the nodes that the removal computes. -/
theorem erase_eq [DecidableEq R] {item : R} {box : Box D} {nodes : Pool (Node R D)}
    (accepted : tree.accept box = .ok ()) (run : tree.erased item box = .ok nodes) :
    Tree.erase item box tree = .ok () { tree.touch with nodes } := by
  simp only [Tree.erase, Action.ofExcept, accepted, run, bind, EStateM.bind, get_tree, set_tree]

/-- Inserting with a box that is not accepted changes nothing. -/
theorem insert_refused (item : R) {box : Box D} (invalid : ¬box.Valid tree.border) :
    Tree.insert item box tree = .error (.invalidBox box.shown tree.border) tree := by
  have refused : tree.accept box = .error (.invalidBox box.shown tree.border) := if_neg invalid
  simp only [Tree.insert, Action.ofExcept, refused, bind, EStateM.bind, get_tree]

/-- Erasing with a box that is not accepted changes nothing. -/
theorem erase_refused [DecidableEq R] (item : R) {box : Box D}
    (invalid : ¬box.Valid tree.border) :
    Tree.erase item box tree = .error (.invalidBox box.shown tree.border) tree := by
  have refused : tree.accept box = .error (.invalidBox box.shown tree.border) := if_neg invalid
  simp only [Tree.erase, Action.ofExcept, refused, bind, EStateM.bind, get_tree]

/-- Erasing with an accepted box what cannot be removed advances the epoch. -/
theorem erase_missing [DecidableEq R] {item : R} {box : Box D} {fault : Fault}
    (accepted : tree.accept box = .ok ()) (missing : tree.erased item box = .error fault) :
    Tree.erase item box tree = .error fault tree.touch := by
  simp only [Tree.erase, Action.ofExcept, accepted, missing, bind, EStateM.bind, get_tree, set_tree]

/-- A sound tree has a root. -/
theorem Sound.root_present (sound : tree.Sound) : ∃ node, tree.nodes.get? root = some node :=
  sound.linked.present (show locate tree.nodes [] = some root from rfl)

/-- The root has the center of the space. -/
theorem Sound.root_center (sound : tree.Sound) {node : Node R D}
    (found : tree.nodes.get? root = some node) :
    node.center = Address.center tree.border [] :=
  sound.linked.center (show locate tree.nodes [] = some root from rfl) found

/-- A cleared tree has one node, a vacant root. -/
theorem Sound.clear_single (sound : tree.Sound) :
    tree.clear.nodes.WellFormed ∧ ∀ key, tree.clear.nodes.get? key =
      if key = root then some (Node.vacant (Address.center tree.clear.border [])) else none := by
  obtain ⟨node, found⟩ := sound.root_present
  have center := sound.root_center found
  have kept : (tree.nodes.retain (· == root)).get? root = some node := by
    rw [Pool.get?_retain]
    simp [found]
  constructor
  · simp only [Tree.clear, kept]
    exact (sound.linked.formed.retain _).set _ _
  · intro key
    simp only [Tree.clear, kept]
    rw [Pool.get?_set, kept]
    by_cases same : key = root
    · rw [if_pos same, if_pos same, center]
      rfl
    · rw [if_neg same, if_neg same, Pool.get?_retain]
      simp [same]

/-- A tree from which all items are removed is sound. -/
theorem Sound.clear (sound : tree.Sound) : tree.clear.Sound := by
  obtain ⟨formed, only⟩ := sound.clear_single
  obtain ⟨linked, tidy, -⟩ := single_spec formed only
  exact ⟨linked, tidy⟩

/-- Clearing leaves nothing. -/
theorem Places.clear (places : tree.Places place) : tree.clear.Places fun _ => none := by
  obtain ⟨formed, only⟩ := places.sound.clear_single
  exact .of_single formed only

/-! ## All items -/

/-- The items of all nodes are those that have an address. -/
theorem Places.mem_items (places : tree.Places place) (item : R) :
    item ∈ tree.items ↔ ∃ address, place item = some address := by
  have linked := places.sound.linked
  constructor
  · intro member
    obtain ⟨node, listed, stored⟩ := List.mem_flatMap.mp member
    obtain ⟨⟨key, _⟩, entry, rfl⟩ := List.mem_map.mp listed
    have found := (Pool.mem_entries _ _ _).mp entry
    obtain ⟨address, located⟩ := linked.located found
    refine ⟨address, (places.stored address item).mp ?_⟩
    rw [itemsAt_of_get? located found]
    exact stored
  · rintro ⟨address, placed⟩
    have stored := (places.stored address item).mpr placed
    obtain ⟨key, located⟩ := located_of_mem_itemsAt stored
    obtain ⟨node, found⟩ := linked.present located
    rw [itemsAt_of_get? located found] at stored
    exact List.mem_flatMap.mpr
      ⟨node, List.mem_map.mpr ⟨_, (Pool.mem_entries _ _ _).mpr found, rfl⟩, stored⟩

/-- No item is stored twice. -/
theorem Places.items_nodup (places : tree.Places place) : tree.items.Nodup := by
  have linked := places.sound.linked
  have distinct : tree.nodes.entries.Pairwise fun first second => first.1 ≠ second.1 :=
    List.pairwise_map.mp tree.nodes.keys_nodup
  unfold items Pool.values
  rw [List.flatMap_map, List.nodup_flatMap]
  refine ⟨?_, distinct.imp_of_mem ?_⟩
  · rintro ⟨key, node⟩ entry
    have found := (Pool.mem_entries _ _ _).mp entry
    obtain ⟨address, located⟩ := linked.located found
    rw [← itemsAt_of_get? located found]
    exact places.once address
  · rintro ⟨first, node⟩ ⟨second, other⟩ entry otherEntry different
    have found := (Pool.mem_entries _ _ _).mp entry
    have otherFound := (Pool.mem_entries _ _ _).mp otherEntry
    obtain ⟨address, located⟩ := linked.located found
    obtain ⟨elsewhere, otherLocated⟩ := linked.located otherFound
    intro item here there
    have held : item ∈ node.items.toList := here
    have again : item ∈ other.items.toList := there
    rw [← itemsAt_of_get? located found, places.stored] at held
    rw [← itemsAt_of_get? otherLocated otherFound, places.stored, held, Option.some.injEq] at again
    rw [again, otherLocated, Option.some.injEq] at located
    exact different located.symm

/-- An item is in the node into which an insertion puts what leads to the same address; such an
insertion makes no node. -/
theorem Places.insert_beside (places : tree.Places place) {item : R} {box : Box D}
    (valid : box.Valid tree.border) (held : place item = some (box.address tree.border)) :
    ∃ key node, tree.nodes.get? key = some node ∧ item ∈ node.items ∧ ∀ other,
      Tree.insert other box tree =
        .ok () { tree.touch with nodes := tree.nodes.set key (node.addItem other) } := by
  have stored := (places.stored _ item).mpr held
  have linked := places.sound.linked
  obtain ⟨key, changed, reached, -, -, located, -, -, same⟩ := reach_spec box (tree.levels - 1)
    (tree.border / 4) root tree.nodes [] linked places.sound.tidy rfl (root_scale _) (root_room _)
  obtain ⟨own, there⟩ := located_of_mem_itemsAt stored
  obtain rfl := same own there
  obtain ⟨node, found⟩ := linked.present located
  refine ⟨key, node, found, ?_, fun other => ?_⟩
  · have here : locate tree.nodes (box.address tree.border) = some key := located
    rw [itemsAt_of_get? here found] at stored
    exact Array.mem_toList_iff.mp stored
  · have accepted : tree.accept box = .ok () := if_pos valid
    have run : tree.inserted other box = .ok (tree.nodes.set key (node.addItem other)) := by
      simp only [inserted, reached, bind, Except.bind, found]
    exact insert_eq accepted run

/-! ## Changing one item -/

variable [DecidableEq R]

/-- One more item: its list at its address grows, all others stay. -/
theorem Places.grow {changed : Tree R D} (places : tree.Places place) (sound : changed.Sound)
    {item : R} {address : Address D} (absent : place item = none)
    (items : ∀ other, itemsAt changed.nodes other =
      if other = address then itemsAt tree.nodes other ++ [item]
      else itemsAt tree.nodes other) :
    changed.Places (Function.update place item (some address)) := by
  have missing (other : Address D) : item ∉ itemsAt tree.nodes other := by
    rw [places.stored, absent]
    simp
  refine ⟨sound, ?_, ?_⟩
  · intro other
    rw [items]
    by_cases here : other = address
    · rw [if_pos here]
      exact List.Nodup.append (places.once other) (List.nodup_singleton item) (by
        simpa using missing other)
    · rw [if_neg here]
      exact places.once other
  · intro other stored
    rw [items]
    by_cases same : stored = item
    · subst same
      rw [Function.update_self, Option.some.injEq]
      by_cases here : other = address
      · simp [here]
      · rw [if_neg here]
        exact ⟨fun held => absurd held (missing other), fun equal => absurd equal.symm here⟩
    · rw [Function.update_of_ne same]
      by_cases here : other = address
      · rw [if_pos here, List.mem_append, List.mem_singleton, places.stored]
        exact or_iff_left same
      · rw [if_neg here, places.stored]

/-- One item less: its list at its address shrinks, all others stay. -/
theorem Places.shrink {changed : Tree R D} (places : tree.Places place) (sound : changed.Sound)
    {item : R} {address : Address D}
    (here : (item :: itemsAt changed.nodes address).Perm (itemsAt tree.nodes address))
    (elsewhere : ∀ other, other ≠ address →
      itemsAt changed.nodes other = itemsAt tree.nodes other) :
    changed.Places (Function.update place item none) := by
  have nodup : (item :: itemsAt changed.nodes address).Nodup :=
    here.nodup_iff.mpr (places.once address)
  rw [List.nodup_cons] at nodup
  have held : place item = some address := by
    rw [← places.stored, ← here.mem_iff]
    exact List.mem_cons_self
  refine ⟨sound, ?_, ?_⟩
  · intro other
    by_cases same : other = address
    · rw [same]
      exact nodup.2
    · rw [elsewhere other same]
      exact places.once other
  · intro other stored
    by_cases same : stored = item
    · subst same
      rw [Function.update_self]
      refine ⟨fun still => ?_, fun absurd => by simp at absurd⟩
      by_cases at_address : other = address
      · rw [at_address] at still
        exact absurd still nodup.1
      · rw [elsewhere other at_address, places.stored, held, Option.some.injEq] at still
        exact absurd still.symm at_address
    · rw [Function.update_of_ne same, ← places.stored]
      by_cases at_address : other = address
      · rw [at_address, ← here.mem_iff, List.mem_cons]
        exact (or_iff_right same).symm
      · rw [elsewhere other at_address]

/-- Inserting an item that is not stored succeeds and places it where its box leads. -/
theorem Places.insert (places : tree.Places place) {item : R} {box : Box D}
    (valid : box.Valid tree.border) (absent : place item = none) :
    ∃ changed, Tree.insert item box tree = .ok () changed ∧ changed.border = tree.border ∧
      changed.Places (Function.update place item (some (box.address tree.border))) := by
  obtain ⟨nodes, run, linked, tidy, -, items⟩ := inserted_spec places.sound item box
  refine ⟨{ tree.touch with nodes }, ?_, rfl, places.grow ⟨linked, tidy⟩ absent items⟩
  have accepted : tree.accept box = .ok () := if_pos valid
  exact insert_eq accepted run

/-- Erasing an item that is stored where its box leads succeeds and takes it away. -/
theorem Places.erase (places : tree.Places place) {item : R} {box : Box D}
    (valid : box.Valid tree.border) (held : place item = some (box.address tree.border)) :
    ∃ changed, Tree.erase item box tree = .ok () changed ∧ changed.border = tree.border ∧
      changed.Places (Function.update place item none) := by
  obtain ⟨nodes, run, linked, tidy, here, -, elsewhere, -⟩ :=
    erased_spec places.sound ((places.stored _ item).mpr held)
  refine ⟨{ tree.touch with nodes }, ?_, rfl, places.shrink ⟨linked, tidy⟩ here elsewhere⟩
  have accepted : tree.accept box = .ok () := if_pos valid
  exact erase_eq accepted run

end Placed

end Tree

end SpatialIndex.Partition
