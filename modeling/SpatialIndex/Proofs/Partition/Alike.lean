import Mathlib.Data.Set.Function
import SpatialIndex.Proofs.Arithmetic.Exact
import SpatialIndex.Proofs.Partition.Reached

/-!
# Trees that store the same

A tree between two mutations has a node exactly at the root and above every address with items,
so its nodes are determined by what it stores. Two trees that store the same pairs are equal up
to the keys of their nodes and the order of the items inside a node, whatever their histories
were. An item that is inserted and erased again leaves the very same nodes under the same keys.
-/
namespace SpatialIndex.Partition

variable {α R : Type} {D : Nat} {border : Nat}

/-! ## Nodes -/

namespace Node

/-- A node is another one up to a renaming of keys and the order of its items. -/
structure Alike (rename : Key → Key) (first second : Node R D) : Prop where
  /-- The centers are the same. -/
  center : second.center = first.center
  /-- The children are the renamed ones. -/
  children : second.children = first.children.map (Option.map rename)
  /-- The counts of children are the same. -/
  childCount : second.childCount = first.childCount
  /-- The items are the same. -/
  items : first.items.toList.Perm second.items.toList

/-- Without a renaming only the items can differ. -/
theorem Alike.eq_of_id {first second : Node R D} (alike : first.Alike id second) :
    second = { first with items := second.items } := by
  have children : second.children = first.children := by
    rw [alike.children, Option.map_id, Vector.map_id]
  rw [← alike.center, ← alike.childCount, ← children]

/-- Children that agree on every corner are the same. -/
theorem children_eq_map {rename : Key → Key} {first second : Node R D}
    (same : ∀ corner, second.child? corner = (first.child? corner).map rename) :
    second.children = first.children.map (Option.map rename) := by
  refine Vector.ext fun index within => ?_
  rw [Vector.getElem_map]
  exact same (BitVec.ofFin ⟨index, within⟩)

end Node

/-- Nodes at one address are alike when the links below it are the renamed ones. -/
theorem Linked.node_alike {nodes others : Pool (Node R D)} (linked : Linked border nodes)
    (second : Linked border others) {rename : Key → Key} {address : Address D} {key other : Key}
    {node held : Node R D} (located : locate nodes address = some key)
    (there : locate others address = some other) (found : nodes.get? key = some node)
    (holds : others.get? other = some held)
    (links : ∀ corner, locate others (corner :: address) =
      (locate nodes (corner :: address)).map rename)
    (items : (itemsAt nodes address).Perm (itemsAt others address)) : node.Alike rename held := by
  have children : held.children = node.children.map (Option.map rename) := by
    refine Node.children_eq_map fun corner => ?_
    rw [← child?_of_get? holds, ← child?_of_get? found, ← locate_cons there, ← locate_cons located]
    exact links corner
  refine ⟨?_, children, ?_, ?_⟩
  · rw [linked.center located found, second.center there holds]
  · have count := second.counted holds
    unfold Node.Counted at count
    rw [count, children, Vector.countP_map, linked.counted found]
    exact congrArg (fun test => node.children.countP test) (funext fun link => by simp)
  · rw [itemsAt_of_get? located found, itemsAt_of_get? there holds] at items
    exact items

namespace Tree

/-! ## Trees -/

/-- The keys of the nodes. -/
def keys (tree : Tree R D) : Set Key := {key | ∃ node, tree.nodes.get? key = some node}

/-- A tree is another one up to the keys of its nodes and the order of the items inside a node. -/
structure Alike (first second : Tree R D) : Prop where
  /-- The borders are the same. -/
  border : second.border = first.border
  /-- The nodes are the renamed ones. -/
  nodes : ∃ rename : Key → Key, Set.BijOn rename first.keys second.keys ∧ rename root = root ∧
    ∀ key node other, first.nodes.get? key = some node →
      second.nodes.get? (rename key) = some other → node.Alike rename other

/-- A tree has the nodes of another under the same keys, and these have the same items; where an
item is not stored, also their order is the same. -/
structure Restores (tree : Tree R D) (item : R) (restored : Tree R D) : Prop where
  /-- The borders are the same. -/
  border : restored.border = tree.border
  /-- The keys are the same. -/
  keys : restored.keys = tree.keys
  /-- The nodes are the same. -/
  nodes : ∀ key node after, tree.nodes.get? key = some node →
    restored.nodes.get? key = some after →
      after = { node with items := after.items } ∧ node.items.toList.Perm after.items.toList ∧
        (item ∉ node.items → after.items = node.items)

section Determined

variable {tree first second : Tree R D}

/-- A node is there exactly at the root and above items. -/
theorem Sound.located_iff (sound : tree.Sound) (address : Address D) :
    (∃ key, locate tree.nodes address = some key) ↔
      address = [] ∨ ∃ below, address <:+ below ∧ itemsAt tree.nodes below ≠ [] := by
  constructor
  · rintro ⟨key, located⟩
    -- down the levels: a node without items has a child, which is deeper
    induction depth : levelCount tree.border - address.length generalizing address key with
    | zero =>
      have shallow := sound.linked.shallow located
      omega
    | succ depth ih =>
      obtain ⟨node, found⟩ := sound.linked.present located
      by_cases items : itemsAt tree.nodes address = []
      · by_cases childless : node.childCount = 0
        · refine .inl ((sound.tidy located found ?_).elim id id)
          rw [itemsAt_of_get? located found, Array.toList_eq_nil_iff] at items
          simp [Node.isVacant, items, childless]
        · obtain ⟨corner, child, taken⟩ := (sound.linked.counted found).exists_child childless
          have below : locate tree.nodes (corner :: address) = some child := by
            rw [locate_child located found, taken]
          rcases ih (corner :: address) child below (by rw [List.length_cons]; omega) with
            absurd | ⟨place, suffix, stored⟩
          · cases absurd
          · exact .inr ⟨place, (List.suffix_cons corner address).trans suffix, stored⟩
      · exact .inr ⟨address, List.suffix_refl _, items⟩
  · rintro (rfl | ⟨below, suffix, stored⟩)
    · exact ⟨root, rfl⟩
    · cases located : locate tree.nodes below with
      | none => exact absurd (itemsAt_of_locate_eq_none located) stored
      | some key => exact located_of_suffix located suffix

/-- Trees with the same items have their nodes at the same addresses. -/
theorem Sound.located_congr (sound : first.Sound) (other : second.Sound)
    (items : ∀ address, (itemsAt first.nodes address).Perm (itemsAt second.nodes address))
    (address : Address D) :
    (∃ key, locate first.nodes address = some key) ↔
      ∃ key, locate second.nodes address = some key := by
  rw [sound.located_iff, other.located_iff]
  refine or_congr Iff.rfl (exists_congr fun below => and_congr Iff.rfl (not_congr ?_))
  exact ⟨fun empty => List.nil_perm.mp (empty ▸ items below),
    fun empty => List.perm_nil.mp (empty ▸ items below)⟩

/-- Trees with the same items are alike. -/
theorem Sound.alike (sound : first.Sound) (other : second.Sound)
    (border : second.border = first.border)
    (items : ∀ address, (itemsAt first.nodes address).Perm (itemsAt second.nodes address)) :
    first.Alike second := by
  have linked := sound.linked
  have links : Linked first.border second.nodes := border ▸ other.linked
  have both := sound.located_congr other items
  -- a key is renamed to the key that the other tree has at the same address
  have renamed (key : Key) : ∃ image, ∀ address, locate first.nodes address = some key →
      locate second.nodes address = some image := by
    by_cases known : ∃ address, locate first.nodes address = some key
    · obtain ⟨address, located⟩ := known
      obtain ⟨image, there⟩ := (both address).mp ⟨key, located⟩
      refine ⟨image, fun again same => ?_⟩
      rw [linked.unique same located, there]
    · exact ⟨root, fun address located => absurd ⟨address, located⟩ known⟩
  choose rename follows using renamed
  refine ⟨border, rename, ⟨?_, ?_, ?_⟩, ?_, ?_⟩
  · rintro key ⟨node, found⟩
    obtain ⟨address, located⟩ := linked.located found
    exact links.present (follows key address located)
  · rintro key ⟨node, found⟩ again ⟨held, holds⟩ same
    obtain ⟨address, located⟩ := linked.located found
    obtain ⟨place, there⟩ := linked.located holds
    have image := follows again place there
    rw [← same] at image
    rw [links.unique image (follows key address located), located] at there
    exact Option.some.inj there
  · rintro image ⟨held, holds⟩
    obtain ⟨address, there⟩ := links.located holds
    obtain ⟨key, located⟩ := (both address).mpr ⟨image, there⟩
    refine ⟨key, linked.present located, ?_⟩
    have agrees := follows key address located
    rw [there] at agrees
    exact (Option.some.inj agrees).symm
  · exact (Option.some.inj (follows root [] rfl)).symm
  · intro key node held found holds
    obtain ⟨address, located⟩ := linked.located found
    refine linked.node_alike links located (follows key address located) found holds ?_
      (items address)
    intro corner
    cases below : locate first.nodes (corner :: address) with
    | some child => exact follows child _ below
    | none =>
      cases there : locate second.nodes (corner :: address) with
      | none => rfl
      | some image =>
        obtain ⟨child, known⟩ := (both _).mpr ⟨image, there⟩
        rw [below] at known
        cases known

/-- Trees with the same nodes at all addresses, and the same items in them, are the same. -/
theorem Sound.restores (sound : first.Sound) (other : second.Sound)
    (border : second.border = first.border) {item : R}
    (keys : ∀ address, locate second.nodes address = locate first.nodes address)
    (items : ∀ address, (itemsAt first.nodes address).Perm (itemsAt second.nodes address))
    (order : ∀ address, item ∉ itemsAt first.nodes address →
      itemsAt second.nodes address = itemsAt first.nodes address) :
    first.Restores item second := by
  have linked := sound.linked
  have links : Linked first.border second.nodes := border ▸ other.linked
  refine ⟨border, ?_, ?_⟩
  · ext key
    constructor
    · rintro ⟨held, holds⟩
      obtain ⟨address, there⟩ := links.located holds
      exact linked.present ((keys address).symm.trans there)
    · rintro ⟨node, found⟩
      obtain ⟨address, located⟩ := linked.located found
      exact links.present ((keys address).trans located)
  · intro key node after found holds
    obtain ⟨address, located⟩ := linked.located found
    have there : locate second.nodes address = some key := (keys address).trans located
    have alike : node.Alike id after := linked.node_alike links located there found holds
      (fun corner => by rw [keys, Option.map_id, id]) (items address)
    refine ⟨alike.eq_of_id, alike.items, fun absent => ?_⟩
    have same := order address
    rw [itemsAt_of_get? located found, itemsAt_of_get? there holds, Array.mem_toList_iff] at same
    exact Array.toList_inj.mp (same absent)

end Determined

/-! ## Inserting and erasing again -/

/-- A list from which the item put at its end was removed again is the list before, when it did
not have that item. -/
theorem eq_of_removed_last {before after : List R} {item : R} {position : Nat}
    (same : before.Perm after) (found : (before ++ [item])[position]? = some item)
    (kept : after.take position = (before ++ [item]).take position) (absent : item ∉ before) :
    after = before := by
  have last : before.length ≤ position := by
    by_contra early
    rw [List.getElem?_append_left (by omega)] at found
    exact absent (List.mem_of_getElem? found)
  have within : position < (before ++ [item]).length := (List.getElem?_eq_some_iff.mp found).1
  rw [List.length_append, List.length_singleton] at within
  have place : position = before.length := by omega
  subst place
  rw [List.take_left, same.length_eq, List.take_length] at kept
  exact kept

/-- Inserting an item and erasing it again restores the tree. -/
theorem Stores.insert_erase [DecidableEq R] {tree : Tree R D} {live : Multiset (R × Box D)}
    (stores : tree.Stores live) (item : R) {box : Box D} (valid : box.Valid tree.border) :
    ∃ changed restored, Tree.insert item box tree = .ok () changed ∧
      Tree.erase item box changed = .ok () restored ∧ tree.Restores item restored := by
  have sound := stores.sound
  have accepted : tree.accept box = .ok () := if_pos valid
  obtain ⟨grown, put, linked, tidy, stays, added⟩ := inserted_spec sound item box
  let changed : Tree R D := { tree.touch with nodes := grown }
  have between : changed.Sound := ⟨linked, tidy⟩
  have stored : item ∈ itemsAt changed.nodes (box.address changed.border) := by
    show item ∈ itemsAt grown (box.address tree.border)
    rw [added, if_pos rfl]
    exact List.mem_append_right _ List.mem_cons_self
  obtain ⟨left, took, links, neat, here, ⟨position, found, kept⟩, elsewhere, old⟩ :=
    erased_spec between stored
  let restored : Tree R D := { changed.touch with nodes := left }
  have again : restored.Sound := ⟨links, neat⟩
  have items (address : Address D) :
      (itemsAt tree.nodes address).Perm (itemsAt restored.nodes address) := by
    by_cases at_box : address = box.address tree.border
    · subst at_box
      have counts : (item :: itemsAt left (box.address tree.border)).Perm
          (itemsAt tree.nodes (box.address tree.border) ++ [item]) := by
        have whole := added (box.address tree.border)
        rw [if_pos rfl] at whole
        exact whole ▸ here
      exact ((counts.trans (List.perm_append_singleton item _)).cons_inv).symm
    · have same := elsewhere address at_box
      have before := added address
      rw [if_neg at_box] at before
      exact List.Perm.of_eq (same.trans before).symm
  have keys (address : Address D) : locate left address = locate tree.nodes address := by
    have both := sound.located_congr again items address
    cases known : locate tree.nodes address with
    | some key =>
      obtain ⟨other, there⟩ := both.mp ⟨key, known⟩
      rw [← stays known]
      exact there.trans (old there).symm
    | none =>
      cases there : locate left address with
      | none => rfl
      | some other =>
        obtain ⟨key, absurd⟩ := both.mpr ⟨other, there⟩
        rw [known] at absurd
        cases absurd
  refine ⟨changed, restored, insert_eq accepted put, erase_eq (if_pos valid) took,
    sound.restores again rfl keys items fun address absent => ?_⟩
  by_cases at_box : address = box.address tree.border
  · subst at_box
    have whole := added (box.address tree.border)
    rw [if_pos rfl] at whole
    exact eq_of_removed_last (items _) (whole ▸ found) (whole ▸ kept) absent
  · have same := elsewhere address at_box
    have before := added address
    rw [if_neg at_box] at before
    exact same.trans before

end Tree

variable [Arithmetic α] [DecidableEq R] {tree : Tree R D} {walks : List (Walk α D)}
  {live : Multiset (R × Box D)}

/-- A tree does not remember its history: two runs that leave the same pairs lead to trees that
are alike, with nodes at the same addresses and the same items there; and an item that is inserted
and erased again leaves the nodes as they were. -/
theorem Reached.forgets (reached : Reached border tree walks live) :
    (∀ {β : Type} [Arithmetic β] (other : Tree R D) (others : List (Walk β D)),
      Reached border other others live → tree.Alike other ∧ ∀ address,
        ((∃ key, locate tree.nodes address = some key) ↔
          ∃ key, locate other.nodes address = some key) ∧
        (itemsAt tree.nodes address).Perm (itemsAt other.nodes address)) ∧
    ∀ item box, box.Valid border → ∃ changed restored, Tree.insert item box tree = .ok () changed ∧
      Tree.erase item box changed = .ok () restored ∧ tree.Restores item restored := by
  obtain ⟨same, stores, -⟩ := reached.kept
  constructor
  · intro β _ other others run
    obtain ⟨again, holds, -⟩ := run.kept
    have items (address : Address D) :
        (itemsAt tree.nodes address).Perm (itemsAt other.nodes address) := by
      rw [← Multiset.coe_eq_coe, stores.items, holds.items, same, again]
    exact ⟨stores.sound.alike holds.sound (again.trans same.symm) items, fun address =>
      ⟨stores.sound.located_congr holds.sound items address, items address⟩⟩
  · intro item box valid
    exact stores.insert_erase item (same.symm ▸ valid)

/-- One item is stored after it alone was inserted, and after another one was inserted before it
and erased after it; a third one comes and goes. -/
theorem forgets_detour :
    ∃ tree other : Tree Nat 2,
      Reached 8 tree ([] : List (Walk Exact 2)) {(7, ⟨#v[0, 0], #v[1, 0]⟩)} ∧
        Reached 8 other ([] : List (Walk Exact 2)) {(7, ⟨#v[0, 0], #v[1, 0]⟩)} ∧
        tree.Alike other ∧ ∃ changed restored,
          Tree.insert 5 ⟨#v[6, 0], #v[7, 1]⟩ tree = .ok () changed ∧
            Tree.erase 5 ⟨#v[6, 0], #v[7, 1]⟩ changed = .ok () restored ∧
            tree.Restores 5 restored := by
  have direct : Reached 8 _ ([] : List (Walk Exact 2))
      ((7, (⟨#v[0, 0], #v[1, 0]⟩ : Box 2)) ::ₘ 0) :=
    .insert (.create rfl) (by decide) rfl
  have beside : Reached 8 _ ([] : List (Walk Exact 2))
      ((7, (⟨#v[0, 0], #v[1, 0]⟩ : Box 2)) ::ₘ (9, ⟨#v[4, 4], #v[4, 4]⟩) ::ₘ 0) :=
    .insert (.insert (.create rfl) (by decide) rfl) (by decide) rfl
  have valid : (⟨#v[4, 4], #v[4, 4]⟩ : Box 2).Valid 8 := by decide
  have member : (9, (⟨#v[4, 4], #v[4, 4]⟩ : Box 2)) ∈
      ((7, (⟨#v[0, 0], #v[1, 0]⟩ : Box 2)) ::ₘ (9, ⟨#v[4, 4], #v[4, 4]⟩) ::ₘ 0) := by decide
  obtain ⟨erased, run⟩ := beside.proceeds.2.1 9 _ _ valid member rfl
  have left := beside.erase valid member rfl run
  have detour : Reached 8 erased ([] : List (Walk Exact 2))
      {(7, (⟨#v[0, 0], #v[1, 0]⟩ : Box 2))} := by
    convert left using 1
    decide
  obtain ⟨same, comes⟩ := direct.forgets
  exact ⟨_, _, direct, detour, (same _ _ detour).1, comes 5 ⟨#v[6, 0], #v[7, 1]⟩ (by decide)⟩

end SpatialIndex.Partition
