import SpatialIndex.Proofs.Partition.Handles

/-!
# Erasure

What an erasure does to a tree in full. It succeeds exactly when the item is stored in the node to
which insertion leads. Then it takes one copy and releases the nodes at the end of the way to that
node that are left without items and children, up to the first that is not, and never the root.
When it fails, only the epoch tells of it.
-/
namespace SpatialIndex.Partition

variable {α R : Type} {D : Nat} {border : Nat}

namespace Tree

/-! ## Where an item is looked for -/

/-- Insertion with a box leads to a node, which it makes when it is missing. -/
def LeadsTo (tree : Tree R D) (box : Box D) (key : Key) : Prop :=
  ∃ grown, reach box (tree.levels - 1) (tree.border / 4) root tree.nodes = .ok (key, grown)

/-- A copy of an item is stored in the node to which insertion with a box leads. -/
def IsStored (tree : Tree R D) (item : R) (box : Box D) : Prop :=
  ∃ key node, tree.LeadsTo box key ∧ tree.nodes.get? key = some node ∧ item ∈ node.items

section Lead

variable {tree : Tree R D}

/-- Insertion leads to one node; when it is there already, it is the one at the address of the
box. -/
theorem Sound.leadsTo_spec (sound : tree.Sound) (box : Box D) :
    ∃ key, tree.LeadsTo box key ∧ (∀ other, tree.LeadsTo box other → other = key) ∧
      (∀ held, locate tree.nodes (box.address tree.border) = some held → held = key) ∧
      ∀ node, tree.nodes.get? key = some node →
        locate tree.nodes (box.address tree.border) = some key := by
  obtain ⟨key, grown, run, linked, -, located, -, stays, -⟩ :=
    reach_spec box (levels tree - 1) (tree.border / 4) root tree.nodes [] sound.linked sound.tidy
      rfl (root_scale tree.border) (root_room tree.border)
  refine ⟨key, ⟨grown, run⟩, ?_, ?_, ?_⟩
  · rintro other ⟨pool, again⟩
    rw [run] at again
    cases again
    rfl
  · intro held known
    have same := stays known
    rw [Box.address, show levelCount tree.border = levels tree from rfl, located] at same
    exact (Option.some.inj same).symm
  · intro node found
    obtain ⟨other, known⟩ := sound.linked.located found
    have here : other = box.address tree.border := linked.unique (stays known) located
    rw [← here, known]

/-- An item is stored where a box leads when it is at the address of the box. -/
theorem Sound.isStored_iff (sound : tree.Sound) {item : R} {box : Box D} :
    tree.IsStored item box ↔ item ∈ itemsAt tree.nodes (box.address tree.border) := by
  obtain ⟨key, leads, unique, former, present⟩ := sound.leadsTo_spec box
  constructor
  · rintro ⟨other, node, led, found, stored⟩
    obtain rfl := unique other led
    rw [itemsAt_of_get? (present node found) found]
    exact Array.mem_toList_iff.mpr stored
  · intro stored
    obtain ⟨held, located⟩ := located_of_mem_itemsAt stored
    obtain ⟨node, found⟩ := sound.linked.present located
    obtain rfl := former held located
    rw [itemsAt_of_get? located found] at stored
    exact ⟨held, node, leads, found, Array.mem_toList_iff.mp stored⟩

end Lead

/-! ## What an erasure takes away -/

/-- After one copy of an item at an address is gone, and the node below it on the way to that
address, the node `count` steps above the address is left without items and children. -/
structure LeftBare (nodes : Pool (Node R D)) (item : R) (address : Address D) (count : Nat) :
    Prop where
  /-- The copy is the only item. -/
  items : itemsAt nodes (address.drop count) = if count = 0 then [item] else []
  /-- The node below on the way is the only child. -/
  children : ∀ corner child, locate nodes (corner :: address.drop count) = some child →
    0 < count ∧ corner :: address.drop count = address.drop (count - 1)

/-- The addresses at the end of a way lead nowhere any more, and all others where they led. -/
def Cuts (nodes changed : Pool (Node R D)) (address : Address D) (count : Nat) : Prop :=
  ∀ other key, locate changed other = some key ↔
    locate nodes other = some key ∧ ∀ k < count, other ≠ address.drop k

/-- A tree is another one after one copy of an item at an address was erased, and with it the
`count` nodes at the end of the way to the address. -/
structure Erasure (before after : Tree R D) (item : R) (address : Address D) (count : Nat) :
    Prop where
  /-- The border stays. -/
  border_eq : after.border = before.border
  /-- The change is noted. -/
  epoch_eq : after.epoch = before.epoch + 1
  /-- The nodes that are left hang together, count their children, and only the root can be
  vacant. -/
  sound : after.Sound
  /-- One copy is gone from the address. -/
  taken : (item :: itemsAt after.nodes address).Perm (itemsAt before.nodes address)
  /-- All other addresses have the items they had. -/
  others : ∀ other, other ≠ address → itemsAt after.nodes other = itemsAt before.nodes other
  /-- The root is never released. -/
  short : count ≤ address.length
  /-- The nodes released are those left bare... -/
  bare : ∀ k, k < count → LeftBare before.nodes item address k
  /-- ... up to the first that is not. -/
  maximal : count < address.length → ¬LeftBare before.nodes item address count
  /-- The keys of the nodes released are free, and no others. -/
  released : ∀ key node, before.nodes.get? key = some node →
    (after.nodes.get? key = none ↔ ∃ k < count, locate before.nodes (address.drop k) = some key)
  /-- No node is made. -/
  former : ∀ key node, after.nodes.get? key = some node → ∃ old, before.nodes.get? key = some old
  /-- All other links stay. -/
  links : Cuts before.nodes after.nodes address count

/-- The addresses at the end of a way. -/
theorem suffix_end_iff {address other : Address D} {count : Nat} :
    (other <:+ address ∧ address.length < other.length + count) ↔
      ∃ k < count, other = address.drop k := by
  constructor
  · rintro ⟨suffix, longer⟩
    have within := suffix.length_le
    exact ⟨address.length - other.length, by omega, List.suffix_iff_eq_drop.mp suffix⟩
  · rintro ⟨k, fewer, rfl⟩
    refine ⟨List.drop_suffix k address, ?_⟩
    rw [List.length_drop]
    omega

/-- Two addresses on a way at different heights are different. -/
theorem drop_ne_drop (address : Address D) {j k : Nat} (below : j < k) (short : k ≤ address.length) :
    address.drop j ≠ address.drop k := by
  intro same
  have lengths := congrArg List.length same
  rw [List.length_drop, List.length_drop] at lengths
  omega

namespace Cuts

variable {nodes changed : Pool (Node R D)} {address : Address D} {count k : Nat} {key : Key}
  {item : R}

/-- The nodes that were cut off are no longer found. -/
theorem locate_eq_none (cuts : Cuts nodes changed address count) (fewer : k < count) :
    locate changed (address.drop k) = none := by
  cases reached : locate changed (address.drop k) with
  | none => rfl
  | some key => exact absurd rfl (((cuts _ key).mp reached).2 k fewer)

/-- The key of a node is free when its address was cut off. -/
theorem released (cuts : Cuts nodes changed address count) (linked : Linked border nodes)
    (linked' : Linked border changed) {node : Node R D} (found : nodes.get? key = some node) :
    changed.get? key = none ↔ ∃ k < count, locate nodes (address.drop k) = some key := by
  obtain ⟨other, known⟩ := linked.located found
  constructor
  · intro missing
    by_contra apart
    have stays : locate changed other = some key :=
      (cuts other key).mpr ⟨known, fun k fewer same => apart ⟨k, fewer, same ▸ known⟩⟩
    obtain ⟨held, holds⟩ := linked'.present stays
    rw [missing] at holds
    cases holds
  · rintro ⟨k, fewer, gone⟩
    by_contra present
    obtain ⟨held, holds⟩ := Option.ne_none_iff_exists'.mp present
    obtain ⟨place, stays⟩ := linked'.located holds
    obtain ⟨was, apart⟩ := (cuts place key).mp stays
    exact apart k fewer (linked.unique was gone)

/-- What is cut off was bare but for the item. -/
theorem leftBare (cuts : Cuts nodes changed address count) (short : count ≤ address.length)
    (taken : (item :: itemsAt changed address).Perm (itemsAt nodes address))
    (others : ∀ other, other ≠ address → itemsAt changed other = itemsAt nodes other)
    (fewer : k < count) : LeftBare nodes item address k := by
  have nothing := itemsAt_of_locate_eq_none (cuts.locate_eq_none fewer)
  constructor
  · cases k with
    | zero =>
      rw [List.drop_zero] at nothing ⊢
      rw [nothing] at taken
      exact (List.singleton_perm.mp taken).symm
    | succ k =>
      have elsewhere := (drop_ne_drop address (Nat.succ_pos k) (by omega)).symm
      rw [List.drop_zero] at elsewhere
      rw [if_neg (Nat.succ_ne_zero k), ← others _ elsewhere, nothing]
  · intro corner child known
    by_cases gone : ∃ j < count, corner :: address.drop k = address.drop j
    · obtain ⟨j, -, same⟩ := gone
      have lengths := congrArg List.length same
      rw [List.length_cons, List.length_drop, List.length_drop] at lengths
      have next : j = k - 1 := by omega
      exact ⟨by omega, next ▸ same⟩
    · -- a child that stays would hang in the air
      have stays : locate changed (corner :: address.drop k) = some child :=
        (cuts _ child).mpr ⟨known, fun j less same => gone ⟨j, less, same⟩⟩
      obtain ⟨parent, reached⟩ := located_of_suffix stays (List.suffix_cons _ _)
      rw [cuts.locate_eq_none fewer] at reached
      cases reached

/-- What the cut leaves is not bare, as only the root can be vacant. -/
theorem not_leftBare (cuts : Cuts nodes changed address count) (linked : Linked border changed)
    (tidy : VacantOnlyAt changed [])
    (taken : (item :: itemsAt changed address).Perm (itemsAt nodes address))
    (others : ∀ other, other ≠ address → itemsAt changed other = itemsAt nodes other)
    (located : locate nodes address = some key) (lower : count < address.length) :
    ¬LeftBare nodes item address count := by
  rintro ⟨items, children⟩
  obtain ⟨upper, above⟩ := located_of_suffix located (List.drop_suffix count address)
  have stays : locate changed (address.drop count) = some upper :=
    (cuts _ upper).mpr ⟨above, fun k fewer => (drop_ne_drop address fewer (by omega)).symm⟩
  obtain ⟨node, found⟩ := linked.present stays
  have occupied : node.isVacant ≠ true := by
    intro nothing
    have top := (tidy stays found nothing).elim id id
    rw [List.drop_eq_nil_iff] at top
    omega
  have empty : itemsAt changed (address.drop count) = [] := by
    cases count with
    | zero =>
      rw [List.drop_zero] at items ⊢
      rw [items, if_pos rfl] at taken
      exact List.perm_nil.mp ((List.perm_cons item).mp taken)
    | succ k =>
      have elsewhere := (drop_ne_drop address (Nat.succ_pos k) (by omega)).symm
      rw [List.drop_zero] at elsewhere
      rw [others _ elsewhere, items, if_neg (Nat.succ_ne_zero k)]
  rw [itemsAt_of_get? stays found] at empty
  have some_child : node.childCount ≠ 0 := by
    intro none
    exact occupied (by simp [Node.isVacant, none, Array.toList_eq_nil_iff.mp empty])
  obtain ⟨corner, child, hangs⟩ := (linked.counted found).exists_child some_child
  rw [← locate_child stays found] at hangs
  obtain ⟨known, apart⟩ := (cuts _ child).mp hangs
  obtain ⟨positive, same⟩ := children corner child known
  exact apart (count - 1) (by omega) same

end Cuts

/-- Removing the item at a position of a way is an erasure of it. -/
theorem exists_erasure {tree : Tree R D} (sound : tree.Sound) {address : Address D}
    {steps : List (Step D)} (way : Way tree.nodes address steps) {position : Nat} {item : R}
    (place : (itemsAt tree.nodes address)[position]? = some item) :
    ∃ nodes left count, removeAt tree.nodes steps position = .ok (nodes, left) ∧
      Erasure tree { tree.touch with nodes } item address count := by
  obtain ⟨nodes, count, run, short, linked, tidy, taken, -, others, leads⟩ :=
    removeAt_spec sound way place
  simp only [suffix_end_iff] at leads
  have cuts : Cuts tree.nodes nodes address count := by
    intro other key
    rw [leads]
    by_cases gone : ∃ k < count, other = address.drop k
    · rw [if_pos gone]
      obtain ⟨k, fewer, same⟩ := gone
      exact iff_of_false (by simp) fun both => both.2 k fewer same
    · rw [if_neg gone]
      exact ⟨fun known => ⟨known, fun k fewer same => gone ⟨k, fewer, same⟩⟩, And.left⟩
  obtain ⟨target, located⟩ := located_of_mem_itemsAt (List.mem_of_getElem? place)
  refine ⟨nodes, _, count, run, rfl, rfl, ⟨linked, tidy⟩, taken, others, short, ?_, ?_, ?_, ?_, cuts⟩
  · exact fun k => cuts.leftBare short taken others
  · exact cuts.not_leftBare linked tidy taken others located
  · exact fun key node => cuts.released sound.linked linked
  · intro key node found
    obtain ⟨other, stays⟩ := linked.located found
    exact sound.linked.present ((cuts other key).mp stays).1

/-! ## The outcomes -/

section Outcome

variable [DecidableEq R] {tree : Tree R D} {item : R} {box : Box D}

/-- An item that is stored where insertion leads is erased from there. -/
theorem Sound.exists_erase (sound : tree.Sound) (valid : box.Valid tree.border)
    (stored : tree.IsStored item box) : ∃ after count,
      Tree.erase item box tree = .ok () after ∧
        Erasure tree after item (box.address tree.border) count := by
  obtain ⟨steps, position, way, place, same⟩ :=
    erased_eq_removeAt sound (sound.isStored_iff.mp stored)
  obtain ⟨nodes, left, count, run, erasure⟩ := exists_erasure sound way place
  rw [run] at same
  exact ⟨_, count, erase_eq (if_pos valid) same, erasure⟩

/-- Any other item is not erased. -/
theorem Sound.erase_fails (sound : tree.Sound) (valid : box.Valid tree.border)
    (absent : ¬tree.IsStored item box) : ∃ fault,
      Tree.erase item box tree = .error fault tree.touch ∧
        (fault = .missingChild ∨ fault = .missingItem) := by
  rw [sound.isStored_iff] at absent
  cases target : locate tree.nodes (box.address tree.border) with
  | none => exact ⟨_, erase_missing (if_pos valid) (erased_missingChild sound item target), .inl rfl⟩
  | some key =>
    exact ⟨_, erase_missing (if_pos valid) (erased_missingItem sound target absent), .inr rfl⟩

/-- Only valid boxes and stored items are accepted. -/
theorem Sound.stored_of_erase (sound : tree.Sound) {after : Tree R D}
    (run : Tree.erase item box tree = .ok () after) :
    box.Valid tree.border ∧ tree.IsStored item box := by
  have valid : box.Valid tree.border := by
    by_contra invalid
    rw [erase_refused item invalid] at run
    cases run
  refine ⟨valid, ?_⟩
  by_contra absent
  obtain ⟨fault, failed, -⟩ := sound.erase_fails valid absent
  rw [run] at failed
  cases failed

end Outcome

/-- An erasure from a tree does all it should, and nothing when it fails. -/
structure ErasesExactly [DecidableEq R] (tree : Tree R D) : Prop where
  /-- A box that is not accepted changes nothing. -/
  refused : ∀ item box, ¬box.Valid tree.border →
    Tree.erase item box tree = .error (.invalidBox box.shown tree.border) tree
  /-- With an accepted box, an item is erased exactly when it is stored where insertion leads. -/
  succeeds : ∀ item box, box.Valid tree.border →
    ((∃ after, Tree.erase item box tree = .ok () after) ↔ tree.IsStored item box)
  /-- One copy is erased from the node to which insertion leads. -/
  removes : ∀ item box after, Tree.erase item box tree = .ok () after →
    ∃ key address count, tree.LeadsTo box key ∧ locate tree.nodes address = some key ∧
      Erasure tree after item address count
  /-- Otherwise only the epoch advances. -/
  fails : ∀ item box, box.Valid tree.border → ¬tree.IsStored item box →
    ∃ fault, Tree.erase item box tree = .error fault tree.touch ∧
      (fault = .missingChild ∨ fault = .missingItem)

/-- Between two mutations an erasure does all it should, and nothing when it fails. -/
theorem Sound.erasesExactly [DecidableEq R] {tree : Tree R D} (sound : tree.Sound) :
    tree.ErasesExactly := by
  refine ⟨fun item box => erase_refused item, fun item box valid => ⟨?_, ?_⟩, ?_,
    fun item box => sound.erase_fails⟩
  · rintro ⟨after, run⟩
    exact (sound.stored_of_erase run).2
  · intro stored
    obtain ⟨after, count, run, -⟩ := sound.exists_erase valid stored
    exact ⟨after, run⟩
  · intro item box after run
    obtain ⟨valid, stored⟩ := sound.stored_of_erase run
    obtain ⟨made, count, again, erasure⟩ := sound.exists_erase valid stored
    rw [run] at again
    cases again
    obtain ⟨key, leads, -, former, -⟩ := sound.leadsTo_spec box
    obtain ⟨other, located⟩ := located_of_mem_itemsAt (sound.isStored_iff.mp stored)
    obtain rfl := former other located
    exact ⟨other, _, count, leads, located, erasure⟩

end Tree

namespace Shared

/-- Whatever was done with a tree and any number of walks over it, erasing from it takes exactly one
copy of a stored item and the nodes that are left bare, or fails and changes nothing. -/
theorem erasesExactly_of_create [Arithmetic α] [DecidableEq R] {tree : Tree R D}
    (created : Tree.create border = .ok tree) (deeds : List (Deed α R D)) :
    (tree.share deeds).1.tree.ErasesExactly :=
  (kept_of_create created deeds).sound.erasesExactly

/-- The copies of an item are erased one by one, the last one with its node; then there is none, and
only the epoch advances. -/
theorem erasesExactly_after_copies :
    ∃ tree : Tree Nat 1, Tree.create 8 = .ok tree ∧
      let corner : Box 1 := ⟨#v[0], #v[0]⟩
      let deeds : List (Deed Exact Nat 1) :=
        [.insert 7 corner, .insert 9 ⟨#v[0], #v[7]⟩, .insert 7 corner, .erase 7 corner,
          .erase 7 corner, .erase 7 corner]
      let after := (tree.share deeds).1.tree
      after.ErasesExactly ∧ (after.nodeCount, after.items, after.epoch) = (1, [9], 6) := by
  have created : (Tree.create 8 : Except Fault (Tree Nat 1)) = .ok _ := rfl
  exact ⟨_, created, erasesExactly_of_create created _, by decide +kernel⟩

end Shared

end SpatialIndex.Partition
