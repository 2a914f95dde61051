import SpatialIndex.Proofs.Partition.Relink
import Mathlib.Data.List.Perm.Basic

/-!
# Insertion, removal and clearing

What the mutations of a partition do to the items at each address. An item is put at the address
to which its box leads, and is removed from there; the items of every other address stay. Vacant
nodes are released, so between two mutations only the root can be vacant.
-/
namespace SpatialIndex.Partition

variable {R : Type} {D : Nat} {border : Nat} {nodes : Pool (Node R D)}

/-! ## Items of one node -/

/-- Removing the item at a position keeps the items before it, and all others in some order. -/
theorem Node.removeItem_perm (node : Node R D) {position : Nat}
    (within : position < node.items.size) :
    (node.items[position] :: (node.removeItem position).items.toList).Perm node.items.toList ∧
      (node.removeItem position).items.toList.take position = node.items.toList.take position := by
  have last : node.items.size - 1 < node.items.size := by omega
  let swapped := node.items.swap position (node.items.size - 1)
  have removed : (node.removeItem position).items.toList = swapped.toList.dropLast := by
    simp [Node.removeItem, Array.swapIfInBounds, within, last, swapped]
  have size : swapped.toList.length = node.items.size := by simp [swapped]
  have nonempty : swapped.toList ≠ [] := by
    intro empty
    rw [empty, List.length_nil] at size
    omega
  have final : swapped.toList.getLast nonempty = node.items[position] := by
    rw [List.getLast_eq_getElem, Array.getElem_toList]
    simp [swapped]
  constructor
  · rw [removed]
    have split : swapped.toList.dropLast ++ [node.items[position]] = swapped.toList := by
      rw [← final, List.dropLast_append_getLast]
    have moved : (node.items[position] :: swapped.toList.dropLast).Perm swapped.toList :=
      (List.perm_append_singleton _ _).symm.trans (by rw [split])
    exact moved.trans (Array.swap_perm within last).toList
  · rw [removed]
    apply List.ext_getElem?
    intro i
    rw [List.getElem?_take, List.getElem?_take]
    by_cases before : i < position
    · rw [if_pos before, if_pos before, List.getElem?_dropLast, size, if_pos (by omega),
        Array.getElem?_toList, Array.getElem?_toList, Array.getElem?_eq_getElem (by
          simp only [swapped, Array.size_swap]
          omega), Array.getElem?_eq_getElem (by omega)]
      congr 1
      exact Array.getElem_swap_of_ne (by omega) (by omega)
    · rw [if_neg before, if_neg before]

/-! ## Ways -/

/-- The steps from the root to the node at an address, the last one first. -/
inductive Way (nodes : Pool (Node R D)) : Address D → List (Step D) → Prop
  /-- The way to the root. -/
  | root : Way nodes [] [⟨root, 0⟩]
  /-- A way goes on to a child. -/
  | step {address : Address D} {steps : List (Step D)} {key : Key} {corner : Corner D} :
    Way nodes address steps → locate nodes (corner :: address) = some key →
    Way nodes (corner :: address) (⟨key, corner⟩ :: steps)

namespace Way

variable {address : Address D} {steps : List (Step D)}

/-- The last step of a way enters the node at its address. -/
theorem locate {last : Step D} (way : Way nodes address (last :: steps)) :
    Partition.locate nodes address = some last.node := by
  cases way with
  | root => rfl
  | step _ located => exact located

/-- A way has a step for every corner of its address, and one for the root. -/
theorem length (way : Way nodes address steps) : steps.length = address.length + 1 := by
  induction way with
  | root => rfl
  | step _ _ ih => rw [List.length_cons, List.length_cons, ih]

/-- A way has a last step. -/
theorem exists_last (way : Way nodes address steps) : ∃ last before, steps = last :: before := by
  cases way with
  | root => exact ⟨_, _, rfl⟩
  | step => exact ⟨_, _, rfl⟩

/-- A way stays one where the addresses on it lead to the same keys. -/
theorem congr {changed : Pool (Node R D)} (way : Way nodes address steps)
    (same : ∀ above, above <:+ address →
      Partition.locate changed above = Partition.locate nodes above) :
    Way changed address steps := by
  induction way with
  | root => exact .root
  | step before located ih =>
    refine .step (ih fun above suffix => same above (suffix.trans (List.suffix_cons _ _))) ?_
    rw [same _ (List.suffix_refl _), located]

/-- The upper part of a way is a way. -/
theorem drop (way : Way nodes address steps) (count : Nat) (within : count ≤ address.length) :
    Way nodes (address.drop count) (steps.drop count) := by
  induction count generalizing address steps with
  | zero => exact way
  | succ count ih =>
    cases way with
    | root => simp at within
    | step before located =>
      rw [List.drop_succ_cons, List.drop_succ_cons]
      exact ih before (by simpa using within)

end Way

namespace Tree

/-! ## Insertion -/

section Descent

variable {address : Address D} {corner : Corner D} {key : Key} {node : Node R D}

/-- A node with a child is not vacant, so no vacancy is lost below it. -/
theorem vacantOnlyAt_enter {child : Key} (vacant : VacantOnlyAt nodes address)
    (linked : Linked border nodes) (located : locate nodes address = some key)
    (found : nodes.get? key = some node) (existing : node.child? corner = some child) :
    VacantOnlyAt nodes (corner :: address) := by
  intro other k read reached reads nothing
  rcases vacant reached reads nothing with root | here
  · exact .inl root
  · subst here
    rw [located, Option.some.injEq] at reached
    subst reached
    rw [found, Option.some.injEq] at reads
    rw [← reads, (linked.counted found).isVacant_eq_false existing] at nothing
    cases nothing

/-- A node that takes a child in is not vacant any more, and the child is. -/
theorem vacantOnlyAt_adopt (vacant : VacantOnlyAt nodes address) (linked : Linked border nodes)
    (located : locate nodes address = some key) (found : nodes.get? key = some node)
    (free : node.child? corner = none) (center : Cell D) :
    VacantOnlyAt (adopted nodes key node corner center) (corner :: address) := by
  have fresh := Pool.get?_insert_key linked.formed (Node.vacant center : Node R D)
  intro other k read reached reads nothing
  rw [linked.locate_adopted located found free] at reached
  by_cases here : other = corner :: address
  · exact .inr here
  · rw [if_neg here] at reached
    rw [get?_adopted corner linked.formed found] at reads
    by_cases same : k = key
    · rw [if_pos same, Option.some.injEq] at reads
      have counted := (linked.counted found).adopt (nodes.insert (Node.vacant center)).1 free
      have taken := (Node.child?_adopt node corner corner
        (nodes.insert (Node.vacant center)).1).trans (if_pos rfl)
      rw [← reads, counted.isVacant_eq_false taken] at nothing
      cases nothing
    · have old : k ≠ (nodes.insert (Node.vacant center : Node R D)).1 := by
        rintro rfl
        obtain ⟨held, holds⟩ := linked.present reached
        rw [fresh] at holds
        cases holds
      rw [if_neg same, if_neg old] at reads
      rcases vacant reached reads nothing with root | equal
      · exact .inl root
      · rw [equal, located, Option.some.injEq] at reached
        exact absurd reached.symm same

end Descent

/-- Reaching the address of a box makes the missing nodes of the way and moves no item; when the
address has a node already, nothing changes. -/
theorem reach_spec (box : Box D) (depth step : Nat) (key : Key) (nodes : Pool (Node R D))
    (address : Address D) (linked : Linked border nodes) (vacant : VacantOnlyAt nodes address)
    (located : locate nodes address = some key) (scale : step = border / 2 ^ (address.length + 2))
    (room : address.length + depth < levelCount border) :
    ∃ reached changed, reach box depth step key nodes = .ok (reached, changed) ∧
      Linked border changed ∧ VacantOnlyAt changed (box.lead border depth address) ∧
      locate changed (box.lead border depth address) = some reached ∧
      (∀ other, itemsAt changed other = itemsAt nodes other) ∧
      (∀ {other held}, locate nodes other = some held → locate changed other = some held) ∧
      ∀ held, locate nodes (box.lead border depth address) = some held → changed = nodes := by
  induction depth generalizing step key nodes address with
  | zero =>
    exact ⟨key, nodes, rfl, linked, vacant, located, fun _ => rfl, id, fun _ _ => rfl⟩
  | succ depth ih =>
    obtain ⟨node, found⟩ := linked.present located
    have center := linked.center located found
    rw [reach, found, Box.lead]
    simp only
    rw [center]
    cases taken : box.corner? (Address.center border address) with
    | none => exact ⟨key, nodes, rfl, linked, vacant, located, fun _ => rfl, id, fun _ _ => rfl⟩
    | some corner =>
      have halved : step / 2 = border / 2 ^ ((corner :: address).length + 2) := by
        rw [scale, Nat.div_div_eq_div_mul, ← Nat.pow_succ, List.length_cons]
      have deeper : (corner :: address).length + depth < levelCount border := by
        rw [List.length_cons]
        omega
      simp only
      cases existing : node.child? corner with
      | some child =>
        have below : locate nodes (corner :: address) = some child := by
          rw [locate_child located found, existing]
        exact ih (step / 2) child nodes (corner :: address) linked
          (vacantOnlyAt_enter vacant linked located found existing) below halved deeper
      | none =>
        simp only
        have grown : Linked border (adopted nodes key node corner
            (corner.shift node.center (border / 2 ^ (address.length + 2)))) :=
          linked.adopt located found existing (by omega)
        rw [← center, scale]
        generalize corner.shift node.center (border / 2 ^ (address.length + 2)) = place at grown
        have moves := linked.locate_adopted located found existing place
        have items := linked.itemsAt_adopted located found existing place
        have below : locate (adopted nodes key node corner place) (corner :: address) =
            some (nodes.insert (Node.vacant place)).1 := by
          rw [moves, if_pos rfl]
        rw [scale] at halved
        obtain ⟨reached, changed, run, linked', vacant', located', items', stays, -⟩ :=
          ih _ _ _ (corner :: address) grown
            (vacantOnlyAt_adopt vacant linked located found existing place) below halved deeper
        have unlocated : locate nodes (corner :: address) = none := by
          rw [locate_child located found, existing]
        refine ⟨reached, changed, run, linked', vacant', located',
          fun other => (items' other).trans (items other), fun {other held} known => stays ?_, ?_⟩
        · rw [moves, if_neg, known]
          rintro rfl
          rw [unlocated] at known
          cases known
        intro held absurd
        obtain ⟨child, taken⟩ := located_of_suffix absurd
          (box.lead_suffix border depth (corner :: address))
        rw [unlocated] at taken
        cases taken

/-- A tree between two mutations: its nodes are linked and only the root can be vacant. -/
structure Sound (tree : Tree R D) : Prop where
  /-- The nodes hang together. -/
  linked : Linked tree.border tree.nodes
  /-- No node but the root is vacant. -/
  tidy : VacantOnlyAt tree.nodes []

/-- No node but the root is without items and children. -/
theorem Sound.eq_root_of_empty {tree : Tree R D} (sound : tree.Sound) {key : Key} {node : Node R D}
    (found : tree.nodes.get? key = some node) (empty : node.items = #[])
    (childless : node.childCount = 0) : key = root := by
  obtain ⟨address, located⟩ := sound.linked.located found
  have nothing : node.isVacant = true := by simp [Node.isVacant, empty, childless]
  have here : address = [] := (sound.tidy located found nothing).elim id id
  subst here
  exact (Option.some.inj located).symm

/-- The border of a tree has a quarter as the distance from the root to its children. -/
theorem root_scale (border : Nat) : border / 4 = border / 2 ^ (([] : Address D).length + 2) := rfl

/-- All levels of a tree fit below the root. -/
theorem root_room (border : Nat) :
    ([] : Address D).length + (levelCount border - 1) < levelCount border := by
  have positive : 0 < levelCount border := by
    unfold levelCount Limits.levels
    omega
  rw [List.length_nil]
  omega

/-- Inserting an item succeeds, and puts it at the end of the items at the address of its box.
Every node stays. -/
theorem inserted_spec {tree : Tree R D} (sound : tree.Sound) (item : R) (box : Box D) :
    ∃ changed, tree.inserted item box = .ok changed ∧ Linked tree.border changed ∧
      VacantOnlyAt changed [] ∧
      (∀ {other held}, locate tree.nodes other = some held → locate changed other = some held) ∧
      ∀ other, itemsAt changed other =
        if other = box.address tree.border then itemsAt tree.nodes other ++ [item]
        else itemsAt tree.nodes other := by
  obtain ⟨key, nodes, run, linked, vacant, located, items, stays, -⟩ :=
    reach_spec box (levels tree - 1) (tree.border / 4) root tree.nodes [] sound.linked sound.tidy
      rfl (root_scale tree.border) (root_room tree.border)
  obtain ⟨node, found⟩ := linked.present located
  refine ⟨nodes.set key (node.addItem item), ?_, linked.setItems found _, ?_, ?_, ?_⟩
  · simp only [inserted, run, bind, Except.bind, found]
  · intro other k read reached reads nothing
    rw [Node.addItem, locate_setItems found] at reached
    rw [Pool.get?_set, found] at reads
    by_cases same : k = key
    · rw [if_pos same, Option.map_some, Option.some.injEq] at reads
      rw [← reads] at nothing
      simp [Node.isVacant, Node.addItem] at nothing
    · rw [if_neg same] at reads
      rcases vacant reached reads nothing with root | here
      · exact .inl root
      · rw [here, located, Option.some.injEq] at reached
        exact absurd reached.symm same
  · intro other held known
    rw [Node.addItem, locate_setItems found]
    exact stays known
  · intro other
    rw [Node.addItem, linked.itemsAt_setItems located found]
    by_cases here : other = box.address tree.border
    · have here' : other = box.lead tree.border (levels tree - 1) [] := here
      rw [if_pos here, if_pos here', ← items, here', itemsAt_of_get? located found,
        Array.toList_push]
    · have here' : ¬other = box.lead tree.border (levels tree - 1) [] := here
      rw [if_neg here, if_neg here', items]

/-! ## Release of vacant nodes -/

/-- Releasing the one vacant node leaves its parent as the only one that can be vacant. -/
theorem vacantOnlyAt_release {above : Address D} {corner : Corner D} {key child : Key}
    {node gone : Node R D} (vacant : VacantOnlyAt nodes (corner :: above))
    (linked : Linked border nodes) (parent : locate nodes above = some key)
    (found : nodes.get? key = some node) (taken : node.child? corner = some child)
    (held : nodes.get? child = some gone) (nothing : gone.isVacant = true) :
    VacantOnlyAt (released nodes key node corner child) above := by
  intro other k read reached reads empty
  rw [linked.locate_released parent found taken held nothing] at reached
  split at reached
  · cases reached
  · rename_i elsewhere
    rw [get?_released _ _ found] at reads
    split at reads
    · cases reads
    · split at reads
      · rename_i same
        rw [same] at reached
        exact .inr (linked.unique reached parent)
      · exact (vacant reached reads empty).imp_right fun here => absurd here elsewhere

/-- Releasing the last address of a way and then some above it releases one more of the way. -/
theorem released_cons_iff {above other : Address D} {corner : Corner D} {count : Nat}
    (elsewhere : other ≠ corner :: above) :
    (other <:+ above ∧ above.length < other.length + count) ↔
      (other <:+ corner :: above ∧
        (corner :: above).length < other.length + (count + 1)) := by
  rw [List.suffix_cons_iff, List.length_cons, ← Nat.add_assoc, Nat.add_lt_add_iff_right]
  exact and_congr_left' (or_iff_right elsewhere).symm

/-- Collapsing the way to the one vacant node releases the vacant nodes at its end and moves no
item. -/
theorem collapse_spec (nodes : Pool (Node R D)) (address : Address D) (steps : List (Step D))
    (linked : Linked border nodes) (vacant : VacantOnlyAt nodes address)
    (way : Way nodes address steps) :
    ∃ changed count, collapse nodes steps = .ok (changed, steps.drop count) ∧
      count ≤ address.length ∧ Linked border changed ∧ VacantOnlyAt changed [] ∧
      (∀ other, itemsAt changed other = itemsAt nodes other) ∧
      ∀ other, locate changed other =
        if other <:+ address ∧ address.length < other.length + count then none
        else locate nodes other := by
  induction address generalizing nodes steps with
  | nil =>
    cases way with
    | root =>
      refine ⟨nodes, 0, rfl, Nat.le_refl _, linked, vacant, fun _ => rfl, ?_⟩
      intro other
      rw [if_neg]
      rintro ⟨suffix, longer⟩
      rw [List.suffix_nil.mp suffix] at longer
      simp at longer
  | cons corner above ih =>
    cases way with
    | @step _ steps key _ before located =>
      obtain ⟨last, upper, rfl⟩ := before.exists_last
      obtain ⟨gone, held⟩ := linked.present located
      rw [collapse, held]
      simp only
      by_cases nothing : gone.isVacant = true
      · have parent := before.locate
        obtain ⟨node, found⟩ := linked.present parent
        have taken : node.child? corner = some key := by
          rw [← child?_of_get? found, ← locate_cons parent, located]
        have release : release nodes last.node corner =
            .ok (released nodes last.node node corner key) := by
          simp only [Tree.release, found, taken, held, nothing, if_true, released]
        have moves := linked.locate_released parent found taken held nothing
        have upper : ∀ other, other <:+ above →
            locate (released nodes last.node node corner key) other = locate nodes other := by
          intro other suffix
          rw [moves, if_neg]
          rintro rfl
          have lengths := suffix.length_le
          rw [List.length_cons] at lengths
          omega
        obtain ⟨changed, count, run, within, linked', tidy, items, leads⟩ :=
          ih _ _ (linked.release parent found taken held nothing)
            (vacantOnlyAt_release vacant linked parent found taken held nothing) (before.congr upper)
        refine ⟨changed, count + 1, ?_, by simpa using within, linked', tidy, ?_, ?_⟩
        · rw [if_pos nothing, release]
          exact run
        · intro other
          rw [items, linked.itemsAt_released parent found taken held nothing]
        · intro other
          rw [leads, moves]
          by_cases here : other = corner :: above
          · subst here
            have now : corner :: above <:+ corner :: above ∧
                (corner :: above).length < (corner :: above).length + (count + 1) :=
              ⟨List.suffix_refl _, by omega⟩
            rw [if_pos rfl, if_pos now, ite_self]
          · rw [if_neg here]
            exact if_congr (released_cons_iff here) rfl rfl
      · rw [if_neg nothing]
        refine ⟨nodes, 0, rfl, Nat.zero_le _, linked, ?_, fun _ => rfl, ?_⟩
        · intro other k read reached reads nothing'
          rcases vacant reached reads nothing' with root | here
          · exact .inl root
          · rw [here, located, Option.some.injEq] at reached
            rw [← reached, held, Option.some.injEq] at reads
            rw [reads] at nothing
            exact absurd nothing' nothing
        · intro other
          rw [if_neg]
          rintro ⟨suffix, longer⟩
          have lengths := suffix.length_le
          omega

/-! ## Removal -/

/-- Removing the item at a position of the last node of a way takes it from the items at the
address, and releases the nodes that are vacant then. -/
theorem removeAt_spec {tree : Tree R D} (sound : tree.Sound) {address : Address D}
    {steps : List (Step D)} (way : Way tree.nodes address steps) {position : Nat} {item : R}
    (at_position : (itemsAt tree.nodes address)[position]? = some item) :
    ∃ changed count, removeAt tree.nodes steps position = .ok (changed, steps.drop count) ∧
      count ≤ address.length ∧ Linked tree.border changed ∧ VacantOnlyAt changed [] ∧
      (item :: itemsAt changed address).Perm (itemsAt tree.nodes address) ∧
      (itemsAt changed address).take position = (itemsAt tree.nodes address).take position ∧
      (∀ other, other ≠ address → itemsAt changed other = itemsAt tree.nodes other) ∧
      ∀ other, locate changed other =
        if other <:+ address ∧ address.length < other.length + count then none
        else locate tree.nodes other := by
  obtain ⟨last, before, rfl⟩ := way.exists_last
  have located := way.locate
  obtain ⟨node, found⟩ := sound.linked.present located
  rw [itemsAt_of_get? located found, Array.getElem?_toList, Array.getElem?_eq_some_iff]
    at at_position
  obtain ⟨within, rfl⟩ := at_position
  have linked := sound.linked.setItems found (node.removeItem position).items
  have items := sound.linked.itemsAt_setItems located found (node.removeItem position).items
  have moves := locate_setItems found (node.removeItem position).items
  have way' := way.congr fun above _ => moves above
  have vacant : VacantOnlyAt (tree.nodes.set last.node (node.removeItem position)) address := by
    intro other k read reached reads nothing
    rw [Pool.get?_set, found] at reads
    by_cases same : k = last.node
    · rw [same] at reached
      rw [show node.removeItem position = { node with items := (node.removeItem position).items }
        from rfl, moves] at reached
      exact .inr (sound.linked.unique reached located)
    · rw [if_neg same] at reads
      rw [show node.removeItem position = { node with items := (node.removeItem position).items }
        from rfl, moves] at reached
      rcases sound.tidy reached reads nothing with root | root
      · exact .inl root
      · exact .inl root
  obtain ⟨changed, count, run, short, linked', tidy, items', leads⟩ :=
    collapse_spec _ address _ linked vacant way'
  have here : itemsAt changed address = (node.removeItem position).items.toList := by
    rw [items', items, if_pos rfl]
  obtain ⟨permuted, kept⟩ := node.removeItem_perm within
  refine ⟨changed, count, ?_, short, linked', tidy, ?_, ?_, ?_, ?_⟩
  · rw [removeAt, found]
    simp only [within, if_true]
    exact run
  · rw [here, itemsAt_of_get? located found]
    exact permuted
  · rw [here, itemsAt_of_get? located found]
    exact kept
  · intro other elsewhere
    rw [items', items, if_neg elsewhere]
  · intro other
    rw [leads, moves]

/-- The route of a box is the way to its address, when that has a node. -/
theorem route_spec (box : Box D) (linked : Linked border nodes) (depth : Nat) (last : Step D)
    (before : List (Step D)) (address : Address D) (way : Way nodes address (last :: before))
    {key : Key} (target : locate nodes (box.lead border depth address) = some key) :
    ∃ steps, route box nodes depth last before = .ok steps ∧
      Way nodes (box.lead border depth address) steps := by
  induction depth generalizing last before address with
  | zero => exact ⟨_, rfl, way⟩
  | succ depth ih =>
    have located := way.locate
    obtain ⟨node, found⟩ := linked.present located
    rw [Box.lead] at target
    rw [route, found, Box.lead]
    simp only
    rw [linked.center located found]
    cases taken : box.corner? (Address.center border address) with
    | none => exact ⟨_, rfl, way⟩
    | some corner =>
      simp only [taken] at target ⊢
      obtain ⟨child, below⟩ := located_of_suffix target
        (box.lead_suffix border depth (corner :: address))
      have existing : node.child? corner = some child := by
        rw [← child?_of_get? found, ← locate_cons located, below]
      rw [existing]
      exact ih _ _ _ (.step way below) target

/-- Erasing an item that is stored at the address of its box removes the first copy there. -/
theorem erased_eq_removeAt [DecidableEq R] {tree : Tree R D} (sound : tree.Sound) {item : R}
    {box : Box D} (stored : item ∈ itemsAt tree.nodes (box.address tree.border)) :
    ∃ steps position, Way tree.nodes (box.address tree.border) steps ∧
      (itemsAt tree.nodes (box.address tree.border))[position]? = some item ∧
      tree.erased item box = (removeAt tree.nodes steps position).map Prod.fst := by
  obtain ⟨key, target⟩ := located_of_mem_itemsAt stored
  obtain ⟨steps, path, way⟩ := route_spec box sound.linked (levels tree - 1) ⟨root, 0⟩ [] [] .root
    target
  obtain ⟨last, before, rfl⟩ := way.exists_last
  have located : locate tree.nodes (box.address tree.border) = some last.node := way.locate
  obtain ⟨node, found⟩ := sound.linked.present located
  have held : item ∈ node.items := by
    rw [itemsAt_of_get? located found] at stored
    exact Array.mem_toList_iff.mp stored
  obtain ⟨position, first⟩ : ∃ position, node.items.findIdx? (· == item) = some position := by
    cases search : node.items.findIdx? (· == item) with
    | none =>
      rw [Array.findIdx?_eq_none_iff] at search
      have missed := search item held
      simp at missed
    | some position => exact ⟨position, rfl⟩
  have place : (itemsAt tree.nodes (box.address tree.border))[position]? = some item := by
    rw [Array.findIdx?_eq_some_iff_getElem] at first
    obtain ⟨within, equal, -⟩ := first
    rw [itemsAt_of_get? located found, Array.getElem?_toList, Array.getElem?_eq_getElem within]
    exact congrArg some (eq_of_beq equal)
  refine ⟨last :: before, position, way, place, ?_⟩
  simp only [erased, path, bind, Except.bind, List.head?_cons, Option.map_some,
    Option.getD_some, Tree.node, found, first]
  cases removeAt tree.nodes (last :: before) position <;> rfl

/-- Erasing an item that is stored at the address of its box succeeds and takes one copy away; the
items before that copy stay in their places, and the nodes that stay keep their keys. -/
theorem erased_spec [DecidableEq R] {tree : Tree R D} (sound : tree.Sound) {item : R}
    {box : Box D} (stored : item ∈ itemsAt tree.nodes (box.address tree.border)) :
    ∃ changed, tree.erased item box = .ok changed ∧ Linked tree.border changed ∧
      VacantOnlyAt changed [] ∧
      (item :: itemsAt changed (box.address tree.border)).Perm
        (itemsAt tree.nodes (box.address tree.border)) ∧
      (∃ position, (itemsAt tree.nodes (box.address tree.border))[position]? = some item ∧
        (itemsAt changed (box.address tree.border)).take position =
          (itemsAt tree.nodes (box.address tree.border)).take position) ∧
      (∀ other, other ≠ box.address tree.border →
        itemsAt changed other = itemsAt tree.nodes other) ∧
      ∀ {other held}, locate changed other = some held → locate tree.nodes other = some held := by
  obtain ⟨steps, position, way, place, same⟩ := erased_eq_removeAt sound stored
  obtain ⟨changed, count, run, -, linked, tidy, permuted, kept, others, leads⟩ :=
    removeAt_spec sound way place
  refine ⟨changed, ?_, linked, tidy, permuted, ⟨position, place, kept⟩, others, ?_⟩
  · rw [same, run]
    rfl
  · intro other held known
    rw [leads] at known
    split at known
    · cases known
    · exact known

/-- The route of a box ends at a missing child when no node has its address. -/
theorem route_missing (box : Box D) (linked : Linked border nodes) (depth : Nat) (last : Step D)
    (before : List (Step D)) (address : Address D) (way : Way nodes address (last :: before))
    (nowhere : locate nodes (box.lead border depth address) = none) :
    route box nodes depth last before = .error .missingChild := by
  induction depth generalizing last before address with
  | zero =>
    rw [Box.lead, way.locate] at nowhere
    cases nowhere
  | succ depth ih =>
    have located := way.locate
    obtain ⟨node, found⟩ := linked.present located
    rw [Box.lead] at nowhere
    rw [route, found]
    simp only
    rw [linked.center located found]
    cases taken : box.corner? (Address.center border address) with
    | none =>
      rw [taken] at nowhere
      simp only [located] at nowhere
      cases nowhere
    | some corner =>
      simp only [taken] at nowhere ⊢
      cases existing : node.child? corner with
      | none => rfl
      | some child =>
        have below : locate nodes (corner :: address) = some child := by
          rw [locate_child located found, existing]
        exact ih _ _ _ (.step way below) nowhere

/-- Nothing is erased where the box leads to no node. -/
theorem erased_missingChild [DecidableEq R] {tree : Tree R D} (sound : tree.Sound) (item : R)
    {box : Box D} (nowhere : locate tree.nodes (box.address tree.border) = none) :
    tree.erased item box = .error .missingChild := by
  have missed := route_missing box sound.linked (levels tree - 1) ⟨root, 0⟩ [] [] .root nowhere
  simp only [erased, missed, bind, Except.bind]

/-- Nothing is erased where the box leads to a node without the item. -/
theorem erased_missingItem [DecidableEq R] {tree : Tree R D} (sound : tree.Sound) {item : R}
    {box : Box D} {key : Key} (target : locate tree.nodes (box.address tree.border) = some key)
    (absent : item ∉ itemsAt tree.nodes (box.address tree.border)) :
    tree.erased item box = .error .missingItem := by
  obtain ⟨steps, path, way⟩ :=
    route_spec box sound.linked (levels tree - 1) ⟨root, 0⟩ [] [] .root target
  obtain ⟨last, before, rfl⟩ := way.exists_last
  have located : locate tree.nodes (box.address tree.border) = some last.node := way.locate
  obtain ⟨node, found⟩ := sound.linked.present located
  have missed : node.items.findIdx? (· == item) = none := by
    rw [itemsAt_of_get? located found] at absent
    rw [Array.findIdx?_eq_none_iff]
    intro other member
    rw [beq_eq_false_iff_ne]
    rintro rfl
    exact absent (Array.mem_toList_iff.mpr member)
  simp only [erased, path, bind, Except.bind, List.head?_cons, Option.map_some,
    Option.getD_some, Tree.node, found, missed]

/-- Erasing fails only for want of the item where its box leads, and leaves a sound tree when it
succeeds. -/
theorem erased_cases [DecidableEq R] {tree : Tree R D} (sound : tree.Sound) (item : R)
    (box : Box D) :
    (∃ changed, tree.erased item box = .ok changed ∧ Linked tree.border changed ∧
        VacantOnlyAt changed []) ∨
      tree.erased item box = .error .missingChild ∨
      tree.erased item box = .error .missingItem := by
  cases target : locate tree.nodes (box.address tree.border) with
  | none => exact .inr (.inl (erased_missingChild sound item target))
  | some key =>
    by_cases stored : item ∈ itemsAt tree.nodes (box.address tree.border)
    · obtain ⟨changed, run, linked, tidy, -⟩ := erased_spec sound stored
      exact .inl ⟨changed, run, linked, tidy⟩
    · exact .inr (.inr (erased_missingItem sound target stored))

end Tree

end SpatialIndex.Partition
