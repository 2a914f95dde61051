import SpatialIndex.Proofs.Partition.Links

/-!
# Changes of linked nodes

The three changes from which every mutation of a partition is made: new items of one node, a new
vacant child, and the release of a vacant child. Each keeps the pool linked and changes the
located addresses and the items at one address only.
-/
namespace SpatialIndex.Partition

variable {R : Type} {D : Nat} {border : Nat} {nodes : Pool (Node R D)}

/-! ## Items -/

/-- New items of one node leave every link as it was. -/
theorem locate_setItems {key : Key} {node : Node R D} (found : nodes.get? key = some node)
    (items : Array R) (address : Address D) :
    locate (nodes.set key { node with items }) address = locate nodes address := by
  apply locate_congr
  intro other corner
  unfold child?
  rw [Pool.get?_set]
  by_cases same : other = key
  · subst same
    simp [found, Node.child?]
  · rw [if_neg same]

/-- New items of one node keep the pool linked. -/
theorem Linked.setItems (linked : Linked border nodes) {key : Key} {node : Node R D}
    (found : nodes.get? key = some node) (items : Array R) :
    Linked border (nodes.set key { node with items }) := by
  have former {other : Key} {read : Node R D}
      (reads : (nodes.set key { node with items }).get? other = some read) :
      ∃ before, nodes.get? other = some before ∧ read.center = before.center ∧
        read.childCount = before.childCount ∧ read.children = before.children := by
    rw [Pool.get?_set] at reads
    by_cases same : other = key
    · subst same
      rw [if_pos rfl, found, Option.map_some, Option.some.injEq] at reads
      exact ⟨node, found, by rw [← reads], by rw [← reads], by rw [← reads]⟩
    · rw [if_neg same] at reads
      exact ⟨read, reads, rfl, rfl, rfl⟩
  constructor
  · exact linked.formed.set _ _
  · intro other read reads
    obtain ⟨before, held, -⟩ := former reads
    obtain ⟨address, located⟩ := linked.located held
    exact ⟨address, by rw [locate_setItems found, located]⟩
  · intro address other located
    rw [locate_setItems found] at located
    obtain ⟨before, held⟩ := linked.present located
    rw [Pool.get?_set]
    by_cases same : other = key
    · exact ⟨{ node with items }, by simp [same, found]⟩
    · exact ⟨before, by rw [if_neg same, held]⟩
  · intro first second other at₁ at₂
    rw [locate_setItems found] at at₁ at₂
    exact linked.unique at₁ at₂
  · intro address other read located reads
    rw [locate_setItems found] at located
    obtain ⟨before, held, center, -⟩ := former reads
    rw [center, linked.center located held]
  · intro address other located
    rw [locate_setItems found] at located
    exact linked.shallow located
  · intro other read reads
    obtain ⟨before, held, -, count, children⟩ := former reads
    unfold Node.Counted
    rw [count, children]
    exact linked.counted held

/-- New items appear at the address of their node. -/
theorem Linked.itemsAt_setItems (linked : Linked border nodes) {address : Address D} {key : Key}
    {node : Node R D} (located : locate nodes address = some key)
    (found : nodes.get? key = some node) (items : Array R) (other : Address D) :
    itemsAt (nodes.set key { node with items }) other =
      if other = address then items.toList else itemsAt nodes other := by
  unfold itemsAt nodeAt
  rw [locate_setItems found]
  by_cases same : other = address
  · subst same
    rw [located]
    simp [Pool.get?_set, found]
  · rw [if_neg same]
    cases reached : locate nodes other with
    | none => rfl
    | some k =>
      have different : k ≠ key := by
        rintro rfl
        exact same (linked.unique reached located)
      simp [Pool.get?_set, different]

/-! ## A new child -/

section Adopt

variable {address : Address D} {key : Key} {node : Node R D} {corner : Corner D}

/-- The pool with a vacant child in a corner of a node. -/
def adopted (nodes : Pool (Node R D)) (key : Key) (node : Node R D) (corner : Corner D)
    (center : Cell D) : Pool (Node R D) :=
  (nodes.insert (Node.vacant center)).2.set key
    (node.adopt corner (nodes.insert (Node.vacant center)).1)

/-- What the keys find after a child was taken in. -/
theorem get?_adopted (corner : Corner D) (formed : nodes.WellFormed)
    (found : nodes.get? key = some node)
    (center : Cell D) (other : Key) :
    (adopted nodes key node corner center).get? other =
      if other = key then some (node.adopt corner (nodes.insert (Node.vacant center)).1)
      else if other = (nodes.insert (Node.vacant center : Node R D)).1 then
        some (Node.vacant center)
      else nodes.get? other := by
  have fresh := Pool.get?_insert_key formed (Node.vacant center)
  unfold adopted
  rw [Pool.get?_set]
  by_cases same : other = key
  · subst same
    have different : other ≠ (nodes.insert (Node.vacant center)).1 := by
      intro equal
      rw [← equal, found] at fresh
      simp at fresh
    rw [if_pos rfl, if_pos rfl, Pool.get?_insert formed, if_neg different, found]
    rfl
  · rw [if_neg same, if_neg same, Pool.get?_insert formed]

/-- Taking a child in adds one address. -/
theorem Linked.locate_adopted (linked : Linked border nodes)
    (located : locate nodes address = some key) (found : nodes.get? key = some node)
    (free : node.child? corner = none) (center : Cell D) (other : Address D) :
    locate (adopted nodes key node corner center) other =
      if other = corner :: address then some (nodes.insert (Node.vacant center : Node R D)).1
      else locate nodes other := by
  have fresh := Pool.get?_insert_key linked.formed (Node.vacant center : Node R D)
  have links (k : Key) (c : Corner D) : child? (adopted nodes key node corner center) k c =
      if k = key ∧ c = corner then some (nodes.insert (Node.vacant center : Node R D)).1
      else child? nodes k c := by
    unfold child?
    rw [get?_adopted corner linked.formed found]
    by_cases same : k = key
    · subst same
      rw [if_pos rfl, Option.bind_some, Node.child?_adopt, found, Option.bind_some]
      simp
    · have elsewhere : ¬(k = key ∧ c = corner) := fun both => same both.1
      rw [if_neg same, if_neg elsewhere]
      by_cases new : k = (nodes.insert (Node.vacant center : Node R D)).1
      · rw [if_pos new, Option.bind_some, Node.child?_vacant, new, fresh, Option.bind_none]
      · rw [if_neg new]
  apply locate_relink links located (fun other reached => linked.unique reached located)
  · intro k taken
    rw [child?_of_get? found, free] at taken
    simp at taken
  · intro k taken c
    rw [Option.some.injEq] at taken
    have different : k ≠ key := by
      rintro rfl
      rw [taken, found] at fresh
      simp at fresh
    rw [links, if_neg (fun both => different both.1), child?, ← taken, fresh, Option.bind_none]

/-- Taking a child in keeps the pool linked. -/
theorem Linked.adopt (linked : Linked border nodes) (located : locate nodes address = some key)
    (found : nodes.get? key = some node) (free : node.child? corner = none)
    (room : address.length + 1 < levelCount border) :
    Linked border (adopted nodes key node corner
      (corner.shift node.center (border / 2 ^ (address.length + 2)))) := by
  generalize place : corner.shift node.center (border / 2 ^ (address.length + 2)) = center
  have fresh := Pool.get?_insert_key linked.formed (Node.vacant center : Node R D)
  have locate := linked.locate_adopted located found free center
  have reading := get?_adopted corner linked.formed found center
  generalize (nodes.insert (Node.vacant center : Node R D)).1 = child at fresh locate reading
  have unlocated : Partition.locate nodes (corner :: address) = none := by
    rw [locate_child located found, free]
  have old {k : Key} {held : Node R D} (holds : nodes.get? k = some held) : k ≠ child := by
    rintro rfl
    rw [fresh] at holds
    cases holds
  -- an address leads to the new child, or where it led before
  have former {other : Address D} {k : Key}
      (reached : Partition.locate (adopted nodes key node corner center) other = some k) :
      (other = corner :: address ∧ k = child) ∨
        (Partition.locate nodes other = some k ∧ k ≠ child) := by
    rw [locate] at reached
    split at reached
    · exact .inl ⟨‹_›, (Option.some.inj reached).symm⟩
    · obtain ⟨held, holds⟩ := linked.present reached
      exact .inr ⟨reached, old holds⟩
  -- a key finds the node that adopts, the new child or what it found before
  have before {k : Key} {read : Node R D}
      (reads : (adopted nodes key node corner center).get? k = some read) :
      (k = key ∧ read = node.adopt corner child) ∨ (k = child ∧ read = Node.vacant center) ∨
        nodes.get? k = some read := by
    rw [reading] at reads
    split at reads
    · exact .inl ⟨‹_›, (Option.some.inj reads).symm⟩
    · split at reads
      · exact .inr (.inl ⟨‹_›, (Option.some.inj reads).symm⟩)
      · exact .inr (.inr reads)
  constructor
  case formed => exact (linked.formed.insert _).set _ _
  case located =>
    intro k read reads
    have stays {held : Node R D} (holds : nodes.get? k = some held) : ∃ other,
        Partition.locate (adopted nodes key node corner center) other = some k := by
      obtain ⟨other, reached⟩ := linked.located holds
      refine ⟨other, ?_⟩
      rw [locate, if_neg, reached]
      rintro rfl
      rw [unlocated] at reached
      cases reached
    rcases before reads with ⟨rfl, -⟩ | ⟨rfl, -⟩ | holds
    · exact stays found
    · exact ⟨corner :: address, by rw [locate, if_pos rfl]⟩
    · exact stays holds
  case present =>
    intro other k reached
    rw [reading]
    split
    · exact ⟨_, rfl⟩
    · rcases former reached with ⟨-, rfl⟩ | ⟨stays, different⟩
      · exact ⟨_, if_pos rfl⟩
      · rw [if_neg different]
        exact linked.present stays
  case unique =>
    intro first second k at₁ at₂
    rcases former at₁ with ⟨rfl, same⟩ | ⟨was₁, different⟩ <;>
      rcases former at₂ with ⟨rfl, again⟩ | ⟨was₂, other⟩
    · rfl
    · exact absurd same other
    · exact absurd again different
    · exact linked.unique was₁ was₂
  case center =>
    intro other k read reached reads
    rcases former reached with ⟨rfl, rfl⟩ | ⟨was, different⟩
    · rcases before reads with ⟨same, -⟩ | ⟨-, rfl⟩ | holds
      · exact absurd same.symm (old found)
      · rw [Address.center, ← linked.center located found, place, Node.vacant]
      · exact absurd rfl (old holds)
    · rcases before reads with ⟨rfl, rfl⟩ | ⟨same, -⟩ | holds
      · show node.center = _
        exact linked.center was found
      · exact absurd same different
      · exact linked.center was holds
  case shallow =>
    intro other k reached
    rcases former reached with ⟨rfl, -⟩ | ⟨was, -⟩
    · rw [List.length_cons]
      exact room
    · exact linked.shallow was
  case counted =>
    intro k read reads
    rcases before reads with ⟨-, rfl⟩ | ⟨-, rfl⟩ | holds
    · exact (linked.counted found).adopt _ free
    · exact Node.counted_vacant _
    · exact linked.counted holds

/-- A new child brings no items. -/
theorem Linked.itemsAt_adopted (linked : Linked border nodes)
    (located : locate nodes address = some key) (found : nodes.get? key = some node)
    (free : node.child? corner = none) (center : Cell D) (other : Address D) :
    itemsAt (adopted nodes key node corner center) other = itemsAt nodes other := by
  have fresh := Pool.get?_insert_key linked.formed (Node.vacant center : Node R D)
  have unlocated : locate nodes (corner :: address) = none := by
    rw [locate_child located found, free]
  unfold itemsAt nodeAt
  rw [linked.locate_adopted located found free]
  by_cases here : other = corner :: address
  · have different : (nodes.insert (Node.vacant center : Node R D)).1 ≠ key := by
      intro same
      rw [same, found] at fresh
      simp at fresh
    rw [if_pos here, here, unlocated, Option.bind_some, get?_adopted _ linked.formed found,
      if_neg different, if_pos rfl]
    rfl
  · rw [if_neg here]
    cases reached : locate nodes other with
    | none => rfl
    | some k =>
      obtain ⟨held, holds⟩ := linked.present reached
      have old : k ≠ (nodes.insert (Node.vacant center : Node R D)).1 := by
        rintro rfl
        rw [fresh] at holds
        simp at holds
      rw [Option.bind_some, Option.bind_some, get?_adopted _ linked.formed found, if_neg old]
      by_cases same : k = key
      · rw [if_pos same, same, found]
        rfl
      · rw [if_neg same]

end Adopt

/-! ## A child released -/

section Release

variable {address : Address D} {key child : Key} {node gone : Node R D} {corner : Corner D}

/-- The pool without the child of a corner. -/
def released (nodes : Pool (Node R D)) (key : Key) (node : Node R D) (corner : Corner D)
    (child : Key) : Pool (Node R D) :=
  (nodes.set key (node.abandon corner)).remove child

/-- What the keys find after a child was released. -/
theorem get?_released (corner : Corner D) (child : Key)
    (found : nodes.get? key = some node) (other : Key) :
    (released nodes key node corner child).get? other =
      if other = child then none
      else if other = key then some (node.abandon corner)
      else nodes.get? other := by
  unfold released
  rw [Pool.get?_remove]
  by_cases gone : other = child
  · rw [if_pos gone, if_pos gone]
  · rw [if_neg gone, if_neg gone, Pool.get?_set, found]
    rfl

/-- A child is another node than its parent. -/
theorem Linked.child_ne (linked : Linked border nodes) (located : locate nodes address = some key)
    (found : nodes.get? key = some node) (taken : node.child? corner = some child) :
    child ≠ key := by
  rintro rfl
  have below : locate nodes (corner :: address) = some child :=
    (locate_child located found corner).trans taken
  have lengths := congrArg List.length (linked.unique below located)
  simp at lengths

/-- Releasing a vacant child takes one address away. -/
theorem Linked.locate_released (linked : Linked border nodes)
    (located : locate nodes address = some key) (found : nodes.get? key = some node)
    (taken : node.child? corner = some child) (held : nodes.get? child = some gone)
    (nothing : gone.isVacant = true) (other : Address D) :
    locate (released nodes key node corner child) other =
      if other = corner :: address then none else locate nodes other := by
  have different := linked.child_ne located found taken
  have childless (c : Corner D) : child? nodes child c = none := by
    rw [child?_of_get? held, (linked.counted held).child?_eq_none nothing]
  have links (k : Key) (c : Corner D) : child? (released nodes key node corner child) k c =
      if k = key ∧ c = corner then none else child? nodes k c := by
    unfold child?
    rw [get?_released corner child found]
    by_cases removed : k = child
    · have elsewhere : ¬(k = key ∧ c = corner) := fun both => different (removed ▸ both.1)
      rw [if_pos removed, if_neg elsewhere, removed]
      exact (childless c).symm
    · rw [if_neg removed]
      by_cases same : k = key
      · subst same
        rw [if_pos rfl, Option.bind_some, Node.child?_abandon, found, Option.bind_some]
        simp
      · have elsewhere : ¬(k = key ∧ c = corner) := fun both => same both.1
        rw [if_neg same, if_neg elsewhere]
  apply locate_relink links located (fun other reached => linked.unique reached located)
  · intro k reached c
    rw [child?_of_get? found, taken, Option.some.injEq] at reached
    rw [← reached, childless]
  · intro k absurd
    simp at absurd

/-- Releasing a vacant child keeps the pool linked. -/
theorem Linked.release (linked : Linked border nodes) (located : locate nodes address = some key)
    (found : nodes.get? key = some node) (taken : node.child? corner = some child)
    (held : nodes.get? child = some gone) (nothing : gone.isVacant = true) :
    Linked border (released nodes key node corner child) := by
  have locate := linked.locate_released located found taken held nothing
  have reading := get?_released corner child found
  have below : Partition.locate nodes (corner :: address) = some child :=
    (locate_child located found corner).trans taken
  have former {other : Address D} {k : Key}
      (reached : Partition.locate (released nodes key node corner child) other = some k) :
      other ≠ corner :: address ∧ Partition.locate nodes other = some k := by
    rw [locate] at reached
    by_cases here : other = corner :: address
    · rw [if_pos here] at reached
      simp at reached
    · rw [if_neg here] at reached
      exact ⟨here, reached⟩
  have before {k : Key} {read : Node R D}
      (reads : (released nodes key node corner child).get? k = some read) : k ≠ child ∧
        ((k = key ∧ read = node.abandon corner) ∨ nodes.get? k = some read) := by
    rw [reading] at reads
    by_cases removed : k = child
    · rw [if_pos removed] at reads
      simp at reads
    · rw [if_neg removed] at reads
      refine ⟨removed, ?_⟩
      by_cases same : k = key
      · rw [if_pos same, Option.some.injEq] at reads
        exact .inl ⟨same, reads.symm⟩
      · rw [if_neg same] at reads
        exact .inr reads
  constructor
  case formed => exact (linked.formed.set _ _).remove _
  case located =>
    intro k read reads
    obtain ⟨kept, origin⟩ := before reads
    have held' : ∃ old, nodes.get? k = some old := by
      rcases origin with ⟨rfl, -⟩ | old
      · exact ⟨node, found⟩
      · exact ⟨read, old⟩
    obtain ⟨old, holds⟩ := held'
    obtain ⟨other, reached⟩ := linked.located holds
    have elsewhere : other ≠ corner :: address := by
      rintro rfl
      rw [below, Option.some.injEq] at reached
      exact kept reached.symm
    exact ⟨other, by rw [locate, if_neg elsewhere, reached]⟩
  case present =>
    intro other k reached
    obtain ⟨elsewhere, stayed⟩ := former reached
    obtain ⟨old, holds⟩ := linked.present stayed
    have kept : k ≠ child := by
      rintro rfl
      exact elsewhere (linked.unique stayed below)
    rw [reading, if_neg kept]
    by_cases same : k = key
    · exact ⟨_, if_pos same⟩
    · exact ⟨old, by rw [if_neg same, holds]⟩
  case unique =>
    intro first second k at₁ at₂
    exact linked.unique (former at₁).2 (former at₂).2
  case center =>
    intro other k read reached reads
    rcases (before reads).2 with ⟨rfl, rfl⟩ | old
    · show node.center = _
      exact linked.center (former reached).2 found
    · exact linked.center (former reached).2 old
  case shallow =>
    intro other k reached
    exact linked.shallow (former reached).2
  case counted =>
    intro k read reads
    rcases (before reads).2 with ⟨rfl, rfl⟩ | old
    · exact (linked.counted found).abandon taken
    · exact linked.counted old

/-- A vacant child takes no items away. -/
theorem Linked.itemsAt_released (linked : Linked border nodes)
    (located : locate nodes address = some key) (found : nodes.get? key = some node)
    (taken : node.child? corner = some child) (held : nodes.get? child = some gone)
    (nothing : gone.isVacant = true) (other : Address D) :
    itemsAt (released nodes key node corner child) other = itemsAt nodes other := by
  have below : locate nodes (corner :: address) = some child :=
    (locate_child located found corner).trans taken
  unfold itemsAt nodeAt
  rw [linked.locate_released located found taken held nothing]
  by_cases here : other = corner :: address
  · rw [if_pos here, here, below, Option.bind_none, Option.bind_some, held]
    unfold Node.isVacant at nothing
    simp only [Bool.and_eq_true, Array.isEmpty_iff] at nothing
    simp [nothing.1]
  · rw [if_neg here]
    cases reached : locate nodes other with
    | none => rfl
    | some k =>
      have kept : k ≠ child := by
        rintro rfl
        exact here (linked.unique reached below)
      rw [Option.bind_some, Option.bind_some, get?_released _ _ found, if_neg kept]
      by_cases same : k = key
      · rw [if_pos same, same, found]
        rfl
      · rw [if_neg same]

end Release

end SpatialIndex.Partition
