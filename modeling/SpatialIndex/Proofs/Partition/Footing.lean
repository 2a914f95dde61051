import SpatialIndex.Proofs.Partition.Reached

/-!
# What a walk stands on

The way of a walk that stands in a tree leads over nodes that are there, from the root down, each
the child of the one above it. A box walk names that child twice: by the corner of its frame, and
by the corner that the frame above has passed last. The two agree in every stack that a walk can
have, so a removal releases the same nodes by either.
-/
namespace SpatialIndex.Partition

variable {α R : Type} {D : Nat}

/-! ## The nodes on a way -/

/-- A way of several steps ends with a child of the node before it. -/
theorem Way.exists_child {nodes : Pool (Node R D)} {address : Address D} {last parent : Step D}
    {above : List (Step D)} (way : Way nodes address (last :: parent :: above)) :
    ∃ upper, address = last.corner :: upper ∧ Way nodes upper (parent :: above) ∧
      Partition.locate nodes (last.corner :: upper) = some last.node ∧
      child? nodes parent.node last.corner = some last.node := by
  cases way with
  | @step upper _ key corner before located =>
    have linked := (locate_cons before.locate corner).symm.trans located
    exact ⟨upper, rfl, before, located, linked⟩

/-- What a list of steps has to be for a walk to use it. -/
structure Trail (nodes : Pool (Node R D)) (steps : List (Step D)) : Prop where
  /-- Every node is there. -/
  alive : ∀ step ∈ steps, ∃ node, nodes.get? step.node = some node
  /-- Every node but the first is a child of the one before it. -/
  linked : steps.IsChain fun lower upper => child? nodes upper.node lower.corner = some lower.node
  /-- The first node is the root. -/
  rooted : ∀ step, steps.getLast? = some step → step.node = root

/-- The steps of a way from the root can be used by a walk. -/
theorem Way.trail {border : Nat} {nodes : Pool (Node R D)} (linked : Linked border nodes)
    {address : Address D} {steps : List (Step D)} (way : Way nodes address steps) :
    Trail nodes steps := by
  induction way with
  | root =>
    refine ⟨?_, List.isChain_singleton _, ?_⟩
    · intro step member
      rw [List.mem_singleton.mp member]
      exact linked.present (show Partition.locate nodes [] = some Partition.root from rfl)
    · intro step last
      rw [List.getLast?_singleton, Option.some.injEq] at last
      rw [← last]
  | @step upper steps key corner before located ih =>
    obtain ⟨parent, above, rfl⟩ := before.exists_last
    refine ⟨?_, ?_, ?_⟩
    · intro step member
      rcases List.mem_cons.mp member with rfl | earlier
      · exact linked.present located
      · exact ih.alive step earlier
    · have child := (locate_cons before.locate corner).symm.trans located
      exact List.isChain_cons_cons.mpr ⟨child, ih.linked⟩
    · intro step last
      rw [List.getLast?_cons_cons] at last
      exact ih.rooted step last

/-! ## The corners that a box walk has passed -/

namespace BoxWalk

/-- Every frame has passed the corner of the frame below it last. -/
def Passed (stack : List (BoxFrame D)) : Prop :=
  stack.IsChain fun lower upper => upper.next = lower.corner.toNat + 1

/-- The upper part of a stack does not depend on the corner from which its frame goes on. -/
theorem Passed.setNext {frame : BoxFrame D} {above : List (BoxFrame D)}
    (passed : Passed (frame :: above)) (next : Nat) : Passed ({ frame with next } :: above) := by
  cases above with
  | nil => exact List.isChain_singleton _
  | cons upper rest => exact List.isChain_cons_cons.mpr (List.isChain_cons_cons.mp passed)

/-- Going on passes the corner that it enters. -/
theorem Passed.follow {tree : Tree R D} {query : Box D} {stack further : List (BoxFrame D)}
    (passed : Passed stack) (run : follow tree query stack = .ok further) : Passed further := by
  induction stack with
  | nil =>
    cases run
    exact passed
  | cons frame above ih =>
    rw [BoxWalk.follow] at run
    split at run
    · cases run
    · split at run
      · exact ih passed.tail run
      · split at run
        · cases run
        · cases run
          exact List.isChain_cons_cons.mpr ⟨rfl, passed.setNext _⟩

/-- The upper frames of a stack have passed one another as all of them have. -/
theorem Passed.drop {stack : List (BoxFrame D)} (passed : Passed stack) (count : Nat) :
    Passed (stack.drop count) := List.IsChain.drop passed count

/-- A walk starts with a single frame, which has nothing to pass. -/
theorem passed_of_start {tree : Tree R D} {query : Box D} {walk : BoxWalk D}
    (run : start tree query = .ok walk) : Passed walk.stack := by
  unfold start at run
  simp only [Except.bind_eq_ok_iff] at run
  obtain ⟨⟨⟩, -, node, -, made⟩ := run
  cases made
  exact List.isChain_singleton _

/-- Frames that have passed one another do so after the walk has gone on. -/
theorem Passed.advance {tree : Tree R D} {walk next : BoxWalk D} (passed : Passed walk.stack)
    (run : walk.advance tree = .ok next) : Passed next.stack := by
  unfold BoxWalk.advance at run
  simp only [Except.bind_eq_ok_iff] at run
  obtain ⟨⟨⟩, -, further, followed, made⟩ := run
  cases made
  exact passed.follow followed

/-- Frames that have passed one another do so when the walk resumes after a removal. -/
theorem Passed.resume {tree : Tree R D} {walk next : BoxWalk D} {kept : Nat}
    (passed : Passed walk.stack) (run : walk.resume tree kept = .ok next) : Passed next.stack := by
  unfold BoxWalk.resume at run
  simp only at run
  split at run
  · obtain ⟨further, followed, made⟩ := Except.bind_eq_ok_iff.mp run
    cases made
    exact (passed.drop _).follow followed
  · cases run
    exact passed

/-- What a removal at a box walk asserts on its way up: the frame above a vacant node at the end of
the stack has passed a child, so counting back from its next one does not go below zero, and the
child that it has passed last is that node, now and after every release. -/
def Consistent (nodes : Pool (Node R D)) : List (BoxFrame D) → Prop
  | frame :: parent :: above =>
    ∀ node, nodes.get? frame.node = some node → node.isVacant = true →
      1 ≤ parent.next ∧
        child? nodes parent.node (BitVec.ofNat D (parent.next - 1)) = some frame.node ∧
        ∀ changed, Tree.release nodes parent.node frame.corner = .ok changed →
          Consistent changed (parent :: above)
  | _ => True

/-- In linked nodes the assertion holds for every stack whose frames have passed one another. -/
theorem Passed.consistent {border : Nat} {nodes : Pool (Node R D)} (linked : Linked border nodes)
    {address : Address D} {stack : List (BoxFrame D)} (passed : Passed stack)
    (way : Way nodes address (stack.map BoxFrame.toStep)) : Consistent nodes stack := by
  induction stack generalizing nodes address with
  | nil => trivial
  | cons frame rest ih =>
    cases rest with
    | nil => trivial
    | cons parent above =>
      obtain ⟨upper, rfl, before, located, child⟩ := way.exists_child
      have last := (List.isChain_cons_cons.mp passed).1
      have corner : BitVec.ofNat D (parent.next - 1) = frame.corner := by
        rw [last, Nat.add_sub_cancel, BitVec.ofNat_toNat, BitVec.setWidth_eq]
      have begun : 1 ≤ parent.next := last ▸ Nat.succ_pos _
      intro gone held nothing
      refine ⟨begun, corner ▸ child, fun changed release => ?_⟩
      have there : locate nodes upper = some parent.node := before.locate
      obtain ⟨node, found⟩ := linked.present there
      have taken : node.child? frame.corner = some frame.node :=
        (child?_of_get? found _).symm.trans child
      have made : released nodes parent.node node frame.corner frame.node = changed := by
        simp only [Tree.release, found, taken, held, nothing, if_true] at release
        exact Except.ok.inj release
      rw [← made]
      apply ih (linked.release there found taken held nothing) passed.tail
      apply before.congr
      intro other suffix
      rw [linked.locate_released there found taken held nothing, if_neg]
      rintro rfl
      have lengths := suffix.length_le
      rw [List.length_cons] at lengths
      omega

end BoxWalk

/-! ## Walks -/

namespace Walk

/-- Whether the frames of a box walk have passed one another. -/
def Aligned : Walk α D → Prop
  | box walk => BoxWalk.Passed walk.stack
  | ray _ => True

/-- What a walk relies on in its tree. -/
structure Intact (tree : Tree R D) (walk : Walk α D) : Prop where
  /-- Its way leads over nodes that are there, each a child of the one above. -/
  trail : Trail tree.nodes walk.way
  /-- Whatever item of the current node is removed, the assertion of a box walk holds at every
  release. -/
  consistent : ∀ boxWalk, walk = .box boxWalk → ∀ frame above node,
    boxWalk.stack = frame :: above → tree.nodes.get? frame.node = some node → ∀ position,
    BoxWalk.Consistent (tree.nodes.set frame.node (node.removeItem position)) boxWalk.stack

/-- A walk that stands in a tree has what it relies on. -/
theorem At.intact {tree : Tree R D} {walk : Walk α D} {place : Option (Address D)}
    (stands : At tree walk place) (linked : Linked tree.border tree.nodes)
    (aligned : walk.Aligned) : walk.Intact tree := by
  cases place with
  | none =>
    have finished := stands.way_eq_nil
    refine ⟨?_, ?_⟩
    · rw [finished]
      exact ⟨by simp, .nil, by simp⟩
    · rintro boxWalk rfl frame above node shape -
      rw [Walk.way, BoxWalk.way, shape] at finished
      cases finished
  | some address =>
    refine ⟨stands.way.trail linked, ?_⟩
    rintro boxWalk rfl frame above node - found position
    have changed := linked.setItems found (node.removeItem position).items
    have moves := locate_setItems found (node.removeItem position).items
    have way : Way tree.nodes address (boxWalk.stack.map BoxFrame.toStep) := stands.way
    exact BoxWalk.Passed.consistent changed aligned (way.congr fun above _ => moves above)

/-! ## Refusals -/

/-- The fault of a walk whose tree was changed by another. -/
def staleness : Walk α D → Fault
  | box _ => .staleBoxWalk
  | ray _ => .staleRayWalk

/-- A walk that does not know the tree as it is is refused by the guard. -/
theorem confirm_stale {tree : Tree R D} {walk : Walk α D} (stale : walk.epoch ≠ tree.epoch) :
    walk.confirm tree = .error walk.staleness := by
  cases walk with
  | box walk => exact if_neg stale
  | ray walk => exact if_neg stale

section Refused

variable {tree : Tree R D} {walk : Walk α D}

/-- A walk that does not know the tree as it is reads no items. -/
theorem items?_stale (stale : walk.epoch ≠ tree.epoch) :
    walk.items? tree = .error walk.staleness := by
  simp only [Walk.items?, confirm_stale stale, bind, Except.bind]

variable [Arithmetic α]

/-- A walk that does not know the tree as it is does not go on. -/
theorem advance_stale (stale : walk.epoch ≠ tree.epoch) :
    walk.advance tree = .error walk.staleness := by
  have refused := confirm_stale stale
  cases walk with
  | box walk =>
    have confirm : walk.confirm tree = .error .staleBoxWalk := refused
    simp only [Walk.advance, BoxWalk.advance, confirm, bind, Except.bind, staleness]
  | ray walk =>
    have confirm : walk.confirm tree = .error .staleRayWalk := refused
    simp only [Walk.advance, RayWalk.advance, confirm, bind, Except.bind, staleness]

/-- A walk that does not know the tree as it is removes no item. -/
theorem removeItem_stale (stale : walk.epoch ≠ tree.epoch) (position : Nat) :
    walk.removeItem tree position = .error walk.staleness := by
  simp only [Walk.removeItem, confirm_stale stale, bind, Except.bind]

/-- Nothing is removed at a walk that is over. -/
theorem At.removeItem_over (stands : At tree walk none) (position : Nat) :
    walk.removeItem tree position = .error .finishedWalk := by
  simp only [Walk.removeItem, stands.confirm, stands.way_eq_nil, Tree.removeAt, bind, Except.bind]

/-- Nothing is removed at a position without an item. -/
theorem At.removeItem_outside {address : Address D} (stands : At tree walk (some address))
    (linked : Linked tree.border tree.nodes) {position : Nat}
    (outside : (itemsAt tree.nodes address)[position]? = none) :
    walk.removeItem tree position = .error (.itemPosition position) := by
  obtain ⟨last, above, shape⟩ := stands.way.exists_last
  have way := stands.way
  rw [shape] at way
  obtain ⟨node, found⟩ := linked.present way.locate
  rw [itemsAt_of_get? way.locate found, Array.getElem?_toList, Array.getElem?_eq_none_iff]
    at outside
  have beyond : ¬position < node.items.size := Nat.not_lt.mpr outside
  simp only [Walk.removeItem, stands.confirm, shape, Tree.removeAt, found, beyond, if_false, bind,
    Except.bind]

end Refused

/-! ## Walks stay aligned -/

variable [Arithmetic α]

/-- Going on keeps a walk aligned. -/
theorem Aligned.advance {tree : Tree R D} {walk next : Walk α D} (aligned : walk.Aligned)
    (run : walk.advance tree = .ok next) : next.Aligned := by
  cases walk with
  | box walk =>
    obtain ⟨further, advanced, made⟩ := Except.bind_eq_ok_iff.mp run
    cases made
    exact BoxWalk.Passed.advance aligned advanced
  | ray walk =>
    obtain ⟨further, -, made⟩ := Except.bind_eq_ok_iff.mp run
    cases made
    trivial

/-- Removing an item keeps a walk aligned. -/
theorem Aligned.removeItem {tree changed : Tree R D} {walk next : Walk α D} {position : Nat}
    {released : Bool} (aligned : walk.Aligned)
    (run : walk.removeItem tree position = .ok (changed, next, released)) : next.Aligned := by
  unfold Walk.removeItem at run
  simp only [Except.bind_eq_ok_iff] at run
  obtain ⟨⟨⟩, -, ⟨nodes, way⟩, -, resumed, resume, made⟩ := run
  cases made
  cases walk with
  | box walk =>
    obtain ⟨further, resumes, made⟩ := Except.bind_eq_ok_iff.mp resume
    cases made
    exact BoxWalk.Passed.resume aligned resumes
  | ray walk =>
    obtain ⟨further, -, made⟩ := Except.bind_eq_ok_iff.mp resume
    cases made
    trivial

end Walk

end SpatialIndex.Partition
