import SpatialIndex.Proofs.Partition.Mutation
import Mathlib.Data.List.FinRange

/-!
# What a box walk still has to visit

The stack of a box walk is the way to its node, with the least corner of every node on it that is
not visited yet. The nodes ahead are those beyond such a corner whose whole way the query admits.
Going on visits one of them, and the others stay ahead: the walk neither skips nor repeats a
node.
-/
namespace SpatialIndex.Partition

variable {R : Type} {D : Nat} {border : Nat} {nodes : Pool (Node R D)} {query : Box D}

/-- The way to an address is admitted when a longer way is. -/
theorem Box.AdmitsAll.suffix {address above : Address D}
    (admitted : query.AdmitsAll border address) (suffix : above <:+ address) :
    query.AdmitsAll border above := by
  induction address with
  | nil =>
    rw [List.suffix_nil.mp suffix]
    trivial
  | cons corner rest ih =>
    rcases List.suffix_cons_iff.mp suffix with rfl | shorter
    · exact admitted
    · exact ih admitted.2 shorter

namespace BoxFrame

/-- A frame lets exactly the corners pass that the query admits at the center of an address. -/
def Sees (border : Nat) (query : Box D) (address : Address D) (frame : BoxFrame D) : Prop :=
  ∀ corner : Corner D,
    corner &&& frame.mask = frame.half ↔ query.Admits (Address.center border address) corner

/-- The frame of a node that is entered sees the corners that the query admits at its center. -/
theorem sees_enter {address : Address D} {node : Node R D} (step : Step D)
    (center : node.center = Address.center border address) :
    (enter query step node).Sees border query address := by
  intro corner
  rw [mask_iff_admits, center]

/-- Without a next child, no corner left has a child that the query can meet. -/
theorem nextChild?_eq_none {frame : BoxFrame D} {node : Node R D}
    (none_left : frame.nextChild? node = none) {corner : Corner D}
    (left : frame.next ≤ corner.toNat) (passes : corner &&& frame.mask = frame.half) :
    node.child? corner = none := by
  unfold nextChild? at none_left
  rw [List.findSome?_eq_none_iff] at none_left
  have skipped := none_left corner.toFin (List.mem_finRange _)
  have same : BitVec.ofFin corner.toFin = corner := rfl
  simp only [same] at skipped
  rw [if_pos ⟨left, passes⟩, Option.map_eq_none_iff] at skipped
  exact skipped

/-- The next child is the least corner left with a child that the query can meet. -/
theorem nextChild?_eq_some {frame : BoxFrame D} {node : Node R D} {step : Step D}
    (next : frame.nextChild? node = some step) :
    frame.next ≤ step.corner.toNat ∧ step.corner &&& frame.mask = frame.half ∧
      node.child? step.corner = some step.node ∧
      ∀ corner : Corner D, frame.next ≤ corner.toNat → corner.toNat < step.corner.toNat →
        corner &&& frame.mask = frame.half → node.child? corner = none := by
  unfold nextChild? at next
  rw [List.findSome?_eq_some_iff] at next
  obtain ⟨before, i, after, split, found, skipped⟩ := next
  simp only at found
  split at found
  · rename_i passes
    rw [Option.map_eq_some_iff] at found
    obtain ⟨child, taken, rfl⟩ := found
    refine ⟨passes.1, passes.2, taken, ?_⟩
    intro corner left lower mask
    have ordered := List.pairwise_lt_finRange (2 ^ D)
    have member : corner.toFin ∈ before ++ i :: after := by
      rw [← split]
      exact List.mem_finRange _
    rw [split, List.pairwise_append, List.pairwise_cons] at ordered
    have earlier : corner.toFin ∈ before := by
      rcases List.mem_append.mp member with early | late
      · exact early
      · rcases List.mem_cons.mp late with same | late
        · rw [← same] at lower
          exact absurd lower (Nat.lt_irrefl _)
        · have later : i < corner.toFin := ordered.2.1.1 _ late
          exact absurd lower (Nat.lt_asymm later)
    have missed := skipped _ earlier
    have same : BitVec.ofFin corner.toFin = corner := rfl
    simp only [same] at missed
    rw [if_pos ⟨left, mask⟩, Option.map_eq_none_iff] at missed
    exact missed
  · simp at found

end BoxFrame

namespace BoxWalk

/-! ## The stack -/

/-- The stack of a walk that stands at an address. -/
inductive Stack (border : Nat) (nodes : Pool (Node R D)) (query : Box D) :
    Address D → List (BoxFrame D) → Prop
  /-- The walk stands at the root. -/
  | root {frame : BoxFrame D} : frame.toStep = ⟨root, 0⟩ → frame.Sees border query [] →
    Stack border nodes query [] [frame]
  /-- The walk stands at a child that its parent has passed. -/
  | step {address : Address D} {frame parent : BoxFrame D} {above : List (BoxFrame D)} :
    Stack border nodes query address (parent :: above) →
    locate nodes (frame.corner :: address) = some frame.node →
    frame.Sees border query (frame.corner :: address) →
    frame.corner.toNat < parent.next →
    query.Admits (Address.center border address) frame.corner →
    Stack border nodes query (frame.corner :: address) (frame :: parent :: above)

/-- The addresses beyond the corners that are not visited yet. -/
def Beyond : Address D → List (BoxFrame D) → Address D → Prop
  | _, [], _ => False
  | place, frame :: above, address =>
    (∃ corner : Corner D, frame.next ≤ corner.toNat ∧ corner :: place <:+ address) ∨
      Beyond place.tail above address

/-- What lies below an address beyond the corners lies beyond them too. -/
theorem Beyond.below {address lower : Address D} (suffix : address <:+ lower)
    {place : Address D} {stack : List (BoxFrame D)} (beyond : Beyond place stack address) :
    Beyond place stack lower := by
  induction stack generalizing place with
  | nil => exact beyond
  | cons frame above ih =>
    rcases beyond with ⟨corner, left, upper⟩ | beyond
    · exact .inl ⟨corner, left, upper.trans suffix⟩
    · exact .inr (ih beyond)

/-- The nodes that a stack at `place` still has to visit. -/
def Pending (border : Nat) (nodes : Pool (Node R D)) (query : Box D) (place : Address D)
    (stack : List (BoxFrame D)) (address : Address D) : Prop :=
  (∃ key, locate nodes address = some key) ∧ query.AdmitsAll border address ∧
    Beyond place stack address

namespace Stack

variable {place : Address D} {stack : List (BoxFrame D)}

/-- The frames of a stack are the way to its node. -/
theorem way (held : Stack border nodes query place stack) :
    Way nodes place (stack.map BoxFrame.toStep) := by
  induction held with
  | root start _ =>
    rw [List.map_singleton, start]
    exact .root
  | step _ located _ _ _ ih => exact .step ih located

/-- The query admits the way to the node of a stack. -/
theorem admitsAll (held : Stack border nodes query place stack) :
    query.AdmitsAll border place := by
  induction held with
  | root => trivial
  | step _ _ _ _ admitted ih => exact ⟨admitted, ih⟩

/-- The topmost frame of a stack sees the corners that the query admits where the stack ends. -/
theorem sees {frame : BoxFrame D} {above : List (BoxFrame D)}
    (held : Stack border nodes query place (frame :: above)) : frame.Sees border query place := by
  cases held with
  | root _ sees => exact sees
  | step _ _ sees _ _ => exact sees

/-- The corner to go on from is free to choose. -/
theorem setNext {frame : BoxFrame D} {above : List (BoxFrame D)}
    (held : Stack border nodes query place (frame :: above)) (next : Nat) :
    Stack border nodes query place ({ frame with next } :: above) := by
  cases held with
  | root start sees => exact .root start sees
  | step before located sees passed admitted =>
    let moved : BoxFrame D := { frame with next }
    show Stack border nodes query (moved.corner :: _) (moved :: _ :: _)
    exact .step before located sees passed admitted

/-- A stack stays one where the addresses on its way lead to the same keys. -/
theorem congr {changed : Pool (Node R D)} (held : Stack border nodes query place stack)
    (same : ∀ above, above <:+ place → locate changed above = locate nodes above) :
    Stack border changed query place stack := by
  induction held with
  | root start sees => exact .root start sees
  | step before located sees passed admitted ih =>
    refine .step (ih fun above suffix => same above (suffix.trans (List.suffix_cons _ _))) ?_ sees
      passed admitted
    rw [same _ (List.suffix_refl _), located]

/-- The upper part of a stack is a stack. -/
theorem drop (held : Stack border nodes query place stack) (count : Nat)
    (within : count ≤ place.length) :
    Stack border nodes query (place.drop count) (stack.drop count) := by
  induction count generalizing place stack with
  | zero => exact held
  | succ count ih =>
    cases held with
    | root => simp at within
    | step before located sees passed admitted =>
      rw [List.drop_succ_cons, List.drop_succ_cons]
      exact ih before (by simpa using within)

/-- Nothing below the node of a stack lies beyond the corners of the nodes above it. -/
theorem not_beyond_above {frame : BoxFrame D} {above : List (BoxFrame D)}
    (held : Stack border nodes query place (frame :: above)) {address : Address D}
    (below : place <:+ address) : ¬Beyond place.tail above address := by
  generalize shape : frame :: above = stack at held
  induction held generalizing frame above with
  | root =>
    obtain ⟨-, rfl⟩ := List.cons.inj shape
    exact id
  | @step upper current parent rest before located sees passed admitted ih =>
    obtain ⟨-, rfl⟩ := List.cons.inj shape
    have higher : upper <:+ address := (List.suffix_cons _ _).trans below
    rintro (⟨corner, left, beyond⟩ | beyond)
    · have same : corner :: upper = current.corner :: upper :=
        (List.suffix_iff_eq_drop.mp beyond).trans (List.suffix_iff_eq_drop.mp below).symm
      rw [(List.cons.inj same).1] at left
      omega
    · exact ih higher rfl beyond

/-- The node of a stack is not beyond its corners. -/
theorem not_beyond (held : Stack border nodes query place stack) : ¬Beyond place stack place := by
  cases stack with
  | nil => exact id
  | cons frame above =>
    rintro (⟨corner, -, beyond⟩ | beyond)
    · have longer := beyond.length_le
      rw [List.length_cons] at longer
      omega
    · exact held.not_beyond_above (List.suffix_refl _) beyond

end Stack

/-! ## Going on -/

section Follow

variable {place : Address D} {frame : BoxFrame D} {above : List (BoxFrame D)} {node : Node R D}

/-- When no child of a node is left, what is pending lies beyond the nodes above it. -/
theorem pending_above (located : locate nodes place = some frame.node)
    (found : nodes.get? frame.node = some node) (sees : frame.Sees border query place)
    (none_left : frame.nextChild? node = none) (address : Address D) :
    Pending border nodes query place (frame :: above) address ↔
      Pending border nodes query place.tail above address := by
  unfold Pending
  refine and_congr_right fun known => and_congr_right fun admitted => ?_
  constructor
  · rintro (⟨corner, left, beyond⟩ | beyond)
    · obtain ⟨key, known⟩ := known
      obtain ⟨child, below⟩ := located_of_suffix known beyond
      have passes := (sees corner).mpr (admitted.suffix beyond).1
      rw [locate_child located found, BoxFrame.nextChild?_eq_none none_left left passes] at below
      cases below
    · exact beyond
  · exact Or.inr

/-- What is below a child is the child itself, or lies below one of its corners. -/
theorem eq_or_beyond_of_suffix {entered : BoxFrame D} (start : entered.next = 0)
    {address : Address D} (below : place <:+ address) :
    address = place ∨ Beyond place (entered :: above) address := by
  by_cases here : address = place
  · exact .inl here
  · obtain ⟨front, rfl⟩ := below
    have nonempty : front ≠ [] := by
      rintro rfl
      exact here rfl
    refine .inr (.inl ⟨front.getLast nonempty, start ▸ Nat.zero_le _, front.dropLast, ?_⟩)
    rw [List.append_cons, List.dropLast_append_getLast]

/-- Entering the next child of a node visits it, and leaves the rest pending. -/
theorem pending_enter (held : Stack border nodes query place (frame :: above))
    (found : nodes.get? frame.node = some node) {step : Step D}
    (next : frame.nextChild? node = some step) {entered : BoxFrame D} (start : entered.next = 0)
    (address : Address D) :
    Pending border nodes query place (frame :: above) address ↔
      address = step.corner :: place ∨
        Pending border nodes query (step.corner :: place)
          (entered :: { frame with next := step.corner.toNat + 1 } :: above) address := by
  have located : locate nodes place = some frame.node := held.way.locate
  have sees := held.sees
  obtain ⟨left, passes, taken, skipped⟩ := BoxFrame.nextChild?_eq_some next
  constructor
  · rintro ⟨known, admitted, ⟨corner, remaining, beyond⟩ | beyond⟩
    · rcases Nat.lt_trichotomy corner.toNat step.corner.toNat with lower | same | higher
      · obtain ⟨key, known⟩ := known
        obtain ⟨other, reached⟩ := located_of_suffix known beyond
        rw [locate_child located found, skipped corner remaining lower
          ((sees corner).mpr (admitted.suffix beyond).1)] at reached
        cases reached
      · rw [BitVec.eq_of_toNat_eq same] at beyond
        exact (eq_or_beyond_of_suffix start beyond).imp_right fun inside =>
          ⟨known, admitted, inside⟩
      · exact .inr ⟨known, admitted, .inr (.inl ⟨corner, higher, beyond⟩)⟩
    · exact .inr ⟨known, admitted, .inr (.inr beyond)⟩
  · rintro (rfl | ⟨known, admitted, beyond⟩)
    · exact ⟨⟨step.node, by rw [locate_child located found, taken]⟩,
        ⟨(sees _).mp passes, held.admitsAll⟩, .inl ⟨step.corner, left, List.suffix_refl _⟩⟩
    · refine ⟨known, admitted, ?_⟩
      rcases beyond with ⟨corner, -, beyond⟩ | ⟨corner, remaining, beyond⟩ | beyond
      · exact .inl ⟨step.corner, left, (List.suffix_cons _ _).trans beyond⟩
      · have further : step.corner.toNat + 1 ≤ corner.toNat := remaining
        exact .inl ⟨corner, by omega, beyond⟩
      · exact .inr beyond

end Follow

/-- Going on from a stack visits a pending node and leaves the others pending, and ends when
there is none. -/
theorem follow_spec {tree : Tree R D} (linked : Linked tree.border tree.nodes) {query : Box D}
    {place : Address D} {stack : List (BoxFrame D)}
    (held : Stack tree.border tree.nodes query place stack) :
    ∃ further, follow tree query stack = .ok further ∧
      ((further = [] ∧
          ∀ address, ¬Pending tree.border tree.nodes query place stack address) ∨
        ∃ next, Stack tree.border tree.nodes query next further ∧
          ∀ address, Pending tree.border tree.nodes query place stack address ↔
            address = next ∨ Pending tree.border tree.nodes query next further address) := by
  induction stack generalizing place with
  | nil => cases held
  | cons frame above ih =>
    have located : locate tree.nodes place = some frame.node := held.way.locate
    obtain ⟨node, found⟩ := linked.present located
    rw [follow, found]
    simp only
    cases next : frame.nextChild? node with
    | none =>
      have upward (address : Address D) :
          Pending tree.border tree.nodes query place (frame :: above) address ↔
            Pending tree.border tree.nodes query place.tail above address :=
        pending_above located found held.sees next address
      simp only [upward]
      cases held with
      | root => exact ⟨[], rfl, .inl ⟨rfl, fun address pending => pending.2.2⟩⟩
      | step before _ _ _ _ => exact ih before
    | some step =>
      obtain ⟨-, passes, taken, -⟩ := BoxFrame.nextChild?_eq_some next
      have below : locate tree.nodes (step.corner :: place) = some step.node := by
        rw [locate_child located found, taken]
      obtain ⟨child, present⟩ := linked.present below
      simp only [present]
      refine ⟨_, rfl, .inr ⟨step.corner :: place, ?_, pending_enter held found next rfl⟩⟩
      let entered := BoxFrame.enter query step child
      show Stack tree.border tree.nodes query (entered.corner :: place) (entered :: _ :: _)
      exact .step (held.setNext _) below
        (BoxFrame.sees_enter step (linked.center below present)) (Nat.lt_succ_self _)
        ((held.sees _).mp passes)

/-- A walk that knows the tree goes on along its stack. -/
theorem advance_of_follow {tree : Tree R D} {walk : BoxWalk D} (known : walk.epoch = tree.epoch)
    {further : List (BoxFrame D)} (run : follow tree walk.query walk.stack = .ok further) :
    walk.advance tree = .ok { walk with stack := further } := by
  have confirmed : walk.confirm tree = .ok () := if_pos known
  simp only [advance, confirmed, run, bind, Except.bind, pure, Except.pure]

/-- A walk whose whole way is kept stays. -/
theorem resume_all (tree : Tree R D) (walk : BoxWalk D) :
    walk.resume tree walk.stack.length = .ok { walk with epoch := tree.epoch } :=
  if_neg (Nat.lt_irrefl _)

/-- A walk whose last steps were released goes on above them. -/
theorem resume_drop (tree : Tree R D) (walk : BoxWalk D) {count : Nat} (released : 0 < count)
    (within : count ≤ walk.stack.length) :
    walk.resume tree (walk.stack.length - count) =
      (follow tree walk.query (walk.stack.drop count)).map
        fun stack => { walk with epoch := tree.epoch, stack } := by
  simp only [resume]
  rw [if_pos (by omega), Nat.sub_sub_self within]
  cases follow tree walk.query (walk.stack.drop count) <;> rfl

end BoxWalk

end SpatialIndex.Partition
