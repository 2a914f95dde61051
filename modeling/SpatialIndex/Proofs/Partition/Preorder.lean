import Mathlib.Data.List.FinRange
import SpatialIndex.Proofs.Arithmetic.Exact
import SpatialIndex.Proofs.Partition.Reached

/-!
# The order of a box walk

A box walk visits the nodes whose cubes meet its query in pre-order, the children of a node in
the order of their corners. The stack of the walk denotes the part of that order which is still
to come; going on takes its first node.
-/
namespace SpatialIndex.Partition

variable {α R : Type} {D : Nat} {border : Nat} {nodes : Pool (Node R D)} {query : Box D}

/-! ## Pre-order -/

/-- The nodes from one on in pre-order, at most `depth` levels below it, each with its address. -/
def preorderFrom (nodes : Pool (Node R D)) : (depth : Nat) → Key → Address D → List (Key × Address D)
  | 0, key, address => [(key, address)]
  | depth + 1, key, address =>
    (key, address) :: (List.finRange (2 ^ D)).flatMap fun i =>
      match child? nodes key (BitVec.ofFin i) with
      | none => []
      | some child => preorderFrom nodes depth child (BitVec.ofFin i :: address)

/-- All nodes of a tree in pre-order, each with its address. -/
def Tree.preorder (tree : Tree R D) : List (Key × Address D) :=
  preorderFrom tree.nodes (tree.levels - 1) root []

/-- The nodes from one on in pre-order, on all levels below it. -/
def subtree (border : Nat) (nodes : Pool (Node R D)) (key : Key) (address : Address D) :
    List (Key × Address D) :=
  preorderFrom nodes (levelCount border - 1 - address.length) key address

/-- The nodes in a corner of a node in pre-order. -/
def branch (border : Nat) (nodes : Pool (Node R D)) (key : Key) (address : Address D)
    (corner : Corner D) : List (Key × Address D) :=
  match child? nodes key corner with
  | none => []
  | some child => subtree border nodes child (corner :: address)

section Subtree

variable {key : Key} {address : Address D}

/-- A node comes before its children, and these in the order of their corners. -/
theorem subtree_eq (linked : Linked border nodes) (located : locate nodes address = some key) :
    subtree border nodes key address = (key, address) ::
      (List.finRange (2 ^ D)).flatMap fun i => branch border nodes key address (BitVec.ofFin i) := by
  unfold subtree
  cases room : levelCount border - 1 - address.length with
  | zero =>
    have childless (corner : Corner D) : child? nodes key corner = none := by
      cases below : child? nodes key corner with
      | none => rfl
      | some child =>
        have deep := linked.shallow (show locate nodes (corner :: address) = some child by
          rw [locate_cons located, below])
        rw [List.length_cons] at deep
        omega
    simp [preorderFrom, branch, childless]
  | succ depth =>
    have deeper (corner : Corner D) :
        levelCount border - 1 - List.length (corner :: address) = depth := by
      rw [List.length_cons]
      omega
    simp only [preorderFrom, branch, subtree, deeper]

/-- The nodes from one on are those whose address goes on from its address. -/
theorem mem_subtree (linked : Linked border nodes) (located : locate nodes address = some key)
    (node : Key × Address D) :
    node ∈ subtree border nodes key address ↔
      address <:+ node.2 ∧ locate nodes node.2 = some node.1 := by
  induction room : levelCount border - address.length generalizing address key with
  | zero =>
    have shallow := linked.shallow located
    omega
  | succ further ih =>
    have deeper (corner : Corner D) :
        levelCount border - List.length (corner :: address) = further := by
      rw [List.length_cons]
      omega
    rw [subtree_eq linked located, List.mem_cons, List.mem_flatMap]
    constructor
    · rintro (rfl | ⟨i, -, member⟩)
      · exact ⟨List.suffix_refl _, located⟩
      · unfold branch at member
        cases taken : child? nodes key (BitVec.ofFin i) with
        | none => simp [taken] at member
        | some child =>
          rw [taken] at member
          have below := (locate_cons located _).trans taken
          obtain ⟨suffix, known⟩ := (ih below (deeper _)).mp member
          exact ⟨(List.suffix_cons _ _).trans suffix, known⟩
    · rintro ⟨⟨front, shape⟩, known⟩
      rcases List.eq_nil_or_concat front with rfl | ⟨rest, corner, rfl⟩
      · have here : node.2 = address := shape.symm
        rw [here, located] at known
        exact .inl (Prod.ext (Option.some.inj known).symm here)
      · rw [List.concat_eq_append, List.append_assoc, List.singleton_append] at shape
        have suffix : corner :: address <:+ node.2 := ⟨rest, shape⟩
        obtain ⟨child, below⟩ := located_of_suffix known suffix
        have taken := (locate_cons located corner).symm.trans below
        refine .inr ⟨corner.toFin, List.mem_finRange _, ?_⟩
        show node ∈ branch border nodes key address corner
        unfold branch
        rw [taken]
        exact (ih below (deeper _)).mpr ⟨suffix, known⟩

/-- The nodes in a corner are those below it. -/
theorem mem_branch (linked : Linked border nodes) (located : locate nodes address = some key)
    {corner : Corner D} {node : Key × Address D}
    (member : node ∈ branch border nodes key address corner) :
    corner :: address <:+ node.2 ∧ locate nodes node.2 = some node.1 := by
  unfold branch at member
  cases taken : child? nodes key corner with
  | none => simp [taken] at member
  | some child =>
    rw [taken] at member
    exact (mem_subtree linked ((locate_cons located corner).trans taken) node).mp member

/-- No node comes twice. -/
theorem nodup_subtree (linked : Linked border nodes) (located : locate nodes address = some key) :
    (subtree border nodes key address).Nodup := by
  induction room : levelCount border - address.length generalizing address key with
  | zero =>
    have shallow := linked.shallow located
    omega
  | succ further ih =>
    rw [subtree_eq linked located, List.nodup_cons, List.nodup_flatMap]
    refine ⟨?_, ?_, (List.nodup_finRange _).imp ?_⟩
    · intro member
      obtain ⟨i, -, inside⟩ := List.mem_flatMap.mp member
      have longer : address.length + 1 ≤ address.length :=
        (mem_branch linked located inside).1.length_le
      omega
    · intro i _
      unfold branch
      cases taken : child? nodes key (BitVec.ofFin i) with
      | none => exact List.nodup_nil
      | some child =>
        exact ih ((locate_cons located _).trans taken) (by rw [List.length_cons]; omega)
    · intro i j different node first second
      have one := (mem_branch linked located first).1
      have two := (mem_branch linked located second).1
      have same := (List.suffix_iff_eq_drop.mp one).trans (List.suffix_iff_eq_drop.mp two).symm
      exact different (BitVec.ofFin.inj (List.cons.inj same).1)

end Subtree

/-- The pre-order lists every node once. -/
theorem Tree.preorder_spec {tree : Tree R D} (linked : Linked tree.border tree.nodes) :
    tree.preorder.Nodup ∧
      ∀ key address, (key, address) ∈ tree.preorder ↔ locate tree.nodes address = some key := by
  have start : locate tree.nodes [] = some root := rfl
  refine ⟨nodup_subtree linked start, fun key address => ?_⟩
  exact (mem_subtree linked start (key, address)).trans (and_iff_right (List.nil_suffix))

/-! ## What a stack denotes -/

/-- Meeting can be tested. -/
instance (first second : Box D) : Decidable (first.Meets second) :=
  inferInstanceAs (Decidable (∀ _ : Fin D, _ ∧ _))

/-- The nodes of a list whose cubes meet the query. -/
def meeting (border : Nat) (query : Box D) (found : List (Key × Address D)) :
    List (Key × Address D) :=
  found.filter fun node => query.Meets (node.2.cube border)

/-- The nodes that a stack at an address still has to visit, in the order of the visits. -/
def upcoming (border : Nat) (nodes : Pool (Node R D)) (query : Box D) :
    Address D → List (BoxFrame D) → List (Key × Address D)
  | _, [] => []
  | place, frame :: above =>
    ((List.finRange (2 ^ D)).flatMap fun i => if frame.next ≤ i.val then
      meeting border query (branch border nodes frame.node place (BitVec.ofFin i)) else []) ++
    upcoming border nodes query place.tail above

/-- Of parts that are empty up to one, that one comes first. -/
theorem flatMap_finRange_split {β : Type} {n : Nat} (part : Fin n → List β) {next : Nat}
    (first : Fin n) (left : next ≤ first)
    (empty : ∀ i : Fin n, next ≤ i → i < first → part i = []) :
    ((List.finRange n).flatMap fun i => if next ≤ i.val then part i else []) =
      part first ++ (List.finRange n).flatMap fun i => if first.val < i.val then part i else [] := by
  obtain ⟨before, after, split⟩ := List.append_of_mem (List.mem_finRange first)
  have ordered := List.pairwise_lt_finRange n
  rw [split, List.pairwise_append, List.pairwise_cons] at ordered
  have lower (i : Fin n) (member : i ∈ before) : i < first :=
    ordered.2.2 i member first List.mem_cons_self
  have upper (i : Fin n) (member : i ∈ after) : first < i := ordered.2.1.1 i member
  have none_before : (before.flatMap fun i => if next ≤ i.val then part i else []) = [] := by
    refine List.flatMap_eq_nil_iff.mpr fun i member => ?_
    split
    · exact empty i ‹_› (lower i member)
    · rfl
  have none_again :
      (before.flatMap fun i => if first.val < i.val then part i else []) = [] := by
    refine List.flatMap_eq_nil_iff.mpr fun i member => if_neg ?_
    exact Nat.not_lt.mpr (Nat.le_of_lt (lower i member))
  have same : (after.flatMap fun i => if next ≤ i.val then part i else []) =
      after.flatMap fun i => if first.val < i.val then part i else [] := by
    refine List.flatMap_congr fun i member => ?_
    have later : first.val < i.val := upper i member
    rw [if_pos (by omega), if_pos later]
  rw [split, List.flatMap_append, List.flatMap_append, List.flatMap_cons, List.flatMap_cons,
    none_before, none_again, same, if_pos left, if_neg (Nat.lt_irrefl _)]
  rfl

section Upcoming

variable (legal : Legal border) (valid : query.Valid border) (linked : Linked border nodes)

include legal valid linked

/-- Nothing in a corner meets the query when it has no child or the query does not admit it. -/
theorem meeting_branch_eq_nil {key : Key} {address : Address D}
    (located : locate nodes address = some key) {corner : Corner D}
    (skipped : query.Admits (Address.center border address) corner →
      child? nodes key corner = none) :
    meeting border query (branch border nodes key address corner) = [] := by
  refine List.filter_eq_nil_iff.mpr fun node member => ?_
  rw [decide_eq_true_eq]
  intro meets
  obtain ⟨below, known⟩ := mem_branch linked located member
  have admitted := (Box.admitsAll_iff_meets legal valid (linked.shallow known)).mpr meets
  have nothing := skipped (admitted.suffix below).1
  unfold branch at member
  simp [nothing] at member

/-- What meets the query from a node on that it admits is that node and what meets it in the
corners. -/
theorem meeting_subtree {key : Key} {address : Address D}
    (located : locate nodes address = some key) (admitted : query.AdmitsAll border address) :
    meeting border query (subtree border nodes key address) = (key, address) ::
      (List.finRange (2 ^ D)).flatMap fun i =>
        meeting border query (branch border nodes key address (BitVec.ofFin i)) := by
  have meets : query.Meets (address.cube border) :=
    (Box.admitsAll_iff_meets legal valid (linked.shallow located)).mp admitted
  unfold meeting
  rw [subtree_eq linked located, List.filter_cons_of_pos (by exact decide_eq_true meets),
    List.filter_flatMap]

/-- When no child of a node is left, what is still to come lies beyond the nodes above it. -/
theorem upcoming_above {place : Address D} {frame : BoxFrame D} {above : List (BoxFrame D)}
    {node : Node R D} (located : locate nodes place = some frame.node)
    (found : nodes.get? frame.node = some node) (sees : frame.Sees border query place)
    (none_left : frame.nextChild? node = none) :
    upcoming border nodes query place (frame :: above) =
      upcoming border nodes query place.tail above := by
  have nothing : ((List.finRange (2 ^ D)).flatMap fun i => if frame.next ≤ i.val then
      meeting border query (branch border nodes frame.node place (BitVec.ofFin i))
      else []) = [] := by
    refine List.flatMap_eq_nil_iff.mpr fun i _ => ?_
    split
    · rename_i left
      refine meeting_branch_eq_nil legal valid linked located fun admitted => ?_
      rw [child?_of_get? found]
      exact BoxFrame.nextChild?_eq_none none_left left ((sees _).mpr admitted)
    · rfl
  rw [upcoming, nothing, List.nil_append]

/-- Entering the next child of a node visits it first, and leaves the rest still to come. -/
theorem upcoming_enter {place : Address D} {frame : BoxFrame D} {above : List (BoxFrame D)}
    {node : Node R D} (held : BoxWalk.Stack border nodes query place (frame :: above))
    (found : nodes.get? frame.node = some node) {step : Step D}
    (next : frame.nextChild? node = some step) {entered : BoxFrame D}
    (start : entered.next = 0) (stands : entered.node = step.node) :
    upcoming border nodes query place (frame :: above) =
      (step.node, step.corner :: place) :: upcoming border nodes query (step.corner :: place)
        (entered :: { frame with next := step.corner.toNat + 1 } :: above) := by
  have located : locate nodes place = some frame.node := held.way.locate
  obtain ⟨left, passes, taken, skipped⟩ := BoxFrame.nextChild?_eq_some next
  have linkedTo : child? nodes frame.node step.corner = some step.node := by
    rw [child?_of_get? found, taken]
  have first := flatMap_finRange_split (fun i =>
    meeting border query (branch border nodes frame.node place (BitVec.ofFin i)))
    step.corner.toFin left fun i remaining lower =>
      meeting_branch_eq_nil legal valid linked located fun admitted => by
        rw [child?_of_get? found]
        exact skipped _ remaining lower ((held.sees _).mpr admitted)
  have inside := meeting_subtree legal valid linked
    ((locate_cons located step.corner).trans linkedTo)
    ⟨(held.sees _).mp passes, held.admitsAll⟩
  have whole : branch border nodes frame.node place step.corner =
      subtree border nodes step.node (step.corner :: place) := by
    rw [branch, linkedTo]
  rw [upcoming, first]
  show meeting border query (branch border nodes frame.node place step.corner) ++ _ ++ _ = _
  rw [whole, inside, List.append_assoc, List.cons_append]
  simp only [upcoming, start, stands, Nat.zero_le, if_true, List.tail_cons]
  rfl

/-- Going on from a stack visits the first node that is still to come. -/
theorem follow_upcoming {tree : Tree R D} (same : tree.nodes = nodes) {place : Address D}
    {stack further : List (BoxFrame D)} (held : BoxWalk.Stack border nodes query place stack)
    (run : BoxWalk.follow tree query stack = .ok further) :
    (further = [] ∧ upcoming border nodes query place stack = []) ∨
      ∃ next frame above, further = frame :: above ∧
        BoxWalk.Stack border nodes query next further ∧
        upcoming border nodes query place stack =
          (frame.node, next) :: upcoming border nodes query next further := by
  subst same
  induction stack generalizing place with
  | nil => cases held
  | cons frame above ih =>
    have located : locate tree.nodes place = some frame.node := held.way.locate
    obtain ⟨node, found⟩ := linked.present located
    rw [BoxWalk.follow, found] at run
    simp only at run
    cases next : frame.nextChild? node with
    | none =>
      rw [next] at run
      rw [upcoming_above legal valid linked located found held.sees next]
      cases held with
      | root => exact .inl ⟨by simpa [BoxWalk.follow] using run.symm, rfl⟩
      | step before _ _ _ _ => exact ih run before
    | some step =>
      obtain ⟨-, passes, taken, -⟩ := BoxFrame.nextChild?_eq_some next
      have below := (locate_child located found step.corner).trans taken
      obtain ⟨child, present⟩ := linked.present below
      rw [next] at run
      simp only [present, Except.ok.injEq] at run
      subst run
      refine .inr ⟨step.corner :: place, _, _, rfl, ?_,
        upcoming_enter legal valid linked held found next rfl rfl⟩
      let entered := BoxFrame.enter query step child
      show BoxWalk.Stack border tree.nodes query (entered.corner :: place) (entered :: _ :: _)
      exact .step (held.setNext _) below (BoxFrame.sees_enter step (linked.center below present))
        (Nat.lt_succ_self _) ((held.sees _).mp passes)

end Upcoming

/-! ## The walk -/

/-- A walk after it went on a number of times. -/
def BoxWalk.advances (tree : Tree R D) : Nat → BoxWalk D → Except Fault (BoxWalk D)
  | 0, walk => .ok walk
  | n + 1, walk => do advances tree n (← walk.advance tree)

/-- The node where a walk stands; none when it is over. -/
def BoxWalk.current? (walk : BoxWalk D) : Option Key := walk.way.head?.map Step.node

/-- A walk without a stack stays as it is. -/
theorem BoxWalk.advances_over {tree : Tree R D} {walk : BoxWalk D}
    (known : walk.epoch = tree.epoch) (ended : walk.stack = []) (n : Nat) :
    advances tree n walk = .ok walk := by
  obtain ⟨query, stack, epoch⟩ := walk
  have empty : stack = [] := ended
  subst empty
  induction n with
  | zero => rfl
  | succ n ih =>
    rw [advances, advance_of_follow known rfl]
    exact ih

/-- A walk that stands at an address goes on to the nodes that are still to come, one after the
other, and then is over for good; its stack is never higher than the levels of the tree. -/
theorem BoxWalk.advances_spec {tree : Tree R D} (legal : Legal tree.border)
    (linked : Linked tree.border tree.nodes) (n : Nat) {walk : BoxWalk D}
    (known : walk.epoch = tree.epoch) (valid : walk.query.Valid tree.border) {place : Address D}
    {frame : BoxFrame D} {above : List (BoxFrame D)} (shape : walk.stack = frame :: above)
    (held : Stack tree.border tree.nodes walk.query place walk.stack) :
    ∃ next, advances tree n walk = .ok next ∧
      next.current? = (((frame.node, place) ::
        upcoming tree.border tree.nodes walk.query place walk.stack)[n]?).map Prod.fst ∧
      next.stack.length ≤ tree.levels := by
  induction n generalizing walk place frame above with
  | zero =>
    refine ⟨walk, rfl, by rw [BoxWalk.current?, way, shape]; rfl, ?_⟩
    have level := linked.shallow (shape ▸ held).way.locate
    have length := held.way.length
    rw [List.length_map] at length
    unfold Tree.levels
    omega
  | succ n ih =>
    obtain ⟨further, run, -⟩ := follow_spec linked held
    rw [advances, advance_of_follow known run]
    simp only [bind, Except.bind, List.getElem?_cons_succ]
    rcases follow_upcoming legal valid linked rfl held run with
      ⟨ended, nothing⟩ | ⟨next, first, rest, entered, stack, order⟩
    · subst ended
      rw [nothing]
      have known : ({ walk with stack := [] } : BoxWalk D).epoch = tree.epoch := known
      exact ⟨_, advances_over known rfl n, rfl, Nat.zero_le _⟩
    · rw [order]
      subst entered
      let gone : BoxWalk D := { walk with stack := first :: rest }
      have onward : gone.epoch = tree.epoch := known
      exact ih onward valid rfl stack

/-- A walk starts at the root, and what meets its query is still to come. -/
theorem BoxWalk.start_upcoming {tree : Tree R D} (sound : tree.Sound) (legal : Legal tree.border)
    (valid : query.Valid tree.border) :
    ∃ frame, BoxWalk.start tree query = .ok ⟨query, [frame], tree.epoch⟩ ∧
      Stack tree.border tree.nodes query [] [frame] ∧
      meeting tree.border query tree.preorder =
        (frame.node, []) :: upcoming tree.border tree.nodes query [] [frame] := by
  obtain ⟨node, found⟩ := sound.root_present
  have accepted : tree.accept query = .ok () := if_pos valid
  refine ⟨.enter query ⟨root, 0⟩ node, ?_,
    .root rfl (BoxFrame.sees_enter _ (sound.root_center found)), ?_⟩
  · simp only [BoxWalk.start, accepted, Tree.node, found, bind, Except.bind, pure, Except.pure]
  · have top : locate tree.nodes ([] : Address D) = some root := rfl
    rw [show tree.preorder = subtree tree.border tree.nodes root [] from rfl,
      meeting_subtree legal valid sound.linked top trivial]
    simp [upcoming, BoxFrame.enter]

section Visits

variable {tree : Tree R D} {key : Key} {address : Address D}

/-- The nodes of the pre-order that meet a query are those of the tree that do. -/
theorem Tree.mem_meeting (linked : Linked tree.border tree.nodes) :
    (key, address) ∈ meeting tree.border query tree.preorder ↔
      locate tree.nodes address = some key ∧ query.Meets (address.cube tree.border) := by
  unfold meeting
  rw [List.mem_filter, (Tree.preorder_spec linked).2, decide_eq_true_eq]

/-- No key comes twice among them. -/
theorem Tree.nodup_meeting (linked : Linked tree.border tree.nodes) :
    ((meeting tree.border query tree.preorder).map Prod.fst).Nodup := by
  refine ((Tree.preorder_spec linked).1.filter _).map_on ?_
  rintro ⟨key, first⟩ one ⟨again, second⟩ two same
  have keys : key = again := same
  subst keys
  rw [linked.unique (mem_meeting linked |>.mp one).1 (mem_meeting linked |>.mp two).1]

/-- An address whose cube meets the query comes once among them when it leads to a node. -/
theorem Tree.existsUnique_meeting (linked : Linked tree.border tree.nodes)
    (located : locate tree.nodes address = some key)
    (meets : query.Meets (address.cube tree.border)) :
    ∃! n : Nat, ∃ key, (meeting tree.border query tree.preorder)[n]? = some (key, address) := by
  obtain ⟨n, here⟩ := List.mem_iff_getElem?.mp ((mem_meeting linked).mpr ⟨located, meets⟩)
  refine ⟨n, ⟨key, here⟩, ?_⟩
  rintro m ⟨other, there⟩
  have known := ((mem_meeting linked).mp (List.mem_of_getElem? there)).1
  rw [located, Option.some.injEq] at known
  subst known
  have within := (List.getElem?_eq_some_iff.mp there).1
  have once := (Tree.preorder_spec linked).1.filter fun node => query.Meets (node.2.cube tree.border)
  exact (List.getElem?_inj within once).mp (there.trans here.symm)

end Visits

variable [Arithmetic α] [DecidableEq R] {tree : Tree R D} {walks : List (Walk α D)}
  {live : Multiset (R × Box D)}

/-- A box walk visits exactly the nodes whose cubes meet its query, each once and in pre-order; it
starts at the root and ends for good, on a stack that the levels bound. So every pair whose box
meets the query is stored in one visited node. -/
theorem Reached.visits_preorder (reached : Reached border tree walks live)
    (valid : query.Valid border) :
    (tree.preorder.Nodup ∧
      ∀ key address, (key, address) ∈ tree.preorder ↔ locate tree.nodes address = some key) ∧
    ∃ (walk : BoxWalk D) (visited : List (Key × Address D)),
      BoxWalk.start tree query = .ok walk ∧
      visited = tree.preorder.filter (fun node => query.Meets (node.2.cube border)) ∧
      visited.head? = some (root, []) ∧ (visited.map Prod.fst).Nodup ∧
      (∀ n, ∃ next, BoxWalk.advances tree n walk = .ok next ∧
        next.current? = (visited[n]?).map Prod.fst ∧ next.stack.length ≤ Limits.levels) ∧
      ∀ item box, (item, box) ∈ live → query.Meets box →
        item ∈ itemsAt tree.nodes (box.address border) ∧
          ∃! n : Nat, ∃ key, visited[n]? = some (key, box.address border) := by
  obtain ⟨rfl, stores, -⟩ := reached.kept
  have linked := stores.sound.linked
  obtain ⟨frame, start, held, order⟩ := BoxWalk.start_upcoming stores.sound stores.legal valid
  have top : frame.node = root := Option.some.inj held.way.locate.symm
  let walk : BoxWalk D := ⟨query, [frame], tree.epoch⟩
  refine ⟨Tree.preorder_spec linked, walk, meeting tree.border query tree.preorder, start, rfl, ?_,
    Tree.nodup_meeting linked, ?_, ?_⟩
  · rw [order, top]
    rfl
  · intro n
    obtain ⟨next, run, current, height⟩ :=
      walk.advances_spec stores.legal linked n rfl valid rfl held
    exact ⟨next, run, order ▸ current, Nat.le_trans height (Nat.min_le_right _ _)⟩
  · intro item box member meets
    have stored := stores.mem_items.mpr ⟨box, member, rfl⟩
    obtain ⟨key, located⟩ := located_of_mem_itemsAt stored
    have inside : query.Meets ((box.address tree.border).cube tree.border) :=
      (Box.admitsAll_iff_meets stores.legal valid (linked.shallow located)).mp
        (meets.admitsAll (box.address_follows _))
    exact ⟨stored, Tree.existsUnique_meeting linked located inside⟩

/-- Of a tree with items in two corners, a walk over one of them visits the root and the node
there. -/
theorem visits_one_corner :
    ∃ (tree : Tree Nat 2) (walk : BoxWalk 2) (corner : Key),
      BoxWalk.start tree ⟨#v[0, 0], #v[3, 1]⟩ = .ok walk ∧ tree.nodeCount = 3 ∧
        ∀ n, ∃ next, BoxWalk.advances tree n walk = .ok next ∧
          next.current? = [root, corner][n]? := by
  have placed : Reached 8 _ ([] : List (Walk Exact 2))
      ((7, (⟨#v[0, 0], #v[1, 0]⟩ : Box 2)) ::ₘ (9, ⟨#v[4, 4], #v[4, 4]⟩) ::ₘ 0) :=
    .insert (.insert (.create rfl) (by decide) rfl) (by decide) rfl
  obtain ⟨-, walk, visited, start, shape, -, -, steps, -⟩ :=
    placed.visits_preorder (by decide : (⟨#v[0, 0], #v[3, 1]⟩ : Box 2).Valid 8)
  have order : visited.map Prod.fst = [root, ⟨3, 0⟩] := by
    rw [shape]
    decide
  refine ⟨_, walk, ⟨3, 0⟩, start, rfl, fun n => ?_⟩
  obtain ⟨next, run, current, -⟩ := steps n
  exact ⟨next, run, by rw [current, ← order, List.getElem?_map]⟩

end SpatialIndex.Partition
