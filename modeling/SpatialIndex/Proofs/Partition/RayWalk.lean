import SpatialIndex.Partition.RayWalk
import SpatialIndex.Proofs.Partition.Mutation
import SpatialIndex.Proofs.Partition.Progress

/-!
# What a ray walk can still reach

A ray walk stands on the way to the cell of its ray. Every move of the ray leaves a part of the
cube that has no node further down, and goes forward out of it, so the walk never comes back to a
node, and the moves between two nodes are bounded. Whatever the arithmetic computes decides only
where the ray goes, not that it goes forward.
-/
namespace SpatialIndex.Partition.RayWalk

open Address (Forward path progress)

variable {α : Type} {R : Type} {D : Nat}

/-! ## What is left of the way -/

/-- A fold of minima is at most its start and every value that counts, and is one of them. -/
theorem foldl_min_spec {β : Type} (counts : β → Bool) (bound : β → Nat) (items : List β)
    (start : Nat) :
    let least := items.foldl (fun kept d => if counts d then min kept (bound d) else kept) start
    least ≤ start ∧ (∀ d ∈ items, counts d = true → least ≤ bound d) ∧
      (least = start ∨ ∃ d ∈ items, counts d = true ∧ least = bound d) := by
  induction items generalizing start with
  | nil => exact ⟨Nat.le_refl _, by simp, .inl rfl⟩
  | cons item rest ih =>
    let first := if counts item then min start (bound item) else start
    have first_spec : first ≤ start ∧ (counts item = true → first ≤ bound item) ∧
        (first = start ∨ counts item = true ∧ first = bound item) := by
      by_cases counted : counts item = true
      · have chosen : first = min start (bound item) := if_pos counted
        rw [chosen]
        exact ⟨Nat.min_le_left _ _, fun _ => Nat.min_le_right _ _, by
          rcases Nat.le_total start (bound item) with less | more
          · exact .inl (Nat.min_eq_left less)
          · exact .inr ⟨counted, Nat.min_eq_right more⟩⟩
      · have chosen : first = start := if_neg counted
        rw [chosen]
        exact ⟨Nat.le_refl _, fun counted' => absurd counted' counted, .inl rfl⟩
    obtain ⟨low, each, attained⟩ := ih first
    refine ⟨Nat.le_trans low first_spec.1, ?_, ?_⟩
    · intro d member counted
      rcases List.mem_cons.mp member with rfl | later
      · exact Nat.le_trans low (first_spec.2.1 counted)
      · exact each d later counted
    · rcases attained with same | ⟨d, member, counted, same⟩
      · rcases first_spec.2.2 with start_chosen | ⟨counted, bound_chosen⟩
        · exact .inl (same.trans start_chosen)
        · exact .inr ⟨item, List.mem_cons_self, counted, same.trans bound_chosen⟩
      · exact .inr ⟨d, List.mem_cons_of_mem _ member, counted, same⟩

section Kept

variable {walk : RayWalk α D} {next : Cell D}

/-- The axes on which the cell changes bound the levels that are kept, and one of them decides
when not all are. -/
theorem keptLevels_spec (walk : RayWalk α D) (next : Cell D) :
    walk.keptLevels next ≤ walk.stack.length ∧
      (∀ d : Fin D, walk.target.get d ^^^ next.get d ≠ 0 →
        walk.keptLevels next ≤ walk.finest - (walk.target.get d ^^^ next.get d).log2) ∧
      (walk.keptLevels next = walk.stack.length ∨
        ∃ d : Fin D, walk.target.get d ^^^ next.get d ≠ 0 ∧
          walk.keptLevels next = walk.finest - (walk.target.get d ^^^ next.get d).log2) := by
  have fold : walk.keptLevels next = (List.finRange D).foldl
      (fun kept d => if decide (walk.target.get d ^^^ next.get d ≠ 0) = true then
        min kept (walk.finest - (walk.target.get d ^^^ next.get d).log2) else kept)
      walk.stack.length := by
    unfold keptLevels
    congr 1
    funext kept d
    by_cases same : walk.target.get d ^^^ next.get d = 0
    · rw [if_pos same, if_neg (by simpa using same)]
    · rw [if_neg same, if_pos (decide_eq_true same)]
  obtain ⟨low, each, attained⟩ := foldl_min_spec
    (fun d : Fin D => decide (walk.target.get d ^^^ next.get d ≠ 0))
    (fun d => walk.finest - (walk.target.get d ^^^ next.get d).log2) (List.finRange D)
    walk.stack.length
  rw [← fold] at low each attained
  refine ⟨low, fun d changed => each d (List.mem_finRange d) (decide_eq_true changed), ?_⟩
  exact attained.imp_right fun ⟨d, _, changed, same⟩ => ⟨d, of_decide_eq_true changed, same⟩

/-- The parts of the nodes that are kept hold both cells. -/
theorem path_of_keptLevels {n : Nat} (kept : n < walk.keptLevels next) :
    path walk.finest walk.target n = path walk.finest next n := by
  induction n with
  | zero => rfl
  | succ n ih =>
    rw [path, path, ih (by omega)]
    congr 1
    apply Corner.ext_getLsbD
    intro d
    rw [Corner.getLsbD_ofTest, Corner.getLsbD_ofTest]
    have bit : (walk.target.get d ^^^ next.get d).testBit (walk.finest - (n + 1)) = false := by
      by_cases changed : walk.target.get d ^^^ next.get d = 0
      · rw [changed, Nat.zero_testBit]
      · have bound := (walk.keptLevels_spec next).2.1 d changed
        exact Nat.testBit_lt_two_pow ((Nat.log2_lt changed).mp (by omega))
    rw [Nat.testBit_xor] at bit
    simpa using bit

/-- The part of the first node that is not kept holds one cell only. -/
theorem path_ne_of_keptLevels (inside : ∀ d : Fin D, walk.target.get d < 2 ^ walk.finest)
    (nextInside : ∀ d : Fin D, next.get d < 2 ^ walk.finest)
    (fewer : walk.keptLevels next < walk.stack.length) :
    0 < walk.keptLevels next ∧
      path walk.finest walk.target (walk.keptLevels next) ≠
        path walk.finest next (walk.keptLevels next) := by
  obtain ⟨d, changed, attained⟩ := (walk.keptLevels_spec next).2.2.resolve_left (by omega)
  have low : (walk.target.get d ^^^ next.get d).log2 < walk.finest :=
    (Nat.log2_lt changed).mpr (Nat.xor_lt_two_pow (inside d) (nextInside d))
  refine ⟨by omega, fun same => ?_⟩
  obtain ⟨n, positive⟩ : ∃ n, walk.keptLevels next = n + 1 :=
    ⟨walk.keptLevels next - 1, by omega⟩
  rw [positive, path, path] at same
  have corners := congrArg (fun c : Corner D => c.getLsbD d) (List.cons.inj same).1
  simp only [Corner.getLsbD_ofTest] at corners
  have bit := Nat.testBit_log2 changed
  have highest : (walk.target.get d ^^^ next.get d).log2 = walk.finest - (n + 1) := by omega
  rw [Nat.testBit_xor, highest, corners, Bool.xor_self] at bit
  cases bit

end Kept

/-! ## One move -/

/-- The level of the part that the ray has to leave. -/
def level (walk : RayWalk α D) : Nat := min walk.stack.length walk.finest

/-- The part to leave starts at a multiple of its width. -/
theorem regionStart_eq (walk : RayWalk α D) (d : Fin D) :
    walk.regionStart d = walk.target.get d / 2 ^ walk.shift * 2 ^ walk.shift := by
  rw [regionStart, Nat.shiftLeft_eq, Nat.shiftRight_eq_div_pow]

/-- The part to leave holds the cell, and lies in the cube. -/
theorem region_spec {walk : RayWalk α D} {d : Fin D}
    (inside : walk.target.get d < 2 ^ walk.finest) :
    walk.regionStart d ≤ walk.target.get d ∧
      walk.target.get d + 1 ≤ walk.regionStart d + 2 ^ walk.shift ∧
      walk.regionStart d + 2 ^ walk.shift ≤ 2 ^ walk.finest := by
  have width : 0 < 2 ^ walk.shift := Nat.two_pow_pos _
  have split := Nat.div_add_mod' (walk.target.get d) (2 ^ walk.shift)
  have rest := Nat.mod_lt (walk.target.get d) width
  have parts : 2 ^ walk.finest = 2 ^ (walk.finest - walk.shift) * 2 ^ walk.shift := by
    rw [← Nat.pow_add]
    congr 1
    unfold shift
    omega
  have below : walk.target.get d / 2 ^ walk.shift < 2 ^ (walk.finest - walk.shift) := by
    rw [Nat.div_lt_iff_lt_mul width, ← parts]
    exact inside
  have region : (walk.target.get d / 2 ^ walk.shift + 1) * 2 ^ walk.shift ≤ 2 ^ walk.finest := by
    rw [parts]
    exact Nat.mul_le_mul_right _ below
  rw [Nat.add_mul, Nat.one_mul] at region
  rw [walk.regionStart_eq d]
  omega

variable [Arithmetic α] {walk : RayWalk α D}

/-- The side to leave lies in the cube. -/
theorem boundary_le (inside : ∀ d : Fin D, walk.target.get d < 2 ^ walk.finest) (d : Fin D) :
    walk.boundary d ≤ 2 ^ walk.finest := by
  obtain ⟨start, past, within⟩ := region_spec (inside d)
  unfold boundary
  split <;> omega

/-- A cell after a move is one part further where the ray crosses a side, and in the same part
where it does not. -/
theorem nextTarget_spec {axis d : Fin D} {least : α} (inside : walk.target.get d < 2 ^ walk.finest)
    (stays : ¬(walk.crosses axis least d = true ∧ walk.atCubeSide d = true)) :
    walk.nextTarget axis least d < 2 ^ walk.finest ∧
      if walk.crosses axis least d then
        if walk.ascends d then
          walk.nextTarget axis least d / 2 ^ walk.shift = walk.target.get d / 2 ^ walk.shift + 1
        else walk.nextTarget axis least d / 2 ^ walk.shift + 1 = walk.target.get d / 2 ^ walk.shift
      else walk.nextTarget axis least d / 2 ^ walk.shift = walk.target.get d / 2 ^ walk.shift := by
  have width : 0 < 2 ^ walk.shift := Nat.two_pow_pos _
  have start := walk.regionStart_eq d
  obtain ⟨-, -, region⟩ := region_spec inside
  unfold nextTarget
  by_cases crossed : walk.crosses axis least d = true
  · have apart : walk.atCubeSide d = false := by
      simpa [crossed] using stays
    rw [if_pos crossed, if_pos crossed]
    by_cases up : walk.ascends d = true
    · have side : walk.boundary d = walk.regionStart d + 2 ^ walk.shift := by
        rw [boundary, if_pos up]
      rw [atCubeSide, if_pos up, decide_eq_false_iff_not] at apart
      rw [if_pos up, if_pos up]
      refine ⟨by omega, ?_⟩
      rw [side, start, ← Nat.succ_mul, Nat.mul_div_cancel _ width]
    · have side : walk.boundary d = walk.regionStart d := by rw [boundary, if_neg up]
      rw [atCubeSide, if_neg up, beq_eq_false_iff_ne] at apart
      rw [if_neg up, if_neg up]
      refine ⟨by omega, ?_⟩
      rw [side, start] at apart ⊢
      have nonzero : walk.target.get d / 2 ^ walk.shift ≠ 0 := by
        intro zero
        rw [zero, Nat.zero_mul] at apart
        exact apart rfl
      obtain ⟨before, former⟩ := Nat.exists_eq_succ_of_ne_zero nonzero
      rw [former, Nat.succ_mul]
      rw [show before * 2 ^ walk.shift + 2 ^ walk.shift - 1 =
        2 ^ walk.shift - 1 + before * 2 ^ walk.shift by omega, Nat.add_mul_div_right _ _ width,
        Nat.div_eq_of_lt (Nat.sub_lt width Nat.one_pos), Nat.zero_add]
  · rw [if_neg crossed, if_neg crossed]
    by_cases moving : walk.moves d = true
    · rw [if_pos moving]
      simp only
      generalize Arithmetic.floor (walk.nextPoint axis least d / Arithmetic.ofNat walk.cellWidth) =
        cell
      refine ⟨by omega, ?_⟩
      apply Nat.div_eq_of_lt_le
      · rw [← start]
        omega
      · rw [Nat.succ_mul, ← start]
        omega
    · rw [if_neg moving]
      exact ⟨inside, rfl⟩

/-- The walk after a move that leaves its part on the sides reached at the parameter `least`. -/
def landed (walk : RayWalk α D) (axis : Fin D) (least : α) : RayWalk α D :=
  let point := Vector.ofFn fun d => walk.nextPoint axis least d
  let target := Vector.ofFn fun d => walk.nextTarget axis least d
  let travelled := distanceSquared walk.origin walk.factors point
  { walk with
    point, target, travelled
    stack :=
      if Arithmetic.lt walk.limit travelled then []
      else walk.stack.drop (walk.stack.length - walk.keptLevels target) }

/-- A move ends the walk, or the walk lands beyond a side that is no side of the cube. -/
theorem move_cases (walk : RayWalk α D) :
    walk.move = walk.stopped ∨ ∃ axis least, walk.nearest? = some (axis, least) ∧
      Arithmetic.isFinite least = true ∧
      (∀ d, ¬(walk.crosses axis least d = true ∧ walk.atCubeSide d = true)) ∧
      walk.move = walk.landed axis least := by
  unfold move
  cases nearest : walk.nearest? with
  | none => exact .inl rfl
  | some best =>
    obtain ⟨axis, least⟩ := best
    simp only
    split
    · exact .inl rfl
    · rename_i bounded
      split
      · exact .inl rfl
      · rename_i apart
        refine .inr ⟨axis, least, rfl, by simpa using bounded, ?_, rfl⟩
        intro d leaves
        apply apart
        rw [List.any_eq_true]
        exact ⟨d, List.mem_finRange d, by rw [leaves.1, leaves.2, Bool.and_self]⟩

/-- The nearest side belongs to an axis on which the ray moves. -/
theorem moves_of_nearest? {axis : Fin D} {least : α}
    (nearest : walk.nearest? = some (axis, least)) :
    walk.moves axis = true ∧ least = walk.parameter axis := by
  revert nearest
  unfold nearest?
  refine List.foldlRecOn (motive := fun best => best = some (axis, least) →
    walk.moves axis = true ∧ least = walk.parameter axis) _ _ (by simp) ?_
  intro best held d _ chosen
  by_cases moving : walk.moves d = true
  · rw [if_pos moving] at chosen
    split at chosen
    · split at chosen
      · cases chosen
        exact ⟨moving, rfl⟩
      · exact held chosen
    · cases chosen
      exact ⟨moving, rfl⟩
  · rw [if_neg moving] at chosen
    exact held chosen

/-! ## Where a move goes -/

section Landing

variable {axis : Fin D} {least : α}

/-- Every axis of the next cell. -/
theorem landed_target (d : Fin D) :
    (walk.landed axis least).target.get d = walk.nextTarget axis least d :=
  Vector.getElem_ofFn d.isLt

/-- Every coordinate of the next point. -/
theorem landed_point (d : Fin D) :
    (walk.landed axis least).point.get d = walk.nextPoint axis least d :=
  Vector.getElem_ofFn d.isLt

/-- A move that does not leave the cube lands in a cell of it. -/
theorem landed_inside (inside : ∀ d : Fin D, walk.target.get d < 2 ^ walk.finest)
    (stays : ∀ d, ¬(walk.crosses axis least d = true ∧ walk.atCubeSide d = true)) (d : Fin D) :
    (walk.landed axis least).target.get d < 2 ^ walk.finest := by
  rw [landed_target]
  exact (nextTarget_spec (inside d) (stays d)).1

/-- The ray goes forward among the parts of its level, and leaves its part. -/
theorem landed_forward (inside : ∀ d : Fin D, walk.target.get d < 2 ^ walk.finest)
    (stays : ∀ d, ¬(walk.crosses axis least d = true ∧ walk.atCubeSide d = true))
    (moving : walk.moves axis = true) :
    Forward walk.ascends (path walk.finest walk.target walk.level)
        (path walk.finest (walk.landed axis least).target walk.level) ∧
      path walk.finest walk.target walk.level ≠
        path walk.finest (walk.landed axis least).target walk.level := by
  have within : walk.level ≤ walk.finest := Nat.min_le_right _ _
  have before (d : Fin D) := Address.index_path (inside d) within
  have after (d : Fin D) := Address.index_path (landed_inside inside stays d) within
  have next (d : Fin D) := (nextTarget_spec (inside d) (stays d)).2
  have shift : walk.finest - walk.level = walk.shift := rfl
  simp only [landed_target, shift] at before after
  constructor
  · refine ⟨by simp, fun d => ?_⟩
    rw [before, after]
    have step := next d
    split at step
    · split at step
      · rw [if_pos (by assumption)]
        omega
      · rw [if_neg (by assumption)]
        omega
    · split <;> omega
  · intro same
    have crossed : walk.crosses axis least axis = true := by simp [crosses, moving]
    have equal := congrArg (fun address => Address.index address axis) same
    simp only [before, after] at equal
    have step := next axis
    rw [if_pos crossed] at step
    split at step <;> omega

end Landing

/-! ## Standing and marching -/

/-- A walk that stands at an address: on the way to the cell of its ray. -/
structure Stands (nodes : Pool (Node R D)) (walk : RayWalk α D) (place : Address D) : Prop where
  /-- The stack is the way to the address. -/
  way : Way nodes place walk.stack
  /-- The ray is in the cube. -/
  inside : ∀ d : Fin D, walk.target.get d < 2 ^ walk.finest
  /-- The address holds the cell of the ray. -/
  along : place = path walk.finest walk.target place.length
  /-- The address is on a level of the tree. -/
  level : place.length ≤ walk.finest

/-- A base in which the parts of every level are counted by one digit. -/
def base (walk : RayWalk α D) : Nat := D * 2 ^ walk.finest + 1

/-- The progress of a walk at an address. -/
def reached (walk : RayWalk α D) (address : Address D) : Nat :=
  progress walk.ascends walk.base address

/-- The addresses that a walk can still enter: the ray has not got as far, or it is there and
the walk stands above. -/
def After (walk : RayWalk α D) (address : Address D) : Prop :=
  walk.reached (path walk.finest walk.target address.length) < walk.reached address ∨
    address = path walk.finest walk.target address.length ∧ walk.stack.length ≤ address.length

/-- The nodes that a walk can still enter. -/
def Pending (nodes : Pool (Node R D)) (walk : RayWalk α D) (address : Address D) : Prop :=
  (∃ key, locate nodes address = some key) ∧ address.length ≤ walk.finest ∧ walk.After address

variable {nodes : Pool (Node R D)} {place : Address D}

/-- A walk does not enter the node where it stands again. -/
theorem Stands.not_pending (stands : walk.Stands nodes place) : ¬walk.Pending nodes place := by
  rintro ⟨-, -, further | ⟨-, deeper⟩⟩
  · rw [← stands.along] at further
    exact Nat.lt_irrefl _ further
  · have length := stands.way.length
    omega

/-- A landing near enough leaves the walk standing above, with a ray that has got further. -/
theorem Stands.landed_near (stands : walk.Stands nodes place) {axis : Fin D} {least : α}
    (stays : ∀ d, ¬(walk.crosses axis least d = true ∧ walk.atCubeSide d = true))
    (moving : walk.moves axis = true)
    (near : ¬Arithmetic.lt walk.limit (walk.landed axis least).travelled = true) :
    ∃ upper, upper <:+ place ∧ (walk.landed axis least).Stands nodes upper ∧
      ∀ address, (walk.landed axis least).Pending nodes address → walk.Pending nodes address := by
  obtain ⟨forward, different⟩ := landed_forward stands.inside stays moving
  have nextInside := landed_inside stands.inside stays
  have stack : (walk.landed axis least).stack =
      walk.stack.drop (walk.stack.length - walk.keptLevels (walk.landed axis least).target) :=
  if_neg near
  have length := stands.way.length
  have most := (walk.keptLevels_spec (walk.landed axis least).target).1
  have positive : 0 < walk.keptLevels (walk.landed axis least).target := by
    rcases Nat.lt_or_ge (walk.keptLevels (walk.landed axis least).target) walk.stack.length
      with fewer | all
    · exact (path_ne_of_keptLevels stands.inside nextInside fewer).1
    · omega
  let count := walk.stack.length - walk.keptLevels (walk.landed axis least).target
  have upperLength : (place.drop count).length =
      walk.keptLevels (walk.landed axis least).target - 1 := by
    rw [List.length_drop]
    omega
  have upperPath : place.drop count =
      path walk.finest walk.target (walk.keptLevels (walk.landed axis least).target - 1) := by
    rw [stands.along, Address.drop_path]
    congr 1
    omega
  refine ⟨place.drop count, List.drop_suffix _ _, ⟨?_, nextInside, ?_, ?_⟩, ?_⟩
  · rw [stack]
    exact stands.way.drop count (by omega)
  · rw [upperLength, upperPath]
    exact path_of_keptLevels (by omega)
  · show (place.drop count).length ≤ walk.finest
    have level := stands.level
    rw [List.length_drop]
    omega
  · rintro address ⟨known, level, after⟩
    refine ⟨known, level, ?_⟩
    have progressed := forward.path_progress different (n := address.length) level
    rcases after with further | ⟨here, deeper⟩
    · refine .inl (Nat.lt_of_le_of_lt ?_ further)
      rcases progressed with ⟨-, same⟩ | more
      · exact Nat.le_of_eq (congrArg walk.reached same)
      · exact Nat.le_of_lt more
    · rcases progressed with ⟨-, same⟩ | more
      · refine .inr ⟨here.trans same.symm, ?_⟩
        rw [stack, List.length_drop] at deeper
        by_contra shallow
        have fewer : walk.keptLevels (walk.landed axis least).target < walk.stack.length := by omega
        exact (path_ne_of_keptLevels stands.inside nextInside fewer).2
          (Address.path_congr same (by omega))
      · exact .inl (Nat.lt_of_lt_of_eq more (congrArg walk.reached here.symm))

/-- A landing ends the walk, or the walk stands above with a ray that has got further. -/
theorem Stands.landed (stands : walk.Stands nodes place) {axis : Fin D} {least : α}
    (stays : ∀ d, ¬(walk.crosses axis least d = true ∧ walk.atCubeSide d = true))
    (moving : walk.moves axis = true) :
    (walk.landed axis least).stack = [] ∨
      ∃ upper, (walk.landed axis least).Stands nodes upper ∧
        ∀ address, (walk.landed axis least).Pending nodes address → walk.Pending nodes address := by
  by_cases far : Arithmetic.lt walk.limit (walk.landed axis least).travelled
  · exact .inl (if_pos far)
  · obtain ⟨upper, -, standing, kept⟩ := stands.landed_near stays moving far
    exact .inr ⟨upper, standing, kept⟩

/-- The moves of a ray and the node they end in, if any. -/
inductive Marches (tree : Tree R D) : RayWalk α D → RayWalk α D → Prop
  /-- The walk is over. -/
  | ended {walk : RayWalk α D} : walk.stack = [] → Marches tree walk walk
  /-- The walk enters the child that holds the cell of the ray. -/
  | enter {walk : RayWalk α D} {last step : Step D} {above : List (Step D)} {node : Node R D} :
    walk.stack = last :: above → tree.nodes.get? last.node = some node →
    walk.descent? node = some step → Marches tree walk { walk with stack := step :: walk.stack }
  /-- The part that holds the cell has no node, and the ray leaves it. -/
  | move {walk final : RayWalk α D} {last : Step D} {above : List (Step D)} {node : Node R D} :
    walk.stack = last :: above → tree.nodes.get? last.node = some node →
    walk.descent? node = none → Marches tree walk.move final → Marches tree walk final

/-- Where a walk stands when it enters a child. -/
theorem Stands.enter (stands : walk.Stands nodes place) {last step : Step D}
    {above : List (Step D)} {node : Node R D} (shape : walk.stack = last :: above)
    (found : nodes.get? last.node = some node) (descends : walk.descent? node = some step) :
    let next := path walk.finest walk.target (place.length + 1)
    Stands nodes { walk with stack := step :: walk.stack } next ∧ walk.Pending nodes next ∧
      ∀ address, Pending nodes { walk with stack := step :: walk.stack } address →
        walk.Pending nodes address := by
  have length := stands.way.length
  have located : locate nodes place = some last.node := by
    have way := stands.way
    rw [shape] at way
    exact way.locate
  unfold descent? at descends
  split at descends
  · cases descends
  · rename_i deep
    obtain ⟨child, taken, rfl⟩ := Option.map_eq_some_iff.mp descends
    have address : path walk.finest walk.target (place.length + 1) =
        Corner.ofTest (fun d => (walk.target.get d).testBit (walk.finest - walk.stack.length)) ::
          place := by
      rw [path, ← stands.along, length]
    have below : locate nodes (path walk.finest walk.target (place.length + 1)) = some child := by
      rw [address, locate_child located found, taken]
    refine ⟨⟨?_, stands.inside, ?_, ?_⟩, ⟨⟨child, below⟩, ?_, .inr ⟨?_, ?_⟩⟩, ?_⟩
    · rw [address] at below ⊢
      exact .step stands.way below
    · rw [Address.length_path]
      rfl
    · rw [Address.length_path]
      show place.length + 1 ≤ walk.finest
      omega
    · rw [Address.length_path]
      omega
    · rw [Address.length_path]
    · rw [Address.length_path]
      omega
    · rintro other ⟨known, level, further | ⟨here, deeper⟩⟩
      · exact ⟨known, level, .inl further⟩
      · refine ⟨known, level, .inr ⟨here, ?_⟩⟩
        simp only [List.length_cons] at deeper
        omega

/-- The ray of a walk that has not reached the end of its bound can go on as far as is left. -/
theorem march_spec {tree : Tree R D} (linked : Linked tree.border tree.nodes) (fuel : Nat)
    (walk : RayWalk α D)
    (ready : walk.stack = [] ∧ 0 < fuel ∨ (∃ place, walk.Stands tree.nodes place) ∧
      walk.base ^ walk.finest < walk.reached (path walk.finest walk.target walk.finest) + fuel) :
    ∃ final, march tree fuel walk = .ok final ∧ Marches tree walk final := by
  induction fuel generalizing walk with
  | zero =>
    rcases ready with ⟨-, absurd⟩ | ⟨⟨place, stands⟩, room⟩
    · omega
    · have bound := Address.progress_lt walk.ascends
        (path walk.finest walk.target walk.finest) (Nat.le_of_eq (Address.length_path _ _ _))
      rw [Address.length_path] at bound
      unfold base reached at room
      unfold base at room
      omega
  | succ fuel ih =>
    unfold march
    cases shape : walk.stack with
    | nil => exact ⟨walk, rfl, .ended shape⟩
    | cons last above =>
      rcases ready with ⟨absurd, -⟩ | ⟨⟨place, stands⟩, room⟩
      · rw [shape] at absurd
        cases absurd
      · have way := stands.way
        rw [shape] at way
        obtain ⟨node, found⟩ := linked.present way.locate
        simp only [found]
        cases descends : walk.descent? node with
        | some step => exact ⟨_, rfl, shape ▸ .enter shape found descends⟩
        | none =>
          simp only
          have next : walk.move.stack = [] ∧ 0 < fuel ∨
              (∃ place, walk.move.Stands tree.nodes place) ∧ walk.move.base ^ walk.move.finest <
                walk.move.reached (path walk.move.finest walk.move.target walk.move.finest) +
                  fuel := by
            have bound := Address.progress_lt walk.ascends
              (path walk.finest walk.target walk.finest) (Nat.le_of_eq (Address.length_path _ _ _))
            rw [Address.length_path] at bound
            have some_left : 0 < fuel := by
              unfold reached base at room
              omega
            rcases move_cases walk with stops | ⟨axis, least, nearest, -, stays, lands⟩
            · rw [stops]
              exact .inl ⟨rfl, some_left⟩
            · have moving := (moves_of_nearest? nearest).1
              obtain ⟨forward, different⟩ := landed_forward stands.inside stays moving
              rw [lands]
              rcases stands.landed stays moving with ended | ⟨upper, above, -⟩
              · exact .inl ⟨ended, some_left⟩
              · refine .inr ⟨⟨upper, above⟩, ?_⟩
                have more :=
                  (forward.path_progress different (Nat.le_refl walk.finest)).resolve_left
                  fun ⟨shallow, _⟩ => by
                    unfold level at shallow
                    omega
                show walk.base ^ walk.finest < walk.reached
                  (path walk.finest (walk.landed axis least).target walk.finest) + fuel
                unfold reached base at room ⊢
                omega
          obtain ⟨final, run, marches⟩ := ih walk.move next
          exact ⟨final, run, .move shape found descends marches⟩

/-- Following a ray never fails, and never stops for want of moves. -/
theorem Stands.follow {tree : Tree R D} (stands : walk.Stands tree.nodes place)
    (linked : Linked tree.border tree.nodes) :
    ∃ final, walk.follow tree = .ok final ∧ Marches tree walk final := by
  apply march_spec linked
  refine .inr ⟨⟨place, stands⟩, ?_⟩
  have wider : walk.base ^ walk.finest ≤ walk.base ^ (walk.finest + 1) :=
    Nat.pow_le_pow_right (Nat.succ_pos _) (Nat.le_succ _)
  show walk.base ^ walk.finest < _ + (walk.base ^ (walk.finest + 1) + 1)
  omega

/-- A walk that knows the tree goes on along its ray. -/
theorem advance_of_follow {tree : Tree R D} (known : walk.epoch = tree.epoch)
    {final : RayWalk α D} (run : walk.follow tree = .ok final) :
    walk.advance tree = .ok final := by
  have confirmed : walk.confirm tree = .ok () := if_pos known
  simp only [advance, confirmed, run, bind, Except.bind]

/-- A walk whose whole way is kept stays. -/
theorem resume_all (tree : Tree R D) (walk : RayWalk α D) :
    walk.resume tree walk.stack.length = .ok { walk with epoch := tree.epoch } :=
  if_neg (Nat.lt_irrefl _)

/-- A walk above the last steps of its way, in a tree that it knows again. -/
def above (tree : Tree R D) (walk : RayWalk α D) (count : Nat) : RayWalk α D :=
  { walk with epoch := tree.epoch, stack := walk.stack.drop count }

/-- A walk whose last steps were released goes on above them. -/
theorem resume_drop (tree : Tree R D) (walk : RayWalk α D) {count : Nat} (released : 0 < count)
    (within : count ≤ walk.stack.length) :
    walk.resume tree (walk.stack.length - count) = (walk.above tree count).follow tree := by
  simp only [resume]
  rw [if_pos (by omega), Nat.sub_sub_self within]
  rfl

/-- What a march leaves alone. -/
theorem Marches.frame {tree : Tree R D} {final : RayWalk α D} (marches : Marches tree walk final) :
    final.direction = walk.direction ∧ final.border = walk.border ∧ final.epoch = walk.epoch := by
  induction marches with
  | ended => exact ⟨rfl, rfl, rfl⟩
  | enter => exact ⟨rfl, rfl, rfl⟩
  | @move walk final _ _ _ _ _ _ _ ih =>
    rcases move_cases walk with stops | ⟨axis, least, -, -, -, lands⟩
    · rw [stops] at ih
      exact ih
    · rw [lands] at ih
      exact ih

/-- A march ends the walk or enters a pending node, and what is pending then was pending
before. -/
theorem Stands.marches {tree : Tree R D} (stands : walk.Stands tree.nodes place)
    {final : RayWalk α D}
    (marches : Marches tree walk final) :
    final.stack = [] ∨ ∃ next, final.Stands tree.nodes next ∧ walk.Pending tree.nodes next ∧
      ∀ address, final.Pending tree.nodes address → walk.Pending tree.nodes address := by
  induction marches generalizing place with
  | ended ended => exact .inl ended
  | enter shape found descends =>
    exact .inr ⟨_, stands.enter shape found descends⟩
  | @move walk final last above node shape found descends marches ih =>
    rcases move_cases walk with stops | ⟨axis, least, nearest, -, stays, lands⟩
    · rw [stops] at marches
      cases marches with
      | ended => exact .inl rfl
      | enter shape => cases shape
      | move shape => cases shape
    · rcases stands.landed stays (moves_of_nearest? nearest).1 with ended | ⟨upper, above, kept⟩
      · rw [lands] at marches
        cases marches with
        | ended ended => exact .inl ended
        | enter shape => rw [ended] at shape; cases shape
        | move shape => rw [ended] at shape; cases shape
      · rw [lands] at ih
        rcases ih above with ended | ⟨next, standsNext, pending, further⟩
        · exact .inl ended
        · exact .inr ⟨next, standsNext, kept next pending,
            fun address left => kept address (further address left)⟩

end SpatialIndex.Partition.RayWalk
