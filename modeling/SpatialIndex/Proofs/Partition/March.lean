import SpatialIndex.Proofs.Partition.Line

/-!
# What a walk owes its line

A line in the cube gets to cells, and a walk along it has to enter every node whose part holds
such a cell. Every move and every descent of a walk keeps what it still owes: a part that is left without
being entered holds no node, and a clear line has left that part when the walk does. So the walk is
not over while it owes a node.
-/
namespace SpatialIndex.Partition

open Address (path)

variable {R : Type} {D : Nat} {border : Nat}

namespace Line

/-- The finest cell at a parameter. -/
def cells (border : Nat) (line : Line D) (t : ℚ) : Cell D := Vector.ofFn (line.cell border t)

/-- The finest cell of a line at a parameter, axis by axis. -/
theorem cells_get (line : Line D) (t : ℚ) (d : Fin D) :
    (line.cells border t).get d = line.cell border t d :=
  Vector.getElem_ofFn d.isLt

/-- The finest cell of a line lies in the space at every parameter. -/
theorem cells_lt (line : Line D) (t : ℚ) (d : Fin D) :
    (line.cells border t).get d < 2 ^ (levelCount border - 1) := by
  rw [cells_get]
  exact Nat.lt_of_le_of_lt (Nat.min_le_right _ _) (Nat.sub_lt (Nat.two_pow_pos _) Nat.one_pos)

/-- Whether a line gets to a parameter in the cube, and no further than its limit. -/
structure Gets (border : Nat) (line : Line D) (factors : Fin D → ℚ) (limit : Exact) (t : ℚ) :
    Prop where
  /-- The parameter is no earlier than the start. -/
  nonneg : 0 ≤ t
  /-- The line is in the cube. -/
  inside : line.Inside border t
  /-- The line is not too long. -/
  short : Arithmetic.le (.finite (line.lengthSquared factors t)) limit = true

end Line

namespace RayWalk

variable {nodes : Pool (Node R D)} {line : Line D} {factors : Fin D → ℚ} {s : ℚ}
  {walk : RayWalk Exact D} {place address : Address D}

/-- The nodes that a walk owes the line: those on the way to the cell of the ray or to a later cell
of the line, except where the walk stands and above. -/
structure Owes (nodes : Pool (Node R D)) (line : Line D) (factors : Fin D → ℚ) (s : ℚ)
    (walk : RayWalk Exact D) (place address : Address D) : Prop where
  /-- There is a node. -/
  known : ∃ key, locate nodes address = some key
  /-- It is on a level of the tree. -/
  level : address.length ≤ walk.finest
  /-- The walk is not there. -/
  fresh : ¬address <:+ place
  /-- The line is there, or gets there. -/
  due : address = path walk.finest walk.target address.length ∨
    ∃ t, s < t ∧ line.Gets walk.border factors walk.limit t ∧
      address = path walk.finest (line.cells walk.border t) address.length

/-- No node lies in the part that a walk leaves. -/
theorem Stands.ne_path (stands : walk.Stands nodes place) {last : Step D} {above : List (Step D)}
    {node : Node R D} (shape : walk.stack = last :: above)
    (found : nodes.get? last.node = some node) (descends : walk.descent? node = none)
    {cell : Cell D} (inside : ∀ d : Fin D, cell.get d < 2 ^ walk.finest)
    (same : ∀ d : Fin D, cell.get d / 2 ^ walk.shift = walk.target.get d / 2 ^ walk.shift)
    (known : ∃ key, locate nodes address = some key) (level : address.length ≤ walk.finest)
    (fresh : ¬address <:+ place) : address ≠ path walk.finest cell address.length := by
  have length := stands.way.length
  have within : walk.level ≤ walk.finest := Nat.min_le_right _ _
  have upper : place.length ≤ walk.level := by
    have deepest := stands.level
    unfold RayWalk.level
    omega
  have parts : path walk.finest cell walk.level = path walk.finest walk.target walk.level := by
    refine Address.ext_index (by simp) fun d => ?_
    rw [Address.index_path (inside d) within, Address.index_path (stands.inside d) within]
    exact same d
  intro here
  rcases Nat.lt_or_ge place.length address.length with deeper | shallow
  · have room : walk.level = walk.stack.length := by
      unfold RayWalk.level
      omega
    -- the address lies in the child of the node where the walk stands, which is missing
    have below : path walk.finest walk.target walk.stack.length <:+ address := by
      rw [here, ← room, ← parts]
      exact Address.path_suffix _ _ (by omega)
    obtain ⟨key, located⟩ := known
    obtain ⟨child, taken⟩ := located_of_suffix located below
    have way := stands.way
    rw [shape] at way
    rw [length, path, ← stands.along, locate_cons way.locate, child?_of_get? found] at taken
    rw [descent?, if_neg (by omega), Option.map_eq_none_iff, length, taken] at descends
    cases descends
  · apply fresh
    rw [here.trans (Address.path_congr parts (by omega)), stands.along]
    exact Address.path_suffix _ _ shallow

/-- A move that ends at no side of the cube lands. -/
theorem move_eq_landed {α : Type} [Arithmetic α] {walk : RayWalk α D} {axis : Fin D} {least : α}
    (nearest : walk.nearest? = some (axis, least)) (finite : Arithmetic.isFinite least = true)
    (stays : ∀ d, ¬(walk.crosses axis least d = true ∧ walk.atCubeSide d = true)) :
    walk.move = walk.landed axis least := by
  have apart : ((List.finRange D).any fun d => walk.crosses axis least d && walk.atCubeSide d) =
      false := by
    rw [List.any_eq_false]
    intro d _
    rw [Bool.and_eq_true]
    exact stays d
  unfold move
  rw [nearest]
  simp only [finite, Bool.not_true, Bool.false_eq_true, if_false, apart]
  rfl

namespace Nears

variable {axis : Fin D} {least : Exact} (nears : Nears line factors s walk axis least)
  (clear : line.Clear walk.border)

include nears clear

/-- The length of the line that a move measures. -/
theorem travelled_eq : (walk.landed axis least).travelled =
    .finite (line.lengthSquared factors
      (line.crossing walk.border axis (walk.boundary axis))) := by
  refine line.distanceSquared_eq nears.origin nears.factors fun d => ?_
  rw [← nears.nextPoint_eq clear d]
  exact Vector.getElem_ofFn d.isLt

/-- Where the line gets beyond the nearest side, or goes on upwards there, that side and those met
with it are no sides of the cube. -/
theorem stays {t : ℚ} (cube : line.Inside walk.border t)
    (beyond : line.crossing walk.border axis (walk.boundary axis) < t ∨
      line.Climbs walk.border axis (walk.boundary axis)) (d : Fin D) :
    ¬(walk.crosses axis least d = true ∧ walk.atCubeSide d = true) := by
  rintro ⟨crosses, side⟩
  obtain ⟨crossed, both⟩ := nears.crosses_iff clear d
  obtain ⟨moving, together⟩ := crossed.mp crosses
  unfold atCubeSide at side
  rcases beyond with later | climbs
  · rw [← together] at later
    apply not_le_of_gt later
    by_cases up : walk.ascends d = true
    · rw [if_pos up, decide_eq_true_iff] at side
      rw [← (Line.crossing_up ((nears.ascends_iff d).mp up) _).1]
      have edge := le_of_eq_of_le nears.legal.border_eq (scale walk.border side)
      exact le_trans (cube d).2 edge
    · have down : line.velocity d < 0 := lt_of_le_of_ne
        (not_lt.mp fun positive => up ((nears.ascends_iff d).mpr positive))
        ((nears.moves_iff d).mp moving)
      rw [if_neg up, beq_iff_eq] at side
      rw [← (Line.crossing_down down _).1, side, Nat.cast_zero, zero_mul]
      exact (cube d).1
  · obtain ⟨upward, short⟩ := (both crosses).mp climbs
    rw [if_pos ((nears.ascends_iff d).mpr upward), decide_eq_true_iff] at side
    exact absurd short (Nat.not_lt.mpr side)

/-- A walk does not stop short of a parameter that its line gets to. -/
theorem near {t : ℚ} (gets : line.Gets walk.border factors walk.limit t)
    (reached : line.crossing walk.border axis (walk.boundary axis) ≤ t) :
    ¬Arithmetic.lt walk.limit (walk.landed axis least).travelled = true := by
  intro far
  have further := LawfulArithmetic.not_le_of_lt far
  have shorter := Exact.le_finite.mpr
    (line.lengthSquared_mono factors (le_trans nears.nonneg nears.ahead) reached)
  rw [nears.travelled_eq clear, LawfulArithmetic.le_trans shorter gets.short] at further
  cases further

/-- Where the line goes on upwards the walk moves into the cell of the line. -/
theorem target_eq_cells (stays : ∀ d, ¬(walk.crosses axis least d = true ∧ walk.atCubeSide d = true))
    (climbs : line.Climbs walk.border axis (walk.boundary axis))
    (after : s < line.crossing walk.border axis (walk.boundary axis)) :
    (walk.landed axis least).target =
      line.cells walk.border (line.crossing walk.border axis (walk.boundary axis)) := by
  refine congrArg Vector.ofFn (funext fun d => ?_)
  refine nears.nextTarget_eq_cell clear stays (fun crosses => ?_) fun _ => after
  exact (((nears.crosses_iff clear d).2 crosses).mp climbs).1

/-- Before the line gets beyond the nearest side, or to it when it goes on upwards there, its cell
is in the part to leave. -/
theorem cell_of_not_passed {t : ℚ} (after : s < t)
    (before : t ≤ line.crossing walk.border axis (walk.boundary axis))
    (short : t = line.crossing walk.border axis (walk.boundary axis) →
      ¬line.Climbs walk.border axis (walk.boundary axis)) (d : Fin D) :
    line.cell walk.border t d / 2 ^ walk.shift = walk.target.get d / 2 ^ walk.shift := by
  refine nears.cell_div_shift after before (fun e climbs => ?_) d
  by_cases crosses : walk.crosses axis least e = true
  · obtain ⟨crossed, both⟩ := nears.crosses_iff clear e
    rw [(crossed.mp crosses).2]
    exact lt_of_le_of_ne before fun same => short same ((both crosses).mpr climbs)
  · have moving := (nears.moves_iff e).mpr (ne_of_gt climbs.1)
    exact lt_of_le_of_lt before (nears.lt_crossing clear moving crosses)

end Nears

/-- A move out of a part without a node keeps what a walk owes its line. -/
theorem Stands.owes_move (stands : walk.Stands nodes place) (follows : Follows line factors s walk)
    (clear : line.Clear walk.border) {last : Step D} {above : List (Step D)} {node : Node R D}
    (shape : walk.stack = last :: above) (found : nodes.get? last.node = some node)
    (descends : walk.descent? node = none) (owes : Owes nodes line factors s walk place address) :
    ∃ next later, walk.move.Stands nodes next ∧ Follows line factors later walk.move ∧
      Owes nodes line factors later walk.move next address := by
  obtain ⟨known, level, fresh, due⟩ := owes
  have elsewhere {cell : Cell D} (inside : ∀ d : Fin D, cell.get d < 2 ^ walk.finest)
      (same : ∀ d : Fin D, cell.get d / 2 ^ walk.shift = walk.target.get d / 2 ^ walk.shift) :
      address ≠ path walk.finest cell address.length :=
    stands.ne_path shape found descends inside same known level fresh
  rcases due with here | ⟨t, after, gets, there⟩
  · exact absurd here (elsewhere stands.inside fun _ => rfl)
  cases nearest : walk.nearest? with
  | none =>
    have still := (follows.nearest?_spec stands.inside).1 nearest
    refine absurd there (elsewhere (line.cells_lt t) fun d => ?_)
    rw [Line.cells_get, follows.cell_eq_target (by simp [still])]
  | some best =>
    obtain ⟨axis, least⟩ := best
    have nears : Nears line factors s walk axis least := ⟨follows, stands.inside, nearest⟩
    have leaves : line.crossing walk.border axis (walk.boundary axis) < t ∨
        t = line.crossing walk.border axis (walk.boundary axis) ∧
          line.Climbs walk.border axis (walk.boundary axis) := by
      by_contra early
      rw [not_or, not_lt, not_and] at early
      refine elsewhere (line.cells_lt t) (fun d => ?_) there
      rw [Line.cells_get]
      exact nears.cell_of_not_passed clear after early.1 early.2 d
    have stays := nears.stays clear gets.inside (leaves.imp_right And.right)
    have near := nears.near clear gets (leaves.elim le_of_lt fun same => le_of_eq same.1.symm)
    obtain ⟨upper, suffix, standing, -⟩ := stands.landed_near stays nears.moves near
    have lands : walk.move = walk.landed axis least :=
      move_eq_landed nearest (by rw [nears.least_eq]; rfl) stays
    rw [lands]
    refine ⟨upper, _, standing, nears.landed clear stays, known, level,
      fun below => fresh (below.trans suffix), ?_⟩
    rcases leaves with later | ⟨same, climbs⟩
    · exact .inr ⟨t, later, gets, there⟩
    · rw [nears.target_eq_cells clear stays climbs (same ▸ after), ← same]
      exact .inl there

/-- Entering a child settles what is owed there, and keeps the rest. -/
theorem Stands.owes_enter (stands : walk.Stands nodes place) (follows : Follows line factors s walk)
    {step : Step D} (owes : Owes nodes line factors s walk place address) :
    let next := path walk.finest walk.target (place.length + 1)
    Follows line factors s { walk with stack := step :: walk.stack } ∧
      (next = address ∨
        Owes nodes line factors s { walk with stack := step :: walk.stack } next address) := by
  obtain ⟨known, level, fresh, due⟩ := owes
  refine ⟨⟨follows.legal, follows.origin, follows.direction, follows.factors, follows.nonneg,
    follows.point, follows.touches, follows.onward⟩, ?_⟩
  by_cases here : path walk.finest walk.target (place.length + 1) = address
  · exact .inl here
  · refine .inr ⟨known, level, fun below => ?_, due⟩
    rw [path, ← stands.along] at below here
    rcases List.suffix_cons_iff.mp below with same | above
    · exact here same.symm
    · exact fresh above

/-- What a walk owes its line keeps a march going: it ends in a node, which is the one owed unless
the walk still owes it. -/
theorem Stands.owes_marches {tree : Tree R D} {final : RayWalk Exact D}
    (marches : Marches tree walk final) (stands : walk.Stands tree.nodes place)
    (follows : Follows line factors s walk) (clear : line.Clear walk.border)
    (owes : Owes tree.nodes line factors s walk place address) :
    ∃ next later, final.Stands tree.nodes next ∧ Follows line factors later final ∧
      (next = address ∨ Owes tree.nodes line factors later final next address) := by
  induction marches generalizing place s with
  | ended ended =>
    have length := stands.way.length
    rw [ended] at length
    cases length
  | enter shape found descends =>
    obtain ⟨along, rest⟩ := stands.owes_enter follows owes
    exact ⟨_, s, (stands.enter shape found descends).1, along, rest⟩
  | @move walk final last above node shape found descends marches ih =>
    obtain ⟨next, later, standing, along, owed⟩ :=
      stands.owes_move follows clear shape found descends owes
    have border : walk.move.border = walk.border := by
      rcases move_cases walk with stops | ⟨axis, least, -, -, -, lands⟩
      · rw [stops]
        rfl
      · rw [lands]
        rfl
    exact ih standing along (border.symm ▸ clear) owed

/-! ## The start -/

/-- The interval of a line on one axis, between the ends of the cube. -/
theorem clip_spec {o v edge : ℚ} (moves : v ≠ 0) {t : ℚ} (low : 0 ≤ o + v * t)
    (high : o + v * t ≤ edge) :
    min ((0 - o) / v) ((edge - o) / v) ≤ t ∧ t ≤ max ((0 - o) / v) ((edge - o) / v) ∧
      ∀ r, min ((0 - o) / v) ((edge - o) / v) ≤ r → r ≤ t → 0 ≤ o + v * r ∧ o + v * r ≤ edge := by
  rcases lt_or_gt_of_ne moves with down | up
  · have enter (r : ℚ) : (edge - o) / v ≤ r ↔ o + v * r ≤ edge := by
      rw [div_le_iff_of_neg down]
      constructor <;> intro <;> linarith
    have leave (r : ℚ) : r ≤ (0 - o) / v ↔ 0 ≤ o + v * r := by
      rw [le_div_iff_of_neg down]
      constructor <;> intro <;> linarith
    have ordered : (edge - o) / v ≤ (0 - o) / v := le_trans ((enter t).mpr high) ((leave t).mpr low)
    rw [min_eq_right ordered, max_eq_left ordered]
    exact ⟨(enter t).mpr high, (leave t).mpr low, fun r since before =>
      ⟨(leave r).mp (le_trans before ((leave t).mpr low)), (enter r).mp since⟩⟩
  · have enter (r : ℚ) : (0 - o) / v ≤ r ↔ 0 ≤ o + v * r := by
      rw [div_le_iff₀ up]
      constructor <;> intro <;> linarith
    have leave (r : ℚ) : r ≤ (edge - o) / v ↔ o + v * r ≤ edge := by
      rw [le_div_iff₀ up]
      constructor <;> intro <;> linarith
    have ordered : (0 - o) / v ≤ (edge - o) / v := le_trans ((enter t).mpr low) ((leave t).mpr high)
    rw [min_eq_left ordered, max_eq_right ordered]
    exact ⟨(enter t).mpr low, (leave t).mpr high, fun r since before =>
      ⟨(enter r).mp since, (leave r).mp (le_trans before ((leave t).mpr high))⟩⟩

section Entry

variable {ray : Ray Exact D} (origin : ∀ d : Fin D, ray.origin.get d = .finite (line.origin d))
  (direction : ∀ d : Fin D, ray.direction.get d = .finite (line.velocity d)) {t : ℚ}

include origin direction

/-- An axis narrows the interval down to where the line is between its ends, and leaves a parameter
at which the line is in the cube inside it. -/
theorem clipAxis_spec (inside : line.Inside border t) (d : Fin D) {q : ℚ} {leave : Exact}
    (early : q ≤ t) (late : Arithmetic.le (.finite t) leave = true) :
    ∃ later sooner, Ray.clipAxis (Arithmetic.ofNat border) ray (some (.finite q, leave)) d =
        some (.finite later, sooner) ∧ q ≤ later ∧ later ≤ t ∧
      Arithmetic.le (.finite t) sooner = true ∧
      ∀ r, later ≤ r → r ≤ t → 0 ≤ line.point r d ∧ line.point r d ≤ border := by
  unfold Ray.clipAxis
  simp only [origin, direction, Exact.ofNat_eq, Exact.sub_finite, Nat.cast_zero]
  by_cases still : line.velocity d = 0
  · have point (r : ℚ) : line.point r d = line.origin d := by
      rw [Line.point, still, zero_mul, add_zero]
    have held := inside d
    rw [point] at held
    rw [if_pos (Exact.isZero_finite.mpr still), if_neg (by simp [held])]
    refine ⟨q, leave, rfl, le_refl _, early, late, fun r _ _ => ?_⟩
    rw [point]
    exact held
  · obtain ⟨enters, leaves, between⟩ := clip_spec still (inside d).1 (inside d).2
    rw [if_neg (fun zero => still (Exact.isZero_finite.mp zero)), Exact.div_finite _ still,
      Exact.div_finite _ still, Exact.min_finite, Exact.max_finite, Exact.max_finite]
    refine ⟨_, _, rfl, le_max_left _ _, max_le early enters, ?_,
      fun r since before => between r (le_trans (le_max_right _ _) since) before⟩
    cases leave with
    | nan => cases late
    | bottom => cases late
    | finite value =>
      rw [Exact.min_finite, Exact.le_finite]
      exact le_min (Exact.le_finite.mp late) leaves
    | top =>
      rw [Exact.min_top]
      exact Exact.le_finite.mpr leaves

/-- A line that gets into the cube enters it no later. -/
theorem entry_spec (nonneg : 0 ≤ t) (inside : line.Inside border t) :
    ∃ q, ray.entry? (Arithmetic.ofNat border) = some (.finite q) ∧ 0 ≤ q ∧ q ≤ t ∧
      line.Inside border q := by
  have fold (items : List (Fin D)) : ∃ q leave,
      items.foldl (Ray.clipAxis (Arithmetic.ofNat border) ray)
        (some (Arithmetic.ofNat 0, Arithmetic.infinity)) = some (.finite q, leave) ∧
      0 ≤ q ∧ q ≤ t ∧ Arithmetic.le (.finite t) leave = true ∧
      ∀ d ∈ items, ∀ r, q ≤ r → r ≤ t → 0 ≤ line.point r d ∧ line.point r d ≤ border := by
    induction items using List.reverseRecOn with
    | nil => exact ⟨0, .top, rfl, le_refl _, nonneg, rfl, by simp⟩
    | append_singleton items d ih =>
      obtain ⟨q, leave, run, least, early, late, all⟩ := ih
      obtain ⟨later, sooner, clipped, after, before, still, between⟩ :=
        clipAxis_spec origin direction inside d early late
      rw [List.foldl_append, run, List.foldl_cons, List.foldl_nil, clipped]
      simp only [List.forall_mem_append, List.forall_mem_singleton]
      exact ⟨later, sooner, rfl, le_trans least after, before, still,
        fun e seen r since => all e seen r (le_trans after since), between⟩
  obtain ⟨q, leave, run, least, early, late, all⟩ := fold (List.finRange D)
  refine ⟨q, ?_, least, early, fun d => all d (List.mem_finRange d) q (le_refl _) early⟩
  have order := LawfulArithmetic.le_trans (Exact.le_finite.mpr early) late
  unfold Ray.entry?
  simp only [run]
  exact if_pos order

end Entry

/-- A walk starts at the root, in the cell where the line enters the cube. -/
theorem start_eq (tree : Tree R D) (ray : Ray Exact D) (reach : Reach Exact D)
    (legal : Legal tree.border) (origin : ∀ d : Fin D, ray.origin.get d = .finite (line.origin d))
    (direction : ∀ d : Fin D, ray.direction.get d = .finite (line.velocity d))
    (scales : ∀ d : Fin D, reach.factors.get d = .finite (factors d)) {q : ℚ}
    (entry : ray.entry? (Arithmetic.ofNat tree.border) = some (.finite q))
    (near : Arithmetic.le (.finite (line.lengthSquared factors q))
      (reach.distance * reach.distance) = true) :
    ∃ point : Vector Exact D, (∀ d : Fin D, point.get d = .finite (line.point q d)) ∧
      start tree ray reach =
        { stack := [⟨root, 0⟩], target := line.cells tree.border q, origin := ray.origin, point
          direction := ray.direction, factors := reach.factors
          travelled := distanceSquared ray.origin reach.factors point
          limit := reach.distance * reach.distance, border := tree.border
          epoch := tree.epoch } := by
  let point : Vector Exact D :=
    Vector.ofFn fun d => ray.origin.get d + ray.direction.get d * .finite q
  have pointAt (d : Fin D) : point.get d = .finite (line.point q d) := by
    have value : point.get d = ray.origin.get d + ray.direction.get d * .finite q :=
      Vector.getElem_ofFn d.isLt
    rw [value, origin, direction]
    rfl
  have target : (Vector.ofFn fun (d : Fin D) =>
      min (Arithmetic.floor (point.get d / Arithmetic.ofNat (grain tree.border)))
        (2 ^ (levelCount tree.border - 1) - 1)) = line.cells tree.border q := by
    refine congrArg Vector.ofFn (funext fun d => ?_)
    have width : ((grain tree.border : Nat) : ℚ) ≠ 0 :=
      Nat.cast_ne_zero.mpr (Nat.ne_of_gt legal.grain_pos)
    have bound := finest_le tree.border
    rw [pointAt, Exact.ofNat_eq, Exact.div_finite _ width]
    show min (min ⌊line.point q d / grain tree.border⌋.toNat Exact.greatestFloor) _ =
      min ⌊line.point q d / grain tree.border⌋.toNat _
    omega
  have measured : Arithmetic.le (distanceSquared ray.origin reach.factors point)
      (reach.distance * reach.distance) = true := by
    rw [line.distanceSquared_eq origin scales pointAt]
    exact near
  let first : RayWalk Exact D :=
    { stack := [⟨root, 0⟩], target := line.cells tree.border q, origin := ray.origin, point
      direction := ray.direction, factors := reach.factors
      travelled := distanceSquared ray.origin reach.factors point
      limit := reach.distance * reach.distance, border := tree.border, epoch := tree.epoch }
  refine ⟨point, pointAt, ?_⟩
  unfold start
  simp only [entry]
  show { first with target := Vector.ofFn _, stack := if _ then _ else _ } = first
  rw [if_pos measured]
  exact congrArg (fun target => { first with target }) target

/-- A walk starts where the line enters the cube, and owes every node on the way to a cell that the
line gets to. -/
theorem start_owes (tree : Tree R D) (ray : Ray Exact D) (reach : Reach Exact D)
    (legal : Legal tree.border) (origin : ∀ d : Fin D, ray.origin.get d = .finite (line.origin d))
    (direction : ∀ d : Fin D, ray.direction.get d = .finite (line.velocity d))
    (scales : ∀ d : Fin D, reach.factors.get d = .finite (factors d)) {t : ℚ}
    (gets : line.Gets tree.border factors (reach.distance * reach.distance) t)
    (known : ∃ key, locate tree.nodes address = some key)
    (level : address.length ≤ levelCount tree.border - 1)
    (there : address =
      path (levelCount tree.border - 1) (line.cells tree.border t) address.length) :
    ∃ s, (start tree ray reach).Stands tree.nodes [] ∧
      Follows line factors s (start tree ray reach) ∧
      ([] = address ∨ Owes tree.nodes line factors s (start tree ray reach) [] address) := by
  obtain ⟨q, entry, nonneg, early, inside⟩ := entry_spec origin direction gets.nonneg gets.inside
  have near := LawfulArithmetic.le_trans
    (Exact.le_finite.mpr (line.lengthSquared_mono factors nonneg early)) gets.short
  obtain ⟨point, pointAt, started⟩ :=
    start_eq tree ray reach legal origin direction scales entry near
  rw [started]
  refine ⟨q, ⟨.root, line.cells_lt q, rfl, Nat.zero_le _⟩, ⟨legal, origin, direction, scales,
    nonneg, pointAt, fun d => ?_, fun d _ => line.cells_get q d⟩, ?_⟩
  · show (((line.cells tree.border q).get d : ℕ) * grain tree.border : ℚ) ≤ _ ∧
      _ ≤ (((line.cells tree.border q).get d + 1 : Nat) : ℚ) * grain tree.border
    rw [line.cells_get]
    exact Line.cell_touches legal inside d
  · by_cases here : [] = address
    · exact .inl here
    · refine .inr ⟨known, level, fun below => here (List.suffix_nil.mp below).symm, ?_⟩
      rcases lt_or_eq_of_le early with before | same
      · exact .inr ⟨t, before, gets, there⟩
      · rw [← same] at there
        exact .inl there

end RayWalk
end SpatialIndex.Partition
