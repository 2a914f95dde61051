import SpatialIndex.Proofs.Partition.March
import SpatialIndex.Proofs.World.Beam
import SpatialIndex.Proofs.World.Cells
import SpatialIndex.Proofs.World.Search

/-!
# Ray queries in numbers

Over a world range of finite numbers a cell is a number of steps from the lower end of its axis, and
a ray query is a line in cells. Where the beam of a query hits bounds inside the world range, the
line gets to a cell towards which the bounds lead.
-/
open SpatialIndex.Partition (Address Line Legal)

namespace SpatialIndex

namespace World

open Record (Bytes)

variable {D : Nat}

namespace Tree

variable {size : Nat} {tree : Tree Exact D}

/-- The border of a formed tree is one that a tree can have. -/
theorem Formed.legal (formed : tree.Formed size) : Legal tree.border := ⟨formed.shape, formed.range⟩

/-- The world range of a tree, in numbers. -/
structure Spans (tree : Tree Exact D) (low high : Fin D → ℚ) : Prop where
  /-- The lower ends. -/
  low : ∀ d : Fin D, Exact.ofCoordinate (tree.axes.get d).low = .finite (low d)
  /-- The upper ends. -/
  high : ∀ d : Fin D, Exact.ofCoordinate (tree.axes.get d).high = .finite (high d)

/-- The width of a cell on an axis of a world range. -/
def step (tree : Tree Exact D) (low high : Fin D → ℚ) (d : Fin D) : ℚ :=
  (high d - low d) / tree.border

variable {low high : Fin D → ℚ}

/-- The cells of a world range have a width. -/
theorem Spans.step_pos (spans : tree.Spans low high) (formed : tree.Formed size) (d : Fin D) :
    0 < tree.step low high d := by
  have spread := (formed.axes d).spread
  have ends : Arithmetic.lt (.finite (low d)) (.finite (high d) : Exact) = true := by
    rw [← spans.low, ← spans.high]
    exact spread
  have border : (0 : ℚ) < tree.border := Nat.cast_pos.mpr formed.reads.positive
  exact div_pos (sub_pos.mpr (Exact.lt_finite.mp ends)) border

/-- The scale of an axis is the width of its cells. -/
theorem Spans.factors (spans : tree.Spans low high) (formed : tree.Formed size) (d : Fin D) :
    tree.factors.get d = .finite (tree.step low high d) := by
  have border : ((tree.border : Nat) : ℚ) ≠ 0 :=
    Nat.cast_ne_zero.mpr (Nat.ne_of_gt formed.reads.positive)
  have factor : tree.factors.get d = (tree.axes.get d).span / Arithmetic.ofNat tree.border := by
    rw [formed.factors]
    exact Vector.getElem_map _ d.isLt
  have span : ((tree.axes.get d).span : Exact) = .finite (high d - low d) := by
    show Exact.ofCoordinate _ - Exact.ofCoordinate _ = _
    rw [spans.low, spans.high, Exact.sub_finite]
  rw [factor, span, Exact.ofNat_eq, Exact.div_finite _ border]
  rfl

/-- The cell of a coordinate, counted from the lower end. -/
theorem Spans.cell_eq (spans : tree.Spans low high) (formed : tree.Formed size) {d : Fin D}
    {coordinate : Coordinate} {x : ℚ} (known : Exact.ofCoordinate coordinate = .finite x) :
    tree.cell d coordinate =
      min ⌊(x - low d) / tree.step low high d⌋.toNat (tree.border - 1) := by
  have width : high d - low d ≠ 0 := by
    intro none
    have positive := spans.step_pos formed d
    rw [step, none, zero_div] at positive
    exact lt_irrefl _ positive
  have scaled : (x - low d) / (high d - low d) * tree.border =
      (x - low d) / tree.step low high d := by
    unfold step
    rw [div_div_eq_mul_div, div_mul_eq_mul_div]
  have least : tree.border - 1 ≤ Exact.greatestFloor := by
    have range := formed.range.2
    unfold Limits.greatestBorder at range
    unfold Exact.greatestFloor
    omega
  unfold Tree.cell Axis.cell
  simp only
  show min (Exact.floor ((Exact.ofCoordinate coordinate - Exact.ofCoordinate _) /
    (Exact.ofCoordinate _ - Exact.ofCoordinate _) * Arithmetic.ofNat tree.border)) _ = _
  rw [known, spans.low, spans.high, Exact.sub_finite, Exact.sub_finite, Exact.div_finite _ width,
    Exact.ofNat_eq, Exact.mul_finite, scaled]
  show min (min _ Exact.greatestFloor) _ = _
  omega

/-- Bounds inside the world range are numbers in order. -/
theorem Spans.bounds (spans : tree.Spans low high) (formed : tree.Formed size) {extent : Extent D}
    (typed : extent.Typed tree.numeric) (covered : tree.covers extent = true)
    (upright : ∀ d : Fin D, (extent.low.get d).atMost (extent.high.get d) = true) :
    ∃ bottom top : Fin D → ℚ, ∀ d,
      Exact.ofCoordinate (extent.low.get d) = .finite (bottom d) ∧
      Exact.ofCoordinate (extent.high.get d) = .finite (top d) ∧
      low d ≤ bottom d ∧ bottom d ≤ top d ∧ top d ≤ high d := by
  have each (d : Fin D) : ∃ ends : ℚ × ℚ,
      Exact.ofCoordinate (extent.low.get d) = .finite ends.1 ∧
      Exact.ofCoordinate (extent.high.get d) = .finite ends.2 ∧
      low d ≤ ends.1 ∧ ends.1 ≤ ends.2 ∧ ends.2 ≤ high d := by
    unfold covers at covered
    rw [List.all_eq_true] at covered
    have inside := Bool.and_eq_true_iff.mp (covered d (List.mem_finRange d))
    have range := (formed.axes d).typed
    have first := Exact.ofCoordinate_mono (range.1.trans (typed d).1.symm) inside.1
    have middle := Exact.ofCoordinate_mono ((typed d).1.trans (typed d).2.symm) (upright d)
    have last := Exact.ofCoordinate_mono ((typed d).2.trans range.2.symm) inside.2
    rw [spans.low] at first
    rw [spans.high] at last
    obtain ⟨y, bottom, above, -⟩ :=
      Exact.finite_of_between first (LawfulArithmetic.le_trans middle last)
    obtain ⟨z, top, -, below⟩ :=
      Exact.finite_of_between (LawfulArithmetic.le_trans first middle) last
    rw [bottom, top] at middle
    exact ⟨(y, z), bottom, top, above, Exact.le_finite.mp middle, below⟩
  choose ends spec using each
  exact ⟨fun d => (ends d).1, fun d => (ends d).2, spec⟩

/-- A line that meets bounds inside the world range is in the cube then, and the bounds lead towards
its cell. -/
theorem Spans.address_of_meets (spans : tree.Spans low high) (formed : tree.Formed size)
    {extent : Extent D} {bottom top : Fin D → ℚ}
    (bounds : ∀ d, Exact.ofCoordinate (extent.low.get d) = .finite (bottom d) ∧
      Exact.ofCoordinate (extent.high.get d) = .finite (top d) ∧
      low d ≤ bottom d ∧ bottom d ≤ top d ∧ top d ≤ high d)
    {line : Line D} {t : ℚ}
    (meets : ∀ d, (bottom d - low d) / tree.step low high d ≤ line.point t d ∧
      line.point t d ≤ (top d - low d) / tree.step low high d) :
    line.Inside tree.border t ∧ (tree.box extent).address tree.border =
      Address.path (Partition.levelCount tree.border - 1) (line.cells tree.border t)
        ((tree.box extent).address tree.border).length := by
  have legal := formed.legal
  have step (d : Fin D) := spans.step_pos formed d
  have border : ((tree.border : Nat) : ℚ) ≠ 0 :=
    Nat.cast_ne_zero.mpr (Nat.ne_of_gt formed.reads.positive)
  refine ⟨fun d => ?_, ?_⟩
  · obtain ⟨-, -, above, -, below⟩ := bounds d
    refine ⟨le_trans (div_nonneg (sub_nonneg.mpr above) (le_of_lt (step d))) (meets d).1,
      le_trans (meets d).2 ?_⟩
    rw [div_le_iff₀ (step d), Tree.step, mul_div_cancel₀ _ border]
    linarith
  · refine Partition.Box.address_eq_path legal (box_valid formed.reads.positive extent)
      (line.cells_lt t) fun d => ?_
    obtain ⟨first, last, -, -, -⟩ := bounds d
    have width : (0 : ℚ) ≤ Partition.grain tree.border := Nat.cast_nonneg _
    have floors {x y : ℚ} (ordered : x ≤ y) :
        min ⌊x / Partition.grain tree.border⌋.toNat
            (2 ^ (Partition.levelCount tree.border - 1) - 1) ≤
          min ⌊y / Partition.grain tree.border⌋.toNat
            (2 ^ (Partition.levelCount tree.border - 1) - 1) :=
      min_le_min_right _ (Int.toNat_le_toNat
        (Int.floor_mono (div_le_div_of_nonneg_right ordered width)))
    rw [(box_get extent d).1, (box_get extent d).2, spans.cell_eq formed first,
      spans.cell_eq formed last, line.cells_get]
    constructor
    · apply Nat.le_trans (Nat.div_le_div_right (Nat.min_le_left _ _))
      rw [legal.floor_div_grain]
      exact floors (meets d).1
    · refine Nat.le_trans ?_ (Nat.div_le_div_right (Nat.le_max_right _ _))
      rw [legal.floor_div_grain]
      exact floors (meets d).2

end Tree

namespace Search

open SpatialIndex.Partition (RayWalk itemsAt)

variable {size : Nat} {tree : Tree Exact D} {low high : Fin D → ℚ}
  {origin direction : Vector Coordinate D}

/-- The line of a ray query, in cells. -/
def lineOf (tree : Tree Exact D) (origin direction : Vector Coordinate D) : Line D where
  origin d := ((rayOf tree origin direction).origin.get d).value
  velocity d := ((rayOf tree origin direction).direction.get d).value

/-- The numbers of a ray query: where it starts and how it moves, in the world and in cells. -/
structure Aims (tree : Tree Exact D) (low high : Fin D → ℚ) (origin direction : Vector Coordinate D)
    (start motion : Fin D → ℚ) : Prop where
  /-- The start in the world. -/
  worldStart : ∀ d : Fin D, (origin.map Exact.ofCoordinate).get d = .finite (start d)
  /-- The motion in the world. -/
  worldMotion : ∀ d : Fin D, (directionOf tree direction).get d = .finite (motion d)
  /-- The start in cells. -/
  rayStart : ∀ d : Fin D, (rayOf tree origin direction).origin.get d =
    .finite ((lineOf tree origin direction).origin d)
  /-- The motion in cells. -/
  rayMotion : ∀ d : Fin D, (rayOf tree origin direction).direction.get d =
    .finite ((lineOf tree origin direction).velocity d)
  /-- The start is scaled. -/
  lineStart : ∀ d : Fin D, (lineOf tree origin direction).origin d =
    (start d - low d) / tree.step low high d
  /-- The motion is scaled. -/
  lineMotion : ∀ d : Fin D, (lineOf tree origin direction).velocity d =
    motion d / tree.step low high d

/-- A ray with finite coordinates aims along a line in numbers. -/
theorem exists_aims (spans : tree.Spans low high) (formed : tree.Formed size)
    (starts : ∀ d : Fin D, Arithmetic.isFinite (Exact.ofCoordinate (origin.get d)) = true)
    (heads : ∀ d : Fin D, Arithmetic.isFinite (Exact.ofCoordinate (direction.get d)) = true) :
    ∃ start motion, Aims tree low high origin direction start motion := by
  have start (d : Fin D) : (origin.map Exact.ofCoordinate).get d =
      .finite (Exact.ofCoordinate (origin.get d)).value := by
    rw [← Exact.eq_finite (starts d)]
    exact Vector.getElem_map _ d.isLt
  have motion (d : Fin D) : (directionOf tree direction).get d =
      .finite ((directionOf tree direction).get d).value := by
    apply Exact.eq_finite
    have component : (directionOf tree direction).get d =
        if Arithmetic.within (Exact.ofCoordinate (direction.get d)) tree.epsilon then
          Arithmetic.ofNat 0
        else Exact.ofCoordinate (direction.get d) := Vector.getElem_map _ d.isLt
    rw [component]
    split
    · rfl
    · exact heads d
  have moves (d : Fin D) := ne_of_gt (spans.step_pos formed d)
  have origins (d : Fin D) : (rayOf tree origin direction).origin.get d =
      .finite (((Exact.ofCoordinate (origin.get d)).value - low d) / tree.step low high d) := by
    have scaled : (rayOf tree origin direction).origin.get d =
        ((origin.map Exact.ofCoordinate).get d - Exact.ofCoordinate (tree.axes.get d).low) /
          tree.factors.get d := Vector.getElem_ofFn d.isLt
    rw [scaled, start, spans.low, spans.factors formed, Exact.sub_finite,
      Exact.div_finite _ (moves d)]
  have velocities (d : Fin D) : (rayOf tree origin direction).direction.get d =
      .finite (((directionOf tree direction).get d).value / tree.step low high d) := by
    have scaled : (rayOf tree origin direction).direction.get d =
        (directionOf tree direction).get d / tree.factors.get d := Vector.getElem_ofFn d.isLt
    rw [scaled, spans.factors formed, motion, Exact.div_finite _ (moves d)]
    rfl
  have originScaled (d : Fin D) : (lineOf tree origin direction).origin d =
      ((Exact.ofCoordinate (origin.get d)).value - low d) / tree.step low high d :=
    congrArg Exact.value (origins d)
  have velocityScaled (d : Fin D) : (lineOf tree origin direction).velocity d =
      ((directionOf tree direction).get d).value / tree.step low high d :=
    congrArg Exact.value (velocities d)
  exact ⟨_, _, start, motion, fun d => (originScaled d).symm ▸ origins d,
    fun d => (velocityScaled d).symm ▸ velocities d, originScaled, velocityScaled⟩

namespace Aims

variable {start motion : Fin D → ℚ} (aims : Aims tree low high origin direction start motion)

include aims

/-- The coordinates of the line count cells of the world. -/
theorem point_eq (t : ℚ) (d : Fin D) : (lineOf tree origin direction).point t d =
    (start d + motion d * t - low d) / tree.step low high d := by
  rw [Line.point, aims.lineStart, aims.lineMotion]
  ring

/-- The line is as long as the way in the world. -/
theorem lengthSquared_eq (steps : ∀ d, tree.step low high d ≠ 0) (t : ℚ) :
    (lineOf tree origin direction).lengthSquared (tree.step low high) t =
      ∑ d, motion d * t * (motion d * t) := by
  refine Finset.sum_congr rfl fun d _ => ?_
  have whole : motion d / tree.step low high d * t * tree.step low high d = motion d * t := by
    rw [mul_right_comm, div_mul_cancel₀ _ (steps d)]
  rw [aims.lineMotion, whole]

end Aims

/-- The line of a ray query gets to the cells of every box that its beam hits. -/
theorem gets_of_hits (spans : tree.Spans low high) (formed : tree.Formed size)
    (starts : ∀ d : Fin D, Arithmetic.isFinite (Exact.ofCoordinate (origin.get d)) = true)
    (heads : ∀ d : Fin D, Arithmetic.isFinite (Exact.ofCoordinate (direction.get d)) = true)
    {distance : Exact} (reaches : Arithmetic.le (Arithmetic.ofNat 0) distance = true)
    {extent : Extent D} (typed : extent.Typed tree.numeric) (covered : tree.covers extent = true)
    (upright : ∀ d : Fin D, (extent.low.get d).atMost (extent.high.get d) = true)
    (hit : (beamOf tree origin direction distance).hits (extent.low.map Exact.ofCoordinate)
      (extent.high.map Exact.ofCoordinate) = true) :
    ∃ t, (lineOf tree origin direction).Gets tree.border (tree.step low high)
        (distance * distance) t ∧
      (tree.box extent).address tree.border =
        Address.path (Partition.levelCount tree.border - 1)
          ((lineOf tree origin direction).cells tree.border t)
          ((tree.box extent).address tree.border).length := by
  obtain ⟨bottom, top, bounds⟩ := spans.bounds formed typed covered upright
  obtain ⟨start, motion, aims⟩ := exists_aims spans formed starts heads
  have finite : (beamOf tree origin direction distance).Finite (extent.low.map Exact.ofCoordinate)
      (extent.high.map Exact.ofCoordinate) start motion bottom top := by
    refine ⟨aims.worldStart, aims.worldMotion, fun d => ?_, fun d => ?_⟩
    · rw [← (bounds d).1]
      exact Vector.getElem_map _ d.isLt
    · rw [← (bounds d).2.1]
      exact Vector.getElem_map _ d.isLt
  obtain ⟨t, nonneg, meets, short⟩ :=
    finite.exists_of_hits (fun d => (bounds d).2.2.2.1) (Exact.zero_le_mul_self reaches) hit
  have steps (d : Fin D) := spans.step_pos formed d
  have scaled (d : Fin D) : (bottom d - low d) / tree.step low high d ≤
      (lineOf tree origin direction).point t d ∧
      (lineOf tree origin direction).point t d ≤ (top d - low d) / tree.step low high d := by
    have width := le_of_lt (steps d)
    rw [aims.point_eq]
    exact ⟨div_le_div_of_nonneg_right (by linarith [(meets d).1]) width,
      div_le_div_of_nonneg_right (by linarith [(meets d).2]) width⟩
  obtain ⟨inside, there⟩ := spans.address_of_meets formed bounds scaled
  have length := aims.lengthSquared_eq (fun d => ne_of_gt (steps d)) t
  exact ⟨t, ⟨nonneg, inside, length ▸ short⟩, there⟩

end Search
end World
end SpatialIndex
