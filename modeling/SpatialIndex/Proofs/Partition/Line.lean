import Mathlib.Algebra.Order.Floor.Semifield
import SpatialIndex.Proofs.Arithmetic.Exact
import SpatialIndex.Proofs.Partition.Cube
import SpatialIndex.Proofs.Partition.RayWalk

/-!
# Rays in exact arithmetic

A ray of finite numbers is a straight line. Rounding is not the only reason why a walk can lose the
line: sides that are met within a tolerance of each other are crossed together, so the walk can be
ahead of the line on one axis, and two sides crossed at a corner skip the cells beside the corner. A
line is clear when neither can happen. A walk along a clear line is at the point of the line after
every move, in a cell that touches the point.
-/
namespace SpatialIndex.Partition

variable {D : Nat} {border : Nat}

/-! ## Finest cells -/

/-- The cells of a tree across one of its finest cells. -/
def grain (border : Nat) : Nat := border >>> (levelCount border - 1)

/-- The finest cells divide the border without a rest. -/
theorem Legal.grain_mul (legal : Legal border) :
    grain border * 2 ^ (levelCount border - 1) = border := by
  have deep := legal.levels_lt
  have whole : border =
      2 ^ (border.log2 - (levelCount border - 1)) * 2 ^ (levelCount border - 1) := by
    rw [← Nat.pow_add, Nat.sub_add_cancel (by omega), legal.shape]
  unfold grain
  rw [Nat.shiftRight_eq_div_pow]
  exact Nat.div_mul_cancel ⟨_, by rw [Nat.mul_comm]; exact whole⟩

/-- The finest cells fill the space. -/
theorem Legal.border_eq (legal : Legal border) :
    (border : ℚ) = (2 ^ (levelCount border - 1) : Nat) * grain border := by
  rw [← Nat.cast_mul, Nat.mul_comm, legal.grain_mul]

/-- A finest cell has cells of the tree. -/
theorem Legal.grain_pos (legal : Legal border) : 0 < grain border := by
  have whole := legal.grain_mul
  have least := legal.range.1
  rcases Nat.eq_zero_or_pos (grain border) with zero | positive
  · rw [zero, Nat.zero_mul] at whole
    unfold Limits.leastBorder at least
    omega
  · exact positive

/-- More cells reach further. -/
theorem scale (border : Nat) {n k : Nat} (ordered : n ≤ k) :
    (n * grain border : ℚ) ≤ k * grain border :=
  mul_le_mul_of_nonneg_right (Nat.cast_le.mpr ordered) (Nat.cast_nonneg _)

/-- A part of a level counts finest cells as it counts cells. -/
theorem Legal.width_eq (legal : Legal border) {address : Address D}
    (level : address.length < levelCount border) :
    address.width border = grain border * 2 ^ (levelCount border - 1 - address.length) := by
  have whole := legal.grain_mul
  have split : 2 ^ (levelCount border - 1) =
      2 ^ (levelCount border - 1 - address.length) * 2 ^ address.length := by
    rw [← Nat.pow_add, Nat.sub_add_cancel (by omega)]
  unfold Address.width
  apply Nat.div_eq_of_eq_mul_left (Nat.two_pow_pos _)
  rw [Nat.mul_assoc, ← split, whole]

/-- A box leads towards each of its finest cells. -/
theorem Box.address_eq_path (legal : Legal border) {box : Box D} (valid : box.Valid border)
    {cell : Cell D} (inside : ∀ d : Fin D, cell.get d < 2 ^ (levelCount border - 1))
    (held : ∀ d : Fin D, box.low.get d / grain border ≤ cell.get d ∧
      cell.get d ≤ box.high.get d / grain border) :
    box.address border =
      Address.path (levelCount border - 1) cell (box.address border).length := by
  obtain ⟨level, within, -⟩ := Box.address_spec legal valid
  generalize box.address border = address at *
  refine Address.ext_index (by simp) fun d => ?_
  have positive : 0 < address.width border := Address.width_pos legal level
  obtain ⟨low, high⟩ := within d
  have lower := (Box.between_cube_iff positive).1.mp low
  have upper := (Box.between_cube_iff positive).2.mp high
  rw [legal.width_eq level, ← Nat.div_div_eq_div_mul] at lower upper
  rw [Address.index_path (inside d) (by omega)]
  obtain ⟨least, most⟩ := held d
  have first := Nat.div_le_div_right (c := 2 ^ (levelCount border - 1 - address.length)) least
  have last := Nat.div_le_div_right (c := 2 ^ (levelCount border - 1 - address.length)) most
  omega

/-- The finest cell of a rounded number of cells. -/
theorem Legal.floor_div_grain (legal : Legal border) (x : ℚ) :
    min ⌊x⌋.toNat (border - 1) / grain border =
      min ⌊x / grain border⌋.toNat (2 ^ (levelCount border - 1) - 1) := by
  have width := legal.grain_pos
  have whole := legal.grain_mul
  have last : (border - 1) / grain border = 2 ^ (levelCount border - 1) - 1 := by
    have some : 0 < 2 ^ (levelCount border - 1) := Nat.two_pow_pos _
    rw [Nat.mul_comm] at whole
    nth_rewrite 1 [← whole]
    obtain ⟨count, more⟩ := Nat.exists_eq_succ_of_ne_zero (Nat.ne_of_gt some)
    rw [more, Nat.succ_mul, Nat.add_sub_assoc width, Nat.add_comm, Nat.add_mul_div_right _ _ width,
      Nat.div_eq_of_lt (Nat.sub_lt width Nat.one_pos), Nat.zero_add, Nat.succ_sub_one]
  have mono : Monotone fun n => n / grain border := fun _ _ ordered => Nat.div_le_div_right ordered
  rw [mono.map_min, last, Int.floor_toNat, Int.floor_toNat, Nat.floor_div_natCast]

/-! ## Lines -/

/-- A ray of finite numbers: a straight line with its motion per unit of its parameter. -/
structure Line (D : Nat) where
  /-- The start. -/
  origin : Fin D → ℚ
  /-- The motion per unit of the parameter. -/
  velocity : Fin D → ℚ

namespace Line

variable (border) (line : Line D)

/-- The coordinates at a parameter. -/
def point (t : ℚ) (d : Fin D) : ℚ := line.origin d + line.velocity d * t

/-- The finest cell at a parameter, on one axis; the far side of the cube belongs to the last
cell. -/
def cell (t : ℚ) (d : Fin D) : Nat :=
  min ⌊line.point t d / grain border⌋.toNat (2 ^ (levelCount border - 1) - 1)

/-- Whether the line is in the cube at a parameter. -/
def Inside (t : ℚ) : Prop := ∀ d, 0 ≤ line.point t d ∧ line.point t d ≤ border

/-- The parameter at which the line meets a side of finest cells. -/
def crossing (d : Fin D) (side : Nat) : ℚ :=
  (side * grain border - line.origin d) / line.velocity d

/-- Whether the line goes on upwards beyond a side, into another cell. -/
def Climbs (d : Fin D) (side : Nat) : Prop :=
  0 < line.velocity d ∧ side < 2 ^ (levelCount border - 1)

/-- How much later than the first crossing of a part another one may be to be taken for the same,
counted from the start of the line. -/
def tolerance (t : ℚ) : ℚ := t * (1 / 1000000000) + 1 / 1000000000000

/-- A line that meets the sides of cells clearly: where it is in the cube, two sides of different
axes that are met within the tolerance are met together, and the line goes on upwards beyond both or
beyond neither. -/
def Clear : Prop :=
  ∀ (d e : Fin D) (i j : Nat), d ≠ e → line.velocity d ≠ 0 → line.velocity e ≠ 0 →
    i ≤ 2 ^ (levelCount border - 1) → j ≤ 2 ^ (levelCount border - 1) →
    0 ≤ line.crossing border d i → line.Inside border (line.crossing border d i) →
    line.crossing border d i ≤ line.crossing border e j →
    line.crossing border e j ≤ line.crossing border d i + tolerance (line.crossing border d i) →
    line.crossing border e j = line.crossing border d i ∧
      (line.Climbs border d i ↔ line.Climbs border e j)

/-- The square of the length of the line up to a parameter, in world units. -/
def lengthSquared (factors : Fin D → ℚ) (t : ℚ) : ℚ :=
  ∑ d, (line.velocity d * t * factors d) * (line.velocity d * t * factors d)

variable {border line} {t : ℚ} {d : Fin D}

/-- A coordinate between two sides has a cell between them. -/
theorem cell_mem (legal : Legal border) {first last : Nat}
    (least : (first * grain border : ℚ) ≤ line.point t d)
    (below : line.point t d < last * grain border ∨ last = 2 ^ (levelCount border - 1))
    (some : first < last) (bounded : last ≤ 2 ^ (levelCount border - 1)) :
    first ≤ line.cell border t d ∧ line.cell border t d < last := by
  have width : (0 : ℚ) < grain border := Nat.cast_pos.mpr legal.grain_pos
  have low : (first : ℤ) ≤ ⌊line.point t d / grain border⌋ := by
    rw [Int.le_floor, le_div_iff₀ width]
    exact_mod_cast least
  unfold cell
  refine ⟨by omega, ?_⟩
  rcases below with below | all
  · have high : ⌊line.point t d / grain border⌋ < (last : ℤ) := by
      rw [Int.floor_lt, div_lt_iff₀ width]
      exact_mod_cast below
    omega
  · omega

/-- The number of finest cells below a point of the cube. -/
theorem floor_spec (legal : Legal border) {x : ℚ} (nonneg : 0 ≤ x) :
    (⌊x / grain border⌋.toNat * grain border : ℚ) ≤ x ∧
      x < (⌊x / grain border⌋.toNat + 1 : Nat) * grain border := by
  have width : (0 : ℚ) < grain border := Nat.cast_pos.mpr legal.grain_pos
  have whole : (⌊x / grain border⌋.toNat : ℤ) = ⌊x / grain border⌋ :=
    Int.toNat_of_nonneg (Int.floor_nonneg.mpr (div_nonneg nonneg (le_of_lt width)))
  have value : ((⌊x / grain border⌋.toNat : ℕ) : ℚ) = (⌊x / grain border⌋ : ℤ) := by
    exact_mod_cast congrArg (Int.cast : ℤ → ℚ) whole
  rw [Nat.cast_succ, value, ← le_div_iff₀ width, ← div_lt_iff₀ width]
  exact ⟨Int.floor_le _, Int.lt_floor_add_one _⟩

/-- A point of the cube lies in its cell. -/
theorem cell_touches (legal : Legal border) (inside : line.Inside border t) (d : Fin D) :
    (line.cell border t d * grain border : ℚ) ≤ line.point t d ∧
      line.point t d ≤ (line.cell border t d + 1 : Nat) * grain border := by
  obtain ⟨below, above⟩ := floor_spec legal (inside d).1
  have high := le_of_le_of_eq (inside d).2 legal.border_eq
  have width : 0 < 2 ^ (levelCount border - 1) := Nat.two_pow_pos _
  unfold cell
  generalize ⌊line.point t d / grain border⌋.toNat = cells at *
  rcases Nat.lt_or_ge (2 ^ (levelCount border - 1) - 1) cells with beyond | within
  · rw [Nat.min_eq_right (Nat.le_of_lt beyond), Nat.sub_add_cancel width]
    exact ⟨le_trans (scale _ (Nat.le_of_lt beyond)) below, high⟩
  · rw [Nat.min_eq_left within]
    exact ⟨below, le_of_lt above⟩

/-- The distance of a point of the line from its start, squared. -/
theorem distanceSquared_eq {factors : Fin D → ℚ} {origin scales point : Vector Exact D}
    (start : ∀ d : Fin D, origin.get d = .finite (line.origin d))
    (scale : ∀ d : Fin D, scales.get d = .finite (factors d))
    (here : ∀ d : Fin D, point.get d = .finite (line.point t d)) :
    RayWalk.distanceSquared origin scales point = .finite (line.lengthSquared factors t) := by
  unfold RayWalk.distanceSquared lengthSquared
  rw [← Exact.sum_finite]
  congr 1
  funext d
  rw [here, start, scale]
  simp only [Exact.sub_finite, Exact.mul_finite, Line.point, add_sub_cancel_left]

/-- The square of the length grows with the parameter. -/
theorem lengthSquared_mono (line : Line D) (factors : Fin D → ℚ) {s : ℚ} (nonneg : 0 ≤ s)
    (later : s ≤ t) :
    line.lengthSquared factors s ≤ line.lengthSquared factors t := by
  apply Finset.sum_le_sum
  intro d _
  have squares (r : ℚ) : line.velocity d * r * factors d * (line.velocity d * r * factors d) =
      (line.velocity d * factors d) ^ 2 * r ^ 2 := by ring
  rw [squares, squares]
  exact mul_le_mul_of_nonneg_left (pow_le_pow_left₀ nonneg later 2) (sq_nonneg _)

/-- The line is at a side exactly at the crossing. -/
theorem point_crossing (moves : line.velocity d ≠ 0) (side : Nat) :
    line.point (line.crossing border d side) d = side * grain border := by
  unfold point crossing
  field_simp
  ring

/-- On an axis on which it goes up the line meets a side later than all points below the side. -/
theorem crossing_up (up : 0 < line.velocity d) (side : Nat) :
    (line.point t d ≤ side * grain border ↔ t ≤ line.crossing border d side) ∧
      (line.point t d < side * grain border ↔ t < line.crossing border d side) := by
  unfold point crossing
  rw [le_div_iff₀ up, lt_div_iff₀ up, mul_comm (line.velocity d)]
  constructor <;> constructor <;> intro <;> linarith

/-- On an axis on which it goes down the line meets a side later than all points above the side. -/
theorem crossing_down (down : line.velocity d < 0) (side : Nat) :
    (side * grain border ≤ line.point t d ↔ t ≤ line.crossing border d side) ∧
      (side * grain border < line.point t d ↔ t < line.crossing border d side) := by
  unfold point crossing
  rw [le_div_iff_of_neg down, lt_div_iff_of_neg down, mul_comm (line.velocity d)]
  constructor <;> constructor <;> intro <;> linarith

/-- The point of a line moves with its velocity. -/
theorem point_sub (s : ℚ) : line.point t d = line.point s d + line.velocity d * (t - s) := by
  unfold point
  ring

end Line

/-! ## Walks along a line -/

namespace RayWalk

/-- A walk that follows a line and has got to the parameter `s`. -/
structure Follows (line : Line D) (factors : Fin D → ℚ) (s : ℚ) (walk : RayWalk Exact D) :
    Prop where
  /-- The border is legal. -/
  legal : Legal walk.border
  /-- The start of the line. -/
  origin : ∀ d : Fin D, walk.origin.get d = .finite (line.origin d)
  /-- Its direction. -/
  direction : ∀ d : Fin D, walk.direction.get d = .finite (line.velocity d)
  /-- The scale of the world. -/
  factors : ∀ d : Fin D, walk.factors.get d = .finite (factors d)
  /-- The parameter is no earlier than the start. -/
  nonneg : 0 ≤ s
  /-- The walk is at the point of the parameter. -/
  point : ∀ d : Fin D, walk.point.get d = .finite (line.point s d)
  /-- The cell touches that point. -/
  touches : ∀ d : Fin D, (walk.target.get d * grain walk.border : ℚ) ≤ line.point s d ∧
    line.point s d ≤ (walk.target.get d + 1 : Nat) * grain walk.border
  /-- The cell is that of the point on every axis on which the line does not go down. -/
  onward : ∀ d : Fin D, 0 ≤ line.velocity d → walk.target.get d = line.cell walk.border s d

/-- Keep the first least value of those that count. -/
def keepLeast {β : Type} (counts : β → Bool) (value : β → Exact) (best : Option (β × Exact))
    (d : β) : Option (β × Exact) :=
  if counts d then
    match best with
    | some (e, least) =>
      if Arithmetic.lt (value d) least then some (d, value d) else some (e, least)
    | none => some (d, value d)
  else best

/-- The value kept of finite ones is the least. -/
theorem foldl_least {β : Type} (counts : β → Bool) (value : β → Exact) (number : β → ℚ)
    (finite : ∀ d, counts d = true → value d = .finite (number d)) (items : List β) :
    (items.foldl (keepLeast counts value) none = none → ∀ d ∈ items, counts d = false) ∧
      ∀ axis least, items.foldl (keepLeast counts value) none = some (axis, least) →
        counts axis = true ∧ least = .finite (number axis) ∧
          ∀ d ∈ items, counts d = true → number axis ≤ number d := by
  induction items using List.reverseRecOn with
  | nil => simp
  | append_singleton items d ih =>
    rw [List.foldl_append, List.foldl_cons, List.foldl_nil]
    generalize items.foldl _ none = best at ih
    obtain ⟨missing, found⟩ := ih
    simp only [List.forall_mem_append, List.forall_mem_singleton]
    unfold keepLeast
    cases counted : counts d with
    | false =>
      rw [if_neg Bool.false_ne_true]
      refine ⟨fun none => ⟨missing none, rfl⟩, fun axis least some => ?_⟩
      obtain ⟨moves, value, first⟩ := found axis least some
      exact ⟨moves, value, first, nofun⟩
    | true =>
      rw [if_pos rfl]
      cases best with
      | none =>
        refine ⟨nofun, fun axis least some => ?_⟩
        cases some
        refine ⟨counted, finite d counted, fun e seen moves => ?_, fun _ => le_refl _⟩
        rw [missing rfl e seen] at moves
        cases moves
      | some best =>
        obtain ⟨e, former⟩ := best
        obtain ⟨moves, rfl, first⟩ := found e former rfl
        simp only
        by_cases sooner : Arithmetic.lt (value d) (.finite (number e)) = true
        · rw [if_pos sooner]
          rw [finite d counted, Exact.lt_finite] at sooner
          refine ⟨nofun, fun axis least some => ?_⟩
          cases some
          exact ⟨counted, finite d counted,
            fun other seen further => le_trans (le_of_lt sooner) (first other seen further),
            fun _ => le_refl _⟩
        · rw [if_neg sooner]
          rw [finite d counted, Exact.lt_finite, not_lt] at sooner
          refine ⟨nofun, fun axis least some => ?_⟩
          cases some
          exact ⟨moves, rfl, first, fun _ => sooner⟩

variable {line : Line D} {factors : Fin D → ℚ} {s : ℚ} {walk : RayWalk Exact D}

/-- The side to leave is a natural number of finest cells from the origin. -/
theorem boundaryPoint_eq (d : Fin D) :
    walk.boundaryPoint d = .finite (walk.boundary d * grain walk.border) := by
  unfold boundaryPoint
  rw [Exact.ofNat_eq, Nat.cast_mul]
  rfl

/-- The tolerance of a finite parameter is the one of the line. -/
theorem tolerance_finite (x : ℚ) : tolerance (.finite x : Exact) = .finite (Line.tolerance x) := by
  have billion : ((1000000000 : Nat) : ℚ) ≠ 0 := by norm_num
  have trillion : ((1000000000000 : Nat) : ℚ) ≠ 0 := by norm_num
  unfold tolerance Line.tolerance
  rw [Exact.ofNat_eq, Exact.ofNat_eq, Exact.ofNat_eq, Exact.div_finite _ billion,
    Exact.div_finite _ trillion, Exact.mul_finite, Exact.add_finite]
  norm_num

/-- On an axis on which the ray does not move its cell stays. -/
theorem nextTarget_of_rests {axis d : Fin D} {least : Exact}
    (passed : ¬walk.crosses axis least d = true) (rests : ¬walk.moves d = true) :
    walk.nextTarget axis least d = walk.target.get d := by
  unfold nextTarget
  rw [if_neg passed, if_neg rests]

/-- There are no more finest cells on an axis than rounding down can tell apart. -/
theorem finest_le (border : Nat) : 2 ^ (levelCount border - 1) ≤ Exact.greatestFloor := by
  have levels : levelCount border - 1 ≤ 15 := by
    unfold levelCount Limits.levels
    omega
  calc 2 ^ (levelCount border - 1) ≤ 2 ^ (15 : Nat) := Nat.pow_le_pow_right (by omega) levels
    _ ≤ Exact.greatestFloor := by decide

namespace Follows

/-- A walk moves on the axes on which its line has a velocity. -/
theorem moves_iff (follows : Follows line factors s walk) (d : Fin D) :
    walk.moves d = true ↔ line.velocity d ≠ 0 := by
  unfold moves
  rw [follows.direction, Bool.not_eq_true', ← Bool.not_eq_true, Exact.isZero_finite]

/-- A walk ascends on the axes on which the velocity of its line is positive. -/
theorem ascends_iff (follows : Follows line factors s walk) (d : Fin D) :
    walk.ascends d = true ↔ 0 < line.velocity d := by
  unfold ascends
  rw [follows.direction, Exact.zero_eq, Exact.lt_finite]

/-- The side to leave is not behind the line, and is reached as much later as it says. -/
theorem parameter_eq (follows : Follows line factors s walk) {d : Fin D}
    (inside : walk.target.get d < 2 ^ walk.finest) (moving : walk.moves d = true) :
    s ≤ line.crossing walk.border d (walk.boundary d) ∧
      walk.parameter d = .finite (line.crossing walk.border d (walk.boundary d) - s) := by
  have moves := (follows.moves_iff d).mp moving
  obtain ⟨start, past, -⟩ := region_spec inside
  have ahead : s ≤ line.crossing walk.border d (walk.boundary d) := by
    unfold boundary
    by_cases up : walk.ascends d = true
    · rw [if_pos up, ← (Line.crossing_up ((follows.ascends_iff d).mp up) _).1]
      exact le_trans (follows.touches d).2 (scale _ past)
    · have down : line.velocity d < 0 :=
        lt_of_le_of_ne (not_lt.mp fun positive => up ((follows.ascends_iff d).mpr positive)) moves
      rw [if_neg up, ← (Line.crossing_down down _).1]
      exact le_trans (scale _ start) (follows.touches d).1
  refine ⟨ahead, ?_⟩
  have quotient : ((walk.boundary d : ℚ) * grain walk.border - line.point s d) / line.velocity d =
      line.crossing walk.border d (walk.boundary d) - s := by
    unfold Line.crossing Line.point
    field_simp
    ring
  unfold parameter
  rw [boundaryPoint_eq, follows.point, follows.direction, Exact.sub_finite,
    Exact.div_finite _ moves, quotient, Exact.zero_eq, Exact.max_finite,
    max_eq_left (sub_nonneg.mpr ahead)]

/-- Without a nearest side the line stands still, and of the sides to leave none is met before the
nearest one. -/
theorem nearest?_spec (follows : Follows line factors s walk)
    (inside : ∀ d : Fin D, walk.target.get d < 2 ^ walk.finest) :
    (walk.nearest? = none → ∀ d, walk.moves d = false) ∧
      ∀ axis least, walk.nearest? = some (axis, least) → walk.moves axis = true ∧
        least = .finite (line.crossing walk.border axis (walk.boundary axis) - s) ∧
        ∀ d, walk.moves d = true → line.crossing walk.border axis (walk.boundary axis) ≤
          line.crossing walk.border d (walk.boundary d) := by
  have fold : walk.nearest? =
      (List.finRange D).foldl (keepLeast walk.moves walk.parameter) none := by
    unfold nearest?
    congr 1
    funext best d
    unfold keepLeast
    cases best <;> rfl
  rw [fold]
  obtain ⟨missing, found⟩ := foldl_least walk.moves walk.parameter
    (fun d => line.crossing walk.border d (walk.boundary d) - s)
    (fun d moving => (follows.parameter_eq (inside d) moving).2) (List.finRange D)
  refine ⟨fun none d => missing none d (List.mem_finRange d), fun axis least some => ?_⟩
  obtain ⟨moving, value, first⟩ := found axis least some
  exact ⟨moving, value, fun d moves =>
    (sub_le_sub_iff_right s).mp (first d (List.mem_finRange d) moves)⟩

/-- An axis on which the line does not move has the same point at all parameters. -/
theorem still (follows : Follows line factors s walk) {d : Fin D} (rests : ¬walk.moves d = true)
    (t : ℚ) : line.velocity d = 0 ∧ line.point t d = line.point s d := by
  have zero : line.velocity d = 0 := by
    by_contra moves
    exact rests ((follows.moves_iff d).mpr moves)
  refine ⟨zero, ?_⟩
  rw [line.point_sub s, zero, zero_mul, add_zero]

/-- Its cell stays the same there. -/
theorem cell_eq_target (follows : Follows line factors s walk) {d : Fin D}
    (rests : ¬walk.moves d = true) (t : ℚ) : line.cell walk.border t d = walk.target.get d := by
  obtain ⟨zero, same⟩ := follows.still rests t
  rw [follows.onward d (le_of_eq zero.symm), Line.cell, Line.cell, same]

end Follows

/-! ## The nearest side -/

/-- A walk that follows a line, with the first side by which the line leaves its part. -/
structure Nears (line : Line D) (factors : Fin D → ℚ) (s : ℚ) (walk : RayWalk Exact D)
    (axis : Fin D) (least : Exact) : Prop extends Follows line factors s walk where
  /-- Its cell is in the cube. -/
  inside : ∀ d : Fin D, walk.target.get d < 2 ^ walk.finest
  /-- The side is the nearest. -/
  nearest : walk.nearest? = some (axis, least)

namespace Nears

variable {axis : Fin D} {least : Exact} (nears : Nears line factors s walk axis least)

include nears

/-- The line moves towards the nearest side. -/
theorem moves : walk.moves axis = true :=
  ((nears.nearest?_spec nears.inside).2 axis least nears.nearest).1

/-- The walk measures how much later the line meets the nearest side. -/
theorem least_eq :
    least = .finite (line.crossing walk.border axis (walk.boundary axis) - s) :=
  ((nears.nearest?_spec nears.inside).2 axis least nears.nearest).2.1

/-- No other side is met before. -/
theorem first {d : Fin D} (moving : walk.moves d = true) :
    line.crossing walk.border axis (walk.boundary axis) ≤
      line.crossing walk.border d (walk.boundary d) :=
  ((nears.nearest?_spec nears.inside).2 axis least nears.nearest).2.2 d moving

/-- The nearest side is not behind the line. -/
theorem ahead : s ≤ line.crossing walk.border axis (walk.boundary axis) :=
  (nears.parameter_eq (nears.inside axis) nears.moves).1

/-- Until the nearest side is met the line is in the part to leave. -/
theorem in_part {t : ℚ} (since : s ≤ t)
    (before : t ≤ line.crossing walk.border axis (walk.boundary axis)) (d : Fin D) :
    (walk.regionStart d * grain walk.border : ℚ) ≤ line.point t d ∧
      line.point t d ≤ (walk.regionStart d + 2 ^ walk.shift : Nat) * grain walk.border := by
  obtain ⟨start, past, -⟩ := region_spec (nears.inside d)
  have low := le_trans (scale walk.border start) (nears.touches d).1
  have high := le_trans (nears.touches d).2 (scale walk.border past)
  have moved := line.point_sub s (t := t) (d := d)
  rcases lt_trichotomy (line.velocity d) 0 with down | still | up
  · have moves := (nears.moves_iff d).mpr (ne_of_lt down)
    have far := le_trans before (nears.first moves)
    rw [boundary, if_neg fun ascends => not_lt_of_gt down ((nears.ascends_iff d).mp ascends),
      ← (Line.crossing_down down _).1] at far
    have back := mul_nonpos_of_nonpos_of_nonneg (le_of_lt down) (sub_nonneg.mpr since)
    exact ⟨far, by linarith⟩
  · rw [still, zero_mul, add_zero] at moved
    rw [moved]
    exact ⟨low, high⟩
  · have moves := (nears.moves_iff d).mpr (ne_of_gt up)
    have far := le_trans before (nears.first moves)
    rw [boundary, if_pos ((nears.ascends_iff d).mpr up), ← (Line.crossing_up up _).1] at far
    have forth := mul_nonneg (le_of_lt up) (sub_nonneg.mpr since)
    exact ⟨by linarith, far⟩

/-- Until the nearest side is met the line is in the cube. -/
theorem inside_cube {t : ℚ} (since : s ≤ t)
    (before : t ≤ line.crossing walk.border axis (walk.boundary axis)) :
    line.Inside walk.border t := by
  intro d
  obtain ⟨low, high⟩ := nears.in_part since before d
  have width : (0 : ℚ) ≤ grain walk.border := Nat.cast_nonneg _
  obtain ⟨-, -, within⟩ := region_spec (nears.inside d)
  have bound := le_of_le_of_eq (scale walk.border within) nears.legal.border_eq.symm
  exact ⟨le_trans (mul_nonneg (Nat.cast_nonneg _) width) low, le_trans high bound⟩

/-- The walk crosses the sides that a clear line meets with the nearest one, and goes on upwards
beyond all of them or beyond none. -/
theorem crosses_iff (clear : line.Clear walk.border) (d : Fin D) :
    (walk.crosses axis least d = true ↔ walk.moves d = true ∧
      line.crossing walk.border d (walk.boundary d) =
        line.crossing walk.border axis (walk.boundary axis)) ∧
      (walk.crosses axis least d = true →
        (line.Climbs walk.border axis (walk.boundary axis) ↔
          line.Climbs walk.border d (walk.boundary d))) := by
  have ahead := nears.ahead
  have slack : 0 ≤ Line.tolerance (line.crossing walk.border axis (walk.boundary axis) - s) := by
    unfold Line.tolerance
    have := sub_nonneg.mpr ahead
    positivity
  by_cases same : d = axis
  · subst same
    simp [crosses, nears.moves]
  unfold crosses
  rw [Bool.and_eq_true, Bool.or_eq_true, beq_iff_eq]
  by_cases moving : walk.moves d = true
  · rw [(nears.parameter_eq (nears.inside d) moving).2, nears.least_eq, tolerance_finite,
      Exact.add_finite, Exact.le_finite]
    have meets (close : line.crossing walk.border d (walk.boundary d) - s ≤
        line.crossing walk.border axis (walk.boundary axis) - s +
          Line.tolerance (line.crossing walk.border axis (walk.boundary axis) - s)) :=
      clear axis d _ _ (Ne.symm same) ((nears.moves_iff axis).mp nears.moves)
        ((nears.moves_iff d).mp moving) (boundary_le nears.inside axis)
        (boundary_le nears.inside d) (le_trans nears.nonneg ahead)
        (nears.inside_cube ahead (le_refl _)) (nears.first moving) (by
          unfold Line.tolerance at close ⊢
          have := nears.nonneg
          linarith)
    constructor
    · constructor
      · rintro ⟨-, equal | close⟩
        · exact absurd equal same
        · exact ⟨moving, (meets close).1⟩
      · rintro ⟨-, together⟩
        refine ⟨moving, .inr ?_⟩
        rw [together]
        linarith
    · rintro ⟨-, equal | close⟩
      · exact absurd equal same
      · exact (meets close).2
  · exact ⟨⟨fun crossed => absurd crossed.1 moving, fun crossed => absurd crossed.1 moving⟩,
      fun crossed => absurd crossed.1 moving⟩

/-- A point of the line that is not at a far side of the part has its cell in the part. -/
theorem cell_mem_part {t : ℚ} (since : s ≤ t)
    (before : t ≤ line.crossing walk.border axis (walk.boundary axis)) {d : Fin D}
    (moving : walk.moves d = true)
    (up : line.Climbs walk.border d (walk.boundary d) →
      t < line.crossing walk.border d (walk.boundary d))
    (down : line.velocity d < 0 → s < t) :
    walk.regionStart d ≤ line.cell walk.border t d ∧
      line.cell walk.border t d < walk.regionStart d + 2 ^ walk.shift := by
  obtain ⟨low, high⟩ := nears.in_part since before d
  obtain ⟨start, past, within⟩ := region_spec (nears.inside d)
  refine Line.cell_mem nears.legal low ?_ (by omega) within
  by_cases upward : 0 < line.velocity d
  · have side : walk.boundary d = walk.regionStart d + 2 ^ walk.shift := by
      rw [boundary, if_pos ((nears.ascends_iff d).mpr upward)]
    rcases Nat.lt_or_ge (walk.boundary d) (2 ^ (levelCount walk.border - 1)) with climbs | last
    · refine .inl ?_
      rw [← side, (Line.crossing_up upward _).2]
      exact up ⟨upward, climbs⟩
    · rw [side] at last
      exact .inr (Nat.le_antisymm within last)
  · have downward : line.velocity d < 0 :=
      lt_of_le_of_ne (not_lt.mp upward) ((nears.moves_iff d).mp moving)
    refine .inl (lt_of_lt_of_le ?_ (le_trans (nears.touches d).2 (scale walk.border past)))
    have moved := line.point_sub s (t := t) (d := d)
    have back := mul_neg_of_neg_of_pos downward (sub_pos.mpr (down downward))
    linarith

/-- While the line climbs beyond no side its cell is in the part. -/
theorem cell_div_shift {t : ℚ} (since : s < t)
    (before : t ≤ line.crossing walk.border axis (walk.boundary axis))
    (up : ∀ d, line.Climbs walk.border d (walk.boundary d) →
      t < line.crossing walk.border d (walk.boundary d)) (d : Fin D) :
    line.cell walk.border t d / 2 ^ walk.shift = walk.target.get d / 2 ^ walk.shift := by
  by_cases moving : walk.moves d = true
  · obtain ⟨low, high⟩ := nears.cell_mem_part (le_of_lt since) before moving
      (up d) fun _ => since
    rw [walk.regionStart_eq d] at low high
    apply Nat.div_eq_of_lt_le low
    rw [Nat.succ_mul]
    exact high
  · rw [nears.cell_eq_target moving]

/-- The point after a move is on the line. -/
theorem nextPoint_eq (clear : line.Clear walk.border) (d : Fin D) :
    walk.nextPoint axis least d =
      .finite (line.point (line.crossing walk.border axis (walk.boundary axis)) d) := by
  have crossed := (nears.crosses_iff clear d).1
  unfold nextPoint
  by_cases crosses : walk.crosses axis least d = true
  · obtain ⟨moving, together⟩ := crossed.mp crosses
    rw [if_pos crosses, boundaryPoint_eq, ← together,
      Line.point_crossing ((nears.moves_iff d).mp moving)]
  · rw [if_neg crosses, nears.point, nears.direction, nears.least_eq, Exact.mul_finite,
      Exact.add_finite, ← line.point_sub]
    by_cases moving : walk.moves d = true
    · rw [if_pos moving]
    · rw [if_neg moving]
      exact congrArg Exact.finite (nears.still moving _).2.symm

/-- A side that is not crossed is met later. -/
theorem lt_crossing (clear : line.Clear walk.border) {d : Fin D} (moving : walk.moves d = true)
    (passed : ¬walk.crosses axis least d = true) :
    line.crossing walk.border axis (walk.boundary axis) <
      line.crossing walk.border d (walk.boundary d) := by
  refine lt_of_le_of_ne (nears.first moving) fun together => passed ?_
  exact ((nears.crosses_iff clear d).1).mpr ⟨moving, together.symm⟩

/-- A cell that is not beyond a side is the one of the point, as far as that is in the part. -/
theorem nextTarget_of_not_crosses (clear : line.Clear walk.border) {d : Fin D}
    (moving : walk.moves d = true) (passed : ¬walk.crosses axis least d = true) :
    walk.nextTarget axis least d = max (walk.regionStart d)
      (min (min ⌊line.point (line.crossing walk.border axis (walk.boundary axis)) d /
        grain walk.border⌋.toNat Exact.greatestFloor)
        (walk.regionStart d + 2 ^ walk.shift - 1)) := by
  have width : ((grain walk.border : Nat) : ℚ) ≠ 0 :=
    Nat.cast_ne_zero.mpr (Nat.ne_of_gt nears.legal.grain_pos)
  have cells : (Arithmetic.ofNat walk.cellWidth : Exact) = .finite (grain walk.border) := rfl
  unfold nextTarget
  rw [if_neg passed, if_pos moving, nears.nextPoint_eq clear, cells,
    Exact.div_finite _ width]
  rfl

/-- The coordinate of a side that is crossed is its own. -/
theorem point_of_crosses (clear : line.Clear walk.border) {d : Fin D}
    (crosses : walk.crosses axis least d = true) :
    line.point (line.crossing walk.border axis (walk.boundary axis)) d =
      walk.boundary d * grain walk.border := by
  obtain ⟨moving, together⟩ := (nears.crosses_iff clear d).1.mp crosses
  rw [← together, Line.point_crossing ((nears.moves_iff d).mp moving)]

/-- The cell after a move touches the point after it. -/
theorem nextTarget_touches (clear : line.Clear walk.border)
    (stays : ∀ d, ¬(walk.crosses axis least d = true ∧ walk.atCubeSide d = true)) (d : Fin D) :
    (walk.nextTarget axis least d * grain walk.border : ℚ) ≤
        line.point (line.crossing walk.border axis (walk.boundary axis)) d ∧
      line.point (line.crossing walk.border axis (walk.boundary axis)) d ≤
        (walk.nextTarget axis least d + 1 : Nat) * grain walk.border := by
  have width : (0 : ℚ) ≤ grain walk.border := Nat.cast_nonneg _
  by_cases crosses : walk.crosses axis least d = true
  · have apart : walk.atCubeSide d = false := by simpa [crosses] using stays d
    have beyond : walk.nextTarget axis least d =
        if walk.ascends d then walk.boundary d else walk.boundary d - 1 := if_pos crosses
    rw [nears.point_of_crosses clear crosses, beyond]
    by_cases up : walk.ascends d = true
    · rw [if_pos up]
      exact ⟨le_refl _, scale _ (Nat.le_succ _)⟩
    · rw [if_neg up]
      rw [atCubeSide, if_neg up, beq_eq_false_iff_ne] at apart
      exact ⟨scale _ (Nat.sub_le _ _), scale _ (by omega)⟩
  · by_cases moving : walk.moves d = true
    · obtain ⟨low, high⟩ := nears.in_part nears.ahead (le_refl _) d
      obtain ⟨start, past, within⟩ := region_spec (nears.inside d)
      have positive : 0 ≤ line.point (line.crossing walk.border axis (walk.boundary axis)) d :=
        le_trans (mul_nonneg (Nat.cast_nonneg _) width) low
      obtain ⟨least, most⟩ := Line.floor_spec nears.legal positive
      have bound : 2 ^ walk.finest ≤ Exact.greatestFloor := finest_le walk.border
      rw [nears.nextTarget_of_not_crosses clear moving crosses]
      generalize ⌊line.point (line.crossing walk.border axis (walk.boundary axis)) d /
        grain walk.border⌋.toNat = cells at least most
      generalize chosen : max (walk.regionStart d) (min (min cells Exact.greatestFloor)
        (walk.regionStart d + 2 ^ walk.shift - 1)) = next
      constructor
      · rcases (by omega : next ≤ walk.regionStart d ∨ next ≤ cells) with first | below
        · exact le_trans (scale _ first) low
        · exact le_trans (scale _ below) least
      · rcases (by omega : walk.regionStart d + 2 ^ walk.shift ≤ next + 1 ∨ cells + 1 ≤ next + 1)
          with last | above
        · exact le_trans high (scale _ last)
        · exact le_trans (le_of_lt most) (scale _ above)
    · rw [nextTarget_of_rests crosses moving, (nears.still moving _).2]
      exact nears.touches d

/-- The cell after a move that goes down beyond no side of the axis is that of the point after
it. -/
theorem nextTarget_eq_cell (clear : line.Clear walk.border)
    (stays : ∀ d, ¬(walk.crosses axis least d = true ∧ walk.atCubeSide d = true)) {d : Fin D}
    (up : walk.crosses axis least d = true → 0 < line.velocity d)
    (down : line.velocity d < 0 → s < line.crossing walk.border axis (walk.boundary axis)) :
    walk.nextTarget axis least d =
      line.cell walk.border (line.crossing walk.border axis (walk.boundary axis)) d := by
  by_cases crosses : walk.crosses axis least d = true
  · have climbs := (nears.ascends_iff d).mpr (up crosses)
    have apart : walk.atCubeSide d = false := by simpa [crosses] using stays d
    rw [atCubeSide, if_pos climbs, decide_eq_false_iff_not, Nat.not_le] at apart
    have beyond : walk.nextTarget axis least d = walk.boundary d := by
      unfold nextTarget
      rw [if_pos crosses, if_pos climbs]
    have here := nears.point_of_crosses clear crosses
    have width : (0 : ℚ) < grain walk.border := Nat.cast_pos.mpr nears.legal.grain_pos
    have short : line.point (line.crossing walk.border axis (walk.boundary axis)) d <
        (walk.boundary d + 1 : Nat) * grain walk.border := by
      rw [here]
      push_cast
      linarith
    have found := Line.cell_mem nears.legal (le_of_eq here.symm) (.inl short)
      (Nat.lt_succ_self _) apart
    rw [beyond]
    omega
  · by_cases moving : walk.moves d = true
    · have found := nears.cell_mem_part nears.ahead (le_refl _) moving
        (fun _ => nears.lt_crossing clear moving crosses) down
      have bound : 2 ^ walk.finest ≤ Exact.greatestFloor := finest_le walk.border
      obtain ⟨-, -, within⟩ := region_spec (nears.inside d)
      rw [nears.nextTarget_of_not_crosses clear moving crosses]
      have sameFinest : walk.finest = levelCount walk.border - 1 := rfl
      unfold Line.cell at found ⊢
      rw [← sameFinest] at found ⊢
      omega
    · rw [nextTarget_of_rests crosses moving, nears.cell_eq_target moving]

/-- After a move that ends at no side of the cube the walk follows the line to the nearest side. -/
theorem landed (clear : line.Clear walk.border)
    (stays : ∀ d, ¬(walk.crosses axis least d = true ∧ walk.atCubeSide d = true)) :
    Follows line factors (line.crossing walk.border axis (walk.boundary axis))
      (walk.landed axis least) := by
  refine ⟨nears.legal, nears.origin, nears.direction, nears.factors,
    le_trans nears.nonneg nears.ahead, fun d => ?_, fun d => ?_, fun d climbs => ?_⟩
  · rw [← nears.nextPoint_eq clear d]
    exact Vector.getElem_ofFn d.isLt
  · rw [landed_target]
    exact nears.nextTarget_touches clear stays d
  · rw [landed_target]
    refine nears.nextTarget_eq_cell clear stays (fun crosses => ?_)
      fun down => absurd climbs (not_le_of_gt down)
    obtain ⟨moving, -⟩ := (nears.crosses_iff clear d).1.mp crosses
    exact lt_of_le_of_ne climbs (Ne.symm ((nears.moves_iff d).mp moving))

end Nears
end RayWalk
end SpatialIndex.Partition
