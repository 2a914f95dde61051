import SpatialIndex.Proofs.Arithmetic.Accuracy
import SpatialIndex.Proofs.Partition.RayRounding

/-!
# One move of a ray

A move takes a ray of finite numbers onto the sides of its part that it reaches, and towards those
that it does not reach. In accurate arithmetic, however it rounds, it goes back on no axis and past
no side: a side that is not reached is met later than the tolerance, which is more than rounding can
lose, and rounding down to a cell of a power of two is exact.
-/
namespace SpatialIndex

namespace Exact

/-- Numbers are in order one way or the other. -/
theorem le_total {x y : Exact} (first : x ≠ nan) (second : y ≠ nan) :
    Arithmetic.le x y = true ∨ Arithmetic.le y x = true := by
  cases above : Arithmetic.lt x y with
  | true => exact .inl (LawfulArithmetic.le_of_lt above)
  | false => exact .inr (le_of_not_lt first second above)

/-- The greater of two operands is not above what is above both. -/
theorem max_le {x y z : Exact} (first : Arithmetic.le x z = true)
    (second : Arithmetic.le y z = true) : Arithmetic.le (Arithmetic.max x y) z = true := by
  unfold Arithmetic.max
  split
  · exact second
  · split
    · exact first
    · split
      · exact second
      · exact first

end Exact

/-! ## Coordinates that go one way -/

/-- Whether a coordinate moves only in its direction, and stays without one. -/
@[mk_iff]
structure Onward {α : Type} [Arithmetic α] (direction start stop : α) : Prop where
  /-- It goes up in an upward direction. -/
  up : Arithmetic.lt (Arithmetic.ofNat 0) direction = true → Arithmetic.le start stop = true
  /-- It goes down in a downward direction. -/
  down : Arithmetic.lt direction (Arithmetic.ofNat 0) = true → Arithmetic.le stop start = true
  /-- Without a direction it stays. -/
  still : Arithmetic.isZero direction = true →
    Arithmetic.le start stop = true ∧ Arithmetic.le stop start = true

namespace Onward

/-- What moves on twice in a direction moves on in it. -/
theorem trans {α : Type} [Arithmetic α] [LawfulArithmetic α] {direction first second third : α}
    (early : Onward direction first second) (late : Onward direction second third) :
    Onward direction first third := by
  refine ⟨fun up => ?_, fun down => ?_, fun still => ?_⟩
  · exact LawfulArithmetic.le_trans (early.up up) (late.up up)
  · exact LawfulArithmetic.le_trans (late.down down) (early.down down)
  · obtain ⟨forth, back⟩ := early.still still
    obtain ⟨further, behind⟩ := late.still still
    exact ⟨LawfulArithmetic.le_trans forth further, LawfulArithmetic.le_trans behind back⟩

/-- Coordinates move as their values do. -/
theorem value_iff {α : Type} [Arithmetic α] (rounding : Rounding α) {direction start stop : α} :
    Onward (rounding.value direction) (rounding.value start) (rounding.value stop) ↔
      Onward direction start stop := by
  simp only [onward_iff, rounding.lt, rounding.le, rounding.isZero, rounding.value_zero,
    Exact.zero_eq]

/-- Coordinates that move on twice move on. -/
theorem trans_value {α : Type} [Arithmetic α] (rounding : Rounding α)
    {direction first second third : α} (early : Onward direction first second)
    (late : Onward direction second third) : Onward direction first third :=
  (value_iff rounding).mp (((value_iff rounding).mpr early).trans ((value_iff rounding).mpr late))

variable {w : ℚ} {x y : Exact}

/-- In a finite direction a coordinate moves on when it goes the way of the sign. -/
theorem of_finite (up : 0 < w → Arithmetic.le x y = true) (down : w < 0 → Arithmetic.le y x = true)
    (still : w = 0 → Arithmetic.le x y = true ∧ Arithmetic.le y x = true) :
    Onward (Exact.finite w) x y := by
  refine ⟨fun above => up ?_, fun below => down ?_, fun zero => still (Exact.isZero_finite.mp zero)⟩
  · rwa [Exact.zero_eq, Exact.lt_finite] at above
  · rwa [Exact.zero_eq, Exact.lt_finite] at below

/-- What moves on in a positive direction does not fall. -/
theorem le_of_pos (onward : Onward (Exact.finite w) x y) (up : 0 < w) : Arithmetic.le x y = true :=
  onward.up (by rw [Exact.zero_eq]; exact Exact.lt_finite.mpr up)

/-- What moves on in a negative direction does not rise. -/
theorem le_of_neg (onward : Onward (Exact.finite w) x y) (down : w < 0) : Arithmetic.le y x = true :=
  onward.down (by rw [Exact.zero_eq]; exact Exact.lt_finite.mpr down)

/-- A number that stays where it is moves on in every finite direction. -/
theorem refl (w : ℚ) (number : x ≠ .nan) : Onward (Exact.finite w) x x :=
  have same := Exact.le_self number
  of_finite (fun _ => same) (fun _ => same) fun _ => ⟨same, same⟩

/-- What moves in a finite direction is a number before and after. -/
theorem number (onward : Onward (Exact.finite w) x y) : x ≠ .nan ∧ y ≠ .nan := by
  have of_le {a b : Exact} (ordered : Arithmetic.le a b = true) : a ≠ .nan ∧ b ≠ .nan :=
    (LawfulArithmetic.number_of_le ordered).imp Exact.isNaN_eq_false.mp Exact.isNaN_eq_false.mp
  rcases lt_trichotomy w 0 with down | zero | up
  · exact (of_le (onward.le_of_neg down)).symm
  · exact of_le (onward.still (Exact.isZero_finite.mpr zero)).1
  · exact of_le (onward.le_of_pos up)

/-- Finite coordinates move in a finite direction as numbers do. -/
theorem finite_iff {a b : ℚ} : Onward (Exact.finite w) (.finite a) (.finite b) ↔
    (0 < w → a ≤ b) ∧ (w < 0 → b ≤ a) ∧ (w = 0 → a = b) := by
  simp only [onward_iff, Exact.zero_eq, Exact.lt_finite, Exact.le_finite, Exact.isZero_finite,
    ← le_antisymm_iff]

/-- Two coordinates on the way from a point: one is on the way to the other. -/
theorem spans {start near far : ℚ} (early : Onward (Exact.finite w) (.finite start) (.finite near))
    (late : Onward (Exact.finite w) (.finite near) (.finite far)) :
    Exact.Spans (.finite (far - start)) (.finite (near - start)) := by
  obtain ⟨up, down, still⟩ := finite_iff.mp early
  obtain ⟨upwards, downwards, stays⟩ := finite_iff.mp late
  apply Exact.spans_finite.mpr
  rcases lt_trichotomy w 0 with negative | zero | positive
  · exact .inr ⟨by linarith only [downwards negative], by linarith only [down negative]⟩
  · exact .inl ⟨by linarith only [still zero], by linarith only [stays zero]⟩
  · exact .inl ⟨by linarith only [up positive], by linarith only [upwards positive]⟩

/-- What is on the way from a point to a side ahead is ahead of the point, and the side ahead of
it. -/
theorem split {start middle side : ℚ} (ahead : Onward (Exact.finite w) (.finite start) (.finite side))
    (between : Exact.Spans (.finite (side - start)) (.finite (middle - start))) :
    Onward (Exact.finite w) (.finite start) (.finite middle) ∧
      Onward (Exact.finite w) (.finite middle) (.finite side) := by
  obtain ⟨up, down, still⟩ := finite_iff.mp ahead
  rw [finite_iff, finite_iff]
  rcases Exact.spans_finite.mp between with ⟨low, high⟩ | ⟨low, high⟩
  · refine ⟨⟨fun _ => sub_nonneg.mp low, fun negative => ?_, fun zero => ?_⟩,
      fun _ => sub_le_sub_iff_right start |>.mp high, fun negative => ?_, fun zero => ?_⟩
    · linarith only [down negative, low, high]
    · linarith only [still zero, low, high]
    · linarith only [down negative, low, high]
    · linarith only [still zero, low, high]
  · refine ⟨⟨fun positive => ?_, fun _ => sub_nonpos.mp high, fun zero => ?_⟩,
      fun positive => ?_, fun _ => sub_le_sub_iff_right start |>.mp low, fun zero => ?_⟩
    · linarith only [up positive, low, high]
    · linarith only [still zero, low, high]
    · linarith only [up positive, low, high]
    · linarith only [still zero, low, high]

/-- A point from which a side is ahead, on the way from a finite start, is finite. -/
theorem exists_finite {start side : ℚ} (early : Onward (Exact.finite w) (.finite start) x)
    (ahead : Onward (Exact.finite w) x (.finite side)) : ∃ a : ℚ, x = .finite a := by
  rcases lt_trichotomy w 0 with down | zero | up
  · obtain ⟨a, same, -⟩ := Exact.finite_of_between (ahead.le_of_neg down) (early.le_of_neg down)
    exact ⟨a, same⟩
  · obtain ⟨low, high⟩ := early.still (Exact.isZero_finite.mpr zero)
    obtain ⟨a, same, -⟩ := Exact.finite_of_between low high
    exact ⟨a, same⟩
  · obtain ⟨a, same, -⟩ := Exact.finite_of_between (early.le_of_pos up) (ahead.le_of_pos up)
    exact ⟨a, same⟩

/-- Of two numbers one is ahead of the other in every direction. -/
theorem total (moves : w ≠ 0) (first : x ≠ .nan) (second : y ≠ .nan) :
    Onward (Exact.finite w) x y ∨ Onward (Exact.finite w) y x := by
  have still (a b : Exact) (zero : w = 0) :
      Arithmetic.le a b = true ∧ Arithmetic.le b a = true := absurd zero moves
  rcases lt_or_gt_of_ne moves with down | up
  · have above {a b : Exact} (ordered : Arithmetic.le b a = true) : Onward (Exact.finite w) a b :=
      of_finite (fun up => absurd up (lt_asymm down)) (fun _ => ordered) (still a b)
    exact (Exact.le_total first second).symm.imp above above
  · have below {a b : Exact} (ordered : Arithmetic.le a b = true) : Onward (Exact.finite w) a b :=
      of_finite (fun _ => ordered) (fun down => absurd down (lt_asymm up)) (still a b)
    exact (Exact.le_total first second).imp below below

end Onward

/-! ## Arrivals -/

section Arrivals

variable {α : Type} [Arithmetic α] {rounding : Rounding α}

/-- A side that is behind a point is met before any positive while. -/
theorem Onward.arrival_nonpos {w side : ℚ} {x : Exact} (moves : w ≠ 0)
    (behind : Onward (Exact.finite w) (.finite side) x) :
    Arithmetic.le (Exact.arrival rounding (.finite side) x (.finite w)) (.finite 0) = true := by
  unfold Exact.arrival
  apply rounding.round_nonpos
  rcases lt_or_gt_of_ne moves with down | up
  · have gap : Arithmetic.le (.finite 0) (.finite side - x) = true := by
      have ordered := behind.le_of_neg down
      cases x with
      | nan | top => cases ordered
      | bottom => rfl
      | finite a =>
        rw [Exact.sub_finite]
        exact Exact.le_finite.mpr (sub_nonneg.mpr (Exact.le_finite.mp ordered))
    have rounded := rounding.round_nonneg gap
    generalize rounding.round (.finite side - x) = y at rounded
    cases y with
    | nan | bottom => cases rounded
    | finite y =>
      rw [Exact.div_finite _ moves]
      exact Exact.le_finite.mpr (div_nonpos_of_nonneg_of_nonpos (Exact.le_finite.mp rounded)
        (le_of_lt down))
    | top =>
      show Arithmetic.le (if w < 0 then Exact.bottom else Exact.top) (.finite 0) = true
      rw [if_pos down]
      rfl
  · have gap : Arithmetic.le (.finite side - x) (.finite 0) = true := by
      have ordered := behind.le_of_pos up
      cases x with
      | nan | bottom => cases ordered
      | top => rfl
      | finite a =>
        rw [Exact.sub_finite]
        exact Exact.le_finite.mpr (sub_nonpos.mpr (Exact.le_finite.mp ordered))
    have rounded := rounding.round_nonpos gap
    generalize rounding.round (.finite side - x) = y at rounded
    rw [Exact.div_positive up]
    cases y with
    | nan | top => cases rounded
    | bottom => rfl
    | finite y =>
      exact Exact.le_finite.mpr (div_nonpos_of_nonpos_of_nonneg (Exact.le_finite.mp rounded)
        (le_of_lt up))

/-- A point that moves by a part of the way to a side comes between the point and the side. -/
theorem Rounding.spans_add (rounding : Rounding α) {x step side : ℚ}
    (point : rounding.round (.finite x) = .finite x)
    (fixed : rounding.round (.finite side) = .finite side)
    (spans : Exact.Spans (.finite (side - x)) (.finite step)) :
    ∃ z : ℚ, rounding.round (.finite x + .finite step) = .finite z ∧
      Exact.Spans (.finite (side - x)) (.finite (z - x)) := by
  rw [Exact.add_finite]
  rcases Exact.spans_finite.mp spans with ⟨low, high⟩ | ⟨low, high⟩
  · have least := rounding.round_mono (Exact.le_finite.mpr (le_add_of_nonneg_right (a := x) low))
    have most := rounding.round_mono (Exact.le_finite.mpr (le_sub_iff_add_le'.mp high))
    rw [point] at least
    rw [fixed] at most
    obtain ⟨z, same, above, below⟩ := Exact.finite_of_between least most
    exact ⟨z, same, Exact.spans_finite.mpr
      (.inl ⟨sub_nonneg.mpr above, sub_le_sub_right below x⟩)⟩
  · have most := rounding.round_mono (Exact.le_finite.mpr (add_le_of_nonpos_right (a := x) high))
    have least := rounding.round_mono (Exact.le_finite.mpr (sub_le_iff_le_add'.mp low))
    rw [point] at most
    rw [fixed] at least
    obtain ⟨z, same, above, below⟩ := Exact.finite_of_between least most
    exact ⟨z, same, Exact.spans_finite.mpr
      (.inr ⟨sub_le_sub_right above x, sub_nonpos.mpr below⟩)⟩

/-- A finite point that moves for less than the while to a side, by more than rounding can lose,
moves towards the side and not past it. -/
theorem Rounding.Accurate.spans_move (accurate : rounding.Accurate) {w x elapsed bound : ℚ}
    {side : Nat} (small : side ≤ 2 ^ (53 : Nat)) (moves : w ≠ 0)
    (point : rounding.round (.finite x) = .finite x)
    (fixed : rounding.round (.finite bound) = .finite bound)
    (nonneg : 0 ≤ elapsed) (margin : elapsed * (1 + 1 / 2 ^ (31 : Nat)) ≤ bound)
    (late : ¬Arithmetic.le (Exact.arrival rounding (.finite side) (.finite x) (.finite w))
      (.finite bound) = true) :
    ∃ z : ℚ, rounding.round (.finite x + rounding.round (.finite w * .finite elapsed)) = .finite z ∧
      Exact.Spans (.finite (side - x)) (.finite (z - x)) := by
  obtain ⟨gap, differs⟩ := accurate.nat_sub small point
  have natural : rounding.round (.finite side) = .finite side := rounding.round_nat small
  unfold Exact.arrival at late
  rw [Exact.sub_finite, differs, Exact.div_finite _ moves] at late
  have later : bound < gap / w := by
    by_contra early
    have rounded := rounding.round_mono (Exact.le_finite.mpr (not_lt.mp early))
    rw [fixed] at rounded
    exact late rounded
  have positive : 0 < gap / w := by
    have reached := mul_nonneg nonneg (by norm_num : (0 : ℚ) ≤ 1 + 1 / 2 ^ (31 : Nat))
    linarith only [reached, margin, later]
  have tiny (short : |(side - x : ℚ)| ≤ Rounding.leastNormal) : gap = side - x := by
    have exact := accurate.tiny_sub natural point short
    rw [differs] at exact
    exact Exact.finite.inj exact
  have spans := accurate.spans_product differs tiny (mul_div_cancel₀ gap moves).symm nonneg positive
    (le_trans margin (le_of_lt later))
  rw [← Exact.mul_finite] at spans
  obtain ⟨step, product⟩ := spans.finite
  rw [product] at spans ⊢
  exact rounding.spans_add point natural spans

end Arrivals

namespace Partition

variable {D : Nat}

/-- A finest cell is a power of two wide. -/
theorem Legal.exists_grain {border : Nat} (legal : Legal border) : ∃ e, grain border = 2 ^ e := by
  have deep := legal.levels_lt
  refine ⟨border.log2 - (levelCount border - 1), ?_⟩
  rw [grain, Nat.shiftRight_eq_div_pow]
  nth_rewrite 1 [← legal.shape]
  exact Nat.pow_div (by omega) (by omega)

namespace RayWalk

variable {α : Type} [Arithmetic α] {rounding : Rounding α} {line : Line D} {walk : RayWalk α D}

/-! ## Tolerances -/

/-- A unit fraction is rounded by little. -/
theorem share_near (accurate : rounding.Accurate) {n : Nat} (positive : 0 < n)
    (small : n ≤ 2 ^ (53 : Nat)) {q : ℚ}
    (known : rounding.value (Arithmetic.ofNat 1 / Arithmetic.ofNat n) = .finite q) :
    1 / n * (1 - Rounding.unitError) ≤ q := by
  have count : (0 : ℚ) < n := Nat.cast_pos.mpr positive
  have most : (n : ℚ) ≤ 2 ^ (100 : Nat) := by exact_mod_cast Nat.le_trans small (by decide)
  have large : Rounding.leastNormal ≤ 1 / n :=
    le_trans Rounding.leastNormal_le (one_div_le_one_div_of_le count most)
  exact accurate.le_rounded large (value_share_eq rounding positive small ▸ known)

/-- The tolerance is more than rounding can lose. -/
theorem margin_le (accurate : rounding.Accurate) {least : α} {ℓ bound : ℚ}
    (known : rounding.value least = .finite ℓ) (nonneg : 0 ≤ ℓ)
    (finite : rounding.value (least + tolerance least) = .finite bound) :
    ℓ * (1 + 1 / 2 ^ (31 : Nat)) ≤ bound := by
  obtain ⟨share, shared, sharedNonneg⟩ :=
    value_share rounding (n := 1000000000) (by norm_num) (by norm_num)
  obtain ⟨rest, rested, restNonneg⟩ :=
    value_share rounding (n := 1000000000000) (by norm_num) (by norm_num)
  have shareLeast := share_near accurate (by norm_num) (by norm_num) shared
  have restLeast := share_near accurate (by norm_num) (by norm_num) rested
  unfold tolerance at finite
  rw [rounding.add, rounding.add, rounding.mul, known, shared, rested, Exact.mul_finite] at finite
  -- all that is rounded on the way is finite
  have product : Arithmetic.le (.finite 0) (rounding.round (.finite (ℓ * share))) = true :=
    rounding.round_nonneg (Exact.le_finite.mpr (mul_nonneg nonneg sharedNonneg))
  have sum := rounding.round_nonneg (Exact.add_nonneg product (Exact.le_finite.mpr restNonneg))
  obtain ⟨-, tolerated, -, toleratedValue, -, toleratedNonneg⟩ :=
    rounding.finite_of_round_add (Exact.le_finite.mpr nonneg) sum finite
  obtain ⟨scaled, -, scaledValue, -, scaledNonneg, -⟩ :=
    rounding.finite_of_round_add product (Exact.le_finite.mpr restNonneg) toleratedValue
  rw [toleratedValue, Exact.add_finite] at finite
  rw [scaledValue, Exact.add_finite] at toleratedValue
  have tiny := Rounding.leastNormal_le
  unfold Rounding.unitError at shareLeast restLeast
  norm_num at shareLeast restLeast tiny
  have toleratedLeast := accurate.le_rounded
    (by linarith only [tiny, restLeast, scaledNonneg]) toleratedValue
  unfold Rounding.unitError at toleratedLeast
  norm_num at toleratedLeast
  have boundLeast := accurate.le_rounded
    (by linarith only [tiny, restLeast, scaledNonneg, toleratedLeast, nonneg]) finite
  unfold Rounding.unitError at boundLeast
  have shareScaled := mul_le_mul_of_nonneg_left shareLeast nonneg
  norm_num at boundLeast ⊢
  rcases le_total Rounding.leastNormal (ℓ * share) with large | small
  · have scaledLeast := accurate.le_rounded large scaledValue
    unfold Rounding.unitError at scaledLeast
    norm_num at scaledLeast
    linarith only [boundLeast, toleratedLeast, scaledLeast, shareScaled, restLeast, nonneg]
  · linarith only [boundLeast, toleratedLeast, scaledNonneg, small, tiny, shareScaled, restLeast,
      nonneg]

/-! ## Cells and their points -/

section Cells

variable (accurate : rounding.Accurate) (ready : walk.Ready) {p : α}

include accurate ready

/-- The finest cells up to a point, as they are counted. -/
theorem le_floor_cells_iff {n : Nat} (positive : 0 < n) (small : n ≤ Exact.greatestFloor) :
    n ≤ Arithmetic.floor (p / Arithmetic.ofNat walk.cellWidth) ↔
      Arithmetic.le (.finite (n * grain walk.border)) (rounding.value p) = true := by
  obtain ⟨width, wide⟩ := ready.width_spec rounding
  have nonzero : Arithmetic.isZero (Arithmetic.ofNat walk.cellWidth : α) = false := by
    rw [rounding.isZero, width, ← Bool.not_eq_true, Exact.isZero_finite]
    exact ne_of_gt wide
  rw [rounding.floor, rounding.div _ nonzero, width]
  exact accurate.le_floor_div_iff positive small ready.legal.exists_grain (rounding.round_value p)

/-- A point whose cells are counted is not above the next side. -/
theorem le_of_floor_le {cell : Nat} (number : rounding.value p ≠ .nan)
    (counted : Arithmetic.floor (p / Arithmetic.ofNat walk.cellWidth) ≤ cell)
    (small : cell < Exact.greatestFloor) :
    Arithmetic.le (rounding.value p) (.finite ((cell + 1 : Nat) * grain walk.border)) = true := by
  refine (Exact.le_total number Exact.noConfusion).resolve_right fun reached => ?_
  have more := (le_floor_cells_iff accurate ready (Nat.succ_pos cell) small).mpr reached
  exact absurd counted (Nat.not_le.mpr more)

/-- It is not below the side before, unless that is the first one. -/
theorem le_of_le_floor {cell : Nat}
    (counted : cell ≤ Arithmetic.floor (p / Arithmetic.ofNat walk.cellWidth))
    (small : cell ≤ Exact.greatestFloor) :
    Arithmetic.le (.finite (cell * grain walk.border)) (rounding.value p) = true ∨ cell = 0 := by
  rcases Nat.eq_zero_or_pos cell with zero | positive
  · exact .inr zero
  · exact .inl ((le_floor_cells_iff accurate ready positive small).mp counted)

end Cells

/-! ## Walks under way -/

/-- A walk of finite numbers along a line that has not gone back on any axis, and is not past the
cell of its ray. -/
structure Heads (rounding : Rounding α) (line : Line D) (walk : RayWalk α D) : Prop where
  /-- The tree is legal and the cell is in the cube. -/
  ready : walk.Ready
  /-- The start of the line. -/
  origin : ∀ d : Fin D, rounding.value (walk.origin.get d) = .finite (line.origin d)
  /-- Its direction. -/
  direction : ∀ d : Fin D, rounding.value (walk.direction.get d) = .finite (line.velocity d)
  /-- The scale of the world is finite. -/
  scale : ∀ d : Fin D, Arithmetic.isFinite (walk.factors.get d) = true
  /-- Every coordinate has moved only in its direction. -/
  onward : ∀ d : Fin D, Onward (Exact.finite (line.velocity d)) (.finite (line.origin d))
    (rounding.value (walk.point.get d))
  /-- On the way up it is not above the cell, unless that is the last one. -/
  below : ∀ d : Fin D, 0 < line.velocity d →
    Arithmetic.le (rounding.value (walk.point.get d))
        (.finite ((walk.target.get d + 1 : Nat) * grain walk.border)) = true ∨
      walk.target.get d + 1 = 2 ^ walk.finest
  /-- On the way down it is not below the cell, unless that is the first one. -/
  above : ∀ d : Fin D, line.velocity d < 0 →
    Arithmetic.le (.finite (walk.target.get d * grain walk.border))
        (rounding.value (walk.point.get d)) = true ∨ walk.target.get d = 0

namespace Heads

variable (heads : Heads rounding line walk)

include heads

/-- A walk moves on the axes on which its line has a velocity. -/
theorem moves_iff (d : Fin D) : walk.moves d = true ↔ line.velocity d ≠ 0 := by
  unfold moves
  rw [Bool.not_eq_true', rounding.isZero, heads.direction, ← Bool.not_eq_true, Exact.isZero_finite]

/-- A walk ascends on the axes on which the velocity of its line is positive. -/
theorem ascends_iff (d : Fin D) : walk.ascends d = true ↔ 0 < line.velocity d := by
  unfold ascends
  rw [rounding.lt, rounding.value_zero, heads.direction, Exact.lt_finite]

/-- The parameter of a side, as far as the side is ahead. -/
theorem parameter_eq {d : Fin D} (moving : walk.moves d = true) :
    rounding.value (walk.parameter d) =
      Arithmetic.max (Exact.arrival rounding (.finite ((walk.boundary d * walk.cellWidth : Nat) : ℚ))
        (rounding.value (walk.point.get d)) (.finite (line.velocity d))) (.finite 0) := by
  rw [value_parameter rounding heads.ready moving, heads.direction]
  rfl

end Heads

/-! ## One move -/

/-- A walk that heads along a line, with the side that it meets first. -/
structure Meets (rounding : Rounding α) (line : Line D) (walk : RayWalk α D) (axis : Fin D)
    (least : α) : Prop extends Heads rounding line walk where
  /-- The side is met first. -/
  nearest : walk.nearest? = some (axis, least)
  /-- It is met after a finite while. -/
  bounded : Arithmetic.isFinite least = true
  /-- It is no side of the cube, and neither are those met with it. -/
  stays : ∀ d, ¬(walk.crosses axis least d = true ∧ walk.atCubeSide d = true)

namespace Meets

variable {axis : Fin D} {least : α} (meets : Meets rounding line walk axis least)

include meets

/-- The while to the first side is a number that is not negative. -/
theorem exists_elapsed : ∃ ℓ : ℚ, rounding.value least = .finite ℓ ∧ 0 ≤ ℓ :=
  nearest_finite rounding meets.ready meets.nearest meets.bounded

/-- A side that is not reached is met later than the tolerance. -/
theorem late {d : Fin D} (moving : walk.moves d = true)
    (passed : ¬walk.crosses axis least d = true) :
    ¬Arithmetic.le (Exact.arrival rounding (.finite ((walk.boundary d * walk.cellWidth : Nat) : ℚ))
      (rounding.value (walk.point.get d)) (.finite (line.velocity d)))
        (rounding.value (least + tolerance least)) = true := by
  intro early
  obtain ⟨ℓ, known, nonneg⟩ := meets.exists_elapsed
  have positive := LawfulArithmetic.le_trans (Exact.le_finite.mpr nonneg)
    (le_add_tolerance rounding known nonneg)
  have reached : Arithmetic.le (walk.parameter d) (least + tolerance least) = true := by
    rw [rounding.le, meets.parameter_eq moving]
    exact Exact.max_le early positive
  apply passed
  unfold crosses
  rw [moving, reached, Bool.or_true]
  rfl

/-- A side of the cube is ahead, since it is not reached. -/
theorem onward_cubeSide {d : Fin D} (moving : walk.moves d = true)
    (ends : walk.atCubeSide d = true) :
    Onward (Exact.finite (line.velocity d)) (rounding.value (walk.point.get d))
      (.finite ((walk.boundary d * walk.cellWidth : Nat) : ℚ)) := by
  have moves := (meets.moves_iff d).mp moving
  have number := (meets.onward d).number.2
  refine (Onward.total moves number Exact.noConfusion).resolve_right fun behind => ?_
  refine meets.late moving (fun crossed => meets.stays d ⟨crossed, ends⟩) ?_
  obtain ⟨ℓ, known, nonneg⟩ := meets.exists_elapsed
  exact LawfulArithmetic.le_trans (behind.arrival_nonpos moves)
    (LawfulArithmetic.le_trans (Exact.le_finite.mpr nonneg)
      (le_add_tolerance rounding known nonneg))

/-- The side to leave is ahead. -/
theorem onward_side {d : Fin D} (moving : walk.moves d = true) :
    Onward (Exact.finite (line.velocity d)) (rounding.value (walk.point.get d))
      (.finite ((walk.boundary d * walk.cellWidth : Nat) : ℚ)) := by
  have width : walk.cellWidth = grain walk.border := rfl
  obtain ⟨start, past, -⟩ := region_spec (meets.ready.inside d)
  rcases lt_or_gt_of_ne ((meets.moves_iff d).mp moving) with down | up
  · have falls : ¬walk.ascends d = true := fun climbs =>
      not_lt.mpr (le_of_lt down) ((meets.ascends_iff d).mp climbs)
    have side : walk.boundary d = walk.regionStart d := by rw [boundary, if_neg falls]
    rcases meets.above d down with short | first
    · refine .of_finite (fun up => absurd up (lt_asymm down)) (fun _ => ?_)
        fun zero => absurd zero (ne_of_lt down)
      rw [side, width, Nat.cast_mul]
      exact LawfulArithmetic.le_trans (Exact.le_finite.mpr (scale _ start)) short
    · apply meets.onward_cubeSide moving
      rw [atCubeSide, if_neg falls, beq_iff_eq]
      omega
  · have climbs := (meets.ascends_iff d).mpr up
    have side : walk.boundary d = walk.regionStart d + 2 ^ walk.shift := by
      rw [boundary, if_pos climbs]
    rcases meets.below d up with short | last
    · refine .of_finite (fun _ => ?_) (fun down => absurd down (lt_asymm up))
        fun zero => absurd zero (ne_of_gt up)
      rw [side, width, Nat.cast_mul]
      exact LawfulArithmetic.le_trans short (Exact.le_finite.mpr (scale _ past))
    · apply meets.onward_cubeSide moving
      rw [atCubeSide, if_pos climbs]
      exact decide_eq_true (by omega)

/-- The point of a walk is finite. -/
theorem exists_spot (d : Fin D) : ∃ x : ℚ, rounding.value (walk.point.get d) = .finite x := by
  by_cases moving : walk.moves d = true
  · exact (meets.onward d).exists_finite (meets.onward_side moving)
  · have rests : line.velocity d = 0 := not_not.mp (mt (meets.moves_iff d).mpr moving)
    obtain ⟨low, high⟩ := (meets.onward d).still (Exact.isZero_finite.mpr rests)
    obtain ⟨x, same, -⟩ := Exact.finite_of_between low high
    exact ⟨x, same⟩

omit meets in
/-- A coordinate that reaches its side is there. -/
theorem nextPoint_of_crosses (ready : walk.Ready) {d : Fin D}
    (crosses : walk.crosses axis least d = true) :
    rounding.value (walk.nextPoint axis least d) =
      .finite ((walk.boundary d * walk.cellWidth : Nat) : ℚ) := by
  rw [nextPoint, if_pos crosses, ready.value_boundaryPoint]

/-- The while up to which sides are reached is finite when a side is not reached, since that one is
met after some while. -/
theorem exists_bound (accurate : rounding.Accurate) {d : Fin D} {x : ℚ}
    (here : rounding.value (walk.point.get d) = .finite x) (moving : walk.moves d = true)
    (passed : ¬walk.crosses axis least d = true) :
    ∃ bound : ℚ, rounding.value (least + tolerance least) = .finite bound := by
  have late := meets.late moving passed
  rw [here] at late
  obtain ⟨ℓ, known, nonneg⟩ := meets.exists_elapsed
  have above := le_add_tolerance rounding known nonneg
  cases latest : rounding.value (least + tolerance least) with
  | finite bound => exact ⟨bound, rfl⟩
  | nan | bottom =>
    rw [latest] at above
    cases above
  | top =>
    -- a finite distance has an arrival, which is a number
    rw [latest] at late
    have fixed : rounding.round (.finite x) = .finite x := by rw [← here, rounding.round_value]
    obtain ⟨gap, differs⟩ := accurate.nat_sub (meets.ready.side_le d) fixed
    have number : Exact.arrival rounding (.finite ((walk.boundary d * walk.cellWidth : Nat) : ℚ))
        (.finite x) (.finite (line.velocity d)) ≠ .nan := by
      unfold Exact.arrival
      rw [Exact.sub_finite, differs, Exact.div_finite _ ((meets.moves_iff d).mp moving)]
      exact rounding.round_number Exact.noConfusion
    generalize Exact.arrival rounding _ _ _ = arrival at late number
    cases arrival with
    | nan => exact absurd rfl number
    | bottom | finite | top => exact absurd rfl late

/-- A coordinate that does not moves towards the side and not past it. -/
theorem nextPoint_of_passed (accurate : rounding.Accurate) {d : Fin D} {x : ℚ}
    (here : rounding.value (walk.point.get d) = .finite x) (moving : walk.moves d = true)
    (passed : ¬walk.crosses axis least d = true) :
    ∃ z : ℚ, rounding.value (walk.nextPoint axis least d) = .finite z ∧
      Exact.Spans (.finite ((walk.boundary d * walk.cellWidth : Nat) - x)) (.finite (z - x)) := by
  have fixed : rounding.round (.finite x) = .finite x := by rw [← here, rounding.round_value]
  obtain ⟨ℓ, known, nonneg⟩ := meets.exists_elapsed
  obtain ⟨bound, bounded⟩ := meets.exists_bound accurate here moving passed
  have representable : rounding.round (.finite bound) = .finite bound := by
    rw [← bounded, rounding.round_value]
  have late := meets.late moving passed
  rw [here, bounded] at late
  have margin := margin_le accurate known nonneg bounded
  obtain ⟨z, there, spans⟩ := accurate.spans_move (meets.ready.side_le d)
    ((meets.moves_iff d).mp moving) fixed representable nonneg margin late
  refine ⟨z, ?_, spans⟩
  rw [nextPoint, if_neg passed, if_pos moving, rounding.add, rounding.mul, here, meets.direction,
    known]
  exact there

/-- After a move every coordinate is finite. It has moved only in its direction, and the side to leave
is still ahead. -/
theorem nextPoint_spec (accurate : rounding.Accurate) {d : Fin D} {x : ℚ}
    (here : rounding.value (walk.point.get d) = .finite x) :
    ∃ z : ℚ, rounding.value (walk.nextPoint axis least d) = .finite z ∧
      Onward (Exact.finite (line.velocity d)) (.finite x) (.finite z) ∧
      (walk.moves d = true → Onward (Exact.finite (line.velocity d)) (.finite z)
        (.finite ((walk.boundary d * walk.cellWidth : Nat) : ℚ))) := by
  by_cases moving : walk.moves d = true
  · have ahead := meets.onward_side moving
    rw [here] at ahead
    by_cases crosses : walk.crosses axis least d = true
    · exact ⟨_, nextPoint_of_crosses meets.ready crosses, ahead,
        fun _ => .refl _ Exact.noConfusion⟩
    · obtain ⟨z, there, spans⟩ := meets.nextPoint_of_passed accurate here moving crosses
      obtain ⟨forward, further⟩ := ahead.split spans
      exact ⟨z, there, forward, fun _ => further⟩
  · have passed : ¬walk.crosses axis least d = true := fun crosses =>
      moving (Bool.and_eq_true_iff.mp crosses).1
    refine ⟨x, ?_, .refl _ Exact.noConfusion, fun moves => absurd moves moving⟩
    rw [nextPoint, if_neg passed, if_neg moving, here]

/-- On the way up the point after a move is not above the cell after it. -/
theorem le_nextTarget (accurate : rounding.Accurate) {d : Fin D} (up : 0 < line.velocity d) :
    Arithmetic.le (rounding.value (walk.nextPoint axis least d))
      (.finite ((walk.nextTarget axis least d + 1 : Nat) * grain walk.border)) = true := by
  have climbs := (meets.ascends_iff d).mpr up
  have moving := (meets.moves_iff d).mpr (ne_of_gt up)
  have width : walk.cellWidth = grain walk.border := rfl
  obtain ⟨x, here⟩ := meets.exists_spot d
  obtain ⟨z, there, -, ahead⟩ := meets.nextPoint_spec accurate here
  have short := Exact.le_finite.mp ((ahead moving).le_of_pos up)
  rw [width, Nat.cast_mul] at short
  unfold nextTarget
  by_cases crosses : walk.crosses axis least d = true
  · rw [if_pos crosses, if_pos climbs, there]
    exact Exact.le_finite.mpr (le_trans short (scale _ (Nat.le_succ _)))
  · rw [if_neg crosses, if_pos moving]
    obtain ⟨-, -, within⟩ := region_spec (meets.ready.inside d)
    have bound : 2 ^ walk.finest ≤ Exact.greatestFloor := finest_le walk.border
    have number : rounding.value (walk.nextPoint axis least d) ≠ .nan := by
      rw [there]
      exact Exact.noConfusion
    have counted := le_of_floor_le accurate meets.ready number (Nat.le_refl _)
    rw [there] at counted ⊢
    rw [boundary, if_pos climbs] at short
    simp only
    generalize Arithmetic.floor (walk.nextPoint axis least d / Arithmetic.ofNat walk.cellWidth) =
      cell at counted
    rcases Nat.lt_or_ge cell (walk.regionStart d + 2 ^ walk.shift) with inside | beyond
    · refine LawfulArithmetic.le_trans (counted (by omega)) (Exact.le_finite.mpr (scale _ ?_))
      omega
    · exact Exact.le_finite.mpr (le_trans short (scale _ (by omega)))

/-- On the way down it is not below that cell, unless the cell is the first one. -/
theorem nextTarget_le (accurate : rounding.Accurate) {d : Fin D} (down : line.velocity d < 0) :
    Arithmetic.le (.finite (walk.nextTarget axis least d * grain walk.border))
        (rounding.value (walk.nextPoint axis least d)) = true ∨
      walk.nextTarget axis least d = 0 := by
  have falls : ¬walk.ascends d = true := fun climbs =>
    not_lt.mpr (le_of_lt down) ((meets.ascends_iff d).mp climbs)
  have moving := (meets.moves_iff d).mpr (ne_of_lt down)
  have width : walk.cellWidth = grain walk.border := rfl
  obtain ⟨x, here⟩ := meets.exists_spot d
  obtain ⟨z, there, -, ahead⟩ := meets.nextPoint_spec accurate here
  have short := Exact.le_finite.mp ((ahead moving).le_of_neg down)
  rw [width, Nat.cast_mul] at short
  unfold nextTarget
  by_cases crosses : walk.crosses axis least d = true
  · rw [if_pos crosses, if_neg falls, there]
    exact .inl (Exact.le_finite.mpr (le_trans (scale _ (Nat.sub_le _ _)) short))
  · rw [if_neg crosses, if_pos moving]
    obtain ⟨start, past, within⟩ := region_spec (meets.ready.inside d)
    have bound : 2 ^ walk.finest ≤ Exact.greatestFloor := finest_le walk.border
    have counted {n : Nat} : n ≤ Arithmetic.floor _ → n ≤ Exact.greatestFloor → _ :=
      le_of_le_floor accurate meets.ready (p := walk.nextPoint axis least d)
    rw [there] at counted ⊢
    rw [boundary, if_neg falls] at short
    simp only
    generalize Arithmetic.floor (walk.nextPoint axis least d / Arithmetic.ofNat walk.cellWidth) =
      cell at counted
    rcases Nat.lt_or_ge (walk.regionStart d) cell with inside | before
    · exact counted (by omega) (by omega)
    · refine .inl (Exact.le_finite.mpr (le_trans (scale _ ?_) short))
      omega

/-- After a move the walk heads along the line, and has gone back on no axis. -/
theorem landed (accurate : rounding.Accurate) : Heads rounding line (walk.landed axis least) ∧
    ∀ d : Fin D, Onward (walk.direction.get d) (walk.point.get d)
      ((walk.landed axis least).point.get d) := by
  have point (d : Fin D) : (walk.landed axis least).point.get d = walk.nextPoint axis least d :=
    Vector.getElem_ofFn d.isLt
  have onward (d : Fin D) : Onward (Exact.finite (line.velocity d))
      (rounding.value (walk.point.get d)) (rounding.value (walk.nextPoint axis least d)) := by
    obtain ⟨x, here⟩ := meets.exists_spot d
    obtain ⟨z, there, forward, -⟩ := meets.nextPoint_spec accurate here
    rwa [here, there]
  refine ⟨⟨⟨meets.ready.legal, landed_inside meets.ready.inside meets.stays⟩, meets.origin,
    meets.direction, meets.scale, fun d => ?_, fun d up => ?_, fun d down => ?_⟩, fun d => ?_⟩
  · rw [point]
    exact (meets.onward d).trans (onward d)
  · rw [landed_target, point]
    exact .inl (meets.le_nextTarget accurate up)
  · rw [landed_target, point]
    exact meets.nextTarget_le accurate down
  · rw [← Onward.value_iff rounding, meets.direction, point]
    exact onward d

end Meets

end RayWalk

end Partition

end SpatialIndex
