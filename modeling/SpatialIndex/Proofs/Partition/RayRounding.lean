import SpatialIndex.Proofs.Arithmetic.Rounding
import SpatialIndex.Proofs.Partition.Line

/-!
# Rays in rounded arithmetic

The walk decides with natural numbers what floating point would decide with rounded ones: which
sides a move crosses, and between which cells a coordinate that crosses none is kept. The two agree
where an operand that is no number cannot turn up, and it cannot: a ray never comes to the infinity
behind it, so a coordinate that crosses no side is a number before and after the move. This holds
for every ray, also one with infinities and operands that are no numbers.
-/
namespace SpatialIndex

open Arithmetic (isZero)

/-- An operand kept between two bounds; one that is no number stays none. -/
def Arithmetic.clamp {α : Type} [Arithmetic α] (low high x : α) : α :=
  if lt x low then low else if lt high x then high else x

namespace Exact

/-! ## Exact values -/

/-- Whether a point lies at the infinity behind its direction. -/
def Behind : (direction point : Exact) → Prop
  | .finite v, .bottom => 0 < v
  | .finite v, .top => v < 0
  | .top, .bottom => True
  | .bottom, .top => True
  | _, _ => False

/-- A finite point is not at an infinity. -/
theorem not_behind_finite (direction : Exact) (x : ℚ) : ¬Behind direction (finite x) := by
  cases direction <;> exact id

/-- What is not a number is not at an infinity. -/
theorem not_behind_nan (direction : Exact) : ¬Behind direction nan := by
  cases direction <;> exact id

/-- Numbers are in order one way or the other. -/
theorem le_of_not_lt {x y : Exact} (first : x ≠ nan) (second : y ≠ nan)
    (above : Arithmetic.lt x y = false) : Arithmetic.le y x = true := by
  cases x with
  | nan => exact absurd rfl first
  | bottom =>
    cases y with
    | nan => exact absurd rfl second
    | bottom => rfl
    | finite | top => cases above
  | finite x =>
    cases y with
    | nan => exact absurd rfl second
    | bottom => rfl
    | finite y =>
      apply le_finite.mpr
      by_contra less
      rw [lt_finite.mpr (not_le.mp less)] at above
      cases above
    | top => cases above
  | top => cases y <;> first | rfl | exact absurd rfl second

/-- A number is in order with itself. -/
theorem le_self {x : Exact} (number : x ≠ nan) : Arithmetic.le x x = true := by
  have like := isNaN_eq_false.mpr number
  unfold Arithmetic.isNaN at like
  rwa [Bool.not_eq_false'] at like

/-- The greater of two operands is not below the second one. -/
theorem le_max_right {x y : Exact} (number : y ≠ nan) :
    Arithmetic.le y (Arithmetic.max x y) = true := by
  unfold Arithmetic.max
  by_cases none : x = nan
  · rw [if_pos (isNaN_iff.mpr none)]
    exact le_self number
  · rw [if_neg (fun absurd => none (isNaN_iff.mp absurd)),
      if_neg (fun absurd => number (isNaN_iff.mp absurd))]
    by_cases less : Arithmetic.lt x y = true
    · rw [if_pos less]
      exact le_self number
    · rw [if_neg less]
      exact le_of_not_lt none number (Bool.not_eq_true _ ▸ less)

/-- The greater of two operands is not below the first one. -/
theorem le_max_left {x y : Exact} (number : x ≠ nan) :
    Arithmetic.le x (Arithmetic.max x y) = true := by
  unfold Arithmetic.max
  rw [if_neg (fun absurd => number (isNaN_iff.mp absurd))]
  by_cases none : y = nan
  · rw [if_pos (isNaN_iff.mpr none)]
    exact le_self number
  · rw [if_neg (fun absurd => none (isNaN_iff.mp absurd))]
    by_cases less : Arithmetic.lt x y = true
    · rw [if_pos less]
      exact LawfulArithmetic.le_of_lt less
    · rw [if_neg less]
      exact le_self number

/-- What goes up for a while goes up. -/
theorem zero_le_mul {w : ℚ} {e : Exact} (up : 0 < w)
    (onwards : Arithmetic.le (finite 0) e = true) :
    Arithmetic.le (finite 0) (finite w * e) = true := by
  cases e with
  | nan | bottom => cases onwards
  | finite e => exact le_finite.mpr (mul_nonneg (le_of_lt up) (le_finite.mp onwards))
  | top =>
    have product : finite w * top = top := if_pos up
    rw [product]
    rfl

/-- What goes down for a while goes down. -/
theorem mul_le_zero {w : ℚ} {e : Exact} (down : w < 0)
    (onwards : Arithmetic.le (finite 0) e = true) :
    Arithmetic.le (finite w * e) (finite 0) = true := by
  cases e with
  | nan | bottom => cases onwards
  | finite e =>
    exact le_finite.mpr (mul_nonpos_of_nonpos_of_nonneg (le_of_lt down) (le_finite.mp onwards))
  | top =>
    have product : finite w * top = bottom := by
      show beyond w = bottom
      rw [beyond, if_neg (not_lt.mpr (le_of_lt down)), if_pos down]
    rw [product]
    rfl

/-- What is not positive, or is no number, is replaced by zero. -/
theorem max_zero_of_late {q s : Exact} (nonneg : Arithmetic.le (finite 0) s = true)
    (late : Arithmetic.le (Arithmetic.max q (finite 0)) s = false) :
    q ≠ nan ∧ Arithmetic.le q (finite 0) = false := by
  have early {x : Exact} (zero : Arithmetic.max x (finite 0) = finite 0)
      (same : x = q) : False := by
    rw [← same, zero, nonneg] at late
    cases late
  constructor
  · rintro rfl
    exact early rfl rfl
  · by_contra low
    have below : Arithmetic.le q (finite 0) = true := Bool.not_eq_false _ ▸ low
    cases q with
    | nan => cases below
    | bottom => exact early rfl rfl
    | finite x =>
      have nonpos := le_finite.mp below
      refine early ?_ rfl
      rw [max_finite, max_eq_right nonpos]
    | top => cases below

section Directions

variable {α : Type} [Arithmetic α] (rounding : Rounding α)

/-- A side that is met late is met from a finite point in a finite direction, unless the point is
behind. -/
theorem finite_of_late {v x s : Exact} {side : ℚ} (moving : isZero v = false)
    (facing : ¬Behind v x) (nonneg : Arithmetic.le (finite 0) s = true)
    (late : Arithmetic.le
      (Arithmetic.max (rounding.round (rounding.round (finite side - x) / v)) (finite 0)) s =
        false) :
    (∃ w : ℚ, v = finite w) ∧ ∃ y : ℚ, x = finite y := by
  obtain ⟨number, positive⟩ := max_zero_of_late nonneg late
  cases v with
  | nan =>
    have none (y : Exact) : y / nan = nan := by cases y <;> rfl
    rw [none, rounding.round_nan] at number
    exact absurd rfl number
  | bottom | top =>
    exfalso
    generalize rounding.round (finite side - x) = y at number positive
    cases y with
    | nan | bottom | top => exact number rounding.round_nan
    | finite y =>
      have known : Arithmetic.le (rounding.round (finite 0)) (finite 0) = false := positive
      rw [rounding.round_zero] at known
      cases known
  | finite w =>
    refine ⟨⟨w, rfl⟩, ?_⟩
    cases x with
    | nan =>
      have none : rounding.round (rounding.round (finite side - nan) / finite w) = nan := by
        show rounding.round (rounding.round nan / finite w) = nan
        rw [rounding.round_nan]
        exact rounding.round_nan
      exact absurd none number
    | finite y => exact ⟨y, rfl⟩
    | bottom =>
      exfalso
      have down : w < 0 := by
        rcases lt_trichotomy w 0 with down | zero | up
        · exact down
        · rw [isZero_finite.mpr zero] at moving
          cases moving
        · exact absurd up facing
      have below : rounding.round (rounding.round (finite side - bottom) / finite w) = bottom := by
        show rounding.round (rounding.round top / finite w) = bottom
        rw [rounding.round_top]
        show rounding.round (if w < 0 then bottom else top) = bottom
        rw [if_pos down, rounding.round_bottom]
      rw [below] at positive
      cases positive
    | top =>
      exfalso
      have up : ¬w < 0 := facing
      have below : rounding.round (rounding.round (finite side - top) / finite w) = bottom := by
        show rounding.round (rounding.round bottom / finite w) = bottom
        rw [rounding.round_bottom]
        show rounding.round (if w < 0 then top else bottom) = bottom
        rw [if_neg up, rounding.round_bottom]
      rw [below] at positive
      cases positive

/-- A finite point that goes on for a while is a number. -/
theorem number_onwards (w y ℓ : ℚ) :
    rounding.round (finite y + rounding.round (finite w * finite ℓ)) ≠ nan := by
  have number : rounding.round (finite w * finite ℓ) ≠ nan :=
    rounding.round_number (by rw [mul_finite]; exact fun absurd => by cases absurd)
  apply rounding.round_number
  cases step : rounding.round (finite w * finite ℓ) with
  | nan => exact absurd step number
  | bottom | finite | top => exact fun absurd => by cases absurd

/-- A point that goes on in its direction does not get behind. -/
theorem not_behind_onwards {w : ℚ} {x e : Exact} (fixed : rounding.round x = x)
    (onwards : Arithmetic.le (finite 0) e = true) (facing : ¬Behind (finite w) x) :
    ¬Behind (finite w) (rounding.round (x + rounding.round (finite w * e))) := by
  intro behind
  have number : x ≠ nan := by
    rintro rfl
    have none (y : Exact) : nan + y = nan := rfl
    rw [none, rounding.round_nan] at behind
    exact not_behind_nan _ behind
  have sum : x + rounding.round (finite w * e) ≠ nan := fun none => by
    rw [none, rounding.round_nan] at behind
    exact not_behind_nan _ behind
  generalize ends : rounding.round (x + rounding.round (finite w * e)) = z at behind
  cases z with
  | nan | finite => exact behind
  | bottom =>
    have up : 0 < w := behind
    have kept := rounding.le_round_add fixed number sum
      (rounding.round_nonneg (zero_le_mul up onwards))
    rw [ends] at kept
    cases x with
    | bottom => exact facing up
    | nan | finite | top => cases kept
  | top =>
    have down : w < 0 := behind
    have kept := rounding.round_add_le fixed number sum
      (rounding.round_nonpos (mul_le_zero down onwards))
    rw [ends] at kept
    cases x with
    | top => exact facing down
    | nan | finite | bottom => cases kept

/-- The quotient of a difference by a direction, as it is rounded. -/
def arrival (side x v : Exact) : Exact := rounding.round (rounding.round (side - x) / v)

/-- From the infinity behind, the sides are never met. -/
theorem arrival_behind {w : ℚ} {x : Exact} (behind : Behind (finite w) x)
    (side : ℚ) : arrival rounding (finite side) x (finite w) = top := by
  unfold arrival
  cases x with
  | nan | finite => exact behind.elim
  | bottom =>
    have up : ¬w < 0 := not_lt.mpr (le_of_lt behind)
    show rounding.round (rounding.round top / finite w) = top
    rw [rounding.round_top]
    show rounding.round (if w < 0 then bottom else top) = top
    rw [if_neg up, rounding.round_top]
  | top =>
    have down : w < 0 := behind
    show rounding.round (rounding.round bottom / finite w) = top
    rw [rounding.round_bottom]
    show rounding.round (if w < 0 then top else bottom) = top
    rw [if_pos down, rounding.round_top]

/-- What goes on for ever from the infinity behind is no number. -/
theorem behind_add_beyond {w : ℚ} {x : Exact} (behind : Behind (finite w) x) :
    x + beyond w = nan := by
  cases x with
  | nan | finite => exact behind.elim
  | bottom =>
    have up : 0 < w := behind
    rw [beyond, if_pos up]
    rfl
  | top =>
    have down : w < 0 := behind
    rw [beyond, if_neg (not_lt.mpr (le_of_lt down)), if_pos down]
    rfl

/-- A direction that is infinite leads to the infinity ahead, or to no number. -/
theorem not_behind_of_infinite {v x e : Exact} (infinite : v = bottom ∨ v = top)
    (nonneg : Arithmetic.le (finite 0) e = true) :
    ¬Behind v (rounding.round (x + rounding.round (v * e))) := by
  have product : v * e = nan ∨ v * e = v := by
    cases e with
    | nan => cases nonneg
    | bottom => cases nonneg
    | finite e =>
      rcases lt_or_eq_of_le (le_finite.mp nonneg) with positive | zero
      · right
        rcases infinite with rfl | rfl
        · show beyond (-e) = bottom
          rw [beyond, if_neg (by linarith), if_pos (by linarith)]
        · exact if_pos positive
      · left
        rcases infinite with rfl | rfl
        · show beyond (-e) = nan
          rw [beyond, if_neg (by linarith), if_neg (by linarith)]
        · show beyond e = nan
          rw [beyond, if_neg (by linarith), if_neg (by linarith)]
    | top =>
      right
      rcases infinite with rfl | rfl <;> rfl
  have fixed : rounding.round v = v := by
    rcases infinite with rfl | rfl
    · exact rounding.round_bottom
    · exact rounding.round_top
  have sum : x + rounding.round (v * e) = nan ∨ x + rounding.round (v * e) = v := by
    rcases product with none | same
    · rw [none, rounding.round_nan]
      left
      cases x <;> rfl
    · rw [same, fixed]
      rcases infinite with rfl | rfl
      · cases x <;> first | exact .inl rfl | exact .inr rfl
      · cases x <;> first | exact .inl rfl | exact .inr rfl
  rcases sum with none | same
  · rw [none, rounding.round_nan]
    exact not_behind_nan v
  · rw [same, fixed]
    rcases infinite with rfl | rfl <;> exact id

/-- A point that enters the space no earlier than on its own axis is not behind. -/
theorem not_behind_of_entry {v x e : Exact} {low high : ℚ} (fixed : rounding.round x = x)
    (nonneg : Arithmetic.le (finite 0) e = true)
    (entered : Arithmetic.min (arrival rounding (finite low) x v)
        (arrival rounding (finite high) x v) = nan ∨
      Arithmetic.le (Arithmetic.min (arrival rounding (finite low) x v)
        (arrival rounding (finite high) x v)) e = true) :
    ¬Behind v (rounding.round (x + rounding.round (v * e))) := by
  cases v with
  | nan => exact id
  | bottom => exact not_behind_of_infinite rounding (.inl rfl) nonneg
  | top => exact not_behind_of_infinite rounding (.inr rfl) nonneg
  | finite w =>
    by_cases behind : Behind (finite w) x
    · -- the ray would enter the space after all finite parameters
      rw [arrival_behind rounding behind, arrival_behind rounding behind] at entered
      have never : e = top := by
        rcases entered with absurd | late
        · cases absurd
        · cases e with
          | top => rfl
          | nan | bottom | finite => cases late
      have product : finite w * top = beyond w := rfl
      have fixedBeyond : rounding.round (beyond w) = beyond w := by
        unfold beyond
        split
        · exact rounding.round_top
        · split
          · exact rounding.round_bottom
          · exact rounding.round_nan
      rw [never, product, fixedBeyond, behind_add_beyond behind, rounding.round_nan]
      exact not_behind_nan _
    · exact not_behind_onwards rounding fixed nonneg behind

end Directions

/-! ## Rounding down between bounds -/

/-- Rounding down leaves a natural number as it is. -/
theorem floor_nat {n : Nat} (small : n ≤ greatestFloor) : floor (finite n) = n := by
  rw [floor, Int.floor_natCast, Int.toNat_natCast, min_eq_left small]

/-- A number kept between two natural numbers and then rounded down is rounded down and then kept
between them. -/
theorem floor_clamp {z : Exact} {low high : Nat} (number : z ≠ nan) (ordered : low ≤ high)
    (small : high ≤ greatestFloor) :
    floor (Arithmetic.clamp (finite low) (finite high) z) = max low (min (floor z) high) := by
  have lowFloor := floor_nat (Nat.le_trans ordered small)
  have highFloor := floor_nat small
  unfold Arithmetic.clamp
  by_cases below : Arithmetic.lt z (finite low) = true
  · rw [if_pos below, lowFloor]
    have under := LawfulArithmetic.floor_mono (LawfulArithmetic.le_of_lt below)
    have less : floor z ≤ low := lowFloor ▸ under
    omega
  · rw [if_neg below]
    have above := le_of_not_lt number (fun absurd => by cases absurd) (Bool.not_eq_true _ ▸ below)
    have finished : low ≤ floor z := lowFloor ▸ LawfulArithmetic.floor_mono above
    by_cases beyond : Arithmetic.lt (finite high) z = true
    · rw [if_pos beyond, highFloor]
      have past := LawfulArithmetic.floor_mono (LawfulArithmetic.le_of_lt beyond)
      have more : high ≤ floor z := highFloor ▸ past
      omega
    · rw [if_neg beyond]
      have within := le_of_not_lt (fun absurd => by cases absurd) number
        (Bool.not_eq_true _ ▸ beyond)
      have less : floor z ≤ high := highFloor ▸ LawfulArithmetic.floor_mono within
      omega

end Exact

namespace Partition.RayWalk

variable {α R : Type} [Arithmetic α] {D : Nat}

/-! ## Moves in floating point -/

/-- Whether floating point lets a move reach the side of an axis: the side is met no later than the
tolerance after the nearest one. -/
def reaches (walk : RayWalk α D) (least : α) (d : Fin D) : Bool :=
  walk.moves d && Arithmetic.le (walk.parameter d) (least + tolerance least)

/-- The coordinate after a move in floating point. -/
def roundedPoint (walk : RayWalk α D) (least : α) (d : Fin D) : α :=
  if walk.reaches least d then walk.boundaryPoint d
  else if walk.moves d then walk.point.get d + walk.direction.get d * least
  else walk.point.get d

/-- The cell after a move in floating point: where no side is reached, a rounded number is kept
between the cells of the part and cast, and what is no number is cast to zero. -/
def roundedTarget (walk : RayWalk α D) (least : α) (d : Fin D) : Nat :=
  if walk.reaches least d then
    if walk.ascends d then walk.boundary d else walk.boundary d - 1
  else if walk.moves d then
    Arithmetic.floor (Arithmetic.clamp (Arithmetic.ofNat (walk.regionStart d))
      (Arithmetic.ofNat (walk.regionStart d + 2 ^ walk.shift - 1))
      (walk.roundedPoint least d / Arithmetic.ofNat walk.cellWidth))
  else walk.target.get d

/-- A move in floating point. -/
def roundedMove (walk : RayWalk α D) : RayWalk α D :=
  match walk.nearest? with
  | none => walk.stopped
  | some (_, least) =>
    if !Arithmetic.isFinite least then walk.stopped
    else if (List.finRange D).any fun d => walk.reaches least d && walk.atCubeSide d then
      walk.stopped
    else
      let point := Vector.ofFn fun d => walk.roundedPoint least d
      let target := Vector.ofFn fun d => walk.roundedTarget least d
      let travelled := distanceSquared walk.origin walk.factors point
      let stack :=
        if Arithmetic.lt walk.limit travelled then []
        else walk.stack.drop (walk.stack.length - walk.keptLevels target)
      { walk with point, target, travelled, stack }

section Rounded

variable (rounding : Rounding α) {walk : RayWalk α D}

/-- Whether no coordinate of the ray is at the infinity behind it. -/
def Facing (walk : RayWalk α D) : Prop :=
  ∀ d : Fin D, ¬Exact.Behind (rounding.value (walk.direction.get d))
    (rounding.value (walk.point.get d))

/-- Where the tree of a walk is legal and its ray is in the cube. -/
structure Ready (walk : RayWalk α D) : Prop where
  /-- The border is one that a tree can have. -/
  legal : Legal walk.border
  /-- The ray is in the cube. -/
  inside : ∀ d : Fin D, walk.target.get d < 2 ^ walk.finest

/-- The sides of the parts are natural numbers that floating point represents. -/
theorem Ready.side_le (ready : walk.Ready) (d : Fin D) :
    walk.boundary d * walk.cellWidth ≤ 2 ^ (53 : Nat) := by
  have within := boundary_le ready.inside d
  have whole : walk.cellWidth * 2 ^ walk.finest = walk.border := ready.legal.grain_mul
  have range := ready.legal.range.2
  unfold Limits.greatestBorder at range
  calc walk.boundary d * walk.cellWidth
      ≤ 2 ^ walk.finest * walk.cellWidth := Nat.mul_le_mul_right _ within
    _ = walk.border := by rw [Nat.mul_comm, whole]
    _ ≤ 2 ^ (53 : Nat) := by omega

/-- The side to leave is represented exactly. -/
theorem Ready.value_boundaryPoint (ready : walk.Ready) (d : Fin D) :
    rounding.value (walk.boundaryPoint d) =
      .finite ((walk.boundary d * walk.cellWidth : Nat) : ℚ) :=
  rounding.value_nat (ready.side_le d)

/-- The parameter of a side is rounded twice: after the difference and after the quotient. -/
theorem value_parameter (ready : walk.Ready) {d : Fin D} (moving : walk.moves d = true) :
    rounding.value (walk.parameter d) =
      Arithmetic.max (rounding.round (rounding.round
        (.finite ((walk.boundary d * walk.cellWidth : Nat) : ℚ) -
          rounding.value (walk.point.get d)) / rounding.value (walk.direction.get d)))
        (.finite 0) := by
  have nonzero : Arithmetic.isZero (walk.direction.get d) = false := by
    unfold moves at moving
    rwa [Bool.not_eq_true'] at moving
  unfold parameter
  rw [rounding.value_max, rounding.div _ nonzero, rounding.sub, ready.value_boundaryPoint,
    rounding.value_zero]

/-- A unit fraction is rounded. -/
theorem value_share_eq {n : Nat} (positive : 0 < n) (small : n ≤ 2 ^ (53 : Nat)) :
    rounding.value (Arithmetic.ofNat 1 / Arithmetic.ofNat n) =
      rounding.round (.finite (1 / n)) := by
  have known := rounding.value_nat small
  have count : (n : ℚ) ≠ 0 := Nat.cast_ne_zero.mpr (Nat.ne_of_gt positive)
  have nonzero : Arithmetic.isZero (Arithmetic.ofNat n : α) = false := by
    rw [rounding.isZero, known, ← Bool.not_eq_true, Exact.isZero_finite]
    exact count
  rw [rounding.div _ nonzero, known, rounding.value_nat (by norm_num), Nat.cast_one,
    Exact.div_finite _ count]

/-- A unit fraction is rounded to a finite number that is not negative. -/
theorem value_share {n : Nat} (positive : 0 < n) (small : n ≤ 2 ^ (53 : Nat)) :
    ∃ q : ℚ, rounding.value (Arithmetic.ofNat 1 / Arithmetic.ofNat n) = .finite q ∧ 0 ≤ q := by
  have one : rounding.round (.finite (1 : ℚ)) = .finite 1 := by
    have exact := rounding.round_nat (show 1 ≤ 2 ^ (53 : Nat) by norm_num)
    rwa [Nat.cast_one] at exact
  have low : Arithmetic.le (.finite 0) (rounding.round (.finite (1 / (n : ℚ)))) = true :=
    rounding.round_nonneg (Exact.le_finite.mpr (by positivity))
  have high : Arithmetic.le (rounding.round (.finite (1 / (n : ℚ)))) (.finite 1) = true := by
    have least : (1 : ℚ) ≤ n := Nat.one_le_cast.mpr positive
    have below : (1 : ℚ) / n ≤ 1 := div_le_one_of_le₀ least (Nat.cast_nonneg n)
    have rounded := rounding.round_mono (Exact.le_finite.mpr below)
    rwa [one] at rounded
  obtain ⟨q, same, nonneg, -⟩ := Exact.finite_of_between low high
  exact ⟨q, (value_share_eq rounding positive small).trans same, nonneg⟩

/-- A parameter with its tolerance is a number, and not below the parameter. -/
theorem le_add_tolerance {least : α} {ℓ : ℚ} (finite : rounding.value least = .finite ℓ)
    (nonneg : 0 ≤ ℓ) :
    Arithmetic.le (.finite ℓ) (rounding.value (least + tolerance least)) = true := by
  obtain ⟨first, firstValue, firstNonneg⟩ :=
    value_share rounding (n := 1000000000) (by norm_num) (by norm_num)
  obtain ⟨second, secondValue, secondNonneg⟩ :=
    value_share rounding (n := 1000000000000) (by norm_num) (by norm_num)
  have fixed : rounding.round (.finite ℓ) = .finite ℓ := by rw [← finite, rounding.round_value]
  have product : Arithmetic.le (.finite 0) (rounding.round (.finite ℓ * .finite first)) = true :=
    rounding.round_nonneg (Exact.le_finite.mpr (mul_nonneg nonneg firstNonneg))
  have tolerated : Arithmetic.le (.finite 0) (rounding.value (tolerance least)) = true := by
    unfold tolerance
    rw [rounding.add, rounding.mul, finite, firstValue, secondValue]
    exact rounding.round_nonneg (Exact.add_nonneg product (Exact.le_finite.mpr secondNonneg))
  rw [rounding.add, finite]
  apply rounding.le_round_add fixed (fun absurd => by cases absurd) _ tolerated
  cases step : rounding.value (tolerance least) with
  | nan =>
    rw [step] at tolerated
    cases tolerated
  | bottom | finite | top => exact fun absurd => by cases absurd

/-- The parameter of the nearest side, when it is finite. -/
theorem nearest_finite (ready : walk.Ready) {axis : Fin D} {least : α}
    (nearest : walk.nearest? = some (axis, least)) (bounded : Arithmetic.isFinite least = true) :
    ∃ ℓ : ℚ, rounding.value least = .finite ℓ ∧ 0 ≤ ℓ := by
  obtain ⟨moving, same⟩ := moves_of_nearest? nearest
  rw [rounding.isFinite] at bounded
  have known := Exact.eq_finite bounded
  refine ⟨_, known, ?_⟩
  have nonneg : Arithmetic.le (.finite 0) (rounding.value least) = true := by
    rw [same, value_parameter rounding ready moving]
    exact Exact.le_max_right fun absurd => by cases absurd
  rw [known] at nonneg
  exact Exact.le_finite.mp nonneg

/-- The nearest side is reached, so a move reaches the same sides in floating point. -/
theorem crosses_eq_reaches (rounding : Rounding α) (ready : walk.Ready) {axis : Fin D} {least : α}
    (nearest : walk.nearest? = some (axis, least)) (bounded : Arithmetic.isFinite least = true)
    (d : Fin D) : walk.crosses axis least d = walk.reaches least d := by
  unfold crosses reaches
  by_cases same : d = axis
  · obtain ⟨ℓ, known, nonneg⟩ := nearest_finite rounding ready nearest bounded
    have reached : Arithmetic.le (walk.parameter d) (least + tolerance least) = true := by
      rw [same, ← (moves_of_nearest? nearest).2, rounding.le, known]
      exact le_add_tolerance rounding known nonneg
    rw [reached, Bool.or_true]
  · rw [beq_false_of_ne same, Bool.false_or]

/-- On an axis on which no side is reached, point and direction are finite. -/
theorem finite_of_passed (ready : walk.Ready) (facing : Facing rounding walk) {axis : Fin D}
    {least : α} (nearest : walk.nearest? = some (axis, least))
    (bounded : Arithmetic.isFinite least = true) {d : Fin D} (moving : walk.moves d = true)
    (passed : walk.reaches least d = false) :
    (∃ w : ℚ, rounding.value (walk.direction.get d) = .finite w) ∧
      ∃ y : ℚ, rounding.value (walk.point.get d) = .finite y := by
  obtain ⟨ℓ, known, nonneg⟩ := nearest_finite rounding ready nearest bounded
  have late : Arithmetic.le (walk.parameter d) (least + tolerance least) = false := by
    unfold reaches at passed
    rwa [moving, Bool.true_and] at passed
  have nonzero : Arithmetic.isZero (rounding.value (walk.direction.get d)) = false := by
    unfold moves at moving
    rwa [Bool.not_eq_true', rounding.isZero] at moving
  rw [rounding.le, value_parameter rounding ready moving] at late
  have positive := LawfulArithmetic.le_trans (Exact.le_finite.mpr nonneg)
    (le_add_tolerance rounding known nonneg)
  exact Exact.finite_of_late rounding nonzero (facing d) positive late

/-- The coordinate after a move that reaches no side of its axis is a number. -/
theorem number_of_passed (ready : walk.Ready) (facing : Facing rounding walk) {axis : Fin D}
    {least : α} (nearest : walk.nearest? = some (axis, least))
    (bounded : Arithmetic.isFinite least = true) {d : Fin D} (moving : walk.moves d = true)
    (passed : walk.reaches least d = false) :
    rounding.value (walk.point.get d + walk.direction.get d * least) ≠ .nan := by
  obtain ⟨ℓ, known, nonneg⟩ := nearest_finite rounding ready nearest bounded
  obtain ⟨⟨w, direction⟩, y, point⟩ :=
    finite_of_passed rounding ready facing nearest bounded moving passed
  rw [rounding.add, rounding.mul, direction, point, known]
  exact Exact.number_onwards rounding w y ℓ

/-- A finest cell has a width that floating point represents. -/
theorem Ready.width_spec (ready : walk.Ready) :
    rounding.value (Arithmetic.ofNat walk.cellWidth) = .finite walk.cellWidth ∧
      (0 : ℚ) < walk.cellWidth := by
  have whole : walk.cellWidth * 2 ^ walk.finest = walk.border := ready.legal.grain_mul
  have range := ready.legal.range.2
  unfold Limits.greatestBorder at range
  have least := Nat.le_mul_of_pos_right walk.cellWidth (Nat.two_pow_pos walk.finest)
  exact ⟨rounding.value_nat (by omega), Nat.cast_pos.mpr ready.legal.grain_pos⟩

/-- A number of cells is a number of finest cells. -/
theorem Ready.cells_number (ready : walk.Ready) {p : α} (number : rounding.value p ≠ .nan) :
    rounding.value (p / Arithmetic.ofNat walk.cellWidth) ≠ .nan := by
  obtain ⟨width, positive⟩ := ready.width_spec rounding
  have nonzero : Arithmetic.isZero (Arithmetic.ofNat walk.cellWidth : α) = false := by
    rw [rounding.isZero, width, ← Bool.not_eq_true, Exact.isZero_finite]
    exact ne_of_gt positive
  have up : ¬(walk.cellWidth : ℚ) < 0 := not_lt.mpr (le_of_lt positive)
  rw [rounding.div _ nonzero, width]
  apply rounding.round_number
  cases value : rounding.value p with
  | nan => exact absurd value number
  | bottom =>
    show (if (walk.cellWidth : ℚ) < 0 then Exact.top else Exact.bottom) ≠ .nan
    rw [if_neg up]
    exact fun absurd => by cases absurd
  | finite x =>
    rw [Exact.div_finite _ (ne_of_gt positive)]
    exact fun absurd => by cases absurd
  | top =>
    show (if (walk.cellWidth : ℚ) < 0 then Exact.bottom else Exact.top) ≠ .nan
    rw [if_neg up]
    exact fun absurd => by cases absurd

/-- Keeping an operand between two bounds keeps its value between theirs. -/
theorem value_clamp (low high x : α) :
    rounding.value (Arithmetic.clamp low high x) =
      Arithmetic.clamp (rounding.value low) (rounding.value high) (rounding.value x) := by
  unfold Arithmetic.clamp
  simp only [rounding.lt]
  split
  · rfl
  · split <;> rfl

/-- Cells of a part that bound a rounded number bound it after rounding down. -/
theorem Ready.floor_clamp (ready : walk.Ready) (d : Fin D) {z : α}
    (number : rounding.value z ≠ .nan) :
    Arithmetic.floor (Arithmetic.clamp (Arithmetic.ofNat (walk.regionStart d))
        (Arithmetic.ofNat (walk.regionStart d + 2 ^ walk.shift - 1)) z) =
      max (walk.regionStart d)
        (min (Arithmetic.floor z) (walk.regionStart d + 2 ^ walk.shift - 1)) := by
  obtain ⟨start, past, within⟩ := region_spec (ready.inside d)
  have bound : 2 ^ walk.finest ≤ Exact.greatestFloor := finest_le walk.border
  have count : Exact.greatestFloor ≤ 2 ^ (53 : Nat) := by decide
  have width : 0 < 2 ^ walk.shift := Nat.two_pow_pos _
  rw [rounding.floor, value_clamp, rounding.value_nat (by omega), rounding.value_nat (by omega),
    rounding.floor]
  exact Exact.floor_clamp number (by omega) (by omega)

/-- A move goes to the point and the cell to which it goes in floating point. -/
theorem next_eq_rounded (ready : walk.Ready) (facing : Facing rounding walk) {axis : Fin D}
    {least : α} (nearest : walk.nearest? = some (axis, least))
    (bounded : Arithmetic.isFinite least = true) (d : Fin D) :
    walk.nextPoint axis least d = walk.roundedPoint least d ∧
      walk.nextTarget axis least d = walk.roundedTarget least d := by
  have same := crosses_eq_reaches rounding ready nearest bounded d
  have point : walk.nextPoint axis least d = walk.roundedPoint least d := by
    unfold nextPoint roundedPoint
    rw [same]
  refine ⟨point, ?_⟩
  unfold nextTarget roundedTarget
  rw [same, point]
  by_cases reached : walk.reaches least d = true
  · rw [if_pos reached, if_pos reached]
  · rw [if_neg reached, if_neg reached]
    by_cases moving : walk.moves d = true
    · rw [if_pos moving, if_pos moving]
      have landing : walk.roundedPoint least d =
          walk.point.get d + walk.direction.get d * least := by
        unfold roundedPoint
        rw [if_neg reached, if_pos moving]
      have number := number_of_passed rounding ready facing nearest bounded moving
        (Bool.not_eq_true _ ▸ reached)
      rw [← landing] at number
      exact (ready.floor_clamp rounding d (ready.cells_number rounding number)).symm
    · rw [if_neg moving, if_neg moving]

/-- A move is one in floating point. -/
theorem move_eq_rounded (ready : walk.Ready) (facing : Facing rounding walk) :
    walk.move = walk.roundedMove := by
  unfold move roundedMove
  cases nearest : walk.nearest? with
  | none => rfl
  | some best =>
    obtain ⟨axis, least⟩ := best
    simp only
    by_cases bounded : Arithmetic.isFinite least = true
    · have same := funext (crosses_eq_reaches rounding ready nearest bounded)
      have next := next_eq_rounded rounding ready facing nearest bounded
      have point : walk.nextPoint axis least = walk.roundedPoint least :=
        funext fun d => (next d).1
      have target : walk.nextTarget axis least = walk.roundedTarget least :=
        funext fun d => (next d).2
      rw [same, point, target]
    · rw [Bool.not_eq_true] at bounded
      rw [bounded]
      rfl

/-- A landing does not get behind. -/
theorem Facing.landed (ready : walk.Ready) (facing : Facing rounding walk) {axis : Fin D}
    {least : α} (nearest : walk.nearest? = some (axis, least))
    (bounded : Arithmetic.isFinite least = true) : Facing rounding (walk.landed axis least) := by
  intro d
  have point : (walk.landed axis least).point.get d = walk.roundedPoint least d :=
    (Vector.getElem_ofFn d.isLt).trans (next_eq_rounded rounding ready facing nearest bounded d).1
  rw [point]
  unfold roundedPoint
  by_cases reached : walk.reaches least d = true
  · rw [if_pos reached, ready.value_boundaryPoint]
    exact Exact.not_behind_finite _ _
  · rw [if_neg reached]
    by_cases moving : walk.moves d = true
    · rw [if_pos moving]
      obtain ⟨ℓ, known, nonneg⟩ := nearest_finite rounding ready nearest bounded
      obtain ⟨⟨w, direction⟩, -⟩ := finite_of_passed rounding ready facing nearest bounded moving
        (Bool.not_eq_true _ ▸ reached)
      have ahead := facing d
      have sameDirection : (walk.landed axis least).direction.get d = walk.direction.get d := rfl
      rw [sameDirection, rounding.add, rounding.mul, known]
      rw [direction] at ahead ⊢
      exact Exact.not_behind_onwards rounding (rounding.round_value _)
        (Exact.le_finite.mpr nonneg) ahead
    · rw [if_neg moving]
      exact facing d

/-! ## Where a ray enters -/

/-- The earlier of the parameters at which a ray meets the two sides of the space on an axis. -/
def lower (border : α) (ray : Ray α D) (d : Fin D) : α :=
  Arithmetic.min ((Arithmetic.ofNat 0 - ray.origin.get d) / ray.direction.get d)
    ((border - ray.origin.get d) / ray.direction.get d)

/-- A space that is left stays left. -/
theorem foldl_clipAxis_none (border : α) (ray : Ray α D) (axes : List (Fin D)) :
    axes.foldl (Ray.clipAxis border ray) none = none := by
  induction axes with
  | nil => rfl
  | cons d later ih => exact ih

/-- On an axis on which it does not move, a ray misses the space or is in it all the time. -/
theorem clipAxis_rests {border : α} {ray : Ray α D} {d : Fin D}
    (rests : Arithmetic.isZero (ray.direction.get d) = true) (interval : α × α) :
    Ray.clipAxis border ray (some interval) d = none ∨
      Ray.clipAxis border ray (some interval) d = some interval := by
  simp only [Ray.clipAxis, if_pos rests]
  split
  · exact .inl rfl
  · exact .inr rfl

/-- On an axis on which it moves, a ray enters the space at the earlier of its sides. -/
theorem clipAxis_moves {border : α} {ray : Ray α D} {d : Fin D}
    (moving : ¬Arithmetic.isZero (ray.direction.get d) = true) (enter leave : α) :
    ∃ left, Ray.clipAxis border ray (some (enter, leave)) d =
      some (Arithmetic.max enter (lower border ray d), left) := by
  simp only [Ray.clipAxis, if_neg moving]
  exact ⟨_, rfl⟩

/-- The parameter at which a ray has entered the space on some axes is not below any of theirs. -/
theorem foldl_clipAxis_spec (border : α) (ray : Ray α D) (axes : List (Fin D)) {enter leave e l : α}
    (nonneg : Arithmetic.le (.finite 0) (rounding.value enter) = true)
    (run : axes.foldl (Ray.clipAxis border ray) (some (enter, leave)) = some (e, l)) :
    Arithmetic.le (rounding.value enter) (rounding.value e) = true ∧
      ∀ d ∈ axes, Arithmetic.isZero (ray.direction.get d) = false →
        rounding.value (lower border ray d) = .nan ∨
          Arithmetic.le (rounding.value (lower border ray d)) (rounding.value e) = true := by
  have number : rounding.value enter ≠ .nan := fun none => by
    rw [none] at nonneg
    cases nonneg
  induction axes generalizing enter leave with
  | nil =>
    cases run
    exact ⟨Exact.le_self number, fun d absurd => (List.not_mem_nil absurd).elim⟩
  | cons d later ih =>
    rw [List.foldl_cons] at run
    by_cases rests : Arithmetic.isZero (ray.direction.get d) = true
    · rcases clipAxis_rests rests (enter, leave) with missed | same
      · rw [missed, foldl_clipAxis_none] at run
        cases run
      · rw [same] at run
        obtain ⟨further, others⟩ := ih nonneg run number
        refine ⟨further, fun other member moving => ?_⟩
        rcases List.mem_cons.mp member with rfl | listed
        · rw [rests] at moving
          cases moving
        · exact others other listed moving
    · obtain ⟨left, moved⟩ := clipAxis_moves rests enter leave
      rw [moved] at run
      have grown := Exact.le_max_left (y := rounding.value (lower border ray d)) number
      have value := rounding.value_max enter (lower border ray d)
      rw [← value] at grown
      have start := LawfulArithmetic.le_trans nonneg grown
      have numeric : rounding.value (Arithmetic.max enter (lower border ray d)) ≠ .nan :=
        fun none => by
          rw [none] at start
          cases start
      obtain ⟨further, others⟩ := ih start run numeric
      refine ⟨LawfulArithmetic.le_trans grown further, fun other member moving => ?_⟩
      rcases List.mem_cons.mp member with rfl | listed
      · by_cases none : rounding.value (lower border ray other) = .nan
        · exact .inl none
        · have above := Exact.le_max_right (x := rounding.value enter) none
          rw [← value] at above
          exact .inr (LawfulArithmetic.le_trans above further)
      · exact others other listed moving

/-- The entry of a ray is not negative, and not below that on any axis. -/
theorem entry?_spec {border entry : α} {ray : Ray α D} (enters : ray.entry? border = some entry) :
    Arithmetic.le (.finite 0) (rounding.value entry) = true ∧
      ∀ d, Arithmetic.isZero (ray.direction.get d) = false →
        rounding.value (lower border ray d) = .nan ∨
          Arithmetic.le (rounding.value (lower border ray d)) (rounding.value entry) = true := by
  have zero : Arithmetic.le (.finite 0) (rounding.value (Arithmetic.ofNat 0)) = true := by
    rw [rounding.value_zero]
    rfl
  unfold Ray.entry? at enters
  simp only at enters
  cases clipped : (List.finRange D).foldl (Ray.clipAxis border ray)
      (some (Arithmetic.ofNat 0, Arithmetic.infinity)) with
  | none =>
    rw [clipped] at enters
    cases enters
  | some interval =>
    obtain ⟨e, l⟩ := interval
    rw [clipped] at enters
    simp only at enters
    split at enters
    · cases enters
      obtain ⟨further, each⟩ :=
        foldl_clipAxis_spec rounding border ray (List.finRange D) zero clipped
      exact ⟨LawfulArithmetic.le_trans zero further, fun d => each d (List.mem_finRange d)⟩
    · cases enters

end Rounded

/-! ## All moves of a walk -/

section Upright

variable {walk : RayWalk α D}

/-- Whether a walk moves as in floating point, however results are rounded, and goes on to do so. -/
structure Upright (walk : RayWalk α D) : Prop where
  /-- The tree is legal and the ray is in the cube. -/
  ready : walk.Ready
  /-- No coordinate is at the infinity behind. -/
  facing : ∀ rounding : Rounding α, Facing rounding walk

/-- The way and the epoch of a walk have no part in it. -/
theorem Upright.congr {other : RayWalk α D} (upright : walk.Upright)
    (border : other.border = walk.border) (target : other.target = walk.target)
    (direction : other.direction = walk.direction) (point : other.point = walk.point) :
    other.Upright := by
  refine ⟨⟨border ▸ upright.ready.legal, ?_⟩, ?_⟩
  · intro d
    unfold finest
    rw [target, border]
    exact upright.ready.inside d
  · intro rounding d
    rw [direction, point]
    exact upright.facing rounding d

/-- A move keeps a walk upright. -/
theorem Upright.move (upright : walk.Upright) : walk.move.Upright := by
  obtain ⟨ready, facing⟩ := upright
  rcases move_cases walk with stops | ⟨axis, least, nearest, bounded, stays, lands⟩
  · rw [stops]
    exact .congr ⟨ready, facing⟩ rfl rfl rfl rfl
  · rw [lands]
    exact ⟨⟨ready.legal, landed_inside ready.inside stays⟩,
      fun rounding => (facing rounding).landed rounding ready nearest bounded⟩

/-- An upright walk moves as in floating point. -/
theorem Upright.move_eq (upright : walk.Upright) (rounding : Rounding α) :
    walk.move = walk.roundedMove :=
  move_eq_rounded rounding upright.ready (upright.facing rounding)

/-- A walk that starts in the space is upright. -/
theorem start_upright {tree : Tree R D} (legal : Legal tree.border) (ray : Ray α D)
    (reach : Reach α D) :
    (start tree ray reach).stack = [] ∨ (start tree ray reach).Upright := by
  unfold start
  cases enters : ray.entry? (Arithmetic.ofNat tree.border) with
  | none => exact .inl rfl
  | some entry =>
    refine .inr ⟨⟨legal, ?_⟩, ?_⟩
    · intro d
      apply Nat.lt_of_le_of_lt (Nat.le_of_eq (Vector.getElem_ofFn d.isLt))
      exact Nat.lt_of_le_of_lt (Nat.min_le_right _ _)
        (Nat.sub_lt (Nat.two_pow_pos _) Nat.one_pos)
    · intro rounding d
      obtain ⟨nonneg, entered⟩ := entry?_spec rounding enters
      have point : (Vector.ofFn fun (d : Fin D) =>
          ray.origin.get d + ray.direction.get d * entry).get d =
            ray.origin.get d + ray.direction.get d * entry := Vector.getElem_ofFn d.isLt
      simp only
      rw [point, rounding.add, rounding.mul]
      by_cases rests : Arithmetic.isZero (ray.direction.get d) = true
      · rw [rounding.isZero] at rests
        generalize rounding.value (ray.direction.get d) = v at rests
        cases v with
        | nan | bottom | top => cases rests
        | finite v =>
          rw [Exact.isZero_finite] at rests
          subst rests
          intro behind
          generalize rounding.round _ = z at behind
          cases z with
          | nan | finite => exact behind
          | bottom | top => exact lt_irrefl (0 : ℚ) behind
      · rw [Bool.not_eq_true] at rests
        have range := legal.range.2
        unfold Limits.greatestBorder at range
        have border := rounding.value_nat (show tree.border ≤ 2 ^ (53 : Nat) by omega)
        have arrivals := entered d rests
        unfold lower at arrivals
        rw [rounding.value_min, rounding.div _ rests, rounding.div _ rests, rounding.sub,
          rounding.sub, rounding.value_zero, border] at arrivals
        exact Exact.not_behind_of_entry rounding (rounding.round_value _) nonneg arrivals

end Upright

end Partition.RayWalk

end SpatialIndex
