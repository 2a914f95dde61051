import SpatialIndex.Proofs.Arithmetic.Double.Laws
import SpatialIndex.Proofs.World.Border
import SpatialIndex.Proofs.World.Upkeep

/-!
# Cells in double precision

Doubles are lawful, so cells never decrease over a world range that they can tell from a point. The
ends of a range of 64-bit integers can be rounded to one double. Such a range has a span of positive
zero, by which everything above it is scaled to infinity and everything else to no positive number.
Spans that overflow, and ranges with infinite ends, scale to zero or to no number.
-/
namespace SpatialIndex.World

open Arithmetic LawfulArithmetic

/-! ## World ranges -/

/-- A coordinate below another one is not above it. -/
theorem atMost_of_below {low high : Coordinate} (ordered : low.below high = true) :
    low.atMost high = true := by
  unfold Coordinate.below Coordinate.compareRanks at ordered
  unfold Coordinate.atMost Coordinate.compareRanks
  cases first : low.rank? with
  | none =>
    rw [first] at ordered
    cases ordered
  | some rank =>
    cases second : high.rank? with
    | none =>
      rw [first, second] at ordered
      cases ordered
    | some other =>
      rw [first, second] at ordered
      exact decide_eq_true (le_of_lt (of_decide_eq_true ordered))

/-- The ends of a world range are apart as doubles, or they are one double that is finite and not
zero, or their difference is no number. -/
theorem range_cases {low high : Coordinate} (typed : low.numeric = high.numeric)
    (ordered : low.below high = true) :
    lt (ofCoordinate low : Float) (ofCoordinate high) = true ∨
      (∃ c : ℚ, c ≠ 0 ∧ Double.value (ofCoordinate low) = .finite c ∧
        Double.value (ofCoordinate high) = .finite c) ∨
      isNaN (ofCoordinate high - ofCoordinate low : Float) = true := by
  have upward : le (ofCoordinate low : Float) (ofCoordinate high) = true :=
    convert_mono typed (atMost_of_below ordered)
  have numbers := number_of_le upward
  cases spread : lt (ofCoordinate low : Float) (ofCoordinate high) with
  | true => exact .inl rfl
  | false =>
    have downward : le (ofCoordinate high : Float) (ofCoordinate low) = true :=
      Double.rounding.le_of_not_lt numbers.1 numbers.2 spread
    cases infinite : isInfinite (ofCoordinate low : Float) with
    | true => exact .inr (.inr (sub_infinite infinite downward upward))
    | false =>
      have finite : isFinite (Double.value (ofCoordinate low)) = true := by
        unfold isInfinite at infinite
        rw [numbers.1, Bool.not_false, Bool.true_and, Bool.not_eq_false'] at infinite
        exact (Double.isFinite_value _).symm.trans infinite
      have value := Exact.eq_finite finite
      generalize (Double.value (ofCoordinate low)).value = c at value
      rw [Double.value_le, value] at upward downward
      obtain ⟨other, same, above, below⟩ := Exact.finite_of_between upward downward
      obtain rfl := le_antisymm above below
      refine .inr (.inl ⟨c, ?_, value, same⟩)
      rintro rfl
      -- the two ends would both be zero
      unfold Coordinate.below Coordinate.compareRanks at ordered
      rw [Double.rank_of_zero value, Double.rank_of_zero same] at ordered
      cases ordered

section Range

variable {low high x y : Float} {border : Nat}

/-- Over a span that is no number, every coordinate has the first cell. -/
theorem floor_scaled_of_nan (none : isNaN (high - low) = true) :
    floor (scaled low high border x) = 0 := by
  have span : Double.value (high - low) = .nan := by
    rw [Double.rounding.isNaN, Exact.isNaN_iff] at none
    exact none
  have divides : isZero (high - low) = false := by
    unfold isZero
    rw [Double.value_le, span]
    rfl
  have quotient : Double.value ((x - low) / (high - low)) = .nan := by
    refine (Double.rounding.div (x - low) divides).trans ?_
    show Double.round (Double.value (x - low) / Double.value (high - low)) = .nan
    rw [span]
    cases Double.value (x - low) <;> rfl
  refine floor_nan (mul_nan ?_)
  rw [Double.rounding.isNaN]
  exact Exact.isNaN_iff.mpr quotient

/-- Over a span of zero, the coordinates above the range are scaled to infinity, and all others to
no positive number. -/
theorem floor_scaled_narrow {c : ℚ} (some : c ≠ 0) (first : Double.value low = .finite c)
    (second : Double.value high = .finite c) (positive : 0 < border)
    (bounded : border < 2 ^ (64 : Nat)) :
    floor (scaled low high border x) =
      if lt (ofNat 0) (x - low) = true then Exact.greatestFloor else 0 := by
  obtain ⟨count, above, counted⟩ :=
    Double.rounding.value_count positive bounded (Double.isFinite_ofNat bounded)
  have product : Double.value (scaled low high border x) =
      Double.round (Double.value ((x - low) / (high - low)) * Double.value (ofNat border)) :=
    Double.rounding.mul _ _
  have zero : Double.value (ofNat 0) = .finite 0 := Double.rounding.value_zero
  have counts : Double.value (ofNat border) = .finite count := counted
  have down : floor (scaled low high border x) = floor (Double.value (scaled low high border x)) :=
    Double.rounding.floor _
  rw [down, product, Double.value_div_zero _ (Double.unpack_sub_self some second first), counts,
    Exact.mul_positive above, Double.value_lt, zero]
  cases Double.value (x - low) with
  | nan | bottom | top => rfl
  | finite difference =>
    rcases lt_trichotomy difference 0 with below | rfl | beyond
    · have quotient : Exact.finite difference / .finite 0 = .bottom := by
        show Exact.beyond difference = _
        rw [Exact.beyond, if_neg (not_lt.mpr (le_of_lt below)), if_pos below]
      rw [quotient, if_neg (by rw [Exact.lt_finite]; exact not_lt.mpr (le_of_lt below))]
      rfl
    · rfl
    · have quotient : Exact.finite difference / .finite 0 = .top := if_pos beyond
      rw [quotient, if_pos (Exact.lt_finite.mpr beyond)]
      rfl

/-- Over a span of zero, too, scaling keeps order as far as rounding down can tell. -/
theorem floor_scaled_narrow_mono {c : ℚ} (some : c ≠ 0) (first : Double.value low = .finite c)
    (second : Double.value high = .finite c) (positive : 0 < border)
    (bounded : border < 2 ^ (64 : Nat)) (ordered : le x y = true) :
    floor (scaled low high border x) ≤ floor (scaled low high border y) := by
  have difference (z : Float) : Double.value (z - low) =
      Double.round (Double.value z - .finite c) :=
    (Double.rounding.sub z low).trans (congrArg (fun end_ => Double.round (Double.value z - end_)) first)
  rw [Double.value_le] at ordered
  have further := Double.round_mono (Exact.sub_finite_mono c ordered)
  rw [← difference, ← difference] at further
  rw [floor_scaled_narrow some first second positive bounded,
    floor_scaled_narrow some first second positive bounded, Double.value_lt, Double.value_lt]
  by_cases above : lt (Double.value (ofNat 0)) (Double.value (x - low)) = true
  · rw [if_pos above, if_pos (Exact.lt_of_lt_of_le above further)]
  · rw [if_neg above]
    exact Nat.zero_le _

/-- The lower end of a world range is not scaled to a positive number. -/
theorem floor_scaled_low
    (range : lt low high = true ∨ (∃ c : ℚ, c ≠ 0 ∧ Double.value low = .finite c ∧
      Double.value high = .finite c) ∨ isNaN (high - low) = true)
    (positive : 0 < border) (bounded : border < 2 ^ (64 : Nat)) :
    floor (scaled low high border low) = 0 := by
  cases none : isNaN (low - low) with
  | true => exact floor_nan (mul_nan (div_nan none))
  | false =>
    have zero := Double.value_sub_self none
    rcases range with spread | ⟨c, some, first, second⟩ | none
    · have least : le ((low - low) / (high - low)) (ofNat 0) = true :=
        Double.zero_div_le zero (sub_pos spread)
      exact floor_eq_zero (le_trans (mul_mono positive bounded least) (zero_mul bounded))
    · rw [floor_scaled_narrow some first second positive bounded, Double.value_lt, zero, if_neg]
      rw [show Double.value (ofNat 0) = .finite 0 from Double.rounding.value_zero]
      exact Bool.false_ne_true
    · exact floor_scaled_of_nan none

end Range

/-! ## Axes -/

section Axes

variable {axis : Axis} {border : Nat} {a b : Coordinate}

/-- The cell of a coordinate never decreases, whatever the world range. -/
theorem Axis.cell_mono_double (ends : axis.low.numeric = axis.high.numeric)
    (range : axis.low.below axis.high = true) (positive : 0 < border)
    (bounded : border < 2 ^ (64 : Nat)) (typed : a.numeric = b.numeric)
    (ordered : a.atMost b = true) : axis.cell Float border a ≤ axis.cell Float border b := by
  rcases range_cases ends range with spread | ⟨c, some, first, second⟩ | none
  · exact Axis.cell_mono spread positive bounded typed ordered
  · have values : le (ofCoordinate a : Float) (ofCoordinate b) = true := convert_mono typed ordered
    exact min_le_min_right _ (floor_scaled_narrow_mono some first second positive bounded values)
  · have first : floor (scaled (ofCoordinate axis.low) (ofCoordinate axis.high) border
        (ofCoordinate a : Float)) = 0 := floor_scaled_of_nan none
    refine le_trans (min_le_left _ _) (le_trans (Nat.le_of_eq first) (Nat.zero_le _))

/-- Above a range that doubles cannot tell from a point all cells are the last one, as soon as doubles
can tell. -/
example : [0x1fffffffffffff#64, 0x20000000000000#64, 0x20000000000001#64, 0x20000000000002#64].map
    (fun n => Axis.cell Float ⟨⟨0, 0, 8, .int⟩, ⟨.i64, 0x20000000000000#64⟩, ⟨1, 8, 8, .int⟩,
      ⟨.i64, 0x20000000000001#64⟩⟩ 8 ⟨.i64, n⟩) = [0, 0, 0, 7] := by
  decide +kernel

/-- The lower end of the world range has the first cell. -/
theorem Axis.cell_low (ends : axis.low.numeric = axis.high.numeric)
    (range : axis.low.below axis.high = true) (positive : 0 < border)
    (bounded : border < 2 ^ (64 : Nat)) : axis.cell Float border axis.low = 0 := by
  have first := floor_scaled_low (range_cases ends range) positive bounded
  exact Nat.eq_zero_of_le_zero (le_trans (min_le_left _ _) (Nat.le_of_eq first))

end Axes

/-! ## Trees -/

namespace Tree

variable {D : Nat}

/-- The cells of a tree are a grid: coordinates of its type are mapped to it in order, from the lower
end of every world range on, and bounds that overlap have boxes that overlap. -/
structure Grid (tree : Tree Float D) : Prop where
  /-- Every coordinate has a cell inside the border, also one that is infinite or no number. -/
  inside : ∀ d value, tree.cell d value < tree.border
  /-- Coordinates in order have cells in order. -/
  ordered : ∀ d a b, a.numeric = tree.numeric → b.numeric = tree.numeric → a.atMost b = true →
    tree.cell d a ≤ tree.cell d b
  /-- The lower end of a world range has the first cell. -/
  first : ∀ d, tree.cell d (tree.axes.get d).low = 0
  /-- All bounds have a valid box, also inverted ones. -/
  valid : ∀ extent, (tree.box extent).Valid tree.border
  /-- Bounds that pass the exact test have boxes that meet, also inverted ones. -/
  meets : ∀ query candidate : Extent D, query.Typed tree.numeric → candidate.Typed tree.numeric →
    query.Numbers → candidate.Numbers → query.Passes candidate →
      (tree.box query).Meets (tree.box candidate)

/-- A tree in double precision whose world ranges are not empty has a grid of cells. -/
theorem grid_of_ranges {tree : Tree Float D} (positive : 0 < tree.border)
    (bounded : tree.border < 2 ^ (64 : Nat))
    (ranges : ∀ d, (tree.axes.get d).low.numeric = (tree.axes.get d).high.numeric ∧
      (tree.axes.get d).low.below (tree.axes.get d).high = true) : tree.Grid := by
  have ordered (d : Fin D) {a b : Coordinate} (first : a.numeric = tree.numeric)
      (second : b.numeric = tree.numeric) (order : a.atMost b = true) :
      tree.cell d a ≤ tree.cell d b :=
    Axis.cell_mono_double (ranges d).1 (ranges d).2 positive bounded (first.trans second.symm) order
  refine ⟨cell_lt positive, fun d a b => ordered d, fun d => ?_, box_valid positive, ?_⟩
  · exact Axis.cell_low (ranges d).1 (ranges d).2 positive bounded
  · exact fun query candidate => box_meets ordered

/-- Accepted settings and one to three axes, whose world ranges are not empty, give a tree; its cells
are a grid, and stay so when records enter and leave it. -/
theorem exists_grid {config : Config} (accepted : config.check = .ok ()) {numeric : Numeric}
    {axes : Vector Axis D} (dimensions : 1 ≤ D ∧ D ≤ Limits.dimensions)
    (typed : ∀ axis ∈ axes.toList, axis.low.numeric = numeric ∧ axis.high.numeric = numeric)
    (checked : ∀ axis ∈ axes.toList, axis.check numeric = .ok ()) :
    ∃ made : Tree Float D, create numeric axes config = .ok made ∧
      ∀ tree, made.SameSpace tree → tree.Grid := by
  obtain ⟨made, created⟩ :=
    create_of_checked Double.rounding (Config.usable_of_check accepted) dimensions checked
  obtain ⟨-, sameAxes, -⟩ := create_shape created
  obtain ⟨least, greatest⟩ := create_range created
  unfold Limits.leastBorder at least
  unfold Limits.greatestBorder at greatest
  refine ⟨made, created, fun tree same => ?_⟩
  rw [← same.border] at least greatest
  have positive : 0 < tree.border := by omega
  have bounded : tree.border < 2 ^ (64 : Nat) := by omega
  refine grid_of_ranges positive bounded fun d => ?_
  rw [same.axes, sameAxes]
  have member : axes.get d ∈ axes.toList := Vector.mem_toList_iff.mpr (Vector.getElem_mem d.isLt)
  obtain ⟨low, high⟩ := typed _ member
  exact ⟨low.trans high.symm, Axis.ordered_of_check (checked _ member)⟩

/-- An axis of which both ends are rounded to one double, and one with a span that no integer of its
type has. -/
theorem exists_grid_narrow_wide :
    let narrow : Axis := ⟨⟨0, 0, 8, .int⟩, ⟨.i64, 0x20000000000000#64⟩, ⟨1, 8, 8, .int⟩,
      ⟨.i64, 0x20000000000001#64⟩⟩
    let wide : Axis := ⟨⟨2, 16, 8, .int⟩, ⟨.i64, 0x8000000000000000#64⟩, ⟨3, 24, 8, .int⟩,
      ⟨.i64, 0x7fffffffffffffff#64⟩⟩
    ∃ made : Tree Float 2, create .i64 #v[narrow, wide] Config.standard = .ok made ∧
      ∀ tree, made.SameSpace tree → tree.Grid := by
  intro narrow wide
  have accepted : Config.standard.check = .ok () := by decide +kernel
  exact exists_grid accepted (by decide) (by decide) (by decide)

end Tree

end SpatialIndex.World
