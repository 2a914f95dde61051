import SpatialIndex.Proofs.Arithmetic.Laws
import SpatialIndex.Proofs.World.Extent
import SpatialIndex.World.Search

/-!
# Cells in the order of coordinates

In a lawful arithmetic the cell of a coordinate never decreases, also outside the world range and
at infinities. Bounds that pass the exact test against a query therefore have a box that meets
the box of the query, whether or not either is inverted.
-/
namespace SpatialIndex

open Arithmetic

namespace Coordinate

/-- Coordinates of which the first is not above the second are in order when both are numbers. -/
theorem atMost_of_not_below {a b : Coordinate} (first : a.isNaN = false) (second : b.isNaN = false)
    (passes : b.below a = false) : a.atMost b = true := by
  unfold isNaN at first second
  unfold below compareRanks at passes
  unfold atMost compareRanks
  cases found : a.rank? with
  | none => rw [found] at first; cases first
  | some rank =>
    cases other : b.rank? with
    | none => rw [other] at second; cases second
    | some further =>
      rw [found, other] at passes
      have ordered : ¬further < rank := of_decide_eq_false passes
      exact decide_eq_true (by omega)

end Coordinate

variable {α : Type} [Arithmetic α] [LawfulArithmetic α]

open LawfulArithmetic

namespace World

/-! ## One axis -/

/-- The place of a converted coordinate between the ends of a range, in cells. -/
def scaled (low high : α) (border : Nat) (value : α) : α :=
  (value - low) / (high - low) * ofNat border

/-- What is no number stays none when it is scaled. -/
theorem number_of_scaled {low high value : α} {border : Nat}
    (number : isNaN (scaled low high border value) = false) :
    isNaN (value - low) = false ∧ isNaN ((value - low) / (high - low)) = false := by
  have quotient : isNaN ((value - low) / (high - low)) = false := by
    cases none : isNaN ((value - low) / (high - low)) with
    | false => rfl
    | true => rw [scaled, mul_nan none] at number; cases number
  refine ⟨?_, quotient⟩
  cases none : isNaN (value - low) with
  | false => rfl
  | true => rw [div_nan none] at quotient; cases quotient

/-- Scaling keeps order where it gives numbers. -/
theorem scaled_mono {low high first second : α} {border : Nat} (spread : lt low high = true)
    (positive : 0 < border) (bounded : border < 2 ^ (64 : Nat)) (ordered : le first second = true)
    (number : isNaN (scaled low high border first) = false)
    (other : isNaN (scaled low high border second) = false) :
    le (scaled low high border first) (scaled low high border second) = true := by
  have here := number_of_scaled number
  have there := number_of_scaled other
  exact mul_mono positive bounded
    (div_mono (sub_pos spread) (sub_mono ordered here.1 there.1) here.2 there.2)

/-- What is scaled to no positive number has the first cell. -/
theorem floor_eq_zero {x : α} (least : le x (ofNat 0) = true) : floor x = 0 := by
  have bound := floor_mono least
  rw [floor_zero] at bound
  omega

/-- Below a coordinate that is scaled to no number all cells are the first: the range then has an
infinite end. -/
theorem floor_scaled_eq_zero {low high first second : α} {border : Nat}
    (spread : lt low high = true) (positive : 0 < border) (bounded : border < 2 ^ (64 : Nat))
    (ordered : le first second = true)
    (none : isNaN (scaled low high border second) = true) :
    floor (scaled low high border first) = 0 := by
  cases number : isNaN (scaled low high border first) with
  | true => exact floor_nan number
  | false =>
    have here := number_of_scaled number
    have numbers := number_of_le ordered
    have ends := number_of_le (le_of_lt spread)
    have width := sub_pos spread
    cases difference : isNaN (second - low) with
    | true =>
      -- Both coordinates are then the lower end, which is the infinity below all numbers.
      obtain ⟨infinite, upper, lower⟩ := sub_number numbers.2 ends.1 difference
      cases infinite_extreme infinite with
      | inl greatest =>
        have opposite := greatest high ends.2
        rw [not_le_of_lt spread] at opposite
        cases opposite
      | inr least =>
        have same := sub_infinite infinite (le_trans ordered upper) (least _ numbers.1)
        rw [same] at here
        cases here.1
    | false =>
      cases quotient : isNaN ((second - low) / (high - low)) with
      | true =>
        obtain ⟨-, infinite⟩ := div_number width difference quotient
        cases finite : isFinite (first - low) with
        | true =>
          have zero := (Bool.and_eq_true_iff.mp (div_infinite finite infinite)).1
          exact floor_eq_zero (le_trans (mul_mono positive bounded zero) (zero_mul bounded))
        | false =>
          have unbounded : isInfinite (first - low) = true := by
            unfold isInfinite
            rw [here.1, finite]
            rfl
          rw [infinite_div unbounded infinite] at here
          cases here.2
      | false =>
        have itself : le ((second - low) / (high - low)) ((second - low) / (high - low)) =
            true := by
          simpa [isNaN] using quotient
        have product := (number_of_le (mul_mono positive bounded itself)).1
        rw [scaled, product] at none
        cases none

/-- The cell of a coordinate never decreases. -/
theorem Axis.cell_mono {axis : Axis} {border : Nat} {a b : Coordinate}
    (spread : lt (ofCoordinate axis.low : α) (ofCoordinate axis.high) = true)
    (positive : 0 < border) (bounded : border < 2 ^ (64 : Nat)) (typed : a.numeric = b.numeric)
    (ordered : a.atMost b = true) : axis.cell α border a ≤ axis.cell α border b := by
  have values : le (ofCoordinate a : α) (ofCoordinate b) = true := convert_mono typed ordered
  have floors : floor (scaled (ofCoordinate axis.low) (ofCoordinate axis.high) border
        (ofCoordinate a) : α) ≤
      floor (scaled (ofCoordinate axis.low) (ofCoordinate axis.high) border
        (ofCoordinate b) : α) := by
    cases second : isNaN (scaled (ofCoordinate axis.low) (ofCoordinate axis.high) border
        (ofCoordinate b) : α) with
    | true =>
      rw [floor_scaled_eq_zero spread positive bounded values second]
      exact Nat.zero_le _
    | false =>
      cases first : isNaN (scaled (ofCoordinate axis.low) (ofCoordinate axis.high) border
          (ofCoordinate a) : α) with
      | true =>
        rw [floor_nan first]
        exact Nat.zero_le _
      | false => exact floor_mono (scaled_mono spread positive bounded values first second)
  show min (floor (scaled _ _ _ _ : α)) _ ≤ min (floor (scaled _ _ _ _ : α)) _
  omega

/-! ## Boxes -/

namespace Extent

variable {D : Nat}

/-- The exact test of a query: on no axis is the candidate wholly below or wholly above it. -/
def Passes (query candidate : Extent D) : Prop :=
  ∀ d : Fin D, (candidate.high.get d).below (query.low.get d) = false ∧
    (query.high.get d).below (candidate.low.get d) = false

/-- The test of a search is the exact one. -/
theorem overlaps_iff {query candidate : Extent D} :
    candidate.overlaps query = true ↔ query.Passes candidate := by
  unfold overlaps Passes
  simp only [List.all_eq_true, List.mem_finRange, forall_const, Bool.not_eq_true',
    Bool.or_eq_false_iff]

/-- Bounds that are all of one type. -/
def Typed (numeric : Numeric) (extent : Extent D) : Prop :=
  ∀ d : Fin D, (extent.low.get d).numeric = numeric ∧ (extent.high.get d).numeric = numeric

/-- Bounds that are all numbers. -/
def Numbers (extent : Extent D) : Prop :=
  ∀ d : Fin D, (extent.low.get d).isNaN = false ∧ (extent.high.get d).isNaN = false

end Extent

namespace Tree

variable {D size : Nat} {tree : Tree α D}

omit [LawfulArithmetic α] in
/-- Where cells never decrease, bounds that pass the exact test have a box that meets the box of the
query. -/
theorem box_meets (cells : ∀ (d : Fin D) {a b : Coordinate}, a.numeric = tree.numeric →
      b.numeric = tree.numeric → a.atMost b = true → tree.cell d a ≤ tree.cell d b)
    {query candidate : Extent D} (queryTyped : query.Typed tree.numeric)
    (typed : candidate.Typed tree.numeric) (queryNumbers : query.Numbers)
    (numbers : candidate.Numbers) (passes : query.Passes candidate) :
    (tree.box query).Meets (tree.box candidate) := by
  intro d
  have upper := cells d (typed d).1 (queryTyped d).2
    (Coordinate.atMost_of_not_below (numbers d).1 (queryNumbers d).2 (passes d).2)
  have lower := cells d (queryTyped d).1 (typed d).2
    (Coordinate.atMost_of_not_below (queryNumbers d).1 (numbers d).2 (passes d).1)
  rw [(box_get candidate d).1, (box_get candidate d).2, (box_get query d).1, (box_get query d).2]
  omega

/-- Bounds that pass the exact test have a box that meets the box of the query. -/
theorem Formed.meets (formed : tree.Formed size) {query candidate : Extent D}
    (queryTyped : query.Typed tree.numeric) (typed : candidate.Typed tree.numeric)
    (queryNumbers : query.Numbers) (numbers : candidate.Numbers)
    (passes : query.Passes candidate) : (tree.box query).Meets (tree.box candidate) := by
  have bounded : tree.border < 2 ^ (64 : Nat) := by
    have greatest := formed.range.2
    unfold Limits.greatestBorder at greatest
    omega
  refine box_meets (fun d a b first second ordered => ?_) queryTyped typed queryNumbers numbers
    passes
  exact Axis.cell_mono (formed.axes d).spread formed.reads.positive bounded
    (first.trans second.symm) ordered

end Tree

end World

end SpatialIndex
