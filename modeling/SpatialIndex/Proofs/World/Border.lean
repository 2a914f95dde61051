import SpatialIndex.Proofs.Arithmetic.Rounding
import SpatialIndex.Proofs.Partition.Contents
import SpatialIndex.Proofs.World.Cells

/-!
# Trees over accepted axes can be made

The border of a tree comes from a product of rounded numbers. When coordinates are rounded to the
arithmetic and the density is a positive finite number, that product is a number, whatever the world
ranges are, so the border is a power of two inside the limits.
-/
namespace SpatialIndex

open Arithmetic

variable {α : Type} [Arithmetic α]

/-- An arithmetic to which coordinates are rounded. -/
def Rounding.Converts (rounding : Rounding α) : Prop :=
  ∀ coordinate, rounding.value (ofCoordinate coordinate) =
    rounding.round (Exact.ofCoordinate coordinate)

/-- Exact arithmetic takes coordinates as they are. -/
theorem Exact.rounding_converts : Exact.rounding.Converts := fun _ => rfl

/-- Settings whose density is a positive finite number in an arithmetic. -/
def Config.Usable (α : Type) [Arithmetic α] (config : Config) : Prop :=
  isFinite (ofFloat config.density : α) = true ∧
    lt (ofNat 0) (ofFloat config.density : α) = true

/-- Settings that are accepted are usable in double precision. -/
theorem Config.usable_of_check {config : Config} (accepted : config.check = .ok ()) :
    config.Usable Float := by
  unfold Config.check at accepted
  split at accepted
  · cases accepted
  · rename_i positive
    simp only [Bool.not_eq_true', Bool.not_eq_false, Bool.and_eq_true, decide_eq_true_eq]
      at positive
    exact ⟨positive.1, decide_eq_true positive.2⟩

/-! ## World ranges -/

namespace Rounding

variable (rounding : Rounding α)

/-- Coordinates in order in an arithmetic to which they are rounded are in order themselves. -/
theorem below_of_lt (converts : rounding.Converts) {low high : Coordinate}
    (typed : low.numeric = high.numeric)
    (spread : Arithmetic.lt (ofCoordinate low : α) (ofCoordinate high) = true) :
    low.below high = true := by
  rw [rounding.lt, converts, converts] at spread
  obtain ⟨lower, upper⟩ := LawfulArithmetic.number_of_le (LawfulArithmetic.le_of_lt spread)
  have number {coordinate : Coordinate}
      (valued : Arithmetic.isNaN (rounding.round (Exact.ofCoordinate coordinate)) = false) :
      coordinate.isNaN = false := by
    by_contra none
    rw [Exact.ofCoordinate_nan (by simpa using none), rounding.round_nan] at valued
    cases valued
  by_contra unordered
  have reversed : high.atMost low = true :=
    Coordinate.atMost_of_not_below (number upper) (number lower) (by simpa using unordered)
  have rounded := rounding.round_mono (Exact.ofCoordinate_mono typed.symm reversed)
  rw [LawfulArithmetic.not_le_of_lt spread] at rounded
  cases rounded

include rounding in
/-- A number multiplied by a positive finite one is a number. -/
theorem number_mul {x density : α} (number : Arithmetic.isNaN x = false)
    (finite : Arithmetic.isFinite density = true)
    (positive : Arithmetic.lt (Arithmetic.ofNat 0) density = true) :
    Arithmetic.isNaN (x * density) = false := by
  rw [rounding.isFinite] at finite
  rw [rounding.lt, rounding.value_zero] at positive
  rw [rounding.isNaN] at number ⊢
  rw [rounding.mul, Exact.isNaN_eq_false]
  apply rounding.round_number
  have valued := Exact.eq_finite finite
  rw [valued] at positive ⊢
  have above := Exact.lt_finite.mp positive
  cases read : rounding.value x with
  | nan =>
    rw [read] at number
    cases number
  | finite value => exact Exact.noConfusion
  | bottom =>
    have product : Exact.bottom * Exact.finite (rounding.value density).value = .bottom := by
      show Exact.beyond _ = _
      rw [Exact.beyond, if_neg (by linarith), if_pos (by linarith)]
    rw [product]
    exact Exact.noConfusion
  | top =>
    have product : Exact.top * Exact.finite (rounding.value density).value = .top := if_pos above
    rw [product]
    exact Exact.noConfusion

end Rounding

namespace Rounding

variable (rounding : Rounding α)

include rounding in
/-- Numbers are in order one way or the other. -/
theorem le_of_not_lt {x y : α} (left : Arithmetic.isNaN x = false)
    (right : Arithmetic.isNaN y = false) (unordered : Arithmetic.lt x y = false) :
    Arithmetic.le y x = true := by
  rw [rounding.isNaN, Exact.isNaN_eq_false] at left right
  rw [rounding.lt] at unordered
  rw [rounding.le]
  cases first : rounding.value x <;> cases second : rounding.value y <;>
    rw [first] at left unordered <;> rw [second] at right unordered <;>
    first
      | rfl
      | exact absurd rfl left
      | exact absurd rfl right
      | cases unordered
      | rw [← Bool.not_eq_true, Exact.lt_finite] at unordered
        exact Exact.le_finite.mpr (not_lt.mp unordered)

include rounding in
/-- The greater of two numbers is not below either of them, and is one of them. -/
theorem max_spec {x y : α} (left : Arithmetic.isNaN x = false)
    (right : Arithmetic.isNaN y = false) :
    Arithmetic.le x (Arithmetic.max x y) = true ∧ Arithmetic.le y (Arithmetic.max x y) = true ∧
      (Arithmetic.max x y = x ∨ Arithmetic.max x y = y) := by
  have own {z : α} (number : Arithmetic.isNaN z = false) : Arithmetic.le z z = true := by
    simpa [Arithmetic.isNaN] using number
  unfold Arithmetic.max
  rw [if_neg (by simp [left]), if_neg (by simp [right])]
  cases ordered : Arithmetic.lt x y with
  | true =>
    have below : Arithmetic.le x y = true := by
      rw [rounding.lt] at ordered
      rw [rounding.le]
      exact LawfulArithmetic.le_of_lt ordered
    exact ⟨below, own right, .inr rfl⟩
  | false => exact ⟨own left, rounding.le_of_not_lt left right ordered, .inl rfl⟩

include rounding in
/-- The width of a world range that is not empty is a number, and not negative. -/
theorem span_spec {axis : World.Axis}
    (spread : Arithmetic.lt (ofCoordinate axis.low : α) (ofCoordinate axis.high) = true) :
    Arithmetic.isNaN (axis.span : α) = false ∧
      Arithmetic.le (Arithmetic.ofNat 0 : α) axis.span = true := by
  rw [rounding.lt] at spread
  have positive := LawfulArithmetic.sub_pos spread
  have nonneg := LawfulArithmetic.le_of_lt positive
  have number := Exact.isNaN_eq_false.mp (LawfulArithmetic.number_of_le nonneg).2
  rw [Exact.zero_eq] at nonneg
  unfold World.Axis.span
  rw [rounding.isNaN, rounding.le, rounding.sub, rounding.value_zero, Exact.isNaN_eq_false]
  exact ⟨rounding.round_number number, rounding.round_nonneg nonneg⟩

end Rounding

namespace World

/-! ## Borders -/

/-- A power of two that is not below a number of cells, and the least one. -/
theorem leastPowerOfTwo_least (cells : Nat) :
    IsLeast {power | (∃ exponent, power = 2 ^ exponent) ∧ cells ≤ power}
      (leastPowerOfTwo cells) := by
  unfold leastPowerOfTwo
  split
  · rename_i few
    refine ⟨⟨⟨0, rfl⟩, few⟩, ?_⟩
    rintro power ⟨⟨exponent, rfl⟩, -⟩
    exact Nat.one_le_two_pow
  · rename_i many
    refine ⟨⟨⟨_, rfl⟩, ?_⟩, ?_⟩
    · have below : cells - 1 < 2 ^ ((cells - 1).log2 + 1) := Nat.lt_log2_self
      omega
    · rintro power ⟨⟨exponent, rfl⟩, above⟩
      have fits : (cells - 1).log2 < exponent := (Nat.log2_lt (by omega)).mpr (by omega)
      exact Nat.pow_le_pow_right (by omega) fits

/-- The least power of two not below a number of cells. -/
theorem leastPowerOfTwo_legal {cells : Nat} (least : Limits.leastBorder ≤ cells)
    (greatest : cells ≤ Limits.greatestBorder) :
    ∃ exponent, 3 ≤ exponent ∧ exponent ≤ 18 ∧ leastPowerOfTwo cells = 2 ^ exponent := by
  unfold Limits.leastBorder at least
  unfold Limits.greatestBorder at greatest
  have nonzero : cells - 1 ≠ 0 := by omega
  refine ⟨(cells - 1).log2 + 1, ?_, ?_, if_neg (by omega)⟩
  · have exponent : 2 ≤ (cells - 1).log2 := (Nat.le_log2 nonzero).mpr (by omega)
    omega
  · have exponent : (cells - 1).log2 < 18 := (Nat.log2_lt nonzero).mpr (by omega)
    omega

namespace Tree

variable {D : Nat}

/-- A border made from a number is legal. -/
theorem borderFor_legal {longest density : α}
    (number : isNaN (longest * density) = false) :
    Partition.Legal (borderFor longest density) := by
  unfold borderFor
  simp only [number, Bool.false_eq_true, if_false]
  obtain ⟨exponent, least, most, power⟩ := leastPowerOfTwo_legal
    (Nat.le_max_left Limits.leastBorder (min (ceil (longest * density)) Limits.greatestBorder))
    (by unfold Limits.leastBorder Limits.greatestBorder; omega)
  have bounded : 2 ^ exponent ≤ Limits.greatestBorder := Nat.pow_le_pow_right (by omega) most
  have grown : Limits.leastBorder ≤ 2 ^ exponent := Nat.pow_le_pow_right (by omega) least
  rw [power, Nat.min_eq_left bounded]
  exact ⟨by rw [Nat.log2_two_pow], grown, bounded⟩

/-- The border is the least power of two for the cells of the longest axis, inside the limits. -/
theorem borderFor_least {longest density : α} (number : isNaN (longest * density) = false) :
    IsLeast {border | (∃ exponent, border = 2 ^ exponent) ∧
        max Limits.leastBorder (min (ceil (longest * density)) Limits.greatestBorder) ≤ border}
      (borderFor longest density) := by
  obtain ⟨exponent, -, most, power⟩ := leastPowerOfTwo_legal
    (Nat.le_max_left Limits.leastBorder (min (ceil (longest * density)) Limits.greatestBorder))
    (by unfold Limits.leastBorder Limits.greatestBorder; omega)
  have bounded : 2 ^ exponent ≤ Limits.greatestBorder := Nat.pow_le_pow_right (by omega) most
  have least := leastPowerOfTwo_least
    (max Limits.leastBorder (min (ceil (longest * density)) Limits.greatestBorder))
  have made : borderFor longest density = leastPowerOfTwo
      (max Limits.leastBorder (min (ceil (longest * density)) Limits.greatestBorder)) := by
    simp only [borderFor, number, Bool.false_eq_true, if_false]
    exact Nat.min_eq_left (by rw [power]; exact bounded)
  rwa [made]

/-- The longest span is the greatest one, when no span is negative. -/
theorem longestSpan_spec (rounding : Rounding α) {axes : Vector Axis D} (some_axis : 0 < D)
    (spans : ∀ axis ∈ axes.toList,
      isNaN (axis.span : α) = false ∧ le (Arithmetic.ofNat 0 : α) axis.span = true) :
    (∀ axis ∈ axes.toList, le axis.span (longestSpan axes : α) = true) ∧
      ∃ axis ∈ axes.toList, le (longestSpan axes : α) axis.span = true := by
  have zero : isNaN (Arithmetic.ofNat 0 : α) = false := by
    rw [rounding.isNaN, rounding.value_zero]
    exact Exact.isNaN_eq_false.mpr Exact.noConfusion
  have own {z : α} (number : isNaN z = false) : le z z = true := by
    simpa [isNaN] using number
  have trans {x y z : α} (first : le x y = true) (second : le y z = true) : le x z = true := by
    rw [rounding.le] at first second ⊢
    exact LawfulArithmetic.le_trans first second
  have folds (start : α) (list : List Axis) (number : isNaN start = false)
      (numbers : ∀ axis ∈ list, isNaN (axis.span : α) = false) :
      le start (list.foldl (fun longest axis => Arithmetic.max longest axis.span) start) = true ∧
      (∀ axis ∈ list, le axis.span
        (list.foldl (fun longest axis => Arithmetic.max longest axis.span) start) = true) ∧
      (list.foldl (fun longest axis => Arithmetic.max longest axis.span) start = start ∨
        ∃ axis ∈ list,
          list.foldl (fun longest axis => Arithmetic.max longest axis.span) start = axis.span) := by
    induction list generalizing start with
    | nil =>
      refine ⟨own number, ?_, .inl rfl⟩
      intro axis member
      cases member
    | cons axis rest ih =>
      have here := numbers axis List.mem_cons_self
      obtain ⟨left, right, either⟩ := rounding.max_spec number here
      have greater : isNaN (Arithmetic.max start axis.span) = false := by
        rcases either with same | same <;> rw [same] <;> assumption
      obtain ⟨above, others, origin⟩ := ih (Arithmetic.max start axis.span) greater
        fun other member => numbers other (List.mem_cons_of_mem _ member)
      rw [List.foldl_cons]
      refine ⟨trans left above, ?_, ?_⟩
      · intro other member
        rcases List.mem_cons.mp member with rfl | later
        · exact trans right above
        · exact others other later
      · rcases origin with same | ⟨other, member, same⟩
        · rcases either with left | right
          · exact .inl (same.trans left)
          · exact .inr ⟨axis, List.mem_cons_self, same.trans right⟩
        · exact .inr ⟨other, List.mem_cons_of_mem _ member, same⟩
  obtain ⟨-, others, origin⟩ := folds (Arithmetic.ofNat 0) axes.toList zero
    fun axis member => (spans axis member).1
  refine ⟨others, ?_⟩
  rcases origin with same | ⟨axis, member, same⟩
  · have listed : axes[0] ∈ axes.toList := Vector.mem_toList_iff.mpr (Vector.getElem_mem some_axis)
    refine ⟨_, listed, ?_⟩
    unfold longestSpan
    rw [same]
    exact (spans _ listed).2
  · refine ⟨axis, member, ?_⟩
    unfold longestSpan
    rw [same]
    exact own (spans axis member).1

/-- The longest span is a number, since spans that are none are left out. -/
theorem longestSpan_number (zero : isNaN (ofNat 0 : α) = false) (axes : Vector Axis D) :
    isNaN (longestSpan axes : α) = false := by
  have greater {x y : α} (number : isNaN x = false) : isNaN (Arithmetic.max x y) = false := by
    unfold Arithmetic.max
    rw [if_neg (by simp [number])]
    split
    · exact number
    · rename_i other
      split
      · simpa using other
      · exact number
  unfold longestSpan
  generalize (ofNat 0 : α) = start at zero
  induction axes.toList generalizing start with
  | nil => exact zero
  | cons axis rest ih => exact ih _ (greater zero)

/-- A new tree has the type and the axes that it was made for, and the border of their longest
span. -/
theorem create_shape {numeric : Numeric} {axes : Vector Axis D} {config : Config}
    {tree : Tree α D} (created : create numeric axes config = .ok tree) :
    tree.numeric = numeric ∧ tree.axes = axes ∧
      tree.border = borderFor (longestSpan axes) (ofFloat config.density : α) := by
  unfold create at created
  simp only [Except.bind_eq_ok_iff] at created
  obtain ⟨_, -, partition, made, same⟩ := created
  obtain rfl := Except.ok.inj same
  exact ⟨rfl, rfl, (Partition.Tree.create_spec made).1⟩

/-- The border of a new tree is inside the limits. -/
theorem create_range {numeric : Numeric} {axes : Vector Axis D} {config : Config}
    {tree : Tree α D} (created : create numeric axes config = .ok tree) :
    Limits.leastBorder ≤ tree.border ∧ tree.border ≤ Limits.greatestBorder := by
  unfold create at created
  simp only [Except.bind_eq_ok_iff] at created
  obtain ⟨_, -, partition, made, same⟩ := created
  obtain rfl := Except.ok.inj same
  obtain ⟨border, -, -, range, -⟩ := Partition.Tree.create_spec made
  exact border ▸ range

/-- A tree can be made over one to three axes that pass their check. -/
theorem create_of_checked (rounding : Rounding α) {config : Config} (usable : config.Usable α)
    {numeric : Numeric} {axes : Vector Axis D} (dimensions : 1 ≤ D ∧ D ≤ Limits.dimensions)
    (checked : ∀ axis ∈ axes.toList, Axis.check numeric axis = .ok ()) :
    ∃ tree : Tree α D, create numeric axes config = .ok tree := by
  have passed : axes.toList.forM (Axis.check numeric) = .ok ⟨⟩ := Except.forM_of_ok checked
  have zero : isNaN (Arithmetic.ofNat 0 : α) = false := by
    rw [rounding.isNaN, rounding.value_zero]
    exact Exact.isNaN_eq_false.mpr Exact.noConfusion
  have legal := borderFor_legal
    (rounding.number_mul (longestSpan_number zero axes) usable.1 usable.2)
  obtain ⟨partition, made⟩ := Partition.Tree.exists_create (R := Key) dimensions legal
  unfold create
  simp only [passed, made, bind, Except.bind]
  exact ⟨_, rfl⟩

/-- A tree can be made over one to three accepted axes. -/
theorem create_succeeds (rounding : Rounding α) (converts : rounding.Converts) {config : Config}
    (usable : config.Usable α) {numeric : Numeric} {size : Nat} {axes : Vector Axis D}
    (dimensions : 1 ≤ D ∧ D ≤ Limits.dimensions)
    (accepted : ∀ axis ∈ axes.toList, axis.Accepted α numeric size) :
    ∃ tree : Tree α D, create numeric axes config = .ok tree := by
  refine create_of_checked rounding usable dimensions fun axis member => ?_
  obtain ⟨⟨⟨lowHolds, -⟩, highHolds, -⟩, ⟨low, high⟩, spread⟩ := accepted axis member
  have ordered := rounding.below_of_lt converts (low.trans high.symm) spread
  unfold Axis.check
  rw [if_neg (by simp [ordered]), if_pos ⟨lowHolds, highHolds⟩]

end Tree

end World

end SpatialIndex
