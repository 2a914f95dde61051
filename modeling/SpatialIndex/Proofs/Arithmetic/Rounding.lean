import SpatialIndex.Proofs.Arithmetic.Exact

/-!
# Rounded arithmetic

Binary floating point computes the exact result of an operation and rounds it. Rounding keeps order
and leaves alone what can be represented: no number, the infinities, the results of operations and
the natural numbers that fit a significand. Nothing is said about how near a rounded result is.
-/
namespace SpatialIndex

open Arithmetic

/-- How the operands of an arithmetic read as exact ones, and how results are rounded. -/
structure Rounding (α : Type) [Arithmetic α] where
  /-- The exact value of an operand. -/
  value : α → Exact
  /-- What an exact result is rounded to. -/
  round : Exact → Exact
  /-- Rounding keeps order. -/
  round_mono {x y : Exact} : le x y = true → le (round x) (round y) = true
  /-- A result that was rounded can be represented. -/
  round_value (x : α) : round (value x) = value x
  /-- What is no number can be represented. -/
  round_nan : round .nan = .nan
  /-- The lower infinity can be represented. -/
  round_bottom : round .bottom = .bottom
  /-- The upper infinity can be represented. -/
  round_top : round .top = .top
  /-- Natural numbers that fit a significand can be represented. -/
  round_nat {n : Nat} : n ≤ 2 ^ (53 : Nat) → round (.finite n) = .finite n
  /-- A sum is rounded. -/
  add (x y : α) : value (x + y) = round (value x + value y)
  /-- A difference is rounded. -/
  sub (x y : α) : value (x - y) = round (value x - value y)
  /-- A product is rounded. -/
  mul (x y : α) : value (x * y) = round (value x * value y)
  /-- A quotient is rounded; the quotients by the two zeros differ. -/
  div (x : α) {y : α} : isZero y = false → value (x / y) = round (value x / value y)
  /-- A natural number is rounded. -/
  ofNat {n : Nat} : n < 2 ^ (64 : Nat) → value (ofNat n) = round (.finite n)
  /-- Operands are compared by their values. -/
  lt (x y : α) : lt x y = lt (value x) (value y)
  /-- Operands are compared by their values. -/
  le (x y : α) : le x y = le (value x) (value y)
  /-- Operands are finite by their values. -/
  isFinite (x : α) : isFinite x = isFinite (value x)
  /-- Operands are rounded down by their values. -/
  floor (x : α) : floor x = floor (value x)

/-- Exact arithmetic does not round. -/
def Exact.rounding : Rounding Exact where
  value x := x
  round x := x
  round_mono := id
  round_value _ := rfl
  round_nan := rfl
  round_bottom := rfl
  round_top := rfl
  round_nat _ := rfl
  add _ _ := rfl
  sub _ _ := rfl
  mul _ _ := rfl
  div _ _ _ := rfl
  ofNat _ := rfl
  lt _ _ := rfl
  le _ _ := rfl
  isFinite _ := rfl
  floor _ := rfl

namespace Rounding

variable {α : Type} [Arithmetic α] (rounding : Rounding α)

/-! ## Values -/

include rounding in
/-- The order is transitive. -/
protected theorem le_trans {x y z : α} (first : Arithmetic.le x y = true) (second : Arithmetic.le y z = true) :
    Arithmetic.le x z = true := by
  rw [rounding.le] at first second ⊢
  exact LawfulArithmetic.le_trans first second

/-- A number is rounded to a number. -/
theorem round_number {x : Exact} (number : x ≠ .nan) : rounding.round x ≠ .nan := by
  have like : Arithmetic.le x x = true := by
    cases x with
    | nan => exact absurd rfl number
    | finite x => exact Exact.le_finite.mpr (le_refl x)
    | bottom | top => rfl
  intro none
  have rounded := rounding.round_mono like
  rw [none] at rounded
  cases rounded

/-- A natural number that fits a significand is exact. -/
theorem value_nat {n : Nat} (small : n ≤ 2 ^ (53 : Nat)) :
    rounding.value (Arithmetic.ofNat n) = .finite n := by
  rw [rounding.ofNat (by omega), rounding.round_nat small]

/-- The count zero has the value zero. -/
theorem value_zero : rounding.value (Arithmetic.ofNat 0) = .finite 0 := by
  rw [rounding.value_nat (Nat.zero_le _), Nat.cast_zero]

/-- Zero is left alone by rounding. -/
theorem round_zero : rounding.round (.finite 0) = .finite 0 := by
  rw [← rounding.value_zero, rounding.round_value]

/-- An operand is no number exactly when its value is none. -/
theorem isNaN (x : α) : Arithmetic.isNaN x = Arithmetic.isNaN (rounding.value x) := by
  unfold Arithmetic.isNaN
  rw [rounding.le]

/-- An operand is zero exactly when its value is. -/
theorem isZero (x : α) : Arithmetic.isZero x = Arithmetic.isZero (rounding.value x) := by
  unfold Arithmetic.isZero
  rw [rounding.le, rounding.le, rounding.value_zero, Exact.zero_eq]

/-- The greater of two operands has the greater value. -/
theorem value_max (x y : α) :
    rounding.value (Arithmetic.max x y) =
      Arithmetic.max (rounding.value x) (rounding.value y) := by
  unfold Arithmetic.max
  simp only [rounding.isNaN, rounding.lt]
  split
  · rfl
  · split
    · rfl
    · split <;> rfl

/-- The lesser of two operands has the lesser value. -/
theorem value_min (x y : α) :
    rounding.value (Arithmetic.min x y) =
      Arithmetic.min (rounding.value x) (rounding.value y) := by
  unfold Arithmetic.min
  simp only [rounding.isNaN, rounding.lt]
  split
  · rfl
  · split
    · rfl
    · split <;> rfl

/-- What is not negative is rounded to what is not negative. -/
theorem round_nonneg {x : Exact} (nonneg : Arithmetic.le (.finite 0) x = true) :
    Arithmetic.le (.finite 0) (rounding.round x) = true := by
  have rounded := rounding.round_mono nonneg
  rwa [rounding.round_zero] at rounded

/-- What is not positive is rounded to what is not positive. -/
theorem round_nonpos {x : Exact} (nonpos : Arithmetic.le x (.finite 0) = true) :
    Arithmetic.le (rounding.round x) (.finite 0) = true := by
  have rounded := rounding.round_mono nonpos
  rwa [rounding.round_zero] at rounded

/-- A sum with what is not negative is not below the other term. -/
theorem le_round_add {x y : Exact} (fixed : rounding.round x = x) (number : x ≠ .nan)
    (sum : x + y ≠ .nan) (nonneg : Arithmetic.le (.finite 0) y = true) :
    Arithmetic.le x (rounding.round (x + y)) = true := by
  have grown : Arithmetic.le x (x + y) = true := by
    cases x with
    | nan => exact absurd rfl number
    | bottom => cases y <;> first | rfl | exact absurd rfl sum
    | finite x =>
      cases y with
      | nan => cases nonneg
      | bottom => cases nonneg
      | finite y =>
        have positive := Exact.le_finite.mp nonneg
        rw [Exact.add_finite]
        exact Exact.le_finite.mpr (by linarith)
      | top => rfl
    | top => cases y <;> first | rfl | exact absurd rfl sum
  have rounded := rounding.round_mono grown
  rwa [fixed] at rounded

/-- A sum with what is not positive is not above the other term. -/
theorem round_add_le {x y : Exact} (fixed : rounding.round x = x) (number : x ≠ .nan)
    (sum : x + y ≠ .nan) (nonpos : Arithmetic.le y (.finite 0) = true) :
    Arithmetic.le (rounding.round (x + y)) x = true := by
  have shrunk : Arithmetic.le (x + y) x = true := by
    cases x with
    | nan => exact absurd rfl number
    | bottom => cases y <;> first | rfl | exact absurd rfl sum
    | finite x =>
      cases y with
      | nan => cases nonpos
      | bottom => rfl
      | finite y =>
        have negative := Exact.le_finite.mp nonpos
        rw [Exact.add_finite]
        exact Exact.le_finite.mpr (by linarith)
      | top => cases nonpos
    | top => cases y <;> first | rfl | exact absurd rfl sum
  have rounded := rounding.round_mono shrunk
  rwa [fixed] at rounded

/-! ## The laws -/

/-- Rounding does not make a number of what is none, nor the other way round. -/
theorem isNaN_round (x : Exact) :
    Arithmetic.isNaN (rounding.round x) = Arithmetic.isNaN x := by
  by_cases none : x = .nan
  · rw [none, rounding.round_nan]
  · rw [Exact.isNaN_eq_false.mpr none, Exact.isNaN_eq_false.mpr (rounding.round_number none)]

/-- An operand is infinite exactly when its value is. -/
theorem isInfinite (x : α) :
    Arithmetic.isInfinite x = Arithmetic.isInfinite (rounding.value x) := by
  unfold Arithmetic.isInfinite
  rw [rounding.isNaN, rounding.isFinite]

include rounding in
/-- A positive operand is not zero. -/
theorem isZero_of_pos {s : α} (positive : Arithmetic.lt (Arithmetic.ofNat 0) s = true) :
    Arithmetic.isZero s = false := by
  rw [rounding.lt, rounding.value_zero, ← Exact.zero_eq] at positive
  rw [rounding.isZero]
  unfold Arithmetic.isZero
  rw [LawfulArithmetic.not_le_of_lt positive, Bool.false_and]

include rounding in
/-- An infinite operand is not zero. -/
theorem isZero_of_infinite {s : α} (infinite : Arithmetic.isInfinite s = true) :
    Arithmetic.isZero s = false := by
  rw [rounding.isInfinite] at infinite
  rw [rounding.isZero]
  rcases Exact.isInfinite_iff.mp infinite with below | above
  · rw [below]
    rfl
  · rw [above]
    rfl

/-- A positive count is positive. -/
theorem value_count {n : Nat} (positive : 0 < n) (bounded : n < 2 ^ (64 : Nat))
    (finite : Arithmetic.isFinite (Arithmetic.ofNat n : α) = true) :
    ∃ count : ℚ, 0 < count ∧ rounding.value (Arithmetic.ofNat n) = .finite count := by
  rw [rounding.isFinite] at finite
  refine ⟨_, ?_, Exact.eq_finite finite⟩
  have least : Arithmetic.le (Exact.finite (1 : Nat)) (.finite n) = true :=
    Exact.le_finite.mpr (Nat.cast_le.mpr positive)
  have rounded := rounding.round_mono least
  rw [rounding.round_nat (by norm_num), ← rounding.ofNat bounded, Exact.eq_finite finite] at rounded
  have above := Exact.le_finite.mp rounded
  rw [Nat.cast_one] at above
  linarith only [above]

/-- A rounded arithmetic is lawful when it rounds coordinates, tells different numbers by their
difference, keeps what is no number when it is divided, and has a finite number for every count. -/
theorem lawful
    (converts : ∀ coordinate, rounding.value (Arithmetic.ofCoordinate coordinate) =
      rounding.round (Exact.ofCoordinate coordinate))
    (gradual : ∀ {x y : α}, Arithmetic.lt x y = true →
      Arithmetic.lt (Arithmetic.ofNat 0) (y - x) = true)
    (propagates : ∀ {x s : α}, Arithmetic.isNaN x = true → Arithmetic.isNaN (x / s) = true)
    (counts : ∀ {n : Nat}, n < 2 ^ (64 : Nat) →
      Arithmetic.isFinite (Arithmetic.ofNat n : α) = true) : LawfulArithmetic α where
  le_trans := rounding.le_trans
  number_of_le := by
    simp only [rounding.le, rounding.isNaN]
    exact LawfulArithmetic.number_of_le
  le_of_lt := by
    simp only [rounding.lt, rounding.le]
    exact LawfulArithmetic.le_of_lt
  not_le_of_lt := by
    simp only [rounding.lt, rounding.le]
    exact LawfulArithmetic.not_le_of_lt
  infinite_extreme {x} infinite := by
    rw [rounding.isInfinite] at infinite
    simp only [rounding.le, rounding.isNaN]
    exact (LawfulArithmetic.infinite_extreme infinite).imp (fun above y => above _)
      fun below y => below _
  convert_mono typed ordered := by
    rw [rounding.le, converts, converts]
    exact rounding.round_mono (Exact.ofCoordinate_mono typed ordered)
  sub_mono {x y c} ordered first second := by
    rw [rounding.isNaN, rounding.sub, rounding.isNaN_round] at first second
    rw [rounding.le] at ordered
    rw [rounding.le, rounding.sub, rounding.sub]
    exact rounding.round_mono (LawfulArithmetic.sub_mono ordered first second)
  sub_pos := gradual
  sub_nan {x c} none := by
    rw [rounding.isNaN] at none
    rw [rounding.isNaN, rounding.sub, rounding.isNaN_round]
    exact LawfulArithmetic.sub_nan none
  sub_number {x c} first second none := by
    rw [rounding.isNaN] at first second
    rw [rounding.isNaN, rounding.sub, rounding.isNaN_round] at none
    rw [rounding.isInfinite, rounding.le, rounding.le]
    exact LawfulArithmetic.sub_number first second none
  sub_infinite {x c} infinite upper lower := by
    rw [rounding.isInfinite] at infinite
    rw [rounding.le] at upper lower
    rw [rounding.isNaN, rounding.sub, rounding.isNaN_round]
    exact LawfulArithmetic.sub_infinite infinite upper lower
  div_mono {x y s} positive ordered first second := by
    have divides := rounding.isZero_of_pos positive
    rw [rounding.isNaN, rounding.div _ divides, rounding.isNaN_round] at first second
    rw [rounding.lt, rounding.value_zero, ← Exact.zero_eq] at positive
    rw [rounding.le] at ordered
    rw [rounding.le, rounding.div _ divides, rounding.div _ divides]
    exact rounding.round_mono (LawfulArithmetic.div_mono positive ordered first second)
  div_nan := propagates
  div_number {x s} positive number none := by
    rw [rounding.isNaN, rounding.div _ (rounding.isZero_of_pos positive), rounding.isNaN_round]
      at none
    rw [rounding.lt, rounding.value_zero, ← Exact.zero_eq] at positive
    rw [rounding.isNaN] at number
    rw [rounding.isInfinite, rounding.isInfinite]
    exact LawfulArithmetic.div_number positive number none
  infinite_div {x s} first second := by
    have divides := rounding.isZero_of_infinite second
    rw [rounding.isInfinite] at first second
    rw [rounding.isNaN, rounding.div _ divides, rounding.isNaN_round]
    exact LawfulArithmetic.infinite_div first second
  div_infinite {x s} finite infinite := by
    have divides := rounding.isZero_of_infinite infinite
    rw [rounding.isFinite] at finite
    rw [rounding.isInfinite] at infinite
    have quotient : rounding.value x / rounding.value s = .finite 0 := by
      rw [Exact.eq_finite finite]
      rcases Exact.isInfinite_iff.mp infinite with below | above
      · rw [below]
        rfl
      · rw [above]
        rfl
    rw [rounding.isZero, rounding.div _ divides, quotient, rounding.round_zero]
    exact Exact.isZero_finite.mpr rfl
  mul_mono {x y n} positive bounded ordered := by
    obtain ⟨count, above, value⟩ := rounding.value_count positive bounded (counts bounded)
    rw [rounding.le] at ordered
    rw [rounding.le, rounding.mul, rounding.mul, value]
    exact rounding.round_mono (Exact.mul_positive_mono above ordered)
  mul_nan {x c} none := by
    rw [rounding.isNaN] at none
    rw [rounding.isNaN, rounding.mul, rounding.isNaN_round]
    exact LawfulArithmetic.mul_nan none
  zero_mul {n} bounded := by
    have finite := counts bounded
    rw [rounding.isFinite] at finite
    rw [rounding.le, rounding.mul, rounding.value_zero, Exact.eq_finite finite, Exact.mul_finite,
      zero_mul, rounding.round_zero]
    rfl
  floor_mono {x y} ordered := by
    rw [rounding.le] at ordered
    rw [rounding.floor, rounding.floor]
    exact LawfulArithmetic.floor_mono ordered
  floor_zero := by
    rw [rounding.floor, rounding.value_zero]
    exact LawfulArithmetic.floor_zero
  floor_nan {x} none := by
    rw [rounding.isNaN] at none
    rw [rounding.floor]
    exact LawfulArithmetic.floor_nan none

end Rounding

end SpatialIndex
