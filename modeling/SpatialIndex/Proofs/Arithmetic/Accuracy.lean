import SpatialIndex.Proofs.Arithmetic.Rounding

/-!
# Accurate arithmetic

Order alone does not say how far a rounded result is from the exact one. Binary floating point is
accurate: the relative error of a result that is not tiny is small, tiny differences are exact, and
so is dividing by powers of two as long as the quotient is not tiny. These facts of the format do not
depend on the direction of rounding. Order and accuracy together keep a point that moves for less than
the while to a side on its own side.
-/
namespace SpatialIndex

namespace Exact

/-! ## Operands on the way to others -/

/-- Whether one comes past an operand on the way from zero to another one. -/
def Spans (far near : Exact) : Prop :=
  Arithmetic.le (finite 0) near = true ∧ Arithmetic.le near far = true ∨
    Arithmetic.le far near = true ∧ Arithmetic.le near (finite 0) = true

/-- Between finite operands the order of numbers decides, on either side of zero. -/
theorem spans_finite {b a : ℚ} :
    Spans (finite b) (finite a) ↔ 0 ≤ a ∧ a ≤ b ∨ b ≤ a ∧ a ≤ 0 := by
  unfold Spans
  simp only [le_finite]

/-- What is on the way to a finite operand is finite. -/
theorem Spans.finite {b : ℚ} {x : Exact} (spans : Spans (finite b) x) : ∃ a, x = finite a := by
  rcases spans with ⟨low, high⟩ | ⟨low, high⟩
  all_goals
    obtain ⟨a, same, -⟩ := finite_of_between low high
    exact ⟨a, same⟩

/-- A part of a number is on the way to it. -/
theorem spans_of_part {b s : ℚ} (least : 0 ≤ s) (most : s ≤ 1) :
    Spans (Exact.finite b) (.finite (b * s)) := by
  rcases le_total 0 b with up | down
  · exact spans_finite.mpr (.inl ⟨mul_nonneg up least, mul_le_of_le_one_right up most⟩)
  · refine spans_finite.mpr (.inr ⟨?_, mul_nonpos_of_nonpos_of_nonneg down least⟩)
    linarith only [mul_le_of_le_one_right (neg_nonneg.mpr down) most]

/-- What is on the way to a number is a part of it. -/
theorem Spans.exists_part {b a : ℚ} (spans : Spans (Exact.finite b) (.finite a)) :
    ∃ s, 0 ≤ s ∧ s ≤ 1 ∧ a = b * s := by
  by_cases zero : b = 0
  · refine ⟨0, le_refl 0, zero_le_one, ?_⟩
    rcases spans_finite.mp spans with ⟨low, high⟩ | ⟨low, high⟩ <;> linarith only [low, high, zero]
  · refine ⟨a / b, ?_, ?_, (mul_div_cancel₀ a zero).symm⟩
    · rcases spans_finite.mp spans with ⟨low, high⟩ | ⟨low, high⟩
      · exact div_nonneg low (le_trans low high)
      · exact div_nonneg_of_nonpos high (le_trans low high)
    · rcases spans_finite.mp spans with ⟨low, high⟩ | ⟨low, high⟩
      · exact div_le_one_of_le₀ high (le_trans low high)
      · rw [← neg_div_neg_eq]
        exact div_le_one_of_le₀ (neg_le_neg low) (neg_nonneg.mpr (le_trans low high))

/-- What is on the way to an operand is on the way to what lies beyond it. -/
theorem Spans.trans {far middle near : Exact} (first : Spans far middle)
    (second : Spans middle near) : Spans far near := by
  rcases first with ⟨above, most⟩ | ⟨least, below⟩
  · rcases second with ⟨low, high⟩ | ⟨low, high⟩
    · exact .inl ⟨low, LawfulArithmetic.le_trans high most⟩
    · have positive := LawfulArithmetic.le_trans above low
      exact .inl ⟨positive, LawfulArithmetic.le_trans (LawfulArithmetic.le_trans high above) most⟩
  · rcases second with ⟨low, high⟩ | ⟨low, high⟩
    · have negative := LawfulArithmetic.le_trans high below
      exact .inr ⟨LawfulArithmetic.le_trans least (LawfulArithmetic.le_trans below low), negative⟩
    · exact .inr ⟨LawfulArithmetic.le_trans least low, high⟩

/-- A finite factor keeps a number on the way. -/
theorem Spans.mul {b a : ℚ} (spans : Spans (Exact.finite b) (.finite a)) (factor : ℚ) :
    Spans (.finite (b * factor)) (.finite (a * factor)) := by
  obtain ⟨s, least, most, rfl⟩ := spans.exists_part
  rw [mul_right_comm]
  exact spans_of_part least most

/-- The square of what is on the way to an operand is not above that of the operand. -/
theorem Spans.square_le {far near : Exact} (spans : Spans far near) :
    Arithmetic.le (.finite 0) (near * near) = true ∧
      Arithmetic.le (near * near) (far * far) = true := by
  rcases spans with ⟨low, high⟩ | ⟨low, high⟩
  · cases near with
    | nan | bottom => cases low
    | finite a =>
      refine ⟨le_finite.mpr (mul_self_nonneg a), ?_⟩
      cases far with
      | nan | bottom => cases high
      | finite b => exact le_finite.mpr (mul_self_le_mul_self (le_finite.mp low) (le_finite.mp high))
      | top => rfl
    | top =>
      cases far with
      | nan | bottom | finite => cases high
      | top => exact ⟨rfl, rfl⟩
  · cases near with
    | nan | top => cases high
    | finite a =>
      refine ⟨le_finite.mpr (mul_self_nonneg a), ?_⟩
      cases far with
      | nan | top => cases low
      | finite b =>
        have squares := mul_self_le_mul_self (neg_nonneg.mpr (le_finite.mp high))
          (neg_le_neg (le_finite.mp low))
        rw [neg_mul_neg, neg_mul_neg] at squares
        exact le_finite.mpr squares
      | bottom => rfl
    | bottom =>
      cases far with
      | nan | top | finite => cases low
      | bottom => exact ⟨rfl, rfl⟩

/-! ## Operands that are not negative -/

/-- Sums of operands that are not negative are in the order of their terms. -/
theorem add_mono {x y z w : Exact} (first : Arithmetic.le (finite 0) x = true)
    (second : Arithmetic.le (finite 0) y = true) (grows : Arithmetic.le x z = true)
    (more : Arithmetic.le y w = true) : Arithmetic.le (x + y) (z + w) = true := by
  have infinite : Arithmetic.le (x + y) top = true := by
    have nonneg := Exact.add_nonneg first second
    generalize x + y = sum at nonneg
    cases sum with
    | nan | bottom => cases nonneg
    | finite | top => rfl
  have above := LawfulArithmetic.le_trans first grows
  have beyond := LawfulArithmetic.le_trans second more
  cases z with
  | nan | bottom => cases above
  | finite c =>
    cases w with
    | nan | bottom => cases beyond
    | finite d =>
      obtain ⟨a, rfl, -, least⟩ := finite_of_between first grows
      obtain ⟨b, rfl, -, less⟩ := finite_of_between second more
      exact le_finite.mpr (add_le_add least less)
    | top => exact infinite
  | top =>
    cases w with
    | nan | bottom => cases beyond
    | finite | top => exact infinite

/-- A positive count is not above an operand rounded down when it is not above the operand. -/
theorem le_floor_iff {n : Nat} {x : Exact} (positive : 0 < n) (small : n ≤ greatestFloor) :
    n ≤ Arithmetic.floor x ↔ Arithmetic.le (finite n) x = true := by
  cases x with
  | nan | bottom => exact iff_of_false (Nat.not_le.mpr positive) Bool.false_ne_true
  | top => exact iff_of_true small rfl
  | finite x =>
    show n ≤ min ⌊x⌋.toNat greatestFloor ↔ _
    rw [le_finite, ← Int.cast_natCast, ← Int.le_floor]
    omega

/-- A positive finite divisor changes no infinity. -/
theorem div_positive {divisor : ℚ} (positive : 0 < divisor) (x : Exact) : x / finite divisor =
    match x with
    | finite value => finite (value / divisor)
    | other => other := by
  cases x with
  | nan => rfl
  | bottom | top => exact if_neg (not_lt.mpr (le_of_lt positive))
  | finite value => exact div_finite value (ne_of_gt positive)

/-- A quotient by a positive divisor is compared as the dividend is. -/
theorem le_div_iff {divisor y : ℚ} (positive : 0 < divisor) {x : Exact} :
    Arithmetic.le (finite y) (x / finite divisor) = true ↔
      Arithmetic.le (finite (y * divisor)) x = true := by
  rw [div_positive positive]
  cases x with
  | nan | bottom | top => exact Iff.rfl
  | finite x => rw [le_finite, le_finite, le_div_iff₀ positive]

end Exact

namespace Rounding

variable {α : Type} [Arithmetic α]

/-! ## Accuracy -/

/-- The least positive number with a whole significand. -/
def leastNormal : ℚ := 2 ^ (-1022 : ℤ)

/-- The greatest relative error of a result that is not tiny. -/
def unitError : ℚ := 1 / 2 ^ (52 : Nat)

/-- What binary floating point keeps to besides order, whichever way it rounds. -/
structure Accurate (rounding : Rounding α) : Prop where
  /-- A finite result that is not tiny has a small relative error. -/
  near {x y : ℚ} : leastNormal ≤ |x| → rounding.round (.finite x) = .finite y →
    |y - x| ≤ unitError * |x|
  /-- The least number that is not tiny can be represented. -/
  normal : rounding.round (.finite leastNormal) = .finite leastNormal
  /-- A tiny difference of finite operands can be represented. -/
  tiny_sub {x y : ℚ} : rounding.round (.finite x) = .finite x →
    rounding.round (.finite y) = .finite y → |x - y| ≤ leastNormal →
    rounding.round (.finite (x - y)) = .finite (x - y)
  /-- No finite operand is so great that its difference from a natural number overflows. -/
  nat_sub {n : Nat} {x : ℚ} : n ≤ 2 ^ (53 : Nat) → rounding.round (.finite x) = .finite x →
    ∃ y, rounding.round (.finite (n - x)) = .finite y
  /-- Half a finite operand can be represented unless it is tiny. -/
  half {x : ℚ} : rounding.round (.finite x) = .finite x → leastNormal ≤ |x / 2| →
    rounding.round (.finite (x / 2)) = .finite (x / 2)

end Rounding

/-- Exact arithmetic has no errors at all. -/
theorem Exact.accurate : Exact.rounding.Accurate where
  near _ same := by
    cases same
    rw [sub_self, abs_zero]
    exact mul_nonneg (by norm_num [Rounding.unitError]) (abs_nonneg _)
  normal := rfl
  tiny_sub _ _ _ := rfl
  nat_sub _ _ := ⟨_, rfl⟩
  half _ _ := rfl

namespace Rounding

variable {α : Type} [Arithmetic α] (rounding : Rounding α)

/-- The least size that is not tiny is positive. -/
theorem leastNormal_pos : 0 < leastNormal := zpow_pos (by norm_num) _

/-- The relative error is not negative. -/
theorem unitError_nonneg : 0 ≤ unitError := by norm_num [unitError]

/-- Tiny numbers are far below all others that occur here. -/
theorem leastNormal_le : leastNormal ≤ 1 / 2 ^ (100 : Nat) := by
  rw [one_div, ← zpow_natCast, ← zpow_neg]
  exact zpow_le_zpow_right₀ (by norm_num) (by norm_num)

/-- A sum of operands that are not negative is rounded to a finite one only when both are finite. -/
theorem finite_of_round_add {x y : Exact} {bound : ℚ} (first : Arithmetic.le (.finite 0) x = true)
    (second : Arithmetic.le (.finite 0) y = true)
    (finite : rounding.round (x + y) = .finite bound) :
    ∃ a b : ℚ, x = .finite a ∧ y = .finite b ∧ 0 ≤ a ∧ 0 ≤ b := by
  have infinite : x + y ≠ .top := by
    intro same
    rw [same, rounding.round_top] at finite
    cases finite
  cases x with
  | nan | bottom => cases first
  | finite a =>
    cases y with
    | nan | bottom => cases second
    | finite b => exact ⟨a, b, rfl, rfl, Exact.le_finite.mp first, Exact.le_finite.mp second⟩
    | top => exact absurd rfl infinite
  | top =>
    cases y with
    | nan | bottom => cases second
    | finite | top => exact absurd rfl infinite

/-- Rounding keeps operands on the way to others. -/
theorem spans_round {far near : Exact} (spans : Exact.Spans far near) :
    Exact.Spans (rounding.round far) (rounding.round near) := by
  rcases spans with ⟨low, high⟩ | ⟨low, high⟩
  · exact .inl ⟨rounding.round_nonneg low, rounding.round_mono high⟩
  · exact .inr ⟨rounding.round_mono low, rounding.round_nonpos high⟩

namespace Accurate

variable {rounding} (accurate : rounding.Accurate)

include accurate

/-- A result that is not tiny is rounded by a factor near one. -/
theorem exists_factor {x y : ℚ} (large : leastNormal ≤ |x|)
    (same : rounding.round (.finite x) = .finite y) :
    ∃ error, |error| ≤ unitError ∧ y = x * (1 + error) := by
  have positive : 0 < |x| := lt_of_lt_of_le leastNormal_pos large
  have nonzero : x ≠ 0 := abs_pos.mp positive
  refine ⟨(y - x) / x, ?_, ?_⟩
  · rw [abs_div, div_le_iff₀ positive]
    exact accurate.near large same
  · rw [mul_add, mul_one, mul_div_cancel₀ _ nonzero, add_sub_cancel]

/-- A positive result that is not tiny is rounded down by little. -/
theorem le_rounded {x y : ℚ} (large : leastNormal ≤ x)
    (same : rounding.round (.finite x) = .finite y) : x * (1 - unitError) ≤ y := by
  have positive := lt_of_lt_of_le leastNormal_pos large
  have error := accurate.near (le_of_le_of_eq large (abs_of_pos positive).symm) same
  rw [abs_of_pos positive] at error
  linarith only [(abs_le.mp error).1]

/-- The two numbers of the least size that is not tiny can be represented. -/
theorem round_normal {x : ℚ} (size : |x| = leastNormal) :
    rounding.round (.finite x) = .finite x := by
  rcases abs_eq (le_of_lt leastNormal_pos) |>.mp size with rfl | rfl
  · exact accurate.normal
  · have opposite := accurate.tiny_sub rounding.round_zero accurate.normal (by
      rw [zero_sub, abs_neg, abs_of_pos leastNormal_pos])
    rwa [zero_sub] at opposite

/-! ## Moves towards a side -/

/-- A tiny part of a number that is not tiny is rounded to a part of it. -/
theorem spans_round_tiny {b s : ℚ} (large : leastNormal ≤ |b|) (nonneg : 0 ≤ s)
    (tiny : |b * s| ≤ leastNormal) :
    Exact.Spans (.finite b) (rounding.round (.finite (b * s))) := by
  have normal := leastNormal_pos
  have size := lt_of_lt_of_le normal large
  -- the number of the least size that is not tiny, on the side of `b`
  have least : 0 ≤ leastNormal / |b| := div_nonneg (le_of_lt normal) (le_of_lt size)
  have fixed : rounding.round (.finite (b * (leastNormal / |b|))) =
      .finite (b * (leastNormal / |b|)) :=
    accurate.round_normal (by rw [abs_mul, abs_of_nonneg least, mul_div_cancel₀ _ (ne_of_gt size)])
  have outer : Exact.Spans (.finite b) (.finite (b * (leastNormal / |b|))) :=
    Exact.spans_of_part least (div_le_one_of_le₀ large (le_of_lt size))
  have part : b * s = b * (leastNormal / |b|) * (|b * s| / leastNormal) := by
    rw [abs_mul, abs_of_nonneg nonneg]
    field_simp [ne_of_gt normal]
  have inner : Exact.Spans (.finite (b * (leastNormal / |b|))) (.finite (b * s)) := by
    rw [part]
    exact Exact.spans_of_part (div_nonneg (abs_nonneg _) (le_of_lt normal))
      (div_le_one_of_le₀ tiny (le_of_lt normal))
  have rounds := rounding.spans_round inner
  rw [fixed] at rounds
  exact outer.trans rounds

/-- A part that falls short of a number by the relative error is rounded to a part of it. -/
theorem spans_round_part {b b' s : ℚ} (large : leastNormal ≤ |b|)
    (finite : rounding.round (.finite b) = .finite b') (nonneg : 0 ≤ s)
    (short : s * (1 + unitError) ≤ 1) :
    Exact.Spans (.finite b) (rounding.round (.finite (b * s))) := by
  by_cases tiny : |b * s| ≤ leastNormal
  · exact accurate.spans_round_tiny large nonneg tiny
  · have most : s ≤ 1 := by
      have grown := mul_nonneg nonneg unitError_nonneg
      linarith only [short, grown]
    have spans := rounding.spans_round (Exact.spans_of_part (b := b) nonneg most)
    rw [finite] at spans
    obtain ⟨y, same⟩ := spans.finite
    obtain ⟨error, bound, rfl⟩ := accurate.exists_factor (le_of_not_ge tiny) same
    obtain ⟨low, high⟩ := abs_le.mp bound
    rw [same, mul_assoc]
    refine Exact.spans_of_part (mul_nonneg nonneg ?_) ?_
    · unfold unitError at low
      linarith only [low]
    · exact le_trans (mul_le_mul_of_nonneg_left (by linarith only [high]) nonneg) short

/-- A product that falls short of a distance by a margin does so when both are rounded. -/
theorem spans_product {distance rounded velocity elapsed arrival : ℚ}
    (differs : rounding.round (.finite distance) = .finite rounded)
    (tiny : |distance| ≤ leastNormal → rounded = distance)
    (arrives : rounded = velocity * arrival) (nonneg : 0 ≤ elapsed) (positive : 0 < arrival)
    (margin : elapsed * (1 + 1 / 2 ^ (31 : Nat)) ≤ arrival) :
    Exact.Spans (.finite distance) (rounding.round (.finite (velocity * elapsed))) := by
  have product : velocity * elapsed = rounded * (elapsed / arrival) := by
    rw [arrives, mul_assoc, mul_div_cancel₀ _ (ne_of_gt positive)]
  have least : 0 ≤ elapsed / arrival := div_nonneg nonneg (le_of_lt positive)
  have most : elapsed / arrival * (1 + 1 / 2 ^ (31 : Nat)) ≤ 1 := by
    rw [div_mul_eq_mul_div]
    exact div_le_one_of_le₀ margin (le_of_lt positive)
  rw [product]
  generalize elapsed / arrival = s at least most
  by_cases small : |distance| ≤ leastNormal
  · -- the distance is exact, and rounding keeps the product on the way to it
    obtain rfl := tiny small
    have whole : s ≤ 1 := by linarith only [least, most]
    have spans := rounding.spans_round (Exact.spans_of_part (b := rounded) least whole)
    rwa [differs] at spans
  · have large := le_of_not_ge small
    obtain ⟨error, bound, rfl⟩ := accurate.exists_factor large differs
    obtain ⟨low, high⟩ := abs_le.mp bound
    have grown : (1 + error) * (1 + unitError) ≤ 1 + 1 / 2 ^ (31 : Nat) := by
      unfold unitError at high ⊢
      nlinarith only [high]
    rw [mul_assoc]
    refine accurate.spans_round_part large differs (mul_nonneg ?_ least) ?_
    · unfold unitError at low
      linarith only [low]
    · calc (1 + error) * s * (1 + unitError) = s * ((1 + error) * (1 + unitError)) := by ring
        _ ≤ s * (1 + 1 / 2 ^ (31 : Nat)) := mul_le_mul_of_nonneg_left grown least
        _ ≤ 1 := most

/-! ## Cells of a power of two -/

/-- A finite operand divided by a power of two can be represented unless it is tiny. -/
theorem round_div_power {x : ℚ} (fixed : rounding.round (.finite x) = .finite x) (e : Nat)
    (large : leastNormal ≤ |x / 2 ^ e|) :
    rounding.round (.finite (x / 2 ^ e)) = .finite (x / 2 ^ e) := by
  induction e with
  | zero => rwa [pow_zero, div_one]
  | succ e ih =>
    have halved : x / 2 ^ (e + 1) = x / 2 ^ e / 2 := by rw [pow_succ, div_div]
    rw [halved] at large ⊢
    refine accurate.half (ih ?_) large
    rw [abs_div, abs_two] at large
    linarith only [large, abs_nonneg (x / 2 ^ e)]

/-- Rounding down a rounded quotient by a power of two counts the parts up to the operand. -/
theorem le_floor_div_iff {n width : Nat} {x : Exact} (positive : 0 < n)
    (small : n ≤ Exact.greatestFloor) (power : ∃ e, width = 2 ^ e)
    (fixed : rounding.round x = x) :
    n ≤ Arithmetic.floor (rounding.round (x / .finite width)) ↔
      Arithmetic.le (.finite (n * width)) x = true := by
  obtain ⟨e, rfl⟩ := power
  have wide : (0 : ℚ) < (2 ^ e : Nat) := Nat.cast_pos.mpr (Nat.two_pow_pos e)
  have count : rounding.round (.finite n) = .finite n :=
    rounding.round_nat (Nat.le_trans small (by decide))
  rw [Exact.le_floor_iff positive small, ← Exact.le_div_iff wide]
  constructor
  · intro reached
    cases x with
    | nan | bottom | top =>
      rw [Exact.div_positive wide] at reached ⊢
      simp only [fixed] at reached ⊢
      exact reached
    | finite x =>
      rw [Exact.div_finite _ (ne_of_gt wide), Nat.cast_pow, Nat.cast_ofNat] at reached ⊢
      rcases le_total leastNormal |x / 2 ^ e| with large | tiny
      · rwa [accurate.round_div_power fixed e large] at reached
      · -- a tiny quotient is rounded to a tiny one, so it does not reach a count
        have bounded := rounding.round_mono (Exact.le_finite.mpr (le_trans (le_abs_self _) tiny))
        rw [accurate.normal] at bounded
        have absurd := Exact.le_finite.mp (LawfulArithmetic.le_trans reached bounded)
        have least : (1 : ℚ) ≤ n := Nat.one_le_cast.mpr positive
        have low : (1 : ℚ) / 2 ^ (100 : Nat) < 1 := by norm_num
        linarith only [absurd, least, low, leastNormal_le]
  · intro reached
    have rounds := rounding.round_mono reached
    rwa [count] at rounds

end Accurate

end Rounding

end SpatialIndex
