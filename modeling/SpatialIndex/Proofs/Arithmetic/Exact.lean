import Mathlib.Algebra.BigOperators.Fin
import Mathlib.Algebra.Order.Field.Rat
import Mathlib.Algebra.Order.Field.Power
import Mathlib.Data.Rat.Floor
import Mathlib.Tactic.Linarith
import SpatialIndex.Proofs.Arithmetic.Laws

/-!
# Exact arithmetic

Rational numbers with two infinities and an operand that is no number. Nothing is rounded but
what is rounded down on purpose, so the arithmetic is lawful once the values of binary patterns
are known to be in the order of their ranks.
-/
namespace SpatialIndex

open Decimal (BinaryFormat)

/-- A rational number, an infinity, or no number. -/
inductive Exact
  /-- No number. -/
  | nan
  /-- The infinity below all numbers. -/
  | bottom
  /-- A finite number. -/
  | finite (value : ℚ)
  /-- The infinity above all numbers. -/
  | top
deriving DecidableEq

namespace Exact

/-! ## Operations -/

/-- The sum. -/
def add : Exact → Exact → Exact
  | nan, _ | _, nan | top, bottom | bottom, top => nan
  | top, _ | _, top => top
  | bottom, _ | _, bottom => bottom
  | finite x, finite y => finite (x + y)

/-- The opposite. -/
def neg : Exact → Exact
  | nan => nan
  | bottom => top
  | finite x => finite (-x)
  | top => bottom

/-- The infinity on the side of a number; none for zero. -/
def beyond (x : ℚ) : Exact := if 0 < x then top else if x < 0 then bottom else nan

/-- The product. -/
def mul : Exact → Exact → Exact
  | nan, _ | _, nan => nan
  | finite x, finite y => finite (x * y)
  | top, finite x | finite x, top => beyond x
  | bottom, finite x | finite x, bottom => beyond (-x)
  | top, top | bottom, bottom => top
  | top, bottom | bottom, top => bottom

/-- The quotient. -/
def div : Exact → Exact → Exact
  | nan, _ | _, nan => nan
  | finite x, finite y => if y = 0 then beyond x else finite (x / y)
  | finite _, _ => finite 0
  | top, finite y => if y < 0 then bottom else top
  | bottom, finite y => if y < 0 then top else bottom
  | _, _ => nan

/-- The order. -/
def le : Exact → Exact → Bool
  | nan, _ | _, nan => false
  | bottom, _ | _, top => true
  | finite x, finite y => decide (x ≤ y)
  | _, _ => false

/-- The value of a binary pattern. -/
def ofPattern (format : BinaryFormat) (bits : Nat) : Exact :=
  match format.read bits with
  | .nan => nan
  | .infinite negative => if negative then bottom else top
  | .finite negative significand exponent =>
    let size : ℚ := significand * (2 : ℚ) ^ exponent
    finite (if negative then -size else size)

/-- The value of a coordinate. -/
def ofCoordinate (coordinate : Coordinate) : Exact :=
  match coordinate.numeric.encoding with
  | .signed => finite coordinate.bits.toInt
  | .unsigned => finite coordinate.bits.toNat
  | .binary format => ofPattern format coordinate.bits.toNat

/-- The bound of what rounding down gives. -/
def greatestFloor : Nat := 0xffffffff

/-- Round down to a natural number. -/
def floor : Exact → Nat
  | finite x => min ⌊x⌋.toNat greatestFloor
  | top => greatestFloor
  | _ => 0

/-- Exact numbers are computed with as doubles are, but nothing is rounded. -/
instance : Arithmetic Exact where
  add := add
  sub x y := add x (neg y)
  mul := mul
  div := div
  ofNat n := finite n
  ofCoordinate := ofCoordinate
  ofFloat x := ofPattern .double x.toBits.toNat
  lt x y := le x y && !le y x
  le := le
  isFinite
    | finite _ => true
    | _ => false
  floor := floor
  infinity := top

/-! ## Binary patterns in order -/

/-- The size of a pattern with the given magnitude, in steps of the least size. -/
def steps (format : BinaryFormat) (magnitude : Nat) : Nat :=
  let fraction := magnitude % 2 ^ format.fractionBits
  let biased := magnitude / 2 ^ format.fractionBits
  if biased = 0 then fraction else (2 ^ format.fractionBits + fraction) * 2 ^ (biased - 1)

/-- The magnitude zero has no steps. -/
theorem steps_zero (format : BinaryFormat) : steps format 0 = 0 := by
  simp [steps]

/-- A greater magnitude has no fewer steps: a greater exponent makes up for any fraction. -/
theorem steps_mono (format : BinaryFormat) {first second : Nat} (ordered : first ≤ second) :
    steps format first ≤ steps format second := by
  unfold steps
  have positive : 0 < 2 ^ format.fractionBits := Nat.two_pow_pos _
  generalize 2 ^ format.fractionBits = unit at positive
  have exponents : first / unit ≤ second / unit := Nat.div_le_div_right ordered
  have split := Nat.div_add_mod first unit
  have splitSecond := Nat.div_add_mod second unit
  have bounded := Nat.mod_lt first positive
  simp only
  generalize first / unit = biased, first % unit = fraction at *
  generalize second / unit = further, second % unit = rest at *
  by_cases same : biased = further
  · have fractions : fraction ≤ rest := by
      rw [same] at split
      omega
    rw [same]
    by_cases small : further = 0
    · rw [if_pos small, if_pos small]
      exact fractions
    · rw [if_neg small, if_neg small]
      exact Nat.mul_le_mul_right _ (by omega)
  · rw [if_neg (by omega : further ≠ 0)]
    have scale : unit * 2 ^ (further - 1) ≤ (unit + rest) * 2 ^ (further - 1) :=
      Nat.mul_le_mul_right _ (by omega)
    apply Nat.le_trans _ scale
    by_cases small : biased = 0
    · rw [if_pos small]
      exact Nat.le_trans (Nat.le_of_lt bounded) (Nat.le_mul_of_pos_right _ (Nat.two_pow_pos _))
    · rw [if_neg small]
      have double : (unit + fraction) * 2 ^ (biased - 1) ≤ unit * 2 * 2 ^ (biased - 1) :=
        Nat.mul_le_mul_right _ (by omega)
      have grown : 2 * 2 ^ (biased - 1) ≤ 2 ^ (further - 1) := by
        rw [← Nat.pow_succ']
        exact Nat.pow_le_pow_right (by omega) (by omega)
      rw [Nat.mul_assoc] at double
      exact Nat.le_trans double (Nat.mul_le_mul_left _ grown)

/-- The value of the finite pattern of a rank. -/
def sized (format : BinaryFormat) (rank : Int) : ℚ :=
  let size : ℚ := steps format rank.natAbs * (2 : ℚ) ^ format.leastExponent
  if rank < 0 then -size else size

/-- The value of the pattern of a rank. -/
def ofRank (format : BinaryFormat) (rank : Int) : Exact :=
  if rank.natAbs = format.infinity then if rank < 0 then bottom else top
  else finite (sized format rank)

/-- Finite patterns have values in the order of their ranks. -/
theorem sized_mono (format : BinaryFormat) {first second : Int} (ordered : first ≤ second) :
    sized format first ≤ sized format second := by
  have unit : (0 : ℚ) < (2 : ℚ) ^ format.leastExponent := zpow_pos (by norm_num) _
  have size (n : Nat) : (0 : ℚ) ≤ steps format n * (2 : ℚ) ^ format.leastExponent :=
    mul_nonneg (Nat.cast_nonneg _) (le_of_lt unit)
  have grows {n k : Nat} (least : n ≤ k) : (steps format n : ℚ) * (2 : ℚ) ^ format.leastExponent ≤
      steps format k * (2 : ℚ) ^ format.leastExponent :=
    mul_le_mul_of_nonneg_right (Nat.cast_le.mpr (steps_mono format least)) (le_of_lt unit)
  unfold sized
  simp only
  by_cases negative : first < 0
  · rw [if_pos negative]
    by_cases both : second < 0
    · rw [if_pos both]
      exact neg_le_neg (grows (by omega))
    · rw [if_neg both]
      exact le_trans (neg_nonpos.mpr (size _)) (size _)
  · rw [if_neg negative, if_neg (by omega : ¬second < 0)]
    exact grows (by omega)

/-- Values are in the order of their ranks. -/
theorem ofRank_mono {format : BinaryFormat} {first second : Int}
    (firstBound : first.natAbs ≤ format.infinity) (secondBound : second.natAbs ≤ format.infinity)
    (ordered : first ≤ second) : le (ofRank format first) (ofRank format second) = true := by
  unfold ofRank
  by_cases low : first.natAbs = format.infinity
  · rw [if_pos low]
    by_cases negative : first < 0
    · rw [if_pos negative]
      split
      · split <;> rfl
      · rfl
    · rw [if_neg negative, if_pos (by omega : second.natAbs = format.infinity),
        if_neg (by omega : ¬second < 0)]
      rfl
  · rw [if_neg low]
    by_cases high : second.natAbs = format.infinity
    · rw [if_pos high, if_neg (by omega : ¬second < 0)]
      rfl
    · rw [if_neg high]
      exact decide_eq_true (sized_mono format ordered)

/-- A pattern with a rank has the value of its rank. -/
theorem ofPattern_eq {format : BinaryFormat} (wide : 0 < format.infinity) {bits : Nat} {rank : Int}
    (ranked : format.rank? bits = some rank) :
    ofPattern format bits = ofRank format rank ∧ rank.natAbs ≤ format.infinity := by
  unfold BinaryFormat.rank? at ranked
  by_cases none : format.isNaN bits = true
  · rw [if_pos none] at ranked
    cases ranked
  rw [if_neg none] at ranked
  have bounded : format.magnitude bits ≤ format.infinity := by
    simpa [BinaryFormat.isNaN] using none
  have same := Option.some.inj ranked
  have size : rank.natAbs = format.magnitude bits := by
    rw [← same]
    split <;> omega
  refine ⟨?_, by omega⟩
  unfold ofPattern BinaryFormat.read ofRank
  simp only [if_neg none, ← size]
  by_cases infinite : rank.natAbs = format.infinity
  · rw [if_pos infinite, if_pos infinite]
    cases negative : format.negative bits with
    | true =>
      rw [negative, if_pos rfl] at same
      simp only [if_true]
      rw [if_pos (by omega)]
    | false =>
      rw [negative, if_neg Bool.false_ne_true] at same
      simp only [Bool.false_eq_true, if_false]
      rw [if_neg (by omega)]
  · have value (size : ℚ)
        (scaled : size = steps format rank.natAbs * (2 : ℚ) ^ format.leastExponent) :
        finite (if format.negative bits = true then -size else size) =
          finite (sized format rank) := by
      unfold sized
      simp only
      rw [← scaled]
      cases negative : format.negative bits with
      | true =>
        rw [negative, if_pos rfl] at same
        by_cases zero : rank = 0
        · rw [zero, Int.natAbs_zero, steps_zero, Nat.cast_zero, zero_mul] at scaled
          simp [scaled, zero]
        · rw [if_pos rfl, if_pos (by omega)]
      | false =>
        rw [negative, if_neg Bool.false_ne_true] at same
        rw [if_neg Bool.false_ne_true, if_neg (by omega)]
    rw [if_neg infinite, if_neg infinite]
    by_cases small : rank.natAbs / 2 ^ format.fractionBits = 0
    · rw [if_pos small]
      apply value
      unfold steps
      simp only [if_pos small]
    · rw [if_neg small]
      apply value
      unfold steps
      simp only [if_neg small]
      rw [zpow_add₀ (by norm_num), zpow_natCast]
      push_cast
      ring

/-! ## Conversion -/

/-- The value of a coordinate of a type by its rank. -/
def valueAt (numeric : Numeric) (rank : Int) : Exact :=
  match numeric.encoding with
  | .signed | .unsigned => finite rank
  | .binary format => ofRank format rank

/-- The ranks that coordinates of a type have. -/
def InRange (numeric : Numeric) (rank : Int) : Prop :=
  match numeric.encoding with
  | .signed | .unsigned => True
  | .binary format => rank.natAbs ≤ format.infinity

/-- Every binary type has finite patterns below its infinities. -/
theorem infinity_pos {numeric : Numeric} {format : BinaryFormat}
    (encoded : numeric.encoding = .binary format) : 0 < format.infinity := by
  cases numeric <;> cases encoded <;> decide

/-- A coordinate has the value of its rank. -/
theorem ofCoordinate_eq {coordinate : Coordinate} {rank : Int}
    (ranked : coordinate.rank? = some rank) :
    ofCoordinate coordinate = valueAt coordinate.numeric rank ∧
      InRange coordinate.numeric rank := by
  unfold Coordinate.rank? at ranked
  unfold ofCoordinate valueAt InRange
  cases encoded : coordinate.numeric.encoding with
  | signed =>
    rw [encoded] at ranked
    cases ranked
    exact ⟨rfl, trivial⟩
  | unsigned =>
    rw [encoded] at ranked
    cases ranked
    exact ⟨congrArg finite (Int.cast_natCast _).symm, trivial⟩
  | binary format =>
    rw [encoded] at ranked
    exact ofPattern_eq (infinity_pos encoded) ranked

/-- A coordinate that is no number has no value. -/
theorem ofCoordinate_nan {coordinate : Coordinate} (none : coordinate.isNaN = true) :
    ofCoordinate coordinate = nan := by
  unfold Coordinate.isNaN Coordinate.rank? at none
  unfold ofCoordinate
  cases encoded : coordinate.numeric.encoding with
  | signed | unsigned =>
    rw [encoded] at none
    cases none
  | binary format =>
    rw [encoded] at none
    have unranked : format.isNaN coordinate.bits.toNat = true := by
      simpa [BinaryFormat.rank?] using none
    simp [ofPattern, BinaryFormat.read, unranked]

/-- Ranks of one type have values in their order. -/
theorem valueAt_mono {numeric : Numeric} {first second : Int} (firstRange : InRange numeric first)
    (secondRange : InRange numeric second) (ordered : first ≤ second) :
    le (valueAt numeric first) (valueAt numeric second) = true := by
  unfold InRange at firstRange secondRange
  unfold valueAt
  cases encoded : numeric.encoding with
  | signed => exact decide_eq_true (Int.cast_le.mpr ordered)
  | unsigned => exact decide_eq_true (Int.cast_le.mpr ordered)
  | binary format =>
    rw [encoded] at firstRange secondRange
    exact ofRank_mono firstRange secondRange ordered

/-- Coordinates of one type have values in their order. -/
theorem ofCoordinate_mono {a b : Coordinate} (typed : a.numeric = b.numeric)
    (ordered : a.atMost b = true) : le (ofCoordinate a) (ofCoordinate b) = true := by
  unfold Coordinate.atMost Coordinate.compareRanks at ordered
  cases first : a.rank? with
  | none => simp [first] at ordered
  | some rank =>
    cases second : b.rank? with
    | none => simp [first, second] at ordered
    | some other =>
      rw [first, second] at ordered
      have value := ofCoordinate_eq first
      have otherValue := ofCoordinate_eq second
      rw [← typed] at otherValue
      rw [value.1, otherValue.1]
      exact valueAt_mono value.2 otherValue.2 (of_decide_eq_true ordered)

/-! ## The laws -/

/-- Only what is no number is unlike itself. -/
@[simp] theorem isNaN_iff {x : Exact} : Arithmetic.isNaN x = true ↔ x = nan := by
  cases x <;> simp [Arithmetic.isNaN, Arithmetic.le, le]

/-- Only what is no number passes for NaN. -/
@[simp] theorem isNaN_eq_false {x : Exact} : Arithmetic.isNaN x = false ↔ x ≠ nan := by
  rw [← Bool.not_eq_true, isNaN_iff]

/-- The infinities are the two ends of the order. -/
@[simp] theorem isInfinite_iff {x : Exact} :
    Arithmetic.isInfinite x = true ↔ x = bottom ∨ x = top := by
  cases x <;> simp [Arithmetic.isInfinite, Arithmetic.isFinite, Arithmetic.isNaN, Arithmetic.le, le]

/-- Finite operands are in the order of their numbers. -/
@[simp] theorem le_finite {x y : ℚ} : Arithmetic.le (finite x) (finite y) = true ↔ x ≤ y :=
  decide_eq_true_iff

/-- Finite operands are in the strict order of their numbers. -/
@[simp] theorem lt_finite {x y : ℚ} : Arithmetic.lt (finite x) (finite y) = true ↔ x < y := by
  simpa [Arithmetic.lt, le] using le_of_lt

/-- Finite operands are subtracted as numbers. -/
@[simp] theorem sub_finite (x y : ℚ) : finite x - finite y = finite (x - y) :=
  congrArg finite (sub_eq_add_neg x y).symm

/-- Finite operands are multiplied as numbers. -/
@[simp] theorem mul_finite (x y : ℚ) : finite x * finite y = finite (x * y) := rfl

/-- Finite operands are divided as numbers, unless the divisor is zero. -/
theorem div_finite (x : ℚ) {y : ℚ} (divides : y ≠ 0) : finite x / finite y = finite (x / y) :=
  if_neg divides

/-- The count zero is the number zero. -/
theorem zero_eq : (Arithmetic.ofNat 0 : Exact) = finite 0 := congrArg finite Nat.cast_zero

/-- A count is a number, without rounding. -/
theorem ofNat_eq (n : Nat) : (Arithmetic.ofNat n : Exact) = finite n := rfl

/-- Finite operands are added as numbers. -/
@[simp] theorem add_finite (x y : ℚ) : finite x + finite y = finite (x + y) := rfl

/-- The greater of two finite operands is that of their numbers. -/
theorem max_finite (x y : ℚ) : Arithmetic.max (finite x) (finite y) = finite (max x y) := by
  unfold Arithmetic.max
  rw [if_neg (by simp), if_neg (by simp)]
  by_cases less : x < y
  · rw [if_pos (lt_finite.mpr less), max_eq_right (le_of_lt less)]
  · rw [if_neg (fun passes => less (lt_finite.mp passes)), max_eq_left (not_lt.mp less)]

/-- The lesser of two finite operands is that of their numbers. -/
theorem min_finite (x y : ℚ) : Arithmetic.min (finite x) (finite y) = finite (min x y) := by
  unfold Arithmetic.min
  rw [if_neg (by simp), if_neg (by simp)]
  by_cases less : y < x
  · rw [if_pos (lt_finite.mpr less), min_eq_right (le_of_lt less)]
  · rw [if_neg (fun passes => less (lt_finite.mp passes)), min_eq_left (not_lt.mp less)]

/-- Nothing finite is above infinity. -/
theorem min_top (x : ℚ) : Arithmetic.min top (finite x) = finite x := by
  unfold Arithmetic.min
  rw [if_neg (by simp), if_neg (by simp)]
  rfl

/-- A sum of finite terms is the sum of their values. -/
theorem sum_finite {n : Nat} (terms : Fin n → ℚ) :
    Arithmetic.sum (fun i => finite (terms i)) = finite (∑ i, terms i) := by
  have fold (items : List (Fin n)) (start : ℚ) :
      items.foldl (fun total i => total + finite (terms i)) (finite start) =
        finite (start + (items.map terms).sum) := by
    induction items generalizing start with
    | nil => simp
    | cons i rest ih =>
      rw [List.foldl_cons, add_finite, ih, List.map_cons, List.sum_cons, add_assoc]
  unfold Arithmetic.sum
  rw [zero_eq, fold, zero_add, Fin.sum_univ_def]

/-- Among the finite operands only the number zero passes for zero. -/
theorem isZero_finite {x : ℚ} : Arithmetic.isZero (finite x) = true ↔ x = 0 := by
  unfold Arithmetic.isZero
  rw [zero_eq, Bool.and_eq_true, le_finite, le_finite]
  exact le_antisymm_iff.symm

/-- The number of a finite operand. -/
def value : Exact → ℚ
  | finite x => x
  | _ => 0

/-- A finite operand is its number. -/
theorem eq_finite {x : Exact} (number : Arithmetic.isFinite x = true) : x = finite x.value := by
  cases x <;> first | rfl | cases number

/-- What lies between finite operands is finite. -/
theorem finite_of_between {x : Exact} {low high : ℚ} (above : Arithmetic.le (finite low) x = true)
    (below : Arithmetic.le x (finite high) = true) : ∃ y, x = finite y ∧ low ≤ y ∧ y ≤ high := by
  cases x with
  | nan => cases above
  | bottom => cases above
  | finite y => exact ⟨y, rfl, le_finite.mp above, le_finite.mp below⟩
  | top => cases below

/-- The square of what is not negative is not negative. -/
theorem zero_le_mul_self {s : Exact} (nonneg : Arithmetic.le (Arithmetic.ofNat 0) s = true) :
    Arithmetic.le (finite 0) (s * s) = true := by
  rw [zero_eq] at nonneg
  cases s with
  | nan => cases nonneg
  | bottom => cases nonneg
  | finite value => exact le_finite.mpr (mul_self_nonneg value)
  | top => rfl

/-- A sum of what is not negative is not negative. -/
protected theorem add_nonneg {x y : Exact} (first : Arithmetic.le (finite 0) x = true)
    (second : Arithmetic.le (finite 0) y = true) : Arithmetic.le (finite 0) (x + y) = true := by
  cases x with
  | nan | bottom => cases first
  | finite a =>
    cases y with
    | nan | bottom => cases second
    | finite b => exact le_finite.mpr (add_nonneg (le_finite.mp first) (le_finite.mp second))
    | top => rfl
  | top =>
    cases y with
    | nan | bottom => cases second
    | finite | top => rfl

/-- A positive number is finite or the upper infinity. -/
theorem positive_cases {s : Exact} (positive : Arithmetic.lt (Arithmetic.ofNat 0) s = true) :
    s = top ∨ ∃ value : ℚ, 0 < value ∧ s = finite value := by
  rw [zero_eq] at positive
  cases s with
  | nan => cases positive
  | bottom => cases positive
  | finite value => exact .inr ⟨value, lt_finite.mp positive, rfl⟩
  | top => exact .inl rfl

/-- Subtracting a finite constant keeps order. -/
theorem sub_finite_mono (c : ℚ) {x y : Exact} (ordered : Arithmetic.le x y = true) :
    Arithmetic.le (x - finite c) (y - finite c) = true := by
  cases x <;> cases y <;> simp_all [HSub.hSub, Sub.sub, add, neg, Arithmetic.le, le]

/-- A positive finite factor changes no infinity. -/
theorem mul_positive {factor : ℚ} (positive : 0 < factor) (x : Exact) : x * finite factor =
    match x with
    | finite value => finite (value * factor)
    | other => other := by
  cases x with
  | nan => rfl
  | bottom =>
    show beyond (-factor) = bottom
    rw [beyond, if_neg (by linarith), if_pos (by linarith)]
  | finite value => rfl
  | top => exact if_pos positive

/-- Multiplying by a positive finite factor keeps order. -/
theorem mul_positive_mono {factor : ℚ} (positive : 0 < factor) {x y : Exact}
    (ordered : Arithmetic.le x y = true) :
    Arithmetic.le (x * finite factor) (y * finite factor) = true := by
  rw [mul_positive positive, mul_positive positive]
  cases x <;> cases y <;> simp_all [Arithmetic.le, le]

open Arithmetic in
/-- Exact numbers are lawful. -/
instance : LawfulArithmetic Exact where
  le_trans {x y z} first second := by
    cases x <;> cases y <;> cases z <;> simp_all [Arithmetic.le, le]
    exact le_trans first second
  number_of_le {x y} ordered := by
    cases x <;> cases y <;> simp_all [Arithmetic.le, le]
  le_of_lt strict := (Bool.and_eq_true_iff.mp strict).1
  not_le_of_lt strict := by
    have excluded := (Bool.and_eq_true_iff.mp strict).2
    rwa [Bool.not_eq_true'] at excluded
  infinite_extreme {x} infinite := by
    rcases isInfinite_iff.mp infinite with rfl | rfl
    · right
      intro y number
      cases y <;> simp_all [Arithmetic.le, le]
    · left
      intro y number
      cases y <;> simp_all [Arithmetic.le, le]
  convert_mono := ofCoordinate_mono
  sub_mono {x y c} ordered first second := by
    cases x <;> cases y <;> cases c <;> simp_all [HSub.hSub, Sub.sub, add, neg, Arithmetic.le, le]
  sub_pos {x y} strict := by
    rw [zero_eq]
    cases x <;> cases y <;> simp_all [HSub.hSub, Sub.sub, add, neg, Arithmetic.lt, le]
  sub_nan {x c} none := by
    rw [isNaN_iff.mp none]
    rfl
  sub_number {x c} first second none := by
    cases x <;> cases c <;>
      simp_all [HSub.hSub, Sub.sub, add, neg, Arithmetic.le, le, Arithmetic.isInfinite,
        Arithmetic.isFinite]
  sub_infinite {x c} infinite upper lower := by
    rcases isInfinite_iff.mp infinite with rfl | rfl <;> cases x <;>
      simp_all [HSub.hSub, Sub.sub, add, neg, Arithmetic.le, le]
  div_mono {x y s} positive ordered first second := by
    rcases positive_cases positive with rfl | ⟨value, above, rfl⟩
    · cases x <;> cases y <;>
        simp_all [HDiv.hDiv, Div.div, div, Arithmetic.le, le]
    · have divides := ne_of_gt above
      cases x <;> cases y <;>
        simp_all [HDiv.hDiv, Div.div, div, Arithmetic.le, le, not_lt_of_gt above]
      exact div_le_div_of_nonneg_right ordered (le_of_lt above)
  div_nan {x s} none := by
    rw [isNaN_iff.mp none]
    rfl
  div_number {x s} positive number none := by
    rcases positive_cases positive with rfl | ⟨value, above, rfl⟩
    · cases x <;> simp_all [HDiv.hDiv, Div.div, div]
    · have divides := ne_of_gt above
      cases x <;> simp_all [HDiv.hDiv, Div.div, div, not_lt_of_gt above]
  infinite_div {x s} first second := by
    rcases isInfinite_iff.mp first with rfl | rfl <;>
      rcases isInfinite_iff.mp second with rfl | rfl <;> rfl
  div_infinite {x s} finite infinite := by
    cases x <;> cases finite
    rcases isInfinite_iff.mp infinite with rfl | rfl <;> rfl
  mul_mono positive _ ordered := mul_positive_mono (Nat.cast_pos.mpr positive) ordered
  mul_nan {x c} none := by
    rw [isNaN_iff.mp none]
    rfl
  zero_mul {n} bounded := by
    rw [zero_eq]
    exact le_finite.mpr (le_of_eq (zero_mul _))
  floor_mono {x y} ordered := by
    cases x with
    | nan => cases ordered
    | bottom => exact Nat.zero_le _
    | finite x =>
      cases y with
      | nan => cases ordered
      | bottom => cases ordered
      | finite y =>
        have floors := Int.floor_mono (le_finite.mp ordered)
        exact min_le_min_right _ (Int.toNat_le_toNat floors)
      | top => exact min_le_right _ _
    | top =>
      cases y with
      | top => exact Nat.le_refl _
      | _ => cases ordered
  floor_zero := by
    rw [zero_eq]
    rfl
  floor_nan {x} none := by
    rw [isNaN_iff.mp none]
    rfl

/-- What is not below what is above is above. -/
theorem lt_of_lt_of_le {x y z : Exact} (strict : Arithmetic.lt x y = true)
    (ordered : Arithmetic.le y z = true) : Arithmetic.lt x z = true := by
  have upward := LawfulArithmetic.le_trans (LawfulArithmetic.le_of_lt strict) ordered
  have excluded : Arithmetic.le z x = false := by
    by_contra back
    have downward := LawfulArithmetic.le_trans ordered (Bool.not_eq_false _ ▸ back)
    rw [LawfulArithmetic.not_le_of_lt strict] at downward
    cases downward
  exact Bool.and_eq_true_iff.mpr ⟨upward, by rw [Bool.not_eq_true']; exact excluded⟩

end Exact

end SpatialIndex
