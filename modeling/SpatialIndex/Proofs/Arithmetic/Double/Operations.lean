import SpatialIndex.Proofs.Arithmetic.Double.Dropping
import SpatialIndex.Proofs.Arithmetic.Rounding

/-!
# Operations on doubles

Each operation on doubles gives the exact result, rounded to the nearest double. So doubles are a
rounded arithmetic.
-/
namespace SpatialIndex.Double

open Float.Model (Format UnpackedFloat totalExponent)
open Float.Model.UnpackedFloat

/-! ## Forms that are packed unchanged -/

/-- An infinity is packed with its sign. -/
theorem packed_infinity (sign : Sign) : packed (.infinity sign) = signed sign .top :=
  denoted_packComponents sign (-1#11) 0#52

/-- What is no number is packed as none. -/
theorem packed_notANumber : packed .notANumber = .nan :=
  denoted_packComponents .positive (-1#11) (1#52 <<< 51)

/-- Infinities are left alone by rounding. -/
theorem round_top (sign : Sign) : round (signed sign .top) = signed sign .top := by
  cases sign <;> rfl

/-- What can be stored is left alone by rounding. -/
theorem round_denoted {x : UnpackedFloat} (stored : Stored x) : round (denoted x) = denoted x := by
  cases x with
  | notANumber => rfl
  | infinity sign => exact round_top sign
  | zero sign => exact round_zero
  | finite sign m e some =>
    obtain ⟨fits, bounded⟩ := stored
    rw [denoted_finite, round_signed,
      round_digits (le_of_lt fits.short) fits.least (fits.lt_iff.mpr bounded)]

/-- What can be stored is packed unchanged. -/
theorem packed_stored {x : UnpackedFloat} (stored : Stored x) : packed x = denoted x := by
  cases x with
  | notANumber => exact packed_notANumber
  | infinity sign => exact packed_infinity sign
  | zero sign => exact packed_zero sign
  | finite sign m e some =>
    obtain ⟨fits, bounded⟩ := stored
    refine (denoted_pack sign some fits).trans ?_
    rw [saturate, if_pos (fits.lt_iff.mpr bounded), denoted_finite]

/-- A result that can be stored is exact. -/
theorem packed_eq {x : UnpackedFloat} {y : Exact} (stored : Stored x) (same : denoted x = y) :
    packed x = round y := by
  rw [packed_stored stored, ← same, round_denoted stored]

/-! ## Signs -/

/-- The form with the other sign denotes the negative. -/
theorem denoted_neg (x : UnpackedFloat) : denoted x.neg = (denoted x).neg := by
  cases x with
  | notANumber => rfl
  | infinity sign => cases sign <;> rfl
  | zero sign => exact congrArg Exact.finite neg_zero.symm
  | finite sign m e some => cases sign with
    | positive => rfl
    | negative => exact congrArg Exact.finite (neg_neg _).symm

/-- A form to which a double is unpacked is one with the other sign too. -/
theorem Stored.neg {x : UnpackedFloat} (stored : Stored x) : Stored x.neg := by
  cases x with
  | notANumber | infinity | zero => trivial
  | finite => exact stored

/-- A sign makes an integer of a significand. -/
theorem signed_apply (sign : Sign) (m : Nat) (scale : ℚ) :
    signed sign (.finite (m * scale)) = .finite (sign.apply m * scale) := by
  cases sign with
  | positive => rfl
  | negative =>
    refine congrArg Exact.finite ?_
    show -(m * scale) = ((-(m : ℤ) : ℤ) : ℚ) * scale
    push_cast
    ring

/-! ## Sums -/

/-- With a lesser exponent, a finite form is the same number. -/
theorem signed_decreaseExponent (sign : Sign) (m : Nat) {e least : ℤ} (bounded : least ≤ e) :
    signed sign (.finite (m * 2 ^ e)) =
      .finite (sign.apply (decreaseExponent m e least).1 * 2 ^ least) := by
  have value := (decreaseExponent_spec m e least).2
  rw [min_eq_right bounded] at value
  rw [← value, signed_apply]

/-- Zero may be left out of a sum in front. -/
theorem zero_add_exact (x : Exact) : .finite 0 + x = x := by
  cases x with
  | nan | bottom | top => rfl
  | finite x => exact congrArg Exact.finite (zero_add x)

/-- Zero may be left out of a sum at the end. -/
theorem add_zero_exact (x : Exact) : x + .finite 0 = x := by
  cases x with
  | nan | bottom | top => rfl
  | finite x => exact congrArg Exact.finite (add_zero x)

/-- A sum is rounded. -/
theorem packed_add {x y : UnpackedFloat} (first : Stored x) (second : Stored y) :
    packed (add Format.binary64 x y) = round (denoted x + denoted y) := by
  cases x with
  | notANumber => exact packed_eq trivial rfl
  | infinity sign => cases y with
    | notANumber => exact packed_eq trivial (by cases sign <;> rfl)
    | infinity other =>
      cases sign <;> cases other <;> exact packed_eq trivial rfl
    | zero other | finite other =>
      refine packed_eq trivial ?_
      cases sign <;> cases other <;> rfl
  | zero sign => cases y with
    | notANumber => exact packed_eq trivial rfl
    | infinity other => exact packed_eq trivial (by cases other <;> rfl)
    | zero other => cases sign <;> cases other <;> exact packed_eq trivial (zero_add_exact _).symm
    | finite other n f more => exact packed_eq second (zero_add_exact _).symm
  | finite sign m e some => cases y with
    | notANumber => exact packed_eq trivial (by cases sign <;> rfl)
    | infinity other =>
      refine packed_eq trivial ?_
      cases sign <;> cases other <;> rfl
    | zero other => exact packed_eq first (add_zero_exact _).symm
    | finite other n f more =>
      -- the lesser exponent is fine enough for both operands, so their integers are added
      refine (packed_normalize _ _ _).trans ?_
      rw [denoted_finite, denoted_finite, signed_decreaseExponent sign m (min_le_left e f),
        signed_decreaseExponent other n (min_le_right e f), Exact.add_finite, ← add_mul]
      push_cast
      rfl

/-- A difference is the sum with the opposite. -/
theorem sub_eq_add (x y : UnpackedFloat) :
    sub Format.binary64 x y = add Format.binary64 x y.neg := by
  cases x with
  | notANumber => rfl
  | infinity sign => cases y <;> rfl
  | zero sign => cases y <;> rfl
  | finite sign m e some => cases y with
    | notANumber | infinity | zero => rfl
    | finite other n f more =>
      have opposite (k : ℤ) : (-other).apply k = -other.apply k := by
        cases other with
        | positive => rfl
        | negative => exact (neg_neg k).symm
      unfold sub add UnpackedFloat.neg
      simp only [opposite, Int.sub_eq_add_neg]

/-- A difference is rounded. -/
theorem packed_sub {x y : UnpackedFloat} (first : Stored x) (second : Stored y) :
    packed (sub Format.binary64 x y) = round (denoted x - denoted y) := by
  rw [sub_eq_add, packed_add first second.neg, denoted_neg]
  rfl

/-! ## Products -/

/-- Infinity times a positive number. -/
theorem top_mul_signed (sign other : Sign) {x : ℚ} (positive : 0 < x) :
    signed sign .top * signed other (.finite x) = signed (sign * other) .top := by
  have beyond : Exact.beyond x = .top := if_pos positive
  have below : Exact.beyond (-x) = .bottom := by
    rw [Exact.beyond, if_neg (by linarith), if_pos (by linarith)]
  cases sign <;> cases other
  · show Exact.beyond (- -x) = .top
    rw [neg_neg, beyond]
  · exact below
  · exact below
  · exact beyond

/-- The sign of a product is the product of the signs. -/
theorem signed_mul (sign other : Sign) (x y : ℚ) :
    signed sign (.finite x) * signed other (.finite y) =
      signed (sign * other) (.finite (x * y)) := by
  cases sign <;> cases other <;> refine congrArg Exact.finite ?_ <;> ring

/-- An infinity times zero is no number. -/
theorem top_mul_zero (sign : Sign) : signed sign .top * .finite 0 = .nan := by
  cases sign with
  | positive => rfl
  | negative => rfl

/-- Zero times a finite number is zero, whatever the sign. -/
theorem zero_mul_signed (sign : Sign) (x : ℚ) :
    .finite 0 * signed sign (.finite x) = .finite 0 := by
  cases sign <;> exact congrArg Exact.finite (zero_mul _)

/-- Factors may change places, infinities and NaN too. -/
theorem mul_comm_exact (x y : Exact) : x * y = y * x := by
  cases x <;> cases y <;> first | rfl | exact congrArg Exact.finite (mul_comm _ _)

/-- A product of forms has digits to spare. -/
theorem Fits.product_fine {m n : Nat} {e f : ℤ} (first : Fits m e) (second : Fits n f)
    (some : 0 < m * n) : e + f ≤ lastDigit ((m * n : Nat) * 2 ^ (e + f)) := by
  unfold lastDigit
  rw [log_size some]
  by_cases long : 2 ^ (52 : Nat) ≤ m * n
  · have digits := (Nat.le_log2 (Nat.ne_of_gt some)).mpr long
    omega
  · have left := Nat.le_mul_of_pos_right m (Nat.pos_of_mul_pos_left some)
    have right := Nat.le_mul_of_pos_left n (Nat.pos_of_mul_pos_right some)
    have least := first.first.resolve_left (by omega)
    have other := second.first.resolve_left (by omega)
    omega

/-- A product is rounded. -/
theorem packed_mul {x y : UnpackedFloat} (first : Stored x) (second : Stored y) :
    packed (mul Format.binary64 x y) = round (denoted x * denoted y) := by
  cases x with
  | notANumber => exact packed_eq trivial rfl
  | infinity sign => cases y with
    | notANumber => exact packed_eq trivial (by cases sign <;> rfl)
    | infinity other => exact packed_eq trivial (by cases sign <;> cases other <;> rfl)
    | zero other => exact packed_eq trivial (top_mul_zero sign).symm
    | finite other n f more =>
      exact packed_eq trivial (top_mul_signed sign other (size_pos more)).symm
  | zero sign => cases y with
    | notANumber => exact packed_eq trivial rfl
    | infinity other =>
      exact packed_eq trivial ((mul_comm_exact _ _).trans (top_mul_zero other)).symm
    | zero other => exact packed_eq trivial (zero_mul_signed .positive 0).symm
    | finite other n f more => exact packed_eq trivial (zero_mul_signed other _).symm
  | finite sign m e some => cases y with
    | notANumber => exact packed_eq trivial (by cases sign <;> rfl)
    | infinity other =>
      have product := top_mul_signed other sign (size_pos (e := e) some)
      refine packed_eq trivial (Eq.trans ?_ (product.symm.trans (mul_comm_exact _ _)))
      cases sign <;> cases other <;> rfl
    | zero other =>
      exact packed_eq trivial ((mul_comm_exact _ _).trans (zero_mul_signed sign _)).symm
    | finite other n f more =>
      have product := Nat.mul_pos some more
      have fine := first.1.product_fine second.1 product
      refine (packed_exact (sign * other) (Nat.cast_pos.mpr product) fine).trans ?_
      rw [denoted_finite, denoted_finite, signed_mul, zpow_add₀ (by norm_num)]
      push_cast
      congr 3
      ring

/-! ## Quotients -/

/-- The rest of a division, as an accuracy. -/
theorem rest_fraction {m n : Nat} (less : m < n) : Rest (accuracyOfFraction m n) (m / n : ℚ) := by
  have divides : (0 : ℚ) < n := Nat.cast_pos.mpr (by omega)
  unfold accuracyOfFraction
  split
  · rename_i none
    show (m / n : ℚ) = 0
    rw [none, Nat.cast_zero, zero_div]
  · rename_i some
    have positive : (0 : ℚ) < m := Nat.cast_pos.mpr (Nat.pos_of_ne_zero some)
    rcases lt_trichotomy (2 * m) n with low | half | high
    · have bound : (2 * m : ℚ) < n := by exact_mod_cast low
      rw [compare_lt_iff_lt.mpr low]
      exact ⟨div_pos positive divides, (div_lt_iff₀ divides).mpr (by linarith)⟩
    · have bound : (2 * m : ℚ) = n := by exact_mod_cast half
      rw [compare_eq_iff_eq.mpr half]
      exact (div_eq_iff (ne_of_gt divides)).mpr (by linarith)
    · have bound : (n : ℚ) < 2 * m := by exact_mod_cast high
      rw [compare_gt_iff_gt.mpr high]
      exact ⟨(lt_div_iff₀ divides).mpr (by linarith),
        (div_lt_one divides).mpr (Nat.cast_lt.mpr less)⟩

/-- The sign of a quotient is the quotient of the signs. -/
theorem signed_div (sign other : Sign) (x : ℚ) {y : ℚ} (divides : y ≠ 0) :
    signed sign (.finite x) / signed other (.finite y) =
      signed (sign / other) (.finite (x / y)) := by
  have opposite : -y ≠ 0 := neg_ne_zero.mpr divides
  cases sign <;> cases other
  · exact (Exact.div_finite (-x) opposite).trans (congrArg Exact.finite (neg_div_neg_eq x y))
  · exact (Exact.div_finite (-x) divides).trans (congrArg Exact.finite (neg_div y x))
  · exact (Exact.div_finite x opposite).trans (congrArg Exact.finite (div_neg x))
  · exact Exact.div_finite x divides

/-- The quotient of significands has digits to spare. -/
theorem quotient_fine {m n : Nat} (some : 0 < m) (more : 0 < n) (e f : ℤ) :
    Format.binary64.targetExponent (totalExponent m e - totalExponent n f) ≤
      lastDigit (m * 2 ^ e / (n * 2 ^ f)) := by
  have low := (log_spec (size_pos (e := e) some)).1
  have high := le_of_lt (log_spec (size_pos (e := f) more)).2
  rw [log_size some] at low
  rw [log_size more] at high
  have log : m.log2 + e - (n.log2 + f + 1) ≤ Int.log 2 (m * 2 ^ e / (n * 2 ^ f) : ℚ) := by
    apply le_log
    rw [zpow_sub₀ (by norm_num)]
    exact div_le_div₀ (le_of_lt (size_pos some)) low (size_pos more) high
  rw [targetExponent_eq]
  unfold totalExponent lastDigit
  omega

/-- A quotient is given by its integer part and its rest. -/
theorem divCore_spec {m n : Nat} (some : 0 < m) (more : 0 < n) (e f : ℤ) :
    ∃ (quotient : Nat) (exponent : ℤ) (accuracy : Accuracy) (rest : ℚ),
      divCore Format.binary64 m e n f = (quotient, exponent, accuracy) ∧ Rest accuracy rest ∧
        (quotient + rest) * 2 ^ exponent = (m * 2 ^ e / (n * 2 ^ f) : ℚ) ∧ 
        exponent ≤ lastDigit (m * 2 ^ e / (n * 2 ^ f)) := by
  have fine := quotient_fine some more e f
  unfold divCore
  generalize Format.binary64.targetExponent _ = target at fine
  refine ⟨_, _, _, _, rfl, rest_fraction (Nat.mod_lt _ more), ?_, le_trans (min_le_right _ _) fine⟩
  have divides : (n : ℚ) ≠ 0 := Nat.cast_ne_zero.mpr (by omega)
  have parts (k : Nat) : ((k / n : Nat) + ((k % n : Nat) : ℚ) / n) = k / n := by
    have whole : (n * (k / n : Nat) + (k % n : Nat) : ℚ) = k := by
      exact_mod_cast Nat.div_add_mod k n
    rw [← whole, add_div, mul_div_cancel_left₀ _ divides]
  have shift : (e - f - min (e - f) target).toNat + min (e - f) target = e - f := by omega
  rw [parts, Nat.shiftLeft_eq]
  push_cast
  rw [div_mul_eq_mul_div, mul_assoc, ← zpow_natCast, ← zpow_add₀ (by norm_num), shift,
    zpow_sub₀ (by norm_num)]
  field_simp

/-- An infinity divided by a finite number is an infinity, with the sign of the quotient. -/
theorem top_div_signed (sign other : Sign) {x : ℚ} (positive : 0 < x) :
    signed sign .top / signed other (.finite x) = signed (sign / other) .top := by
  have low : -x < 0 := by linarith
  have high : ¬x < 0 := by linarith
  cases sign <;> cases other
  · exact if_pos low
  · exact if_neg high
  · exact if_pos low
  · exact if_neg high

/-- Zero divided by a finite number that is not zero is zero, whatever the sign. -/
theorem zero_div_signed (sign : Sign) {x : ℚ} (positive : 0 < x) :
    .finite 0 / signed sign (.finite x) = .finite 0 := by
  have quotient := signed_div .positive sign 0 (ne_of_gt positive)
  rw [zero_div] at quotient
  refine quotient.trans ?_
  cases sign with
  | positive => rfl
  | negative => exact congrArg Exact.finite neg_zero

/-- A quotient is rounded, unless it is by zero. -/
theorem packed_div {x y : UnpackedFloat} (first : Stored x) (second : Stored y)
    (divides : denoted y ≠ .finite 0) :
    packed (div Format.binary64 x y) = round (denoted x / denoted y) := by
  cases x with
  | notANumber => exact packed_eq trivial rfl
  | infinity sign => cases y with
    | notANumber => exact packed_eq trivial (by cases sign <;> rfl)
    | infinity other => exact packed_eq trivial (by cases sign <;> cases other <;> rfl)
    | zero other => exact absurd rfl divides
    | finite other n f more =>
      exact packed_eq trivial (top_div_signed sign other (size_pos more)).symm
  | zero sign => cases y with
    | notANumber => exact packed_eq trivial rfl
    | infinity other => exact packed_eq trivial (by cases other <;> rfl)
    | zero other => exact absurd rfl divides
    | finite other n f more =>
      exact packed_eq trivial (zero_div_signed other (size_pos more)).symm
  | finite sign m e some => cases y with
    | notANumber => exact packed_eq trivial (by cases sign <;> rfl)
    | infinity other => exact packed_eq trivial (by cases sign <;> cases other <;> rfl)
    | zero other => exact absurd rfl divides
    | finite other n f more =>
      obtain ⟨quotient, exponent, accuracy, rest, core, known, value, fine⟩ :=
        divCore_spec some more e f
      rw [← value] at fine
      have positive : (0 : ℚ) < quotient + rest := by
        have size := div_pos (size_pos (e := e) some) (size_pos (e := f) more)
        rwa [← value, mul_pos_iff_of_pos_right (two_zpow_pos exponent)] at size
      have rounded := packed_roundWithAccuracy (sign / other) known positive fine
      unfold div
      simp only [core]
      rw [rounded, value, denoted_finite, denoted_finite,
        signed_div _ _ _ (ne_of_gt (size_pos more))]

/-! ## Rounding down -/

/-- A finite form is rounded towards zero. -/
theorem roundToInt_eq (sign : Sign) (m : Nat) (e : ℤ) :
    roundToInt sign m e = sign.apply ⌊(m * 2 ^ e : ℚ)⌋ := by
  obtain ⟨exponent, value⟩ := decreaseExponent_spec m e 0
  unfold roundToInt shiftToExponent
  simp only
  rw [exponent]
  generalize (decreaseExponent m e 0).1 = digits at value
  have known : Rest .exact 0 := rfl
  have dropped := ((represents_of known digits).shiftRight (0 - min e 0).toNat).floor
  rw [← dropped, add_zero, ← value]
  have gap : min e 0 = -((0 - min e 0).toNat : ℤ) := by omega
  generalize (0 - min e 0).toNat = count at gap
  rw [gap, zpow_neg, zpow_natCast, div_eq_mul_inv]

/-- A form is rounded down to what fits 32 bits. -/
theorem toNat_toUInt32 (x : UnpackedFloat) : x.toUInt32.toNat = Arithmetic.floor (denoted x) := by
  have clamp (n : Nat) : (UInt32.ofNatClamp n).toNat = min n Exact.greatestFloor := by
    unfold UInt32.ofNatClamp
    split
    · rename_i small
      rw [UInt32.toNat_ofNatLT]
      exact (min_eq_left (Nat.le_of_lt_succ small)).symm
    · rename_i large
      rw [UInt32.toNat_ofNatLT]
      exact (min_eq_right (Nat.le_of_succ_le (not_lt.mp large))).symm
  unfold UnpackedFloat.toUInt32
  rw [clamp]
  cases x with
  | notANumber => rfl
  | infinity sign => cases sign <;> rfl
  | zero sign => rfl
  | finite sign m e some =>
    show min (roundToInt sign m e).toNat _ = _
    rw [roundToInt_eq, denoted_finite]
    cases sign with
    | positive => rfl
    | negative =>
      -- what is below zero is clamped to zero, whichever way it is rounded
      have size := le_of_lt (size_pos (e := e) some)
      have whole : 0 ≤ ⌊(m * 2 ^ e : ℚ)⌋ := Int.floor_nonneg.mpr size
      have below : ⌊(-(m * 2 ^ e) : ℚ)⌋ ≤ 0 := Int.floor_nonpos (neg_nonpos.mpr size)
      have first : (-⌊(m * 2 ^ e : ℚ)⌋).toNat = 0 := Int.toNat_of_nonpos (by omega)
      have last : ⌊(-(m * 2 ^ e) : ℚ)⌋.toNat = 0 := Int.toNat_of_nonpos below
      show min (-⌊(m * 2 ^ e : ℚ)⌋).toNat _ = min ⌊(-(m * 2 ^ e) : ℚ)⌋.toNat _
      rw [first, last]

/-! ## Doubles -/

/-- Every double is unpacked to one of the forms. -/
theorem stored (x : Float) : Stored x.toModel.unpack := stored_unpack _

/-- The strict order of doubles is that of their values. -/
theorem value_lt (x y : Float) : Arithmetic.lt x y = Arithmetic.lt (value x) (value y) := by
  rw [lt_eq_order, value, value, ← compare_eq (stored x).canonical (stored y).canonical]
  exact Bool.eq_iff_iff.mpr ((decide_eq_true_iff (p := x < y)).trans decide_eq_true_iff)

/-- The order of doubles is that of their values. -/
theorem value_le (x y : Float) : Arithmetic.le x y = Arithmetic.le (value x) (value y) := by
  rw [le_eq_order, value, value, ← compare_eq (stored x).canonical (stored y).canonical]
  exact Bool.eq_iff_iff.mpr ((decide_eq_true_iff (p := x ≤ y)).trans decide_eq_true_iff)

/-- A count of less than 64 bits is rounded once. -/
theorem value_ofNat {n : Nat} (small : n < 2 ^ (64 : Nat)) :
    value (Arithmetic.ofNat n) = round (.finite n) := by
  refine (packed_normalize (UInt64.ofNat n).toNat 0 .positive).trans ?_
  rw [UInt64.toNat_ofNat_of_lt' small, Int.cast_natCast, zpow_zero, mul_one]

/-- A double that passes for no zero has another value. -/
theorem value_ne_zero {x : Float} (some : Arithmetic.isZero x = false) : value x ≠ .finite 0 := by
  intro zero
  have same : value (Arithmetic.ofNat 0) = .finite 0 := by
    rw [value_ofNat (by norm_num), Nat.cast_zero, round_zero]
  unfold Arithmetic.isZero at some
  rw [value_le, value_le, zero, same] at some
  cases some

/-- Doubles are a rounded arithmetic. -/
def rounding : Rounding Float where
  value := value
  round := round
  round_mono := round_mono
  round_value x := round_denoted (stored x)
  round_nan := rfl
  round_bottom := rfl
  round_top := rfl
  round_nat := round_nat
  add x y := packed_add (stored x) (stored y)
  sub x y := packed_sub (stored x) (stored y)
  mul x y := packed_mul (stored x) (stored y)
  div x {y} divides := packed_div (stored x) (stored y) (value_ne_zero divides)
  ofNat := value_ofNat
  lt := value_lt
  le := value_le
  isFinite := isFinite_value
  floor _ := toNat_toUInt32 _

end SpatialIndex.Double
