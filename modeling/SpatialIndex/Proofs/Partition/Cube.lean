import Mathlib.Tactic.Ring
import SpatialIndex.Proofs.Partition.Progress

/-!
# Cubes of addresses

An address denotes an aligned cube of cells: on every axis, the one of the equal parts of its
level that its index counts. The center of its node is the midpoint of that cube. A box lies in
the cube exactly when it follows the address, so it leads to the smallest cube around it that a
node can have; a query admits an address exactly when it meets the cube.
-/
namespace SpatialIndex.Partition

variable {D : Nat} {border : Nat}

/-- A border that a tree can have. -/
structure Legal (border : Nat) : Prop where
  /-- It is a power of two. -/
  shape : 2 ^ border.log2 = border
  /-- It is inside the limits. -/
  range : Limits.leastBorder ≤ border ∧ border ≤ Limits.greatestBorder

/-- Every node of a legal border can be halved twice. -/
theorem Legal.levels_lt (legal : Legal border) : levelCount border < border.log2 := by
  have least : 2 ^ (3 : Nat) ≤ 2 ^ border.log2 := by
    rw [legal.shape]
    exact legal.range.1
  have exponent : 3 ≤ border.log2 := (Nat.pow_le_pow_iff_right (by omega)).mp least
  unfold levelCount Limits.levels
  omega

namespace Address

/-- The cells along every axis of the part at an address. -/
def width (border : Nat) (address : Address D) : Nat := border / 2 ^ address.length

/-- The cells of the part at an address: on every axis, as many parts of the same width lie before
it as its index says. -/
def cube (border : Nat) (address : Address D) : Box D where
  low := Vector.ofFn fun d => address.index d * address.width border
  high := Vector.ofFn fun d => (address.index d + 1) * address.width border - 1

/-- The lower end of a cube is its place among those of its level times their width. -/
theorem low_cube (address : Address D) (d : Fin D) :
    (address.cube border).low.get d = address.index d * address.width border :=
  Vector.getElem_ofFn d.isLt

/-- The upper end of a cube is the last cell before the next one of its level. -/
theorem high_cube (address : Address D) (d : Fin D) :
    (address.cube border).high.get d = (address.index d + 1) * address.width border - 1 :=
  Vector.getElem_ofFn d.isLt

/-- The parts of a level are twice as wide as those of the next. -/
theorem width_cons (legal : Legal border) (corner : Corner D) {above : Address D}
    (level : above.length + 1 < levelCount border) :
    Address.width border above = 2 * width border (corner :: above) := by
  have deep := legal.levels_lt
  have exponent : border.log2 - above.length = border.log2 - (above.length + 1) + 1 := by omega
  unfold width
  rw [List.length_cons]
  nth_rewrite 1 [← legal.shape]
  nth_rewrite 2 [← legal.shape]
  rw [Nat.pow_div (by omega) (by omega), Nat.pow_div (by omega) (by omega), exponent,
    Nat.pow_succ, Nat.mul_comm]

/-- A node can be halved: what half of its width leaves is not zero. -/
theorem width_eq_two_mul (legal : Legal border) {address : Address D}
    (level : address.length < levelCount border) :
    address.width border = 2 * (border / 2 ^ (address.length + 1)) ∧
      border / 2 ^ (address.length + 1) = 2 * (border / 2 ^ (address.length + 2)) ∧
      0 < border / 2 ^ (address.length + 2) := by
  have deep := legal.levels_lt
  have power (n : Nat) (within : n ≤ border.log2) : border / 2 ^ n = 2 ^ (border.log2 - n) := by
    nth_rewrite 1 [← legal.shape]
    exact Nat.pow_div within (by omega)
  have half : border.log2 - address.length = border.log2 - (address.length + 1) + 1 := by omega
  have quarter : border.log2 - (address.length + 1) = border.log2 - (address.length + 2) + 1 := by
    omega
  unfold width
  rw [power _ (by omega), power _ (by omega), power _ (by omega)]
  refine ⟨?_, ?_, Nat.two_pow_pos _⟩
  · rw [half, Nat.pow_succ, Nat.mul_comm]
  · rw [quarter, Nat.pow_succ, Nat.mul_comm]

/-- The cubes of all levels of a tree have cells. -/
theorem width_pos (legal : Legal border) {address : Address D}
    (level : address.length < levelCount border) : 0 < address.width border := by
  have halves := width_eq_two_mul legal level
  omega

/-- The center of a node lies half a width above the least cell of its cube. -/
theorem center_eq (legal : Legal border) {address : Address D}
    (level : address.length < levelCount border) (d : Fin D) :
    (center border address).get d =
      (2 * address.index d + 1) * (border / 2 ^ (address.length + 1)) := by
  induction address with
  | nil =>
    have root : (center border ([] : Address D)).get d = border / 2 :=
      Vector.getElem_replicate d.isLt
    simp [root, index]
  | cons corner above ih =>
    rw [List.length_cons] at level
    have upper := ih (by omega)
    have halves := (width_eq_two_mul legal (Nat.lt_of_succ_lt level)).2.1
    have shifted : (center border (corner :: above)).get d =
        if corner.getLsbD d then (center border above).get d + border / 2 ^ (above.length + 2)
        else (center border above).get d - border / 2 ^ (above.length + 2) :=
      Vector.getElem_ofFn d.isLt
    rw [shifted, upper, halves, index, List.length_cons]
    generalize border / 2 ^ (above.length + 2) = step
    have whole : (2 * Address.index above d + 1) * (2 * step) =
        (4 * Address.index above d + 2) * step := by
      ring
    cases corner.getLsbD d with
    | true =>
      simp only [if_true, Bool.toNat_true]
      rw [whole]
      ring
    | false =>
      simp only [Bool.false_eq_true, if_false, Bool.toNat_false]
      have lower : (4 * Address.index above d + 2) * step =
          (4 * Address.index above d + 1) * step + step := by
        ring
      rw [whole, lower, Nat.add_sub_cancel]
      ring

/-- The center of a node is the midpoint of its cube. -/
theorem center_midpoint (legal : Legal border) {address : Address D}
    (level : address.length < levelCount border) (d : Fin D) :
    (center border address).get d =
        (address.cube border).low.get d + address.width border / 2 ∧
      (center border address).get d + address.width border / 2 =
        (address.cube border).high.get d + 1 := by
  have halves := width_eq_two_mul legal level
  rw [center_eq legal level, low_cube, high_cube, halves.1]
  generalize border / 2 ^ (address.length + 1) = half at halves
  rw [Nat.mul_div_cancel_left _ (by omega : 0 < 2)]
  have positive : 0 < half := by omega
  refine ⟨by ring, ?_⟩
  have whole : (address.index d + 1) * (2 * half) = 2 * address.index d * half + 2 * half := by
    ring
  rw [whole, Nat.sub_add_cancel (by omega)]
  ring

/-- The centers of children lie inside the cube of their parent, on both sides of its center. -/
theorem step_le_center (legal : Legal border) {address : Address D}
    (level : address.length < levelCount border) (d : Fin D) :
    0 < border / 2 ^ (address.length + 2) ∧
      border / 2 ^ (address.length + 2) ≤ (center border address).get d ∧
      (center border address).get d + border / 2 ^ (address.length + 2) < border := by
  have halves := width_eq_two_mul legal level
  have inside := index_lt address d
  have power : 2 ^ address.length * address.width border ≤ border :=
    Nat.mul_div_le border (2 ^ address.length)
  have bound : (address.index d + 1) * address.width border ≤ border :=
    Nat.le_trans (Nat.mul_le_mul_right _ inside) power
  rw [center_eq legal level]
  rw [halves.1, halves.2.1] at bound
  rw [halves.2.1]
  generalize border / 2 ^ (address.length + 2) = step at halves bound
  have positive : 0 < step := halves.2.2
  have center : (2 * address.index d + 1) * (2 * step) =
      4 * (address.index d * step) + 2 * step := by ring
  have upper : (address.index d + 1) * (2 * (2 * step)) =
      4 * (address.index d * step) + 4 * step := by ring
  omega

end Address

/-! ## Boxes inside cubes -/

namespace Box

/-- Whether a box lies inside another. -/
def Within (inner outer : Box D) : Prop :=
  ∀ d : Fin D, outer.low.get d ≤ inner.low.get d ∧ inner.high.get d ≤ outer.high.get d

/-- A cell is between the ends of a cube exactly when its part is the one that the index counts. -/
theorem between_cube_iff {address : Address D} {d : Fin D} {cell : Nat}
    (positive : 0 < address.width border) :
    ((address.cube border).low.get d ≤ cell ↔ address.index d ≤ cell / address.width border) ∧
      (cell ≤ (address.cube border).high.get d ↔ cell / address.width border ≤ address.index d) := by
  rw [Address.low_cube, Address.high_cube]
  have upper : 0 < (address.index d + 1) * address.width border :=
    Nat.mul_pos (Nat.succ_pos _) positive
  refine ⟨(Nat.le_div_iff_mul_le positive).symm, ?_⟩
  rw [← Nat.lt_succ_iff (m := cell / _), Nat.div_lt_iff_lt_mul positive]
  show _ ↔ cell < (address.index d + 1) * address.width border
  omega

/-- A valid box lies in the cube of the root. -/
theorem Valid.between_root {box : Box D} (valid : box.Valid border) (d : Fin D) :
    (Address.cube border []).low.get d ≤ box.low.get d ∧
      box.high.get d ≤ (Address.cube border []).high.get d := by
  have inside := valid d
  rw [Address.low_cube, Address.high_cube, Address.index, Address.width, List.length_nil]
  simp only [Nat.pow_zero, Nat.div_one, Nat.zero_mul, Nat.zero_add, Nat.one_mul]
  omega

section Halving

variable {corner : Corner D} {above : Address D}

/-- A part counts the parts of the next level twice. -/
theorem div_width_cons (legal : Legal border)
    (level : (corner :: above).length < levelCount border) (cell : Nat) :
    cell / Address.width border above = cell / Address.width border (corner :: above) / 2 := by
  rw [Address.width_cons legal corner (by simpa using level), Nat.mul_comm,
    Nat.div_div_eq_div_mul]

/-- The side of a cell at a center decides between the two halves of the part. -/
theorem side_iff (legal : Legal border) (level : (corner :: above).length < levelCount border)
    (cell : Cell D) (d : Fin D) :
    (Corner.side (Address.center border above) cell).getLsbD d = true ↔
      2 * Address.index above d + 1 ≤ cell.get d / Address.width border (corner :: above) := by
  rw [List.length_cons] at level
  have positive : 0 < Address.width border (corner :: above) := Address.width_pos legal level
  rw [Corner.getLsbD_side, decide_eq_true_iff, Address.center_eq legal (by omega),
    Nat.le_div_iff_mul_le positive]
  exact Iff.rfl

end Halving

/-- The corner that holds a box is the side of both of its ends. -/
theorem corner?_eq_some_iff {box : Box D} {center : Cell D} {corner : Corner D} :
    box.corner? center = some corner ↔ ∀ d : Fin D,
      (Corner.side center box.low).getLsbD d = corner.getLsbD d ∧
        (Corner.side center box.high).getLsbD d = corner.getLsbD d := by
  constructor
  · intro held d
    obtain ⟨low, high⟩ := corner?_eq_some held
    rw [low, high]
    exact ⟨rfl, rfl⟩
  · intro bits
    have low : Corner.side center box.low = corner := Corner.ext_getLsbD fun d => (bits d).1
    have high : Corner.side center box.high = corner := Corner.ext_getLsbD fun d => (bits d).2
    unfold corner?
    simp only [low, high, if_true]

/-- A box follows an address exactly when it lies in its cube. -/
theorem follows_iff_within (legal : Legal border) {box : Box D} (valid : box.Valid border)
    {address : Address D} (level : address.length < levelCount border) :
    box.Follows border address ↔ box.Within (address.cube border) := by
  induction address with
  | nil => exact ⟨fun _ => valid.between_root, fun _ => trivial⟩
  | cons corner above ih =>
    have upper : above.length < levelCount border := Nat.lt_of_succ_lt level
    rw [Follows, ih upper, corner?_eq_some_iff]
    unfold Within
    simp only [between_cube_iff (Address.width_pos legal level),
      between_cube_iff (Address.width_pos legal upper), div_width_cons legal level]
    rw [← forall_and]
    refine forall_congr' fun d => ?_
    have ordered : box.low.get d / Address.width border (corner :: above) ≤
        box.high.get d / Address.width border (corner :: above) :=
      Nat.div_le_div_right (valid d).1
    have digit : Address.index (corner :: above) d =
        2 * Address.index above d + (corner.getLsbD d).toNat := rfl
    rw [digit]
    -- on one axis: the halves of both ends, and the half that the corner takes
    have lowSide := side_iff legal level box.low d
    have highSide := side_iff legal level box.high d
    cases low : (Corner.side (Address.center border above) box.low).getLsbD d <;>
      cases high : (Corner.side (Address.center border above) box.high).getLsbD d <;>
      cases corner.getLsbD d <;>
      simp only [low, high, Bool.false_eq_true, false_iff, true_iff, Nat.not_le, reduceCtorEq,
        Bool.toNat_false, Bool.toNat_true, true_and, and_true, and_false, false_and, and_self]
        at lowSide highSide ⊢ <;>
      omega

/-- A box leads past every address that it follows. -/
theorem suffix_lead_of_follows {box : Box D} (depth : Nat) (address front : Address D)
    (follows : box.Follows border (front ++ address)) (short : front.length ≤ depth) :
    front ++ address <:+ box.lead border depth address := by
  induction depth generalizing address front with
  | zero =>
    rw [List.length_eq_zero_iff.mp (Nat.le_zero.mp short)]
    exact List.suffix_refl _
  | succ depth ih =>
    rcases List.eq_nil_or_concat front with rfl | ⟨rest, corner, joined⟩
    · exact box.lead_suffix border _ address
    · rw [List.concat_eq_append] at joined
      subst joined
      rw [List.append_assoc, List.singleton_append] at follows ⊢
      have taken : box.corner? (Address.center border address) = some corner := by
        clear short ih
        induction rest with
        | nil => exact follows.1
        | cons _ _ deeper => exact deeper follows.2
      rw [lead, taken]
      exact ih (corner :: address) rest follows (by simpa using short)

/-- A box leads to the smallest cube around it that a node can have. -/
theorem address_spec (legal : Legal border) {box : Box D} (valid : box.Valid border) :
    (box.address border).length < levelCount border ∧
      box.Within ((box.address border).cube border) ∧
      ∀ other : Address D, other.length < levelCount border → box.Within (other.cube border) →
        other <:+ box.address border := by
  have positive : 0 < levelCount border := by
    unfold levelCount Limits.levels
    omega
  have level := box.address_length border
  refine ⟨by omega, (follows_iff_within legal valid (by omega)).mp (box.address_follows border), ?_⟩
  intro other shallow inside
  have follows := (follows_iff_within legal valid shallow).mpr inside
  have past := suffix_lead_of_follows (levelCount border - 1) [] other
    (by rw [List.append_nil]; exact follows) (by omega)
  rw [List.append_nil] at past
  exact past

/-! ## Queries that meet cubes -/

/-- A query admits an address exactly when it meets its cube. -/
theorem admitsAll_iff_meets (legal : Legal border) {query : Box D} (valid : query.Valid border)
    {address : Address D} (level : address.length < levelCount border) :
    query.AdmitsAll border address ↔ query.Meets (address.cube border) := by
  induction address with
  | nil =>
    refine ⟨fun _ d => ?_, fun _ => trivial⟩
    have inside := valid.between_root d
    have ends := valid d
    omega
  | cons corner above ih =>
    have upper : above.length < levelCount border := Nat.lt_of_succ_lt level
    rw [AdmitsAll, ih upper]
    unfold Meets Admits
    simp only [between_cube_iff (Address.width_pos legal level),
      between_cube_iff (Address.width_pos legal upper), div_width_cons legal level]
    rw [← forall_and]
    refine forall_congr' fun d => ?_
    have ordered : query.low.get d / Address.width border (corner :: above) ≤
        query.high.get d / Address.width border (corner :: above) :=
      Nat.div_le_div_right (valid d).1
    have digit : Address.index (corner :: above) d =
        2 * Address.index above d + (corner.getLsbD d).toNat := rfl
    rw [digit]
    -- on one axis: the halves in which the query lies, and the half that the corner takes
    have lowSide := side_iff legal level query.low d
    have highSide := side_iff legal level query.high d
    cases low : (Corner.side (Address.center border above) query.low).getLsbD d <;>
      cases high : (Corner.side (Address.center border above) query.high).getLsbD d <;>
      cases corner.getLsbD d <;>
      simp only [low, high, Bool.false_eq_true, false_iff, true_iff, Nat.not_le, forall_const,
        Bool.toNat_false, Bool.toNat_true, reduceCtorEq, IsEmpty.forall_iff, true_and, false_and]
        at lowSide highSide ⊢ <;>
      omega

end Box

end SpatialIndex.Partition
