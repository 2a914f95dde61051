import SpatialIndex.Partition.BoxWalk

/-!
# Addresses of nodes

The place of a node in a partition is the list of corners on the way to it, the last one first.
An address determines the center of its node, and a box leads to one address. A query that meets
a box is admitted by every corner on the way to the address of the box.
-/
namespace SpatialIndex.Partition

/-- The corners on the way from the root to a node, the last one first. -/
abbrev Address (D : Nat) := List (Corner D)

variable {D : Nat}

namespace Corner

/-- A corner has the bits of its test. -/
theorem getLsbD_ofTest (test : Fin D → Bool) (d : Fin D) : (ofTest test).getLsbD d = test d := by
  rw [ofTest, BitVec.getLsbD_cast, BitVec.getLsbD_ofBoolListLE, List.getD_eq_getElem?_getD,
    List.getElem?_ofFn, dif_pos d.isLt]
  rfl

/-- The upper half on an axis starts at the center. -/
theorem getLsbD_side (center cell : Cell D) (d : Fin D) :
    (side center cell).getLsbD d = decide (center.get d ≤ cell.get d) :=
  getLsbD_ofTest _ d

/-- Corners with the same bits are the same. -/
theorem ext_getLsbD {first second : Corner D}
    (bits : ∀ d : Fin D, first.getLsbD d = second.getLsbD d) : first = second :=
  BitVec.eq_of_getLsbD_eq fun i bound => bits ⟨i, bound⟩

end Corner

namespace Address

/-- The center of the node at an address. -/
def center (border : Nat) : Address D → Cell D
  | [] => Vector.replicate D (border / 2)
  | corner :: above => corner.shift (center border above) (border / 2 ^ (above.length + 2))

end Address

/-! ## The way of a box -/

namespace Box

/-- The address to which a box leads from an address on, at most `depth` levels further. -/
def lead (border : Nat) (box : Box D) : (depth : Nat) → Address D → Address D
  | 0, address => address
  | depth + 1, address =>
    match box.corner? (address.center border) with
    | none => address
    | some corner => lead border box depth (corner :: address)

/-- The address to which a box leads from the root. -/
def address (border : Nat) (box : Box D) : Address D :=
  box.lead border (levelCount border - 1) []

/-- Every corner on a way is the one that holds the box. -/
def Follows (border : Nat) (box : Box D) : Address D → Prop
  | [] => True
  | corner :: above =>
    box.corner? (Address.center border above) = some corner ∧ Follows border box above

/-- A box follows the way to which it leads. -/
theorem lead_follows (border : Nat) (box : Box D) (depth : Nat) (address : Address D)
    (follows : box.Follows border address) :
    box.Follows border (box.lead border depth address) := by
  induction depth generalizing address with
  | zero => exact follows
  | succ depth ih =>
    rw [lead]
    cases taken : box.corner? (address.center border) with
    | none => exact follows
    | some corner => exact ih _ ⟨taken, follows⟩

/-- A way goes on from where it starts. -/
theorem lead_suffix (border : Nat) (box : Box D) (depth : Nat) (address : Address D) :
    address <:+ box.lead border depth address := by
  induction depth generalizing address with
  | zero => exact List.suffix_refl _
  | succ depth ih =>
    rw [lead]
    split
    · exact List.suffix_refl _
    · exact (List.suffix_cons _ _).trans (ih _)

/-- A way is no longer than the levels allow. -/
theorem lead_length (border : Nat) (box : Box D) (depth : Nat) (address : Address D) :
    (box.lead border depth address).length ≤ address.length + depth := by
  induction depth generalizing address with
  | zero => exact Nat.le_refl _
  | succ depth ih =>
    rw [lead]
    split
    · exact Nat.le_add_right _ _
    · rename_i corner _
      have longer := ih (corner :: address)
      rw [List.length_cons] at longer
      omega

/-- The way from the root ends above the lowest level. -/
theorem address_length (border : Nat) (box : Box D) :
    (box.address border).length ≤ levelCount border - 1 := by
  simpa [address] using box.lead_length border (levelCount border - 1) []

/-- Every corner on the way from the root holds the box, down to where the way ends. -/
theorem address_follows (border : Nat) (box : Box D) : box.Follows border (box.address border) :=
  box.lead_follows border _ [] trivial

/-- The corner that holds a box has the side of both of its ends. -/
theorem corner?_eq_some {box : Box D} {center : Cell D} {corner : Corner D}
    (held : box.corner? center = some corner) :
    Corner.side center box.low = corner ∧ Corner.side center box.high = corner := by
  unfold corner? at held
  simp only at held
  split at held
  · rename_i same
    rw [Option.some.injEq] at held
    exact ⟨held, same ▸ held⟩
  · simp at held

/-- Whether two boxes have a cell in common. -/
def Meets (first second : Box D) : Prop :=
  ∀ d : Fin D, first.low.get d ≤ second.high.get d ∧ second.low.get d ≤ first.high.get d

/-- A query admits a corner when it is not confined to the other half on any axis. -/
def Admits (query : Box D) (center : Cell D) (corner : Corner D) : Prop :=
  ∀ d : Fin D,
    (Corner.side center query.low).getLsbD d = (Corner.side center query.high).getLsbD d →
    corner.getLsbD d = (Corner.side center query.low).getLsbD d

/-- A query admits the corner of every box that it meets. -/
theorem Meets.admits {query box : Box D} (meets : query.Meets box) {center : Cell D}
    {corner : Corner D} (held : box.corner? center = some corner) :
    query.Admits center corner := by
  obtain ⟨low, high⟩ := corner?_eq_some held
  intro d confined
  obtain ⟨above, below⟩ := meets d
  have lowSide := congrArg (fun c : Corner D => c.getLsbD d) low
  have highSide := congrArg (fun c : Corner D => c.getLsbD d) high
  simp only [Corner.getLsbD_side] at lowSide highSide confined ⊢
  by_cases upper : center.get d ≤ query.low.get d
  · rw [← highSide, decide_eq_true upper, decide_eq_true (by omega : center.get d ≤ box.high.get d)]
  · rw [decide_eq_false upper] at confined ⊢
    have lower : ¬center.get d ≤ query.high.get d := of_decide_eq_false confined.symm
    rw [← lowSide, decide_eq_false (by omega : ¬center.get d ≤ box.low.get d)]

/-- A query admits every corner of an address. -/
def AdmitsAll (border : Nat) (query : Box D) : Address D → Prop
  | [] => True
  | corner :: above =>
    query.Admits (Address.center border above) corner ∧ AdmitsAll border query above

/-- A query admits the whole way of a box that it meets. -/
theorem Meets.admitsAll {query box : Box D} (meets : query.Meets box) {border : Nat} :
    ∀ {address : Address D}, box.Follows border address → query.AdmitsAll border address
  | [], _ => trivial
  | _ :: _, follows => ⟨meets.admits follows.1, meets.admitsAll follows.2⟩

end Box

/-- The mask of a frame lets exactly the admitted corners pass. -/
theorem BoxFrame.mask_iff_admits {R : Type} (query : Box D) (step : Step D) (node : Node R D)
    (corner : Corner D) :
    corner &&& (BoxFrame.enter query step node).mask = (BoxFrame.enter query step node).half ↔
      query.Admits node.center corner := by
  have bit (d : Fin D) (b : Bool) (c : Bool) (e : Bool) :
      (b && !(c ^^ e)) = (c && !(c ^^ e)) ↔ (c = e → b = c) := by
    cases b <;> cases c <;> cases e <;> decide
  have inside (d : Fin D) : decide (d.val < D) = true := decide_eq_true d.isLt
  constructor
  · intro same d
    have bits := congrArg (fun c : Corner D => c.getLsbD d) same
    simp only [BoxFrame.enter, BitVec.getLsbD_and, BitVec.getLsbD_not, BitVec.getLsbD_xor, inside,
      Bool.true_and] at bits
    exact (bit d _ _ _).mp bits
  · intro admits
    apply Corner.ext_getLsbD
    intro d
    simp only [BoxFrame.enter, BitVec.getLsbD_and, BitVec.getLsbD_not, BitVec.getLsbD_xor, inside,
      Bool.true_and]
    exact (bit d _ _ _).mpr (admits d)

end SpatialIndex.Partition
