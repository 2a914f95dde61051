import SpatialIndex.Proofs.Partition.Address
import Mathlib.Algebra.BigOperators.Fin
import Mathlib.Algebra.Order.BigOperators.Group.Finset
import Mathlib.Tactic.Linarith

/-!
# Progress along a ray

An address has an index on every axis: its place among the parts of its level. A ray goes up on
some axes and down on the others. Its progress at an address counts, level by level and the
greatest parts first, how many parts lie behind it; a part left on some axis counts for more than
everything inside the part that is entered.
-/
namespace SpatialIndex.Partition.Address

variable {D : Nat}

/-- The place of an address on an axis, among the parts of its level. -/
def index : Address D → Fin D → Nat
  | [], _ => 0
  | corner :: above, d => 2 * index above d + (corner.getLsbD d).toNat

/-- A part has a place among the parts of its level. -/
theorem index_lt (address : Address D) (d : Fin D) : index address d < 2 ^ address.length := by
  induction address with
  | nil => exact Nat.one_pos
  | cons corner above ih =>
    have bit := (corner.getLsbD d).toNat_lt
    rw [index, List.length_cons, Nat.pow_succ]
    omega

/-- Indices determine an address of a level. -/
theorem ext_index {first second : Address D} (level : first.length = second.length)
    (same : ∀ d, index first d = index second d) : first = second := by
  have bit : ∀ b c : Bool, b.toNat = c.toNat → b = c := by decide
  induction first generalizing second with
  | nil => exact (List.length_eq_zero_iff.mp level.symm).symm
  | cons corner above ih =>
    cases second with
    | nil => simp at level
    | cons other rest =>
      have bits (d : Fin D) : index above d = index rest d ∧
          corner.getLsbD d = other.getLsbD d := by
        have equal := same d
        rw [index, index] at equal
        have left := (corner.getLsbD d).toNat_lt
        have right := (other.getLsbD d).toNat_lt
        exact ⟨by omega, bit _ _ (by omega)⟩
      rw [ih (by simpa using level) fun d => (bits d).1,
        Corner.ext_getLsbD fun d => (bits d).2]

/-! ## The way to a cell -/

/-- The address of the part of level `n` that holds a cell of the level `finest`. -/
def path (finest : Nat) (cell : Cell D) : Nat → Address D
  | 0 => []
  | n + 1 => Corner.ofTest (fun d => (cell.get d).testBit (finest - (n + 1))) :: path finest cell n

/-- The way to level `n` has `n` corners. -/
@[simp] theorem length_path (finest : Nat) (cell : Cell D) (n : Nat) :
    (path finest cell n).length = n := by
  induction n with
  | zero => rfl
  | succ n ih => rw [path, List.length_cons, ih]

/-- Going up on the way to a cell stays on that way. -/
theorem drop_path (finest : Nat) (cell : Cell D) (n k : Nat) :
    (path finest cell n).drop k = path finest cell (n - k) := by
  induction k generalizing n with
  | zero => rfl
  | succ k ih =>
    cases n with
    | zero => simp [path]
    | succ n => rw [path, List.drop_succ_cons, ih, Nat.succ_sub_succ]

/-- The way to a part is on the way to every smaller part that holds the cell. -/
theorem path_suffix (finest : Nat) (cell : Cell D) {m n : Nat} (upper : m ≤ n) :
    path finest cell m <:+ path finest cell n := by
  have dropped := drop_path finest cell n (n - m)
  rw [Nat.sub_sub_self upper] at dropped
  exact dropped ▸ List.drop_suffix _ _

/-- The index of the part that holds a cell. -/
theorem index_path {finest : Nat} {cell : Cell D} {d : Fin D} (inside : cell.get d < 2 ^ finest)
    {n : Nat} (level : n ≤ finest) :
    index (path finest cell n) d = cell.get d / 2 ^ (finest - n) := by
  induction n with
  | zero => rw [path, index, Nat.sub_zero, Nat.div_eq_of_lt inside]
  | succ n ih =>
    have halves : cell.get d / 2 ^ (finest - n) = cell.get d / 2 ^ (finest - (n + 1)) / 2 := by
      rw [Nat.div_div_eq_div_mul, ← Nat.pow_succ,
        show (finest - (n + 1)).succ = finest - n by omega]
    rw [path, index, Corner.getLsbD_ofTest, ih (by omega), halves, Nat.toNat_testBit]
    omega

/-- Cells whose parts of a level are the same have the same parts of every level above. -/
theorem path_congr {finest : Nat} {first second : Cell D} {n : Nat}
    (same : path finest first n = path finest second n) {m : Nat} (level : m ≤ n) :
    path finest first m = path finest second m := by
  have dropped := congrArg (List.drop (n - m)) same
  rw [drop_path, drop_path, show n - (n - m) = m by omega] at dropped
  exact dropped

/-! ## Going forward -/

section Progress

variable (ascends : Fin D → Bool)

/-- Whether the second address is reached from the first by going forward on some axes and back
on none. -/
def Forward (first second : Address D) : Prop :=
  first.length = second.length ∧
    ∀ d, if ascends d then index first d ≤ index second d else index second d ≤ index first d

/-- How many parts of the level lie behind an address, summed over the axes. -/
def behind (address : Address D) : Nat :=
  ∑ d, if ascends d then index address d else 2 ^ address.length - 1 - index address d

/-- The parts behind on every level, as the digits of a number, the greatest parts first. -/
def progress (base : Nat) : Address D → Nat
  | [] => 0
  | corner :: above => progress base above * base + behind ascends (corner :: above)

variable {ascends} {first second : Address D}

/-- Going forward among small parts is going forward among great ones. -/
theorem Forward.tail (forward : Forward ascends first second) :
    Forward ascends first.tail second.tail := by
  cases first with
  | nil =>
    have empty : second = [] := List.length_eq_zero_iff.mp forward.1.symm
    rw [empty]
    exact ⟨rfl, fun d => by split <;> exact Nat.le_refl _⟩
  | cons corner above =>
    cases second with
    | nil => exact absurd forward.1 (by simp)
    | cons other rest =>
      refine ⟨by simpa using forward.1, fun d => ?_⟩
      have ordered := forward.2 d
      rw [index, index] at ordered
      have left := (corner.getLsbD d).toNat_lt
      have right := (other.getLsbD d).toNat_lt
      simp only [List.tail_cons]
      split at ordered
      · rw [if_pos (by assumption)]
        omega
      · rw [if_neg (by assumption)]
        omega

/-- Going forward among small parts is going forward among those that hold them. -/
theorem Forward.drop (forward : Forward ascends first second) (k : Nat) :
    Forward ascends (first.drop k) (second.drop k) := by
  induction k generalizing first second with
  | zero => exact forward
  | succ k ih =>
    rw [← List.drop_drop, ← List.drop_drop] at *
    simpa using ih forward.tail

/-- Going forward to another part leaves more parts behind. -/
theorem Forward.behind_lt (forward : Forward ascends first second) (different : first ≠ second) :
    behind ascends first < behind ascends second := by
  have moved : ∃ d, index first d ≠ index second d := by
    by_contra still
    simp only [not_exists, not_not] at still
    exact different (ext_index forward.1 still)
  obtain ⟨d, moved⟩ := moved
  have bound := index_lt first d
  rw [forward.1] at bound
  apply Finset.sum_lt_sum
  · intro e _
    have ordered := forward.2 e
    rw [forward.1]
    split at ordered
    · rw [if_pos (by assumption), if_pos (by assumption)]
      exact ordered
    · rw [if_neg (by assumption), if_neg (by assumption)]
      omega
  · refine ⟨d, Finset.mem_univ d, ?_⟩
    have ordered := forward.2 d
    rw [forward.1]
    split at ordered
    · rw [if_pos (by assumption), if_pos (by assumption)]
      omega
    · rw [if_neg (by assumption), if_neg (by assumption)]
      omega

/-- Going forward makes progress on some level and loses none on the others. -/
theorem Forward.progress_lt {base : Nat} (forward : Forward ascends first second)
    (different : first ≠ second) : progress ascends base first < progress ascends base second := by
  induction first generalizing second with
  | nil => exact absurd (List.length_eq_zero_iff.mp forward.1.symm).symm different
  | cons corner above ih =>
    cases second with
    | nil => exact absurd forward.1 (by simp)
    | cons other rest =>
      have more := forward.behind_lt different
      rw [progress, progress]
      by_cases same : above = rest
      · rw [same] at more ⊢
        omega
      · have upper : progress ascends base above < progress ascends base rest :=
          ih forward.tail same
        have grown := Nat.mul_le_mul_right base (Nat.le_of_lt upper)
        omega

/-- The digits of progress are below a base that counts all parts of a level. -/
theorem behind_lt_base {finest : Nat} {address : Address D} (level : address.length ≤ finest) :
    behind ascends address < D * 2 ^ finest + 1 := by
  have each (d : Fin D) :
      (if ascends d then index address d else 2 ^ address.length - 1 - index address d) ≤
        2 ^ finest := by
    have bound := index_lt address d
    have wide : 2 ^ address.length ≤ 2 ^ finest := Nat.pow_le_pow_right (by omega) level
    split <;> omega
  have total : behind ascends address ≤ ∑ _d : Fin D, 2 ^ finest :=
    Finset.sum_le_sum fun d _ => each d
  rw [Finset.sum_const, Finset.card_univ, Fintype.card_fin, smul_eq_mul] at total
  omega

/-- Progress on the levels above outweighs all levels below. -/
theorem progress_cons_lt {base : Nat} {corner other : Corner D}
    (upper : progress ascends base first < progress ascends base second)
    (digit : behind ascends (corner :: first) < base) :
    progress ascends base (corner :: first) < progress ascends base (other :: second) := by
  rw [progress, progress]
  have grown : (progress ascends base first + 1) * base ≤ progress ascends base second * base :=
    Nat.mul_le_mul_right base upper
  rw [Nat.add_mul, Nat.one_mul] at grown
  omega

/-- Progress is bounded by the numbers with a digit for every level. -/
theorem progress_lt (ascends : Fin D → Bool) {finest : Nat} (address : Address D)
    (level : address.length ≤ finest) :
    progress ascends (D * 2 ^ finest + 1) address < (D * 2 ^ finest + 1) ^ address.length := by
  induction address with
  | nil => exact Nat.one_pos
  | cons corner above ih =>
    rw [List.length_cons] at level
    have upper := ih (by omega)
    have digit : behind ascends (corner :: above) < D * 2 ^ finest + 1 :=
      behind_lt_base (by simpa using level)
    rw [progress, List.length_cons, Nat.pow_succ]
    have grown : (progress ascends (D * 2 ^ finest + 1) above + 1) * (D * 2 ^ finest + 1) ≤
        (D * 2 ^ finest + 1) ^ above.length * (D * 2 ^ finest + 1) :=
      Nat.mul_le_mul_right _ upper
    rw [Nat.add_mul, Nat.one_mul] at grown
    omega

/-- A cell that goes forward among the parts of some level makes progress on that level and on
all below, and on the levels above unless it stays in its part. -/
theorem Forward.path_progress {finest level : Nat} {cell next : Cell D}
    (forward : Forward ascends (path finest cell level) (path finest next level))
    (different : path finest cell level ≠ path finest next level) {n : Nat} (fine : n ≤ finest) :
    (n < level ∧ path finest cell n = path finest next n) ∨
      progress ascends (D * 2 ^ finest + 1) (path finest cell n) <
        progress ascends (D * 2 ^ finest + 1) (path finest next n) := by
  rcases Nat.lt_or_ge n level with above | below
  · by_cases same : path finest cell n = path finest next n
    · exact .inl ⟨above, same⟩
    · have upper := forward.drop (level - n)
      rw [drop_path, drop_path, show level - (level - n) = n by omega] at upper
      exact .inr (upper.progress_lt same)
  · refine .inr ?_
    induction n, below using Nat.le_induction with
    | base => exact forward.progress_lt different
    | succ n below ih =>
      have upper := ih (by omega)
      exact progress_cons_lt upper (behind_lt_base (by simpa [path] using fine))

end Progress

end SpatialIndex.Partition.Address
