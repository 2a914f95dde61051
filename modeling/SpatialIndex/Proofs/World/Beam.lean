import Mathlib.Data.Finset.Max
import SpatialIndex.Proofs.Arithmetic.Exact
import SpatialIndex.World.Beam

/-!
# Hits in exact arithmetic

The slab test looks at one plane only, the last one that separates the start of a beam from the box.
With finite numbers that is enough: a beam that starts outside a box is in it at some parameter
exactly when it is in it where it crosses that plane, and this is then the least such parameter.
-/
namespace SpatialIndex.World.Beam

variable {D : Nat}

/-! ## One axis -/

section Axis

variable {origin velocity bottom top side : ℚ}

/-- The side of a box that separates it from the start on one axis. -/
def side? (origin bottom top : ℚ) : Option ℚ :=
  if origin < bottom then some bottom else if top < origin then some top else none

/-- No side separates what is between the bounds. -/
theorem side?_eq_none_iff : side? origin bottom top = none ↔ bottom ≤ origin ∧ origin ≤ top := by
  unfold side?
  split
  · rename_i below
    exact iff_of_false (Option.some_ne_none _) fun inside => absurd inside.1 (not_le.mpr below)
  · rename_i above
    split
    · rename_i beyond
      exact iff_of_false (Option.some_ne_none _) fun inside => absurd inside.2 (not_le.mpr beyond)
    · rename_i within
      exact iff_of_true rfl ⟨not_lt.mp above, not_lt.mp within⟩

/-- A side belongs to a box that is not inverted. -/
theorem side_mem (ordered : bottom ≤ top) (separates : side? origin bottom top = some side) :
    bottom ≤ side ∧ side ≤ top := by
  unfold side? at separates
  split at separates
  · cases separates
    exact ⟨le_refl _, ordered⟩
  · split at separates
    · cases separates
      exact ⟨ordered, le_refl _⟩
    · cases separates

/-- What moves from outside to between the bounds crosses the side before. -/
theorem crossing_le {t : ℚ} (separates : side? origin bottom top = some side) (later : 0 ≤ t)
    (arrived : bottom ≤ origin + velocity * t ∧ origin + velocity * t ≤ top) :
    velocity ≠ 0 ∧ 0 ≤ (side - origin) / velocity ∧ (side - origin) / velocity ≤ t := by
  unfold side? at separates
  split at separates
  · rename_i below
    cases separates
    have gained : 0 < velocity * t := by linarith only [below, arrived.1]
    have upwards : 0 < velocity := pos_of_mul_pos_left gained later
    refine ⟨ne_of_gt upwards, div_nonneg (by linarith only [below]) (le_of_lt upwards), ?_⟩
    rw [div_le_iff₀ upwards]
    linarith only [arrived.1]
  · split at separates
    · rename_i above
      cases separates
      have lost : 0 < -velocity * t := by linarith only [above, arrived.2]
      have downwards : velocity < 0 := neg_pos.mp (pos_of_mul_pos_left lost later)
      refine ⟨ne_of_lt downwards,
        div_nonneg_of_nonpos (by linarith only [above]) (le_of_lt downwards), ?_⟩
      rw [div_le_iff_of_neg downwards]
      linarith only [arrived.2]
    · cases separates

/-- At its crossing, what moves is on the side. -/
theorem at_crossing (moves : velocity ≠ 0) :
    origin + velocity * ((side - origin) / velocity) = side := by
  rw [mul_div_cancel₀ _ moves, add_sub_cancel]

/-- What is between the bounds at two parameters is so in the meantime. -/
theorem between_meantime {r s t : ℚ} (first : r ≤ s) (last : s ≤ t)
    (start : bottom ≤ origin + velocity * r ∧ origin + velocity * r ≤ top)
    (stop : bottom ≤ origin + velocity * t ∧ origin + velocity * t ≤ top) :
    bottom ≤ origin + velocity * s ∧ origin + velocity * s ≤ top := by
  rcases le_total 0 velocity with upwards | downwards
  · have before := mul_le_mul_of_nonneg_left first upwards
    have after := mul_le_mul_of_nonneg_left last upwards
    exact ⟨by linarith only [start.1, before], by linarith only [stop.2, after]⟩
  · have before := mul_le_mul_of_nonpos_left first downwards
    have after := mul_le_mul_of_nonpos_left last downwards
    exact ⟨by linarith only [stop.1, after], by linarith only [start.2, before]⟩

end Axis

/-! ## All axes -/

/-- A beam and a box of finite numbers. -/
structure Finite (beam : Beam Exact D) (low high : Vector Exact D)
    (origin velocity bottom top : Fin D → ℚ) : Prop where
  /-- The start. -/
  origin : ∀ d : Fin D, beam.origin.get d = .finite (origin d)
  /-- The motion per unit of the parameter. -/
  velocity : ∀ d : Fin D, beam.direction.get d = .finite (velocity d)
  /-- The lower corner of the box. -/
  bottom : ∀ d : Fin D, low.get d = .finite (bottom d)
  /-- The upper corner of the box. -/
  top : ∀ d : Fin D, high.get d = .finite (top d)

/-- The parameters, not negative, at which what moves is in a box. -/
def contact (origin velocity bottom top : Fin D → ℚ) : Set ℚ :=
  {t | 0 ≤ t ∧ ∀ d, bottom d ≤ origin d + velocity d * t ∧ origin d + velocity d * t ≤ top d}

/-- A separating side of an axis is crossed at a parameter. -/
def CrossesAt (origin velocity bottom top : Fin D → ℚ) (d : Fin D) (t : ℚ) : Prop :=
  ∃ side, side? (origin d) (bottom d) (top d) = some side ∧ t = (side - origin d) / velocity d

/-- The crossing of a separating side after which no other one is left. -/
structure Last (origin velocity bottom top : Fin D → ℚ) (axis : Fin D) (t : ℚ) : Prop where
  /-- It is the crossing of a separating side. -/
  crossing : CrossesAt origin velocity bottom top axis t
  /-- Every separating side is crossed. -/
  moves : ∀ d, side? (origin d) (bottom d) (top d) ≠ none → velocity d ≠ 0
  /-- No separating side is crossed later. -/
  latest : ∀ d s, CrossesAt origin velocity bottom top d s → s ≤ t

section Contact

variable {origin velocity bottom top : Fin D → ℚ}

/-- What is in the box at some parameter has crossed every separating side before. -/
theorem CrossesAt.le {d : Fin D} {r s : ℚ} (crossing : CrossesAt origin velocity bottom top d r)
    (inside : s ∈ contact origin velocity bottom top) : 0 ≤ r ∧ r ≤ s := by
  obtain ⟨side, separates, rfl⟩ := crossing
  exact (crossing_le separates inside.1 (inside.2 d)).2

/-- At the crossing of a separating side, its axis is in the box. -/
theorem CrossesAt.between {d : Fin D} {t : ℚ} (crossing : CrossesAt origin velocity bottom top d t)
    (ordered : bottom d ≤ top d) (moves : velocity d ≠ 0) :
    bottom d ≤ origin d + velocity d * t ∧ origin d + velocity d * t ≤ top d := by
  obtain ⟨side, separates, rfl⟩ := crossing
  rw [at_crossing moves]
  exact side_mem ordered separates

/-- An axis on which a side separates has a crossing. -/
theorem exists_crossing (velocity : Fin D → ℚ) {d : Fin D}
    (outside : side? (origin d) (bottom d) (top d) ≠ none) :
    ∃ t, CrossesAt origin velocity bottom top d t := by
  obtain ⟨side, separates⟩ := Option.ne_none_iff_exists'.mp outside
  exact ⟨_, side, separates, rfl⟩

/-- Only a side that separates the start from the box is crossed. -/
theorem CrossesAt.outside {d : Fin D} {t : ℚ}
    (crossing : CrossesAt origin velocity bottom top d t) :
    side? (origin d) (bottom d) (top d) ≠ none := by
  obtain ⟨side, separates, -⟩ := crossing
  simp [separates]

/-- An axis has one crossing. -/
theorem CrossesAt.unique {d : Fin D} {s t : ℚ}
    (first : CrossesAt origin velocity bottom top d s)
    (second : CrossesAt origin velocity bottom top d t) : s = t := by
  obtain ⟨side, separates, rfl⟩ := first
  obtain ⟨other, again, rfl⟩ := second
  rw [separates, Option.some.injEq] at again
  rw [again]

/-- All last crossings are at the same parameter. -/
theorem Last.unique {axis other : Fin D} {s t : ℚ}
    (first : Last origin velocity bottom top axis s)
    (second : Last origin velocity bottom top other t) : s = t :=
  le_antisymm (second.latest axis s first.crossing) (first.latest other t second.crossing)

/-- No parameter before the last crossing is in the box. -/
theorem Last.lowerBound {axis : Fin D} {t : ℚ} (last : Last origin velocity bottom top axis t) :
    t ∈ lowerBounds (contact origin velocity bottom top) :=
  fun _ inside => (last.crossing.le inside).2

/-- What is in the box at some parameter, and starts outside it, is in the box already at the last
crossing. -/
theorem exists_last (ordered : ∀ d, bottom d ≤ top d)
    (away : ∃ d, side? (origin d) (bottom d) (top d) ≠ none) {s : ℚ}
    (inside : s ∈ contact origin velocity bottom top) :
    ∃ axis t, Last origin velocity bottom top axis t ∧
      t ∈ contact origin velocity bottom top := by
  have crossings (d : Fin D) : ∃ t, side? (origin d) (bottom d) (top d) ≠ none →
      CrossesAt origin velocity bottom top d t := by
    by_cases outside : side? (origin d) (bottom d) (top d) = none
    · exact ⟨0, fun absurd => (absurd outside).elim⟩
    · obtain ⟨t, crossing⟩ := exists_crossing velocity outside
      exact ⟨t, fun _ => crossing⟩
  choose crossing crosses using crossings
  obtain ⟨axis, member, greatest⟩ := Finset.exists_max_image
    (Finset.univ.filter fun d => side? (origin d) (bottom d) (top d) ≠ none) crossing
    (by simpa [Finset.Nonempty] using away)
  have moves (d : Fin D) (outside : side? (origin d) (bottom d) (top d) ≠ none) :
      velocity d ≠ 0 := by
    obtain ⟨side, separates⟩ := Option.ne_none_iff_exists'.mp outside
    exact (crossing_le separates inside.1 (inside.2 d)).1
  have latest (d : Fin D) (r : ℚ) (crossed : CrossesAt origin velocity bottom top d r) :
      r ≤ crossing axis := by
    rw [crossed.unique (crosses d crossed.outside)]
    exact greatest d (Finset.mem_filter.mpr ⟨Finset.mem_univ d, crossed.outside⟩)
  have last : Last origin velocity bottom top axis (crossing axis) :=
    ⟨crosses axis (Finset.mem_filter.mp member).2, moves, latest⟩
  obtain ⟨forth, before⟩ := last.crossing.le inside
  refine ⟨axis, _, last, forth, fun d => ?_⟩
  by_cases start : side? (origin d) (bottom d) (top d) = none
  · -- inside from the start on
    refine between_meantime forth before ?_ (inside.2 d)
    rw [mul_zero, add_zero]
    exact side?_eq_none_iff.mp start
  · -- inside from its own crossing on
    obtain ⟨r, crossed⟩ := exists_crossing velocity start
    exact between_meantime (latest d r crossed) before (crossed.between (ordered d) (moves d start))
      (inside.2 d)

end Contact

/-! ## The test -/

/-- A beam hits a box that no plane separates from its start, or where it meets the last separating
plane when it moves across all of them. -/
theorem hits_iff {α : Type} [Arithmetic α] (beam : Beam α D) (low high : Vector α D) :
    beam.hits low high = true ↔ (∀ d, beam.plane? low high d = none) ∨
      (∀ d, ¬beam.plane? low high d = none → ¬Arithmetic.isZero (beam.direction.get d) = true) ∧
        ∃ axis parameter, beam.entry low high = (parameter, some axis) ∧
          Arithmetic.lt parameter (Arithmetic.ofNat 0) = false ∧
          (∀ d, d = axis ∨ beam.between low high parameter d = true) ∧
          Arithmetic.le (beam.lengthSquared parameter) beam.limit = true := by
  have nowhere : ((List.finRange D).filter fun d => (beam.plane? low high d).isSome).isEmpty = true ↔
      ∀ d, beam.plane? low high d = none := by
    simp
  have stuck : (((List.finRange D).filter fun d => (beam.plane? low high d).isSome).any fun d =>
      Arithmetic.isZero (beam.direction.get d)) = true ↔ ¬∀ d, ¬beam.plane? low high d = none →
        ¬Arithmetic.isZero (beam.direction.get d) = true := by
    simp [Option.isSome_iff_ne_none]
  unfold hits
  dsimp only
  by_cases start : ∀ d, beam.plane? low high d = none
  · exact iff_of_true (if_pos (nowhere.mpr start)) (.inl start)
  rw [if_neg (mt nowhere.mp start), or_iff_right start]
  by_cases moves : ∀ d, ¬beam.plane? low high d = none →
      ¬Arithmetic.isZero (beam.direction.get d) = true
  · rw [if_neg fun still => stuck.mp still moves, and_iff_right moves]
    rcases beam.entry low high with ⟨parameter, _ | axis⟩
    · simp
    · simp [and_assoc]
  · rw [if_pos (stuck.mpr moves)]
    exact iff_of_false Bool.false_ne_true fun both => moves both.1

/-- The best crossing after one more axis was looked at. -/
def further (beam : Beam Exact D) (low high : Vector Exact D) (best : Exact × Option (Fin D))
    (d : Fin D) : Exact × Option (Fin D) :=
  match beam.plane? low high d with
  | none => best
  | some plane =>
    let parameter := (plane - beam.origin.get d) / beam.direction.get d
    if Arithmetic.lt best.1 parameter then (parameter, some d) else best

/-- The entry is the best of the crossings of all axes, one after the other. -/
theorem entry_eq (beam : Beam Exact D) (low high : Vector Exact D) :
    beam.entry low high = (List.finRange D).foldl (beam.further low high) (.bottom, none) := by
  unfold entry
  congr 1
  funext best d
  unfold further
  cases beam.plane? low high d <;> rfl

/-- The best of the crossings of some axes is the latest one, and none when no side separates. -/
def Best (origin velocity bottom top : Fin D → ℚ) (axes : List (Fin D))
    (best : Exact × Option (Fin D)) : Prop :=
  (best = (.bottom, none) ∧ ∀ d ∈ axes, side? (origin d) (bottom d) (top d) = none) ∨
    ∃ axis t, best = (.finite t, some axis) ∧ CrossesAt origin velocity bottom top axis t ∧
      ∀ d ∈ axes, ∀ s, CrossesAt origin velocity bottom top d s → s ≤ t

namespace Finite

variable {beam : Beam Exact D} {low high : Vector Exact D}
  {origin velocity bottom top : Fin D → ℚ}

/-- The plane to cross on an axis is the side that separates, in numbers. -/
theorem plane?_eq (finite : beam.Finite low high origin velocity bottom top) (d : Fin D) :
    beam.plane? low high d = (side? (origin d) (bottom d) (top d)).map .finite := by
  unfold plane? side?
  rw [finite.origin, finite.bottom, finite.top]
  simp only [Exact.lt_finite]
  split
  · rfl
  · split <;> rfl

/-- The square of the length of a beam, in numbers. -/
theorem lengthSquared_eq (finite : beam.Finite low high origin velocity bottom top) (t : ℚ) :
    beam.lengthSquared (.finite t) = .finite (∑ d, velocity d * t * (velocity d * t)) := by
  unfold lengthSquared
  rw [← Exact.sum_finite]
  congr 1
  funext d
  rw [finite.velocity]
  rfl

/-- An axis is between the sides at a parameter when it is so in numbers. -/
theorem between_iff (finite : beam.Finite low high origin velocity bottom top) {t : ℚ} {d : Fin D} :
    beam.between low high (.finite t) d = true ↔
      bottom d ≤ origin d + velocity d * t ∧ origin d + velocity d * t ≤ top d := by
  unfold between
  rw [finite.origin, finite.velocity, finite.bottom, finite.top, Exact.mul_finite,
    Exact.add_finite, Bool.not_eq_true', Bool.or_eq_false_iff, ← Bool.not_eq_true,
    ← Bool.not_eq_true, Exact.lt_finite, Exact.lt_finite, not_lt, not_lt]

/-- Looking at one more axis keeps the best crossing. -/
theorem further_best (finite : beam.Finite low high origin velocity bottom top)
    {before : List (Fin D)} {best : Exact × Option (Fin D)} {d : Fin D}
    (moves : side? (origin d) (bottom d) (top d) ≠ none → velocity d ≠ 0)
    (kept : Best origin velocity bottom top before best) :
    Best origin velocity bottom top (before ++ [d]) (beam.further low high best d) := by
  have split {property : Fin D → Prop} (each : ∀ other ∈ before, property other)
      (here : property d) : ∀ other ∈ before ++ [d], property other := by
    intro other member
    rcases List.mem_append.mp member with earlier | last
    · exact each other earlier
    · exact List.mem_singleton.mp last ▸ here
  unfold further
  rw [finite.plane?_eq]
  cases found : side? (origin d) (bottom d) (top d) with
  | none =>
    rcases kept with ⟨same, nothing⟩ | ⟨axis, t, same, crossing, greatest⟩
    · exact .inl ⟨same, split nothing found⟩
    · exact .inr ⟨axis, t, same, crossing, split greatest fun s crossed =>
        absurd found crossed.outside⟩
  | some side =>
    have crossing : CrossesAt origin velocity bottom top d ((side - origin d) / velocity d) :=
      ⟨side, found, rfl⟩
    simp only [Option.map_some, finite.origin, finite.velocity, Exact.sub_finite,
      Exact.div_finite _ (moves crossing.outside)]
    rcases kept with ⟨rfl, nothing⟩ | ⟨axis, t, rfl, former, greatest⟩
    · refine .inr ⟨d, _, if_pos rfl, crossing, split ?_ fun s crossed => ?_⟩
      · exact fun other member s crossed => absurd (nothing other member) crossed.outside
      · exact le_of_eq (crossed.unique crossing)
    · by_cases later : t < (side - origin d) / velocity d
      · refine .inr ⟨d, _, if_pos (Exact.lt_finite.mpr later), crossing, split ?_ fun s crossed => ?_⟩
        · exact fun other member s crossed =>
            le_trans (greatest other member s crossed) (le_of_lt later)
        · exact le_of_eq (crossed.unique crossing)
      · refine .inr ⟨axis, t, if_neg (mt Exact.lt_finite.mp later), former,
          split greatest fun s crossed => ?_⟩
        rw [crossed.unique crossing]
        exact not_lt.mp later

/-- When all separating sides are crossed, the entry is the last crossing. -/
theorem entry_spec (finite : beam.Finite low high origin velocity bottom top)
    (away : ∃ d, side? (origin d) (bottom d) (top d) ≠ none)
    (moves : ∀ d, side? (origin d) (bottom d) (top d) ≠ none → velocity d ≠ 0) :
    ∃ axis t, beam.entry low high = (.finite t, some axis) ∧
      Last origin velocity bottom top axis t := by
  have seen (axes : List (Fin D)) : Best origin velocity bottom top axes
      (axes.foldl (beam.further low high) (.bottom, none)) := by
    induction axes using List.reverseRecOn with
    | nil => exact .inl ⟨rfl, fun d absurd => (List.not_mem_nil absurd).elim⟩
    | append_singleton before d ih =>
      rw [List.foldl_append]
      exact finite.further_best (moves d) ih
  rcases seen (List.finRange D) with ⟨-, nothing⟩ | ⟨axis, t, same, crossing, greatest⟩
  · obtain ⟨d, outside⟩ := away
    exact absurd (nothing d (List.mem_finRange d)) outside
  · rw [← entry_eq] at same
    exact ⟨axis, t, same, crossing, moves, fun d => greatest d (List.mem_finRange d)⟩

/-- A beam hits a box when it starts inside, or when it is in the box at the last crossing, no
further than its length. -/
theorem hits_iff_last (finite : beam.Finite low high origin velocity bottom top)
    (ordered : ∀ d, bottom d ≤ top d) :
    beam.hits low high = true ↔ (∀ d, side? (origin d) (bottom d) (top d) = none) ∨
      ∃ axis t, Last origin velocity bottom top axis t ∧ t ∈ contact origin velocity bottom top ∧
        Arithmetic.le (.finite (∑ d, velocity d * t * (velocity d * t))) beam.limit = true := by
  have separated (d : Fin D) : beam.plane? low high d = none ↔
      side? (origin d) (bottom d) (top d) = none := by
    rw [finite.plane?_eq, Option.map_eq_none_iff]
  have still (d : Fin D) : Arithmetic.isZero (beam.direction.get d) = true ↔ velocity d = 0 := by
    rw [finite.velocity, Exact.isZero_finite]
  have forwards (t : ℚ) : Arithmetic.lt (.finite t) (Arithmetic.ofNat 0 : Exact) = false ↔ 0 ≤ t := by
    rw [← Bool.not_eq_true, Exact.zero_eq, Exact.lt_finite, not_lt]
  simp only [hits_iff, separated, still]
  by_cases start : ∀ d, side? (origin d) (bottom d) (top d) = none
  · exact iff_of_true (.inl start) (.inl start)
  have away := not_forall.mp start
  rw [or_iff_right start, or_iff_right start]
  constructor
  · rintro ⟨moves, axis, parameter, entered, forth, others, short⟩
    obtain ⟨other, t, same, last⟩ := finite.entry_spec away moves
    rw [entered, Prod.mk.injEq, Option.some.injEq] at same
    obtain ⟨rfl, rfl⟩ := same
    refine ⟨axis, t, last, ⟨(forwards t).mp forth, fun d => ?_⟩, finite.lengthSquared_eq t ▸ short⟩
    rcases others d with rfl | between
    · exact last.crossing.between (ordered _) (moves _ last.crossing.outside)
    · exact finite.between_iff.mp between
  · rintro ⟨axis, t, last, inside, short⟩
    obtain ⟨other, s, entered, latest⟩ := finite.entry_spec away last.moves
    obtain rfl := latest.unique last
    exact ⟨last.moves, other, _, entered, (forwards s).mpr inside.1,
      fun d => .inr (finite.between_iff.mpr (inside.2 d)), finite.lengthSquared_eq s ▸ short⟩

/-- A beam that hits a box meets it, no further than its length. -/
theorem exists_of_hits (finite : beam.Finite low high origin velocity bottom top)
    (ordered : ∀ d, bottom d ≤ top d)
    (positive : Arithmetic.le (.finite 0) beam.limit = true) (hit : beam.hits low high = true) :
    ∃ t : ℚ, 0 ≤ t ∧
      (∀ d, bottom d ≤ origin d + velocity d * t ∧ origin d + velocity d * t ≤ top d) ∧
      Arithmetic.le (.finite (∑ d, velocity d * t * (velocity d * t))) beam.limit = true := by
  rcases (finite.hits_iff_last ordered).mp hit with start | ⟨-, t, -, ⟨forth, inside⟩, short⟩
  · refine ⟨0, le_refl _, fun d => ?_, by simpa using positive⟩
    rw [mul_zero, add_zero]
    exact side?_eq_none_iff.mp (start d)
  · exact ⟨t, forth, inside, short⟩

/-- The slab test is exact: a beam hits a box that is not inverted exactly when it starts in the box,
or when there is a least parameter at which it is in the box and it is no longer there than its
reach. There is a least such parameter whenever there is one at all. -/
theorem hits_iff_least (finite : beam.Finite low high origin velocity bottom top)
    (ordered : ∀ d, bottom d ≤ top d) {reach : Exact} (limited : beam.limit = reach * reach) :
    (beam.hits low high = true ↔
      (∀ d, bottom d ≤ origin d ∧ origin d ≤ top d) ∨
        ∃ t₀, IsLeast (contact origin velocity bottom top) t₀ ∧
          Arithmetic.le (.finite (∑ d, (velocity d * t₀) ^ 2)) (reach * reach) = true) ∧
      ((contact origin velocity bottom top).Nonempty →
        ∃ t₀, IsLeast (contact origin velocity bottom top) t₀) := by
  have length (t : ℚ) : ∑ d, velocity d * t * (velocity d * t) = ∑ d, (velocity d * t) ^ 2 :=
    Finset.sum_congr rfl fun d _ => (sq _).symm
  constructor
  · simp only [finite.hits_iff_last ordered, side?_eq_none_iff, length, limited]
    constructor
    · rintro (start | ⟨axis, t, last, inside, short⟩)
      · exact .inl start
      · exact .inr ⟨t, ⟨inside, last.lowerBound⟩, short⟩
    · rintro (start | ⟨t₀, ⟨inside, least⟩, short⟩)
      · exact .inl start
      · by_cases start : ∀ d, bottom d ≤ origin d ∧ origin d ≤ top d
        · exact .inl start
        · have away : ∃ d, side? (origin d) (bottom d) (top d) ≠ none := by
            obtain ⟨d, outside⟩ := not_forall.mp start
            exact ⟨d, fun none => outside (side?_eq_none_iff.mp none)⟩
          obtain ⟨axis, t, last, reached⟩ := exists_last ordered away inside
          have same : t = t₀ := le_antisymm (last.lowerBound inside) (least reached)
          exact .inr ⟨axis, t, last, reached, same ▸ short⟩
  · rintro ⟨s, inside⟩
    by_cases away : ∃ d, side? (origin d) (bottom d) (top d) ≠ none
    · obtain ⟨axis, t, last, reached⟩ := exists_last ordered away inside
      exact ⟨t, reached, last.lowerBound⟩
    · simp only [not_exists, not_not, side?_eq_none_iff] at away
      refine ⟨0, ⟨le_refl _, fun d => ?_⟩, fun t member => member.1⟩
      rw [mul_zero, add_zero]
      exact away d

/-- A beam along one axis, downwards, that ends where it enters the box. -/
theorem hits_along_axis :
    (Beam.mk #v[.finite 3, .finite 1] #v[.finite (-1), .finite 0]
        (Exact.finite 2 * .finite 2)).hits #v[.finite 0, .finite 0] #v[.finite 1, .finite 2] = true ∧
      IsLeast (contact ![3, 1] ![-1, 0] ![0, 0] ![1, 2]) 2 := by
  have entered : IsLeast (contact ![(3 : ℚ), 1] ![-1, 0] ![0, 0] ![1, 2]) 2 := by
    constructor
    · refine ⟨by norm_num, Fin.forall_fin_two.mpr ⟨?_, ?_⟩⟩ <;> norm_num
    · intro t inside
      have bounded : 3 + -1 * t ≤ 1 := (inside.2 0).2
      linarith only [bounded]
  have finite : (Beam.mk #v[Exact.finite 3, .finite 1] #v[.finite (-1), .finite 0]
      (Exact.finite 2 * .finite 2)).Finite #v[.finite 0, .finite 0] #v[.finite 1, .finite 2]
      ![3, 1] ![-1, 0] ![0, 0] ![1, 2] := by
    constructor <;> exact Fin.forall_fin_two.mpr ⟨rfl, rfl⟩
  have ordered : ∀ d, (![0, 0] : Fin 2 → ℚ) d ≤ (![1, 2] : Fin 2 → ℚ) d := by
    refine Fin.forall_fin_two.mpr ⟨?_, ?_⟩ <;> norm_num
  refine ⟨(finite.hits_iff_least ordered rfl).1.mpr (.inr ⟨2, entered, ?_⟩), entered⟩
  rw [Exact.mul_finite, Exact.le_finite, Fin.sum_univ_two]
  norm_num

end Finite

end SpatialIndex.World.Beam
