import SpatialIndex.Proofs.Arithmetic.Double.Accuracy
import SpatialIndex.Proofs.Partition.Advance
import SpatialIndex.Proofs.Partition.Ride

/-!
# Distances along a ray

Since no move goes back on any axis, the distance of a walk from the start of its ray never
decreases, however it is rounded, and a node is visited only while that distance is within the limit
of the walk. This holds in every accurate arithmetic, for every ray of finite numbers: in exact
arithmetic and in double precision.
-/
namespace SpatialIndex.Partition

variable {α R : Type} [Arithmetic α] {D : Nat} {border : Nat}

/-- A ray of finite numbers. -/
structure Ray.Finite (ray : Ray α D) : Prop where
  /-- Its start is finite. -/
  origin : ∀ d : Fin D, Arithmetic.isFinite (ray.origin.get d) = true
  /-- So is its direction. -/
  direction : ∀ d : Fin D, Arithmetic.isFinite (ray.direction.get d) = true

namespace RayWalk

variable {rounding : Rounding α} {line : Line D} {walk : RayWalk α D}

/-! ## Sums -/

section Sums

variable {n : Nat} {near far : Fin n → α}

/-- Sums of terms that are not negative are in the order of their terms. -/
theorem value_sum_mono
    (terms : ∀ i, Arithmetic.le (.finite 0) (rounding.value (near i)) = true ∧
      Arithmetic.le (rounding.value (near i)) (rounding.value (far i)) = true) :
    Arithmetic.le (rounding.value (Arithmetic.sum near)) (rounding.value (Arithmetic.sum far)) =
      true := by
  have fold (items : List (Fin n)) {first second : α}
      (nonneg : Arithmetic.le (.finite 0) (rounding.value first) = true)
      (ordered : Arithmetic.le (rounding.value first) (rounding.value second) = true) :
      Arithmetic.le (rounding.value (items.foldl (fun total i => total + near i) first))
        (rounding.value (items.foldl (fun total i => total + far i) second)) = true := by
    induction items generalizing first second with
    | nil => exact ordered
    | cons i rest ih =>
      obtain ⟨positive, grows⟩ := terms i
      rw [List.foldl_cons, List.foldl_cons]
      apply ih
      · rw [rounding.add]
        exact rounding.round_nonneg (Exact.add_nonneg nonneg positive)
      · rw [rounding.add, rounding.add]
        exact rounding.round_mono (Exact.add_mono nonneg positive ordered grows)
  have zero : rounding.value (Arithmetic.ofNat 0) = .finite 0 := rounding.value_zero
  refine fold (List.finRange n) ?_ ?_
  · rw [zero]
    rfl
  · rw [zero]
    rfl

/-- A sum is a number only when all its terms are. -/
theorem number_of_sum (number : rounding.value (Arithmetic.sum near) ≠ .nan) (i : Fin n) :
    rounding.value (near i) ≠ .nan := by
  have fold (items : List (Fin n)) {first : α}
      (sum : rounding.value (items.foldl (fun total i => total + near i) first) ≠ .nan) :
      rounding.value first ≠ .nan ∧ ∀ i ∈ items, rounding.value (near i) ≠ .nan := by
    induction items generalizing first with
    | nil => exact ⟨sum, fun i absurd => (List.not_mem_nil absurd).elim⟩
    | cons j rest ih =>
      rw [List.foldl_cons] at sum
      obtain ⟨total, others⟩ := ih sum
      rw [rounding.add] at total
      have terms : rounding.value first + rounding.value (near j) ≠ .nan := fun none =>
        total (by rw [none, rounding.round_nan])
      refine ⟨fun none => terms (by rw [none]; rfl), fun k member => ?_⟩
      rcases List.mem_cons.mp member with rfl | later
      · exact fun none => terms (by rw [none]; cases rounding.value first <;> rfl)
      · exact others k later
  exact (fold (List.finRange n) number).2 i (List.mem_finRange i)

end Sums

/-! ## Distances -/

section Distances

variable {origin factor point : α}

/-- A scaled distance is a number only when the point is. -/
theorem number_of_delta (number : rounding.value ((point - origin) * factor) ≠ .nan) :
    rounding.value point ≠ .nan := by
  intro none
  apply number
  have difference : rounding.value (point - origin) = .nan := by
    rw [rounding.sub, none, show .nan - rounding.value origin = Exact.nan from rfl,
      rounding.round_nan]
  rw [rounding.mul, difference, show Exact.nan * rounding.value factor = .nan from rfl,
    rounding.round_nan]

/-- A distance is a number only when every coordinate of the point is. -/
theorem number_of_distance {origins factors points : Vector α D}
    (number : rounding.value (distanceSquared origins factors points) ≠ .nan) (d : Fin D) :
    rounding.value (points.get d) ≠ .nan := by
  have square := number_of_sum number d
  simp only [rounding.mul _ ((points.get d - origins.get d) * factors.get d)] at square
  have scaled : rounding.value ((points.get d - origins.get d) * factors.get d) ≠ .nan :=
    fun none => square (by rw [none]; exact rounding.round_nan)
  exact number_of_delta scaled

/-- The square of a scaled distance does not decrease when the point moves on, as long as the
distance does not overflow before it is scaled. -/
theorem square_mono {next : α} {o f x z gap : ℚ} (start : rounding.value origin = .finite o)
    (scale : rounding.value factor = .finite f) (here : rounding.value point = .finite x)
    (there : rounding.value next = .finite z)
    (finite : rounding.round (.finite (z - o)) = .finite gap)
    (spans : Exact.Spans (.finite (z - o)) (.finite (x - o))) :
    let near := (point - origin) * factor
    let far := (next - origin) * factor
    Arithmetic.le (.finite 0) (rounding.value (near * near)) = true ∧
      Arithmetic.le (rounding.value (near * near)) (rounding.value (far * far)) = true := by
  intro near far
  have differences := rounding.spans_round spans
  rw [finite] at differences
  obtain ⟨former, same⟩ := differences.finite
  rw [same] at differences
  have nearValue : rounding.value near = rounding.round (.finite (former * f)) := by
    rw [rounding.mul, rounding.sub, start, scale, here, Exact.sub_finite, same, Exact.mul_finite]
  have farValue : rounding.value far = rounding.round (.finite (gap * f)) := by
    rw [rounding.mul, rounding.sub, start, scale, there, Exact.sub_finite, finite,
      Exact.mul_finite]
  obtain ⟨nonneg, grows⟩ := (rounding.spans_round (differences.mul f)).square_le
  rw [rounding.mul near, rounding.mul far, nearValue, farValue]
  exact ⟨rounding.round_nonneg nonneg, rounding.round_mono grows⟩

end Distances

/-- A move does not decrease the distance. -/
theorem Meets.le_distance {axis : Fin D} {least : α} (meets : Meets rounding line walk axis least)
    (accurate : rounding.Accurate) :
    Arithmetic.le (rounding.value (distanceSquared walk.origin walk.factors walk.point))
      (rounding.value (walk.landed axis least).travelled) = true := by
  refine value_sum_mono fun d => ?_
  obtain ⟨x, here⟩ := meets.exists_spot d
  obtain ⟨z, there, forward, ahead⟩ := meets.nextPoint_spec accurate here
  have early := meets.onward d
  rw [here] at early
  obtain ⟨f, scale⟩ : ∃ f : ℚ, rounding.value (walk.factors.get d) = .finite f := by
    have finite := meets.scale d
    rw [rounding.isFinite] at finite
    exact ⟨_, Exact.eq_finite finite⟩
  have fixed : rounding.round (.finite (line.origin d)) = .finite (line.origin d) := by
    rw [← meets.origin, rounding.round_value]
  -- the distance is not above that of the side, which does not overflow
  obtain ⟨gap, finite⟩ : ∃ gap : ℚ, rounding.round (.finite (z - line.origin d)) = .finite gap := by
    by_cases moving : walk.moves d = true
    · obtain ⟨most, bounded⟩ := accurate.nat_sub (meets.ready.side_le d) fixed
      have inside := rounding.spans_round ((early.trans forward).spans (ahead moving))
      rw [bounded] at inside
      exact inside.finite
    · have rests : line.velocity d = 0 := not_not.mp (mt (meets.moves_iff d).mpr moving)
      have still := (Onward.finite_iff.mp (early.trans forward)).2.2 rests
      rw [still, sub_self]
      exact ⟨0, rounding.round_zero⟩
  have next : rounding.value ((Vector.ofFn fun d => walk.nextPoint axis least d).get d) =
      .finite z := by
    rw [← there]
    exact congrArg rounding.value (Vector.getElem_ofFn d.isLt)
  exact square_mono (meets.origin d) scale here next finite (early.spans forward)

/-! ## Walks at nodes -/

/-- A walk that heads along a line and stands at a node: its distance is that of its point, and
within the limit. -/
structure Underway (rounding : Rounding α) (line : Line D) (walk : RayWalk α D) : Prop
    extends Heads rounding line walk where
  /-- The distance is that of the point. -/
  measured : walk.travelled = distanceSquared walk.origin walk.factors walk.point
  /-- It is within the limit. -/
  near : Arithmetic.le walk.travelled walk.limit = true

/-- From a walk to a later one: its distance has not decreased, and until it is over it has gone back
on no axis. -/
structure Passes (rounding : Rounding α) (line : Line D) (walk next : RayWalk α D) : Prop where
  /-- The distance is the same, or it has not decreased. -/
  grows : next.travelled = walk.travelled ∨ Arithmetic.le walk.travelled next.travelled = true
  /-- The ray and its limits are the same. -/
  course : next.origin = walk.origin ∧ next.direction = walk.direction ∧
    next.factors = walk.factors ∧ next.limit = walk.limit
  /-- Finite coordinates stay finite. -/
  finite : (∀ d : Fin D, Arithmetic.isFinite (walk.point.get d) = true) →
    ∀ d : Fin D, Arithmetic.isFinite (next.point.get d) = true
  /-- The walk is over, or every coordinate has moved only in its direction. -/
  onward : next.stack = [] ∨ Underway rounding line next ∧
    ∀ d : Fin D, Onward (walk.direction.get d) (walk.point.get d) (next.point.get d)

namespace Underway

/-- The way and the epoch of a walk have no part in it. -/
theorem withWay (underway : Underway rounding line walk) (stack : List (Step D)) (epoch : Nat) :
    Underway rounding line { walk with stack, epoch } :=
  ⟨⟨⟨underway.ready.legal, underway.ready.inside⟩, underway.origin, underway.direction,
    underway.scale, underway.onward, underway.below, underway.above⟩,
    underway.measured, underway.near⟩

/-- The points of a walk are numbers. -/
theorem onward_self (underway : Underway rounding line walk) (d : Fin D) :
    Onward (walk.direction.get d) (walk.point.get d) (walk.point.get d) := by
  rw [← Onward.value_iff rounding, underway.direction]
  exact .refl _ (underway.onward d).number.2

/-- A walk that changes its way only passes nothing. -/
theorem passes_withWay (underway : Underway rounding line walk) (stack : List (Step D))
    (epoch : Nat) : Passes rounding line walk { walk with stack, epoch } :=
  ⟨.inl rfl, ⟨rfl, rfl, rfl, rfl⟩, id, .inr ⟨underway.withWay stack epoch, underway.onward_self⟩⟩

/-- A move takes the walk on. -/
theorem passes_move (accurate : rounding.Accurate) (underway : Underway rounding line walk) :
    Passes rounding line walk walk.move := by
  rcases move_cases walk with stops | ⟨axis, least, nearest, bounded, stays, lands⟩
  · rw [stops]
    exact ⟨.inl rfl, ⟨rfl, rfl, rfl, rfl⟩, id, .inl rfl⟩
  · have meets : Meets rounding line walk axis least :=
      ⟨underway.toHeads, nearest, bounded, stays⟩
    obtain ⟨heads, onward⟩ := meets.landed accurate
    have grows : Arithmetic.le (rounding.value walk.travelled)
        (rounding.value (walk.landed axis least).travelled) = true := by
      rw [underway.measured]
      exact meets.le_distance accurate
    rw [lands]
    refine ⟨.inr ?_, ⟨rfl, rfl, rfl, rfl⟩, fun _ d => ?_, ?_⟩
    · rwa [rounding.le]
    · obtain ⟨x, here⟩ := meets.exists_spot d
      obtain ⟨z, there, -⟩ := meets.nextPoint_spec accurate here
      rw [rounding.isFinite, landed_point, there]
      rfl
    · by_cases far : Arithmetic.lt walk.limit (walk.landed axis least).travelled = true
      · exact .inl (if_pos far)
      · refine .inr ⟨⟨heads, rfl, ?_⟩, onward⟩
        have near := underway.near
        rw [rounding.le] at near ⊢
        rw [rounding.lt, Bool.not_eq_true] at far
        have limit := (LawfulArithmetic.number_of_le near).2
        have travelled := (LawfulArithmetic.number_of_le grows).2
        exact Exact.le_of_not_lt (Exact.isNaN_eq_false.mp limit)
          (Exact.isNaN_eq_false.mp travelled) far

end Underway

/-! ## Many moves -/

section Uses

variable {middle next final : RayWalk α D}

/-- What has been passed stays passed. -/
theorem Passes.trans (early : Passes rounding line walk middle)
    (late : Passes rounding line middle next) (ended : middle.stack = [] → next.stack = []) :
    Passes rounding line walk next := by
  obtain ⟨origin, direction, factors, limit⟩ := early.course
  refine ⟨?_, ?_, fun finite => late.finite (early.finite finite), ?_⟩
  · rcases late.grows with same | more
    · exact same ▸ early.grows
    · refine .inr ?_
      rcases early.grows with same | less
      · exact same ▸ more
      · exact rounding.le_trans less more
  · rw [← origin, ← direction, ← factors, ← limit]
    exact late.course
  · rcases late.onward with finished | ⟨underway, further⟩
    · exact .inl finished
    · rcases early.onward with finished | ⟨-, far⟩
      · exact .inl (ended finished)
      · exact .inr ⟨underway, fun d => (far d).trans_value rounding (direction ▸ further d)⟩

/-- What a walk has come to passes itself. -/
theorem Passes.self (passes : Passes rounding line walk next) : Passes rounding line next next :=
  ⟨.inl rfl, ⟨rfl, rfl, rfl, rfl⟩, id,
    passes.onward.imp_right fun ⟨underway, _⟩ => ⟨underway, underway.onward_self⟩⟩

/-- Moves take a walk on as long as it stands at nodes. -/
theorem Underway.passes_moved (accurate : rounding.Accurate)
    (underway : Underway rounding line walk) {moves : Nat}
    (standing : ∀ k < moves, (walk.moved k).stack ≠ []) :
    Passes rounding line walk (walk.moved moves) := by
  induction moves generalizing walk with
  | zero => exact underway.passes_withWay walk.stack walk.epoch
  | succ moves ih =>
    have first := underway.passes_move accurate
    rcases first.onward with finished | ⟨later, -⟩
    · have single : moves = 0 := by
        by_contra more
        exact standing 1 (by omega) finished
      rw [single]
      exact first
    · have rest := ih later fun k before => standing (k + 1) (Nat.succ_lt_succ before)
      rcases Nat.eq_zero_or_pos moves with rfl | some
      · exact first
      · exact first.trans rest fun finished => absurd finished (standing 1 (by omega))

variable {tree : Tree R D}

/-- So does the loop between two nodes. -/
theorem Underway.passes_halts (accurate : rounding.Accurate)
    (underway : Underway rounding line walk) (halts : Halts tree walk final) :
    Passes rounding line walk final := by
  obtain ⟨moves, -, blocked, ends⟩ := halts
  have passes : Passes rounding line walk (walk.moved moves) := by
    refine underway.passes_moved accurate fun k before finished => ?_
    obtain ⟨last, above, -, shape, -⟩ := blocked k before
    rw [finished] at shape
    cases shape
  cases ends with
  | finished => exact passes
  | enter shape =>
    have standing : (walk.moved moves).stack ≠ [] := by
      rw [shape]
      exact List.cons_ne_nil _ _
    have there := (passes.onward.resolve_left standing).1
    exact passes.trans (there.passes_withWay _ _) fun finished => absurd finished standing

/-- A use takes a walk on. -/
theorem Underway.passes_use (accurate : rounding.Accurate)
    (underway : Underway rounding line walk) {use : Use} {state : Tree R D × RayWalk α D}
    (leads : Leads tree walk use state) : Passes rounding line walk state.2 := by
  cases leads with
  | read | refused => exact underway.passes_withWay walk.stack walk.epoch
  | advance _ halts => exact underway.passes_halts accurate halts
  | removed => exact underway.passes_withWay _ _
  | @released _ count changed _ _ _ within halts =>
    have above :=
      (underway.withWay (walk.stack.drop count) changed.epoch).passes_halts accurate halts
    refine (underway.passes_withWay _ _).trans above fun finished => ?_
    have length := congrArg List.length finished
    rw [List.length_drop, List.length_nil] at length
    omega

/-- A use of a walk that is over leaves it where it is. -/
theorem Leads.of_over {use : Use} {state : Tree R D × RayWalk α D}
    (leads : Leads tree walk use state) (finished : walk.stack = []) :
    ∃ epoch, state.2 = { walk with epoch } := by
  have standing (changed : Tree R D) : ¬Blocked changed walk := by
    rintro ⟨last, above, -, shape, -⟩
    rw [finished] at shape
    cases shape
  cases leads with
  | read | refused => exact ⟨walk.epoch, rfl⟩
  | advance _ halts =>
    obtain ⟨moves, -, blocked, ends⟩ := halts
    have none : moves = 0 := by
      by_contra some
      exact standing _ (blocked 0 (by omega))
    subst none
    cases ends with
    | finished => exact ⟨walk.epoch, rfl⟩
    | enter shape =>
      have absurd : walk.stack = _ := shape
      rw [finished] at absurd
      cases absurd
  | @removed _ changed =>
    refine ⟨changed.epoch, ?_⟩
    simp only [above, finished, List.drop_nil]
  | released _ _ within =>
    rw [finished] at within
    cases within

/-! ## Rides -/

variable {state : Tree R D × RayWalk α D}

/-- A ride takes a walk on. -/
theorem passes_ride (accurate : rounding.Accurate) (sits : Sits state)
    (outset : Passes rounding line state.2 state.2) (uses : List Use) :
    Passes rounding line state.2 (ride state uses).2 := by
  induction uses using List.reverseRecOn with
  | nil => exact outset
  | append_singleton before use ih =>
    obtain ⟨_, _, goes, -⟩ := (sits.kept before).1.goes use
    rw [ride_append]
    show Passes rounding line state.2 (after (ride state before) use).2
    rcases ih.onward with finished | ⟨underway, -⟩
    · obtain ⟨epoch, same⟩ := goes.leads.of_over finished
      rw [same]
      exact ⟨ih.grows, ih.course, ih.finite, .inl finished⟩
    · refine ih.trans (underway.passes_use accurate goes.leads) fun finished => ?_
      obtain ⟨epoch, same⟩ := goes.leads.of_over finished
      rw [same]
      exact finished

/-- What holds of the distances of every ride along a ray. -/
structure Measured (ray : Ray α D) (reach : Reach α D) (state : Tree R D × RayWalk α D) :
    Prop where
  /-- The distance never decreases: it stays the same, or is no less. -/
  grows : ∀ early late, (ride state (early ++ late)).2.travelled = (ride state early).2.travelled ∨
    Arithmetic.le (ride state early).2.travelled (ride state (early ++ late)).2.travelled = true
  /-- At every node it is within the greatest one. -/
  near : ∀ uses, (ride state uses).2.stack = [] ∨
    Arithmetic.le (ride state uses).2.travelled (reach.distance * reach.distance) = true
  /-- There it is the sum of the squares of the scaled distances from the start on every axis. -/
  measured : ∀ uses, (ride state uses).2.stack = [] ∨
    (ride state uses).2.travelled = Arithmetic.sum fun d : Fin D =>
      let delta := ((ride state uses).2.point.get d - ray.origin.get d) * reach.factors.get d
      delta * delta
  /-- On every axis the point has moved only in the direction of the ray: from the start, and from
  every earlier node. -/
  onward : ∀ early late, (ride state (early ++ late)).2.stack = [] ∨ ∀ d : Fin D,
    Onward (ray.direction.get d) (ray.origin.get d) ((ride state (early ++ late)).2.point.get d) ∧
      Onward (ray.direction.get d) ((ride state early).2.point.get d)
        ((ride state (early ++ late)).2.point.get d)
  /-- Coordinates that are finite at first are always finite. -/
  finite : (∀ d : Fin D, Arithmetic.isFinite (state.2.point.get d) = true) →
    ∀ uses, ∀ d : Fin D, Arithmetic.isFinite ((ride state uses).2.point.get d) = true

/-- The way of a ride is measured when it starts on the course of its ray. -/
theorem Sits.measured (accurate : rounding.Accurate) (sits : Sits state)
    (outset : Passes rounding line state.2 state.2) {ray : Ray α D} {reach : Reach α D}
    (course : state.2.origin = ray.origin ∧ state.2.direction = ray.direction ∧
      state.2.factors = reach.factors ∧ state.2.limit = reach.distance * reach.distance) :
    Measured ray reach state := by
  obtain ⟨origin, direction, factors, limit⟩ := course
  have passes (uses : List Use) := passes_ride accurate sits outset uses
  have further (early late : List Use) :
      Passes rounding line (ride state early).2 (ride state (early ++ late)).2 := by
    rw [ride_append]
    exact passes_ride accurate (sits.kept early).1 (passes early).self late
  refine ⟨fun early late => (further early late).grows, fun uses => ?_, fun uses => ?_,
    fun early late => ?_, fun finite uses => (passes uses).finite finite⟩
  · refine (passes uses).onward.imp_right fun ⟨underway, _⟩ => ?_
    rw [← limit, ← (passes uses).course.2.2.2]
    exact underway.near
  · refine (passes uses).onward.imp_right fun ⟨underway, _⟩ => ?_
    rw [← origin, ← factors, ← (passes uses).course.1, ← (passes uses).course.2.2.1]
    exact underway.measured
  · refine (further early late).onward.imp_right fun ⟨underway, forward⟩ d => ⟨?_, ?_⟩
    · rw [← origin, ← direction, ← (passes (early ++ late)).course.1,
        ← (passes (early ++ late)).course.2.1, ← Onward.value_iff rounding, underway.origin,
        underway.direction]
      exact underway.onward d
    · rw [← direction, ← (passes early).course.2.1]
      exact forward d

end Uses

/-! ## The start -/

/-- The line of a ray, as numbers. -/
def course (rounding : Rounding α) (ray : Ray α D) : Line D where
  origin d := (rounding.value (ray.origin.get d)).value
  velocity d := (rounding.value (ray.direction.get d)).value

/-- The coordinates at which a finite ray starts are those of its course. -/
theorem course_origin {ray : Ray α D} (finite : ray.Finite) (d : Fin D) :
    rounding.value (ray.origin.get d) = .finite ((course rounding ray).origin d) :=
  Exact.eq_finite (by rw [← rounding.isFinite]; exact finite.origin d)

/-- The directions of a finite ray are those of its course. -/
theorem course_velocity {ray : Ray α D} (finite : ray.Finite) (d : Fin D) :
    rounding.value (ray.direction.get d) = .finite ((course rounding ray).velocity d) :=
  Exact.eq_finite (by rw [← rounding.isFinite]; exact finite.direction d)

/-- Where a ray enters the cube it has moved only in its direction. -/
theorem onward_entry {w o : ℚ} {e : Exact} (fixed : rounding.round (.finite o) = .finite o)
    (nonneg : Arithmetic.le (.finite 0) e = true)
    (number : rounding.round (.finite o + rounding.round (.finite w * e)) ≠ .nan) :
    Onward (Exact.finite w) (.finite o)
      (rounding.round (.finite o + rounding.round (.finite w * e))) := by
  have sum : .finite o + rounding.round (.finite w * e) ≠ Exact.nan := fun none =>
    number (by rw [none, rounding.round_nan])
  refine .of_finite (fun up => ?_) (fun down => ?_) fun zero => ?_
  · exact rounding.le_round_add fixed Exact.noConfusion sum
      (rounding.round_nonneg (Exact.zero_le_mul up nonneg))
  · exact rounding.round_add_le fixed Exact.noConfusion sum
      (rounding.round_nonpos (Exact.mul_le_zero down nonneg))
  · subst zero
    cases e with
    | nan | bottom => cases nonneg
    | finite e =>
      rw [Exact.mul_finite, zero_mul, rounding.round_zero, Exact.add_finite, add_zero, fixed]
      exact ⟨Exact.le_finite.mpr (le_refl o), Exact.le_finite.mpr (le_refl o)⟩
    | top =>
      -- zero times infinity is no number
      rw [show Exact.finite 0 * .top = .nan from rfl, rounding.round_nan] at sum
      exact absurd rfl sum

section Start

variable (tree : Tree R D) (ray : Ray α D) (reach : Reach α D)

/-- The ray and its limits are those with which a walk starts. -/
theorem start_course : (start tree ray reach).origin = ray.origin ∧
    (start tree ray reach).direction = ray.direction ∧
    (start tree ray reach).factors = reach.factors ∧
    (start tree ray reach).limit = reach.distance * reach.distance := by
  unfold start
  cases ray.entry? (Arithmetic.ofNat tree.border) <;> exact ⟨rfl, rfl, rfl, rfl⟩

/-- A walk starts with the border of its tree. -/
theorem start_border : (start tree ray reach).border = tree.border := by
  unfold start
  cases ray.entry? (Arithmetic.ofNat tree.border) <;> rfl

variable {tree ray} {entry : α} (enters : ray.entry? (Arithmetic.ofNat tree.border) = some entry)

include enters

/-- A walk starts at the point at which its ray enters the space. -/
theorem start_point (d : Fin D) : (start tree ray reach).point.get d =
    ray.origin.get d + ray.direction.get d * entry := by
  unfold start
  rw [enters]
  exact Vector.getElem_ofFn d.isLt

/-- A walk starts for the finest cell of that point, or for the last one on an axis. -/
theorem start_target (d : Fin D) : (start tree ray reach).target.get d =
    min (Arithmetic.floor ((start tree ray reach).point.get d /
      Arithmetic.ofNat (start tree ray reach).cellWidth))
      (2 ^ (start tree ray reach).finest - 1) := by
  rw [start_point reach enters]
  unfold start
  rw [enters]
  refine (Vector.getElem_ofFn d.isLt).trans ?_
  simp only
  rw [show (Vector.ofFn fun (d : Fin D) => ray.origin.get d + ray.direction.get d * entry).get d =
    ray.origin.get d + ray.direction.get d * entry from Vector.getElem_ofFn d.isLt]
  rfl

/-- It starts in a cell of the cube. -/
theorem start_ready (legal : Legal tree.border) : (start tree ray reach).Ready := by
  refine ⟨start_border tree ray reach ▸ legal, fun d => ?_⟩
  have some : 0 < 2 ^ (start tree ray reach).finest := Nat.two_pow_pos _
  rw [start_target reach enters]
  omega

/-- A walk that stands at the root is as far as its point, within the limit. -/
theorem start_travelled : (start tree ray reach).travelled =
    distanceSquared (start tree ray reach).origin (start tree ray reach).factors
      (start tree ray reach).point ∧
    ((start tree ray reach).stack = [] ∨
      Arithmetic.le (start tree ray reach).travelled (start tree ray reach).limit = true) := by
  unfold start
  rw [enters]
  refine ⟨rfl, ?_⟩
  simp only
  split
  · rename_i near
    exact .inr near
  · exact .inl rfl

end Start

/-- A walk that starts at the root heads along its ray. -/
theorem start_underway (accurate : rounding.Accurate) {tree : Tree R D} (legal : Legal tree.border)
    {ray : Ray α D} (finite : ray.Finite) {reach : Reach α D}
    (scaled : ∀ d : Fin D, Arithmetic.isFinite (reach.factors.get d) = true) :
    (start tree ray reach).stack = [] ∨
      Underway rounding (course rounding ray) (start tree ray reach) := by
  cases enters : ray.entry? (Arithmetic.ofNat tree.border) with
  | none =>
    left
    unfold start
    rw [enters]
  | some entry =>
    obtain ⟨measured, stands⟩ := start_travelled reach enters
    refine stands.imp_right fun near => ?_
    obtain ⟨sameOrigin, sameDirection, sameFactors, -⟩ := start_course tree ray reach
    have target := start_target reach enters
    have point := start_point reach enters
    have ready := start_ready reach enters legal
    generalize start tree ray reach = walk at *
    -- the distance is a number, so the point is
    have number (d : Fin D) : rounding.value (walk.point.get d) ≠ .nan := by
      rw [rounding.le] at near
      rw [measured] at near
      exact number_of_distance (Exact.isNaN_eq_false.mp (LawfulArithmetic.number_of_le near).1) d
    have some : 0 < 2 ^ walk.finest := Nat.two_pow_pos _
    have small : 2 ^ walk.finest ≤ Exact.greatestFloor := finest_le walk.border
    refine ⟨⟨ready, fun d => ?_, fun d => ?_, fun d => ?_, fun d => ?_, fun d _ => ?_,
      fun d _ => ?_⟩, measured, near⟩
    · rw [sameOrigin, course_origin finite]
    · rw [sameDirection, course_velocity finite]
    · rw [sameFactors]
      exact scaled d
    · have there := number d
      rw [point, rounding.add, rounding.mul, course_origin finite, course_velocity finite] at there ⊢
      refine onward_entry ?_ (entry?_spec rounding enters).1 there
      rw [← course_origin finite, rounding.round_value]
    · rw [target]
      generalize counted :
        Arithmetic.floor (walk.point.get d / Arithmetic.ofNat walk.cellWidth) = cell
      rcases Nat.lt_or_ge cell (2 ^ walk.finest - 1) with inside | last
      · rw [Nat.min_eq_left (Nat.le_of_lt inside)]
        exact .inl (le_of_floor_le accurate ready (number d) (Nat.le_of_eq counted) (by omega))
      · exact .inr (by omega)
    · refine le_of_le_floor accurate ready ?_ ?_
      · rw [target]
        exact Nat.min_le_left _ _
      · rw [target]
        omega

/-! ## Exact arithmetic -/

section Exact

variable {ray : Ray Exact D}

/-- A ray enters the cube at a finite parameter, if it does. -/
theorem foldl_clipAxis_finite (finite : ray.Finite) (axes : List (Fin D)) {q : ℚ} {leave e l : Exact}
    (run : axes.foldl (Ray.clipAxis (Arithmetic.ofNat border) ray) (some (.finite q, leave)) =
      some (e, l)) : ∃ r : ℚ, e = .finite r := by
  induction axes generalizing q leave with
  | nil =>
    cases run
    exact ⟨q, rfl⟩
  | cons d later ih =>
    rw [List.foldl_cons] at run
    by_cases rests : Arithmetic.isZero (ray.direction.get d) = true
    · rcases clipAxis_rests rests (.finite q, leave) with missed | same
      · rw [missed, foldl_clipAxis_none] at run
        cases run
      · rw [same] at run
        exact ih run
    · obtain ⟨left, moved⟩ := clipAxis_moves rests (.finite q) leave
      have origin := Exact.eq_finite (finite.origin d)
      have direction := Exact.eq_finite (finite.direction d)
      rw [direction, Exact.isZero_finite] at rests
      obtain ⟨met, meets⟩ : ∃ met : ℚ, lower (Arithmetic.ofNat border) ray d = .finite met := by
        unfold lower
        rw [origin, direction, Exact.zero_eq, Exact.ofNat_eq, Exact.sub_finite, Exact.sub_finite,
          Exact.div_finite _ rests, Exact.div_finite _ rests, Exact.min_finite]
        exact ⟨_, rfl⟩
      rw [moved, meets, Exact.max_finite] at run
      exact ih run

/-- A walk starts at a finite point. -/
theorem isFinite_start (finite : ray.Finite) (tree : Tree R D) (reach : Reach Exact D) (d : Fin D) :
    Arithmetic.isFinite ((start tree ray reach).point.get d) = true := by
  have origin := Exact.eq_finite (finite.origin d)
  have direction := Exact.eq_finite (finite.direction d)
  cases enters : ray.entry? (Arithmetic.ofNat tree.border) with
  | none =>
    unfold start
    rw [enters]
    exact finite.origin d
  | some entry =>
    have known : ∃ q : ℚ, entry = .finite q := by
      unfold Ray.entry? at enters
      simp only at enters
      split at enters
      · rename_i run
        split at enters
        · cases enters
          exact foldl_clipAxis_finite finite (List.finRange D) run
        · cases enters
      · cases enters
    obtain ⟨q, rfl⟩ := known
    rw [start_point reach enters, origin, direction]
    rfl

/-- Without rounding every coordinate is a rational number, and at every node the distance is the sum
of the squares of rational numbers. -/
theorem Measured.exists_spot (finite : ray.Finite) {tree : Tree R D} {reach : Reach Exact D}
    (scaled : ∀ d : Fin D, Arithmetic.isFinite (reach.factors.get d) = true)
    (measured : Measured ray reach (tree, start tree ray reach)) (uses : List Use) :
    ∃ spot : Fin D → ℚ,
      (∀ d : Fin D, (ride (tree, start tree ray reach) uses).2.point.get d = .finite (spot d)) ∧
      ((ride (tree, start tree ray reach) uses).2.stack = [] ∨
        (ride (tree, start tree ray reach) uses).2.travelled = .finite (∑ d : Fin D,
          ((spot d - (ray.origin.get d).value) * (reach.factors.get d).value) ^ 2)) := by
  have point (d : Fin D) := Exact.eq_finite (measured.finite (isFinite_start finite tree reach) uses d)
  refine ⟨_, point, (measured.measured uses).imp_right fun sum => ?_⟩
  rw [sum, ← Exact.sum_finite]
  congr 1
  funext d
  rw [point, Exact.eq_finite (finite.origin d), Exact.eq_finite (scaled d), sq]
  simp only [Exact.sub_finite, Exact.mul_finite]
  rfl

end Exact

/-! ## Every ride -/

/-- The distances of every ride along any ray of finite numbers, on every tree that any deeds lead to,
with any finite scale of the world and any greatest distance, in every accurate arithmetic. -/
theorem measured_of_create [DecidableEq R] {tree : Tree R D}
    (created : Tree.create border = .ok tree) (deeds : List (Deed α R D)) {rounding : Rounding α}
    (accurate : rounding.Accurate) {ray : Ray α D} (finite : ray.Finite) {reach : Reach α D}
    (scaled : ∀ d : Fin D, Arithmetic.isFinite (reach.factors.get d) = true) :
    Measured ray reach
      ((tree.share deeds).1.tree, start (tree.share deeds).1.tree ray reach) := by
  have kept := Shared.kept_of_create created deeds
  have legal : Legal (tree.share deeds).1.tree.border := by
    obtain ⟨same, stores⟩ := Tree.Stores.of_create created
    rw [kept.border_eq, ← same]
    exact stores.legal
  obtain ⟨place, stands, -⟩ := Walk.start_ray (tree.share deeds).1.tree ray reach
  have underway := start_underway accurate legal finite scaled
  have outset : Passes rounding (course rounding ray) (start (tree.share deeds).1.tree ray reach)
      (start (tree.share deeds).1.tree ray reach) :=
    ⟨.inl rfl, ⟨rfl, rfl, rfl, rfl⟩, id, underway.imp_right fun there => ⟨there, there.onward_self⟩⟩
  exact Sits.measured accurate ⟨kept.sound, place, stands⟩ outset (start_course _ ray reach)

/-- A ray that comes into the cube from outside, read in some arithmetic. -/
def Sample.slanted : Ray α 2 where
  origin := #v[Arithmetic.ofNat 0 - Arithmetic.ofNat 1, Arithmetic.ofNat 0 - Arithmetic.ofNat 2]
  direction := #v[Arithmetic.ofNat 2, Arithmetic.ofNat 3]

/-- A world that is twice as high as wide, of which the ray sees a part. -/
def Sample.sight : Reach α 2 where
  distance := Arithmetic.ofNat 100
  factors := #v[Arithmetic.ofNat 1, Arithmetic.ofNat 2]

/-- Two small items in opposite corners and a wide one. -/
def Sample.planted : List (Deed α Nat 2) :=
  [.insert 7 ⟨.replicate 2 0, .replicate 2 0⟩, .insert 8 ⟨.replicate 2 6, .replicate 2 6⟩,
    .insert 9 ⟨.replicate 2 0, .replicate 2 7⟩]

/-- The walk along that ray. -/
def Sample.incoming (tree : Tree Nat 2) : Tree Nat 2 × RayWalk α 2 :=
  ((tree.share (Sample.planted : List (Deed α Nat 2))).1.tree,
    start (tree.share (Sample.planted : List (Deed α Nat 2))).1.tree Sample.slanted Sample.sight)

/-- The nodes at which some rides stand, with their distances. -/
def Sample.stops (tree : Tree Nat 2) : List (Option Key × α) :=
  ([[], [.advance], [.advance, .remove 0]] : List (List Use)).map fun uses =>
    (current? (ride (Sample.incoming tree : Tree Nat 2 × RayWalk α 2) uses),
      (ride (Sample.incoming tree : Tree Nat 2 × RayWalk α 2) uses).2.travelled)

/-- The ride comes to the node of the first item where it enters the cube, and to that of the second
one when it removes the first, in exact arithmetic and in double precision. -/
theorem measured_of_sample : ∃ tree : Tree Nat 2, Tree.create 8 = .ok tree ∧
    (Measured Sample.slanted Sample.sight (Sample.incoming tree : Tree Nat 2 × RayWalk Exact 2) ∧
      (Sample.stops tree : List (Option Key × Exact)) =
        [(some ⟨1, 0⟩, .finite (160 / 9)), (some ⟨2, 0⟩, .finite (160 / 9)),
          (some ⟨3, 0⟩, .finite 250)]) ∧
    Measured Sample.slanted Sample.sight (Sample.incoming tree : Tree Nat 2 × RayWalk Float 2) ∧
      (Sample.stops tree : List (Option Key × Float)).map (fun stop => (stop.1, stop.2.toBits)) =
        [(some ⟨1, 0⟩, 0x4031c71c71c71c72), (some ⟨2, 0⟩, 0x4031c71c71c71c72),
          (some ⟨3, 0⟩, 0x406f400000000000)] := by
  have created : (Tree.create 8 : Except Fault (Tree Nat 2)) = .ok _ := rfl
  refine ⟨_, created, ⟨measured_of_create created Sample.planted Exact.accurate ⟨?_, ?_⟩ ?_, ?_⟩,
    measured_of_create created Sample.planted Double.accurate ⟨?_, ?_⟩ ?_, ?_⟩
  all_goals decide +kernel

end RayWalk

end SpatialIndex.Partition
