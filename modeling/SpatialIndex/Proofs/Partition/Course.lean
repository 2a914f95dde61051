import SpatialIndex.Proofs.Partition.Footing

/-!
# The course of a walk

However a walk goes on and whatever items it removes, it stands in its tree. Its way has one step
for every level down to its node, so its stack is never longer than a tree has levels; the way on
which a box is looked up is no longer.
-/
namespace SpatialIndex.Partition

variable {α R : Type} {D : Nat}

namespace Walk

section Course

variable [Arithmetic α] {tree changed : Tree R D} {walk next : Walk α D}
  {place : Option (Address D)}

/-- What a walk and its tree become when the walk goes on and removes items. -/
inductive Course (tree : Tree R D) (walk : Walk α D) : Tree R D → Walk α D → Prop
  /-- Nothing has happened yet. -/
  | start : Course tree walk tree walk
  /-- The walk goes on. -/
  | advance {changed : Tree R D} {last next : Walk α D} : Course tree walk changed last →
    last.advance changed = .ok next → Course tree walk changed next
  /-- The walk removes an item of its node. -/
  | remove {between changed : Tree R D} {last next : Walk α D} {position : Nat} {released : Bool} :
    Course tree walk between last →
    last.removeItem between position = .ok (changed, next, released) →
    Course tree walk changed next

/-- A walk is firm when all along its course it relies on what is there, and its stack is no longer
than a stack has room for. -/
def Firm (tree : Tree R D) (walk : Walk α D) : Prop :=
  ∀ changed next, Course tree walk changed next →
    next.Intact changed ∧ next.way.length ≤ Limits.levels

/-- A walk that removes an item stands in what is left of the tree. -/
theorem At.stands_removeItem (stands : At tree walk place) (sound : tree.Sound) {position : Nat}
    {released : Bool} (run : walk.removeItem tree position = .ok (changed, next, released)) :
    changed.Sound ∧ ∃ there, At changed next there := by
  cases place with
  | none =>
    rw [stands.removeItem_over] at run
    cases run
  | some address =>
    cases found : (itemsAt tree.nodes address)[position]? with
    | none =>
      rw [stands.removeItem_outside sound.linked found] at run
      cases run
    | some item =>
      obtain ⟨left, after, gone, there, removed, removes, standing⟩ :=
        stands.exists_removed sound found
      rw [removed] at run
      cases run
      exact ⟨removes.sound, there, standing⟩

/-- A walk stands in its tree all along its course, its frames pass one another, and the tree stays
sound. -/
theorem At.course (stands : At tree walk place) (sound : tree.Sound) (aligned : walk.Aligned)
    (course : Course tree walk changed next) :
    changed.Sound ∧ next.Aligned ∧ ∃ there, At changed next there := by
  induction course with
  | start => exact ⟨sound, aligned, place, stands⟩
  | advance _ run ih =>
    obtain ⟨kept, passed, there, standing⟩ := ih
    exact ⟨kept, passed.advance run, standing.stands_advance kept.linked run⟩
  | remove _ run ih =>
    obtain ⟨kept, passed, there, standing⟩ := ih
    obtain ⟨left, after⟩ := standing.stands_removeItem kept run
    exact ⟨left, passed.removeItem run, after⟩

/-- The way of a walk that stands in a tree has no more steps than the tree has levels. -/
theorem At.length_way (stands : At tree walk place) (linked : Linked tree.border tree.nodes) :
    walk.way.length ≤ Limits.levels := by
  cases place with
  | none =>
    rw [stands.way_eq_nil]
    exact Nat.zero_le _
  | some address =>
    obtain ⟨key, located⟩ := stands.located (.inl rfl)
    rw [stands.way.length]
    exact Nat.le_trans (linked.shallow located) (Nat.min_le_right _ _)

/-- A walk that stands in a tree is firm. -/
theorem At.firm (stands : At tree walk place) (sound : tree.Sound) (aligned : walk.Aligned) :
    walk.Firm tree := by
  intro changed next course
  obtain ⟨kept, passed, there, standing⟩ := stands.course sound aligned course
  exact ⟨standing.intact kept.linked passed, standing.length_way kept.linked⟩

end Course

end Walk

namespace Tree

/-- The way to the node of a box has one step for every level passed. -/
theorem length_route {box : Box D} {nodes : Pool (Node R D)} {depth : Nat} {last : Step D}
    {before way : List (Step D)} (run : route box nodes depth last before = .ok way) :
    way.length ≤ before.length + depth + 1 := by
  induction depth generalizing last before with
  | zero =>
    cases run
    exact Nat.le_refl _
  | succ depth ih =>
    rw [route] at run
    split at run
    · cases run
    · split at run
      · cases run
        rw [List.length_cons]
        omega
      · split at run
        · have longer := ih run
          rw [List.length_cons] at longer
          omega
        · cases run

/-- A tree is firm when all walks that start in it are, and the ways of boxes fit a stack. -/
structure Firm (α : Type) [Arithmetic α] (tree : Tree R D) : Prop where
  /-- The walk of every box is firm. -/
  boxes : ∀ query walk, BoxWalk.start tree query = .ok walk → (Walk.box walk : Walk α D).Firm tree
  /-- The walk of every ray is firm. -/
  rays : ∀ (ray : Ray α D) reach, (Walk.ray (RayWalk.start tree ray reach)).Firm tree
  /-- The way to the node of every box fits a stack. -/
  routes : ∀ box way, route box tree.nodes (tree.levels - 1) ⟨root, 0⟩ [] = .ok way →
    way.length ≤ Limits.levels

/-- Only a valid box starts a walk. -/
theorem valid_of_start {tree : Tree R D} {query : Box D} {walk : BoxWalk D}
    (run : BoxWalk.start tree query = .ok walk) : query.Valid tree.border := by
  unfold BoxWalk.start at run
  simp only [Except.bind_eq_ok_iff] at run
  obtain ⟨⟨⟩, accepted, -⟩ := run
  unfold accept at accepted
  split at accepted
  · assumption
  · cases accepted

/-- A sound tree is firm. -/
theorem Sound.firm (α : Type) [Arithmetic α] {tree : Tree R D} (sound : tree.Sound) :
    tree.Firm α := by
  refine ⟨?_, ?_, ?_⟩
  · intro query walk run
    obtain ⟨started, runs, stands, -⟩ := Walk.start_box α sound (valid_of_start run)
    rw [run] at runs
    cases runs
    exact stands.firm sound (BoxWalk.passed_of_start run)
  · intro ray reach
    obtain ⟨there, stands, -⟩ := Walk.start_ray tree ray reach
    exact stands.firm sound trivial
  · intro box way run
    have length := length_route run
    have most : tree.levels ≤ Limits.levels := Nat.min_le_right _ _
    have several : 2 ≤ tree.levels := by
      unfold Tree.levels levelCount Limits.levels
      omega
    rw [List.length_nil] at length
    omega

end Tree

end SpatialIndex.Partition
