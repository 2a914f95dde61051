import SpatialIndex.Proofs.Arithmetic.Exact
import SpatialIndex.Proofs.Partition.Footing

/-!
# Many walks over one tree

Any number of walks share one tree, and the tree is changed directly or by a walk that removes an
item. The history of a run tells which walks were made or copied and who changed the tree. The
epochs are exact about it: a walk is refused if and only if the tree was changed by anything but
that walk since the walk was started, or copied from one that was in step. A walk in step stands on
nodes that are there, so nothing that is done with it can fail but for want of an item.
-/
namespace SpatialIndex.Partition

variable {α R : Type} {D : Nat}

/-- What a walk can be used for. -/
inductive Use
  /-- Read the items of the current node. -/
  | read
  /-- Go on. -/
  | advance
  /-- Remove an item of the current node. -/
  | remove (position : Nat)

/-- What can be done with a tree and the walks over it. A walk is named by its place in the order
in which the walks were made. -/
inductive Deed (α R : Type) (D : Nat)
  /-- Put an item into the tree. -/
  | insert (item : R) (box : Box D)
  /-- Remove an item from the tree. -/
  | erase (item : R) (box : Box D)
  /-- Remove all items. -/
  | clear
  /-- Start a walk over the nodes of a box. -/
  | walkBox (query : Box D)
  /-- Start a walk over the nodes of a ray. -/
  | walkRay (ray : Ray α D) (reach : Reach α D)
  /-- Copy a walk. -/
  | copy (walk : Nat)
  /-- Use a walk. -/
  | use (walk : Nat) (purpose : Use)

/-- A tree and the walks that were made over it, the first one first. -/
structure Shared (α R : Type) (D : Nat) where
  /-- The tree. -/
  tree : Tree R D
  /-- The walks. -/
  walks : List (Walk α D)

namespace Shared

/-- One more walk. -/
def join (shared : Shared α R D) (walk : Walk α D) : Shared α R D :=
  { shared with walks := shared.walks ++ [walk] }

end Shared

/-! ## Runs -/

section Runs

variable [Arithmetic α] [DecidableEq R]

/-- Use a walk. The tree and the walk that come of it are returned. -/
def Use.run (tree : Tree R D) (walk : Walk α D) : Use → Except Fault (Tree R D × Walk α D)
  | read => (walk.items? tree).map fun _ => (tree, walk)
  | advance => (walk.advance tree).map fun next => (tree, next)
  | remove position => (walk.removeItem tree position).map fun outcome => (outcome.1, outcome.2.1)

/-- Whether a use changes the tree. -/
def Use.changes : Use → Bool
  | read | advance => false
  | remove _ => true

/-- Use a walk of those over a tree; nothing is done when there is none of the number. -/
def Shared.use (shared : Shared α R D) (n : Nat) (use : Use) : Except Fault (Shared α R D) :=
  match shared.walks[n]? with
  | none => .ok shared
  | some walk => (use.run shared.tree walk).map fun (tree, next) =>
    ⟨tree, shared.walks.set n next⟩

/-- Do a deed. -/
def Deed.run : Deed α R D → Action (Shared α R D) Unit
  | insert item box => onTree (Tree.insert item box)
  | erase item box => onTree (Tree.erase item box)
  | clear => modify fun shared => { shared with tree := shared.tree.clear }
  | walkBox query => onWalks fun shared =>
    (BoxWalk.start shared.tree query).map fun walk => shared.join (.box walk)
  | walkRay ray reach => modify fun shared =>
    shared.join (.ray (RayWalk.start shared.tree ray reach))
  | copy n => modify fun shared => (shared.walks[n]?.map shared.join).getD shared
  | use n purpose => onWalks fun shared => shared.use n purpose
where
  onTree (action : Action (Tree R D) Unit) : Action (Shared α R D) Unit :=
    Action.onPart Shared.tree (fun tree shared => { shared with tree }) action
  onWalks (act : Shared α R D → Except Fault (Shared α R D)) : Action (Shared α R D) Unit := do
    let shared ← get
    let changed ← Action.ofExcept (act shared)
    set changed

/-- What happened to the tree or to the walks. -/
inductive Event
  /-- The tree was changed, by a walk or directly. -/
  | changed (walk? : Option Nat)
  /-- A walk was started. -/
  | started
  /-- A walk was copied. -/
  | copied (walk : Nat)
deriving DecidableEq

/-- What a deed makes happen. A box that is not accepted changes nothing; an erasure with one that
is accepted is a change even when it fails. -/
def Deed.events (shared : Shared α R D) : Deed α R D → List Event
  | insert _ box | erase _ box => if box.Valid shared.tree.border then [.changed none] else []
  | clear => [.changed none]
  | walkBox query => if query.Valid shared.tree.border then [.started] else []
  | walkRay _ _ => [.started]
  | copy n => if n < shared.walks.length then [.copied n] else []
  | use n purpose =>
    match shared.walks[n]? with
    | none => []
    | some walk =>
      match purpose.run shared.tree walk with
      | .ok _ => if purpose.changes then [.changed (some n)] else []
      | .error _ => []

/-- A tree with its walks after a deed, which may have failed. -/
def Shared.after (shared : Shared α R D) (deed : Deed α R D) : Shared α R D :=
  match deed.run shared with
  | .ok _ after | .error _ after => after

/-- A tree with its walks and the history, the latest event first, after a deed. -/
def Deed.follow (state : Shared α R D × List Event) (deed : Deed α R D) :
    Shared α R D × List Event :=
  (state.1.after deed, deed.events state.1 ++ state.2)

/-- What deeds lead to on a tree without walks. -/
def Tree.share (tree : Tree R D) (deeds : List (Deed α R D)) : Shared α R D × List Event :=
  deeds.foldl Deed.follow (⟨tree, []⟩, [])

end Runs

section Parts

variable {shared : Shared α R D} {action : Action (Tree R D) Unit} {changed : Tree R D}

/-- An action on the tree that ends well. -/
theorem onTree_ok (run : action shared.tree = .ok () changed) :
    Deed.run.onTree action shared = .ok () { shared with tree := changed } := by
  simp only [Deed.run.onTree, Action.onPart, run]

/-- An action on the tree that fails. -/
theorem onTree_error {fault : Fault} (run : action shared.tree = .error fault changed) :
    Deed.run.onTree action shared = .error fault { shared with tree := changed } := by
  simp only [Deed.run.onTree, Action.onPart, run]

end Parts

/-- What a use of the walks does to the tree and the walks. -/
theorem onWalks_eq (act : Shared α R D → Except Fault (Shared α R D)) (shared : Shared α R D) :
    Deed.run.onWalks act shared =
      match act shared with
      | .ok changed => .ok () changed
      | .error fault => .error fault shared := by
  have reads : (get : Action (Shared α R D) (Shared α R D)) shared = .ok shared shared := rfl
  unfold Deed.run.onWalks Action.ofExcept
  simp only [bind, EStateM.bind, reads]
  cases act shared <;> rfl

/-! ## Histories -/

/-- How many walks were made. -/
def made : List Event → Nat
  | [] => 0
  | .changed _ :: before => made before
  | .started :: before | .copied _ :: before => made before + 1

/-- Whether a walk is in step: since it was started, or copied from a walk in step, nothing but the
walk itself changed the tree. -/
def inStep : List Event → Nat → Bool
  | [], _ => false
  | .changed walk? :: before, n => walk? == some n && inStep before n
  | .started :: before, n => n == made before || inStep before n
  | .copied source :: before, n => n == made before && inStep before source || inStep before n

/-- Only walks that were made are in step. -/
theorem lt_made_of_inStep {history : List Event} {n : Nat} (known : inStep history n = true) :
    n < made history := by
  induction history with
  | nil => cases known
  | cons event before ih =>
    cases event with
    | changed walk? =>
      rw [inStep, Bool.and_eq_true] at known
      exact ih known.2
    | started =>
      rw [inStep, Bool.or_eq_true, beq_iff_eq] at known
      rw [made]
      rcases known with rfl | former
      · exact Nat.lt_succ_self _
      · exact Nat.lt_succ_of_lt (ih former)
    | copied source =>
      rw [inStep, Bool.or_eq_true, Bool.and_eq_true, beq_iff_eq] at known
      rw [made]
      rcases known with ⟨rfl, -⟩ | former
      · exact Nat.lt_succ_self _
      · exact Nat.lt_succ_of_lt (ih former)

namespace Shared

/-! ## What a run keeps -/

/-- A tree with its walks is as its history tells. -/
structure Kept (border : Nat) (shared : Shared α R D) (history : List Event) : Prop where
  /-- The border stays. -/
  border_eq : shared.tree.border = border
  /-- The tree is between two mutations. -/
  sound : shared.tree.Sound
  /-- The walks are those that were made. -/
  counted : shared.walks.length = made history
  /-- A walk that knows the tree stands in it. -/
  attends : ∀ walk ∈ shared.walks, walk.Attends shared.tree
  /-- The frames of box walks have passed one another. -/
  aligned : ∀ walk ∈ shared.walks, walk.Aligned
  /-- A walk knows the tree exactly when it is in step. -/
  exact : ∀ n walk, shared.walks[n]? = some walk →
    (walk.epoch = shared.tree.epoch ↔ inStep history n = true)

variable {border : Nat} {shared : Shared α R D} {history : List Event}

/-- A new tree has no walks. -/
theorem Kept.of_create {tree : Tree R D} (created : Tree.create border = .ok tree) :
    Kept border (⟨tree, []⟩ : Shared α R D) [] := by
  obtain ⟨same, stores⟩ := Tree.Stores.of_create created
  refine ⟨same, stores.sound, rfl, ?_, ?_, ?_⟩
  · exact fun walk absurd => (List.not_mem_nil absurd).elim
  · exact fun walk absurd => (List.not_mem_nil absurd).elim
  · exact fun n walk absurd => by simp at absurd

/-- A walk that knows the tree stands in it. -/
theorem Kept.stands (kept : Kept border shared history) {n : Nat} {walk : Walk α D}
    (there : shared.walks[n]? = some walk) (known : walk.epoch = shared.tree.epoch) :
    ∃ place, walk.At shared.tree place :=
  (kept.attends walk (List.mem_of_getElem? there)).stands known

/-- A direct change leaves no walk in step. -/
theorem Kept.overtake (kept : Kept border shared history) {changed : Tree R D}
    (sound : changed.Sound) (same : changed.border = shared.tree.border)
    (later : changed.epoch = shared.tree.epoch + 1) :
    Kept border { shared with tree := changed } (.changed none :: history) := by
  refine ⟨same.trans kept.border_eq, sound, kept.counted, ?_, kept.aligned, ?_⟩
  · exact fun walk member => (kept.attends walk member).overtaken later
  · intro n walk there
    have past := (kept.attends walk (List.mem_of_getElem? there)).past
    have stale : walk.epoch ≠ changed.epoch := by omega
    exact iff_of_false stale (by simp [inStep])

/-- One more walk keeps what a run keeps when it is in step as the history tells. -/
theorem Kept.join (kept : Kept border shared history) {walk : Walk α D} {event : Event}
    (attends : walk.Attends shared.tree) (aligned : walk.Aligned)
    (counts : made (event :: history) = made history + 1)
    (own : walk.epoch = shared.tree.epoch ↔ inStep (event :: history) (made history) = true)
    (others : ∀ n < made history, inStep (event :: history) n = inStep history n) :
    Kept border (shared.join walk) (event :: history) := by
  have split {other : Walk α D} (member : other ∈ (shared.join walk).walks) :
      other ∈ shared.walks ∨ other = walk := by
    simpa [Shared.join] using member
  refine ⟨kept.border_eq, kept.sound, ?_, ?_, ?_, ?_⟩
  · rw [counts, ← kept.counted]
    exact List.length_append
  · intro other member
    rcases split member with former | rfl
    · exact kept.attends other former
    · exact attends
  · intro other member
    rcases split member with former | rfl
    · exact kept.aligned other former
    · exact aligned
  · intro n other there
    have listed : (shared.walks ++ [walk])[n]? = some other := there
    rcases Nat.lt_trichotomy n shared.walks.length with lower | here | beyond
    · rw [List.getElem?_append_left lower] at listed
      rw [others n (kept.counted ▸ lower)]
      exact kept.exact n other listed
    · subst here
      rw [List.getElem?_append_right (Nat.le_refl _), Nat.sub_self] at listed
      cases listed
      rw [kept.counted]
      exact own
    · rw [List.getElem?_eq_none (by simp; omega)] at listed
      cases listed

/-- A walk that is in step from its start on keeps what a run keeps. -/
theorem Kept.start (kept : Kept border shared history) {walk : Walk α D}
    {place : Option (Address D)} (stands : walk.At shared.tree place) (aligned : walk.Aligned) :
    Kept border (shared.join walk) (.started :: history) := by
  apply kept.join stands.attends aligned rfl
  · refine iff_of_true stands.epoch_eq ?_
    rw [inStep, beq_self_eq_true, Bool.true_or]
  · intro n former
    rw [inStep, beq_false_of_ne (Nat.ne_of_lt former), Bool.false_or]

/-- A copy is in step when its source is. -/
theorem Kept.copy (kept : Kept border shared history) {n : Nat} {walk : Walk α D}
    (there : shared.walks[n]? = some walk) :
    Kept border (shared.join walk) (.copied n :: history) := by
  have member := List.mem_of_getElem? there
  apply kept.join (kept.attends walk member) (kept.aligned walk member) rfl
  · have fresh : inStep history (made history) = false := by
      cases known : inStep history (made history) with
      | false => rfl
      | true => exact absurd (lt_made_of_inStep known) (Nat.lt_irrefl _)
    rw [inStep, beq_self_eq_true, Bool.true_and, fresh, Bool.or_false]
    exact kept.exact n walk there
  · intro m former
    rw [inStep, beq_false_of_ne (Nat.ne_of_lt former), Bool.false_and, Bool.false_or]

/-- A walk in step that goes on stays in step, and so do the others. -/
theorem Kept.advance (kept : Kept border shared history) {n : Nat} {walk next : Walk α D}
    {place : Option (Address D)} (there : shared.walks[n]? = some walk)
    (known : walk.epoch = shared.tree.epoch) (stands : next.At shared.tree place)
    (aligned : next.Aligned) :
    Kept border { shared with walks := shared.walks.set n next } history := by
  refine ⟨kept.border_eq, kept.sound, ?_, ?_, ?_, ?_⟩
  · exact List.length_set.trans kept.counted
  · intro other member
    rcases List.mem_or_eq_of_mem_set member with former | rfl
    · exact kept.attends other former
    · exact stands.attends
  · intro other member
    rcases List.mem_or_eq_of_mem_set member with former | rfl
    · exact kept.aligned other former
    · exact aligned
  · intro m other listed
    by_cases same : n = m
    · subst same
      rw [List.getElem?_set_self (List.getElem?_eq_some_iff.mp there).1] at listed
      cases listed
      exact iff_of_true stands.epoch_eq ((kept.exact n walk there).mp known)
    · rw [List.getElem?_set_ne same] at listed
      exact kept.exact m other listed

/-- A walk in step that changes the tree is the only one in step. -/
theorem Kept.change (kept : Kept border shared history) {n : Nat} {walk next : Walk α D}
    {changed : Tree R D} {place : Option (Address D)} (there : shared.walks[n]? = some walk)
    (known : walk.epoch = shared.tree.epoch) (sound : changed.Sound)
    (same : changed.border = shared.tree.border)
    (later : changed.epoch = shared.tree.epoch + 1) (stands : next.At changed place)
    (aligned : next.Aligned) :
    Kept border ⟨changed, shared.walks.set n next⟩ (.changed (some n) :: history) := by
  refine ⟨same.trans kept.border_eq, sound, List.length_set.trans kept.counted, ?_, ?_, ?_⟩
  · intro other member
    rcases List.mem_or_eq_of_mem_set member with former | rfl
    · exact (kept.attends other former).overtaken later
    · exact stands.attends
  · intro other member
    rcases List.mem_or_eq_of_mem_set member with former | rfl
    · exact kept.aligned other former
    · exact aligned
  · intro m other listed
    by_cases own : n = m
    · subst own
      have listed' : (shared.walks.set n next)[n]? = some other := listed
      rw [List.getElem?_set_self (List.getElem?_eq_some_iff.mp there).1] at listed'
      cases listed'
      refine iff_of_true stands.epoch_eq ?_
      rw [inStep, beq_self_eq_true, Bool.true_and]
      exact (kept.exact n walk there).mp known
    · have listed' : (shared.walks.set n next)[m]? = some other := listed
      rw [List.getElem?_set_ne own] at listed'
      have past := (kept.attends other (List.mem_of_getElem? listed')).past
      have stale : other.epoch ≠ changed.epoch := by omega
      have foreign : (some n == some m) = false := beq_false_of_ne fun equal =>
        own (Option.some.inj equal)
      exact iff_of_false stale (by rw [inStep, foreign, Bool.false_and]; exact Bool.false_ne_true)

/-! ## One use -/

/-- Why a use of a walk in step can fail. -/
def Lacks (walk : Walk α D) (fault : Fault) : Use → Prop
  | .read | .advance => False
  | .remove position =>
    walk.current? = none ∧ fault = .finishedWalk ∨ fault = .itemPosition position

/-- The guard is no want of an item. -/
theorem not_lacks_staleness (walk : Walk α D) (use : Use) : ¬Lacks walk walk.staleness use := by
  cases use with
  | read => exact id
  | advance => exact id
  | remove position =>
    rintro (⟨-, absurd⟩ | absurd)
    · cases walk <;> cases absurd
    · cases walk <;> cases absurd

section Uses

variable [Arithmetic α]

/-- What a use of a walk in step comes to. -/
inductive Comes (tree : Tree R D) (walk : Walk α D) (use : Use) : Prop
  /-- The walk goes on in the same tree. -/
  | stays {next : Walk α D} {place : Option (Address D)} :
    use.run tree walk = .ok (tree, next) → use.changes = false → next.At tree place →
    next.Aligned → Comes tree walk use
  /-- The walk changes the tree. -/
  | changes {changed : Tree R D} {next : Walk α D} {place : Option (Address D)} :
    use.run tree walk = .ok (changed, next) → use.changes = true → changed.Sound →
    changed.border = tree.border → changed.epoch = tree.epoch + 1 → next.At changed place →
    next.Aligned → Comes tree walk use
  /-- There is nothing to remove. -/
  | lacks {fault : Fault} :
    use.run tree walk = .error fault → Lacks walk fault use → Comes tree walk use

/-- A use that comes to something ends well, or there is nothing to remove. -/
theorem Comes.outcome {tree : Tree R D} {walk : Walk α D} {use : Use}
    (comes : Comes tree walk use) : (∃ outcome, use.run tree walk = .ok outcome) ∨
      ∃ fault, use.run tree walk = .error fault ∧ Lacks walk fault use := by
  cases comes with
  | stays run => exact .inl ⟨_, run⟩
  | changes run => exact .inl ⟨_, run⟩
  | lacks run wants => exact .inr ⟨_, run, wants⟩

section Standing

variable {tree : Tree R D} {walk : Walk α D} {place : Option (Address D)}

/-- Reading the items of a standing walk leaves it and the tree as they are. -/
theorem comes_of_read (linked : Linked tree.border tree.nodes) (stands : walk.At tree place)
    (aligned : walk.Aligned) : Comes tree walk .read := by
  have reads : ∃ items, walk.items? tree = .ok items := by
    cases place with
    | none => exact ⟨_, stands.items?_over⟩
    | some address =>
      obtain ⟨items, reads, -⟩ := stands.items? linked
      exact ⟨_, reads⟩
  obtain ⟨items, reads⟩ := reads
  have run : Use.read.run tree walk = .ok (tree, walk) := by
    rw [Use.run, reads]
    rfl
  exact .stays run rfl stands aligned

/-- Going on leads a standing walk to a place in the same tree. -/
theorem comes_of_advance (linked : Linked tree.border tree.nodes) (stands : walk.At tree place)
    (aligned : walk.Aligned) : Comes tree walk .advance := by
  have goes : ∃ next place, walk.advance tree = .ok next ∧ next.At tree place := by
    cases place with
    | none => exact ⟨walk, none, stands.advance_over, stands⟩
    | some address =>
      obtain ⟨next, place, advances, goes⟩ := stands.advance linked
      exact ⟨next, place, advances, goes.stands⟩
  obtain ⟨next, place, advances, stands⟩ := goes
  have run : Use.advance.run tree walk = .ok (tree, next) := by
    rw [Use.run, advances]
    rfl
  exact .stays run rfl stands (aligned.advance advances)

/-- Removing an item leads a standing walk to a place in the changed tree, or there is none at the
position. -/
theorem comes_of_remove (sound : tree.Sound) (stands : walk.At tree place)
    (aligned : walk.Aligned) (position : Nat) : Comes tree walk (.remove position) := by
  have fails {fault : Fault} (refused : walk.removeItem tree position = .error fault) :
      (Use.remove position).run tree walk = .error fault := by
    rw [Use.run, refused]
    rfl
  cases place with
  | none =>
    exact .lacks (fails (stands.removeItem_over position)) (.inl ⟨stands.current?_over, rfl⟩)
  | some address =>
    cases found : (itemsAt tree.nodes address)[position]? with
    | none => exact .lacks (fails (stands.removeItem_outside sound.linked found)) (.inr rfl)
    | some item =>
      obtain ⟨changed, next, released, place, removed, removes, standing⟩ :=
        stands.exists_removed sound found
      have run : (Use.remove position).run tree walk = .ok (changed, next) := by
        rw [Use.run, removed]
        rfl
      obtain ⟨later, same⟩ := Walk.removeItem_touches removed
      exact .changes run rfl removes.sound same later standing (aligned.removeItem removed)

end Standing

/-- A walk in step stands, so every use of it comes to something. -/
theorem Kept.comes (kept : Kept border shared history) {n : Nat} {walk : Walk α D}
    (there : shared.walks[n]? = some walk) (known : walk.epoch = shared.tree.epoch) (use : Use) :
    Comes shared.tree walk use := by
  obtain ⟨place, stands⟩ := kept.stands there known
  have aligned := kept.aligned walk (List.mem_of_getElem? there)
  cases use with
  | read => exact comes_of_read kept.sound.linked stands aligned
  | advance => exact comes_of_advance kept.sound.linked stands aligned
  | remove position => exact comes_of_remove kept.sound stands aligned position

/-- A walk that is not in step is refused whatever it is used for. -/
theorem use_stale {tree : Tree R D} {walk : Walk α D} (stale : walk.epoch ≠ tree.epoch)
    (use : Use) : use.run tree walk = .error walk.staleness := by
  cases use with
  | read =>
    rw [Use.run, Walk.items?_stale stale]
    rfl
  | advance =>
    rw [Use.run, Walk.advance_stale stale]
    rfl
  | remove position =>
    rw [Use.run, Walk.removeItem_stale stale]
    rfl

end Uses

/-! ## One deed -/

section Deeds

variable [Arithmetic α] [DecidableEq R]

/-- Why a deed can fail. -/
def Refuses (shared : Shared α R D) (fault : Fault) : Deed α R D → Prop
  | .insert _ box | .walkBox box =>
    ¬box.Valid shared.tree.border ∧ fault = .invalidBox box.shown shared.tree.border
  | .erase _ box =>
    ¬box.Valid shared.tree.border ∧ fault = .invalidBox box.shown shared.tree.border ∨
      box.Valid shared.tree.border ∧ (fault = .missingChild ∨ fault = .missingItem)
  | .clear | .walkRay _ _ | .copy _ => False
  | .use n use => ∃ walk, shared.walks[n]? = some walk ∧
    (walk.epoch ≠ shared.tree.epoch ∧ fault = walk.staleness ∨ Lacks walk fault use)

/-- A deed keeps what a run keeps, and fails only for what it can be refused for. -/
def Obeys (border : Nat) (shared : Shared α R D) (history : List Event) (deed : Deed α R D) :
    Prop :=
  Action.Ensures deed.run shared
    (fun _ after => Kept border after (deed.events shared ++ history))
    fun fault after => Kept border after (deed.events shared ++ history) ∧
      shared.Refuses fault deed

section Outcomes

variable {deed : Deed α R D} {after : Shared α R D} {fault : Fault} {events : List Event}

/-- A deed that ends well obeys when the outcome is as its events tell. -/
theorem Obeys.of_ok (run : deed.run shared = .ok () after) (happened : deed.events shared = events)
    (kept : Kept border after (events ++ history)) : Obeys border shared history deed :=
  .of_eq run (happened ▸ kept)

/-- A deed that fails obeys when the outcome is as its events tell and the fault is one that it may
have. -/
theorem Obeys.of_error (run : deed.run shared = .error fault after)
    (happened : deed.events shared = events) (kept : Kept border after (events ++ history))
    (refuses : shared.Refuses fault deed) : Obeys border shared history deed := by
  unfold Obeys Action.Ensures
  rw [run, happened]
  exact ⟨kept, refuses⟩

end Outcomes

/-- An insertion obeys: it overtakes all walks, or the box is not accepted. -/
theorem Kept.insert (kept : Kept border shared history) (item : R) (box : Box D) :
    Obeys border shared history (.insert item box) := by
  by_cases valid : box.Valid shared.tree.border
  · obtain ⟨nodes, run, linked, tidy, -⟩ := Tree.inserted_spec kept.sound item box
    have done := onTree_ok (Tree.insert_eq (if_pos valid) run)
    have sound : ({ shared.tree.touch with nodes } : Tree R D).Sound := ⟨linked, tidy⟩
    exact .of_ok done (if_pos valid) (kept.overtake sound rfl rfl)
  · have refused := onTree_error (Tree.insert_refused item valid)
    exact .of_error refused (if_neg valid) kept ⟨valid, rfl⟩

/-- An erasure obeys: it overtakes all walks when the box is accepted, even when it fails. -/
theorem Kept.erase (kept : Kept border shared history) (item : R) (box : Box D) :
    Obeys border shared history (.erase item box) := by
  by_cases valid : box.Valid shared.tree.border
  · have sound : shared.tree.touch.Sound := ⟨kept.sound.linked, kept.sound.tidy⟩
    have touched := kept.overtake sound rfl rfl
    have missed {fault : Fault} (missing : shared.tree.erased item box = .error fault)
        (which : fault = .missingChild ∨ fault = .missingItem) :
        Obeys border shared history (.erase item box) := by
      have failed := onTree_error (Tree.erase_missing (if_pos valid) missing)
      exact .of_error failed (if_pos valid) touched (.inr ⟨valid, which⟩)
    rcases Tree.erased_cases kept.sound item box with found | child | absent
    · obtain ⟨nodes, run, linked, tidy⟩ := found
      have done := onTree_ok (Tree.erase_eq (if_pos valid) run)
      have sound : ({ shared.tree.touch with nodes } : Tree R D).Sound := ⟨linked, tidy⟩
      exact .of_ok done (if_pos valid) (kept.overtake sound rfl rfl)
    · exact missed child (.inl rfl)
    · exact missed absent (.inr rfl)
  · have refused := onTree_error (Tree.erase_refused item valid)
    exact .of_error refused (if_neg valid) kept (.inl ⟨valid, rfl⟩)

/-- Removing all items obeys: it overtakes all walks. -/
theorem Kept.clear (kept : Kept border shared history) :
    Obeys border shared history .clear := by
  have cleared := kept.sound.clear
  exact .of_ok rfl rfl (kept.overtake cleared rfl rfl)

/-- Starting a box walk obeys: there is one more walk in step, or the query is not accepted. -/
theorem Kept.walkBox (kept : Kept border shared history) (query : Box D) :
    Obeys border shared history (.walkBox query) := by
  by_cases valid : query.Valid shared.tree.border
  · obtain ⟨walk, started, stands, -⟩ := Walk.start_box α kept.sound valid
    have run : (Deed.walkBox query : Deed α R D).run shared = .ok () (shared.join (.box walk)) := by
      simp only [Deed.run, onWalks_eq, started, Except.map]
    exact .of_ok run (if_pos valid) (kept.start stands (BoxWalk.passed_of_start started))
  · have refused : BoxWalk.start shared.tree query =
        .error (.invalidBox query.shown shared.tree.border) := by
      have accept : shared.tree.accept query = .error _ := if_neg valid
      simp only [BoxWalk.start, accept, bind, Except.bind]
    have run : (Deed.walkBox query : Deed α R D).run shared =
        .error (.invalidBox query.shown shared.tree.border) shared := by
      simp only [Deed.run, onWalks_eq, refused, Except.map]
    exact .of_error run (if_neg valid) kept ⟨valid, rfl⟩

/-- Starting a ray walk obeys: there is one more walk in step. -/
theorem Kept.walkRay (kept : Kept border shared history) (ray : Ray α D) (reach : Reach α D) :
    Obeys border shared history (.walkRay ray reach) := by
  obtain ⟨place, stands, -⟩ := Walk.start_ray shared.tree ray reach
  exact .of_ok rfl rfl (kept.start stands trivial)

/-- Copying a walk obeys: the copy is in step when its source is. -/
theorem Kept.copied (kept : Kept border shared history) (n : Nat) :
    Obeys border shared history (.copy n) := by
  cases there : shared.walks[n]? with
  | none =>
    have missing : ¬n < shared.walks.length := Nat.not_lt.mpr (List.getElem?_eq_none_iff.mp there)
    have run : (Deed.copy n : Deed α R D).run shared = .ok () shared := by
      have same : (shared.walks[n]?.map shared.join).getD shared = shared := by rw [there]; rfl
      exact congrArg (EStateM.Result.ok ()) same
    exact .of_ok run (if_neg missing) kept
  | some walk =>
    have within := (List.getElem?_eq_some_iff.mp there).1
    have run : (Deed.copy n : Deed α R D).run shared = .ok () (shared.join walk) := by
      have grown : (shared.walks[n]?.map shared.join).getD shared = shared.join walk := by
        rw [there]
        rfl
      exact congrArg (EStateM.Result.ok ()) grown
    exact .of_ok run (if_pos within) (kept.copy there)

section Using

variable {n : Nat} {walk next : Walk α D} {changed : Tree R D} {use : Use} {fault : Fault}

/-- A use that ends well. -/
theorem deed_use_ok (there : shared.walks[n]? = some walk)
    (run : use.run shared.tree walk = .ok (changed, next)) :
    (Deed.use n use : Deed α R D).run shared = .ok () ⟨changed, shared.walks.set n next⟩ ∧
      (Deed.use n use : Deed α R D).events shared =
        if use.changes then [.changed (some n)] else [] := by
  constructor
  · simp only [Deed.run, onWalks_eq, Shared.use, there, run, Except.map]
  · simp only [Deed.events, there, run]

/-- A use that fails. -/
theorem deed_use_error (there : shared.walks[n]? = some walk)
    (run : use.run shared.tree walk = .error fault) :
    (Deed.use n use : Deed α R D).run shared = .error fault shared ∧
      (Deed.use n use : Deed α R D).events shared = [] := by
  constructor
  · simp only [Deed.run, onWalks_eq, Shared.use, there, run, Except.map]
  · simp only [Deed.events, there, run]

end Using

/-- Using a walk obeys: the guard refuses it exactly when it is not in step. -/
theorem Kept.used (kept : Kept border shared history) (n : Nat) (use : Use) :
    Obeys border shared history (.use n use) := by
  cases there : shared.walks[n]? with
  | none =>
    have run : (Deed.use n use : Deed α R D).run shared = .ok () shared := by
      simp only [Deed.run, onWalks_eq, Shared.use, there]
    have nothing : (Deed.use n use : Deed α R D).events shared = [] := by
      simp only [Deed.events, there]
    exact .of_ok run nothing kept
  | some walk =>
    by_cases known : walk.epoch = shared.tree.epoch
    · cases kept.comes there known use with
      | stays run pure stands aligned =>
        obtain ⟨done, happened⟩ := deed_use_ok there run
        rw [pure, if_neg Bool.false_ne_true] at happened
        exact .of_ok done happened (kept.advance there known stands aligned)
      | changes run impure sound same later stands aligned =>
        obtain ⟨done, happened⟩ := deed_use_ok there run
        rw [if_pos impure] at happened
        exact .of_ok done happened (kept.change there known sound same later stands aligned)
      | lacks run wants =>
        obtain ⟨failed, nothing⟩ := deed_use_error there run
        exact .of_error failed nothing kept ⟨walk, there, .inr wants⟩
    · obtain ⟨failed, nothing⟩ := deed_use_error there (use_stale known use)
      exact .of_error failed nothing kept ⟨walk, there, .inl ⟨known, rfl⟩⟩

/-- Every deed keeps what a run keeps, and fails only for what it can be refused for. -/
theorem Kept.obeys (kept : Kept border shared history) (deed : Deed α R D) :
    Obeys border shared history deed := by
  cases deed with
  | insert item box => exact kept.insert item box
  | erase item box => exact kept.erase item box
  | clear => exact kept.clear
  | walkBox query => exact kept.walkBox query
  | walkRay ray reach => exact kept.walkRay ray reach
  | copy n => exact kept.copied n
  | use n use => exact kept.used n use

/-- A deed keeps what a run keeps, whether it fails or not. -/
theorem Kept.after (kept : Kept border shared history) (deed : Deed α R D) :
    Kept border (shared.after deed) (deed.events shared ++ history) := by
  have obeys := kept.obeys deed
  unfold Obeys Action.Ensures at obeys
  unfold Shared.after
  cases run : deed.run shared with
  | ok value after =>
    rw [run] at obeys
    exact obeys
  | error fault after =>
    rw [run] at obeys
    exact obeys.1

/-- A run keeps what one deed keeps. -/
theorem Kept.run {state : Shared α R D × List Event} (kept : Kept border state.1 state.2)
    (deeds : List (Deed α R D)) :
    Kept border (deeds.foldl Deed.follow state).1 (deeds.foldl Deed.follow state).2 := by
  induction deeds generalizing state with
  | nil => exact kept
  | cons deed later ih => exact ih (kept.after deed)

/-- What deeds on a new tree keep. -/
theorem kept_of_create {tree : Tree R D} (created : Tree.create border = .ok tree)
    (deeds : List (Deed α R D)) : Kept border (tree.share deeds).1 (tree.share deeds).2 :=
  Kept.run (.of_create created) deeds

/-! ## What the guard decides -/

/-- What the guard makes of the walks over a tree with a history. -/
structure Guarded (shared : Shared α R D) (history : List Event) : Prop where
  /-- Whatever a walk is used for, the guard refuses it exactly when it is not in step. -/
  refused : ∀ n walk, shared.walks[n]? = some walk → ∀ use : Use,
    use.run shared.tree walk = .error walk.staleness ↔ inStep history n = false
  /-- A walk in step has what it relies on, and a use of it fails only for want of an item. -/
  served : ∀ n walk, shared.walks[n]? = some walk → inStep history n = true →
    walk.Intact shared.tree ∧
      ∀ use : Use, (∃ outcome, use.run shared.tree walk = .ok outcome) ∨
        ∃ fault, use.run shared.tree walk = .error fault ∧ Lacks walk fault use
  /-- Nothing fails for another cause. -/
  causes : ∀ deed fault after, deed.run shared = .error fault after → shared.Refuses fault deed

/-- Where a tree with its walks is as its history tells, the guards refuse exactly the walks that
are not in step. -/
theorem Kept.guarded (kept : Kept border shared history) : shared.Guarded history := by
  refine ⟨?_, ?_, ?_⟩
  · intro n walk there use
    rw [← Bool.not_eq_true, ← kept.exact n walk there]
    constructor
    · intro stale known
      rcases (kept.comes there known use).outcome with ⟨outcome, run⟩ | ⟨fault, run, wants⟩
      · rw [stale] at run
        cases run
      · rw [stale] at run
        cases run
        exact not_lacks_staleness walk use wants
    · exact fun behind => use_stale behind use
  · intro n walk there ahead
    have known := (kept.exact n walk there).mpr ahead
    have aligned := kept.aligned walk (List.mem_of_getElem? there)
    obtain ⟨place, stands⟩ := kept.stands there known
    exact ⟨stands.intact kept.sound.linked aligned, fun use => (kept.comes there known use).outcome⟩
  · intro deed fault after run
    have obeys := kept.obeys deed
    unfold Obeys Action.Ensures at obeys
    rw [run] at obeys
    exact obeys.2

/-- Whatever is done with a tree and any number of walks over it, a walk is refused exactly when
the tree was changed by anything but the walk itself since it was in step, and a walk that is not
refused stands on nodes that are there. -/
theorem guarded_of_create {tree : Tree R D} (created : Tree.create border = .ok tree)
    (deeds : List (Deed α R D)) :
    (tree.share deeds).1.Guarded (tree.share deeds).2 :=
  (kept_of_create created deeds).guarded

/-- A walk removes an item after it was copied: it stays in step, its copy is refused from then on,
and a later copy is in step again. -/
theorem guarded_after_copies :
    ∃ tree : Tree Nat 1, Tree.create 8 = .ok tree ∧
      let deeds : List (Deed Exact Nat 1) :=
        [.insert 7 ⟨#v[0], #v[0]⟩, .insert 9 ⟨#v[0], #v[7]⟩, .walkBox ⟨#v[0], #v[7]⟩, .copy 0,
          .use 0 .advance, .use 0 (.remove 0), .copy 0]
      (tree.share deeds).2 =
          [.copied 0, .changed (some 0), .copied 0, .started, .changed none, .changed none] ∧
        (List.range 4).map (inStep (tree.share deeds).2) = [true, false, true, false] ∧
        (tree.share deeds).1.Guarded (tree.share deeds).2 := by
  have created : (Tree.create 8 : Except Fault (Tree Nat 1)) = .ok _ := rfl
  exact ⟨_, created, by decide, by decide, guarded_of_create created _⟩

end Deeds

end Shared

end SpatialIndex.Partition
