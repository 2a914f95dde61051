import SpatialIndex.Partition.Walk
import SpatialIndex.Proofs.Action
import SpatialIndex.Proofs.Partition.BoxWalk
import SpatialIndex.Proofs.Partition.Placement
import SpatialIndex.Proofs.Partition.RayWalk

/-!
# Walks over a tree and what is ahead of them

A walk stands at an address or is over, and some nodes are ahead of it. Going on and removing an
item lead to a node that was ahead, or keep the walk where it is, and never add to what is ahead;
a box walk loses nothing of it either.
-/
namespace SpatialIndex.Partition.Walk

variable {α : Type} {R : Type} {D : Nat}

/-- Where a walk stands in a tree that it knows: at an address, or nowhere when it is over. -/
inductive At (tree : Tree R D) : Walk α D → Option (Address D) → Prop
  /-- A box walk stands at the node of its stack. -/
  | box {walk : BoxWalk D} {place : Address D} : walk.epoch = tree.epoch →
    BoxWalk.Stack tree.border tree.nodes walk.query place walk.stack →
    At tree (.box walk) (some place)
  /-- A box walk without a stack is over. -/
  | boxOver {walk : BoxWalk D} : walk.epoch = tree.epoch → walk.stack = [] →
    At tree (.box walk) none
  /-- A ray walk stands on the way to the cell of its ray. -/
  | ray {walk : RayWalk α D} {place : Address D} : walk.epoch = tree.epoch →
    walk.border = tree.border → walk.Stands tree.nodes place → At tree (.ray walk) (some place)
  /-- A ray walk without a stack is over. -/
  | rayOver {walk : RayWalk α D} : walk.epoch = tree.epoch → walk.stack = [] →
    At tree (.ray walk) none

section Standing

variable {tree : Tree R D} {walk : Walk α D} {place : Option (Address D)}

/-- The guard lets a walk pass that stands in the tree. -/
theorem At.confirm (stands : At tree walk place) : walk.confirm tree = .ok () := by
  cases stands with
  | box known | boxOver known => exact if_pos known
  | ray known | rayOver known => exact if_pos known

/-- A walk that stands at an address is at the end of the way there. -/
theorem At.way {address : Address D} (stands : At tree walk (some address)) :
    Way tree.nodes address walk.way := by
  cases stands with
  | box _ held => exact held.way
  | ray _ _ held => exact held.way

/-- A walk that is over has no way. -/
theorem At.way_eq_nil (stands : At tree walk none) : walk.way = [] := by
  cases stands with
  | boxOver _ ended =>
    show List.map _ _ = _
    rw [ended, List.map_nil]
  | rayOver _ ended => exact ended

/-- The items of a walk are those of the node where it stands. -/
theorem At.items? {address : Address D} (stands : At tree walk (some address))
    (linked : Linked tree.border tree.nodes) :
    ∃ items, walk.items? tree = .ok (some items) ∧ items.toList = itemsAt tree.nodes address := by
  obtain ⟨last, above, shape⟩ := stands.way.exists_last
  have way := stands.way
  rw [shape] at way
  obtain ⟨node, found⟩ := linked.present way.locate
  refine ⟨node.items, ?_, (itemsAt_of_get? way.locate found).symm⟩
  unfold Walk.items? current? Tree.node
  rw [stands.confirm, shape]
  simp only [bind, Except.bind, List.head?_cons, Option.map_some, found]
  rfl

/-- A walk that is over has no items. -/
theorem At.items?_over (stands : At tree walk none) : walk.items? tree = .ok none := by
  unfold Walk.items? current?
  rw [stands.confirm, stands.way_eq_nil]
  rfl

end Standing

/-! ## The end of a way is released -/

/-- Dropping the released end of a stack leaves the same nodes beyond it. -/
theorem beyond_drop {border : Nat} {nodes : Pool (Node R D)} {query : Box D} {place : Address D}
    {stack : List (BoxFrame D)} (held : BoxWalk.Stack border nodes query place stack) {count : Nat}
    (within : count ≤ place.length) {address : Address D}
    (apart : ∀ released, released <:+ place → place.length < released.length + count →
      ¬released <:+ address) :
    BoxWalk.Beyond (place.drop count) (stack.drop count) address ↔
      BoxWalk.Beyond place stack address := by
  induction count generalizing place stack with
  | zero => exact Iff.rfl
  | succ count ih =>
    cases held with
    | root => simp at within
    | @step above frame parent rest before located sees passed admitted =>
      rw [List.length_cons] at within
      rw [List.drop_succ_cons, List.drop_succ_cons,
        ih before (by omega) fun released suffix long =>
          apart released (suffix.trans (List.suffix_cons _ _)) (by rw [List.length_cons]; omega)]
      refine ⟨Or.inr, fun beyond => beyond.resolve_left ?_⟩
      rintro ⟨corner, -, below⟩
      exact apart (frame.corner :: above) (List.suffix_refl _) (by omega)
        ((List.suffix_cons _ _).trans below)

/-- A tree after the last nodes on the way to an address were released. -/
structure Releases (tree changed : Tree R D) (address : Address D) (count : Nat) : Prop where
  /-- The space stays. -/
  border : changed.border = tree.border
  /-- The nodes that are left are linked. -/
  linked : Linked changed.border changed.nodes
  /-- The root is not released. -/
  within : count ≤ address.length
  /-- No other node is gone. -/
  leads : ∀ other, locate changed.nodes other =
    if other <:+ address ∧ address.length < other.length + count then none
    else locate tree.nodes other

namespace Releases

variable {tree changed : Tree R D} {address other : Address D} {count : Nat} {key : Key}

/-- A node that is left was there before. -/
theorem known (releases : Releases tree changed address count)
    (found : locate changed.nodes other = some key) : locate tree.nodes other = some key := by
  rw [releases.leads] at found
  split at found
  · cases found
  · exact found

/-- A node off the way is left. -/
theorem off (releases : Releases tree changed address count) (aside : ¬other <:+ address) :
    locate changed.nodes other = locate tree.nodes other := by
  rw [releases.leads, if_neg fun released => aside released.1]

/-- A node above the released ones is left. -/
theorem upper (releases : Releases tree changed address count)
    (suffix : other <:+ address.drop count) :
    locate changed.nodes other = locate tree.nodes other := by
  have short := suffix.length_le
  rw [List.length_drop] at short
  have within := releases.within
  rw [releases.leads, if_neg fun released => by omega]

/-- A node that is left lies below no released one. -/
theorem apart (releases : Releases tree changed address count)
    (found : locate changed.nodes other = some key) {released : Address D}
    (suffix : released <:+ address) (long : address.length < released.length + count) :
    ¬released <:+ other := by
  intro below
  obtain ⟨parent, there⟩ := located_of_suffix found below
  rw [releases.leads, if_pos ⟨suffix, long⟩] at there
  cases there

/-- The stack of a box walk above the released nodes. -/
theorem stack {walk : BoxWalk D} (releases : Releases tree changed address count)
    (held : BoxWalk.Stack tree.border tree.nodes walk.query address walk.stack) :
    BoxWalk.Stack changed.border changed.nodes walk.query (address.drop count)
      (walk.stack.drop count) := by
  rw [releases.border]
  exact (held.drop count releases.within).congr fun _ suffix => releases.upper suffix

/-- The released nodes had nothing pending: to a box walk the same nodes are ahead. -/
theorem pending_iff {walk : BoxWalk D} (releases : Releases tree changed address count)
    (held : BoxWalk.Stack tree.border tree.nodes walk.query address walk.stack) :
    BoxWalk.Pending changed.border changed.nodes walk.query (address.drop count)
        (walk.stack.drop count) other ↔
      BoxWalk.Pending tree.border tree.nodes walk.query address walk.stack other := by
  rw [releases.border]
  have beyond {key : Key} (found : locate changed.nodes other = some key) :=
    beyond_drop held releases.within fun _ => releases.apart found
  constructor
  · rintro ⟨⟨key, found⟩, admitted, further⟩
    exact ⟨⟨key, releases.known found⟩, admitted, (beyond found).mp further⟩
  · rintro ⟨⟨key, found⟩, admitted, further⟩
    have left := (releases.off fun suffix => held.not_beyond (further.below suffix)).trans found
    exact ⟨⟨key, left⟩, admitted, (beyond left).mpr further⟩

/-- A ray walk stands above the released nodes. -/
theorem standing {walk : RayWalk α D} (releases : Releases tree changed address count)
    (held : walk.Stands tree.nodes address) :
    (walk.above changed count).Stands changed.nodes (address.drop count) := by
  refine ⟨(held.way.drop count releases.within).congr fun _ suffix => releases.upper suffix, held.inside,
    ?_, ?_⟩
  · have shorter := congrArg (List.drop count) held.along
    rw [Address.drop_path] at shorter
    rw [List.length_drop]
    exact shorter
  · rw [List.length_drop]
    exact Nat.le_trans (Nat.sub_le _ _) held.level

/-- What is pending to a ray walk above the released nodes was pending before: it does not enter
the released ones again. -/
theorem pending [Arithmetic α] {walk : RayWalk α D} (releases : Releases tree changed address count)
    (held : walk.Stands tree.nodes address)
    (left : (walk.above changed count).Pending changed.nodes other) :
    walk.Pending tree.nodes other := by
  obtain ⟨⟨key, found⟩, level, after⟩ := left
  refine ⟨⟨key, releases.known found⟩, level, ?_⟩
  rcases after with further | ⟨here, deeper⟩
  · exact .inl further
  · refine .inr ⟨here, ?_⟩
    -- above the old stack the cell of the ray lies in nodes that were released
    by_contra shallow
    have size : walk.stack.length = address.length + 1 := held.way.length
    have deeper : walk.stack.length - count ≤ other.length := by
      rw [← List.length_drop]
      exact deeper
    have suffix : other <:+ address := by
      rw [here, held.along]
      exact Address.path_suffix _ _ (by omega)
    rw [releases.leads, if_pos ⟨suffix, by omega⟩] at found
    cases found

end Releases

/-! ## What is ahead -/

variable [Arithmetic α]

/-- The addresses of the nodes that a walk still has to visit after the one where it stands. -/
def Ahead (tree : Tree R D) : Walk α D → Option (Address D) → Address D → Prop
  | _, none, _ => False
  | .box walk, some place, address =>
    BoxWalk.Pending tree.border tree.nodes walk.query place walk.stack address
  | .ray walk, some _, address => walk.Pending tree.nodes address

/-- The nodes left to a walk: the one where it stands, and those ahead. -/
def Left (tree : Tree R D) (walk : Walk α D) (place : Option (Address D)) (address : Address D) :
    Prop :=
  place = some address ∨ Ahead tree walk place address

/-- Whether a walk has to visit every node ahead. -/
def Exact : Walk α D → Prop
  | .box _ => True
  | .ray _ => False

/-- What a walk becomes when it goes on: it leaves only nodes that were ahead, and an exact one
leaves all of them. -/
structure Goes (tree changed : Tree R D) (walk : Walk α D) (place : Option (Address D))
    (next : Walk α D) (there : Option (Address D)) : Prop where
  /-- The walk stands somewhere again, or it is over. -/
  stands : At changed next there
  /-- Nothing is left that was not ahead. -/
  ahead : ∀ address, Left changed next there address → Ahead tree walk place address
  /-- An exact walk stays exact and leaves all that was ahead. -/
  exact : walk.Exact → next.Exact ∧
    ∀ address, Ahead tree walk place address → Left changed next there address

section Ahead

variable {tree : Tree R D} {walk : Walk α D} {place : Option (Address D)}

/-- The node where a walk stands is not ahead of it. -/
theorem At.not_ahead {address : Address D} (stands : At tree walk (some address)) :
    ¬Ahead tree walk (some address) address := by
  cases stands with
  | box _ held => exact fun ahead => held.not_beyond ahead.2.2
  | ray _ _ held => exact held.not_pending

/-- Only nodes are left to a walk. -/
theorem At.located (stands : At tree walk place) {address : Address D}
    (left : Left tree walk place address) : ∃ key, locate tree.nodes address = some key := by
  rcases left with rfl | ahead
  · obtain ⟨last, above, shape⟩ := stands.way.exists_last
    have way := stands.way
    rw [shape] at way
    exact ⟨_, way.locate⟩
  · cases stands with
    | box => exact ahead.1
    | ray => exact ahead.1
    | boxOver => exact ahead.elim
    | rayOver => exact ahead.elim

end Ahead

/-! ## Going on -/

/-- A box walk that goes on from a stack leaves exactly what is pending there. -/
theorem box_goes (α : Type) [Arithmetic α] {tree changed : Tree R D} {walk : BoxWalk D} {address place : Address D}
    (linked : Linked changed.border changed.nodes) {stack : List (BoxFrame D)}
    (held : BoxWalk.Stack changed.border changed.nodes walk.query place stack)
    (same : ∀ other, BoxWalk.Pending changed.border changed.nodes walk.query place stack other ↔
      Ahead tree (.box walk : Walk α D) (some address) other) :
    ∃ further there, BoxWalk.follow changed walk.query stack = .ok further ∧
      Goes tree changed (.box walk : Walk α D) (some address)
        (.box ⟨walk.query, further, changed.epoch⟩) there := by
  obtain ⟨further, run, outcome⟩ := BoxWalk.follow_spec linked held
  rcases outcome with ⟨ended, nothing⟩ | ⟨next, reached, shares⟩
  · refine ⟨further, none, run, .boxOver rfl ended, ?_, fun _ => ⟨trivial, ?_⟩⟩
    · rintro other (absurd | absurd)
      · cases absurd
      · exact absurd.elim
    · exact fun other ahead => absurd ((same other).mpr ahead) (nothing other)
  · have left (other : Address D) : Left changed
        (.box ⟨walk.query, further, changed.epoch⟩ : Walk α D) (some next) other ↔
          Ahead tree (.box walk : Walk α D) (some address) other := by
      rw [← same, shares]
      exact or_congr_left (Option.some_inj.trans eq_comm)
    exact ⟨further, some next, run, .box rfl reached, fun other => (left other).mp,
      fun _ => ⟨trivial, fun other => (left other).mpr⟩⟩

/-- A ray walk that goes on leaves nothing that was not pending before. -/
theorem ray_goes {tree changed : Tree R D} {walk before : RayWalk α D} {address place : Address D}
    (linked : Linked changed.border changed.nodes) (known : before.epoch = changed.epoch)
    (border : before.border = changed.border) (held : before.Stands changed.nodes place)
    (ahead : ∀ other, before.Pending changed.nodes other →
      Ahead tree (.ray walk) (some address) other) :
    ∃ final there, before.follow changed = .ok final ∧
      Goes tree changed (.ray walk) (some address) (.ray final) there := by
  obtain ⟨final, run, marches⟩ := held.follow linked
  have frame := marches.frame
  rcases held.marches marches with ended | ⟨next, reached, entered, kept⟩
  · refine ⟨final, none, run, .rayOver (frame.2.2.trans known) ended, ?_, False.elim⟩
    rintro other (absurd | absurd)
    · cases absurd
    · exact absurd.elim
  · refine ⟨final, some next, run,
      .ray (frame.2.2.trans known) (frame.2.1.trans border) reached, ?_, False.elim⟩
    rintro other (here | further)
    · rw [← Option.some.inj here]
      exact ahead next entered
    · exact ahead other (kept other further)

/-- Going on never fails, and goes to a node that is ahead, if there is one for a box. -/
theorem At.advance {tree : Tree R D} {walk : Walk α D} {address : Address D}
    (stands : At tree walk (some address)) (linked : Linked tree.border tree.nodes) :
    ∃ next there, walk.advance tree = .ok next ∧ Goes tree tree walk (some address) next there := by
  cases stands with
  | @box walk _ known held =>
    obtain ⟨further, there, run, goes⟩ := box_goes α linked held fun _ => Iff.rfl
    refine ⟨_, there, ?_, goes⟩
    rw [Walk.advance, BoxWalk.advance_of_follow known run, ← known]
    rfl
  | @ray walk _ known border held =>
    obtain ⟨final, there, run, goes⟩ := ray_goes linked known border held fun _ => id
    refine ⟨_, there, ?_, goes⟩
    rw [Walk.advance, RayWalk.advance_of_follow known run]
    rfl

/-- A walk that is over stays so when it goes on. -/
theorem At.advance_over {tree : Tree R D} {walk : Walk α D} (stands : At tree walk none) :
    walk.advance tree = .ok walk := by
  cases stands with
  | @boxOver walk known ended =>
    obtain ⟨query, stack, epoch⟩ := walk
    have empty : stack = [] := ended
    subst empty
    rw [Walk.advance, BoxWalk.advance_of_follow known rfl]
    rfl
  | @rayOver walk known ended =>
    have stays : walk.follow tree = .ok walk := by
      unfold RayWalk.follow RayWalk.march
      rw [ended]
    rw [Walk.advance, RayWalk.advance_of_follow known stays]
    rfl

/-- A walk that stands in a tree stands there again when it goes on. -/
theorem At.stands_advance {tree : Tree R D} {walk next : Walk α D} {place : Option (Address D)}
    (stands : At tree walk place) (linked : Linked tree.border tree.nodes)
    (run : walk.advance tree = .ok next) : ∃ there, At tree next there := by
  cases place with
  | none =>
    rw [stands.advance_over] at run
    cases run
    exact ⟨none, stands⟩
  | some address =>
    obtain ⟨result, there, advances, goes⟩ := stands.advance linked
    rw [advances] at run
    cases run
    exact ⟨there, goes.stands⟩

/-! ## Removing an item -/

/-- What a walk becomes when its node stays: the same nodes are ahead. -/
structure Stays (tree changed : Tree R D) (walk : Walk α D) (address : Address D)
    (next : Walk α D) (there : Option (Address D)) : Prop where
  /-- The walk stands in the tree as it is. -/
  stands : At changed next there
  /-- It is where it was. -/
  place : there = some address
  /-- An exact walk stays exact. -/
  exact : walk.Exact → next.Exact
  /-- The same nodes are ahead. -/
  ahead : ∀ other, Ahead changed next there other ↔ Ahead tree walk (some address) other

section Removal

variable {tree changed : Tree R D} {walk : Walk α D} {address : Address D}

/-- A walk stays when nothing of its way was released. -/
theorem At.resume_all (stands : At tree walk (some address))
    (releases : Releases tree changed address 0) :
    ∃ next, walk.resume changed walk.way.length = .ok next ∧
      Stays tree changed walk address next (some address) := by
  cases stands with
  | @box walk _ known held =>
    refine ⟨.box { walk with epoch := changed.epoch }, ?_, .box rfl (releases.stack held), rfl,
      fun _ => trivial, fun other => releases.pending_iff held⟩
    rw [Walk.resume, Walk.way, BoxWalk.way, List.length_map, BoxWalk.resume_all]
    rfl
  | @ray walk _ known border held =>
    refine ⟨.ray (walk.above changed 0), ?_,
      .ray rfl (border.trans releases.border.symm) (releases.standing held), rfl, False.elim,
      fun other => ⟨releases.pending held, ?_⟩⟩
    · rw [Walk.resume, Walk.way, RayWalk.resume_all]
      rfl
    · rintro ⟨⟨key, found⟩, level, after⟩
      refine ⟨⟨key, ?_⟩, level, after⟩
      rw [releases.leads, if_neg fun released => ?_, found]
      exact Nat.not_lt.mpr released.1.length_le released.2

/-- A walk goes on when the end of its way was released. -/
theorem At.resume_drop (stands : At tree walk (some address)) {count : Nat}
    (releases : Releases tree changed address count) (some_released : 0 < count) :
    ∃ next there, walk.resume changed (walk.way.length - count) = .ok next ∧
      Goes tree changed walk (some address) next there := by
  have size := stands.way.length
  have within := releases.within
  cases stands with
  | @box walk _ known held =>
    obtain ⟨further, there, run, goes⟩ := box_goes α releases.linked (releases.stack held)
      fun _ => releases.pending_iff held
    refine ⟨_, there, ?_, goes⟩
    rw [Walk.way, BoxWalk.way, List.length_map] at size ⊢
    rw [Walk.resume, BoxWalk.resume_drop changed walk some_released (by omega), run]
    rfl
  | @ray walk _ _ border held =>
    have known : (walk.above changed count).epoch = changed.epoch := rfl
    obtain ⟨final, there, run, goes⟩ := ray_goes releases.linked known
      (border.trans releases.border.symm) (releases.standing held)
      fun _ => releases.pending held
    refine ⟨_, there, ?_, goes⟩
    rw [Walk.way] at size ⊢
    rw [Walk.resume, RayWalk.resume_drop changed walk some_released (by omega), run]
    rfl

/-- What removing an item of the current node does to the tree. -/
structure Removes (tree changed : Tree R D) (address : Address D) (position : Nat) (item : R) :
    Prop where
  /-- The tree is between two mutations. -/
  sound : changed.Sound
  /-- The space stays. -/
  border : changed.border = tree.border
  /-- The item is gone from the node. -/
  here : (item :: itemsAt changed.nodes address).Perm (itemsAt tree.nodes address)
  /-- The items before it stay in their places. -/
  before : (itemsAt changed.nodes address).take position =
    (itemsAt tree.nodes address).take position
  /-- All other items stay. -/
  elsewhere : ∀ other, other ≠ address → itemsAt changed.nodes other = itemsAt tree.nodes other

/-- Removing an item never fails. The walk stays at its node as long as that is there, and goes on
when it was released. -/
theorem At.removeItem (stands : At tree walk (some address)) (sound : tree.Sound) {position : Nat}
    {item : R} (found : (itemsAt tree.nodes address)[position]? = some item) :
    ∃ changed next released there,
      walk.removeItem tree position = .ok (changed, next, released) ∧
        Removes tree changed address position item ∧
        (released = false → Stays tree changed walk address next there) ∧
        (released = true → itemsAt changed.nodes address = [] ∧
          Goes tree changed walk (some address) next there) := by
  obtain ⟨nodes, count, run, within, linked, tidy, here, before, elsewhere, leads⟩ :=
    Tree.removeAt_spec sound stands.way found
  let changed : Tree R D := { tree.touch with nodes }
  have releases : Releases tree changed address count := ⟨rfl, linked, within, leads⟩
  have length := stands.way.length
  have shorter : (walk.way.drop count).length < walk.way.length ↔ 0 < count := by
    rw [List.length_drop]
    omega
  obtain ⟨next, there, resumed, stays, goes⟩ :
      ∃ next there, walk.resume changed (walk.way.drop count).length = .ok next ∧
        (count = 0 → Stays tree changed walk address next there) ∧
        (0 < count → Goes tree changed walk (some address) next there) := by
    rcases Nat.eq_zero_or_pos count with rfl | released
    · obtain ⟨next, resumed, stays⟩ := stands.resume_all releases
      exact ⟨next, _, resumed, fun _ => stays, fun absurd => by omega⟩
    · obtain ⟨next, there, resumed, goes⟩ := stands.resume_drop releases released
      rw [← List.length_drop] at resumed
      exact ⟨next, there, resumed, fun absurd => by omega, fun _ => goes⟩
  refine ⟨changed, next, decide (0 < count), there, ?_,
    ⟨⟨linked, tidy⟩, rfl, here, before, elsewhere⟩, ?_, ?_⟩
  · simp only [Walk.removeItem, stands.confirm, run, bind, Except.bind]
    show (walk.resume changed (walk.way.drop count).length >>= fun resumed =>
      Except.ok (changed, resumed, decide ((walk.way.drop count).length < walk.way.length))) = _
    rw [resumed]
    simp only [bind, Except.bind, shorter]
  · intro kept
    have zero := of_decide_eq_false kept
    exact stays (by omega)
  · intro released
    have positive := of_decide_eq_true released
    refine ⟨?_, goes positive⟩
    apply itemsAt_of_locate_eq_none
    rw [leads, if_pos ⟨List.suffix_refl _, by omega⟩]

/-- Whether its node is released or not, the walk that removes an item stands again. -/
theorem At.exists_removed (stands : At tree walk (some address)) (sound : tree.Sound)
    {position : Nat} {item : R} (found : (itemsAt tree.nodes address)[position]? = some item) :
    ∃ changed next released there,
      walk.removeItem tree position = .ok (changed, next, released) ∧
        Removes tree changed address position item ∧ At changed next there := by
  obtain ⟨changed, next, released, there, run, removes, stays, goes⟩ :=
    stands.removeItem sound found
  refine ⟨changed, next, released, there, run, removes, ?_⟩
  cases released with
  | false => exact (stays rfl).stands
  | true => exact (goes rfl).2.stands

end Removal

/-! ## The start -/

/-- A box walk starts at the root, with every admitted node left. -/
theorem start_box (α : Type) [Arithmetic α] {tree : Tree R D} (sound : tree.Sound) {query : Box D}
    (valid : query.Valid tree.border) :
    ∃ walk, BoxWalk.start tree query = .ok walk ∧
      At tree (.box walk : Walk α D) (some []) ∧
      ∀ address, Left tree (.box walk : Walk α D) (some []) address ↔
        (∃ key, locate tree.nodes address = some key) ∧ query.AdmitsAll tree.border address := by
  obtain ⟨node, found⟩ := sound.root_present
  have center : node.center = Address.center tree.border [] :=
    sound.root_center found
  have accepted : tree.accept query = .ok () := if_pos valid
  refine ⟨⟨query, [.enter query ⟨root, 0⟩ node], tree.epoch⟩, ?_, ?_, ?_⟩
  · simp only [BoxWalk.start, accepted, Tree.node, found, bind, Except.bind, pure, Except.pure]
  · exact .box rfl (.root rfl (BoxFrame.sees_enter _ center))
  · intro address
    constructor
    · rintro (here | ⟨known, admitted, -⟩)
      · rw [← Option.some.inj here]
        exact ⟨⟨root, rfl⟩, trivial⟩
      · exact ⟨known, admitted⟩
    · rintro ⟨known, admitted⟩
      exact (BoxWalk.eq_or_beyond_of_suffix rfl List.nil_suffix).imp
        (fun here => congrArg some here.symm) fun beyond => ⟨known, admitted, beyond⟩

/-- A ray walk starts at the root, or is over at once. -/
theorem start_ray (tree : Tree R D) (ray : Ray α D) (reach : Reach α D) :
    ∃ there, At tree (.ray (RayWalk.start tree ray reach)) there ∧
      (there = none ∨ there = some []) := by
  unfold RayWalk.start
  cases ray.entry? (Arithmetic.ofNat tree.border) with
  | none => exact ⟨none, .rayOver rfl rfl, .inl rfl⟩
  | some entry =>
    simp only
    split
    · refine ⟨some [], .ray rfl rfl ⟨?_, ?_, ?_, ?_⟩, .inr rfl⟩
      · exact .root
      · intro d
        apply Nat.lt_of_le_of_lt (Nat.le_of_eq (Vector.getElem_ofFn d.isLt))
        exact Nat.lt_of_le_of_lt (Nat.min_le_right _ _)
          (Nat.sub_lt (Nat.two_pow_pos _) Nat.one_pos)
      · rfl
      · exact Nat.zero_le _
    · exact ⟨none, .rayOver rfl rfl, .inl rfl⟩

end SpatialIndex.Partition.Walk
