import SpatialIndex.Proofs.Partition.Handles
import SpatialIndex.Proofs.Partition.RayRounding

/-!
# Riding along a ray

A ray walk goes on, or removes items of its node, any number of times. Between two nodes it makes
finitely many moves, each of which takes the ray forward; it enters a node from the parent of that
node, and never comes back to a node that it has left. Nothing is asked of the arithmetic.
-/
namespace SpatialIndex.Partition.RayWalk

open Address (path)

variable {α R : Type} {D : Nat}

/-! ## The loop between two nodes -/

section Loop

variable [Arithmetic α] {tree : Tree R D} {walk final : RayWalk α D} {place : Address D}

/-- The walk after a number of moves. -/
def moved : (moves : Nat) → RayWalk α D → RayWalk α D
  | 0, walk => walk
  | moves + 1, walk => moved moves walk.move

/-- Whether the walk has to move on: the part that holds the cell of the ray has no node. -/
def Blocked (tree : Tree R D) (walk : RayWalk α D) : Prop :=
  ∃ last above node, walk.stack = last :: above ∧ tree.nodes.get? last.node = some node ∧
    walk.descent? node = none

/-- Where the loop ends: the walk is over, or it enters a child of its node. -/
inductive Ends (tree : Tree R D) : RayWalk α D → RayWalk α D → Prop
  /-- The walk is over. -/
  | finished {walk : RayWalk α D} : walk.stack = [] → Ends tree walk walk
  /-- The walk enters the child that holds the cell of the ray. -/
  | enter {walk : RayWalk α D} {last step : Step D} {above : List (Step D)} {node : Node R D} :
    walk.stack = last :: above → tree.nodes.get? last.node = some node →
    walk.descent? node = some step → Ends tree walk { walk with stack := step :: walk.stack }

/-- Whether the loop leads from one walk to another in boundedly many moves. -/
def Halts (tree : Tree R D) (walk final : RayWalk α D) : Prop :=
  ∃ moves ≤ walk.moveBound, (∀ k < moves, Blocked tree (walk.moved k)) ∧
    Ends tree (walk.moved moves) final

/-- A march is a number of moves, each at a walk that has to move on. -/
theorem Marches.exists_moves (marches : Marches tree walk final) :
    ∃ moves, (∀ k < moves, Blocked tree (walk.moved k)) ∧ Ends tree (walk.moved moves) final := by
  induction marches with
  | ended finished => exact ⟨0, by simp, .finished finished⟩
  | enter shape found descends => exact ⟨0, by simp, .enter shape found descends⟩
  | move shape found descends _ ih =>
    obtain ⟨moves, blocked, ends⟩ := ih
    refine ⟨moves + 1, ?_, ends⟩
    intro k before
    cases k with
    | zero => exact ⟨_, _, _, shape, found, descends⟩
    | succ k => exact blocked k (Nat.lt_of_succ_lt_succ before)

/-- A move ends the walk, or the ray gets further among the finest cells. -/
theorem Stands.move_further (stands : walk.Stands tree.nodes place) :
    walk.move.stack = [] ∨ (∃ upper, walk.move.Stands tree.nodes upper) ∧
      walk.move.base = walk.base ∧ walk.move.finest = walk.finest ∧
      walk.reached (path walk.finest walk.target walk.finest) <
        walk.move.reached (path walk.finest walk.move.target walk.finest) := by
  rcases move_cases walk with stops | ⟨axis, least, nearest, -, stays, lands⟩
  · rw [stops]
    exact .inl rfl
  · have moving := (moves_of_nearest? nearest).1
    obtain ⟨forward, different⟩ := landed_forward stands.inside stays moving
    rw [lands]
    refine (stands.landed stays moving).imp_right fun ⟨upper, above, _⟩ => ?_
    have further := forward.path_progress different (Nat.le_refl walk.finest)
    refine ⟨⟨upper, above⟩, rfl, rfl, further.resolve_left fun ⟨shallow, _⟩ => ?_⟩
    exact Nat.not_lt.mpr (Nat.min_le_right _ _) shallow

/-- There are no more moves than the progress that is left to the ray. -/
theorem Stands.moves_le (stands : walk.Stands tree.nodes place) {moves : Nat}
    (blocked : ∀ k < moves, Blocked tree (walk.moved k)) :
    moves + walk.reached (path walk.finest walk.target walk.finest) ≤ walk.base ^ walk.finest := by
  have room : walk.reached (path walk.finest walk.target walk.finest) <
      walk.base ^ walk.finest := by
    have bound := Address.progress_lt walk.ascends (path walk.finest walk.target walk.finest)
      (Nat.le_of_eq (Address.length_path _ _ _))
    rw [Address.length_path] at bound
    exact bound
  induction moves generalizing walk place with
  | zero =>
    rw [Nat.zero_add]
    exact Nat.le_of_lt room
  | succ moves ih =>
    rcases stands.move_further with finished | ⟨⟨upper, above⟩, sameBase, sameFinest, further⟩
    · have single : moves = 0 := by
        by_contra more
        obtain ⟨last, rest, -, shape, -⟩ := blocked 1 (by omega)
        have moved : walk.move.stack = last :: rest := shape
        rw [finished] at moved
        cases moved
      omega
    · have later : ∀ k < moves, Blocked tree (walk.move.moved k) := fun k before =>
        blocked (k + 1) (Nat.succ_lt_succ before)
      have bound := Address.progress_lt walk.move.ascends
        (path walk.move.finest walk.move.target walk.move.finest)
        (Nat.le_of_eq (Address.length_path _ _ _))
      rw [Address.length_path] at bound
      have left := ih above later bound
      rw [sameBase, sameFinest] at left
      omega

/-- Going on never fails, and comes to an end after boundedly many moves. -/
theorem Stands.halts (stands : walk.Stands tree.nodes place)
    (linked : Linked tree.border tree.nodes) :
    ∃ final, walk.follow tree = .ok final ∧ Marches tree walk final ∧ Halts tree walk final := by
  obtain ⟨final, run, marches⟩ := stands.follow linked
  obtain ⟨moves, blocked, ends⟩ := marches.exists_moves
  refine ⟨final, run, marches, moves, ?_, blocked, ends⟩
  have few := stands.moves_le blocked
  have wider : walk.base ^ walk.finest ≤ walk.base ^ (walk.finest + 1) :=
    Nat.pow_le_pow_right (Nat.succ_pos _) (Nat.le_succ _)
  exact Nat.le_trans (Nat.le_trans (Nat.le_add_right _ _) few) wider

/-- A move leaves the upper part of the way. -/
theorem move_stack_suffix (walk : RayWalk α D) : walk.move.stack <:+ walk.stack := by
  rcases move_cases walk with stops | ⟨axis, least, -, -, -, lands⟩
  · rw [stops]
    exact List.nil_suffix
  · rw [lands]
    show (if _ then [] else _) <:+ _
    split
    · exact List.nil_suffix
    · exact List.drop_suffix _ _

/-- A march enters a node from one that is on the way already. -/
theorem Marches.entered (marches : Marches tree walk final) :
    final.stack = [] ∨ ∃ step upper, final.stack = step :: upper ∧ upper ≠ [] ∧
      upper <:+ walk.stack := by
  induction marches with
  | ended finished => exact .inl finished
  | enter shape found descends =>
    refine .inr ⟨_, _, rfl, ?_, List.suffix_refl _⟩
    rw [shape]
    exact List.cons_ne_nil _ _
  | @move walk final last above node shape found descends _ ih =>
    refine ih.imp_right ?_
    rintro ⟨step, upper, stack, nonempty, suffix⟩
    exact ⟨step, upper, stack, nonempty, suffix.trans (move_stack_suffix walk)⟩

/-- Where a march comes to: the walk stands again, or it is over, and leaves only nodes that were
pending. -/
theorem Stands.lands (stands : walk.Stands tree.nodes place) (known : walk.epoch = tree.epoch)
    (border : walk.border = tree.border) (marches : Marches tree walk final) :
    ∃ there, Walk.At tree (.ray final) there ∧ ∀ address,
      Walk.Left tree (.ray final) there address → walk.Pending tree.nodes address := by
  obtain ⟨-, sameBorder, sameEpoch⟩ := marches.frame
  rcases stands.marches marches with finished | ⟨next, reached, entered, kept⟩
  · refine ⟨none, .rayOver (sameEpoch.trans known) finished, fun address left => ?_⟩
    rcases left with absurd | absurd
    · cases absurd
    · exact absurd.elim
  · refine ⟨some next, .ray (sameEpoch.trans known) (sameBorder.trans border) reached,
      fun address left => ?_⟩
    rcases left with here | further
    · rw [← Option.some.inj here]
      exact entered
    · exact kept address further

/-- Whether a walk moves as in floating point, however results are rounded. -/
def Faithful (walk : RayWalk α D) : Prop :=
  ∀ (_ : Rounding α) (moves : Nat), (walk.moved moves).move = (walk.moved moves).roundedMove

/-- All moves of an upright walk leave it upright. -/
theorem Upright.moved (upright : walk.Upright) (moves : Nat) : (walk.moved moves).Upright := by
  induction moves generalizing walk with
  | zero => exact upright
  | succ moves ih => exact ih upright.move

/-- An upright walk moves as in floating point all the way. -/
theorem Upright.faithful (upright : walk.Upright) : walk.Faithful :=
  fun rounding moves => (upright.moved moves).move_eq rounding

/-- The loop keeps a walk upright. -/
theorem Halts.upright (halts : Halts tree walk final) (upright : walk.Upright) :
    final.Upright := by
  obtain ⟨moves, -, -, ends⟩ := halts
  have moved := upright.moved moves
  cases ends with
  | finished => exact moved
  | enter => exact moved.congr rfl rfl rfl rfl

/-! ## Removing at the node of the ray -/

/-- Removing an item releases the vacant nodes at the end of the way. The walk stays when there are
none, and goes on above them otherwise. -/
theorem Stands.removal (stands : walk.Stands tree.nodes place) (sound : tree.Sound)
    (known : walk.epoch = tree.epoch) {position : Nat} {item : R}
    (found : (itemsAt tree.nodes place)[position]? = some item) :
    ∃ changed count, Walk.Releases tree changed place count ∧
      Walk.Removes tree changed place position item ∧
      (count = 0 ∧ Walk.removeItem tree (.ray walk) position =
          .ok (changed, .ray (walk.above changed 0), false) ∨
        0 < count ∧ ∃ final, Walk.removeItem tree (.ray walk) position =
            .ok (changed, .ray final, true) ∧ Marches changed (walk.above changed count) final ∧
          Halts changed (walk.above changed count) final) := by
  obtain ⟨nodes, count, run, within, linked, tidy, here, before, elsewhere, leads⟩ :=
    Tree.removeAt_spec sound stands.way found
  let changed : Tree R D := { tree.touch with nodes }
  have releases : Walk.Releases tree changed place count := ⟨rfl, linked, within, leads⟩
  have removes : Walk.Removes tree changed place position item :=
    ⟨⟨linked, tidy⟩, rfl, here, before, elsewhere⟩
  have length : walk.stack.length = place.length + 1 := stands.way.length
  have confirmed : (Walk.ray walk).confirm tree = .ok () := if_pos known
  have removed {next : RayWalk α D}
      (resumed : walk.resume changed (walk.stack.drop count).length = .ok next) :
      Walk.removeItem tree (.ray walk) position = .ok (changed, .ray next, decide (0 < count)) := by
    have shorter : (walk.stack.drop count).length < walk.stack.length ↔ 0 < count := by
      rw [List.length_drop]
      omega
    simp only [Walk.removeItem, confirmed, Walk.way, run, bind, Except.bind]
    show ((Walk.ray walk).resume changed (walk.stack.drop count).length >>= fun resumed =>
      Except.ok (changed, resumed, decide ((walk.stack.drop count).length < walk.stack.length))) = _
    simp only [Walk.resume, resumed, bind, Except.bind, pure, Except.pure, shorter]
  refine ⟨changed, count, releases, removes, ?_⟩
  rcases Nat.eq_zero_or_pos count with rfl | released
  · exact .inl ⟨rfl, removed (resume_all changed walk)⟩
  · obtain ⟨final, followed, marches, halts⟩ := (releases.standing stands).halts linked
    have resumed : walk.resume changed (walk.stack.drop count).length = .ok final := by
      rw [List.length_drop, resume_drop changed walk released (by omega)]
      exact followed
    have outcome := removed resumed
    rw [decide_eq_true released] at outcome
    exact .inr ⟨released, final, outcome, marches, halts⟩

end Loop

/-! ## One use -/

section Uses

variable [Arithmetic α]

/-- A tree and a ray walk after a use of the walk; a refused use changes neither. -/
def after (state : Tree R D × RayWalk α D) (use : Use) : Tree R D × RayWalk α D :=
  match use.run state.1 (.ray state.2) with
  | .ok (tree, .ray walk) => (tree, walk)
  | _ => state

/-- What a use leads to. -/
inductive Leads (tree : Tree R D) (walk : RayWalk α D) : Use → Tree R D × RayWalk α D → Prop
  /-- Reading changes nothing. -/
  | read {items : Option (Array R)} : Walk.items? tree (.ray walk) = .ok items →
    Leads tree walk .read (tree, walk)
  /-- The walk goes on after boundedly many moves. -/
  | advance {next : RayWalk α D} : walk.advance tree = .ok next → Halts tree walk next →
    Leads tree walk .advance (tree, next)
  /-- There is nothing to remove. -/
  | refused {position : Nat} {fault : Fault} :
    Walk.removeItem tree (.ray walk) position = .error fault →
    Shared.Lacks (.ray walk) fault (.remove position) →
    Leads tree walk (.remove position) (tree, walk)
  /-- An item is removed and the node stays. -/
  | removed {position : Nat} {changed : Tree R D} :
    Walk.removeItem tree (.ray walk) position =
      .ok (changed, .ray (walk.above changed 0), false) →
    Leads tree walk (.remove position) (changed, walk.above changed 0)
  /-- An item is removed and nodes are released; the walk goes on above them after boundedly many
  moves. -/
  | released {position count : Nat} {changed : Tree R D} {next : RayWalk α D} :
    Walk.removeItem tree (.ray walk) position = .ok (changed, .ray next, true) →
    0 < count → count < walk.stack.length → Halts changed (walk.above changed count) next →
    Leads tree walk (.remove position) (changed, next)

/-- A use keeps a walk upright. -/
theorem Leads.upright {tree : Tree R D} {walk : RayWalk α D} {use : Use}
    {next : Tree R D × RayWalk α D} (leads : Leads tree walk use next) (upright : walk.Upright) :
    next.2.Upright := by
  cases leads with
  | read => exact upright
  | advance _ halts => exact halts.upright upright
  | refused => exact upright
  | removed => exact upright.congr rfl rfl rfl rfl
  | @released _ count changed _ _ _ _ halts =>
    have above : (walk.above changed count).Upright := upright.congr rfl rfl rfl rfl
    exact halts.upright above

/-- The stack after a use: that before, or none, or one more step on an upper part of it. -/
def Climbs (before after : List (Step D)) : Prop :=
  after = before ∨ after = [] ∨
    ∃ step upper, after = step :: upper ∧ upper ≠ [] ∧ upper <:+ before

/-- What a use does not add to a tree. -/
structure Thins (tree changed : Tree R D) : Prop where
  /-- The border stays. -/
  border : changed.border = tree.border
  /-- The nodes that are left were there before. -/
  known : ∀ address key, locate changed.nodes address = some key →
    locate tree.nodes address = some key
  /-- So were the items, and as often. -/
  items : ∀ address, (itemsAt changed.nodes address).Subperm (itemsAt tree.nodes address)

/-- A tree adds nothing to itself. -/
theorem Thins.refl (tree : Tree R D) : Thins tree tree :=
  ⟨rfl, fun _ _ => id, fun _ => List.Subperm.refl _⟩

/-- What adds nothing twice adds nothing. -/
theorem Thins.trans {first second third : Tree R D} (early : Thins first second)
    (late : Thins second third) : Thins first third :=
  ⟨late.border.trans early.border,
    fun address key found => early.known address key (late.known address key found),
    fun address => (late.items address).trans (early.items address)⟩

/-- Removing an item at a walk adds nothing to the tree. -/
theorem thins_of_removes {tree changed : Tree R D} {place : Address D} {count position : Nat}
    {item : R} (releases : Walk.Releases tree changed place count)
    (removes : Walk.Removes tree changed place position item) : Thins tree changed := by
  refine ⟨releases.border, fun _ _ => releases.known, fun address => ?_⟩
  by_cases here : address = place
  · rw [here]
    have shorter := (List.sublist_cons_self item (itemsAt changed.nodes place)).subperm
    exact shorter.trans removes.here.subperm
  · rw [removes.elsewhere address here]

/-- One use of a ray walk that stands in a sound tree. -/
structure Goes (state : Tree R D × RayWalk α D) (place : Option (Address D)) (use : Use)
    (next : Tree R D × RayWalk α D) (there : Option (Address D)) : Prop where
  /-- The use is what it leads to. -/
  leads : Leads state.1 state.2 use next
  /-- The tree is sound. -/
  sound : next.1.Sound
  /-- The walk stands again. -/
  stands : Walk.At next.1 (.ray next.2) there
  /-- The tree only loses. -/
  thins : Thins state.1 next.1
  /-- The walk enters a node from its parent. -/
  climbs : Climbs state.2.stack next.2.stack
  /-- It stays where it is, or it leaves only nodes that were ahead. -/
  left : there = place ∧ (∀ address, Walk.Left next.1 (.ray next.2) there address →
      Walk.Left state.1 (.ray state.2) place address) ∨
    ∀ address, Walk.Left next.1 (.ray next.2) there address →
      Walk.Ahead state.1 (.ray state.2) place address

section Goes

variable {tree : Tree R D} {walk : RayWalk α D} {place : Option (Address D)} {use : Use}

/-- A use that changes nothing. -/
theorem goes_nowhere (sound : tree.Sound) (stands : Walk.At tree (.ray walk) place)
    (leads : Leads tree walk use (tree, walk)) : Goes (tree, walk) place use (tree, walk) place :=
  ⟨leads, sound, stands, .refl tree, .inl rfl, .inl ⟨rfl, fun _ => id⟩⟩

/-- Reading at a walk that stands. -/
theorem exists_goes_read (sound : tree.Sound) (stands : Walk.At tree (.ray walk) place) :
    ∃ there, Goes (tree, walk) place .read (after (tree, walk) .read) there := by
  have stays : after (tree, walk) .read = (tree, walk) := by
    unfold after Use.run
    cases Walk.items? tree (.ray walk) <;> rfl
  rw [stays]
  cases place with
  | none => exact ⟨none, goes_nowhere sound stands (.read stands.items?_over)⟩
  | some address =>
    obtain ⟨items, reads, -⟩ := stands.items? sound.linked
    exact ⟨some address, goes_nowhere sound stands (.read reads)⟩

/-- Going on from where a walk stands. -/
theorem exists_goes_advance (sound : tree.Sound) (stands : Walk.At tree (.ray walk) place) :
    ∃ there, Goes (tree, walk) place .advance (after (tree, walk) .advance) there := by
  have leads {next : RayWalk α D} (run : walk.advance tree = .ok next) :
      after (tree, walk) .advance = (tree, next) := by
    simp only [after, Use.run, Walk.advance, run, bind, Except.bind, pure, Except.pure,
      Except.map]
  cases stands with
  | rayOver known finished =>
    have stays : walk.follow tree = .ok walk := by
      unfold follow march
      rw [finished]
    have run := advance_of_follow known stays
    have halts : Halts tree walk walk := ⟨0, Nat.zero_le _, by simp, .finished finished⟩
    rw [leads run]
    exact ⟨none, goes_nowhere sound (.rayOver known finished) (.advance run halts)⟩
  | @ray _ address known border held =>
    obtain ⟨final, followed, marches, halts⟩ := held.halts sound.linked
    have run := advance_of_follow known followed
    obtain ⟨there, standing, left⟩ := held.lands known border marches
    have climbs : Climbs walk.stack final.stack := .inr marches.entered
    rw [leads run]
    exact ⟨there, .advance run halts, sound, standing, .refl tree, climbs, .inr left⟩

/-- A removal that fails leaves the tree and the walk as they are. -/
theorem after_remove_error {position : Nat} {fault : Fault}
    (run : Walk.removeItem tree (.ray walk) position = .error fault) :
    after (tree, walk) (.remove position) = (tree, walk) := by
  simp only [after, Use.run, run, Except.map]

/-- A removal that ends well leads to the tree and the walk that it returns. -/
theorem after_remove_ok {position : Nat} {changed : Tree R D} {next : RayWalk α D}
    {released : Bool}
    (run : Walk.removeItem tree (.ray walk) position = .ok (changed, .ray next, released)) :
    after (tree, walk) (.remove position) = (changed, next) := by
  simp only [after, Use.run, run, Except.map]

/-- Removing an item of the node at which a walk stands. -/
theorem Stands.exists_goes {address : Address D} (stands : walk.Stands tree.nodes address)
    (sound : tree.Sound) (known : walk.epoch = tree.epoch) (border : walk.border = tree.border)
    {position : Nat} {item : R} (found : (itemsAt tree.nodes address)[position]? = some item) :
    ∃ there, Goes (tree, walk) (some address) (.remove position)
      (after (tree, walk) (.remove position)) there := by
  obtain ⟨changed, count, releases, removes, outcome⟩ := stands.removal sound known found
  have thins := thins_of_removes releases removes
  have above := releases.standing stands
  have borders := border.trans releases.border.symm
  rcases outcome with ⟨rfl, run⟩ | ⟨released, final, run, marches, halts⟩
  · rw [after_remove_ok run]
    refine ⟨some address, .removed run, removes.sound, .ray rfl borders above, thins, .inl rfl,
      .inl ⟨rfl, ?_⟩⟩
    rintro other (here | further)
    · exact .inl here
    · exact .inr (releases.pending stands further)
  · rw [after_remove_ok run]
    have length : walk.stack.length = address.length + 1 := stands.way.length
    have within := releases.within
    have led : Leads tree walk (.remove position) (changed, final) :=
      .released run released (by omega) halts
    have climbs : Climbs walk.stack final.stack := by
      refine .inr (marches.entered.imp_right ?_)
      rintro ⟨step, upper, stack, nonempty, suffix⟩
      exact ⟨step, upper, stack, nonempty, suffix.trans (List.drop_suffix _ _)⟩
    obtain ⟨there, standing, left⟩ := above.lands rfl borders marches
    exact ⟨there, led, removes.sound, standing, thins, climbs,
      .inr fun other ahead => releases.pending stands (left other ahead)⟩

/-- Removing an item at a walk that stands. -/
theorem exists_goes_remove (sound : tree.Sound) (stands : Walk.At tree (.ray walk) place)
    (position : Nat) : ∃ there, Goes (tree, walk) place (.remove position)
      (after (tree, walk) (.remove position)) there := by
  cases place with
  | none =>
    have run := stands.removeItem_over position
    rw [after_remove_error run]
    exact ⟨none, goes_nowhere sound stands (.refused run (.inl ⟨stands.current?_over, rfl⟩))⟩
  | some address =>
    cases found : (itemsAt tree.nodes address)[position]? with
    | none =>
      have run := stands.removeItem_outside sound.linked found
      rw [after_remove_error run]
      exact ⟨some address, goes_nowhere sound stands (.refused run (.inr rfl))⟩
    | some item =>
      cases stands with
      | ray known border held => exact held.exists_goes sound known border found

/-- A use of a walk that stands has what it leads to, and the walk stands again. -/
theorem exists_goes (sound : tree.Sound) (stands : Walk.At tree (.ray walk) place) (use : Use) :
    ∃ there, Goes (tree, walk) place use (after (tree, walk) use) there := by
  cases use with
  | read => exact exists_goes_read sound stands
  | advance => exact exists_goes_advance sound stands
  | remove position => exact exists_goes_remove sound stands position

end Goes

/-! ## Rides -/

/-- A tree and a ray walk after uses of the walk. -/
def ride (state : Tree R D × RayWalk α D) (uses : List Use) : Tree R D × RayWalk α D :=
  uses.foldl after state

/-- Uses one after the other lead on from where the first of them lead. -/
theorem ride_append (state : Tree R D × RayWalk α D) (early late : List Use) :
    ride state (early ++ late) = ride (ride state early) late := List.foldl_append

/-- Whether a walk stands somewhere in a sound tree. -/
def Sits (state : Tree R D × RayWalk α D) : Prop :=
  state.1.Sound ∧ ∃ place, Walk.At state.1 (.ray state.2) place

variable {state : Tree R D × RayWalk α D}

/-- A use leads from a walk that stands to one that stands. -/
theorem Sits.goes (sits : Sits state) (use : Use) :
    ∃ place there, Goes state place use (after state use) there ∧ Sits (after state use) := by
  obtain ⟨sound, place, stands⟩ := sits
  obtain ⟨there, goes⟩ := exists_goes sound stands use
  exact ⟨place, there, goes, goes.sound, there, goes.stands⟩

/-- A ride keeps the tree sound and the walk standing, and only takes from the tree. -/
theorem Sits.kept (sits : Sits state) (uses : List Use) :
    Sits (ride state uses) ∧ Thins state.1 (ride state uses).1 := by
  induction uses generalizing state with
  | nil => exact ⟨sits, .refl state.1⟩
  | cons use later ih =>
    obtain ⟨_, _, goes, next⟩ := sits.goes use
    obtain ⟨sits, thins⟩ := ih next
    exact ⟨sits, goes.thins.trans thins⟩

/-- A walk stands at one place only. -/
theorem place_unique {tree : Tree R D} {walk : RayWalk α D} {first second : Option (Address D)}
    (linked : Linked tree.border tree.nodes) (here : Walk.At tree (.ray walk) first)
    (there : Walk.At tree (.ray walk) second) : first = second := by
  have nowhere {place : Address D} (finished : Walk.At tree (.ray walk) none)
      (stands : Walk.At tree (.ray walk) (some place)) : False := by
    obtain ⟨last, above, shape⟩ := stands.way.exists_last
    rw [finished.way_eq_nil] at shape
    cases shape
  cases first with
  | none =>
    cases second with
    | none => rfl
    | some place => exact (nowhere here there).elim
  | some place =>
    cases second with
    | none => exact (nowhere there here).elim
    | some other =>
      obtain ⟨key, located⟩ := here.located (.inl rfl)
      have same := here.current?.symm.trans there.current?
      rw [located] at same
      rw [linked.unique located same.symm]

/-- Whether a node is out of reach of a walk. -/
def Gone (state : Tree R D × RayWalk α D) (address : Address D) : Prop :=
  ∃ place, Walk.At state.1 (.ray state.2) place ∧ ¬Walk.Left state.1 (.ray state.2) place address

/-- A node that is out of reach stays so. -/
theorem Gone.later (sits : Sits state) {address : Address D} (gone : Gone state address)
    (uses : List Use) : Gone (ride state uses) address := by
  induction uses generalizing state with
  | nil => exact gone
  | cons use later ih =>
    obtain ⟨place, stands, apart⟩ := gone
    obtain ⟨there, goes⟩ := exists_goes sits.1 stands use
    apply ih ⟨goes.sound, there, goes.stands⟩
    refine ⟨there, goes.stands, fun left => apart ?_⟩
    rcases goes.left with ⟨-, stays⟩ | leaves
    · exact stays address left
    · exact .inr (leaves address left)

/-- A walk stays at its node, or the node gets out of reach. -/
theorem stays_or_gone (sits : Sits state) {address : Address D}
    (stands : Walk.At state.1 (.ray state.2) (some address)) (uses : List Use) :
    Walk.At (ride state uses).1 (.ray (ride state uses).2) (some address) ∨
      Gone (ride state uses) address := by
  induction uses generalizing state with
  | nil => exact .inl stands
  | cons use later ih =>
    obtain ⟨there, goes⟩ := exists_goes sits.1 stands use
    have next : Sits (after state use) := ⟨goes.sound, there, goes.stands⟩
    rcases goes.left with ⟨rfl, -⟩ | leaves
    · exact ih next goes.stands
    · have gone : Gone (after state use) address :=
        ⟨there, goes.stands, fun left => stands.not_ahead (leaves address left)⟩
      exact .inr (gone.later next later)

/-- Every upper part of the way was the way at an earlier point of the ride, when the ride starts
at the root. -/
theorem ride_upper (sits : Sits state) (start : state.2.stack.length ≤ 1) (uses : List Use)
    {upper : List (Step D)} (nonempty : upper ≠ []) (suffix : upper <:+ (ride state uses).2.stack) :
    ∃ earlier, earlier <+: uses ∧ (ride state earlier).2.stack = upper := by
  induction uses using List.reverseRecOn generalizing upper with
  | nil =>
    have one : state.2.stack.length ≤ upper.length :=
      Nat.le_trans start (List.length_pos_iff.mpr nonempty)
    exact ⟨[], List.prefix_refl _, (suffix.eq_of_length_le one).symm⟩
  | append_singleton before use ih =>
    have previously {part : List (Step D)} (some_left : part ≠ [])
        (on_way : part <:+ (ride state before).2.stack) :
        ∃ earlier, earlier <+: before ++ [use] ∧ (ride state earlier).2.stack = part := by
      obtain ⟨earlier, initial, same⟩ := ih some_left on_way
      exact ⟨earlier, initial.trans (List.prefix_append _ _), same⟩
    obtain ⟨_, _, goes, -⟩ := (sits.kept before).1.goes use
    have now : ride state (before ++ [use]) = after (ride state before) use :=
      ride_append state before [use]
    rw [now] at suffix
    rcases goes.climbs with same | finished | ⟨step, rest, stack, some_rest, on_way⟩
    · rw [same] at suffix
      exact previously nonempty suffix
    · rw [finished] at suffix
      exact absurd (List.suffix_nil.mp suffix) nonempty
    · rw [stack] at suffix
      rcases List.suffix_cons_iff.mp suffix with whole | part
      · exact ⟨before ++ [use], List.prefix_refl _, by rw [now, stack, whole]⟩
      · exact previously nonempty (part.trans on_way)

/-- A walk that is over stays over. -/
theorem over_ride (sits : Sits state) (finished : state.2.stack = []) (uses : List Use) :
    (ride state uses).2.stack = [] := by
  induction uses generalizing state with
  | nil => exact finished
  | cons use later ih =>
    obtain ⟨_, _, goes, next⟩ := sits.goes use
    have still : (after state use).2.stack = [] := by
      rcases goes.climbs with same | ended | ⟨step, rest, -, some_rest, on_way⟩
      · exact same.trans finished
      · exact ended
      · rw [finished] at on_way
        exact absurd (List.suffix_nil.mp on_way) some_rest
    exact ih next still

/-! ## What every ride is -/

/-- The key of the node that a ride has come to. -/
def current? (state : Tree R D × RayWalk α D) : Option Key := (Walk.ray state.2).current?

/-- Whether a ride has come to a node with an item. -/
def Presents (state : Tree R D × RayWalk α D) (item : R) : Prop :=
  ∃ items, Walk.items? state.1 (.ray state.2) = .ok (some items) ∧ item ∈ items

/-- Whether no two nodes of a tree hold an item. -/
def Alone (tree : Tree R D) (item : R) : Prop :=
  ∀ key other node further, tree.nodes.get? key = some node →
    tree.nodes.get? other = some further → item ∈ node.items → item ∈ further.items → key = other

/-- What holds of every ride from a tree and a ray walk on it. -/
structure Rides (state : Tree R D × RayWalk α D) : Prop where
  /-- Every use has an outcome; where the walk goes on, it does so after boundedly many moves. -/
  leads : ∀ uses use,
    Leads (ride state uses).1 (ride state uses).2 use (ride state (uses ++ [use]))
  /-- Until it is over, the walk stands on the way to the cell of the ray, on the levels of the
  tree. -/
  stands : ∀ uses, (ride state uses).2.stack = [] ∨
    ∃ place, (ride state uses).2.Stands (ride state uses).1.nodes place ∧
      (ride state uses).2.stack.length ≤ (ride state uses).2.finest + 1 ∧
      (ride state uses).2.finest + 1 = (ride state uses).1.levels
  /-- A node below the root is entered from its parent, to which the ride has come before. -/
  parent : ∀ uses step upper, (ride state uses).2.stack = step :: upper → upper ≠ [] →
    ∃ earlier, earlier <+: uses ∧ (ride state earlier).2.stack = upper
  /-- A ride does not come back to a node that it has left. -/
  once : ∀ early middle late key, current? (ride state early) = some key →
    current? (ride state (early ++ middle)) ≠ some key →
    current? (ride state (early ++ middle ++ late)) ≠ some key
  /-- Nor to an item that one node alone holds. -/
  items : ∀ item, Alone state.1 item → ∀ early middle late, Presents (ride state early) item →
    current? (ride state (early ++ middle)) ≠ current? (ride state early) →
    ¬Presents (ride state (early ++ middle ++ late)) item
  /-- A walk that is over stays over. -/
  final : ∀ early late, (ride state early).2.stack = [] → (ride state (early ++ late)).2.stack = []
  /-- Until then it moves as in floating point, from whatever part of its way it goes on. -/
  rounded : ∀ uses, (ride state uses).2.stack = [] ∨
    ∀ stack epoch, Faithful { (ride state uses).2 with stack, epoch }

section Rides

/-- The node to which a ride has come has one address, in the tree as it is and as it was. -/
theorem Sits.exists_place (sits : Sits state) {uses : List Use} {key : Key}
    (here : current? (ride state uses) = some key) :
    ∃ address, Walk.At (ride state uses).1 (.ray (ride state uses).2) (some address) ∧
      locate (ride state uses).1.nodes address = some key ∧
      locate state.1.nodes address = some key := by
  obtain ⟨⟨sound, place, stands⟩, thins⟩ := sits.kept uses
  cases place with
  | none =>
    have finished : current? (ride state uses) = none := stands.current?_over
    rw [finished] at here
    cases here
  | some address =>
    have located := stands.current?.symm.trans here
    exact ⟨address, stands, located, thins.known address key located⟩

/-- A node that a ride has left is not reached again. -/
theorem Sits.once (sits : Sits state) (early middle late : List Use) {key : Key}
    (here : current? (ride state early) = some key)
    (moved : current? (ride state (early ++ middle)) ≠ some key) :
    current? (ride state (early ++ middle ++ late)) ≠ some key := by
  intro back
  have linked := sits.1.linked
  obtain ⟨address, stands, located, former⟩ := sits.exists_place here
  obtain ⟨place, returned, found, known⟩ := sits.exists_place back
  have same : place = address := linked.unique known former
  rw [same] at returned
  have gone : Gone (ride state (early ++ middle)) address := by
    rw [ride_append] at moved ⊢
    refine (stays_or_gone (sits.kept early).1 stands middle).resolve_left fun still => moved ?_
    obtain ⟨next, there⟩ := still.located (.inl rfl)
    have kept := ((sits.kept early).1.kept middle).2.known address next there
    rw [current?, still.current?, there, ← kept, located]
  have later := gone.later (sits.kept _).1 late
  rw [← ride_append] at later
  obtain ⟨there, standing, apart⟩ := later
  have where_it_is := place_unique (sits.kept _).1.1.linked standing returned
  exact apart (.inl where_it_is)

/-- An item that a ride has come to is at the place of the walk, and was there from the start. -/
theorem Sits.exists_holder (sits : Sits state) {uses : List Use} {item : R}
    (presents : Presents (ride state uses) item) :
    ∃ key node, current? (ride state uses) = some key ∧ state.1.nodes.get? key = some node ∧
      item ∈ node.items := by
  obtain ⟨items, reads, member⟩ := presents
  obtain ⟨⟨sound, place, stands⟩, thins⟩ := sits.kept uses
  cases place with
  | none =>
    rw [stands.items?_over] at reads
    cases reads
  | some address =>
    obtain ⟨found, finds, same⟩ := stands.items? sound.linked
    rw [finds] at reads
    cases reads
    obtain ⟨key, located⟩ := stands.located (.inl rfl)
    have former := thins.known address key located
    obtain ⟨node, there⟩ := sits.1.linked.present former
    have held : item ∈ itemsAt state.1.nodes address := by
      apply (thins.items address).subset
      rw [← same]
      exact Array.mem_toList_iff.mpr member
    rw [itemsAt_of_get? former there] at held
    have here : current? (ride state uses) = some key := stands.current?.trans located
    exact ⟨key, node, here, there, Array.mem_toList_iff.mp held⟩

/-- A ride keeps a walk upright until it is over. -/
theorem Sits.upright (sits : Sits state) (start : state.2.stack = [] ∨ state.2.Upright)
    (uses : List Use) : (ride state uses).2.stack = [] ∨ (ride state uses).2.Upright := by
  rcases start with finished | upright
  · exact .inl (over_ride sits finished uses)
  · right
    induction uses generalizing state with
    | nil => exact upright
    | cons use later ih =>
      obtain ⟨_, _, goes, next⟩ := sits.goes use
      exact ih next (goes.leads.upright upright)

/-- What holds of every ride that starts at the root. -/
theorem Sits.rides (sits : Sits state) (start : state.2.stack.length ≤ 1)
    (upright : state.2.stack = [] ∨ state.2.Upright) : Rides state := by
  refine ⟨?_, ?_, ?_, ?_, ?_, ?_, ?_⟩
  · intro uses use
    obtain ⟨_, _, goes, -⟩ := (sits.kept uses).1.goes use
    rw [ride_append]
    exact goes.leads
  · intro uses
    obtain ⟨sound, place, stands⟩ := (sits.kept uses).1
    cases stands with
    | rayOver _ finished => exact .inl finished
    | ray _ border held =>
      have length := held.way.length
      have level := held.level
      refine .inr ⟨_, held, by omega, ?_⟩
      have positive : 0 < levelCount (ride state uses).1.border := by
        unfold levelCount Limits.levels
        omega
      unfold finest Tree.levels
      rw [border]
      omega
  · intro uses step upper stack nonempty
    apply ride_upper sits start uses nonempty
    rw [stack]
    exact List.suffix_cons _ _
  · exact fun early middle late key => sits.once early middle late
  · intro item alone early middle late presents moved again
    obtain ⟨key, node, here, found, member⟩ := sits.exists_holder presents
    obtain ⟨other, further, there, finds, holds⟩ := sits.exists_holder again
    have same := alone key other node further found finds member holds
    rw [here] at moved
    exact sits.once early middle late here moved (same ▸ there)
  · intro early late finished
    rw [ride_append]
    exact over_ride (sits.kept early).1 finished late
  · intro uses
    refine (sits.upright upright uses).imp_right fun stays stack epoch => ?_
    have again : ({ (ride state uses).2 with stack, epoch } : RayWalk α D).Upright :=
      stays.congr rfl rfl rfl rfl
    exact again.faithful

/-- Every ride along any ray, on every tree that any deeds lead to. -/
theorem rides_of_create [DecidableEq R] {border : Nat} {tree : Tree R D}
    (created : Tree.create border = .ok tree) (deeds : List (Deed α R D)) (ray : Ray α D)
    (reach : Reach α D) :
    Rides ((tree.share deeds).1.tree, start (tree.share deeds).1.tree ray reach) := by
  have kept := Shared.kept_of_create created deeds
  have legal : Legal (tree.share deeds).1.tree.border := by
    obtain ⟨same, stores⟩ := Tree.Stores.of_create created
    rw [kept.border_eq, ← same]
    exact stores.legal
  obtain ⟨place, stands, outset⟩ := Walk.start_ray (tree.share deeds).1.tree ray reach
  apply Sits.rides ⟨kept.sound, place, stands⟩ _ (start_upright legal ray reach)
  rcases outset with rfl | rfl
  · have finished : (start (tree.share deeds).1.tree ray reach).stack = [] := stands.way_eq_nil
    simp only [finished, List.length_nil, Nat.zero_le]
  · exact Nat.le_of_eq stands.way.length

/-- Two small items in opposite corners and a wide one. -/
def Sample.deeds : List (Deed Exact Nat 2) :=
  [.insert 7 ⟨#v[0, 0], #v[0, 0]⟩, .insert 8 ⟨#v[6, 6], #v[6, 6]⟩, .insert 9 ⟨#v[0, 0], #v[7, 7]⟩]

/-- The walk along a slanted ray from the corner of a tree. -/
def Sample.outset (tree : Tree Nat 2) : Tree Nat 2 × RayWalk Exact 2 :=
  ((tree.share Sample.deeds).1.tree,
    start (tree.share Sample.deeds).1.tree ⟨#v[.finite 0, .finite 0], #v[.finite 2, .finite 1]⟩
      ⟨.finite 100, #v[.finite 1, .finite 1]⟩)

/-- The ride starts at the node of the wide item and comes to that of the first one; when it removes
that item, or goes on, it is over. -/
theorem rides_of_sample : ∃ tree : Tree Nat 2, Tree.create 8 = .ok tree ∧
    Rides (Sample.outset tree) ∧
    ([[], [.advance], [.advance, .remove 0], [.advance, .advance]] : List (List Use)).map
      (fun uses => current? (ride (Sample.outset tree) uses)) =
        [some ⟨1, 0⟩, some ⟨2, 0⟩, none, none] := by
  have created : (Tree.create 8 : Except Fault (Tree Nat 2)) = .ok _ := rfl
  refine ⟨_, created, rides_of_create created Sample.deeds _ _, ?_⟩
  decide +kernel

end Rides

end Uses

end SpatialIndex.Partition.RayWalk
