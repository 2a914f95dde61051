import SpatialIndex.Proofs.Partition.Contents

/-!
# Runs on a tree

A run makes a tree, inserts, erases and clears, and starts any number of walks, of which each
goes on or removes items of its current node. A walk is kept as it was before every step too, so
the run may go back to it. In every state that a run reaches, the tree stores the pairs that the
run left, and every walk that knows the tree as it is stands in it; a walk that anything else has
overtaken is refused for good.
-/
namespace SpatialIndex.Partition

variable {α R : Type} {D : Nat}

namespace Walk

/-- The epoch of the tree that a walk knows. -/
def epoch : Walk α D → Nat
  | box walk => walk.epoch
  | ray walk => walk.epoch

section Attending

variable {tree changed : Tree R D} {walk : Walk α D} {place : Option (Address D)}

/-- A walk is confirmed by the epoch alone. -/
theorem confirm_eq_ok_iff : walk.confirm tree = .ok () ↔ walk.epoch = tree.epoch := by
  cases walk with
  | box walk =>
    simp only [Walk.confirm, BoxWalk.confirm, epoch]
    split <;> simpa
  | ray walk =>
    simp only [Walk.confirm, RayWalk.confirm, epoch]
    split <;> simpa

/-- A walk that stands in a tree knows it as it is. -/
theorem At.epoch_eq (stands : At tree walk place) : walk.epoch = tree.epoch :=
  confirm_eq_ok_iff.mp stands.confirm

/-- The current node of a walk is the one where it stands. -/
theorem At.current? {address : Address D} (stands : At tree walk (some address)) :
    walk.current? = locate tree.nodes address := by
  obtain ⟨last, above, shape⟩ := stands.way.exists_last
  have way := stands.way
  rw [shape] at way
  rw [Walk.current?, shape, way.locate]
  rfl

/-- A walk that is over has no current node. -/
theorem At.current?_over (stands : At tree walk none) : walk.current? = none := by
  rw [Walk.current?, stands.way_eq_nil]
  rfl

/-- A walk of a tree stands in it as long as it knows it as it is. -/
structure Attends (tree : Tree R D) (walk : Walk α D) : Prop where
  /-- A walk knows nothing that is still to come. -/
  past : walk.epoch ≤ tree.epoch
  /-- A walk that knows the tree stands in it. -/
  stands : walk.epoch = tree.epoch → ∃ place, At tree walk place

/-- A walk that stands in a tree attends to it. -/
theorem At.attends (stands : At tree walk place) : walk.Attends tree :=
  ⟨Nat.le_of_eq stands.epoch_eq, fun _ => ⟨place, stands⟩⟩

/-- A walk does not know a tree that was changed since. -/
theorem Attends.overtaken (attends : walk.Attends tree) (later : changed.epoch = tree.epoch + 1) :
    walk.Attends changed := by
  have past := attends.past
  exact ⟨by omega, fun known => by omega⟩

/-- Only a walk that knows the tree has items. -/
theorem Attends.of_items? {items : Array R} (attends : walk.Attends tree)
    (linked : Linked tree.border tree.nodes) (read : walk.items? tree = .ok (some items)) :
    ∃ address, At tree walk (some address) ∧ itemsAt tree.nodes address = items.toList := by
  obtain ⟨⟨⟩, known, -⟩ := Except.bind_eq_ok_iff.mp read
  obtain ⟨place, stands⟩ := attends.stands (confirm_eq_ok_iff.mp known)
  cases place with
  | none =>
    rw [stands.items?_over] at read
    cases read
  | some address =>
    obtain ⟨found, reads, same⟩ := stands.items? linked
    rw [reads] at read
    cases read
    exact ⟨address, stands, same.symm⟩

/-- Removing an item is one change of the tree, and leaves its border. -/
theorem removeItem_touches [Arithmetic α] {next : Walk α D} {position : Nat} {released : Bool}
    (run : walk.removeItem tree position = .ok (changed, next, released)) :
    changed.epoch = tree.epoch + 1 ∧ changed.border = tree.border := by
  unfold Walk.removeItem at run
  simp only [Except.bind_eq_ok_iff] at run
  obtain ⟨⟨⟩, -, ⟨nodes, way⟩, -, resumed, -, made⟩ := run
  cases made
  exact ⟨rfl, rfl⟩

end Attending

end Walk

/-- The states that a run on a tree of a border can reach: the tree, all walks that were ever
started or led on, and the pairs that are stored. -/
inductive Reached [Arithmetic α] [DecidableEq R] (border : Nat) :
    Tree R D → List (Walk α D) → Multiset (R × Box D) → Prop
  /-- A new tree. -/
  | create {tree : Tree R D} : Tree.create border = .ok tree → Reached border tree [] 0
  /-- An item is inserted with a valid box. -/
  | insert {tree changed : Tree R D} {walks : List (Walk α D)} {live : Multiset (R × Box D)}
      {item : R} {box : Box D} :
    Reached border tree walks live → box.Valid border →
    Tree.insert item box tree = .ok () changed →
    Reached border changed walks ((item, box) ::ₘ live)
  /-- An item is erased with a valid box that leads where one of its pairs leads; such a pair is
  taken away. -/
  | erase {tree changed : Tree R D} {walks : List (Walk α D)} {live : Multiset (R × Box D)}
      {item : R} {box held : Box D} :
    Reached border tree walks live → box.Valid border → (item, held) ∈ live →
    held.address border = box.address border → Tree.erase item box tree = .ok () changed →
    Reached border changed walks (live.erase (item, held))
  /-- The tree is cleared. -/
  | clear {tree : Tree R D} {walks : List (Walk α D)} {live : Multiset (R × Box D)} :
    Reached border tree walks live → Reached border tree.clear walks 0
  /-- A walk is started with a valid query. -/
  | startBox {tree : Tree R D} {walks : List (Walk α D)} {live : Multiset (R × Box D)}
      {query : Box D} {walk : BoxWalk D} :
    Reached border tree walks live → query.Valid border →
    BoxWalk.start tree query = .ok walk → Reached border tree (.box walk :: walks) live
  /-- A walk is started with any ray. -/
  | startRay {tree : Tree R D} {walks : List (Walk α D)} {live : Multiset (R × Box D)}
      (ray : Ray α D) (reach : Reach α D) :
    Reached border tree walks live →
    Reached border tree (.ray (RayWalk.start tree ray reach) :: walks) live
  /-- A walk goes on. -/
  | advance {tree : Tree R D} {walks : List (Walk α D)} {live : Multiset (R × Box D)}
      {walk next : Walk α D} :
    Reached border tree walks live → walk ∈ walks → walk.advance tree = .ok next →
    Reached border tree (next :: walks) live
  /-- A walk removes an item of its current node; a pair of the item that leads to that node is
  taken away. -/
  | remove {tree changed : Tree R D} {walks : List (Walk α D)} {live : Multiset (R × Box D)}
      {walk next : Walk α D} {position : Nat} {released : Bool} {items : Array R} {item : R}
      {held : Box D} :
    Reached border tree walks live → walk ∈ walks →
    walk.items? tree = .ok (some items) → items[position]? = some item →
    (item, held) ∈ live → locate tree.nodes (held.address border) = walk.current? →
    walk.removeItem tree position = .ok (changed, next, released) →
    Reached border changed (next :: walks) (live.erase (item, held))

namespace Reached

variable {border : Nat} {tree : Tree R D} {walks : List (Walk α D)} {live : Multiset (R × Box D)}

/-- What a run keeps: the border, what the tree stores, and where the walks stand. -/
structure Kept (border : Nat) (tree : Tree R D) (walks : List (Walk α D))
    (live : Multiset (R × Box D)) : Prop where
  /-- The border stays. -/
  border_eq : tree.border = border
  /-- The tree stores the pairs that are left. -/
  stores : tree.Stores live
  /-- Every walk stands in the tree, or was overtaken. -/
  attends : ∀ walk ∈ walks, walk.Attends tree

/-- A change that overtakes all walks keeps what a run keeps. -/
theorem Kept.overtake {changed : Tree R D} {left : Multiset (R × Box D)}
    (kept : Kept border tree walks live) (same : changed.border = tree.border)
    (later : changed.epoch = tree.epoch + 1) (stores : changed.Stores left) :
    Kept border changed walks left :=
  ⟨same.trans kept.border_eq, stores, fun walk member => (kept.attends walk member).overtaken later⟩

/-- One more walk that stands in the tree keeps what a run keeps. -/
theorem Kept.join {walk : Walk α D} {place : Option (Address D)}
    (kept : Kept border tree walks live) (stands : walk.At tree place) :
    Kept border tree (walk :: walks) live := by
  refine ⟨kept.border_eq, kept.stores, fun other member => ?_⟩
  rcases List.mem_cons.mp member with rfl | former
  · exact stands.attends
  · exact kept.attends other former

/-- An insertion keeps what a run keeps, with one more item alive. -/
theorem Kept.insert {changed : Tree R D} {item : R} {box : Box D}
    (kept : Kept border tree walks live) (valid : box.Valid border)
    (run : Tree.insert item box tree = .ok () changed) :
    Kept border changed walks ((item, box) ::ₘ live) := by
  rw [← kept.border_eq] at valid
  obtain ⟨result, runs, same, later, stores⟩ := kept.stores.insert item valid
  rw [runs] at run
  cases run
  exact kept.overtake same later stores

/-- An erasure of an item that leads to the same place keeps what a run keeps, without the item. -/
theorem Kept.erase [DecidableEq R] {changed : Tree R D} {item : R} {box held : Box D}
    (kept : Kept border tree walks live) (valid : box.Valid border) (member : (item, held) ∈ live)
    (leads : held.address border = box.address border)
    (run : Tree.erase item box tree = .ok () changed) :
    Kept border changed walks (live.erase (item, held)) := by
  rw [← kept.border_eq] at valid leads
  obtain ⟨result, runs, same, later, stores⟩ := kept.stores.erase valid member leads
  rw [runs] at run
  cases run
  exact kept.overtake same later stores

/-- A walk that goes on keeps what a run keeps. -/
theorem Kept.advance [Arithmetic α] {walk next : Walk α D} (kept : Kept border tree walks live)
    (member : walk ∈ walks) (run : walk.advance tree = .ok next) :
    Kept border tree (next :: walks) live := by
  have known : walk.confirm tree = .ok () := by
    cases walk with
    | box walk | ray walk =>
      obtain ⟨_, advanced, -⟩ := Except.bind_eq_ok_iff.mp run
      obtain ⟨⟨⟩, confirmed, -⟩ := Except.bind_eq_ok_iff.mp advanced
      exact confirmed
  obtain ⟨place, stands⟩ := (kept.attends walk member).stands (Walk.confirm_eq_ok_iff.mp known)
  obtain ⟨there, standing⟩ := stands.stands_advance kept.stores.sound.linked run
  exact kept.join standing

variable [Arithmetic α] [DecidableEq R]

/-- A walk that removes an item keeps what a run keeps, without an item that leads to where it
stands. -/
theorem Kept.remove {changed : Tree R D} {walk next : Walk α D} {position : Nat} {released : Bool}
    {items : Array R} {item : R} {held : Box D} (kept : Kept border tree walks live)
    (member : walk ∈ walks) (read : walk.items? tree = .ok (some items))
    (found : items[position]? = some item) (stored : (item, held) ∈ live)
    (leads : locate tree.nodes (held.address border) = walk.current?)
    (run : walk.removeItem tree position = .ok (changed, next, released)) :
    Kept border changed (next :: walks) (live.erase (item, held)) := by
  have linked := kept.stores.sound.linked
  obtain ⟨address, stands, same⟩ := (kept.attends walk member).of_items? linked read
  obtain ⟨key, located⟩ := stands.located (.inl rfl)
  have there : held.address border = address := by
    rw [stands.current?, located] at leads
    exact linked.unique leads located
  have listed : (itemsAt tree.nodes address)[position]? = some item := by
    rw [same, Array.getElem?_toList]
    exact found
  obtain ⟨result, after, gone, place, runs, removes, standing⟩ :=
    stands.exists_removed kept.stores.sound listed
  obtain ⟨later, -⟩ := Walk.removeItem_touches run
  rw [runs] at run
  cases run
  have left := kept.stores.remove removes stored (kept.border_eq ▸ there)
  exact (kept.overtake removes.border later left).join standing

/-- A run keeps what it has to keep. -/
theorem kept (reached : Reached border tree walks live) : Kept border tree walks live := by
  induction reached with
  | create created =>
    obtain ⟨same, stores⟩ := Tree.Stores.of_create created
    exact ⟨same, stores, fun walk absurd => by simp at absurd⟩
  | insert _ valid run kept => exact kept.insert valid run
  | erase _ valid member leads run kept => exact kept.erase valid member leads run
  | clear _ kept => exact kept.overtake rfl rfl kept.stores.clear
  | startBox _ valid run kept =>
    rw [← kept.border_eq] at valid
    obtain ⟨walk, runs, stands, -⟩ := Walk.start_box α kept.stores.sound valid
    rw [runs] at run
    cases run
    exact kept.join stands
  | @startRay tree _ _ ray reach _ kept =>
    obtain ⟨place, stands, -⟩ := Walk.start_ray tree ray reach
    exact kept.join stands
  | advance _ member run kept => exact kept.advance member run
  | remove _ member read found stored leads run kept =>
    exact kept.remove member read found stored leads run

/-- No step of a run fails: every valid operation on a state that a run reaches has a result. -/
theorem proceeds (reached : Reached border tree walks live) :
    (∀ item box, box.Valid border → ∃ changed, Tree.insert item box tree = .ok () changed) ∧
      (∀ item box held, box.Valid border → (item, held) ∈ live →
        held.address border = box.address border →
        ∃ changed, Tree.erase item box tree = .ok () changed) ∧
      (∀ query, query.Valid border → ∃ walk, BoxWalk.start tree query = .ok walk) ∧
      ∀ walk ∈ walks, walk.confirm tree = .ok () →
        (∃ next, walk.advance tree = .ok next) ∧
          ∀ items, walk.items? tree = .ok (some items) → ∀ position < items.size,
            ∃ outcome, walk.removeItem tree position = .ok outcome := by
  have kept := reached.kept
  have linked := kept.stores.sound.linked
  refine ⟨?_, ?_, ?_, ?_⟩
  · intro item box valid
    rw [← kept.border_eq] at valid
    obtain ⟨changed, run, -⟩ := kept.stores.insert item valid
    exact ⟨changed, run⟩
  · intro item box held valid member leads
    rw [← kept.border_eq] at valid leads
    obtain ⟨changed, run, -⟩ := kept.stores.erase valid member leads
    exact ⟨changed, run⟩
  · intro query valid
    rw [← kept.border_eq] at valid
    obtain ⟨walk, run, -⟩ := Walk.start_box α kept.stores.sound valid
    exact ⟨walk, run⟩
  · intro walk member known
    have attends := kept.attends walk member
    constructor
    · obtain ⟨place, stands⟩ := attends.stands (Walk.confirm_eq_ok_iff.mp known)
      cases place with
      | none => exact ⟨walk, stands.advance_over⟩
      | some address =>
        obtain ⟨next, -, run, -⟩ := stands.advance linked
        exact ⟨next, run⟩
    · intro items read position within
      obtain ⟨address, stands, same⟩ := attends.of_items? linked read
      have listed : (itemsAt tree.nodes address)[position]? = some items[position] := by
        rw [same, Array.getElem?_toList, Array.getElem?_eq_getElem within]
      obtain ⟨changed, next, released, -, run, -⟩ := stands.removeItem kept.stores.sound listed
      exact ⟨_, run⟩

end Reached

end SpatialIndex.Partition
