import Mathlib.Data.List.Nodup
import Mathlib.Logic.Function.Basic
import SpatialIndex.Pool

/-!
# Pools as finite maps

A pool is read through `Pool.get?`. Every operation is described by its effect on that reading;
a pool whose free slots are empty hands out keys that find nothing before.
-/
namespace SpatialIndex.Pool

variable {α : Type}

/-- The free slots are distinct and hold nothing. -/
structure WellFormed (pool : Pool α) : Prop where
  /-- No slot is free twice. -/
  free_nodup : pool.free.Nodup
  /-- A free slot is a slot without a value. -/
  free_empty : ∀ i ∈ pool.free, ∃ generation, pool.slots[i]? = some ⟨generation, none⟩

/-! ## Reading -/

/-- A key finds the value of its slot under its own generation only. -/
theorem get?_eq_some_iff (pool : Pool α) (key : Key) (value : α) :
    pool.get? key = some value ↔ pool.slots[key.slot]? = some ⟨key.generation, some value⟩ := by
  unfold get?
  cases found : pool.slots[key.slot]? with
  | none => simp
  | some slot =>
    obtain ⟨generation, content⟩ := slot
    by_cases same : generation = key.generation
    · simp [same]
    · simp [same]

/-- A key is contained exactly when it finds a value. -/
theorem contains_iff (pool : Pool α) (key : Key) :
    pool.contains key = true ↔ ∃ value, pool.get? key = some value := by
  rw [contains, Option.isSome_iff_exists]

/-- A key under which a value is found is in the pool. -/
theorem contains_of_get? {pool : Pool α} {key : Key} {value : α}
    (found : pool.get? key = some value) : pool.contains key = true :=
  (contains_iff pool key).mpr ⟨value, found⟩

/-! ## Changing one value -/

/-- Setting a value changes what its key finds, when it finds anything, and nothing else. -/
theorem get?_set (pool : Pool α) (key other : Key) (value : α) :
    (pool.set key value).get? other =
      if other = key then (pool.get? key).map fun _ => value else pool.get? other := by
  by_cases held : pool.contains key
  · obtain ⟨former, found⟩ := (contains_iff pool key).mp held
    have slot := (get?_eq_some_iff pool key former).mp found
    have bound : key.slot < pool.slots.size := (Array.getElem?_eq_some_iff.mp slot).1
    rw [found]
    apply Option.ext
    intro read
    rw [get?_eq_some_iff]
    simp only [set, held, ↓reduceIte]
    by_cases same : other = key
    · subst same
      rw [if_pos rfl]
      simp [Array.getElem?_setIfInBounds_self_of_lt bound]
    · rw [if_neg same, get?_eq_some_iff]
      by_cases slots : other.slot = key.slot
      · have generations : other.generation ≠ key.generation := by
          intro equal
          exact same (by cases other; cases key; simp_all)
        rw [slots, Array.getElem?_setIfInBounds_self_of_lt bound, slot]
        simp [Ne.symm generations]
      · rw [Array.getElem?_setIfInBounds_ne (Ne.symm slots)]
  · have missing : pool.get? key = none := by
      cases found : pool.get? key with
      | none => rfl
      | some former => exact absurd (contains_of_get? found) held
    simp only [set, held, missing, Option.map_none]
    by_cases same : other = key
    · simp [same, missing]
    · simp [same]

/-- A key that is set to a value finds it, when it found one before. -/
theorem get?_set_self {pool : Pool α} {key : Key} {former : α} (value : α)
    (found : pool.get? key = some former) : (pool.set key value).get? key = some value := by
  simp [get?_set, found]

/-- Setting a value leaves the other keys as they are. -/
theorem get?_set_ne (pool : Pool α) {key other : Key} (value : α) (different : other ≠ key) :
    (pool.set key value).get? other = pool.get? other := by
  simp [get?_set, different]

/-- Setting a value adds no key and removes none. -/
theorem contains_set (pool : Pool α) (key : Key) (value : α) :
    (pool.set key value).contains key = pool.contains key := by
  unfold contains
  rw [get?_set, if_pos rfl, Option.isSome_map]

/-- Of two values set under one key the last one stays. -/
theorem set_set (pool : Pool α) (key : Key) (former value : α) :
    (pool.set key former).set key value = pool.set key value := by
  by_cases held : pool.contains key
  · have again := contains_set pool key former
    rw [held] at again
    rw [set, if_pos again]
    simp only [set, held, if_true, Array.setIfInBounds_setIfInBounds]
  · simp only [set, held, Bool.false_eq_true, if_false]

/-- Setting a key to the value it finds changes nothing. -/
theorem set_self {pool : Pool α} {key : Key} {value : α} (found : pool.get? key = some value) :
    pool.set key value = pool := by
  have slot := (get?_eq_some_iff pool key value).mp found
  obtain ⟨bound, here⟩ := Array.getElem?_eq_some_iff.mp slot
  simp only [set, contains_of_get? found, if_true]
  rw [← here, Array.setIfInBounds, dif_pos bound, Array.set_getElem_self]

/-- Setting a value frees no slot. -/
theorem WellFormed.set {pool : Pool α} (formed : pool.WellFormed) (key : Key) (value : α) :
    (pool.set key value).WellFormed := by
  unfold Pool.set
  split
  · rename_i held
    obtain ⟨former, found⟩ := (contains_iff pool key).mp held
    have slot := (get?_eq_some_iff pool key former).mp found
    refine ⟨formed.free_nodup, ?_⟩
    intro i free
    obtain ⟨generation, empty⟩ := formed.free_empty i free
    have other : key.slot ≠ i := by
      intro same
      rw [same, empty] at slot
      simp at slot
    exact ⟨generation, by rw [Array.getElem?_setIfInBounds_ne other, empty]⟩
  · exact formed

/-! ## Handing out keys -/

/-- A fresh key finds nothing before. -/
theorem get?_insert_key {pool : Pool α} (formed : pool.WellFormed) (value : α) :
    pool.get? (pool.insert value).1 = none := by
  apply Option.eq_none_iff_forall_not_mem.mpr
  intro former found
  have slot := (get?_eq_some_iff pool _ former).mp found
  unfold insert at slot
  cases free : pool.free with
  | nil => simp [free] at slot
  | cons i rest =>
    obtain ⟨generation, empty⟩ := formed.free_empty i (by simp [free])
    simp [free, empty] at slot

/-- A fresh key finds the value put in, and every other key finds what it found. -/
theorem get?_insert {pool : Pool α} (formed : pool.WellFormed) (value : α) (other : Key) :
    (pool.insert value).2.get? other =
      if other = (pool.insert value).1 then some value else pool.get? other := by
  apply Option.ext
  intro read
  rw [get?_eq_some_iff]
  unfold insert
  cases free : pool.free with
  | nil =>
    simp only
    by_cases fresh : other.slot = pool.slots.size
    · rw [fresh, Array.getElem?_push_size]
      by_cases first : other.generation = 0
      · have same : other = ⟨pool.slots.size, 0⟩ := by cases other; simp_all
        simp [same]
      · have different : other ≠ ⟨pool.slots.size, 0⟩ := by
          rintro rfl
          exact first rfl
        rw [if_neg different, get?_eq_some_iff, fresh]
        simp [Ne.symm first]
    · have different : other ≠ ⟨pool.slots.size, 0⟩ := by
        rintro rfl
        exact fresh rfl
      rw [if_neg different, get?_eq_some_iff, Array.getElem?_push, if_neg fresh]
  | cons i rest =>
    obtain ⟨generation, empty⟩ := formed.free_empty i (by simp [free])
    have bound : i < pool.slots.size := (Array.getElem?_eq_some_iff.mp empty).1
    simp only [empty, Option.map_some, Option.getD_some]
    by_cases fresh : other.slot = i
    · rw [fresh, Array.getElem?_setIfInBounds_self_of_lt bound]
      by_cases current : other.generation = generation
      · have same : other = ⟨i, generation⟩ := by cases other; simp_all
        simp [same]
      · have different : other ≠ ⟨i, generation⟩ := by
          rintro rfl
          exact current rfl
        rw [if_neg different, get?_eq_some_iff, fresh, empty]
        simp [Ne.symm current]
    · have different : other ≠ ⟨i, generation⟩ := by
        rintro rfl
        exact fresh rfl
      rw [if_neg different, get?_eq_some_iff, Array.getElem?_setIfInBounds_ne (Ne.symm fresh)]

/-- Putting a value in keeps the free slots empty. -/
theorem WellFormed.insert {pool : Pool α} (formed : pool.WellFormed) (value : α) :
    (pool.insert value).2.WellFormed := by
  unfold Pool.insert
  cases free : pool.free with
  | nil => exact ⟨by simp, by simp⟩
  | cons i rest =>
    have nodup := formed.free_nodup
    rw [free, List.nodup_cons] at nodup
    refine ⟨nodup.2, ?_⟩
    intro j later
    obtain ⟨generation, empty⟩ := formed.free_empty j (by simp [free, later])
    have other : i ≠ j := by
      rintro rfl
      exact nodup.1 later
    exact ⟨generation, by rw [Array.getElem?_setIfInBounds_ne other, empty]⟩

/-- The pool without values is well formed. -/
theorem wellFormed_empty : (empty : Pool α).WellFormed :=
  ⟨List.nodup_nil, by simp [empty]⟩

/-- Nothing is found in an empty pool. -/
theorem get?_empty (key : Key) : (empty : Pool α).get? key = none := by
  apply Option.eq_none_iff_forall_not_mem.mpr
  intro value found
  have slot := (get?_eq_some_iff empty key value).mp found
  rw [empty, Array.getElem?_eq_some_iff] at slot
  obtain ⟨bound, slot⟩ := slot
  simp at slot

/-! ## Releasing keys -/

/-- A released key finds nothing, and every other key finds what it found. -/
theorem get?_remove (pool : Pool α) (key other : Key) :
    (pool.remove key).get? other = if other = key then none else pool.get? other := by
  by_cases held : pool.contains key
  · obtain ⟨former, found⟩ := (contains_iff pool key).mp held
    have slot := (get?_eq_some_iff pool key former).mp found
    have bound : key.slot < pool.slots.size := (Array.getElem?_eq_some_iff.mp slot).1
    apply Option.ext
    intro read
    rw [get?_eq_some_iff]
    simp only [remove, held, ↓reduceIte]
    by_cases same : other = key
    · subst same
      simp [Array.getElem?_setIfInBounds_self_of_lt bound]
    · rw [if_neg same, get?_eq_some_iff]
      by_cases slots : other.slot = key.slot
      · have generations : other.generation ≠ key.generation := by
          intro equal
          exact same (by cases other; cases key; simp_all)
        rw [slots, Array.getElem?_setIfInBounds_self_of_lt bound, slot]
        simp [Ne.symm generations]
      · rw [Array.getElem?_setIfInBounds_ne (Ne.symm slots)]
  · have missing : pool.get? key = none := by
      cases found : pool.get? key with
      | none => rfl
      | some former => exact absurd (contains_of_get? found) held
    simp only [remove, held]
    by_cases same : other = key
    · simp [same, missing]
    · simp [same]

/-- A released slot is free once. -/
theorem WellFormed.remove {pool : Pool α} (formed : pool.WellFormed) (key : Key) :
    (pool.remove key).WellFormed := by
  unfold Pool.remove
  split
  · rename_i held
    obtain ⟨former, found⟩ := (contains_iff pool key).mp held
    have slot := (get?_eq_some_iff pool key former).mp found
    have bound : key.slot < pool.slots.size := (Array.getElem?_eq_some_iff.mp slot).1
    have other : ∀ i ∈ pool.free, key.slot ≠ i := by
      intro i free same
      obtain ⟨generation, empty⟩ := formed.free_empty i free
      rw [same, empty] at slot
      simp at slot
    refine ⟨List.nodup_cons.mpr ⟨fun free => other _ free rfl, formed.free_nodup⟩, ?_⟩
    intro i free
    rcases List.mem_cons.mp free with rfl | free
    · exact ⟨_, Array.getElem?_setIfInBounds_self_of_lt bound⟩
    · obtain ⟨generation, empty⟩ := formed.free_empty i free
      exact ⟨generation, by rw [Array.getElem?_setIfInBounds_ne (other i free), empty]⟩
  · exact formed

/-- Releasing keys one after the other takes all of them away. -/
theorem get?_foldl_remove (keys : List Key) (pool : Pool α) (other : Key) :
    (keys.foldl remove pool).get? other = if other ∈ keys then none else pool.get? other := by
  induction keys generalizing pool with
  | nil => simp
  | cons key keys ih =>
    rw [List.foldl_cons, ih, get?_remove]
    by_cases later : other ∈ keys
    · simp [later]
    · by_cases same : other = key
      · simp [same]
      · simp [later, same]

/-- A pool stays well formed when keys are removed one after the other. -/
theorem WellFormed.foldl_remove {pool : Pool α} (formed : pool.WellFormed) (keys : List Key) :
    (keys.foldl Pool.remove pool).WellFormed := by
  induction keys generalizing pool with
  | nil => exact formed
  | cons key keys ih => exact ih (formed.remove key)

/-- A key that is removed may be set to anything before. -/
theorem remove_set (pool : Pool α) (key : Key) (value : α) :
    (pool.set key value).remove key = pool.remove key := by
  by_cases held : pool.contains key
  · have again := contains_set pool key value
    rw [held] at again
    rw [remove, if_pos again]
    simp only [remove, set, held, if_true, Array.setIfInBounds_setIfInBounds]
  · simp only [remove, set, held, Bool.false_eq_true, if_false]

/-! ## The values in order -/

/-- The entries are the keys that find a value, with it. -/
theorem mem_entries (pool : Pool α) (key : Key) (value : α) :
    (key, value) ∈ pool.entries ↔ pool.get? key = some value := by
  rw [get?_eq_some_iff, entries, List.mem_filterMap]
  constructor
  · rintro ⟨⟨⟨generation, content⟩, i⟩, place, entry⟩
    rw [List.mem_zipIdx_iff_getElem?, Array.getElem?_toList] at place
    cases content with
    | none => simp at entry
    | some held =>
      simp only [Option.map_some, Option.some.injEq, Prod.mk.injEq] at entry
      obtain ⟨rfl, rfl⟩ := entry
      exact place
  · intro slot
    exact ⟨(⟨key.generation, some value⟩, key.slot),
      by rw [List.mem_zipIdx_iff_getElem?, Array.getElem?_toList]; exact slot, rfl⟩

/-- The keys of a pool are those under which a value is found. -/
theorem mem_keys (pool : Pool α) (key : Key) :
    key ∈ pool.keys ↔ ∃ value, pool.get? key = some value := by
  simp only [keys, List.mem_map, Prod.exists, mem_entries, exists_and_right, exists_eq_right]

/-- Every slot in use has one entry. -/
theorem keys_nodup (pool : Pool α) : pool.keys.Nodup := by
  have indices : (pool.slots.toList.zipIdx.map Prod.snd).Nodup := by
    rw [List.zipIdx_map_snd]
    exact List.nodup_range'
  unfold keys entries
  generalize pool.slots.toList.zipIdx = slots at indices ⊢
  induction slots with
  | nil => simp
  | cons slot slots ih =>
    obtain ⟨⟨generation, content⟩, i⟩ := slot
    rw [List.map_cons, List.nodup_cons] at indices
    cases content with
    | none => simpa using ih indices.2
    | some value =>
      rw [List.filterMap_cons_some (by rfl), List.map_cons, List.nodup_cons]
      refine ⟨?_, ih indices.2⟩
      intro again
      obtain ⟨⟨key, held⟩, later, same⟩ := List.mem_map.mp again
      obtain ⟨⟨⟨former, content⟩, j⟩, place, entry⟩ := List.mem_filterMap.mp later
      cases content with
      | none => simp at entry
      | some stored =>
        simp only [Option.map_some, Option.some.injEq, Prod.mk.injEq] at entry
        obtain ⟨rfl, -⟩ := entry
        have equal : j = i := congrArg Key.slot same
        subst equal
        exact indices.1 (List.mem_map.mpr ⟨_, place, rfl⟩)

/-- Retaining keys takes away exactly those that fail the test. -/
theorem get?_retain (pool : Pool α) (keep : Key → Bool) (key : Key) :
    (pool.retain keep).get? key = if keep key then pool.get? key else none := by
  rw [retain, get?_foldl_remove]
  by_cases kept : keep key
  · simp [kept]
  · cases found : pool.get? key with
    | none => simp [kept]
    | some value => simp [kept, mem_keys, found]

/-- A pool stays well formed when only some keys are kept. -/
theorem WellFormed.retain {pool : Pool α} (formed : pool.WellFormed) (keep : Key → Bool) :
    (pool.retain keep).WellFormed :=
  formed.foldl_remove _

/-- Nothing is found in a pool that was cleared. -/
theorem get?_clear (pool : Pool α) (key : Key) : pool.clear.get? key = none := by
  rw [clear, get?_retain]
  simp

/-! ## Pools as maps -/

section Maps

variable {pool : Pool α} {key : Key}

/-- As a map, a pool in which a value is set is updated at the key. -/
theorem get?_set_eq_update {former : α} (found : pool.get? key = some former) (value : α) :
    (pool.set key value).get? = Function.update pool.get? key (some value) := by
  funext other
  by_cases same : other = key
  · rw [same, get?_set_self value found, Function.update_self]
  · rw [get?_set_ne pool value same, Function.update_of_ne same]

/-- As a map, a pool from which a key is removed has nothing there. -/
theorem get?_remove_eq_update (pool : Pool α) (key : Key) :
    (pool.remove key).get? = Function.update pool.get? key none := by
  funext other
  rw [get?_remove]
  by_cases same : other = key
  · rw [if_pos same, same, Function.update_self]
  · rw [if_neg same, Function.update_of_ne same]

/-- As a map, a pool into which a value is inserted is updated at the new key. -/
theorem get?_insert_eq_update (formed : pool.WellFormed) (value : α) :
    (pool.insert value).2.get? =
      Function.update pool.get? (pool.insert value).1 (some value) := by
  funext other
  rw [get?_insert formed]
  by_cases same : other = (pool.insert value).1
  · rw [if_pos same, same, Function.update_self]
  · rw [if_neg same, Function.update_of_ne same]

end Maps

/-! ## Values -/

section Values

variable {β γ : Type}

/-- The entries of a pool with their values replaced. -/
def tagged (f : β → γ) (pool : Pool β) : List (Key × γ) :=
  pool.entries.map fun entry => (entry.1, f entry.2)

/-- No entry is listed twice. -/
theorem tagged_nodup (f : β → γ) (pool : Pool β) : (pool.tagged f).Nodup := by
  apply List.Nodup.of_map Prod.fst
  rw [tagged, List.map_map]
  exact pool.keys_nodup

/-- The entries are those of the values that are found. -/
theorem mem_tagged (f : β → γ) (pool : Pool β) (key : Key) (value : γ) :
    (key, value) ∈ pool.tagged f ↔ (pool.get? key).map f = some value := by
  rw [tagged, List.mem_map, Option.map_eq_some_iff]
  constructor
  · rintro ⟨⟨other, found⟩, member, same⟩
    obtain ⟨rfl, rfl⟩ := Prod.mk.inj same
    exact ⟨found, (mem_entries _ _ _).mp member, rfl⟩
  · rintro ⟨found, member, rfl⟩
    exact ⟨(key, found), (mem_entries _ _ _).mpr member, rfl⟩

/-- The values replaced are the values of the replaced entries. -/
theorem values_map_eq (f : β → γ) (pool : Pool β) :
    pool.values.map f = (pool.tagged f).map Prod.snd := by
  rw [values, tagged, List.map_map, List.map_map]
  rfl

/-- Pools that find the same under every key have the same values, in some order. -/
theorem values_map_perm (f : β → γ) {pool other : Pool β}
    (same : ∀ key, (other.get? key).map f = (pool.get? key).map f) :
    (other.values.map f).Perm (pool.values.map f) := by
  rw [values_map_eq, values_map_eq]
  apply List.Perm.map
  rw [List.perm_ext_iff_of_nodup (tagged_nodup f other) (tagged_nodup f pool)]
  rintro ⟨key, value⟩
  rw [mem_tagged, mem_tagged, same]

/-- A new value is one more. -/
theorem values_map_insert (f : β → γ) {pool : Pool β} (formed : pool.WellFormed) (value : β) :
    ((pool.insert value).2.values.map f).Perm (f value :: pool.values.map f) := by
  rw [values_map_eq, values_map_eq,
    show f value :: (pool.tagged f).map Prod.snd =
      (((pool.insert value).1, f value) :: pool.tagged f).map Prod.snd from rfl]
  apply List.Perm.map
  have fresh : ((pool.insert value).1, f value) ∉ pool.tagged f := by
    rw [mem_tagged, get?_insert_key formed]
    simp
  rw [List.perm_ext_iff_of_nodup (tagged_nodup f _)
    (List.nodup_cons.mpr ⟨fresh, tagged_nodup f pool⟩)]
  rintro ⟨key, found⟩
  rw [mem_tagged, get?_insert formed, List.mem_cons, mem_tagged]
  by_cases same : key = (pool.insert value).1
  · rw [if_pos same, same, get?_insert_key formed]
    simp [eq_comm]
  · rw [if_neg same]
    simp [same]

/-- A removed value is one less. -/
theorem values_map_remove (f : β → γ) {pool : Pool β} {key : Key} {value : β}
    (found : pool.get? key = some value) :
    (f value :: (pool.remove key).values.map f).Perm (pool.values.map f) := by
  rw [values_map_eq, values_map_eq,
    show f value :: ((pool.remove key).tagged f).map Prod.snd =
      ((key, f value) :: (pool.remove key).tagged f).map Prod.snd from rfl]
  apply List.Perm.map
  have gone : (key, f value) ∉ (pool.remove key).tagged f := by
    rw [mem_tagged, get?_remove, if_pos rfl]
    simp
  rw [List.perm_ext_iff_of_nodup (List.nodup_cons.mpr ⟨gone, tagged_nodup f _⟩)
    (tagged_nodup f pool)]
  rintro ⟨other, held⟩
  rw [mem_tagged, List.mem_cons, mem_tagged, get?_remove]
  by_cases same : other = key
  · rw [if_pos same, same, found]
    simp [eq_comm]
  · rw [if_neg same]
    simp [same]

end Values

end SpatialIndex.Pool
