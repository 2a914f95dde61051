/-!
# Pools with generational keys

A pool hands out a key for every value put into it. A slot that is released is used again, the
one released last first, under the next generation, so an old key never finds a newer value.
Slot zero is never used.

This is the documented behaviour of a slot map, as far as its users see it:
* a value goes into the free slot that was released last, and into a new slot when none is free;
* a key finds a value only as long as its slot is of its generation, and releasing the slot begins
  the next one;
* going over the values, keeping some of them and clearing all go by ascending slot, so after a
  clear the last slot is used first;
* a version, as it is shown, is odd while the slot is occupied, and the first one is one.

Generations are natural numbers: they never wrap around, so every key is handed out once. The count
of slots is not bounded either.
-/
namespace SpatialIndex

/-- A handle of a pooled value. -/
structure Key where
  /-- The slot of the value; slots in use are numbered from one. -/
  slot : Nat
  /-- How often the slot was released before. -/
  generation : Nat
deriving DecidableEq, Repr

namespace Key

/-- The slot of the key that stands for no value. -/
def nullSlot : Nat := 4294967295

/-- The key that no pool hands out. -/
def null : Key := ⟨nullSlot, 0⟩

/-- Slot and version; occupied generations have odd versions. -/
def text (key : Key) : String :=
  if key.slot = nullSlot then "null"
  else toString key.slot ++ "v" ++ toString (2 * key.generation + 1)

end Key

/-- A place for one value. -/
structure Slot (α : Type) where
  /-- How often the slot was released. -/
  generation : Nat
  /-- The value, absent while the slot is free. -/
  content : Option α

/-- Values under generational keys. -/
structure Pool (α : Type) where
  /-- The slots; the first is never used. -/
  slots : Array (Slot α)
  /-- The free slots, the one released last first. -/
  free : List Nat

namespace Pool

variable {α : Type}

/-- The pool without values. -/
def empty : Pool α := ⟨#[⟨0, none⟩], []⟩

/-- The value under a key. -/
def get? (pool : Pool α) (key : Key) : Option α :=
  match pool.slots[key.slot]? with
  | some slot => if slot.generation = key.generation then slot.content else none
  | none => none

/-- Whether a key finds a value. -/
def contains (pool : Pool α) (key : Key) : Bool := (pool.get? key).isSome

/-- Replace the value under a key that finds one. -/
def set (pool : Pool α) (key : Key) (value : α) : Pool α :=
  if pool.contains key then
    { pool with slots := pool.slots.setIfInBounds key.slot ⟨key.generation, some value⟩ }
  else pool

/-- Put a value into the slot released last, or into a new one. -/
def insert (pool : Pool α) (value : α) : Key × Pool α :=
  match pool.free with
  | slot :: free =>
    let generation := (pool.slots[slot]?.map Slot.generation).getD 0
    (⟨slot, generation⟩, ⟨pool.slots.setIfInBounds slot ⟨generation, some value⟩, free⟩)
  | [] => (⟨pool.slots.size, 0⟩, { pool with slots := pool.slots.push ⟨0, some value⟩ })

/-- Release the slot of a key that finds a value. -/
def remove (pool : Pool α) (key : Key) : Pool α :=
  if pool.contains key then
    ⟨pool.slots.setIfInBounds key.slot ⟨key.generation + 1, none⟩, key.slot :: pool.free⟩
  else pool

/-- The occupied slots in ascending order, with their keys. -/
def entries (pool : Pool α) : List (Key × α) :=
  pool.slots.toList.zipIdx.filterMap fun (slot, i) =>
    slot.content.map fun value => (⟨i, slot.generation⟩, value)

/-- The keys in use, by ascending slot. -/
def keys (pool : Pool α) : List Key := pool.entries.map Prod.fst

/-- The values, by ascending slot. -/
def values (pool : Pool α) : List α := pool.entries.map Prod.snd

/-- How many values the pool holds. -/
def size (pool : Pool α) : Nat := pool.entries.length

/-- Release every slot whose key fails the test, by ascending slot. -/
def retain (pool : Pool α) (keep : Key → Bool) : Pool α :=
  (pool.keys.filter fun key => !keep key).foldl remove pool

/-- Release every slot, by ascending slot. -/
def clear (pool : Pool α) : Pool α := pool.retain fun _ => false

end Pool

end SpatialIndex
