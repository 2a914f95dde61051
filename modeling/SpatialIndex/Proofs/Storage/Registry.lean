import SpatialIndex.Proofs.Record.Layout
import SpatialIndex.Proofs.World.Extent
import SpatialIndex.Storage.Registry
import Mathlib.Data.Finset.Card
import Mathlib.Data.List.Count

/-!
# Registries that serve indices

A registry serves the indices of a storage when every field of an index has a slot whose number
is in the mask of the index, a mask names slots of fields of its index only, no field has two
slots, and no slot has fewer users than indices. Registration and release add and take away one
index. What a served registry reports as changed meets the masks of exactly the indices that
observe a changed field.
-/
namespace SpatialIndex.Storage.Registry

open Record (Bytes Field Layout)

/-- The count of users of a slot; none beyond the last slot. -/
def users (registry : Registry) (i : Nat) : Nat := (registry[i]?.map Observed.users).getD 0

/-- A mask names a slot of every field. -/
def Covers (registry : Registry) (mask : FieldMask) (fields : List Field) : Prop :=
  ∀ field ∈ fields, ∃ i slot, i < 64 ∧ mask.getLsbD i = true ∧ registry[i]? = some slot ∧
    slot.field = field

/-- No field has two slots in use. -/
def Distinct (registry : Registry) : Prop :=
  ∀ ⦃i j : Nat⦄ ⦃slot other : Observed⦄, registry[i]? = some slot → registry[j]? = some other →
    isUsed slot = true → isUsed other = true → slot.field.id = other.field.id → i = j

/-- The registry has a slot for every field of the members, each a mask with the fields it stands
for. -/
structure Serves (layout : Layout) (registry : Registry) (members : List (FieldMask × List Field)) :
    Prop where
  /-- Every slot has a place in a mask. -/
  short : registry.length ≤ 64
  /-- Observed fields are fields of the layout. -/
  known : ∀ slot ∈ registry, isUsed slot = true → layout.Has slot.field
  /-- A field that is observed has one slot. -/
  distinct : registry.Distinct
  /-- A slot has a user for every member that names it. -/
  counted : ∀ i, members.countP (fun member => member.1.getLsbD i) ≤ registry.users i
  /-- Every field of a member has a slot. -/
  covers : ∀ member ∈ members, registry.Covers member.1 member.2
  /-- A member names slots of its own fields only. -/
  names : ∀ member ∈ members, ∀ i slot, member.1.getLsbD i = true → registry[i]? = some slot →
    slot.field ∈ member.2

/-- A slot that is there has the users that it counts. -/
theorem users_of_getElem? {registry : Registry} {i : Nat} {slot : Observed}
    (found : registry[i]? = some slot) : registry.users i = slot.users := by
  rw [users, found]
  rfl

/-- A slot is in use when it has users. -/
theorem isUsed_iff (slot : Observed) : isUsed slot = true ↔ 0 < slot.users := by
  simp [isUsed]

variable {layout : Layout} {registry : Registry} {members : List (FieldMask × List Field)}

/-- A slot with users is there. -/
theorem exists_of_users {i : Nat} (used : 0 < registry.users i) :
    ∃ slot, registry[i]? = some slot ∧ isUsed slot = true := by
  cases found : registry[i]? with
  | none =>
    rw [users, found] at used
    cases used
  | some slot =>
    rw [users_of_getElem? found] at used
    exact ⟨slot, rfl, (isUsed_iff slot).mpr used⟩

/-- An empty registry serves a storage without indices. -/
theorem serves_nil : Serves layout [] [] := by
  refine ⟨by simp, ?_, ?_, ?_, ?_, ?_⟩
  · intro slot member
    cases member
  · intro i j slot other found
    cases found
  · intro i
    exact Nat.le_refl _
  · intro member inside
    cases inside
  · intro member inside
    cases inside

/-- The order of the members does not matter. -/
theorem Serves.perm {others : List (FieldMask × List Field)}
    (serves : Serves layout registry members)
    (same : others.Perm members) : Serves layout registry others := by
  refine ⟨serves.short, serves.known, serves.distinct, ?_, ?_, ?_⟩
  · intro i
    rw [same.countP_eq]
    exact serves.counted i
  · intro member inside
    exact serves.covers member (same.mem_iff.mp inside)
  · intro member inside
    exact serves.names member (same.mem_iff.mp inside)

/-- A member less is served as well. -/
theorem Serves.drop {member : FieldMask × List Field}
    (serves : Serves layout registry (member :: members)) : Serves layout registry members := by
  refine ⟨serves.short, serves.known, serves.distinct, fun i => ?_,
    fun other inside => serves.covers other (List.mem_cons_of_mem _ inside),
    fun other inside => serves.names other (List.mem_cons_of_mem _ inside)⟩
  have counted := serves.counted i
  rw [List.countP_cons] at counted
  omega

/-- A slot that a member names is used. -/
theorem Serves.used (serves : Serves layout registry members) {member : FieldMask × List Field}
    (inside : member ∈ members) {i : Nat} (named : member.1.getLsbD i = true) :
    0 < registry.users i := by
  have one : 0 < members.countP fun member => member.1.getLsbD i :=
    List.countP_pos_iff.mpr ⟨member, inside, named⟩
  have counted := serves.counted i
  omega

/-! ## Registration -/

/-- The registry after one more index observes a field, in slot `i`. -/
structure Recorded (registry : Registry) (field : Field) (i : Nat) (changed : Registry) :
    Prop where
  /-- The slot has the field and one more user. -/
  here : changed[i]? = some ⟨field, registry.users i + 1⟩
  /-- Every other slot stays. -/
  elsewhere : ∀ j, j ≠ i → changed[j]? = registry[j]?
  /-- A slot in use keeps its field. -/
  kept : ∀ slot, registry[i]? = some slot → isUsed slot = true → slot.field = field
  /-- No other slot in use has the field. -/
  alone : ∀ j slot, j ≠ i → registry[j]? = some slot → isUsed slot = true →
    slot.field.id ≠ field.id
  /-- A field that had no slot takes one more. -/
  usedCount : changed.usedCount =
    registry.usedCount + if (registry.slot? field).isNone then 1 else 0
  /-- There is a new slot only when all slots are in use. -/
  length : changed.length ≤ max registry.length changed.usedCount

/-- A field has no slot when no slot in use names it. -/
theorem slot?_isNone_iff (registry : Registry) (field : Field) :
    (registry.slot? field).isNone = true ↔
      ∀ slot ∈ registry, isUsed slot = true → slot.field.id ≠ field.id := by
  rw [slot?, Option.isNone_iff_eq_none, List.findIdx?_eq_none_iff]
  simp

/-- One more user of a slot that is in use for the field records it. -/
theorem recorded_again {field : Field} {i : Nat} (distinct : registry.Distinct)
    (bound : i < registry.length) (used : isUsed registry[i] = true)
    (same : registry[i].field = field)
    (slotted : (registry.slot? field).isNone = false) :
    Recorded registry field i
      (registry.modify i fun slot => { slot with users := slot.users + 1 }) := by
  have slotAt : registry[i]? = some registry[i] := List.getElem?_eq_getElem bound
  have modified : registry.modify i (fun slot => { slot with users := slot.users + 1 }) =
      registry.set i { registry[i] with users := registry[i].users + 1 } := by
    apply List.ext_getElem?
    intro j
    rw [List.getElem?_modify, List.getElem?_set]
    by_cases here : i = j
    · subst here
      simp [bound]
    · simp [here]
  simp only [modified]
  constructor
  case here => rw [List.getElem?_set_self bound, users_of_getElem? slotAt, same]
  case elsewhere => exact fun j different => List.getElem?_set_ne (Ne.symm different)
  case kept =>
    intro slot atSlot _
    rw [slotAt, Option.some.injEq] at atSlot
    exact atSlot ▸ same
  case alone =>
    intro j slot different found usedToo equal
    exact different (distinct found slotAt usedToo used (by rw [equal, same]))
  case usedCount =>
    rw [usedCount, List.countP_set bound]
    have after : isUsed { registry[i] with users := registry[i].users + 1 } = true := by
      simp [isUsed]
    have positive : 0 < registry.countP isUsed :=
      List.countP_pos_iff.mpr ⟨_, List.getElem_mem bound, used⟩
    simp only [used, after, if_true, slotted, usedCount]
    simp
    omega
  case length =>
    rw [List.length_set]
    exact Nat.le_max_left _ _

/-- Taking a slot that nobody uses records a field that had none. -/
theorem recorded_filled {field : Field} {i : Nat} (bound : i < registry.length)
    (unused : isUsed registry[i] = false) (absent : (registry.slot? field).isNone = true) :
    Recorded registry field i (registry.set i ⟨field, 1⟩) := by
  have slotAt : registry[i]? = some registry[i] := List.getElem?_eq_getElem bound
  have nobody : registry[i].users = 0 := by simpa [isUsed] using unused
  constructor
  case here => rw [List.getElem?_set_self bound, users_of_getElem? slotAt, nobody]
  case elsewhere => exact fun j different => List.getElem?_set_ne (Ne.symm different)
  case kept =>
    intro slot atSlot used
    rw [slotAt, Option.some.injEq] at atSlot
    rw [← atSlot, unused] at used
    cases used
  case alone =>
    exact fun j slot _ found =>
      (slot?_isNone_iff registry field).mp absent slot (List.mem_of_getElem? found)
  case usedCount =>
    show (registry.set i ⟨field, 1⟩).countP isUsed = _
    have after : isUsed ⟨field, 1⟩ = true := rfl
    rw [List.countP_set bound, unused, after, absent]
    rfl
  case length =>
    show (registry.set i ⟨field, 1⟩).length ≤ _
    rw [List.length_set]
    exact Nat.le_max_left _ _

/-- A new slot records a field that had none when all slots are in use. -/
theorem recorded_appended {field : Field} (full : ∀ slot ∈ registry, isUsed slot = true)
    (absent : (registry.slot? field).isNone = true) :
    Recorded registry field registry.length (registry ++ [⟨field, 1⟩]) := by
  have all : registry.countP isUsed = registry.length := List.countP_eq_length.mpr full
  have beyond : registry[registry.length]? = none := List.getElem?_eq_none (Nat.le_refl _)
  let grown : Registry := registry ++ [⟨field, 1⟩]
  have count : grown.usedCount = registry.usedCount + 1 := by
    rw [usedCount, List.countP_append]
    rfl
  show Recorded registry field registry.length grown
  constructor
  case here =>
    rw [List.getElem?_concat_length, users, beyond]
    rfl
  case elsewhere =>
    intro j different
    rw [List.getElem?_append]
    by_cases inside : j < registry.length
    · rw [if_pos inside]
    · rw [if_neg inside, List.getElem?_eq_none (by omega : registry.length ≤ j),
        List.getElem?_eq_none]
      simp only [List.length_singleton]
      omega
  case kept =>
    intro slot atSlot
    rw [beyond] at atSlot
    cases atSlot
  case alone =>
    exact fun j slot _ found =>
      (slot?_isNone_iff registry field).mp absent slot (List.mem_of_getElem? found)
  case usedCount =>
    rw [count, absent]
    rfl
  case length =>
    rw [count, List.length_append, List.length_singleton, usedCount, all]
    omega

/-- Observing a field records it. -/
theorem observe_spec (sound : layout.Sound)
    (known : ∀ slot ∈ registry, isUsed slot = true → layout.Has slot.field)
    (distinct : registry.Distinct) {field : Field} (has : layout.Has field) :
    Recorded registry field (registry.observe field).1 (registry.observe field).2 := by
  unfold observe
  cases found : registry.slot? field with
  | some i =>
    have place := found
    rw [slot?, List.findIdx?_eq_some_iff_getElem] at place
    obtain ⟨bound, matched, -⟩ := place
    rw [Bool.and_eq_true, beq_iff_eq] at matched
    have same : registry[i].field = field :=
      (known _ (List.getElem_mem bound) matched.1).unique sound has matched.2
    exact recorded_again distinct bound matched.1 same (by rw [found]; rfl)
  | none =>
    have absent : (registry.slot? field).isNone = true := by rw [found]; rfl
    simp only
    cases free : registry.findIdx? fun slot => !isUsed slot with
    | some i =>
      rw [List.findIdx?_eq_some_iff_getElem] at free
      obtain ⟨bound, unused, -⟩ := free
      exact recorded_filled bound (by simpa using unused) absent
    | none =>
      rw [List.findIdx?_eq_none_iff] at free
      exact recorded_appended (fun slot member => by simpa using free slot member) absent

/-- A slot that was recorded still covers what it covered. -/
theorem Recorded.covers {field : Field} {i : Nat} {changed : Registry}
    (recorded : Recorded registry field i changed) (serves : Serves layout registry members)
    {member : FieldMask × List Field} (inside : member ∈ members) :
    changed.Covers member.1 member.2 := by
  intro other asked
  obtain ⟨j, slot, bound, named, found, same⟩ := serves.covers member inside other asked
  by_cases here : j = i
  · subst here
    have used : isUsed slot = true := by
      rw [isUsed_iff, ← users_of_getElem? found]
      exact serves.used inside named
    exact ⟨j, _, bound, named, recorded.here, (recorded.kept slot found used).symm.trans same⟩
  · exact ⟨j, slot, bound, named, (recorded.elsewhere j here).trans found, same⟩

/-- A slot of the registry before has the field of a slot that is in use after, or it is the slot
that was recorded. -/
theorem Recorded.distinct {field : Field} {i : Nat} {changed : Registry}
    (recorded : Recorded registry field i changed) (distinct : registry.Distinct) :
    changed.Distinct := by
  have apart {j : Nat} {slot : Observed} (other : j ≠ i) (found : changed[j]? = some slot)
      (used : isUsed slot = true) : slot.field.id ≠ field.id :=
    recorded.alone j slot other ((recorded.elsewhere j other).symm.trans found) used
  have here {slot : Observed} (found : changed[i]? = some slot) : slot.field = field := by
    rw [recorded.here, Option.some.injEq] at found
    exact found ▸ rfl
  intro j k slot other first second used usedToo same
  by_cases left : j = i <;> by_cases right : k = i
  · rw [left, right]
  · rw [left] at first
    rw [here first] at same
    exact absurd same.symm (apart right second usedToo)
  · rw [right] at second
    rw [here second] at same
    exact absurd same (apart left first used)
  · exact distinct ((recorded.elsewhere j left).symm.trans first)
      ((recorded.elsewhere k right).symm.trans second) used usedToo same

/-- A member that names the slot that was recorded has its field. -/
theorem Recorded.names {field : Field} {i : Nat} {changed : Registry}
    (recorded : Recorded registry field i changed) (serves : Serves layout registry members)
    {member : FieldMask × List Field} (inside : member ∈ members) {j : Nat} {slot : Observed}
    (named : member.1.getLsbD j = true) (found : changed[j]? = some slot) :
    slot.field ∈ member.2 := by
  by_cases here : j = i
  · subst here
    obtain ⟨former, before, used⟩ := exists_of_users (serves.used inside named)
    rw [recorded.here, Option.some.injEq] at found
    have same := recorded.kept former before used
    have own := serves.names member inside j former named before
    rw [← found]
    exact same ▸ own
  · exact serves.names member inside j slot named ((recorded.elsewhere j here).symm.trans found)

/-- Adding the bit of a slot to a mask leaves the other bits as they are. -/
theorem getLsbD_or_twoPow (mask : FieldMask) {i : Nat} (bound : i < 64) (j : Nat) :
    (mask ||| BitVec.twoPow 64 i).getLsbD j = (mask.getLsbD j || decide (j = i)) := by
  rw [BitVec.getLsbD_or, BitVec.getLsbD_twoPow]
  by_cases same : i = j
  · subst same
    simp [bound]
  · simp [same, Ne.symm same]

/-- Recording a field of the last member serves it too. -/
theorem Recorded.serves {field : Field} {i : Nat} {changed : Registry} {mask : FieldMask}
    {fields : List Field} (recorded : Recorded registry field i changed)
    (serves : Serves layout registry ((mask, fields) :: members)) (has : layout.Has field)
    (short : changed.length ≤ 64) :
    Serves layout changed ((mask ||| BitVec.twoPow 64 i, field :: fields) :: members) := by
  have bound : i < 64 :=
    Nat.lt_of_lt_of_le (List.getElem?_eq_some_iff.mp recorded.here).1 short
  have bits := getLsbD_or_twoPow mask bound
  refine ⟨short, ?_, recorded.distinct serves.distinct, ?_, ?_, ?_⟩
  · intro slot member used
    obtain ⟨j, found⟩ := List.getElem?_of_mem member
    by_cases here : j = i
    · rw [here, recorded.here, Option.some.injEq] at found
      exact found ▸ has
    · rw [recorded.elsewhere j here] at found
      exact serves.known slot (List.mem_of_getElem? found) used
  · intro j
    have counted := serves.counted j
    rw [List.countP_cons] at counted ⊢
    simp only [bits] at counted ⊢
    by_cases here : j = i
    · subst here
      rw [users_of_getElem? recorded.here]
      simp only [decide_true, Bool.or_true, if_true]
      omega
    · rw [users, recorded.elsewhere j here]
      simpa [here, users] using counted
  · intro member inside
    rcases List.mem_cons.mp inside with rfl | later
    · intro other asked
      rcases List.mem_cons.mp asked with rfl | before
      · exact ⟨i, _, bound, by rw [bits]; simp, recorded.here, rfl⟩
      · obtain ⟨j, slot, low, named, found, same⟩ :=
          recorded.covers serves List.mem_cons_self other before
        exact ⟨j, slot, low, by rw [bits, named, Bool.true_or], found, same⟩
    · exact recorded.covers serves (List.mem_cons_of_mem _ later)
  · intro member inside j slot named found
    rcases List.mem_cons.mp inside with rfl | later
    · by_cases here : j = i
      · rw [here, recorded.here, Option.some.injEq] at found
        rw [← found]
        exact List.mem_cons_self
      · rw [bits, decide_eq_false here, Bool.or_false] at named
        exact List.mem_cons_of_mem _ (recorded.names serves List.mem_cons_self named found)
    · exact recorded.names serves (List.mem_cons_of_mem _ later) named found

/-- A field without a slot after a recording had none before it. -/
theorem Recorded.missing {field other : Field} {i : Nat} {changed : Registry}
    (recorded : Recorded registry field i changed)
    (missing : (changed.slot? other).isNone = true) : (registry.slot? other).isNone = true := by
  rw [slot?_isNone_iff] at missing ⊢
  intro slot member used
  obtain ⟨j, found⟩ := List.getElem?_of_mem member
  by_cases here : j = i
  · subst here
    have same := recorded.kept slot found used
    have absent := missing _ (List.mem_of_getElem? recorded.here) (by simp [isUsed])
    rw [same]
    exact absent
  · rw [← recorded.elsewhere j here] at found
    exact missing slot (List.mem_of_getElem? found) used

/-- The users that a registered mask adds to the slots of a registry. -/
def Gains (registry changed : Registry) (before after : FieldMask) : Prop :=
  ∀ i, changed.users i + (before.getLsbD i).toNat = registry.users i + (after.getLsbD i).toNat

/-- A slot that was recorded for a field that the mask did not stand for has one more user and a bit
more in the mask. -/
theorem Recorded.gains {field : Field} {i : Nat} {changed : Registry} {mask : FieldMask}
    {fields : List Field} (recorded : Recorded registry field i changed)
    (serves : Serves layout registry ((mask, fields) :: members)) (new : field ∉ fields)
    (short : changed.length ≤ 64) :
    Gains registry changed mask (mask ||| BitVec.twoPow 64 i) := by
  have bound : i < 64 :=
    Nat.lt_of_lt_of_le (List.getElem?_eq_some_iff.mp recorded.here).1 short
  intro j
  rw [getLsbD_or_twoPow mask bound]
  by_cases here : j = i
  · subst here
    have unnamed : mask.getLsbD j = false := by
      rw [← Bool.not_eq_true]
      intro named
      exact new (by simpa using recorded.names serves List.mem_cons_self named recorded.here)
    rw [users_of_getElem? recorded.here, unnamed]
    simp
  · simp [users, recorded.elsewhere j here, here]

/-- Observing fields one after the other serves a member with all of them, as long as the slots
that they take fit in a mask, and adds one user to every slot that it names. -/
theorem observe_foldl_spec (fields : List Field) (sound : layout.Sound)
    (has : ∀ field ∈ fields, layout.Has field) {mask : FieldMask} {before : List Field}
    (serves : Serves layout registry ((mask, before) :: members))
    (once : (fields.reverse ++ before).Nodup)
    (room : registry.usedCount + fields.countP (fun field => (registry.slot? field).isNone) ≤ 64) :
    ∃ last changed,
      fields.foldl (fun (mask, registry) field =>
          let (i, registry) := observe registry field
          (mask ||| BitVec.twoPow 64 i, registry)) (mask, registry) = (last, changed) ∧
        Serves layout changed ((last, fields.reverse ++ before) :: members) ∧
        Gains registry changed mask last := by
  induction fields generalizing registry mask before with
  | nil => exact ⟨mask, registry, rfl, serves, fun _ => rfl⟩
  | cons field rest ih =>
    rw [List.reverse_cons, List.append_assoc, List.singleton_append] at once
    have new : field ∉ before :=
      (List.nodup_cons.mp (List.Nodup.of_append_right once)).1
    have recorded :=
      observe_spec sound serves.known serves.distinct (has field List.mem_cons_self)
    have fewer : rest.countP (fun other => ((registry.observe field).2.slot? other).isNone) ≤
        rest.countP (fun other => (registry.slot? other).isNone) :=
      List.countP_mono_left fun _ _ => recorded.missing
    have total := recorded.usedCount
    rw [List.countP_cons] at room
    have short : (registry.observe field).2.length ≤ 64 := by
      have length := recorded.length
      have before := serves.short
      omega
    have first := recorded.gains serves new short
    obtain ⟨last, changed, run, served, further⟩ :=
      ih (fun other member => has other (List.mem_cons_of_mem _ member))
        (recorded.serves serves (has field List.mem_cons_self) short) once (by omega)
    refine ⟨last, changed, run, ?_, fun i => ?_⟩
    · rw [List.reverse_cons, List.append_assoc]
      exact served
    · have one := first i
      have others := further i
      omega

/-- Erasing duplicates leaves none. -/
theorem nodup_eraseDups {β : Type} [BEq β] [LawfulBEq β] (items : List β) :
    items.eraseDups.Nodup := by
  induction size : items.length using Nat.strongRecOn generalizing items with
  | _ n ih =>
    cases items with
    | nil => simp
    | cons item rest =>
      rw [List.eraseDups_cons, List.nodup_cons]
      have fewer : (rest.filter fun other => !other == item).length < n := by
        rw [← size, List.length_cons]
        exact Nat.lt_succ_of_le (List.length_filter_le _ _)
      refine ⟨?_, ih _ fewer _ rfl⟩
      rw [List.mem_eraseDups, List.mem_filter]
      simp

/-- A registered index is served as one more member, and is one more user of the slots that it
names. -/
theorem register_serves (sound : layout.Sound) (serves : Serves layout registry members)
    {name : String} {fields : List Field} (has : ∀ field ∈ fields, layout.Has field)
    {mask : FieldMask} {changed : Registry}
    (registered : registry.register name fields = .ok (mask, changed)) :
    Serves layout changed ((mask, fields) :: members) ∧ Gains registry changed 0 mask := by
  unfold register at registered
  simp only at registered
  split at registered
  · cases registered
  · rename_i room
    unfold Limits.observedFields at room
    have empty : Serves layout registry ((0, []) :: members) := by
      refine ⟨serves.short, serves.known, serves.distinct, ?_, ?_, ?_⟩
      · intro i
        rw [List.countP_cons]
        simpa using serves.counted i
      · intro member inside
        rcases List.mem_cons.mp inside with rfl | later
        · intro field asked
          cases asked
        · exact serves.covers member later
      · intro member inside i slot named
        rcases List.mem_cons.mp inside with rfl | later
        · simp at named
        · exact serves.names member later i slot named
    have once : (fields.eraseDups.reverse ++ []).Nodup := by
      rw [List.append_nil, List.nodup_reverse]
      exact nodup_eraseDups fields
    obtain ⟨last, final, run, served, gains⟩ := observe_foldl_spec fields.eraseDups sound
      (fun field member => has field (List.mem_eraseDups.mp member)) empty once (by omega)
    have same := Except.ok.inj registered
    rw [observeAll, run] at same
    obtain ⟨rfl, rfl⟩ := Prod.mk.inj same
    refine ⟨⟨served.short, served.known, served.distinct, ?_, ?_, ?_⟩, gains⟩
    · intro i
      have counted := served.counted i
      rw [List.countP_cons] at counted ⊢
      exact counted
    · intro member inside
      rcases List.mem_cons.mp inside with rfl | later
      · intro field asked
        exact served.covers _ List.mem_cons_self field (by simpa using asked)
      · exact served.covers member (List.mem_cons_of_mem _ later)
    · intro member inside i slot named found
      rcases List.mem_cons.mp inside with rfl | later
      · simpa using served.names _ List.mem_cons_self i slot named found
      · exact served.names member (List.mem_cons_of_mem _ later) i slot named found

/-! ## Capacity -/

/-- The numbers of the fields that have slots. -/
def usedIds (registry : Registry) : List Nat :=
  (registry.filter isUsed).map fun slot => slot.field.id

/-- The fields that have slots are those of the slots in use. -/
theorem mem_usedIds {id : Nat} :
    id ∈ registry.usedIds ↔ ∃ slot ∈ registry, isUsed slot = true ∧ slot.field.id = id := by
  simp [usedIds, and_assoc]

/-- There are as many fields with slots as slots in use. -/
theorem length_usedIds (registry : Registry) : registry.usedIds.length = registry.usedCount := by
  rw [usedIds, List.length_map, usedCount, List.countP_eq_length_filter]

/-- A field that is observed is listed once. -/
theorem Distinct.nodup_usedIds (distinct : registry.Distinct) : registry.usedIds.Nodup := by
  rw [usedIds, List.Nodup, List.pairwise_map, List.pairwise_filter, List.pairwise_iff_getElem]
  intro i j first second before used usedToo same
  have here := distinct (List.getElem?_eq_getElem first) (List.getElem?_eq_getElem second) used
    usedToo same
  omega

/-- The slots in use and the fields that are to take further slots are as many as the distinct
fields that are observed or asked for. -/
theorem Serves.card_union (serves : Serves layout registry members) (sound : layout.Sound)
    {fields : List Field} (has : ∀ field ∈ fields, layout.Has field) :
    registry.usedCount + fields.eraseDups.countP (fun field => (registry.slot? field).isNone) =
      (registry.usedIds.toFinset ∪ (fields.map Field.id).toFinset).card := by
  let missing := fields.eraseDups.filter fun field => (registry.slot? field).isNone
  have asked {field : Field} (member : field ∈ missing) : field ∈ fields :=
    List.mem_eraseDups.mp (List.mem_of_mem_filter member)
  have absent {field : Field} (member : field ∈ missing) : field.id ∉ registry.usedIds := by
    rw [mem_usedIds]
    rintro ⟨slot, inside, used, same⟩
    have slotless := (List.mem_filter.mp member).2
    exact (slot?_isNone_iff registry field).mp slotless slot inside used same
  have once : (missing.map Field.id).Nodup := by
    refine List.Nodup.map_on ?_ ((nodup_eraseDups fields).filter _)
    intro first member second other same
    exact (has first (asked member)).unique sound (has second (asked other)) same
  have apart : (registry.usedIds ++ missing.map Field.id).Nodup := by
    refine serves.distinct.nodup_usedIds.append once fun id used listed => ?_
    obtain ⟨field, member, rfl⟩ := List.mem_map.mp listed
    exact absent member used
  have union : registry.usedIds.toFinset ∪ (fields.map Field.id).toFinset =
      (registry.usedIds ++ missing.map Field.id).toFinset := by
    ext id
    rw [List.toFinset_append, Finset.mem_union, Finset.mem_union, List.mem_toFinset,
      List.mem_toFinset, List.mem_toFinset]
    constructor
    · rintro (used | listed)
      · exact .inl used
      · obtain ⟨field, member, rfl⟩ := List.mem_map.mp listed
        by_cases slotless : (registry.slot? field).isNone = true
        · exact .inr (List.mem_map_of_mem
            (List.mem_filter.mpr ⟨List.mem_eraseDups.mpr member, slotless⟩))
        · rw [slot?_isNone_iff] at slotless
          push Not at slotless
          exact .inl (mem_usedIds.mpr slotless)
    · rintro (used | listed)
      · exact .inl used
      · obtain ⟨field, member, rfl⟩ := List.mem_map.mp listed
        exact .inr (List.mem_map_of_mem (asked member))
  rw [union, List.toFinset_card_of_nodup apart, List.length_append, length_usedIds,
    List.length_map, List.countP_eq_length_filter]

/-- An index is registered unless the distinct fields would be too many. -/
theorem Serves.register_eq (serves : Serves layout registry members) (sound : layout.Sound)
    {fields : List Field} (has : ∀ field ∈ fields, layout.Has field) (name : String) :
    registry.register name fields =
      if Limits.observedFields <
          (registry.usedIds.toFinset ∪ (fields.map Field.id).toFinset).card then
        .error (.observedFields name Limits.observedFields)
      else .ok (registry.observeAll fields.eraseDups) := by
  rw [register, ← serves.card_union sound has]

/-! ## Release -/

/-- A released index is one user less of the slots that it names. -/
theorem users_release (registry : Registry) (mask : FieldMask) (i : Nat) :
    (registry.release mask).users i = registry.users i - (mask.getLsbD i).toNat := by
  rw [users, users, release, List.getElem?_mapIdx]
  cases registry[i]? with
  | none => simp
  | some slot =>
    cases mask.getLsbD i <;> simp

/-- A released index leaves the others served. -/
theorem release_serves {mask : FieldMask} {fields : List Field}
    (serves : Serves layout registry ((mask, fields) :: members)) :
    Serves layout (registry.release mask) members := by
  have slots (i : Nat) : (registry.release mask)[i]? = registry[i]?.map fun slot =>
      if mask.getLsbD i then { slot with users := slot.users - 1 } else slot := by
    rw [release, List.getElem?_mapIdx]
  have field (i : Nat) (slot : Observed) :
      (if mask.getLsbD i then { slot with users := slot.users - 1 } else slot).field =
        slot.field := by
    split <;> rfl
  have former {i : Nat} {slot : Observed} (found : (registry.release mask)[i]? = some slot) :
      ∃ before, registry[i]? = some before ∧ slot.field = before.field ∧
        (isUsed slot = true → isUsed before = true) := by
    rw [slots, Option.map_eq_some_iff] at found
    obtain ⟨before, there, rfl⟩ := found
    refine ⟨before, there, field i before, ?_⟩
    rw [isUsed_iff, isUsed_iff]
    split
    · exact fun used => Nat.lt_of_lt_of_le used (Nat.sub_le _ _)
    · exact id
  refine ⟨?_, ?_, ?_, ?_, ?_, ?_⟩
  · rw [release, List.length_mapIdx]
    exact serves.short
  · intro slot member used
    obtain ⟨i, found⟩ := List.getElem?_of_mem member
    obtain ⟨before, there, same, usedBefore⟩ := former found
    rw [same]
    exact serves.known before (List.mem_of_getElem? there) (usedBefore used)
  · intro i j slot other first second used usedToo same
    obtain ⟨left, leftThere, leftSame, leftUsed⟩ := former first
    obtain ⟨right, rightThere, rightSame, rightUsed⟩ := former second
    rw [leftSame, rightSame] at same
    exact serves.distinct leftThere rightThere (leftUsed used) (rightUsed usedToo) same
  · intro i
    have counted := serves.counted i
    rw [List.countP_cons] at counted
    simp only [users, slots] at counted ⊢
    cases found : registry[i]? with
    | none =>
      rw [found] at counted
      simp only [Option.map_none, Option.getD_none] at counted ⊢
      omega
    | some slot =>
      rw [found] at counted
      simp only [Option.map_some, Option.getD_some] at counted ⊢
      split at counted
      · rename_i named
        rw [if_pos named]
        simp only
        omega
      · rename_i unnamed
        rw [if_neg unnamed]
        omega
  · intro member inside other asked
    obtain ⟨i, slot, bound, named, found, same⟩ :=
      serves.covers member (List.mem_cons_of_mem _ inside) other asked
    refine ⟨i, _, bound, named, by rw [slots, found]; rfl, ?_⟩
    rw [field, same]
  · intro member inside i slot named found
    obtain ⟨before, there, same, -⟩ := former found
    rw [same]
    exact serves.names member (List.mem_cons_of_mem _ inside) i before named there

/-! ## Changes -/

/-- The changed fields are found: a bit of the mask is the number of a slot in use whose field has
other bytes. -/
theorem changedFrom_spec (record backup : Bytes) (i : Nat) {registry : Registry}
    (short : i + registry.length ≤ 64)
    (inside : ∀ slot ∈ registry, isUsed slot = true →
      slot.field.offset + slot.field.size ≤ record.length ∧
        slot.field.offset + slot.field.size ≤ backup.length) :
    ∃ mask, changedFrom record backup i registry = .ok mask ∧
      ∀ k, mask.getLsbD k = true ↔ ∃ j slot, k = i + j ∧ registry[j]? = some slot ∧
        isUsed slot = true ∧ slot.field.bytes? record ≠ slot.field.bytes? backup := by
  induction registry generalizing i with
  | nil =>
    refine ⟨0, rfl, fun k => ⟨fun bit => by simp at bit, ?_⟩⟩
    rintro ⟨j, slot, -, found, -⟩
    simp at found
  | cons first rest ih =>
    rw [List.length_cons] at short
    obtain ⟨later, run, bits⟩ := ih (i + 1) (by omega)
      fun slot member => inside slot (List.mem_cons_of_mem _ member)
    have compared : ∃ same, changedFrom record backup i (first :: rest) =
        .ok (if same = true then later else later ||| BitVec.twoPow 64 i) ∧
        (same = false ↔ isUsed first = true ∧
          first.field.bytes? record ≠ first.field.bytes? backup) := by
      by_cases used : isUsed first = true
      · obtain ⟨inRecord, inBackup⟩ := inside first List.mem_cons_self used
        have left := Field.bytes?_of_le inRecord
        have right := Field.bytes?_of_le inBackup
        refine ⟨(record.drop first.field.offset).take first.field.size ==
          (backup.drop first.field.offset).take first.field.size, ?_, ?_⟩
        · rw [changedFrom, if_pos used]
          simp only [Field.equalIn, Field.bytes, left, right, bind, Except.bind, run, pure,
            Except.pure]
        · rw [beq_eq_false_iff_ne, left, right, ne_eq, ne_eq, Option.some.injEq]
          exact (and_iff_right used).symm
      · refine ⟨true, ?_, ?_⟩
        · rw [changedFrom, if_neg used]
          simp only [bind, Except.bind, run, pure, Except.pure]
        · exact ⟨fun contrary => absurd contrary (by decide), fun both => absurd both.1 used⟩
    obtain ⟨same, compare, differs⟩ := compared
    have shifted (k : Nat) : (later.getLsbD k = true ∨ same = false ∧ k = i) ↔
        ∃ j slot, k = i + j ∧ (first :: rest)[j]? = some slot ∧ isUsed slot = true ∧
          slot.field.bytes? record ≠ slot.field.bytes? backup := by
      rw [bits, differs]
      constructor
      · rintro (⟨j, slot, rfl, found, changed⟩ | ⟨changed, rfl⟩)
        · exact ⟨j + 1, slot, by omega, found, changed⟩
        · exact ⟨0, first, rfl, rfl, changed⟩
      · rintro ⟨j, slot, rfl, found, changed⟩
        cases j with
        | zero =>
          obtain rfl := Option.some.inj found
          exact .inr ⟨changed, rfl⟩
        | succ j => exact .inl ⟨j, slot, by omega, found, changed⟩
    refine ⟨_, compare, fun k => ?_⟩
    rw [← shifted k]
    cases same with
    | true => simp
    | false =>
      rw [if_neg Bool.false_ne_true, getLsbD_or_twoPow _ (by omega)]
      simp

/-- A mask meets another one when both have a bit. -/
theorem and_ne_zero_iff (first second : FieldMask) :
    first &&& second ≠ 0 ↔ ∃ i, first.getLsbD i = true ∧ second.getLsbD i = true := by
  constructor
  · intro meets
    by_contra apart
    apply meets
    apply BitVec.eq_of_getLsbD_eq
    intro i bound
    rw [BitVec.getLsbD_and]
    have none := not_exists.mp apart i
    simpa using none
  · rintro ⟨i, left, right⟩ apart
    have bit := congrArg (fun bits : FieldMask => bits.getLsbD i) apart
    simp [left, right] at bit

/-- A member names a changed field exactly when one of its fields has other bytes. -/
theorem Serves.changed (serves : Serves layout registry members) (sound : layout.Sound)
    {record backup : Bytes} (recordSized : record.length = layout.size)
    (backupSized : backup.length = layout.size) :
    ∃ mask, registry.changed record backup = .ok mask ∧
      ∀ member ∈ members, member.1 &&& mask ≠ 0 ↔
        ∃ field ∈ member.2, field.bytes? record ≠ field.bytes? backup := by
  obtain ⟨mask, run, bits⟩ := changedFrom_spec record backup 0
    (by simpa using serves.short) fun slot member used => by
      rw [recordSized, backupSized]
      exact ⟨(serves.known slot member used).inside sound,
        (serves.known slot member used).inside sound⟩
  refine ⟨mask, run, fun member inside => ?_⟩
  rw [and_ne_zero_iff]
  constructor
  · rintro ⟨i, named, bit⟩
    obtain ⟨j, slot, same, found, -, differs⟩ := (bits i).mp bit
    obtain rfl : i = j := by omega
    exact ⟨slot.field, serves.names member inside i slot named found, differs⟩
  · rintro ⟨field, asked, differs⟩
    obtain ⟨i, slot, -, named, found, rfl⟩ := serves.covers member inside field asked
    have used : isUsed slot = true := by
      rw [isUsed_iff, ← users_of_getElem? found]
      exact serves.used inside named
    exact ⟨i, named, (bits i).mpr ⟨i, slot, by omega, found, used, differs⟩⟩

end SpatialIndex.Storage.Registry
