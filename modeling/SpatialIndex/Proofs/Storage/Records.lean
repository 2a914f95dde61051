import SpatialIndex.Proofs.Storage.Upkeep
import SpatialIndex.Storage.Records

/-!
# Record operations keep indices in step

Every step of an operation on records leaves the indices showing a view that differs from the
records at the record of the operation at most, and the operation ends in step. The only failures
are those that the caller causes: an operation at the wrong time, or an aborted edit, after which
a writer stays open.
-/
open SpatialIndex.Action (Ensures)

namespace SpatialIndex.Storage

open Record (Bytes Edit)

variable {α : Type}

/-- Why no writer opens. -/
inductive Busy (storage : Storage α) : Failure → Prop
  /-- Readers are open. -/
  | reading : storage.readers ≠ 0 → Busy storage (.aborted .writerDuringReader)
  /-- Another writer is open. -/
  | writing : storage.readers = 0 → storage.writers ≠ 0 →
    Busy storage (.aborted .writerDuringWriter)

/-- Where there is no reader, a writer keeps another one from opening. -/
theorem Busy.in_use {storage : Storage α} {failure : Failure} (busy : storage.Busy failure)
    (unread : storage.readers = 0) : storage.writers ≠ 0 := by
  cases busy with
  | reading read => exact absurd unread read
  | writing _ written => exact written

/-- Nothing is reported when no writer opens. -/
theorem Busy.failing {storage : Storage α} {failure : Failure} (busy : storage.Busy failure) :
    storage.failing failure = storage := by
  cases busy <;> rfl

/-- A writer opens when nothing else is open; otherwise nothing happens. -/
theorem openWriter_spec (storage : Storage α) :
    Ensures openWriter storage
      (fun _ after => storage.readers = 0 ∧ storage.writers = 0 ∧
        after = { storage with writers := 1 })
      fun failure after => after = storage ∧ storage.Busy failure := by
  simp only [openWriter, Action.ensures_bind, Action.ensures_get]
  by_cases reading : storage.readers = 0
  · by_cases writing : storage.writers = 0
    · simp only [reading, writing, ne_eq, not_true_eq_false, if_false, Action.ensures_set]
      exact ⟨trivial, trivial, trivial⟩
    · have busy : storage.Busy (.aborted .writerDuringWriter) := .writing reading writing
      simp only [reading, writing, ne_eq, not_true_eq_false, not_false_eq_true, if_true, if_false,
        abort, Action.ensures_bind, Action.ensures_throw]
      exact ⟨trivial, busy⟩
  · have busy : storage.Busy (.aborted .writerDuringReader) := .reading reading
    simp only [reading, ne_eq, not_false_eq_true, if_true, abort, Action.ensures_bind,
      Action.ensures_throw]
    exact ⟨trivial, busy⟩

/-- A reader opens when no writer is open; otherwise nothing happens. -/
theorem openReader_spec (storage : Storage α) :
    Ensures openReader storage
      (fun _ after => storage.writers = 0 ∧ after = { storage with readers := storage.readers + 1 })
      fun failure after => after = storage ∧ storage.writers ≠ 0 ∧
        failure = .aborted .readerDuringWriter := by
  simp only [openReader, Action.ensures_bind, Action.ensures_get]
  by_cases writing : storage.writers = 0
  · rw [if_neg (by simpa using writing), Action.ensures_set]
    exact ⟨writing, rfl⟩
  · rw [if_pos writing, abort, Action.ensures_bind, Action.ensures_throw]
    exact ⟨rfl, writing, rfl⟩

/-- A reader closes when one is open; otherwise nothing happens. -/
theorem closeReader_spec (storage : Storage α) :
    Ensures closeReader storage
      (fun _ after => after = { storage with readers := storage.readers - 1 })
      fun _ after => after = storage ∧ storage.readers = 0 := by
  simp only [closeReader, Action.ensures_bind, Action.ensures_get]
  by_cases reading : storage.readers = 0
  · rw [if_pos reading, abort, Action.ensures_bind, Action.ensures_throw]
    exact ⟨rfl, reading⟩
  · rw [if_neg reading, Action.ensures_set]

variable {storage : Storage α} {key : Key} {bytes : Bytes}

/-- A record that is there is read. -/
theorem ensures_record {done : Bytes → Storage α → Prop} {failed : Failure → Storage α → Prop}
    (found : storage.records.get? key = some bytes) (ends : done bytes storage) :
    Ensures (record key) storage done failed := by
  simp only [record, Action.ensures_bind, Action.ensures_get, found, Action.ensures_pure]
  exact ends

/-- The copy of a record that is about to be edited is its bytes. -/
theorem beginEdition_spec (found : storage.records.get? key = some bytes) :
    Ensures (beginEdition key) storage (fun _ after => after = { storage with backup := bytes })
      fun _ _ => False := by
  rw [beginEdition, Action.ensures_bind]
  refine ensures_record found ?_
  rw [Action.ensures_modify]

/-- Writing over a record keeps its length. -/
theorem length_overwrite (former edited : Bytes) :
    (overwrite former edited).length = former.length := by
  rw [overwrite, List.length_append, List.length_take, List.length_drop]
  omega

/-- An edit overwrites the record with what it made of the bytes, also when it is aborted. -/
theorem editRecord_spec (found : storage.records.get? key = some bytes) (edit : Edit) :
    Ensures (editRecord key edit) storage
      (fun _ after => ∃ edited, edit bytes = .ok () edited ∧
        after = { storage with records := storage.records.set key (overwrite bytes edited) })
      fun failure after => ∃ fault edited, edit bytes = .error fault edited ∧
        failure = .aborted fault ∧
        after = { storage with records := storage.records.set key (overwrite bytes edited) } := by
  unfold Ensures editRecord
  rw [found]
  simp only
  cases run : edit bytes with
  | ok _ edited => exact ⟨edited, rfl, rfl⟩
  | error fault edited => exact ⟨fault, edited, rfl, rfl, rfl⟩

variable [Arithmetic α] {views : Key → Key → Option Bytes} {view : Key → Option Bytes}

/-! ## Parts of a storage -/

/-- What a storage keeps does not depend on its counts, its backup and its journal. -/
theorem Keeps.congr {other : Storage α} (keeps : storage.Keeps views)
    (layout : other.layout = storage.layout) (records : other.records = storage.records)
    (indices : other.indices = storage.indices) (registry : other.registry = storage.registry) :
    other.Keeps views := by
  have members : other.members = storage.members := by rw [members, members, indices]
  refine ⟨layout ▸ keeps.sound, records ▸ keeps.records, ?_, indices ▸ keeps.indices, ?_, ?_⟩
  · rw [layout, records]
    exact keeps.sized
  · rw [layout, registry, members]
    exact keeps.served
  · rw [layout, indices]
    exact keeps.shown

/-- Records of the right size can be exchanged under the indices. -/
theorem Keeps.withRecords (keeps : storage.Keeps views) {records : Pool Bytes}
    (formed : records.WellFormed)
    (sized : ∀ {key record}, records.get? key = some record →
      record.length = storage.layout.size) : Keeps views { storage with records } :=
  ⟨keeps.sound, formed, sized, keeps.indices, keeps.served, keeps.shown⟩

/-- A record is overwritten under the indices. -/
theorem Keeps.overwrite (keeps : storage.Keeps views)
    (found : storage.records.get? key = some bytes) (edited : Bytes) :
    Keeps views
      { storage with records := storage.records.set key (overwrite bytes edited) } := by
  refine keeps.withRecords (keeps.records.set _ _) ?_
  intro other read held
  rw [Pool.get?_set_eq_update found] at held
  by_cases same : other = key
  · rw [same, Function.update_self, Option.some.injEq] at held
    rw [← held, length_overwrite]
    exact keeps.sized found
  · rw [Function.update_of_ne same] at held
    exact keeps.sized held

/-- A new record of zeros has the size of the layout. -/
theorem Keeps.allocate (keeps : storage.Keeps views) :
    Keeps views
      { storage with records := (storage.records.insert storage.layout.zeroRecord).2 } := by
  refine keeps.withRecords (keeps.records.insert _) ?_
  intro other read held
  rw [Pool.get?_insert_eq_update keeps.records] at held
  by_cases same : other = (storage.records.insert storage.layout.zeroRecord).1
  · rw [same, Function.update_self, Option.some.injEq] at held
    rw [← held, Record.Layout.zeroRecord, List.length_replicate]
  · rw [Function.update_of_ne same] at held
    exact keeps.sized held

/-! ## Closing a writer -/

/-- What an operation leaves when it ends in step. -/
structure Lands (storage after : Storage α) (records : Pool Bytes) : Prop
    extends Carries storage after records where
  /-- The indices show the records. -/
  inStep : after.InStep
  /-- No writer is open. -/
  writers : after.writers = 0

/-- Steps before an operation that ends in step belong to it. -/
theorem Carries.lands {between after : Storage α} {first records : Pool Bytes}
    (before : Carries storage between first) (lands : Lands between after records) :
    Lands storage after records := ⟨before.trans lands.toCarries, lands.inStep, lands.writers⟩

/-- What an operation leaves does not depend on the writers and the records before it. -/
theorem Lands.congr {other after : Storage α} {records : Pool Bytes}
    (lands : Lands other after records) (readers : other.readers = storage.readers)
    (layout : other.layout = storage.layout) (indices : other.indices = storage.indices) :
    Lands storage after records :=
  ⟨⟨lands.readers.trans readers, lands.records, lands.alike.congr layout indices⟩, lands.inStep,
    lands.writers⟩

/-- Closing a writer puts back the records that wait. -/
theorem closeWriter_spec (keeps : storage.Keeps fun _ => storage.records.get?)
    (writing : storage.writers = 1) :
    Ensures closeWriter storage (fun _ after => Lands storage after storage.records)
      fun _ _ => False := by
  have opened : ¬storage.writers = 0 := by omega
  let closed : Storage α := { storage with writers := storage.writers - 1 }
  have kept : closed.Keeps fun _ => storage.records.get? := keeps.congr rfl rfl rfl rfl
  simp only [closeWriter, Action.ensures_bind, Action.ensures_get, if_neg opened,
    Action.ensures_set]
  have stays {before last : Index α} (turned : last.queue = [] ∧
      { before with queue := [] }.SameSpace last) : before.Over last :=
    Index.Over.trans ⟨before.tree, before.cursors, [], .refl _, rfl⟩ turned.2.toOver
  refine (kept.spread _ stays fun journal _ shown => shown.settle kept.sized journal).ends ?_
  intro _ after settled
  have records : after.records = storage.records := by rw [settled.rest]
  have lands : Lands closed after storage.records := by
    refine ⟨settled.carries, ⟨records ▸ settled.keeps, ?_⟩, ?_⟩
    · intro key member found
      obtain ⟨_, -, empty, -⟩ := settled.former found
      exact empty
    · rw [settled.rest]
      show storage.writers - 1 = 0
      omega
  exact lands.congr rfl rfl rfl

/-! ## Indexing a record -/

/-- Indices that only changed in place are over their spaces with the queues they had. -/
theorem Spread.calm {changed : Key → Option Bytes} {after : Storage α}
    (spread : Spread Index.SameSpace changed storage after) (calm : storage.Calm) :
    after.Calm := by
  intro key member found
  obtain ⟨before, held, same⟩ := spread.former found
  rw [same.queue]
  exact calm held

/-- A record that no index shows is put into all of them. -/
theorem indexRecord_spec (keeps : storage.Keeps fun _ => view) (calm : storage.Calm)
    (found : storage.records.get? key = some bytes) (absent : view key = none) :
    Ensures (indexRecord key) storage
      (fun _ after => Spread Index.SameSpace (Function.update view key (some bytes)) storage after)
      fun _ _ => False := by
  rw [indexRecord, Action.ensures_bind]
  refine ensures_record found ?_
  refine keeps.spread _ Index.SameSpace.toOver fun {_ member} journal held shown => ?_
  have waits : key ∉ member.index.queue := by rw [calm held]; exact List.not_mem_nil
  exact shown.insert absent waits (keeps.sized found) journal

/-! ## Inserters -/

/-- What the indices show while a record is handed out. -/
def Inserter.shown (inserter : Inserter) (records : Pool Bytes) : Key → Option Bytes :=
  match inserter.pending with
  | none => records.get?
  | some key => Function.update records.get? key none

/-- A storage with an open inserter: all records but the one handed out are in every index. -/
structure Filling (storage : Storage α) (inserter : Inserter) : Prop where
  /-- The indices show the other records. -/
  keeps : storage.Keeps fun _ => inserter.shown storage.records
  /-- No record waits. -/
  calm : storage.Calm
  /-- The inserter is the writer. -/
  writers : storage.writers = 1
  /-- The record handed out is there. -/
  live : ∀ key, inserter.pending = some key → ∃ bytes, storage.records.get? key = some bytes

/-- An inserter opens on a storage that is not in use. -/
theorem openInserter_spec (rests : storage.writers = 0 → storage.InStep) :
    Ensures openInserter storage
      (fun inserter after => storage.readers = 0 ∧ storage.writers = 0 ∧ inserter = ⟨none⟩ ∧
        after = { storage with writers := 1 } ∧ after.Filling inserter)
      fun failure after => after = storage ∧ storage.Busy failure := by
  rw [openInserter, Action.ensures_bind]
  refine (openWriter_spec storage).imp ?_ fun _ _ => id
  rintro - _ ⟨idle, unwritten, rfl⟩
  have inStep := rests unwritten
  rw [Action.ensures_pure]
  exact ⟨idle, unwritten, rfl, rfl, inStep.keeps.congr rfl rfl rfl rfl, inStep.calm, rfl,
    fun _ absurd => by cases absurd⟩

/-- The record handed out is put into every index. -/
theorem Filling.flush {inserter : Inserter} (filling : storage.Filling inserter) :
    Ensures inserter.flush storage
      (fun _ after => Spread Index.SameSpace storage.records.get? storage after)
      fun _ _ => False := by
  have keeps := filling.keeps
  unfold Inserter.shown at keeps
  unfold Inserter.flush
  cases handed : inserter.pending with
  | none =>
    rw [handed] at keeps
    rw [Action.ensures_pure]
    exact ⟨keeps, .of_eq rfl rfl, rfl, fun {_ member} found => ⟨member, found, .refl _⟩⟩
  | some key =>
    rw [handed] at keeps
    obtain ⟨bytes, found⟩ := filling.live key handed
    refine (indexRecord_spec keeps filling.calm found (Function.update_self ..)).ends ?_
    intro _ after spread
    rw [Function.update_idem, ← found, Function.update_eq_self] at spread
    exact spread

/-- One more record is handed out when the one before it is in every index. -/
theorem Filling.allocate {inserter : Inserter} (filling : storage.Filling inserter) :
    Ensures inserter.allocate storage
      (fun handed after => handed.2 = ⟨some handed.1⟩ ∧ after.Filling handed.2 ∧
        handed.1 = (storage.records.insert storage.layout.zeroRecord).1 ∧
        Carries storage after (storage.records.insert storage.layout.zeroRecord).2)
      fun _ _ => False := by
  rw [Inserter.allocate, Action.ensures_bind]
  refine filling.flush.ends ?_
  intro _ indexed spread
  have records : indexed.records = storage.records := by rw [spread.rest]
  have layout : indexed.layout = storage.layout := by rw [spread.rest]
  simp only [Action.ensures_bind, Action.ensures_get, Action.ensures_set, Action.ensures_pure]
  refine ⟨trivial, ⟨?_, spread.calm filling.calm, ?_, ?_⟩, ?_, ?_⟩
  · have keeps := spread.keeps.allocate
    have view : Function.update (indexed.records.insert indexed.layout.zeroRecord).2.get?
        (indexed.records.insert indexed.layout.zeroRecord).1 none = storage.records.get? := by
      rw [Pool.get?_insert_eq_update spread.keeps.records, Function.update_idem, ← records]
      exact Function.update_eq_self_iff.mpr (Pool.get?_insert_key spread.keeps.records _).symm
    show Keeps (fun _ => Function.update _ _ none) _
    rw [view]
    exact keeps
  · rw [spread.rest]
    exact filling.writers
  · rintro key handed
    obtain rfl := Option.some.inj handed
    refine ⟨indexed.layout.zeroRecord, ?_⟩
    show (indexed.records.insert indexed.layout.zeroRecord).2.get? _ = _
    rw [Pool.get?_insert_eq_update spread.keeps.records, Function.update_self]
  · rw [records, layout]
  · rw [← records, ← layout]
    exact spread.carries.trans (.of_eq rfl rfl rfl rfl)

/-- The record handed out can be edited at will. -/
theorem Filling.edit (filling : storage.Filling ⟨some key⟩) {bytes : Bytes}
    (found : storage.records.get? key = some bytes) (edited : Bytes) :
    Filling { storage with records := storage.records.set key (overwrite bytes edited) }
      ⟨some key⟩ := by
  refine ⟨?_, filling.calm, filling.writers, ?_⟩
  · have keeps := filling.keeps.overwrite found edited
    have view : Function.update (storage.records.set key (overwrite bytes edited)).get? key none =
        Function.update storage.records.get? key none := by
      rw [Pool.get?_set_eq_update found, Function.update_idem]
    show Keeps (fun _ => Function.update _ _ none) _
    rw [view]
    exact keeps
  · rintro other handed
    obtain rfl := Option.some.inj handed
    exact ⟨_, Pool.get?_set_self _ found⟩

/-- Closing an inserter leaves the storage in step. -/
theorem Filling.close {inserter : Inserter} (filling : storage.Filling inserter) :
    Ensures inserter.close storage (fun _ after => Lands storage after storage.records)
      fun _ _ => False := by
  rw [Inserter.close, Action.ensures_bind]
  refine filling.flush.ends ?_
  intro _ indexed spread
  have records : indexed.records = storage.records := by rw [spread.rest]
  refine (closeWriter_spec (records ▸ spread.keeps)
    (by rw [spread.rest]; exact filling.writers)).ends ?_
  intro _ after lands
  rw [records] at lands
  exact spread.carries.lands lands

/-! ## Editions -/

/-- The end of an edition tells every index but the requester of what it observes. -/
theorem endEdition_spec (keeps : storage.Keeps fun _ => view)
    (known : view key = some storage.backup) (sized : storage.backup.length = storage.layout.size)
    (waits : ∀ {index member}, storage.indices.get? index = some member →
      key ∉ member.index.queue)
    (found : storage.records.get? key = some bytes) (requester : Option Key) :
    Ensures (endEdition key requester) storage
      (fun concerned after => ∃ chosen : Key → Prop,
        Turns chosen (fun _ before last => last.Keeps storage.layout.size
          (Function.update view key (some bytes)) ∧ before.SameSpace last) storage after ∧
        (∀ index, some index = requester → ¬chosen index) ∧
        after.Keeps fun index => if concerned = true ∧ some index = requester then view
          else Function.update view key (some bytes))
      fun _ _ => False := by
  have fits := keeps.sized found
  obtain ⟨changed, compared, meets⟩ := keeps.served.changed keeps.sound fits sized
  let observers := storage.indices.entries.filter fun entry => entry.2.mask &&& changed != 0
  let others := observers.filter fun entry => some entry.1 != requester
  have live {entry : Key × Member α} (member : entry ∈ others) :
      storage.indices.get? entry.1 = some entry.2 :=
    (Pool.mem_entries _ _ _).mp (List.mem_of_mem_filter (List.mem_of_mem_filter member))
  have distinct : (others.map Prod.fst).Nodup := by
    refine List.Nodup.sublist ?_ storage.indices.keys_nodup
    exact ((List.filter_sublist.trans List.filter_sublist).map Prod.fst)
  have told := Turns.forM (fun _ before last => last.Keeps storage.layout.size
      (Function.update view key (some bytes)) ∧ before.SameSpace last)
    Prod.fst distinct (fun entry member => ⟨entry.2, live member⟩)
    fun entry member _ journal held =>
      (keeps.shown held).update known (waits held) fits journal
  -- An index that observes no changed field leads the record to where it was.
  have unaware {index : Key} {member : Member α} (held : storage.indices.get? index = some member)
      (unseen : (index, member) ∉ observers)
      (shown : member.index.Keeps storage.layout.size view) :
      member.index.Keeps storage.layout.size (Function.update view key (some bytes)) := by
    have entry : (index, member) ∈ storage.indices.entries := (Pool.mem_entries _ _ _).mpr held
    have inside : (member.mask, member.index.fields) ∈ storage.members :=
      List.mem_map.mpr ⟨member, List.mem_map.mpr ⟨_, entry, rfl⟩, rfl⟩
    refine shown.untouched known (waits held) fits fun field asked => ?_
    by_contra differs
    have met : member.mask &&& changed ≠ 0 := (meets _ inside).mpr ⟨field, asked, differs⟩
    exact unseen (List.mem_filter.mpr ⟨entry, by simpa using met⟩)
  unfold endEdition
  rw [Action.ensures_bind]
  refine ensures_record found ?_
  simp only [Action.ensures_bind, Action.ensures_get, orAbort, compared, Except.mapError,
    Action.ensures_ofExcept_ok]
  refine told.ends ?_
  intro _ after turns
  rw [Action.ensures_pure]
  refine ⟨_, turns, ?_, ?_⟩
  · rintro index asked chosen
    obtain ⟨entry, member, rfl⟩ := List.mem_map.mp chosen
    simp [others, asked] at member
  · refine keeps.turns turns ?_ ?_
    · rintro index before last chosen - ⟨shown, same⟩
      obtain ⟨entry, member, rfl⟩ := List.mem_map.mp chosen
      have apart : some entry.1 ≠ requester := by simpa using List.of_mem_filter member
      rw [if_neg fun both => apart both.2]
      exact ⟨shown, same.toOver.fields⟩
    · intro index member held unchosen shown
      by_cases seen : (index, member) ∈ observers
      · have asked : some index = requester := by
          by_contra other
          exact unchosen (List.mem_map.mpr
            ⟨(index, member), List.mem_filter.mpr ⟨seen, by simpa using other⟩, rfl⟩)
        have concerned : (observers.any fun entry => some entry.1 == requester) = true :=
          List.any_eq_true.mpr ⟨_, seen, by simpa using asked⟩
        rw [if_pos ⟨concerned, asked⟩]
        exact shown
      · rw [if_neg]
        · exact unaware held seen shown
        · rintro ⟨concerned, rfl⟩
          obtain ⟨⟨other, observer⟩, member, same⟩ := List.any_eq_true.mp concerned
          obtain rfl : other = index := by simpa using same
          have observing := (Pool.mem_entries _ _ _).mp (List.mem_of_mem_filter member)
          rw [held, Option.some.injEq] at observing
          exact seen (observing ▸ member)

/-! ## Operations -/

/-- Indices that show the new records of an idle storage leave it in step. -/
theorem Spread.lands {turned : Index α → Index α → Prop} {records : Pool Bytes}
    {after : Storage α} (spread : Spread turned records.get? { storage with records } after)
    (calm : after.Calm) (idle : storage.writers = 0) : Lands storage after records := by
  have lands : Lands { storage with records } after records := by
    refine ⟨spread.carries, ⟨spread.carries.records ▸ spread.keeps, calm⟩, ?_⟩
    rw [spread.rest]
    exact idle
  exact lands.congr rfl rfl rfl

/-- A report changes nothing that counts. -/
theorem Lands.report {after : Storage α} {records : Pool Bytes}
    (lands : Lands storage after records) (severity : Severity) (message : String) :
    Ensures (report severity message) after (fun _ last => Lands storage last records)
      fun _ _ => False := by
  rw [Storage.report, Action.ensures_modify]
  exact ⟨lands.toCarries.trans (.of_eq rfl rfl lands.records rfl),
    ⟨lands.inStep.keeps.congr rfl rfl rfl rfl, lands.inStep.calm⟩, lands.writers⟩

/-- Writing all bytes of a record of the same size replaces it. -/
theorem overwrite_of_length_eq {former edited : Bytes} (sized : edited.length = former.length) :
    overwrite former edited = edited := by
  rw [overwrite, ← sized, List.take_length, sized, List.drop_length, List.append_nil]

/-- Copying bytes of the same length over a record leaves the record with them. -/
theorem copy_run {former : Bytes} (sized : bytes.length = former.length) :
    Edit.copy bytes former = .ok () bytes := by
  have ensures : Ensures (Edit.copy bytes) former (fun _ after => after = bytes)
      fun _ _ => False := by
    simp only [Edit.copy, Action.ensures_bind, Action.ensures_get, ne_eq, sized,
      not_true_eq_false, if_false, Action.ensures_set]
  obtain ⟨_, _, run, rfl⟩ := ensures.exists_eq
  exact run

/-- A record of the right size is inserted into a storage that is not in use. -/
theorem insertRecord_spec (rests : storage.writers = 0 → storage.InStep) (bytes : Bytes) :
    Ensures (insertRecord bytes) storage
      (fun key after => bytes.length = storage.layout.size ∧
        key = (storage.records.insert storage.layout.zeroRecord).1 ∧ storage.writers = 0 ∧
        Lands storage after
          ((storage.records.insert storage.layout.zeroRecord).2.set key bytes))
      fun failure after => after = storage.failing failure ∧
        ((bytes.length ≠ storage.layout.size ∧ ∃ rejection, failure = .rejected rejection) ∨
          storage.Busy failure) := by
  unfold insertRecord
  rw [Action.ensures_bind, Action.ensures_get]
  by_cases sized : bytes.length = storage.layout.size
  · simp only [ne_eq, sized, not_true_eq_false, if_false, Action.ensures_bind]
    refine (openInserter_spec rests).imp ?_ fun _ _ blocked =>
      ⟨blocked.1.trans blocked.2.failing.symm, .inr blocked.2⟩
    rintro inserter _ ⟨-, unwritten, rfl, rfl, filling⟩
    have inStep := rests unwritten
    refine filling.allocate.ends ?_
    rintro ⟨key, last⟩ allocated ⟨handed, filled, fresh, carries⟩
    obtain rfl : last = ⟨some key⟩ := handed
    obtain rfl : key = (storage.records.insert storage.layout.zeroRecord).1 := fresh
    have held : allocated.records.get? (storage.records.insert storage.layout.zeroRecord).1 =
        some storage.layout.zeroRecord := by
      rw [carries.records]
      exact (congrFun (Pool.get?_insert_eq_update inStep.keeps.records _) _).trans
        (Function.update_self ..)
    have zeros : bytes.length = storage.layout.zeroRecord.length := by
      rw [sized, Record.Layout.zeroRecord, List.length_replicate]
    refine (editRecord_spec held (Edit.copy bytes)).imp ?_ ?_
    · rintro - _ ⟨edited, copied, rfl⟩
      rw [copy_run zeros] at copied
      cases copied
      refine (filled.edit held bytes).close.ends ?_
      intro _ after lands
      rw [Action.ensures_pure]
      rw [overwrite_of_length_eq zeros, carries.records] at lands
      have landed := carries.lands (lands.congr rfl rfl rfl)
      exact ⟨trivial, rfl, unwritten, landed.congr rfl rfl rfl⟩
    · rintro - _ ⟨fault, edited, failed, -, rfl⟩
      rw [copy_run zeros] at failed
      cases failed
  · simp only [ne_eq, sized, not_false_eq_true, if_true, reject, Action.ensures_bind,
      Action.ensures_modify, Action.ensures_throw]
    exact ⟨rfl, .inl ⟨trivial, _, rfl⟩⟩

/-- The storage in which the edit of a record was aborted: a writer stays open. -/
def brokenOff (storage : Storage α) (key : Key) (bytes edited : Bytes) : Storage α :=
  { storage with
    writers := 1
    backup := bytes
    records := storage.records.set key (overwrite bytes edited) }

/-- A record that is there is changed, and every index follows. -/
theorem modifyRecord_spec (rests : storage.writers = 0 → storage.InStep) (key : Key) (edit : Edit) :
    Ensures (modifyRecord key edit) storage
      (fun found after => (found = false ∧ storage.records.get? key = none ∧ after = storage) ∨
        ∃ bytes edited, found = true ∧ storage.records.get? key = some bytes ∧
          storage.writers = 0 ∧ edit bytes = .ok () edited ∧
          Lands storage after (storage.records.set key (overwrite bytes edited)))
      fun failure after => (after = storage ∧ storage.Busy failure) ∨
        ∃ bytes fault edited, storage.readers = 0 ∧ storage.writers = 0 ∧
          storage.records.get? key = some bytes ∧ edit bytes = .error fault edited ∧
          failure = .aborted fault ∧ after = storage.brokenOff key bytes edited := by
  unfold modifyRecord
  rw [Action.ensures_bind, Action.ensures_get]
  cases found : storage.records.get? key with
  | none =>
    have missing : storage.records.contains key = false := by rw [Pool.contains, found]; rfl
    simp only [missing, Bool.not_false, if_true, Action.ensures_pure]
    exact .inl ⟨trivial, trivial, trivial⟩
  | some bytes =>
    simp only [Pool.contains_of_get? found, Bool.not_true, Bool.false_eq_true, if_false,
      Action.ensures_bind]
    refine (openWriter_spec storage).imp ?_ fun _ _ => .inl
    rintro - _ ⟨unread, unwritten, rfl⟩
    have inStep := rests unwritten
    let opened : Storage α := { storage with writers := 1 }
    let former : Storage α := { opened with backup := bytes }
    have held : former.records.get? key = some bytes := found
    refine (beginEdition_spec (show opened.records.get? key = some bytes from found)).ends ?_
    rintro - _ rfl
    refine (editRecord_spec held edit).imp ?_ ?_
    · rintro - _ ⟨edited, ran, rfl⟩
      have before : former.Keeps fun _ => storage.records.get? :=
        inStep.keeps.congr rfl rfl rfl rfl
      have present := Pool.get?_set_self (overwrite bytes edited) found
      rw [Action.ensures_discard]
      refine (endEdition_spec (before.overwrite held edited) found (inStep.keeps.sized found)
        (fun held => by rw [inStep.calm held]; exact List.not_mem_nil) present none).ends ?_
      rintro concerned told ⟨chosen, turns, -, keeps⟩
      have records : told.records = storage.records.set key (overwrite bytes edited) := by
        rw [turns.rest]
      refine (closeWriter_spec ?_ (by rw [turns.rest])).ends ?_
      · rw [records, Pool.get?_set_eq_update found]
        simpa using keeps
      · intro _ after lands
        rw [Action.ensures_pure]
        rw [records] at lands
        have landed := (turns.carries fun result => result.2.toOver).lands lands
        exact .inr ⟨bytes, edited, rfl, rfl, unwritten, ran, landed.congr rfl rfl rfl⟩
    · rintro - _ ⟨fault, edited, failed, rfl, rfl⟩
      exact .inr ⟨bytes, fault, edited, unread, unwritten, rfl, failed, rfl, rfl⟩

/-- A record that is there is taken out of every index. -/
theorem deleteRecord_spec (rests : storage.writers = 0 → storage.InStep) (key : Key) :
    Ensures (deleteRecord key) storage
      (fun found after => storage.writers = 0 ∧
        ((found = false ∧ storage.records.get? key = none ∧ after = storage) ∨
          found = true ∧ Lands storage after (storage.records.remove key)))
      fun failure after => after = storage ∧ storage.writers ≠ 0 ∧
        failure = .aborted .deleteDuringWriter := by
  unfold deleteRecord
  rw [Action.ensures_bind, Action.ensures_get]
  by_cases writing : storage.writers ≠ 0
  · simp only [if_pos writing, abort, Action.ensures_bind, Action.ensures_throw]
    exact ⟨trivial, writing, trivial⟩
  · have idle : storage.writers = 0 := not_not.mp writing
    rw [if_neg writing]
    cases found : storage.records.get? key with
    | none =>
      rw [Action.ensures_pure]
      exact ⟨idle, .inl ⟨rfl, rfl, rfl⟩⟩
    | some bytes =>
      have inStep := rests idle
      have kept : Keeps (fun _ => storage.records.get?)
          { storage with records := storage.records.remove key } := by
        refine inStep.keeps.withRecords (inStep.keeps.records.remove key) ?_
        intro other read held
        rw [Pool.get?_remove] at held
        split at held
        · cases held
        · exact inStep.keeps.sized held
      simp only [Action.ensures_bind, Action.ensures_set, Action.ensures_pure]
      refine (kept.spread (storage.records.remove key).get? Index.SameSpace.toOver
        fun {index member} journal held shown => ?_).ends ?_
      · rw [Pool.get?_remove_eq_update]
        exact shown.erase found (by rw [inStep.calm held]; exact List.not_mem_nil) journal
      · intro _ after spread
        refine ((spread.lands (spread.calm inStep.calm) idle).report _ _).ends ?_
        exact fun _ _ lands => ⟨idle, .inr ⟨trivial, lands⟩⟩

/-- All records are taken out of every index. -/
theorem clear_spec (rests : storage.writers = 0 → storage.InStep) :
    Ensures clear storage
      (fun _ after => storage.writers = 0 ∧ Lands storage after storage.records.clear)
      fun failure after => after = storage ∧ storage.writers ≠ 0 ∧
        failure = .aborted .clearDuringWriter := by
  unfold clear
  rw [Action.ensures_bind, Action.ensures_get]
  by_cases writing : storage.writers ≠ 0
  · simp only [if_pos writing, abort, Action.ensures_bind, Action.ensures_throw]
    exact ⟨trivial, writing, trivial⟩
  · have idle : storage.writers = 0 := not_not.mp writing
    have inStep := rests idle
    have nothing : storage.records.clear.get? = fun _ => none := by
      funext key
      exact storage.records.get?_clear key
    have kept : Keeps (fun _ => storage.records.get?)
        { storage with records := storage.records.clear } := by
      refine inStep.keeps.withRecords (inStep.keeps.records.retain _) ?_
      intro other read held
      rw [nothing] at held
      cases held
    simp only [if_neg writing, Action.ensures_bind, Action.ensures_set]
    have stays {before last : Index α} (turned : last.queue = [] ∧
        { before with queue := [] }.SameSpace last) : before.Over last :=
      Index.Over.trans ⟨before.tree, before.cursors, [], .refl _, rfl⟩ turned.2.toOver
    refine (kept.spread storage.records.clear.get? stays
      fun {index member} journal held shown => ?_).ends ?_
    · rw [Action.ensures_modify, nothing]
      exact ⟨shown.clear.1, rfl, shown.clear.2⟩
    · intro _ after spread
      refine ⟨idle, spread.lands (fun {key member} held => ?_) idle⟩
      obtain ⟨_, -, empty, -⟩ := spread.former held
      exact empty

end SpatialIndex.Storage
