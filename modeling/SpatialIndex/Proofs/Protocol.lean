import SpatialIndex.Proofs.Session
import SpatialIndex.Proofs.Storage.Account

/-!
# Readers and writers

The counts of a storage are those of what its callers hold, together with what was never closed:
a leaked cursor or inserter, or a modification whose edit was aborted. Readers and a writer
exclude each other, an index in use stays, and a writer that is never closed shuts the storage.
-/
open SpatialIndex.Action (Ensures)

namespace SpatialIndex

open Record (Bytes Edit Layout)

variable {α : Type}

/-! ## Modifications that break off -/

namespace Storage

variable {storage : Storage α} {key : Key}

/-- The storage in which the edit of a modification runs, if it comes to that. -/
def underEdit? (storage : Storage α) (key : Key) : Option (Storage α) :=
  if storage.records.contains key then
    match (do openWriter; beginEdition key : StorageOp α Unit) storage with
    | .ok () opened => some opened
    | .error _ _ => none
  else none

/-- Whether the edit of a modification runs and is aborted. -/
def breaksOff (storage : Storage α) (key : Key) (edit : Edit) : Bool :=
  match storage.underEdit? key with
  | none => false
  | some opened =>
    match editRecord key edit opened with
    | .ok () _ => false
    | .error _ _ => true

/-- The edit of a modification begins when nothing is open, and then a writer is. -/
theorem beginModification_spec {bytes : Bytes} (found : storage.records.get? key = some bytes) :
    Ensures (do openWriter; beginEdition key) storage
      (fun _ opened => (storage.readers = 0 ∧ storage.writers = 0) ∧
        opened = { storage with writers := 1, backup := bytes })
      fun _ _ => ¬(storage.readers = 0 ∧ storage.writers = 0) := by
  rw [Action.ensures_bind]
  refine (openWriter_spec storage).imp ?_ fun _ _ failed free => failed.2.in_use free.1 free.2
  rintro - _ ⟨unread, unwritten, rfl⟩
  let opened : Storage α := { storage with writers := 1 }
  refine (beginEdition_spec (show opened.records.get? key = some bytes from found)).ends ?_
  rintro - _ rfl
  exact ⟨⟨unread, unwritten⟩, rfl⟩

/-- An edit runs when the record is there and nothing is open, and then a writer is. -/
theorem underEdit?_eq_some_iff {opened : Storage α} :
    storage.underEdit? key = some opened ↔ ∃ bytes, storage.records.get? key = some bytes ∧
      (storage.readers = 0 ∧ storage.writers = 0) ∧
      opened = { storage with writers := 1, backup := bytes } := by
  unfold underEdit?
  cases found : storage.records.get? key with
  | none => simp [Pool.contains, found]
  | some bytes =>
    have begun := beginModification_spec found
    unfold Ensures at begun
    rw [if_pos (Pool.contains_of_get? found)]
    cases ran : (do openWriter; beginEdition key : StorageOp α Unit) storage with
    | ok _ last =>
      rw [ran] at begun
      obtain ⟨free, rfl⟩ := begun
      simp [free, eq_comm]
    | error _ _ =>
      rw [ran] at begun
      simp [begun]

/-- A modification breaks off when its edit is aborted. -/
theorem breaksOff_iff {edit : Edit} :
    storage.breaksOff key edit = true ↔ ∃ bytes, storage.records.get? key = some bytes ∧
      (storage.readers = 0 ∧ storage.writers = 0) ∧
      ∃ fault edited, edit bytes = .error fault edited := by
  unfold breaksOff
  cases edits : storage.underEdit? key with
  | none =>
    refine iff_of_false Bool.false_ne_true ?_
    rintro ⟨bytes, found, free, -⟩
    have runs := underEdit?_eq_some_iff.mpr ⟨bytes, found, free, rfl⟩
    rw [edits] at runs
    cases runs
  | some opened =>
    obtain ⟨bytes, found, free, rfl⟩ := underEdit?_eq_some_iff.mp edits
    let opened : Storage α := { storage with writers := 1, backup := bytes }
    have edited := editRecord_spec (show opened.records.get? key = some bytes from found) edit
    unfold Ensures at edited
    dsimp only
    cases ran : editRecord key edit opened with
    | ok _ last =>
      rw [ran] at edited
      obtain ⟨result, done, -⟩ := edited
      refine iff_of_false Bool.false_ne_true ?_
      rintro ⟨other, there, -, fault, broken, failed⟩
      obtain rfl := Option.some.inj (found.symm.trans there)
      have absurd := done.symm.trans failed
      cases absurd
    | error _ last =>
      rw [ran] at edited
      obtain ⟨fault, result, failed, -⟩ := edited
      exact iff_of_true rfl ⟨bytes, found, free, fault, result, failed⟩

/-- A modification is its edit and what follows, on the storage in which the edit runs. -/
theorem modifyRecord_run [Arithmetic α] {opened : Storage α}
    (edits : storage.underEdit? key = some opened) (edit : Edit) :
    modifyRecord key edit storage = (do
      editRecord key edit
      discard (endEdition key none)
      closeWriter
      return true) opened := by
  unfold underEdit? at edits
  split at edits
  · rename_i there
    split at edits
    · rename_i last ran
      obtain rfl : last = opened := Option.some.inj edits
      have further {β : Type} (rest : StorageOp α β) :
          (do openWriter; beginEdition key; rest : StorageOp α β) storage = rest last := by
        rw [← bind_assoc]
        simp only [bind] at ran ⊢
        rw [EStateM.bind, ran]
      show (if !storage.records.contains key then _ else _ : StorageOp α Bool) storage = _
      rw [there]
      exact further _
    · cases edits
  · cases edits

end Storage

/-! ## What is held and what is lost -/

/-- The uses of a storage that are held. -/
def Holding.uses : Holding α → List Storage.Use
  | readers cursors => cursors.map fun cursor => .reading cursor.index
  | inserter _ => [.inserting]
  | editor cursor => [.editing cursor.index]

namespace Session

open Storage (Account Use)

/-- A session whose storage has the given settings and counts what is held of it and what is lost,
with readers and writers apart. -/
structure Counted (config : Config) (lost : List Use) (session : Session α) : Prop where
  /-- The counts are those of the uses that are held or lost. -/
  account : session.storage.account = Account.of config (session.held.uses ++ lost)
  /-- Readers and writers exclude each other. -/
  apart : session.storage.readers = 0 ∨ session.storage.writers = 0
  /-- There is one writer at most. -/
  single : session.storage.writers ≤ 1

namespace Counted

variable {config : Config} {storage after : Storage α} {held further : Holding α}
  {lost : List Use}

/-- The readers of the storage are those held and those lost. -/
theorem readers {session : Session α} (counted : session.Counted config lost) :
    session.storage.readers = (session.held.uses ++ lost).countP Use.isReader :=
  congrArg Account.readers counted.account

/-- The writers of the storage are those held and those lost. -/
theorem writers {session : Session α} (counted : session.Counted config lost) :
    session.storage.writers = (session.held.uses ++ lost).countP Use.isWriter :=
  congrArg Account.writers counted.account

/-- The cursors over an index are those held and those lost. -/
theorem cursors {session : Session α} (counted : session.Counted config lost) (key : Key) :
    session.storage.users key = (session.held.uses ++ lost).countP (Use.concerns key) :=
  congrFun (congrArg Account.cursors counted.account) key

/-- A storage whose counts stay, with the same uses held or lost. -/
theorem steady {others : List Use} (counted : Counted config lost ⟨storage, held⟩)
    (same : after.account = storage.account)
    (uses : (further.uses ++ others).Perm (held.uses ++ lost)) :
    Counted config others ⟨after, further⟩ := by
  have readers : after.readers = storage.readers := congrArg Account.readers same
  have writers : after.writers = storage.writers := congrArg Account.writers same
  refine ⟨(same.trans counted.account).trans (Account.of_perm uses).symm, ?_, ?_⟩
  · show after.readers = 0 ∨ after.writers = 0
    rw [readers, writers]
    exact counted.apart
  · show after.writers ≤ 1
    rw [writers]
    exact counted.single

/-- Counts stay due when nothing more is lost. -/
theorem unlost {session : Session α} (counted : session.Counted config lost) :
    session.Counted config (lost ++ []) := by
  rw [List.append_nil]
  exact counted

/-- An operation that changes no counts, with the same uses held whatever comes of it. -/
theorem perform_steady {β : Type} {operation : StorageOp α β} {done : β → Holding α}
    (counted : Counted config lost ⟨storage, held⟩)
    (steady : Ensures operation storage (fun _ after => after.account = storage.account)
      fun _ after => after.account = storage.account)
    (ends : ∀ value, (done value).uses = held.uses) (fails : further.uses = held.uses) :
    Counted config lost (perform storage operation done further) :=
  perform_of_ensures steady
    (fun value _ same => counted.steady same (by rw [ends value]))
    fun _ _ same => counted.steady same (by rw [fails])

/-- One more use that is counted. -/
theorem opened {others : List Use} {use : Use} (counted : Counted config lost ⟨storage, held⟩)
    (admitted : storage.writers = 0 ∧ (use.isWriter = true → storage.readers = 0))
    (opens : after.account = storage.account.opened use)
    (uses : (further.uses ++ others).Perm (use :: (held.uses ++ lost))) :
    Counted config others ⟨after, further⟩ := by
  have readers : after.readers = (storage.account.opened use).readers :=
    congrArg Account.readers opens
  have writers : after.writers = (storage.account.opened use).writers :=
    congrArg Account.writers opens
  have before : storage.account.writers = 0 := admitted.1
  refine ⟨?_, ?_, ?_⟩
  · rw [opens, counted.account, ← Account.of_cons]
    exact (Account.of_perm uses).symm
  · show after.readers = 0 ∨ after.writers = 0
    rw [readers, writers]
    cases use with
    | reading index => exact .inr before
    | _ => exact .inl (admitted.2 rfl)
  · show after.writers ≤ 1
    rw [writers]
    cases use <;> simp [Account.opened, before]

/-- One use less that is counted. -/
theorem closed {others : List Use} {use : Use} (counted : Counted config lost ⟨storage, held⟩)
    (closes : after.account = storage.account.closed use)
    (uses : (held.uses ++ lost).Perm (use :: (further.uses ++ others))) :
    Counted config others ⟨after, further⟩ := by
  have account : after.account = Account.of config (further.uses ++ others) := by
    rw [closes, counted.account, Account.of_perm uses, Account.of_cons, Account.closed_opened]
  have readers : after.readers ≤ storage.readers := by
    have same : after.readers = (storage.account.closed use).readers :=
      congrArg Account.readers closes
    rw [same]
    cases use <;> simp [Account.closed, Storage.account]
  have writers : after.writers ≤ storage.writers := by
    have same : after.writers = (storage.account.closed use).writers :=
      congrArg Account.writers closes
    rw [same]
    cases use <;> simp [Account.closed, Storage.account]
  have apart := counted.apart
  have single := counted.single
  refine ⟨account, ?_, ?_⟩
  · show after.readers = 0 ∨ after.writers = 0
    simp only at apart
    omega
  · show after.writers ≤ 1
    simp only at single
    omega

/-- A held read cursor is counted: its index is there and no writer is open. -/
theorem stands {cursors : List (Cursor α)}
    (counted : Counted config lost ⟨storage, .readers cursors⟩) {cursor : Cursor α}
    (held : cursor ∈ cursors) :
    (∃ member, storage.indices.get? cursor.index = some member ∧ 0 < member.index.cursors) ∧
      storage.writers = 0 ∧ 0 < storage.readers := by
  have use : Use.reading cursor.index ∈ (Holding.readers cursors).uses ++ lost :=
    List.mem_append_left _ (List.mem_map_of_mem held)
  have used : 0 < storage.users cursor.index := by
    rw [counted.cursors cursor.index]
    exact List.countP_pos_iff.mpr ⟨_, use, by simp [Use.concerns]⟩
  have reading : 0 < storage.readers := by
    rw [counted.readers]
    exact List.countP_pos_iff.mpr ⟨_, use, rfl⟩
  exact ⟨Storage.exists_of_used used, counted.apart.resolve_left (Nat.ne_of_gt reading), reading⟩

/-- A read cursor that opens is held and counted. -/
theorem opensRead {cursors : List (Cursor α)}
    (counted : Counted config lost ⟨storage, .readers cursors⟩) (idle : storage.writers = 0) {cursor : Cursor α} {member : Storage.Member α}
    (found : storage.indices.get? cursor.index = some member) :
    Counted config lost ⟨storage.recount cursor.index member (storage.readers + 1)
      (member.index.cursors + 1), .readers (cursor :: cursors)⟩ := by
  exact counted.opened ⟨idle, fun writes => by cases writes⟩ (Storage.account_recount_succ found)
    (.refl _)

/-- A cursor over the same index is the same use. -/
theorem uses_set {cursors : List (Cursor α)} {position : Nat} {cursor next : Cursor α}
    (found : cursors[position]? = some cursor) (same : next.index = cursor.index) :
    (Holding.readers (cursors.set position next)).uses = (Holding.readers cursors).uses := by
  obtain ⟨inside, rfl⟩ := List.getElem?_eq_some_iff.mp found
  simp only [Holding.uses, List.map_set, same]
  have there : position < (cursors.map fun cursor => Use.reading cursor.index).length := by
    simpa using inside
  have use : (cursors.map fun cursor => Use.reading cursor.index)[position] =
      .reading cursors[position].index := List.getElem_map _
  rw [← use, List.set_getElem_self]

/-- The parts of a list at a position. -/
theorem perm_eraseIdx {β : Type} {items : List β} {position : Nat} {item : β}
    (found : items[position]? = some item) : items.Perm (item :: items.eraseIdx position) := by
  obtain ⟨inside, rfl⟩ := List.getElem?_eq_some_iff.mp found
  exact (List.getElem_cons_eraseIdx_perm inside).symm

end Counted

/-- A new storage counts nothing. -/
theorem start_counted (layout : Layout) (config : Config) (journal : Journal) :
    (start layout config journal : Session α).Counted config [] := by
  have users : Storage.users (Storage.create layout config journal : Storage α) = fun _ => 0 :=
    funext fun key => Storage.users_absent (Pool.get?_empty key)
  exact ⟨Account.ext rfl rfl rfl users, .inl rfl, Nat.zero_le _⟩

variable [Arithmetic α]

/-- The uses that a request leaves open for good. -/
def loses (session : Session α) (request : Request) : List Use :=
  match session.held, request with
  | .readers [], .call (.modify key edit) =>
    if session.storage.breaksOff key edit then [.modifying] else []
  | .readers cursors, .leak position =>
    (cursors[position]?).toList.map fun cursor => .reading cursor.index
  | .inserter _, .forget => [.inserting]
  | .editor cursor, .forget => [.editing cursor.index]
  | _, _ => []

/-- The uses that requests leave open for good, in the order of the requests. -/
def losses (session : Session α) : List Request → List Use
  | [] => []
  | request :: rest => session.loses request ++ (session.step request).losses rest

/-! ## Requests -/

namespace Counted

variable {config : Config} {storage : Storage α} {lost : List Use}

/-- A modification that breaks off loses its writer; any other keeps the counts. -/
theorem modify (resting : storage.Resting) (counted : Counted config lost ⟨storage, .readers []⟩)
    (key : Key) (edit : Edit) :
    Counted config (lost ++ loses ⟨storage, .readers []⟩ (.call (.modify key edit)))
      (perform storage (Call.modify key edit).run (fun _ => .readers []) (.readers [])) := by
  have ran := (Storage.modifyRecord_spec resting.inStep key edit).and
    (storage.modifyRecord_account key edit)
  simp only [loses]
  by_cases breaks : storage.breaksOff key edit = true
  · obtain ⟨bytes, found, ⟨unread, unwritten⟩, fault, edited, failed⟩ :=
      Storage.breaksOff_iff.mp breaks
    have modifies : Ensures (discard (Storage.modifyRecord key edit)) storage (fun _ _ => False)
        fun _ after => after = storage.brokenOff key bytes edited := by
      rw [Action.ensures_discard]
      refine ran.imp ?_ ?_
      · rintro - after ⟨⟨-, absent, -⟩ | ⟨other, result, -, there, -, done, -⟩, -⟩
        · rw [found] at absent
          cases absent
        · obtain rfl := Option.some.inj (found.symm.trans there)
          have absurd := failed.symm.trans done
          cases absurd
      · rintro failure after ⟨⟨-, busy⟩ | ⟨other, _, result, -, -, there, broken, -, rfl⟩, -⟩
        · exact absurd unwritten (busy.in_use unread)
        · obtain rfl := Option.some.inj (found.symm.trans there)
          cases failed.symm.trans broken
          rfl
    rw [if_pos breaks]
    refine perform_of_ensures modifies (fun _ _ => False.elim) ?_
    rintro - _ rfl
    have opens : (storage.brokenOff key bytes edited).account = storage.account.opened .modifying :=
      Storage.account_writing unwritten
    exact counted.opened ⟨unwritten, fun _ => unread⟩ opens (List.perm_append_singleton _ _)
  · have modifies : Ensures (discard (Storage.modifyRecord key edit)) storage
        (fun _ after => after.account = storage.account)
        fun _ after => after.account = storage.account := by
      rw [Action.ensures_discard]
      refine ran.imp (fun _ _ landed => landed.2) ?_
      rintro - after ⟨⟨rfl, -⟩ | ⟨bytes, fault, edited, unread, unwritten, found, failed, -⟩, -⟩
      · rfl
      · exact absurd (Storage.breaksOff_iff.mpr
          ⟨bytes, found, ⟨unread, unwritten⟩, fault, edited, failed⟩) breaks
    rw [if_neg breaks]
    exact counted.unlost.perform_steady modifies (fun _ => rfl) rfl

/-- A call of a free storage keeps the counts, unless it breaks off. -/
theorem call (resting : storage.Resting) (counted : Counted config lost ⟨storage, .readers []⟩)
    (call : Call) :
    Counted config (lost ++ loses ⟨storage, .readers []⟩ (.call call))
      (perform storage call.run (fun _ => .readers []) (.readers [])) := by
  have stays {other : Call} (nothing : loses ⟨storage, .readers []⟩ (.call other) = [])
      (steady : Ensures other.run storage (fun _ after => after.account = storage.account)
        fun _ after => after.account = storage.account) :
      Counted config (lost ++ loses ⟨storage, .readers []⟩ (.call other))
        (perform storage other.run (fun _ => .readers []) (.readers [])) := by
    rw [nothing]
    exact counted.unlost.perform_steady steady (fun _ => rfl) rfl
  cases call with
  | createIndex specs =>
    obtain ⟨views, keeps, -⟩ := resting.upkept
    exact stays rfl ((Action.ensures_discard _ _).mpr (keeps.createIndex_account specs))
  | dropIndex key => exact stays rfl (storage.dropIndex_account key)
  | insert bytes =>
    refine stays rfl ((Action.ensures_discard _ _).mpr ?_)
    refine ((Storage.insertRecord_spec resting.inStep bytes).and
      (storage.insertRecord_account bytes)).imp (fun _ _ landed => landed.2) ?_
    rintro _ after ⟨⟨rest, -⟩, -⟩
    rw [rest]
    exact Storage.account_congr rfl rfl rfl rfl
  | modify key edit => exact counted.modify resting key edit
  | delete key => exact stays rfl ((Storage.account_blind.deleteRecord key).discard storage)
  | clear => exact stays rfl (Storage.account_blind.clear storage)

/-- A request to a storage that is free or read keeps the counts due. -/
theorem step_readers {cursors : List (Cursor α)} (resting : storage.Resting)
    (counted : Counted config lost ⟨storage, .readers cursors⟩) (request : Request) :
    Counted config (lost ++ loses ⟨storage, .readers cursors⟩ request)
      (step ⟨storage, .readers cursors⟩ request) := by
  have same := counted.unlost
  have unchanged {failure : Failure} {after : Storage α} (failed : after = storage.failing failure) :
      Counted config (lost ++ []) ⟨after, .readers cursors⟩ := by
    rw [failed]
    exact same.steady rfl (.refl _)
  cases request with
  | call call =>
    cases cursors with
    | nil => exact counted.call resting call
    | cons cursor rest => exact same
  | openInserter =>
    cases cursors with
    | nil =>
      refine perform_of_ensures (Storage.openInserter_spec resting.inStep) ?_
        fun _ _ failed => failed.1 ▸ same
      rintro _ _ ⟨unread, unwritten, rfl, rfl, -⟩
      exact same.opened ⟨unwritten, fun _ => unread⟩ (Storage.account_writing unwritten) (.refl _)
    | cons cursor rest => exact same
  | edit index query =>
    cases cursors with
    | nil =>
      refine perform_of_ensures ((Storage.edit_spec resting.inStep index query).and
        (storage.edit_account index query)) ?_ fun _ _ failed => unchanged failed.1.1
      rintro cursor after ⟨⟨_, _, _, _, -, -, -, -, -, -, unread, unwritten⟩, rfl, opens⟩
      exact same.opened ⟨unwritten, fun _ => unread⟩ opens (.refl _)
    | cons cursor rest => exact same
  | read index query =>
    have reads : Counted config (lost ++ []) (perform storage (Storage.read index query)
        (fun cursor => .readers (cursor :: cursors)) (.readers cursors)) := by
      refine perform_of_ensures (Storage.read_spec storage index query) ?_
        fun _ _ failed => unchanged failed.1
      rintro _ _ ⟨idle, member, search, found, -, rfl, rfl⟩
      have there : storage.indices.get? (member.cursor index search).index = some member := found
      exact same.opensRead idle there
    cases cursors <;> exact reads
  | copy position =>
    unfold step
    cases found : cursors[position]? with
    | none => cases cursors <;> simp only [found] <;> exact same
    | some cursor =>
      obtain ⟨⟨member, there, -⟩, idle, -⟩ := counted.stands (List.mem_of_getElem? found)
      have copies : Counted config (lost ++ []) (perform storage (Storage.openRead cursor)
          (fun _ => .readers (cursor :: cursors)) (.readers cursors)) := by
        refine perform_of_ensures (Storage.openRead_opens there idle) ?_ fun _ _ => False.elim
        rintro - _ rfl
        exact same.opensRead idle there
      cases cursors <;> simp only [found] <;> exact copies
  | advance position =>
    unfold step
    cases found : cursors[position]? with
    | none => cases cursors <;> simp only [found] <;> exact same
    | some cursor =>
      cases went : storage.advanceRead cursor with
      | error fault => cases cursors <;> simp only [found, went] <;> exact same
      | ok next =>
        have moved : Counted config (lost ++ [])
            ⟨storage, .readers (cursors.set position next)⟩ := by
          refine same.steady rfl ?_
          rw [uses_set found (Storage.advanceRead_becomes went).index]
        cases cursors <;> simp only [found, went] <;> exact moved
  | close position =>
    unfold step
    cases found : cursors[position]? with
    | none => cases cursors <;> simp only [found] <;> exact same
    | some cursor =>
      obtain ⟨⟨member, there, used⟩, -, reading⟩ := counted.stands (List.mem_of_getElem? found)
      have parts := (perm_eraseIdx found).map fun cursor => Use.reading cursor.index
      have closes : Counted config (lost ++ []) (perform storage (Storage.closeRead cursor)
          (fun _ => .readers (cursors.eraseIdx position))
          (.readers (cursors.eraseIdx position))) := by
        refine perform_of_ensures (Storage.closeRead_closes there used reading) ?_
          fun _ _ => False.elim
        rintro - _ rfl
        exact same.closed (Storage.account_recount_pred there) (parts.append_right _)
      cases cursors <;> simp only [found] <;> exact closes
  | leak position =>
    have leaks : loses ⟨storage, .readers cursors⟩ (.leak position) =
        (cursors[position]?).toList.map fun cursor => .reading cursor.index := by
      cases cursors <;> rfl
    have after : step ⟨storage, .readers cursors⟩ (.leak position) =
        ⟨storage, .readers (cursors.eraseIdx position)⟩ := by
      cases cursors <;> rfl
    rw [leaks, after]
    refine counted.steady rfl ?_
    cases found : cursors[position]? with
    | none =>
      rw [List.eraseIdx_of_length_le (List.getElem?_eq_none_iff.mp found)]
      simp
    | some cursor =>
      have parts := (perm_eraseIdx found).map fun cursor => Use.reading cursor.index
      simp only [Holding.uses, Option.toList_some, List.map_cons, List.map_nil]
      rw [← List.append_assoc]
      exact (List.perm_append_singleton _ _).trans (parts.append_right lost).symm
  | _ => cases cursors <;> exact same

/-- A request to an inserter keeps the counts due. -/
theorem step_inserter {inserter : Storage.Inserter} (filling : storage.Filling inserter)
    (counted : Counted config lost ⟨storage, .inserter inserter⟩) (request : Request) :
    Counted config (lost ++ loses ⟨storage, .inserter inserter⟩ request)
      (step ⟨storage, .inserter inserter⟩ request) := by
  have same := counted.unlost
  cases request with
  | allocate =>
    exact same.perform_steady (Storage.account_blind.allocate inserter storage) (fun _ => rfl) rfl
  | fill edit =>
    obtain ⟨pending⟩ := inserter
    cases pending with
    | none => exact same
    | some key =>
      exact same.perform_steady (Storage.account_blind.editRecord key edit storage) (fun _ => rfl) rfl
  | drop =>
    exact perform_of_ensures (filling.close.and (inserter.close_account storage))
      (fun _ _ closes => same.closed closes.2 (.refl _)) fun _ _ failed => failed.1.elim
  | forget => exact counted.steady rfl (List.perm_append_singleton _ _)
  | _ => exact same

/-- A request to an edit cursor keeps the counts due. -/
theorem step_editor {own : Key} {member : Storage.Member α}
    {search : World.Search α member.index.dimensions}
    {place : Option (Partition.Address member.index.dimensions)} {current : Option Key}
    (visiting : storage.Visiting own member search place current)
    (counted : Counted config lost ⟨storage, .editor (member.cursor own search)⟩)
    (request : Request) :
    Counted config (lost ++ loses ⟨storage, .editor (member.cursor own search)⟩ request)
      (step ⟨storage, .editor (member.cursor own search)⟩ request) := by
  have same := counted.unlost
  have stays {after : Storage α} {cursor : Cursor α} (index : cursor.index = own)
      (account : after.account = storage.account) :
      Counted config (lost ++ []) ⟨after, .editor cursor⟩ := by
    refine same.steady account ?_
    simp only [Holding.uses, index]
    rfl
  have proceeds {key : Key} {records : Pool Bytes} {cursor : Cursor α} {after : Storage α}
      (went : storage.Proceeds own member search place key records cursor after)
      (account : after.account = storage.account) :
      Counted config (lost ++ []) ⟨after, .editor cursor⟩ := by
    obtain ⟨tree, queue, next, there, current, rfl, -⟩ := went
    exact stays rfl account
  cases request with
  | change edit =>
    exact same.perform_steady (Storage.account_blind.changeCurrent _ edit storage) (fun _ => rfl) rfl
  | leave =>
    cases current with
    | none =>
      exact perform_of_ensures visiting.advanceEdit_over (fun _ _ => False.elim)
        fun _ _ failed => stays rfl (congrArg _ failed.1)
    | some key =>
      exact perform_of_ensures (visiting.advanceEdit.and (Storage.account_blind.advanceEdit _ storage))
        (fun _ _ went => proceeds went.1 went.2) fun _ _ failed => failed.1.elim
  | erase =>
    cases current with
    | none =>
      exact perform_of_ensures visiting.eraseEdit_over (fun _ _ => False.elim)
        fun _ _ failed => stays rfl (congrArg _ failed.1)
    | some key =>
      exact perform_of_ensures (visiting.eraseEdit.and (Storage.account_blind.eraseEdit _ storage))
        (fun _ _ went => proceeds went.1 went.2) fun _ _ failed => failed.1.elim
  | drop =>
    exact perform_of_ensures (visiting.closeEdit.and (Storage.closeEdit_account _ storage))
      (fun _ _ closes => same.closed closes.2 (.refl _)) fun _ _ failed => failed.1.elim
  | forget => exact counted.steady rfl (List.perm_append_singleton _ _)
  | _ => exact same

end Counted

/-- Every request keeps the counts due. -/
theorem Counted.step {session : Session α} {config : Config} {lost : List Use}
    (sound : session.Sound) (counted : session.Counted config lost) (request : Request) :
    (session.step request).Counted config (lost ++ session.loses request) := by
  obtain ⟨storage, held⟩ := session
  cases held with
  | readers cursors => exact Counted.step_readers sound counted request
  | inserter inserter => exact Counted.step_inserter sound counted request
  | editor cursor =>
    obtain ⟨own, member, search, place, current, rfl, visiting⟩ := sound
    exact Counted.step_editor visiting counted request

/-- Every run keeps the counts due. -/
theorem Counted.run {session : Session α} {config : Config} {lost : List Use}
    (sound : session.Sound) (counted : session.Counted config lost) (requests : List Request) :
    (session.run requests).Counted config (lost ++ session.losses requests) := by
  induction requests generalizing session lost with
  | nil =>
    rw [losses, List.append_nil]
    exact counted
  | cons request rest ih =>
    have later := ih (sound.step request) (counted.step sound request)
    rw [List.append_assoc] at later
    exact later

end Session

/-! ## A writer that is never closed -/

namespace Storage

variable {storage : Storage α}

/-- An operation that is aborted and changes nothing but the journal. -/
def Aborts {β : Type} (storage : Storage α) (operation : StorageOp α β) : Prop :=
  ∃ fault after, operation storage = .error (.aborted fault) after ∧
    after = { storage with journal := after.journal }

/-- An operation that ensures to fail is aborted. -/
theorem Aborts.of_ensures {β : Type} {operation : StorageOp α β}
    (ensured : Ensures operation storage (fun _ _ => False) fun failure after =>
      after = { storage with journal := after.journal } ∧ ∃ fault, failure = .aborted fault) :
    storage.Aborts operation := by
  unfold Ensures at ensured
  cases ran : operation storage with
  | ok value after =>
    rw [ran] at ensured
    exact ensured.elim
  | error failure after =>
    rw [ran] at ensured
    obtain ⟨rest, fault, rfl⟩ := ensured
    exact ⟨fault, after, ran, rest⟩

/-- Whatever keeps a writer from opening aborts. -/
theorem Busy.aborted {failure : Failure} (busy : storage.Busy failure) :
    ∃ fault, failure = .aborted fault := by
  cases busy <;> exact ⟨_, rfl⟩

variable [Arithmetic α]

/-- A storage that aborts whatever would touch a record. -/
structure Shut (storage : Storage α) : Prop where
  /-- No lookup in an index succeeds. -/
  lookups : ∀ key index query, storage.index? key = some index →
    storage.Aborts (Storage.read key query) ∧ storage.Aborts (Storage.edit key query)
  /-- No record is inserted. -/
  inserts : storage.Aborts openInserter ∧
    ∀ bytes, bytes.length = storage.layout.size → storage.Aborts (insertRecord bytes)
  /-- No record that is there is modified. -/
  modifies : ∀ key edit, storage.records.contains key = true →
    storage.Aborts (modifyRecord key edit)
  /-- No record is deleted. -/
  deletes : ∀ key, storage.Aborts (deleteRecord key)
  /-- The records are not cleared. -/
  clears : storage.Aborts clear

/-- Only an index that is not there rejects a lookup. -/
theorem Astray.aborted {own : Key} {query : Query} {failure : Failure}
    (astray : storage.Astray own query failure) {index : Index α}
    (found : storage.index? own = some index) : ∃ fault, failure = .aborted fault := by
  cases astray with
  | unknown absent =>
    rw [index?, absent] at found
    cases found
  | refused => exact ⟨_, rfl⟩

/-- An open writer shuts a storage. -/
theorem Shut.of_writing (writing : storage.writers ≠ 0) : storage.Shut := by
  have rests (idle : storage.writers = 0) : storage.InStep := absurd idle writing
  have opens : storage.Aborts openInserter :=
    .of_ensures ((openInserter_spec rests).imp (fun _ _ opened => writing opened.2.1)
      fun _ _ failed => ⟨failed.1 ▸ rfl, failed.2.aborted⟩)
  refine ⟨fun key index query found => ⟨.of_ensures ?_, .of_ensures ?_⟩, ⟨opens, ?_⟩,
    fun key edit there => .of_ensures ?_, fun key => .of_ensures ?_, .of_ensures ?_⟩
  · refine (read_spec storage key query).imp (fun _ _ opened => writing opened.1) ?_
    exact fun _ _ failed => ⟨rest_of_failing failed.1, failed.2.elim (·.aborted found) fun busy => ⟨_, busy.2⟩⟩
  · refine (edit_spec rests key query).imp ?_ ?_
    · rintro _ _ ⟨_, _, _, _, -, -, -, -, -, -, -, unwritten⟩
      exact writing unwritten
    · exact fun _ _ failed => ⟨rest_of_failing failed.1, failed.2.elim (·.aborted found) (·.aborted)⟩
  · refine fun bytes sized => .of_ensures ((insertRecord_spec rests bytes).imp ?_ ?_)
    · exact fun _ _ inserted => writing inserted.2.2.1
    · exact fun _ _ failed => ⟨rest_of_failing failed.1, failed.2.elim (fun other => absurd sized other.1)
        (·.aborted)⟩
  · refine (modifyRecord_spec rests key edit).imp ?_ ?_
    · rintro _ _ (⟨-, absent, -⟩ | ⟨_, _, -, -, unwritten, -⟩)
      · rw [Pool.contains, absent] at there
        cases there
      · exact writing unwritten
    · rintro failure _ (⟨rfl, busy⟩ | ⟨_, _, _, -, unwritten, -⟩)
      · exact ⟨rfl, busy.aborted⟩
      · exact absurd unwritten writing
  · exact (deleteRecord_spec rests key).imp (fun _ _ deleted => writing deleted.1)
      fun _ _ failed => ⟨failed.1 ▸ rfl, _, failed.2.2⟩
  · exact (clear_spec rests).imp (fun _ _ cleared => writing cleared.1)
      fun _ _ failed => ⟨failed.1 ▸ rfl, _, failed.2.2⟩

/-- While a writer is open, no call changes a record. -/
theorem call_records (upkept : storage.Upkept) (writing : storage.writers ≠ 0) (call : Call) :
    Ensures call.run storage (fun _ after => after.records = storage.records)
      fun _ after => after.records = storage.records := by
  have rests (idle : storage.writers = 0) : storage.InStep := absurd idle writing
  have unchanged {failure : Failure} {after : Storage α} (same : after = storage.failing failure) :
      after.records = storage.records := by rw [same]
  cases call with
  | createIndex specs =>
    obtain ⟨views, keeps, -⟩ := upkept
    rw [Call.run, Action.ensures_discard]
    refine (keeps.createIndex specs).imp ?_ ?_
    · rintro _ _ ⟨_, _, -, -, -, rest, -⟩
      rw [rest]
    · rintro _ _ ⟨-, ⟨_, rest⟩, -⟩
      rw [rest]
  | dropIndex key =>
    refine (dropIndex_spec storage key).imp ?_ fun _ _ failed => unchanged failed.1
    rintro _ _ ⟨_, -, -, rest⟩
    rw [rest]
  | insert bytes =>
    rw [Call.run, Action.ensures_discard]
    exact (insertRecord_spec rests bytes).imp
      (fun _ _ inserted => absurd inserted.2.2.1 writing) fun _ _ failed => unchanged failed.1
  | modify key edit =>
    rw [Call.run, Action.ensures_discard]
    refine (modifyRecord_spec rests key edit).imp ?_ ?_
    · rintro _ _ (⟨-, -, rfl⟩ | ⟨_, _, -, -, unwritten, -⟩)
      · rfl
      · exact absurd unwritten writing
    · rintro _ _ (⟨rfl, -⟩ | ⟨_, _, _, -, unwritten, -⟩)
      · rfl
      · exact absurd unwritten writing
  | delete key =>
    rw [Call.run, Action.ensures_discard]
    exact (deleteRecord_spec rests key).imp (fun _ _ deleted => absurd deleted.1 writing)
      fun _ _ failed => failed.1 ▸ rfl
  | clear =>
    exact (clear_spec rests).imp (fun _ _ cleared => absurd cleared.1 writing)
      fun _ _ failed => failed.1 ▸ rfl

end Storage

namespace Session

open Storage (Account Use)

variable {session : Session α} {config : Config} {lost : List Use}

/-- When a writer is lost, nothing is held, and a writer is open. -/
theorem Counted.stuck (counted : session.Counted config lost)
    (shut : ∃ use ∈ lost, use.isWriter = true) :
    session.held = .readers [] ∧ session.storage.writers ≠ 0 := by
  have writers := counted.writers
  have readers := counted.readers
  have single := counted.single
  have apart := counted.apart
  have positive : 0 < lost.countP Use.isWriter := List.countP_pos_iff.mpr shut
  rw [List.countP_append] at writers readers
  obtain ⟨storage, held⟩ := session
  cases held with
  | readers cursors =>
    cases cursors with
    | nil => exact ⟨rfl, by simp only at writers ⊢; omega⟩
    | cons cursor rest =>
      simp only [Holding.uses, List.map_cons, List.countP_cons, Use.isReader, if_true]
        at readers apart writers
      omega
  | inserter inserter =>
    simp only [Holding.uses, List.countP_cons, List.countP_nil] at writers single
    have writes : Use.inserting.isWriter = true := rfl
    rw [if_pos writes] at writers
    omega
  | editor cursor =>
    simp only [Holding.uses, List.countP_cons, List.countP_nil] at writers single
    have writes : (Use.editing cursor.index).isWriter = true := rfl
    rw [if_pos writes] at writers
    omega

/-- An operation that keeps the records keeps those of the session. -/
theorem perform_records {β : Type} {storage : Storage α} {operation : StorageOp α β}
    {done : β → Holding α} {failed : Holding α}
    (keeps : Ensures operation storage (fun _ after => after.records = storage.records)
      fun _ after => after.records = storage.records) :
    (perform storage operation done failed).storage.records = storage.records := by
  unfold Ensures at keeps
  unfold perform
  split <;> rename_i ran <;> rw [ran] at keeps <;> exact keeps

variable [Arithmetic α]

/-- When a writer is lost, no request changes a record. -/
theorem Counted.stuck_step (counted : session.Counted config lost) (sound : session.Sound)
    (shut : ∃ use ∈ lost, use.isWriter = true) (request : Request) :
    (session.step request).storage.records = session.storage.records := by
  obtain ⟨held, writing⟩ := counted.stuck shut
  obtain ⟨storage, _⟩ := session
  subst held
  have resting : storage.Resting := sound
  cases request with
  | call call => exact perform_records (Storage.call_records resting.upkept writing call)
  | openInserter =>
    exact perform_records ((Storage.openInserter_spec resting.inStep).imp
      (fun _ _ opened => absurd opened.2.1 writing) fun _ _ failed => failed.1 ▸ rfl)
  | edit index query =>
    refine perform_records ((Storage.edit_spec resting.inStep index query).imp ?_ ?_)
    · rintro _ _ ⟨_, _, _, _, -, -, -, -, -, -, -, unwritten⟩
      exact absurd unwritten writing
    · rintro _ _ ⟨rest, -⟩
      rw [rest]
  | read index query =>
    refine perform_records ((Storage.read_spec storage index query).imp
      (fun _ _ opened => absurd opened.1 writing) ?_)
    rintro _ _ ⟨rest, -⟩
    rw [rest]
  | _ => rfl

/-- When a writer is lost, no run changes a record. -/
theorem Counted.stuck_run (counted : session.Counted config lost) (sound : session.Sound)
    (shut : ∃ use ∈ lost, use.isWriter = true) (requests : List Request) :
    (session.run requests).storage.records = session.storage.records := by
  induction requests generalizing session lost with
  | nil => rfl
  | cons request rest ih =>
    obtain ⟨use, lossy, writes⟩ := shut
    have later := ih (counted.step sound request) (sound.step request)
      ⟨use, List.mem_append_left _ lossy, writes⟩
    exact later.trans (counted.stuck_step sound ⟨use, lossy, writes⟩ request)

/-! ## The protocol -/

/-- The rules of readers and writers, in a session with the uses that are lost. -/
structure Protocol (lost : List Use) (session : Session α) : Prop where
  /-- The readers are the read cursors that are held or leaked. -/
  readers : session.storage.readers = (session.held.uses ++ lost).countP Use.isReader
  /-- The writers are the inserters and edit cursors that are held or leaked, and the modifications
  whose edit was aborted. -/
  writers : session.storage.writers = (session.held.uses ++ lost).countP Use.isWriter
  /-- There is one writer at most. -/
  single : session.storage.writers ≤ 1
  /-- Readers and writers exclude each other. -/
  apart : session.storage.readers = 0 ∨ session.storage.writers = 0
  /-- While the edit of a modification runs, it is the only writer, and there are no readers. -/
  edits : ∀ key opened, session.storage.underEdit? key = some opened →
    (∀ edit, Storage.modifyRecord key edit session.storage = (do
      Storage.editRecord key edit
      discard (Storage.endEdition key none)
      Storage.closeWriter
      return true) opened) ∧
    session.storage.writers = 0 ∧ opened.writers = 1 ∧ opened.readers = 0
  /-- Every index counts the cursors over it that are held or leaked. -/
  cursors : ∀ key index, session.storage.index? key = some index →
    index.cursors = (session.held.uses ++ lost).countP (Use.concerns key)
  /-- The index of every cursor that is held or leaked is there. -/
  present : ∀ use ∈ session.held.uses ++ lost, ∀ key, use.concerns key = true →
    (session.storage.index? key).isSome = true
  /-- An index is dropped when it is there without cursors, and only then. -/
  drops : ∀ key, (∃ after, Storage.dropIndex key session.storage = .ok () after) ↔
    ∃ index, session.storage.index? key = some index ∧ index.cursors = 0
  /-- A read cursor is held only of a storage without a writer, whose indices show the records as
  they are. -/
  reads : (∃ use ∈ session.held.uses, use.isReader = true) →
    session.storage.writers = 0 ∧ session.storage.InStep
  /-- A read cursor opens only then. -/
  opens : ∀ key query cursor after,
    Storage.read key query session.storage = .ok cursor after →
      session.storage.writers = 0 ∧ session.storage.InStep
  /-- Once a writer is lost, nothing is held any more, the storage aborts whatever would touch a
  record, and the records stay. -/
  stuck : (∃ use ∈ lost, use.isWriter = true) → ∀ further,
    (session.run further).held = .readers [] ∧ (session.run further).storage.Shut ∧
      (session.run further).storage.records = session.storage.records

/-- Every session obeys the rules of readers and writers. -/
theorem Counted.protocol (counted : session.Counted config lost) (sound : session.Sound) :
    session.Protocol lost := by
  refine ⟨counted.readers, counted.writers, counted.single, counted.apart, ?_, ?_, ?_, ?_, ?_, ?_,
    ?_⟩
  · intro key opened edits
    obtain ⟨bytes, -, ⟨unread, unwritten⟩, rfl⟩ := Storage.underEdit?_eq_some_iff.mp edits
    exact ⟨Storage.modifyRecord_run edits, unwritten, rfl, unread⟩
  · intro key index found
    obtain ⟨member, there, rfl⟩ := Option.map_eq_some_iff.mp found
    rw [← counted.cursors key, Storage.users_eq there]
  · intro use member key concerns
    have used : 0 < session.storage.users key := by
      rw [counted.cursors key]
      exact List.countP_pos_iff.mpr ⟨use, member, concerns⟩
    obtain ⟨member, there, -⟩ := Storage.exists_of_used used
    rw [Storage.index?, there]
    rfl
  · intro key
    have drops := session.storage.dropIndex_spec key
    unfold Ensures at drops
    constructor
    · rintro ⟨after, dropped⟩
      rw [dropped] at drops
      obtain ⟨member, there, unused, -⟩ := drops
      exact ⟨member.index, Option.map_eq_some_iff.mpr ⟨member, there, rfl⟩, unused⟩
    · rintro ⟨index, found, unused⟩
      obtain ⟨member, there, rfl⟩ := Option.map_eq_some_iff.mp found
      cases ran : Storage.dropIndex key session.storage with
      | ok _ after => exact ⟨after, rfl⟩
      | error failure after =>
        rw [ran] at drops
        cases drops.2 with
        | unknown absent =>
          rw [there] at absent
          cases absent
        | used other used =>
          obtain rfl := Option.some.inj (there.symm.trans other)
          exact absurd unused used
  · rintro ⟨use, held, reads⟩
    have reading : 0 < session.storage.readers := by
      rw [counted.readers]
      exact List.countP_pos_iff.mpr ⟨use, List.mem_append_left _ held, reads⟩
    have idle := counted.apart.resolve_left (Nat.ne_of_gt reading)
    exact ⟨idle, sound.inStep idle⟩
  · intro key query cursor after opens
    have ensured := Storage.read_spec session.storage key query
    unfold Ensures at ensured
    rw [opens] at ensured
    exact ⟨ensured.1, sound.inStep ensured.1⟩
  · rintro ⟨use, lossy, writes⟩ further
    have later := (counted.run sound further).stuck ⟨use, List.mem_append_left _ lossy, writes⟩
    exact ⟨later.1, .of_writing later.2, counted.stuck_run sound ⟨use, lossy, writes⟩ further⟩

/-- After every run of every storage, what is counted is what is held or was never closed, and
readers and writers keep to their rules. -/
theorem protocol_of_run {spec : Record.LayoutSpec} {layout : Layout}
    (computed : Layout.ofSpec spec = .ok layout) (config : Config) (journal : Journal)
    (requests : List Request) :
    ((start layout config journal : Session α).run requests).Protocol
      ((start layout config journal : Session α).losses requests) := by
  have sound : (start layout config journal : Session α).Sound :=
    start_sound computed config journal
  have counted := (start_counted layout config journal).run sound requests
  exact counted.protocol (sound.run requests)

namespace Sample

/-- A read cursor is copied, and the first of the two is leaked. -/
def leaks : List Request :=
  [.call (.createIndex [line]), .call (.insert [1, 1]), .read ⟨1, 0⟩ (between 0 3), .copy 0,
    .leak 1]

/-- The edit of a modification is aborted, and then a lookup and a deletion are tried. -/
def breaks : List Request :=
  [.call (.createIndex [line]), .call (.insert [1, 1]),
    .call (.modify ⟨1, 0⟩ (throw .outsideRecord)), .read ⟨1, 0⟩ (between 0 3),
    .call (.delete ⟨1, 0⟩)]

/-- A new storage. -/
def fresh : Session Float := start layout .standard journal

end Sample

/-- A leaked cursor stays counted beside the one that is held, and a modification that breaks off
is a writer for good. -/
theorem protocol_after_losses :
    ((Sample.fresh.run Sample.leaks).Protocol [.reading ⟨1, 0⟩] ∧
      (Sample.fresh.run Sample.leaks).storage.readers = 2) ∧
    (Sample.fresh.run Sample.breaks).Protocol [.modifying] ∧
      (Sample.fresh.run Sample.breaks).storage.writers = 1 := by
  have leaked : Sample.fresh.losses Sample.leaks = [.reading ⟨1, 0⟩] := by decide +kernel
  have broken : Sample.fresh.losses Sample.breaks = [.modifying] := by decide +kernel
  unfold Sample.fresh at leaked broken ⊢
  rw [← leaked, ← broken]
  exact ⟨⟨protocol_of_run Sample.layout_computed .standard Sample.journal Sample.leaks,
      by decide +kernel⟩,
    protocol_of_run Sample.layout_computed .standard Sample.journal Sample.breaks,
    by decide +kernel⟩

end Session

end SpatialIndex
