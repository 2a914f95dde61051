import SpatialIndex.Proofs.Storage.Course
import SpatialIndex.Proofs.Storage.Frame

/-!
# Counting readers, writers and cursors

The account of a storage is its settings with its open readers and writers and the cursors over
every index. What changes records and trees leaves it alone, whatever happens; it changes where
readers, writers and cursors open and close, and nowhere else.
-/
open SpatialIndex.Action (Ensures)

namespace SpatialIndex

open Record (Bytes Edit)

namespace Storage

/-- A use of a storage that it counts while it lasts. -/
inductive Use
  /-- A read cursor over an index. -/
  | reading (index : Key)
  /-- An inserter. -/
  | inserting
  /-- An edit cursor over an index. -/
  | editing (index : Key)
  /-- The modification of a record. -/
  | modifying
deriving DecidableEq, Repr

namespace Use

/-- Whether a use is a reader. -/
def isReader : Use → Bool
  | reading _ => true
  | inserting | editing _ | modifying => false

/-- Whether a use is a writer. -/
def isWriter (use : Use) : Bool := !use.isReader

/-- Whether a use is a cursor over an index. -/
def concerns (key : Key) : Use → Bool
  | reading index | editing index => index == key
  | inserting | modifying => false

end Use

/-- The settings and the counts of a storage. -/
@[ext] structure Account where
  /-- The settings of new indices. -/
  config : Config
  /-- The open readers. -/
  readers : Nat
  /-- The open writers. -/
  writers : Nat
  /-- The cursors over every index. -/
  cursors : Key → Nat

namespace Account

/-- The account of a storage with the given settings and uses. -/
def of (config : Config) (uses : List Use) : Account where
  config
  readers := uses.countP Use.isReader
  writers := uses.countP Use.isWriter
  cursors key := uses.countP (Use.concerns key)

/-- The counts do not depend on the order. -/
theorem of_perm {config : Config} {uses others : List Use} (same : uses.Perm others) :
    of config uses = of config others :=
  Account.ext rfl (same.countP_eq _) (same.countP_eq _) (funext fun _ => same.countP_eq _)

/-- The counts with a use more. -/
def opened (account : Account) : Use → Account
  | .reading index => { account with
      readers := account.readers + 1
      cursors := Function.update account.cursors index (account.cursors index + 1) }
  | .editing index => { account with
      writers := account.writers + 1
      cursors := Function.update account.cursors index (account.cursors index + 1) }
  | .inserting | .modifying => { account with writers := account.writers + 1 }

/-- The counts with a use less. -/
def closed (account : Account) : Use → Account
  | .reading index => { account with
      readers := account.readers - 1
      cursors := Function.update account.cursors index (account.cursors index - 1) }
  | .editing index => { account with
      writers := account.writers - 1
      cursors := Function.update account.cursors index (account.cursors index - 1) }
  | .inserting | .modifying => { account with writers := account.writers - 1 }

/-- Counting one more use opens it. -/
theorem of_cons (config : Config) (use : Use) (uses : List Use) :
    of config (use :: uses) = (of config uses).opened use := by
  have cursors (index : Key) :
      (fun key => (of config uses).cursors key + if index = key then 1 else 0) =
        Function.update (of config uses).cursors index ((of config uses).cursors index + 1) := by
    funext key
    by_cases same : index = key
    · subst same
      simp
    · rw [Function.update_of_ne (Ne.symm same), if_neg same, Nat.add_zero]
  cases use <;>
    simp [of, opened, List.countP_cons, Use.isReader, Use.isWriter, Use.concerns] <;>
    exact cursors _

/-- A use that begins and ends leaves no trace. -/
theorem closed_opened (account : Account) (use : Use) :
    (account.opened use).closed use = account := by
  cases use <;> simp [opened, closed]

end Account

variable {α : Type}

/-- The cursors over an index; there are none where there is no index. -/
def users (storage : Storage α) (key : Key) : Nat :=
  ((storage.indices.get? key).map fun member => member.index.cursors).getD 0

/-- The cursors over an index are those that it counts. -/
theorem users_eq {storage : Storage α} {key : Key} {member : Member α}
    (found : storage.indices.get? key = some member) :
    storage.users key = member.index.cursors := by
  rw [users, found]
  rfl

/-- There are no cursors where there is no index. -/
theorem users_absent {storage : Storage α} {key : Key}
    (absent : storage.indices.get? key = none) : storage.users key = 0 := by
  rw [users, absent]
  rfl

/-- An index that cursors use is there. -/
theorem exists_of_used {storage : Storage α} {key : Key} (used : 0 < storage.users key) :
    ∃ member, storage.indices.get? key = some member ∧ 0 < member.index.cursors := by
  cases found : storage.indices.get? key with
  | none => exact absurd (users_absent found) (Nat.ne_of_gt used)
  | some member => exact ⟨member, rfl, users_eq found ▸ used⟩

/-- The settings and the counts. -/
def account (storage : Storage α) : Account :=
  ⟨storage.config, storage.readers, storage.writers, storage.users⟩

/-- The counts depend on the readers, the writers and the indices alone. -/
theorem account_congr {storage other : Storage α} (config : other.config = storage.config)
    (readers : other.readers = storage.readers) (writers : other.writers = storage.writers)
    (indices : other.indices = storage.indices) : other.account = storage.account := by
  unfold account users
  rw [config, readers, writers, indices]

/-- Only the cursors of one index change when it is exchanged. -/
theorem users_set {storage after : Storage α} {key : Key} {member changed : Member α}
    (found : storage.indices.get? key = some member)
    (indices : after.indices = storage.indices.set key changed) :
    after.users = Function.update storage.users key changed.index.cursors := by
  funext other
  by_cases same : other = key
  · subst same
    rw [Function.update_self]
    exact users_eq (indices ▸ Pool.get?_set_self changed found)
  · rw [Function.update_of_ne same, users, users, indices, Pool.get?_set_ne _ _ same]

/-- The account sees the cursors of an index and nothing else of it. -/
theorem account_blind : Blind (account : Storage α → Account) fun index => index.cursors := by
  refine ⟨fun _ _ => rfl, fun _ _ => rfl, fun _ _ => rfl, ⟨fun _ _ _ => rfl, fun _ _ => rfl⟩, ?_⟩
  intro storage key member index found kept
  let after : Storage α :=
    { storage with indices := storage.indices.set key { member with index } }
  have indices : after.indices = storage.indices.set key { member with index } := rfl
  have cursors := users_set found indices
  have unchanged : Function.update storage.users key index.cursors = storage.users := by
    rw [kept, ← users_eq found, Function.update_eq_self]
  exact Account.ext rfl rfl rfl (cursors.trans unchanged)

/-! ## Operations that open and close -/

section Counts

variable {storage : Storage α} {key : Key} {member : Member α}

/-- The storage with other counts of readers and of cursors over an index. -/
def recount (storage : Storage α) (key : Key) (member : Member α) (readers cursors : Nat) :
    Storage α :=
  { storage with readers, indices := storage.indices.set key (member.usedBy cursors) }

/-- One more cursor, or one less, is counted over the index that it uses. -/
theorem account_usedBy {after : Storage α} (found : storage.indices.get? key = some member)
    (cursors : Nat) (indices : after.indices = storage.indices.set key (member.usedBy cursors)) :
    after.account =
      ⟨after.config, after.readers, after.writers, Function.update storage.users key cursors⟩ :=
  Account.ext rfl rfl rfl (users_set found indices)

/-- A read cursor that opens is counted. -/
theorem account_recount_succ (found : storage.indices.get? key = some member) :
    (storage.recount key member (storage.readers + 1) (member.index.cursors + 1)).account =
      storage.account.opened (.reading key) := by
  rw [account_usedBy found (member.index.cursors + 1) rfl, ← users_eq found]
  rfl

/-- A read cursor that closes is no longer counted. -/
theorem account_recount_pred (found : storage.indices.get? key = some member) :
    (storage.recount key member (storage.readers - 1) (member.index.cursors - 1)).account =
      storage.account.closed (.reading key) := by
  rw [account_usedBy found (member.index.cursors - 1) rfl, ← users_eq found]
  rfl

/-- A writer that opens is counted. -/
theorem account_writing (unwritten : storage.writers = 0) :
    account { storage with writers := 1 } = storage.account.opened .inserting := by
  have writers : 1 = storage.writers + 1 := by rw [unwritten]
  exact Account.ext rfl rfl writers rfl

/-- A read cursor opens over an index that is there when no writer is open. -/
theorem openRead_opens {cursor : Cursor α} (found : storage.indices.get? cursor.index = some member)
    (idle : storage.writers = 0) :
    Ensures (openRead cursor) storage
      (fun _ after => after = storage.recount cursor.index member (storage.readers + 1)
        (member.index.cursors + 1))
      fun _ _ => False := by
  rw [openRead, Action.ensures_bind]
  refine (openReader_spec storage).imp ?_ fun _ _ failed => failed.2.1 idle
  rintro - _ ⟨-, rfl⟩
  let opened : Storage α := { storage with readers := storage.readers + 1 }
  refine (openCursor_spec (show opened.indices.get? cursor.index = _ from found)).ends ?_
  rintro - _ rfl
  rfl

/-- A read cursor that is counted closes. -/
theorem closeRead_closes {cursor : Cursor α}
    (found : storage.indices.get? cursor.index = some member) (used : 0 < member.index.cursors)
    (reading : 0 < storage.readers) :
    Ensures (closeRead cursor) storage
      (fun _ after => after = storage.recount cursor.index member (storage.readers - 1)
        (member.index.cursors - 1))
      fun _ _ => False := by
  rw [closeRead, Action.ensures_bind]
  refine (closeCursor_spec found used).ends ?_
  rintro - _ rfl
  refine (closeReader_spec _).imp ?_ fun _ _ failed => absurd failed.2 (Nat.ne_of_gt reading)
  rintro - _ rfl
  rfl

/-- A dropped index had no cursors. -/
theorem dropIndex_account (storage : Storage α) (key : Key) :
    Ensures (dropIndex key) storage (fun _ after => after.account = storage.account)
      fun _ after => after.account = storage.account := by
  refine (dropIndex_spec storage key).imp ?_ ?_
  · rintro - after ⟨member, found, unused, rest⟩
    have indices : after.indices = storage.indices.remove key := by rw [rest]
    refine Account.ext (by rw [rest]; rfl) (by rw [rest]; rfl) (by rw [rest]; rfl) ?_
    funext other
    show after.users other = storage.users other
    rw [users, indices, Pool.get?_remove]
    by_cases same : other = key
    · rw [if_pos same, same, users_eq found, unused]
      rfl
    · rw [if_neg same, users]
  · rintro _ after ⟨rest, -⟩
    rw [rest]
    exact account_congr rfl rfl rfl rfl

/-- A closed cursor was counted over its index. -/
theorem closeCursor_account (storage : Storage α) (key : Key) :
    Ensures (closeCursor key) storage
      (fun _ after => after.account = { storage.account with
        cursors := Function.update storage.users key (storage.users key - 1) })
      fun _ _ => True := by
  cases found : storage.indices.get? key with
  | none =>
    unfold Ensures closeCursor onIndex
    rw [found]
    trivial
  | some member =>
    by_cases used : 0 < member.index.cursors
    · refine (closeCursor_spec found used).ends ?_
      rintro - _ rfl
      rw [account_usedBy found _ rfl, users_eq found]
      rfl
    · have unused : member.index.cursors = 0 := by omega
      simp only [closeCursor, ensures_onIndex found, Action.ensures_bind, Action.ensures_get,
        unused, if_true, Action.ensures_throw]

variable [Arithmetic α]

/-- A new index has no cursors. -/
theorem Keeps.createIndex_account {views : Key → Key → Option Bytes} (keeps : storage.Keeps views)
    (specs : List AxisSpec) :
    Ensures (Storage.createIndex specs) storage (fun _ after => after.account = storage.account)
      fun _ after => after.account = storage.account := by
  refine (keeps.createIndex specs).imp ?_ ?_
  · rintro key after ⟨member, registry, rfl, -, unused, rest, -⟩
    have indices : after.indices = (storage.indices.insert member).2 := by rw [rest]
    refine Account.ext (by rw [rest]; rfl) (by rw [rest]; rfl) (by rw [rest]; rfl) ?_
    funext other
    show after.users other = storage.users other
    rw [users, indices, Pool.get?_insert_eq_update keeps.indices]
    by_cases new : other = (storage.indices.insert member).1
    · rw [new, Function.update_self, users_absent (Pool.get?_insert_key keeps.indices member)]
      exact unused
    · rw [Function.update_of_ne new, users]
  · rintro - after ⟨-, ⟨registry, rest⟩, -⟩
    rw [rest]
    exact account_congr rfl rfl rfl rfl

/-- Closing a writer counts one less. -/
theorem closeWriter_account (storage : Storage α) :
    Ensures closeWriter storage (fun _ after => after.account = storage.account.closed .inserting)
      fun _ _ => True := by
  simp only [closeWriter, Action.ensures_bind, Action.ensures_get]
  split
  · trivial
  · rw [Action.ensures_bind, Action.ensures_set]
    refine (account_blind.onIndices (fun _ => account_blind.reading.settle _) _).imp ?_ fun _ _ _ => trivial
    exact fun _ _ kept => kept

/-- An inserter that closes counts one writer less. -/
theorem Inserter.close_account (inserter : Inserter) (storage : Storage α) :
    Ensures inserter.close storage
      (fun _ after => after.account = storage.account.closed .inserting) fun _ _ => True := by
  rw [Inserter.close, Action.ensures_bind]
  refine (account_blind.flush inserter storage).imp ?_ fun _ _ _ => trivial
  intro _ between kept
  rw [← kept]
  exact closeWriter_account between

/-- Inserting a record opens a writer and closes it. -/
theorem insertRecord_account (bytes : Bytes) (storage : Storage α) :
    Ensures (insertRecord bytes) storage (fun _ after => after.account = storage.account)
      fun _ _ => True := by
  simp only [insertRecord, Action.ensures_bind, Action.ensures_get]
  split
  · simp only [reject, Action.ensures_bind, Action.ensures_modify, Action.ensures_throw]
  · simp only [openInserter, Action.ensures_bind, Action.ensures_pure]
    refine (openWriter_spec storage).imp ?_ fun _ _ _ => trivial
    rintro - _ ⟨-, unwritten, rfl⟩
    refine (account_blind.allocate _ _).imp ?_ fun _ _ _ => trivial
    rintro ⟨key, inserter⟩ allocated handed
    refine ((account_blind.editRecord key _).after handed).imp ?_ fun _ _ _ => trivial
    intro _ filled kept
    refine (inserter.close_account filled).imp ?_ fun _ _ => id
    intro _ after closed
    rw [closed, kept, account_writing unwritten, Account.closed_opened]

/-- Changing a record opens a writer and closes it. -/
theorem modifyRecord_account (key : Key) (edit : Edit) (storage : Storage α) :
    Ensures (modifyRecord key edit) storage (fun _ after => after.account = storage.account)
      fun _ _ => True := by
  simp only [modifyRecord, Action.ensures_bind, Action.ensures_get]
  split
  · rfl
  · simp only [Action.ensures_bind, Action.ensures_pure]
    refine (openWriter_spec storage).imp ?_ fun _ _ _ => trivial
    rintro - _ ⟨-, unwritten, rfl⟩
    refine (account_blind.beginEdition key _).imp ?_ fun _ _ _ => trivial
    intro _ begun first
    refine ((account_blind.editRecord key edit).after first).imp ?_ fun _ _ _ => trivial
    intro _ edited second
    refine ((account_blind.endEdition key none).discard.after second).imp ?_ fun _ _ _ => trivial
    intro _ told third
    refine (closeWriter_account told).imp ?_ fun _ _ => id
    intro _ after closed
    rw [closed, third, account_writing unwritten, Account.closed_opened]

/-- An edit cursor that opens is the writer, and is counted over its index. -/
theorem edit_account (own : Key) (query : Query) (storage : Storage α) :
    Ensures (Storage.edit own query) storage
      (fun cursor after =>
        cursor.index = own ∧ after.account = storage.account.opened (.editing own))
      fun _ _ => True := by
  simp only [Storage.edit, Action.ensures_bind, Action.ensures_pure]
  refine (locate_spec storage own query).imp ?_ fun _ _ _ => trivial
  rintro _ storage ⟨rfl, member, search, ⟨found, -⟩, rfl⟩
  refine (openWriter_spec storage).imp ?_ fun _ _ _ => trivial
  rintro - _ ⟨-, unwritten, rfl⟩
  let opened : Storage α := { storage with writers := 1 }
  refine (openCursor_spec (show opened.indices.get? own = some member from found)).ends ?_
  rintro - _ rfl
  refine (account_blind.editCurrent _ _).imp ?_ fun _ _ _ => trivial
  intro _ after kept
  have writers : 1 = storage.writers + 1 := by rw [unwritten]
  rw [kept, account_usedBy found (member.index.cursors + 1) rfl]
  refine ⟨rfl, Account.ext rfl rfl writers ?_⟩
  rw [← users_eq found]
  rfl

/-- An edit cursor that closes counts one writer and one cursor less. -/
theorem closeEdit_account (cursor : Cursor α) (storage : Storage α) :
    Ensures (closeEdit cursor) storage
      (fun _ after => after.account = storage.account.closed (.editing cursor.index))
      fun _ _ => True := by
  have closes {last : Cursor α} {left : Storage α} (same : last.index = cursor.index)
      (kept : left.account = storage.account) :
      Ensures (do closeCursor last.index; closeWriter) left
        (fun _ after => after.account = storage.account.closed (.editing cursor.index))
        fun _ _ => True := by
    rw [Action.ensures_bind, ← kept, ← same]
    refine (closeCursor_account left last.index).imp ?_ fun _ _ => id
    intro _ between counted
    refine (closeWriter_account between).imp ?_ fun _ _ => id
    intro _ after closed
    rw [closed, counted]
    rfl
  simp only [closeEdit, Action.ensures_bind, Action.ensures_get]
  refine ensures_orAbort _ (fun current _ => ?_) fun _ _ => trivial
  cases current with
  | none => exact closes rfl rfl
  | some key =>
    rw [Action.ensures_bind]
    have leaves := (leaveCurrent_becomes storage cursor key false).and
      (account_blind.leaveCurrent cursor key false storage)
    exact leaves.imp (fun _ _ left => closes left.1.index left.2) fun _ _ _ => trivial

end Counts

end Storage

end SpatialIndex
