import SpatialIndex.Proofs.Host

/-!
# Failures

A command that is rejected leaves all storages and the shared settings as they were and adds one
entry to the journal, whatever the threshold. A command that is aborted leaves everything as it was,
unless it ran an edit of the host and that edit failed.
-/
namespace SpatialIndex

variable {α : Type}

/-- What is reported of a rejection. -/
def Rejection.entry (rejection : Rejection) : Entry where
  severity := .error
  source := rejection.source
  message := rejection.message
  location := some .library

/-- The entries of a journal and one more. -/
def Journal.with (journal : Journal) (entry : Entry) : Journal :=
  { journal with entries := journal.entries.push entry }

/-- No threshold is above an error. -/
theorem Severity.rank_le_error (severity : Severity) : severity.rank ≤ error.rank := by
  cases severity <;> decide

/-- A rejection is reported once, whatever the threshold. -/
theorem Journal.reject_eq (journal : Journal) (rejection : Rejection) :
    journal.reject rejection = journal.with rejection.entry :=
  if_neg (Nat.not_lt.mpr journal.threshold.rank_le_error)

namespace Host

variable [Arithmetic α]

/-- Why a command fails, when it does. -/
def failure? (host : Host α) (command : Command) : Option Failure :=
  match command.run host with
  | .ok _ _ => none
  | .error failure _ => some failure

/-- A host in which failures leave everything intact. -/
structure Intact (host : Host α) : Prop where
  /-- After a rejection, there is one entry more, and nothing else has changed. -/
  rejects : ∀ (command : Command) rejection after,
    command.run host = .error (.rejected rejection) after → after = { host with engine := { host.engine with
      journal := host.engine.journal.with rejection.entry } }
  /-- After a command was aborted, nothing has changed, unless an edit of the host was aborted. -/
  aborts : ∀ (command : Command) fault after, command.run host = .error (.aborted fault) after →
    after = host ∨ host.BreaksOff command fault

variable {host : Host α} {rounding : Rounding α}

/-- In a sound host, failures leave everything intact. -/
theorem Sound.intact (sound : host.Sound) (faithful : Faithful rounding) : host.Intact := by
  have fails {command : Command} {failure : Failure} {after : Host α}
      (ran : command.run host = .error failure after) : host.Fails command failure after := by
    have safely := sound.command faithful command
    unfold Safely Action.Ensures at safely
    rw [ran] at safely
    exact safely.2
  refine ⟨fun command rejection after ran => ?_, fun command fault after ran => ?_⟩
  · obtain same | ⟨fault, other, -⟩ := fails ran
    · rw [same, ← Journal.reject_eq]
      rfl
    · cases other
  · obtain same | ⟨broken, same, breaks⟩ := fails ran
    · exact .inl same
    · cases same
      exact .inr breaks

end Host

end SpatialIndex
