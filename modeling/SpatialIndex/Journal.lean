import SpatialIndex.Failure

/-!
# The journal

Every part of the library reports through a journal, which keeps the entries that reach its
threshold, in order.
-/
namespace SpatialIndex

/-- Importance of an entry, from most to least verbose. -/
inductive Severity
  /-- Traffic of single records. -/
  | trace
  /-- Traffic of sessions. -/
  | debug
  /-- Life cycle of indices. -/
  | info
  /-- Suspicious input that was accepted. -/
  | warn
  /-- Rejected operations. -/
  | error
deriving DecidableEq, Repr

namespace Severity

/-- Every severity, in ascending order. -/
def all : List Severity := [.trace, .debug, .info, .warn, .error]

/-- The place in the order. -/
def rank : Severity → Nat
  | trace => 0
  | debug => 1
  | info => 2
  | warn => 3
  | error => 4

/-- The name. -/
def name : Severity → String
  | trace => "Trace"
  | debug => "Debug"
  | info => "Info"
  | warn => "Warn"
  | error => "Error"

/-- The label of an entry, five characters wide. -/
def label : Severity → String
  | trace => "TRACE"
  | debug => "DEBUG"
  | info => "INFO "
  | warn => "WARN "
  | error => "ERROR"

end Severity

/-- Where an entry was written. -/
inductive Location
  /-- In this library, at the place that rejected an operation. -/
  | library
  /-- At a line of a file that the reporter named. -/
  | place (file : String) (line : Nat)
deriving DecidableEq, Repr

/-- One report. -/
structure Entry where
  /-- Its importance. -/
  severity : Severity
  /-- The part that reports. -/
  source : String
  /-- What is reported. -/
  message : String
  /-- Where it was written, when that is known. -/
  location : Option Location
deriving DecidableEq, Repr

/-- Entries in order, and the least severity that is kept. -/
structure Journal where
  /-- Entries below this severity are dropped. -/
  threshold : Severity
  /-- The entries kept, the oldest first. -/
  entries : Array Entry
deriving Repr

namespace Journal

/-- The journal without entries that keeps all of them. -/
def empty : Journal := ⟨.trace, #[]⟩

/-- Keep an entry that reaches the threshold. -/
def add (journal : Journal) (entry : Entry) : Journal :=
  if entry.severity.rank < journal.threshold.rank then journal
  else { journal with entries := journal.entries.push entry }

/-- Report a message without a location. -/
def report (journal : Journal) (severity : Severity) (source message : String) : Journal :=
  journal.add ⟨severity, source, message, none⟩

/-- Report a rejection, with the place of it. -/
def reject (journal : Journal) (rejection : Rejection) : Journal :=
  journal.add ⟨.error, rejection.source, rejection.message, some .library⟩

end Journal

end SpatialIndex
