import SpatialIndex.Storage.Basic

/-!
# The engine

What all storages share: the threshold of the journal, where entries go, and the settings of
storages that are created without any. Layouts, settings and storages are made here, since their
rejections are reported.
-/
namespace SpatialIndex

open Record (Layout LayoutSpec)

/-- Where entries go. -/
inductive Sink
  /-- They are printed. -/
  | console
  /-- They are kept for the caller. -/
  | capture
deriving DecidableEq, Repr

/-- The shared state. -/
structure Engine where
  /-- The entries that were not collected yet, and the threshold. -/
  journal : Journal
  /-- Where entries go. -/
  sink : Sink
  /-- The settings of new storages. -/
  config : Config

namespace Engine

/-- An operation on the engine, which can be rejected or aborted. -/
abbrev Op := EStateM Failure Engine

/-- The engine at the start. -/
def initial : Engine := ⟨Journal.empty, .console, Config.standard⟩

/-- Set the least severity that is kept. -/
def setThreshold (severity : Severity) (engine : Engine) : Engine :=
  { engine with journal := { engine.journal with threshold := severity } }

/-- Report an entry. -/
def report (entry : Entry) (engine : Engine) : Engine :=
  { engine with journal := engine.journal.add entry }

/-- Report a rejection of a part of the library and fail with it. -/
def reject {α : Type} (source : String) (rejection : Rejection) : Op α := do
  modify (report ⟨.error, source, rejection.message, some .library⟩)
  throw (.rejected rejection)

/-- Check settings. -/
def accept (config : Config) : Op Unit :=
  match config.check with
  | .error rejection => reject rejection.source rejection
  | .ok () => pure ()

/-- Set the settings of new storages, when they are accepted. -/
def setConfig (config : Config) : Op Unit := do
  accept config
  modify fun engine => { engine with config }
  modify (report ⟨.debug, "volumetric::Engine",
    "Default configuration replaced: " ++ config.text, none⟩)

/-- Compute a layout. -/
def arrange (spec : LayoutSpec) : Op Layout :=
  match Layout.ofSpec spec with
  | .ok layout => pure layout
  | .error (.rejected rejection) => reject rejection.source rejection
  | .error failure => throw failure

/-- Create a storage for a layout, with settings of its own or the shared ones. -/
def openStorage {α : Type} (layout : Layout) (config : Option Config) : Op (Storage α) := do
  if let some config := config then accept config
  let engine ← get
  return Storage.create layout (config.getD engine.config) engine.journal

/-- Return to the standard settings. -/
def resetConfig (engine : Engine) : Engine := { engine with config := Config.standard }

/-- Collect the entries. -/
def collect (engine : Engine) : Array Entry × Engine :=
  (engine.journal.entries, { engine with journal := { engine.journal with entries := #[] } })

end Engine

end SpatialIndex
