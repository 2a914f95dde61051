import SpatialIndex.Engine
import SpatialIndex.Proofs.Creation

/-!
# Hosts

A host is a program that uses the library: the engine, and any number of storages with what is held
of each. A storage borrows the journal of the engine while it works. Whatever a host does, the
settings of its storages and the shared ones are accepted ones, and a command that fails changes
nothing, but for the report of its rejection, unless it fails in an edit of the host itself.
-/
open SpatialIndex.Action (Ensures)

namespace SpatialIndex

open Record (Layout LayoutSpec)
open Storage (FailsOnly Use)

variable {α : Type}

/-- The session with another journal. -/
def Session.withJournal (session : Session α) (journal : Journal) : Session α :=
  { session with storage := { session.storage with journal } }

/-- A program that uses the library. Its storages leave their journals empty between commands. -/
structure Host (α : Type) where
  /-- What all storages share. -/
  engine : Engine
  /-- The storages, with what is held of them. -/
  sessions : List (Session α)

namespace Host

/-- What a host can do. -/
inductive Command
  /-- Set the least severity that is kept. -/
  | setThreshold (severity : Severity)
  /-- Direct entries to a sink. -/
  | direct (sink : Sink)
  /-- Report an entry. -/
  | report (entry : Entry)
  /-- Collect the entries. -/
  | collect
  /-- Check settings. -/
  | accept (config : Config)
  /-- Set the shared settings. -/
  | setConfig (config : Config)
  /-- Return to the standard settings. -/
  | resetConfig
  /-- Compute a layout. -/
  | arrange (spec : LayoutSpec)
  /-- Open a storage, with settings of its own or the shared ones. -/
  | openStorage (spec : LayoutSpec) (config : Option Config)
  /-- Give up a storage. -/
  | dropStorage (position : Nat)
  /-- Request something of a storage. -/
  | use (position : Nat) (request : Request)

/-- An operation of a host, which can be rejected or aborted. -/
abbrev Op (α β : Type) := EStateM Failure (Host α) β

/-- The host after a storage worked with the journal of the engine. -/
def settle (host : Host α) (position : Nat) (session : Session α) : Host α where
  engine := { host.engine with journal := session.storage.journal }
  sessions := host.sessions.set position (session.withJournal .empty)

/-- The storages, with the journal with which they work. -/
def storages (host : Host α) : List (Storage α) :=
  host.sessions.map fun session => (session.withJournal host.engine.journal).storage

/-- Run an operation of the engine. -/
def onEngine {β : Type} (operation : Engine.Op β) : Op α β :=
  Action.onPart Host.engine (fun engine host => { host with engine }) operation

variable [Arithmetic α]

/-- Request something of a storage. -/
def use (position : Nat) (request : Request) : Op α Unit := fun host =>
  match host.sessions[position]? with
  | none => .ok () host
  | some session =>
    let working := session.withJournal host.engine.journal
    match working.operation request working.storage with
    | .ok held storage => .ok () (host.settle position ⟨storage, held⟩)
    | .error failure storage =>
      .error failure (host.settle position ⟨storage, working.remainder request⟩)

/-- The operation of a command. -/
def Command.run : Command → Op α Unit
  | setThreshold severity =>
    modify fun host => { host with engine := host.engine.setThreshold severity }
  | direct sink => modify fun host => { host with engine := { host.engine with sink } }
  | report entry => modify fun host => { host with engine := host.engine.report entry }
  | collect => modify fun host => { host with engine := host.engine.collect.2 }
  | accept config => onEngine (Engine.accept config)
  | setConfig config => onEngine (Engine.setConfig config)
  | resetConfig => modify fun host => { host with engine := host.engine.resetConfig }
  | arrange spec => discard (onEngine (Engine.arrange spec))
  | openStorage spec config => do
    let layout ← onEngine (Engine.arrange spec)
    let storage ← onEngine (Engine.openStorage layout config)
    let session : Session α := ⟨storage, .readers []⟩
    modify fun host => { host with sessions := host.sessions ++ [session.withJournal .empty] }
  | dropStorage position =>
    modify fun host => { host with sessions := host.sessions.eraseIdx position }
  | use position request => Host.use position request

/-- The host after a command, whatever becomes of it. -/
def step (host : Host α) (command : Command) : Host α :=
  match command.run host with
  | .ok _ after | .error _ after => after

/-- The host after commands in their order. -/
def run (host : Host α) (commands : List Command) : Host α := commands.foldl step host

/-- The host at the start. -/
def initial : Host α := ⟨Engine.initial, []⟩

end Host

/-! ## The journal does not matter -/

namespace Session

variable {session : Session α} {config : Config} {lost : List Use} [Arithmetic α]

/-- A session is sound with any journal. -/
theorem Sound.withJournal (sound : session.Sound) (journal : Journal) :
    (session.withJournal journal).Sound := by
  obtain ⟨storage, held⟩ := session
  cases held with
  | readers cursors => exact Storage.Resting.withJournal sound journal
  | inserter inserter =>
    have filling : storage.Filling inserter := sound
    exact ⟨filling.keeps.congr rfl rfl rfl rfl, filling.calm, filling.writers, filling.live⟩
  | editor cursor =>
    obtain ⟨own, member, search, place, current, same, visiting⟩ := sound
    have editing := visiting.editing
    exact ⟨own, member, search, place, current, same,
      ⟨editing.keeps.congr rfl rfl rfl rfl, editing.writers, editing.calm, editing.found,
        editing.cursors, editing.live⟩, visiting.faces, visiting.present⟩

/-- What a run keeps of a session it keeps with any journal. -/
theorem Kept.withJournal (kept : session.Kept config lost) (journal : Journal) :
    (session.withJournal journal).Kept config lost := by
  refine ⟨kept.sound.withJournal journal, ⟨?_, kept.counted.apart, kept.counted.single⟩, ?_⟩
  · exact Eq.trans (Storage.account_congr rfl rfl rfl rfl) kept.counted.account
  · obtain ⟨storage, held⟩ := session
    have placed := kept.placed
    unfold Placing at placed ⊢
    cases held with
    | readers cursors => exact placed
    | inserter inserter => trivial
    | editor cursor => exact placed

/-- A session with accepted settings, in which everything is kept and nothing is left in the
journal. -/
def Ready (session : Session α) : Prop :=
  ∃ config lost, session.Kept config lost ∧ config.check = .ok () ∧ session.storage.Balanced ∧
    session.storage.journal = .empty

end Session

/-! ## Operations of the engine -/

namespace Engine

variable {engine : Engine}

/-- The engine after an operation failed before it changed anything. -/
abbrev failing (engine : Engine) (failure : Failure) : Engine :=
  { engine with journal := engine.journal.failing failure }

/-- Settings are accepted, or rejected with a report. -/
theorem accept_spec (engine : Engine) (config : Config) :
    Ensures (accept config) engine
      (fun _ after => after = engine ∧ config.check = .ok ())
      fun failure after => after = engine.failing failure := by
  unfold accept
  cases checked : config.check with
  | error rejection => rfl
  | ok _ => exact ⟨rfl, rfl⟩

/-- The shared settings are replaced by accepted ones, or nothing changes. -/
theorem setConfig_spec (engine : Engine) (config : Config) :
    Ensures (setConfig config) engine
      (fun _ after => after.config.check = .ok ())
      fun failure after => after = engine.failing failure := by
  unfold setConfig
  rw [Action.ensures_bind]
  refine (accept_spec engine config).imp ?_ fun _ _ => id
  rintro - _ ⟨rfl, accepted⟩
  exact accepted

/-- A layout is computed, or nothing changes. -/
theorem arrange_spec (engine : Engine) (spec : LayoutSpec) :
    Ensures (arrange spec) engine
      (fun layout after => after = engine ∧ Layout.ofSpec spec = .ok layout)
      fun failure after => after = engine.failing failure := by
  unfold arrange
  cases computed : Layout.ofSpec spec with
  | error failure => cases failure <;> rfl
  | ok layout => exact ⟨rfl, rfl⟩

/-- A storage is opened with accepted settings, or nothing changes. -/
theorem openStorage_spec (shared : engine.config.check = .ok ()) (layout : Layout)
    (own : Option Config) :
    Ensures (openStorage layout own : Op (Storage α)) engine
      (fun storage after => after = engine ∧ ∃ config, config.check = .ok () ∧
        storage = Storage.create layout config engine.journal)
      fun failure after => after = engine.failing failure := by
  cases own with
  | none => exact ⟨rfl, engine.config, shared, rfl⟩
  | some config =>
    show Ensures (accept config >>= fun _ => _) engine _ _
    rw [Action.ensures_bind]
    refine (accept_spec engine config).imp ?_ fun _ _ => id
    rintro - _ ⟨rfl, accepted⟩
    exact ⟨rfl, config, accepted, rfl⟩

end Engine

/-! ## What commands keep -/

/-- The standard settings are accepted. -/
theorem Config.standard_accepted : Config.standard.check = .ok () := by decide +kernel

namespace Host

variable {host : Host α}

/-- The host after a command failed before it changed anything. -/
abbrev failing (host : Host α) (failure : Failure) : Host α :=
  { host with engine := host.engine.failing failure }

/-- An operation of the engine leaves the storages alone. -/
theorem ensures_onEngine {β : Type} (operation : Engine.Op β) {done : β → Host α → Prop}
    {failed : Failure → Host α → Prop} :
    Ensures (onEngine operation) host done failed ↔
      Ensures operation host.engine (fun value engine => done value { host with engine })
        (fun failure engine => failed failure { host with engine }) :=
  Action.ensures_onPart ..

variable [Arithmetic α]

/-- A host whose settings are accepted ones and whose storages are ready. -/
structure Sound (host : Host α) : Prop where
  /-- The shared settings are accepted. -/
  shared : host.engine.config.check = .ok ()
  /-- Every storage is ready. -/
  ready : ∀ session ∈ host.sessions, session.Ready

/-- A request is the operation of a session with the journal of the engine. -/
theorem ensures_use {position : Nat} {session : Session α} {request : Request}
    (found : host.sessions[position]? = some session) {done : Unit → Host α → Prop}
    {failed : Failure → Host α → Prop} :
    Ensures (use position request) host done failed ↔
      Ensures ((session.withJournal host.engine.journal).operation request)
        (session.withJournal host.engine.journal).storage
        (fun held storage => done () (host.settle position ⟨storage, held⟩))
        (fun failure storage => failed failure (host.settle position
          ⟨storage, (session.withJournal host.engine.journal).remainder request⟩)) := by
  unfold Ensures use
  rw [found]
  simp only
  cases (session.withJournal host.engine.journal).operation request
    (session.withJournal host.engine.journal).storage <;> rfl

/-- A storage that has worked is put back. -/
theorem Sound.settle (sound : host.Sound) {position : Nat} {session : Session α}
    (ready : (session.withJournal .empty).Ready) : (host.settle position session).Sound := by
  refine ⟨sound.shared, fun other member => ?_⟩
  rcases List.mem_or_eq_of_mem_set member with before | rfl
  · exact sound.ready other before
  · exact ready

/-- An edit of the host that is carried out, and aborted. -/
def BreaksOff (host : Host α) (command : Command) (fault : Fault) : Prop :=
  ∃ position request session key edit bytes edited, command = .use position request ∧
    host.sessions[position]? = some session ∧ session.edited? request = some (key, edit) ∧
    (request.opensWriter = true → session.storage.readers = 0 ∧ session.storage.writers = 0) ∧
    session.storage.records.get? key = some bytes ∧ edit bytes = .error fault edited

/-- How a command fails: before it changes anything, but for the report of a rejection, or in an edit
of the host. -/
def Fails (host : Host α) (command : Command) (failure : Failure) (after : Host α) : Prop :=
  after = host.failing failure ∨
    ∃ fault, failure = .aborted fault ∧ host.BreaksOff command fault

/-- What is ensured of a command: it ends in a sound host, and it fails in no other way. -/
def Safely (host : Host α) (command : Command) : Prop :=
  Ensures command.run host (fun _ after => after.Sound)
    fun failure after => after.Sound ∧ host.Fails command failure after

/-- A sound host is sound after a failure that changed nothing. -/
theorem Sound.failing (sound : host.Sound) (failure : Failure) : (host.failing failure).Sound :=
  ⟨sound.shared, sound.ready⟩

/-- Accepted settings are usable in an arithmetic to which coordinates are rounded. -/
structure Faithful (rounding : Rounding α) : Prop where
  /-- Coordinates are rounded. -/
  converts : rounding.Converts
  /-- Accepted settings are usable. -/
  usable : ∀ {config : Config}, config.check = .ok () → config.Usable α

variable {rounding : Rounding α}

/-- A request to a storage that is ready leaves it ready. -/
theorem ready_of_step (faithful : Faithful rounding) {session : Session α} (ready : session.Ready)
    (journal : Journal) (request : Request) :
    (((session.withJournal journal).step request).withJournal .empty).Ready := by
  obtain ⟨config, lost, kept, accepted, balanced, -⟩ := ready
  have working := kept.withJournal journal
  have stepped := working.step request
  have even := working.balanced_step rounding faithful.converts (faithful.usable accepted)
    (balanced.congr rfl) request
  exact ⟨config, _, stepped.withJournal .empty, accepted, even.congr rfl, rfl⟩

omit [Arithmetic α] in
/-- A session that has not changed is put back as it was. -/
theorem settle_unharmed {position : Nat} {session : Session α}
    (found : host.sessions[position]? = some session) (still : session.storage.journal = .empty)
    (failure : Failure) :
    host.settle position ⟨(session.withJournal host.engine.journal).storage.failing failure,
      session.held⟩ = host.failing failure := by
  obtain ⟨inside, there⟩ := List.getElem?_eq_some_iff.mp found
  have same : host.sessions.set position session = host.sessions := by
    rw [← there]
    exact List.set_getElem_self inside
  have put : session.withJournal .empty = session := by
    rw [← still]
    rfl
  show Host.mk _ (host.sessions.set position (session.withJournal .empty)) = _
  rw [put, same]
  rfl

/-- A request to a storage keeps a host sound and fails before it changes anything, but in an edit
of the host. -/
theorem Sound.use (sound : host.Sound) (faithful : Faithful rounding) (position : Nat)
    (request : Request) : host.Safely (.use position request) := by
  cases found : host.sessions[position]? with
  | none =>
    have idle : Host.use position request host = .ok () host := by
      unfold Host.use
      rw [found]
    exact Ensures.of_eq idle sound
  | some session =>
    have ready := sound.ready session (List.mem_of_getElem? found)
    have stepped := ready_of_step faithful ready host.engine.journal request
    obtain ⟨config, lost, kept, accepted, -, still⟩ := ready
    have fails := (kept.withJournal host.engine.journal).fails rounding faithful.converts
      (faithful.usable accepted) request
    unfold Safely
    show Ensures (Host.use position request) host _ _
    rw [ensures_use found]
    unfold Storage.FailsOnly Ensures at fails
    rw [Session.step_eq_perform] at stepped
    unfold Session.perform at stepped
    unfold Ensures
    cases ran : (session.withJournal host.engine.journal).operation request
        (session.withJournal host.engine.journal).storage with
    | ok held storage =>
      rw [ran] at stepped
      exact sound.settle stepped
    | error failure storage =>
      rw [ran] at stepped fails
      refine ⟨sound.settle stepped, ?_⟩
      cases fails with
      | unharmed _ held =>
        rw [held]
        exact .inl (settle_unharmed found still failure)
      | @own key edit bytes edited fault _ target runs there failed =>
        have asked : session.edited? request = some (key, edit) := by
          rw [← target]
          cases request <;> rfl
        exact .inr ⟨fault, rfl, position, request, session, key, edit, bytes, edited, rfl, found,
          asked, runs, there, failed⟩

/-- Every command keeps a host sound and fails before it changes anything, but in an edit of the
host. -/
theorem Sound.command (sound : host.Sound) (faithful : Faithful rounding) (command : Command) :
    host.Safely command := by
  have failed {failure : Failure} {engine : Engine} (same : engine = host.engine.failing failure) :
      ({ host with engine } : Host α).Sound ∧
        host.Fails command failure { host with engine } := by
    rw [same]
    exact ⟨sound.failing failure, .inl rfl⟩
  cases command with
  | setThreshold | direct | report | collect => exact ⟨sound.shared, sound.ready⟩
  | accept config =>
    refine (ensures_onEngine _).mpr ((Engine.accept_spec _ config).imp ?_ fun _ _ => failed)
    rintro - _ ⟨rfl, -⟩
    exact sound
  | setConfig config =>
    refine (ensures_onEngine _).mpr ((Engine.setConfig_spec _ config).imp ?_ fun _ _ => failed)
    intro _ engine accepted
    exact ⟨accepted, sound.ready⟩
  | resetConfig => exact ⟨Config.standard_accepted, sound.ready⟩
  | arrange spec =>
    refine (Action.ensures_discard _ _).mpr ((ensures_onEngine _).mpr
      ((Engine.arrange_spec _ spec).imp ?_ fun _ _ => failed))
    rintro _ _ ⟨rfl, -⟩
    exact sound
  | openStorage spec own =>
    unfold Safely Command.run
    rw [Action.ensures_bind, ensures_onEngine]
    refine (Engine.arrange_spec _ spec).imp ?_ fun _ _ => failed
    rintro layout _ ⟨rfl, computed⟩
    rw [Action.ensures_bind, ensures_onEngine]
    refine (Engine.openStorage_spec sound.shared layout own).imp ?_ fun _ _ => failed
    rintro _ _ ⟨rfl, config, accepted, rfl⟩
    refine ⟨sound.shared, fun session member => ?_⟩
    rcases List.mem_append.mp member with before | new
    · exact sound.ready session before
    · rw [List.mem_singleton.mp new]
      exact ⟨config, [], Session.start_kept computed config .empty, accepted, fun _ => rfl, rfl⟩
  | dropStorage position =>
    exact ⟨sound.shared, fun session member => sound.ready session (List.mem_of_mem_eraseIdx member)⟩
  | use position request => exact sound.use faithful position request

/-- Every run keeps a host sound. -/
theorem Sound.run (sound : host.Sound) (faithful : Faithful rounding) (commands : List Command) :
    (host.run commands).Sound := by
  induction commands generalizing host with
  | nil => exact sound
  | cons command rest ih =>
    have safely := sound.command faithful command
    have stepped : (host.step command).Sound := by
      unfold Safely Ensures at safely
      unfold step
      cases ran : command.run host with
      | ok _ after =>
        rw [ran] at safely
        exact safely
      | error failure after =>
        rw [ran] at safely
        exact safely.1
    exact ih stepped

/-- A host without sessions is sound. -/
theorem initial_sound : (initial : Host α).Sound :=
  ⟨Config.standard_accepted, fun _ member => nomatch member⟩

end Host

end SpatialIndex
