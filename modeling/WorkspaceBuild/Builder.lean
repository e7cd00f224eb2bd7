import WorkspaceBuild.Delta
import WorkspaceBuild.ManifestFile
import WorkspaceBuild.Package.Discovery
import WorkspaceBuild.Registrations
import WorkspaceBuild.Snapshot
import WorkspaceBuild.UnitHost

/-! # Builds

A build plans what has to be done and does it, event by event: sources are transformed if a host
knows them, other files are copied, and outputs without a file are deleted. The manifest is written
last, so a build that fails is planned again.
-/

namespace WorkspaceBuild

/-- What a build works with. -/
structure Builder (σ : Type) where
  settings : Settings
  /-- Whether every folder of every module is scanned. -/
  full : Bool
  /-- Where parsed units come from; without one sources are left to the compiler. -/
  host : Option CompilerHost
  /-- The plugins of registrations, by the id of their file. -/
  catalog : List (String × Registry σ)
  /-- The levels of the visits of units, beyond those of the units themselves. -/
  levels : Nat
  /-- What the outputs are written on. -/
  system : System

/-- What a workspace is like, and what has changed. -/
structure BuildPlan where
  /-- The manifest of the workspace as it stands. -/
  manifest : Manifest
  /-- The manifest of the build before. -/
  previous : Option Manifest
  delta : Delta
  deriving DecidableEq, Inhabited, Repr

/-- What a build has done, each in the order of the delta. -/
structure BuildReport where
  delta : Delta := []
  /-- Outputs written from transformed sources. -/
  transformed : List Path := []
  /-- Outputs copied from other files. -/
  copied : List Path := []
  removed : List Path := []
  /-- Sources left to the compiler. -/
  pending : List Path := []
  totalModules : Nat := 0
  events : Nat := 0
  deriving DecidableEq, Inhabited, Repr

/-- What changes while a build runs. It stays when the build fails. -/
structure BuildState (σ : Type) where
  disk : Disk
  /-- What plugins have noted. -/
  notes : σ
  report : BuildReport := {}

namespace Builder

variable {σ : Type}

def graph (b : Builder σ) (disk : Disk) : Except BuildError ModuleGraph :=
  (Workspace.resolve disk b.settings.workspaceRoot).mapError .package

def planFor (b : Builder σ) (disk : Disk) (manifest : Manifest) : BuildPlan :=
  let previous := Manifest.loadPrevious? disk b.settings.manifestPath
  ⟨manifest, previous, .between disk b.settings.outputRoot manifest previous⟩

/-- Take a snapshot of the workspace and compare it with the build before. -/
def plan (b : Builder σ) (disk : Disk) (session : Session) (now : Nat) :
    Session × Except BuildError BuildPlan :=
  match b.graph disk with
  | .error e => (session, .error e)
  | .ok graph =>
      let (session, manifest) := Snapshot.take disk b.settings b.full now graph session
      (session, manifest.map (b.planFor disk))

/-- The ids of the registrations that active profiles admit, ascending. -/
def registrations (b : Builder σ) (index : ManifestIndex) : List String :=
  let query := { FileQuery.ofSettings b.settings with categories := [.plugins] }
  ascending (((index.find query).filter fun file => file.entry.role = some .compile).map
    IndexedFile.id)

/-- The plugins of a build: those always there, then those of registrations. -/
def registry (b : Builder σ) (index : ManifestIndex) : Registry σ :=
  Registrations.builtin ++ (b.registrations index).flatMap fun id => (b.catalog.lookup id).getD []

/-- What producing outputs needs to know. -/
structure Production (σ : Type) where
  builder : Builder σ
  /-- The manifest of the workspace as it stands. -/
  manifest : Manifest
  index : ManifestIndex
  registry : Registry σ
  /-- The time of the build, in milliseconds. -/
  now : Nat

def production (b : Builder σ) (manifest : Manifest) (now : Nat) : Production σ :=
  let index := .ofManifest b.settings.manifestPath manifest
  ⟨b, manifest, index, b.registry index, now⟩

namespace Production

/-- The state after a step, and why the build ends there if it does. -/
abbrev Step (σ : Type) := BuildState σ × Except (Halt BuildError) Unit

/-- A step that changes the disk and nothing else. -/
def onDisk (state : BuildState σ) (path : Path) (outcome : Disk.Outcome) : Step σ :=
  ({ state with disk := outcome.1 },
    outcome.2.mapError fun fault => .failed (.fileFault path fault))

/-- One step after another, unless the build ends with the first. -/
def andThen (first : Step σ) (next : BuildState σ → Step σ) : Step σ :=
  match first with
  | (state, .ok ()) => next state
  | failed => failed

/-- Note in the report what has been done. -/
def record (state : BuildState σ) (change : BuildReport → BuildReport) : Step σ :=
  ({ state with report := change state.report }, .ok ())

def makeFolder (p : Production σ) (path : Path) (state : BuildState σ) : Step σ :=
  match path.parent? with
  | some folder => onDisk state folder (state.disk.createFolders folder p.now)
  | none => (state, .ok ())

def copy (p : Production σ) (source output : Path) (state : BuildState σ) : Step σ :=
  andThen (p.makeFolder output state) fun state =>
    andThen (onDisk state source
      (p.builder.system.copy state.disk source output p.now)) fun state =>
      record state fun report => { report with copied := report.copied ++ [output] }

def write (p : Production σ) (output : Path) (text : String) (state : BuildState σ) : Step σ :=
  andThen (p.makeFolder output state) fun state =>
    andThen (onDisk state output
      (p.builder.system.write state.disk output (.text text) p.now)) fun state =>
      record state fun report => { report with transformed := report.transformed ++ [output] }

def transform (p : Production σ) (host : CompilerHost) (source output : Path)
    (state : BuildState σ) : Step σ :=
  match state.disk.readText source with
  | .error fault => (state, .error (.failed (.fileFault source fault)))
  | .ok text =>
      match host.parse source text with
      | .error e => (state, .error (.failed (.transform e)))
      | .ok unit =>
          let dispatcher : Dispatcher σ :=
            ⟨p.registry, host.semantic, p.index.references, p.builder.levels⟩
          match dispatcher.transform unit state.notes with
          | (.error halt, notes) => ({ state with notes }, .error (halt.map .transform))
          | (.ok unit, notes) => p.write output unit.text { state with notes }

def produce (p : Production σ) (m : Module) (entry : FileEntry) (state : BuildState σ) : Step σ :=
  let source := m.sourcePath entry
  let output := m.outputPath entry
  if entry.kind ≠ .source then p.copy source output state
  else
    match p.builder.host with
    | some host => p.transform host source output state
    | none => record state fun report => { report with pending := report.pending ++ [source] }

def entryOf? (m : Module) (event : DeltaEvent) : Option FileEntry :=
  ((m.files.get? event.category).getD []).find? (·.path = event.path)

/-- The output of a file that is gone. -/
def goneOutput (p : Production σ) (name : String) (event : DeltaEvent) : Path :=
  (moduleOutput p.builder.settings.outputRoot name).join
    (compiledPath event.path (fileKind event.path event.category))

/-- Delete the output of a file that is gone. One that is gone too is passed over. -/
def remove (p : Production σ) (name : String) (event : DeltaEvent) (state : BuildState σ) :
    Step σ :=
  let output := p.goneOutput name event
  match state.disk.removeFile output p.now with
  | .ok disk =>
      record { state with disk } fun report => { report with removed := report.removed ++ [output] }
  | .error .notFound => (state, .ok ())
  | .error fault => (state, .error (.failed (.fileFault output fault)))

/-- Do what an event of a module asks for. -/
def handle (p : Production σ) (state : BuildState σ) (name : String) (event : DeltaEvent) :
    Step σ :=
  if event.action.needsOutput then
    match p.manifest.module? name with
    | none => (state, .ok ())
    | some m =>
        match entryOf? m event with
        | some entry => p.produce m entry state
        | none => (state, .ok ())
  else p.remove name event state

/-- Do what events ask for, up to the first that the build ends with. -/
def handleAll (p : Production σ) (state : BuildState σ) : List (String × DeltaEvent) → Step σ
  | [] => (state, .ok ())
  | (name, event) :: rest =>
      andThen (p.handle state name event) fun state => p.handleAll state rest

end Production

/-- The events of a delta with their modules. -/
def eventsOf (delta : Delta) : List (String × DeltaEvent) :=
  delta.flatMap fun (name, events) => events.map fun event => (name, event)

def save (b : Builder σ) (manifest : Manifest) (now : Nat) (state : BuildState σ) :
    Production.Step σ :=
  let (disk, result) := Manifest.save state.disk manifest b.settings.manifestPath now
  ({ state with disk }, result.mapError .failed)

/-- Do what a plan asks for, then write its manifest. -/
def execute (b : Builder σ) (plan : BuildPlan) (now : Nat) (state : BuildState σ) :
    Production.Step σ :=
  let production := b.production plan.manifest now
  Production.andThen (production.handleAll state (eventsOf plan.delta)) fun state =>
    Production.andThen (b.save plan.manifest now state) fun state =>
      Production.record state fun report =>
        { report with
          delta := plan.delta
          totalModules := plan.manifest.modules.length
          events := plan.delta.eventCount }

def build (b : Builder σ) (session : Session) (now : Nat) (disk : Disk) (notes : σ) :
    Session × BuildState σ × Except (Halt BuildError) BuildReport :=
  match b.plan disk session now with
  | (session, .error e) => (session, ⟨disk, notes, {}⟩, .error (.failed e))
  | (session, .ok plan) =>
      let (state, result) := b.execute plan now ⟨disk, notes, {}⟩
      (session, state, result.map fun () => state.report)

end Builder

end WorkspaceBuild
