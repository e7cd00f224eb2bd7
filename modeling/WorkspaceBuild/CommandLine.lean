import WorkspaceBuild.CommandLine.Answer

/-! # Command line

Commands of the tool as functions of a disk: what they print, the code they end with, and the disk
they leave behind.
-/

namespace WorkspaceBuild

namespace CommandLine

/-- How a command ends. -/
inductive Outcome where
  | done (json : Bool) (answer : Answer)
  | failed (failure : Failure)
  | misused
  deriving DecidableEq, Inhabited, Repr

namespace Outcome

def code : Outcome → Nat
  | .done .. => 0
  | .failed _ => 1
  | .misused => 2

/-- What a command prints that took some milliseconds. -/
def output (elapsed : Nat) : Outcome → String
  | .done json answer => answer.text json elapsed
  | .failed _ | .misused => ""

def complaint : Outcome → String
  | .done .. => ""
  | .failed failure => failure.text
  | .misused => Answer.lines Answer.usageLines

end Outcome

/-- What a command is done with. -/
structure World where
  environment : Settings.Environment
  folder : Path
  now : Nat

/-- The causes behind an error of settings. What the system says comes once more. -/
def settingsCauses (e : SettingsError) : List String :=
  match e with
  | .unreadable fault => [e.message, fault.message]
  | _ => [e.message]

def settingsOf (world : World) (disk : Disk) (root : Path) : Except Failure Settings :=
  (Settings.load disk world.environment world.folder root).mapError fun e =>
    ⟨"Failed to load configuration for " ++ root.text, settingsCauses e⟩

def builderOf (settings : Settings) (full : Bool) : Builder Unit where
  settings
  full
  host := none
  catalog := []
  levels := 0
  system := .sound

def because (context cause : String) : Failure := ⟨context, [cause]⟩

def categoriesOf (names : List String) : Except Failure (List Category) :=
  names.mapM fun name =>
    match Category.ofName? name with
    | some category => .ok category
    | none => .error ⟨"Unknown folder category '" ++ name ++ "'", []⟩

def graph (disk : Disk) (settings : Settings) : Except Failure Answer :=
  match Workspace.resolve disk settings.workspaceRoot with
  | .ok graph => .ok (.graph graph.inOrder)
  | .error e => .error (because "Failed to resolve module graph" e.message)

def delta (world : World) (disk : Disk) (settings : Settings) (full : Bool) :
    Except Failure Answer :=
  match ((builderOf settings full).plan disk .empty world.now).2 with
  | .ok plan => .ok (.delta plan.delta)
  | .error e => .error (because "Failed to compute delta" e.message)

def build (world : World) (disk : Disk) (settings : Settings) (full : Bool) :
    Disk × Except Failure Answer :=
  match (builderOf settings full).build .empty world.now disk () with
  | (_, state, .ok report) => (state.disk, .ok (.build report settings.manifestPath))
  | (_, state, .error (.failed e)) => (state.disk, .error (because "Build failed" e.message))
  -- without a host no unit is visited, so this is never so
  | (_, state, .error .unfinished) => (state.disk, .error ⟨"Build failed", []⟩)

def files (disk : Disk) (settings : Settings) (categories : List String) :
    Except Failure Answer := do
  let index ← (ManifestIndex.load disk settings.manifestPath).mapError fun e =>
    because ("No usable manifest at " ++ settings.manifestPath.text) e.message
  let categories ← categoriesOf categories
  let query := { FileQuery.ofSettings settings with categories }
  return .files (index.find query) settings.profiles

def perform (world : World) (disk : Disk) (settings : Settings) (command : Command)
    (o : Options) : Disk × Except Failure Answer :=
  match command with
  | .graph => (disk, graph disk settings)
  | .delta => (disk, delta world disk settings o.full)
  | .build => build world disk settings o.full
  | .files => (disk, files disk settings o.categories)

def answer (world : World) (disk : Disk) : Request → Disk × Outcome
  | .version command => (disk, .done false (.version command))
  | .usage => (disk, .done false .usage)
  | .run root command o =>
      match settingsOf world disk ((root.map Path.mk).getD world.folder) with
      | .error failure => (disk, .failed failure)
      | .ok settings =>
          match perform world disk settings command o with
          | (disk, .ok answer) => (disk, .done o.json answer)
          | (disk, .error failure) => (disk, .failed failure)

def run (world : World) (disk : Disk) (arguments : List String) : Disk × Outcome :=
  match Request.parse? world.environment arguments with
  | some request => answer world disk request
  | none => (disk, .misused)

end CommandLine

end WorkspaceBuild
