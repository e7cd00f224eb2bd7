import WorkspaceBuild.Disk
import WorkspaceBuild.Manifest
import WorkspaceBuild.ProjectFile

/-! # Settings

Where a build reads and writes. Defaults come first, the project file overrides them, and
environment variables override both.
-/

namespace WorkspaceBuild

/-- Why settings cannot be made. -/
inductive SettingsError where
  /-- The project file cannot be read. -/
  | unreadable (fault : Fault)
  /-- The project file is not well formed, or sets what it may not. -/
  | malformed (file : Path)
  /-- A variable has a value it may not have. -/
  | invalidValue (field reason : String)
  /-- There is no workspace at the path. -/
  | invalidRoot (root : Path)
  deriving DecidableEq, Inhabited, Repr

/-- The text of an error. What is wrong with a malformed file is not kept. -/
def SettingsError.message : SettingsError → String
  | .unreadable fault => "Failed to read configuration file: " ++ fault.message
  | .malformed file => "Invalid TOML syntax in " ++ file.text
  | .invalidValue field reason => "Invalid value for '" ++ field ++ "': " ++ reason
  | .invalidRoot root => "Invalid workspace root: " ++ root.text

/-- Where a build reads and writes; every path is absolute when the workspace's is. -/
structure Settings where
  workspaceRoot : Path
  toolFolder : Path
  /-- Where outputs go. -/
  outputRoot : Path
  compilerOutput : Path
  typesOutput : Path
  manifestPath : Path
  profiles : List String
  /-- Folders below the workspace that are not scanned. -/
  excluded : List Path
  /-- The address of the compiler service. -/
  compilerUrl : Option String
  deriving DecidableEq, Inhabited, Repr

namespace Settings

/-- Variables of the environment with their values. -/
abbrev Environment := List (String × String)

def outputVariable : String := "LOOM_OUTPUT_ROOT"

def manifestVariable : String := "LOOM_MANIFEST"

def profilesVariable : String := "LOOM_PROFILES"

def compilerUrlVariable : String := "LOOM_COMPILER_URL"

/-- Add a folder that is not scanned, unless it is empty or there already. -/
def exclude (folders : List Path) (folder : Path) : List Path :=
  if folder.text = "" || folders.any folder.same then folders else folders ++ [folder]

/-- Add a folder that is not scanned if it lies below the workspace. -/
def excludeBelow (root : Path) (folders : List Path) (folder : Path) : List Path :=
  match folder.below? root with
  | some below => exclude folders below
  | none => folders

def ofProject (root : Path) (project : ProjectFile) : Settings :=
  let toolFolder := root.join project.toolFolder.text
  let folder (set : Option Path) (name : String) : Path :=
    match set with
    | some path => root.join path.text
    | none => toolFolder.join name
  let outputRoot := folder project.build.output "out"
  let compilerOutput := folder project.build.compilerOutput "tsc"
  let typesOutput := folder project.build.types "types"
  let own := [toolFolder, outputRoot, compilerOutput, typesOutput].foldl (excludeBelow root) []
  { workspaceRoot := root
    toolFolder
    outputRoot
    compilerOutput
    typesOutput
    manifestPath := toolFolder.join Manifest.fileName
    profiles := project.profiles
    excluded := (project.build.exclude.map Path.mk).foldl exclude own
    compilerUrl := project.build.compilerUrl }

/-- Take the place of outputs from the environment. -/
def overrideOutput (env : Environment) (s : Settings) : Except SettingsError Settings :=
  match env.lookup outputVariable with
  | none => .ok s
  | some value =>
      if Text.trimmed value = "" then .error (.invalidValue outputVariable "must not be empty")
      else
        let outputRoot := s.workspaceRoot.join value
        .ok { s with
          outputRoot, excluded := excludeBelow s.workspaceRoot s.excluded outputRoot }

/-- Take what the environment overrides besides the place of outputs. -/
def overrideRest (env : Environment) (s : Settings) : Settings :=
  { s with
    manifestPath :=
      match env.lookup manifestVariable with
      | some value => s.workspaceRoot.join value
      | none => s.manifestPath
    profiles := ((env.lookup profilesVariable).map parseProfiles).getD s.profiles
    compilerUrl := (env.lookup compilerUrlVariable).or s.compilerUrl }

/-- The project file of a workspace; without one nothing is set. -/
def readProject (disk : Disk) (root : Path) : Except SettingsError ProjectFile :=
  let file := root.join ProjectFile.fileName
  if disk.exists? file then
    match disk.readText file with
    | .error fault => .error (.unreadable fault)
    | .ok text =>
        match ProjectFile.ofText? text with
        | some project => .ok project
        | none => .error (.malformed file)
  else .ok {}

/-- The settings of the workspace at a path, seen from a folder. -/
def load (disk : Disk) (env : Environment) (folder root : Path) : Except SettingsError Settings :=
  let target := folder.join root.text
  if root.text = "" || !disk.isFolder target then .error (.invalidRoot root)
  else
    match disk.canonical target with
    | .error _ => .error (.invalidRoot root)
    | .ok root => do
        let project ← readProject disk root
        let settings ← overrideOutput env (ofProject root project)
        return overrideRest env settings

/-- The tool's folder below the workspace, where modules keep manifests of their own. -/
def toolFolderName (s : Settings) : Path :=
  (s.toolFolder.below? s.workspaceRoot).getD ProjectFile.defaultToolFolder

def isProfileActive (s : Settings) (profile : String) : Bool := s.profiles.contains profile

end Settings

end WorkspaceBuild
