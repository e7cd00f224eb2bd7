import WorkspaceBuild.Assoc
import WorkspaceBuild.Category

/-! # Manifests

What a workspace is made of at one moment: its modules, where they live and where their output goes,
and their files by category. A manifest is all that one build hands on to the next.
-/

namespace WorkspaceBuild

/-- The tool that installs the packages of a workspace. -/
inductive PackageManager where
  | npm
  | yarn
  | pnpm
  | bun
  deriving DecidableEq, Inhabited, Repr

namespace PackageManager

def all : List PackageManager := [.npm, .yarn, .pnpm, .bun]

def name : PackageManager → String
  | .npm => "npm"
  | .yarn => "yarn"
  | .pnpm => "pnpm"
  | .bun => "bun"

def ofName? (name : String) : Option PackageManager := all.find? (·.name = name)

theorem ofName?_name (manager : PackageManager) : ofName? manager.name = some manager := by
  cases manager <;> decide

end PackageManager

/-- A file of a module. -/
structure FileEntry where
  /-- Its path below the module's folder. -/
  path : String
  kind : FileKind
  /-- When it was last updated, in milliseconds. -/
  updated : Nat
  /-- Its role, when it differs from the module's. -/
  role : Option Role := none
  /-- Profiles it belongs to; without any it belongs to all. -/
  profiles : List String := []
  deriving DecidableEq, Inhabited, Repr

/-- The path of the file's output below the module's output folder. -/
def FileEntry.outputPath (entry : FileEntry) : String := compiledPath entry.path entry.kind

/-- A module of the build. -/
structure Module where
  name : String
  version : String
  source : Path
  output : Path
  /-- Whether it is the workspace's own module. -/
  main : Bool
  /-- Whether it lives in the workspace. -/
  workspace : Bool
  /-- Whether it belongs to the toolchain. -/
  internal : Bool
  prod : Bool
  roles : List Role
  /-- The modules that depend on it, ascending. -/
  parents : List String
  /-- Profiles it belongs to; without any it belongs to all. -/
  profiles : List String
  files : Assoc Category (List FileEntry)
  deriving DecidableEq, Inhabited, Repr

namespace Module

/-- Every file of the module with its category. -/
def entries (m : Module) : List (Category × FileEntry) :=
  m.files.flatMap fun (category, files) => files.map fun entry => (category, entry)

def sourcePath (m : Module) (entry : FileEntry) : Path := m.source.join entry.path

/-- Where the output of a file of the module goes. -/
def outputPath (m : Module) (entry : FileEntry) : Path := m.output.join entry.outputPath

def fileCount (m : Module) : Nat := m.entries.length

end Module

/-- What workspace a manifest is of. -/
structure WorkspaceInfo where
  path : Path
  /-- The name of its main module. -/
  name : String
  monorepo : Bool
  packageManager : PackageManager
  deriving DecidableEq, Inhabited, Repr

/-- The folders of a build. -/
structure BuildPaths where
  compilerOutput : Path
  /-- Where outputs go. -/
  output : Path
  /-- The tool's folder below a package. -/
  tool : Path
  types : Path
  /-- The address of the compiler service. -/
  compilerServiceUrl : Option String
  deriving DecidableEq, Inhabited, Repr

/-- The main module in short. -/
structure MainModule where
  name : String
  version : String
  source : Path
  deriving DecidableEq, Inhabited, Repr

/-- A whole build at one moment. -/
structure Manifest where
  version : Nat
  workspace : WorkspaceInfo
  paths : BuildPaths
  main : MainModule
  /-- When the manifest was made, in milliseconds. -/
  generated : Nat
  modules : Assoc String Module
  deriving DecidableEq, Inhabited, Repr

namespace Manifest

def currentVersion : Nat := 1

/-- Name of the file a manifest is kept in. -/
def fileName : String := "manifest.json"

def module? (m : Manifest) (name : String) : Option Module := m.modules.get? name

/-- The manifest without the time it was made, for comparing builds. -/
def withoutTimestamp (m : Manifest) : Manifest := { m with generated := 0 }

end Manifest

end WorkspaceBuild
