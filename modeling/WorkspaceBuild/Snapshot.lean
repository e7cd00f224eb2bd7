import WorkspaceBuild.Package.Graph
import WorkspaceBuild.Package.Members
import WorkspaceBuild.Session

/-! # Snapshots

The manifest of a workspace as it stands: the modules of its graph with the files that a scan finds
in each.
-/

namespace WorkspaceBuild

namespace Snapshot

/-- Whether files below a start of a path belong to it: the path itself, or a folder with all in
it. -/
def isBelowStart (start path : String) : Bool :=
  match Text.dropStart? path start with
  | some rest => rest = "" || Text.beginsWith rest "/" || Text.endsWith start "/"
  | none => false

/-- The profiles of a file, from the starts of paths that its module gives profiles to. -/
def fileProfiles (table : Assoc String (List String)) (path : String) : List String :=
  table.foldl (fun profiles (start, names) =>
    if isBelowStart (Text.trimStart start "./") path then
      names.foldl (fun profiles name =>
        if profiles.contains name then profiles else profiles ++ [name]) profiles
    else profiles) []

def entryOf (node : GraphNode) (file : ScannedFile) : FileEntry :=
  ⟨file.path, file.kind, file.updated, file.role, fileProfiles node.fileProfiles file.path⟩

def entriesOf (node : GraphNode) (files : List ScannedFile) : Assoc Category (List FileEntry) :=
  files.foldl (fun table file => Assoc.push table file.category (entryOf node file)) []

/-- What is scanned for a module: the workspace's own one fully, but without what settings leave
out. -/
def scopeOf (settings : Settings) (full : Bool) (node : GraphNode) : Scan.Scope :=
  ⟨node.dir, full || node.main, if node.main then settings.excluded else []⟩

/-- The module of a node with its scanned files. -/
def moduleOf (settings : Settings) (node : GraphNode) (files : List ScannedFile) : Module where
  name := node.name
  version := node.version
  source := node.dir
  output := moduleOutput settings.outputRoot node.name
  main := node.main
  workspace := node.workspace
  internal := node.internal
  prod := node.prod
  roles := node.roles
  parents := node.parents
  profiles := node.profiles
  files := entriesOf node files

/-- Scan the modules of nodes in order. The first that fails ends it. -/
def modulesOf (disk : Disk) (settings : Settings) (full : Bool) (session : Session) :
    List GraphNode → Session × Except BuildError (List Module)
  | [] => (session, .ok [])
  | node :: rest =>
      match session.scan disk node.name (scopeOf settings full node) with
      | (session, .error e) => (session, .error e)
      | (session, .ok files) =>
          let (session, modules) := modulesOf disk settings full session rest
          (session, modules.map (moduleOf settings node files :: ·))

/-- The manifest of modules, of which one is the workspace's own. -/
def manifestOf (disk : Disk) (settings : Settings) (graph : ModuleGraph) (main : GraphNode)
    (now : Nat) (modules : List Module) : Manifest where
  version := Manifest.currentVersion
  workspace :=
    { path := settings.workspaceRoot
      name := main.name
      monorepo := graph.inOrder.any fun node => node.workspace && !node.main
      packageManager := .detect disk settings.workspaceRoot }
  paths :=
    { compilerOutput := settings.compilerOutput
      output := settings.outputRoot
      tool := settings.toolFolderName
      types := settings.typesOutput
      compilerServiceUrl := settings.compilerUrl }
  main := ⟨main.name, main.version, main.dir⟩
  generated := now
  modules := Assoc.ofPairs (modules.map fun m => (m.name, m))

/-- The manifest of the workspace at this moment. -/
def take (disk : Disk) (settings : Settings) (full : Bool) (now : Nat) (graph : ModuleGraph)
    (session : Session) : Session × Except BuildError Manifest :=
  match graph.get? graph.root with
  | none => (session, .error (.moduleNotFound graph.root))
  | some main =>
      let (session, modules) := modulesOf disk settings full session graph.inOrder
      (session, modules.map (manifestOf disk settings graph main now))

end Snapshot

end WorkspaceBuild
