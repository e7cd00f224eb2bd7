import WorkspaceBuild.Package.Graph
import WorkspaceBuild.Package.Members

/-! # Discovery of modules

The walk from a workspace along the dependencies of its packages. Members of the workspace and
packages that speak to the framework become modules; any other package is left out with all that
only it depends on.
-/

namespace WorkspaceBuild

/-- A workspace, ready to be walked. -/
structure Workspace where
  root : Path
  descriptor : Descriptor
  members : Members
  deriving DecidableEq, Inhabited, Repr

/-- A dependency that is still to be visited. -/
structure Visit where
  folder : Path
  /-- The module that depends on it. -/
  parent : String
  kind : DependencyKind
  /-- The roles that flow along the dependency. -/
  inherited : List Role
  deriving DecidableEq, Inhabited, Repr

/-- The state of a walk. -/
structure Walk where
  graph : ModuleGraph
  /-- The packages left out so far. -/
  pruned : List String
  /-- What is to be visited, first things first. -/
  pending : List Visit
  deriving DecidableEq, Inhabited, Repr

/-- Packages under this scope belong to the toolchain. -/
def internalScope : String := "@loom/"

namespace Workspace

def load (disk : Disk) (root : Path) : Except PackageError Workspace := do
  let descriptor ← Descriptor.load disk root
  return ⟨root, descriptor, ← Members.discover disk root descriptor⟩

def installedFolder : String := "node_modules"

/-- The folder of a dependency, seen from a package's folder: a member's, or else the nearest
installed one with a descriptor, going upwards. -/
def folderOf? (w : Workspace) (disk : Disk) (source : Path) (name : String) : Option Path :=
  (w.members.get? name).or
    ((source.ancestors.map fun folder => (folder.join installedFolder).join name).find?
      fun folder => disk.isFile (folder.join descriptorFile))

def edgeNotAfter (a b : Edge) : Bool :=
  a.name < b.name || (a.name = b.name && (compare a.kind b.kind).isLE)

/-- What a package depends on, in the order in which it is visited. What only development depends
on counts for the workspace's own module alone. -/
def dependenciesOf (descriptor : Descriptor) (main : Bool) : List Edge :=
  let named (table : Assoc String String) (kind : DependencyKind) : List Edge :=
    table.keys.map fun name => ⟨name, kind⟩
  let development := if main then named descriptor.devDependencies .development else []
  (named descriptor.dependencies .production ++ named descriptor.peerDependencies .peer ++
    development).mergeSort edgeNotAfter

/-- The visits to what a module depends on. A dependency that is not installed is passed over. -/
def visitsOf (w : Workspace) (disk : Disk) (descriptor : Descriptor) (folder : Path) (name : String)
    (main : Bool) (roles : List Role) : List Visit :=
  (dependenciesOf descriptor main).filterMap fun edge =>
    (w.folderOf? disk folder edge.name).map fun child =>
      ⟨child, name, edge.kind, edgeRoles roles edge.kind⟩

/-- The module of a package, before roles reach it. -/
def nodeOf (w : Workspace) (descriptor : Descriptor) (folder : Path) (main : Bool) : GraphNode :=
  let name := descriptor.nameOr folder
  let data := descriptor.framework.getD {}
  let workspace := main || w.members.containsFolder folder
  { name
    version := descriptor.versionText
    dir := folder
    main
    workspace
    internal := data.internal || Text.beginsWith name internalScope
    declaredRoles := data.roles
    inheritRoles := data.inheritRoles
    roleRoot := main || workspace || data.roleRoot
    profiles := data.profiles
    fileProfiles := data.fileProfiles }

/-- The roles of a module when it is found. -/
def rolesWhenFound (node : GraphNode) (inherited : List Role) : List Role :=
  if node.roleRoot then [.standard]
  else
    let roles :=
      if node.inheritRoles then unionRoles node.declaredRoles inherited else node.declaredRoles
    if roles.isEmpty then [.standard] else roles

def accepts (w : Workspace) (descriptor : Descriptor) (folder : Path) : Bool :=
  w.members.containsFolder folder || descriptor.isFrameworkPackage

def start (w : Workspace) (disk : Disk) : Walk :=
  let node := { w.nodeOf w.descriptor w.root true with roles := [.standard] }
  { graph := .single node
    pruned := []
    pending := w.visitsOf disk w.descriptor w.root node.name true node.roles }

/-- Give a module that is found again the roles that reach it this way. -/
def inherit (inherited : List Role) (node : GraphNode) : GraphNode :=
  if node.inheritRoles && !node.roleRoot then
    { node with roles := unionRoles node.roles inherited }
  else node

/-- Visit a package that is a module already. -/
def revisit (graph : ModuleGraph) (visit : Visit) (name : String) :
    Except PackageError ModuleGraph := do
  let graph ← graph.addEdge visit.parent name visit.kind
  return graph.update name (inherit visit.inherited)

/-- Visit a package that becomes a module: the graph with it, and the visits it calls for. -/
def expand (w : Workspace) (disk : Disk) (graph : ModuleGraph) (visit : Visit)
    (descriptor : Descriptor) : Except PackageError (ModuleGraph × List Visit) := do
  let found := w.nodeOf descriptor visit.folder false
  let node := { found with roles := rolesWhenFound found visit.inherited }
  let graph ← (graph.addNode node).2.addEdge visit.parent node.name visit.kind
  return (graph, w.visitsOf disk descriptor visit.folder node.name false node.roles)

/-- Walk on until nothing is left to visit, taking at most as many new modules as allowed. -/
def walkOn (w : Workspace) (disk : Disk) (allowed : Nat) (graph : ModuleGraph)
    (pruned : List String) (pending : List Visit) : Except PackageError Walk :=
  match pending with
  | [] => .ok ⟨graph, pruned, []⟩
  | visit :: rest =>
      match Descriptor.load disk visit.folder with
      | .error e => .error e
      | .ok descriptor =>
          let name := descriptor.nameOr visit.folder
          if graph.contains name then
            match revisit graph visit name with
            | .error e => .error e
            | .ok graph => walkOn w disk allowed graph pruned rest
          else if pruned.contains name then walkOn w disk allowed graph pruned rest
          else if !w.accepts descriptor visit.folder then
            walkOn w disk allowed graph (name :: pruned) rest
          else
            match allowed with
            | 0 => .ok ⟨graph, pruned, visit :: rest⟩
            | allowed + 1 =>
                match w.expand disk graph visit descriptor with
                | .error e => .error e
                | .ok (graph, visits) => walkOn w disk allowed graph pruned (visits ++ rest)
termination_by (allowed, pending.length)

/-- The most modules that a walk can find: each bears the name of its descriptor, or that of its
folder or of none, and there is at most one descriptor in each folder. -/
def mostModules (disk : Disk) : Nat := 2 * disk.folderCount

/-- The modules of a workspace, before they are settled. -/
def walk (w : Workspace) (disk : Disk) : Except PackageError ModuleGraph :=
  let first := w.start disk
  (w.walkOn disk (mostModules disk) first.graph first.pruned first.pending).map Walk.graph

/-- The settled modules of the workspace at a root. -/
def resolve (disk : Disk) (root : Path) : Except PackageError ModuleGraph := do
  let graph ← (← load disk root).walk disk
  match graph.complete with
  | (.ok (), graph) => return graph
  | (.error e, _) => throw e

end Workspace

end WorkspaceBuild
