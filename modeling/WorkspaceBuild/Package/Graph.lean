import WorkspaceBuild.Package.Descriptor

/-! # Module graphs

The modules of a workspace with their dependencies. Completing a graph settles for every module
whether it is shipped and which roles it has, from the modules that depend on it.
-/

namespace WorkspaceBuild

/-- How a module depends on another, in ascending order. -/
inductive DependencyKind where
  | production
  | development
  | peer
  deriving DecidableEq, Inhabited, Repr, Ord

namespace DependencyKind

def all : List DependencyKind := [.production, .development, .peer]

def name : DependencyKind → String
  | .production => "production"
  | .development => "development"
  | .peer => "peer"

def ofName? (name : String) : Option DependencyKind := all.find? (·.name = name)

end DependencyKind

/-- A dependency of a module. -/
structure Edge where
  name : String
  kind : DependencyKind
  deriving DecidableEq, Inhabited, Repr

/-- A module of the graph. -/
structure GraphNode where
  name : String
  version : String := "0.0.0"
  dir : Path
  /-- Whether it is the workspace's own module. -/
  main : Bool := false
  /-- Whether it lives in the workspace. -/
  workspace : Bool := false
  /-- Whether it belongs to the toolchain. -/
  internal : Bool := false
  prod : Bool := false
  roles : List Role := []
  declaredRoles : List Role := []
  /-- Whether roles of the modules that depend on it flow into it. -/
  inheritRoles : Bool := true
  /-- Whether the flow of roles starts anew at it. -/
  roleRoot : Bool := false
  /-- The modules that depend on it, ascending. -/
  parents : List String := []
  dependencies : List Edge := []
  profiles : List String := []
  /-- Profiles of files by the start of their path. -/
  fileProfiles : Assoc String (List String) := []
  deriving DecidableEq, Inhabited, Repr

namespace GraphNode

def asMain (n : GraphNode) : GraphNode := { n with main := true, workspace := true, roleRoot := true }

def asRoleRoot (n : GraphNode) : GraphNode := { n with roleRoot := true }

def edgeTo? (n : GraphNode) (name : String) : Option DependencyKind :=
  (n.dependencies.find? (·.name = name)).map Edge.kind

end GraphNode

/-- The roles in either of two ascending lists. -/
def unionRoles (a b : List Role) : List Role := b.foldl (fun set r => insertAscending r set) a

def edgeRoles (parentRoles : List Role) : DependencyKind → List Role
  | .development => [.test]
  | .production => parentRoles
  | .peer => parentRoles

/-- The modules of a workspace. -/
structure ModuleGraph where
  /-- The name of the workspace's own module. -/
  root : String
  nodes : Assoc String GraphNode
  /-- The names in the order in which the modules were found. -/
  order : List String
  deriving DecidableEq, Inhabited, Repr

namespace ModuleGraph

def single (root : GraphNode) : ModuleGraph := ⟨root.name, [(root.name, root)], [root.name]⟩

def get? (g : ModuleGraph) (name : String) : Option GraphNode := g.nodes.get? name

def contains (g : ModuleGraph) (name : String) : Bool := g.nodes.has name

/-- The modules in the order in which they were found. -/
def inOrder (g : ModuleGraph) : List GraphNode := g.order.filterMap g.get?

def size (g : ModuleGraph) : Nat := g.nodes.length

def update (g : ModuleGraph) (name : String) (change : GraphNode → GraphNode) : ModuleGraph :=
  { g with nodes := g.nodes.update name change }

/-- Add a module, unless there is one of its name. -/
def addNode (g : ModuleGraph) (node : GraphNode) : Bool × ModuleGraph :=
  if g.contains node.name then (false, g)
  else (true, { g with nodes := g.nodes.put node.name node, order := g.order ++ [node.name] })

/-- Add a dependency to others; of two on one module a production one wins, or else the first. -/
def mergeEdge (child : String) (kind : DependencyKind) : List Edge → List Edge
  | [] => [⟨child, kind⟩]
  | e :: rest =>
      if e.name = child then (if kind = .production then { e with kind } else e) :: rest
      else e :: mergeEdge child kind rest

/-- Record that a module depends on another. No module depends on itself. -/
def addEdge (g : ModuleGraph) (parent child : String) (kind : DependencyKind) :
    Except PackageError ModuleGraph :=
  if parent = child then .ok g
  else if !g.contains child then .error (.unknownModule child)
  else if !g.contains parent then .error (.unknownModule parent)
  else
    let g := g.update parent fun n => { n with dependencies := mergeEdge child kind n.dependencies }
    .ok (g.update child fun n => { n with parents := insertAscending parent n.parents })

/-- The modules that depend on a node, with how they do. -/
def parentEdges (g : ModuleGraph) (node : GraphNode) (name : String) :
    List (GraphNode × DependencyKind) :=
  node.parents.filterMap fun parent =>
    (g.get? parent).bind fun p => (p.edgeTo? name).map fun kind => (p, kind)

/-- Whether one of the modules that depend on a node ships it. -/
def isShipped (edges : List (GraphNode × DependencyKind)) : Bool :=
  edges.any fun (parent, kind) => parent.prod && kind = .production

/-- The roles of a node that is no root of roles, from the modules that depend on it. -/
def flowingRoles (node : GraphNode) (edges : List (GraphNode × DependencyKind)) : List Role :=
  if node.inheritRoles then
    edges.foldl (fun roles (parent, kind) => unionRoles roles (edgeRoles parent.roles kind))
      node.declaredRoles
  else node.declaredRoles

/-- A node with what follows from the modules that depend on it. -/
def settled (g : ModuleGraph) (name : String) (node : GraphNode) : GraphNode :=
  if node.main then { node with prod := true, roles := [.standard] }
  else
    let edges := g.parentEdges node name
    let roles := flowingRoles node edges
    { node with
      prod := isShipped edges
      roles := if node.roleRoot || roles.isEmpty then [.standard] else roles }

def settle (g : ModuleGraph) (name : String) : ModuleGraph := g.update name (g.settled name)

/-- The modules that are not settled yet, each with those it still waits for. -/
abbrev Waiting := Assoc String (List String)

/-- What each module waits for at first: all in the graph that depend on it, unless it is the
workspace's own module. -/
def firstWaiting (g : ModuleGraph) : Waiting :=
  Assoc.ofPairs (g.nodes.map fun (_, node) =>
    (node.name, if node.main then [] else node.parents.filter g.contains))

def ready (waiting : Waiting) : List String :=
  (waiting.filter fun (_, parents) => parents.isEmpty).map Prod.fst

/-- Nothing that a module depends on waits for it any more. -/
def release (g : ModuleGraph) (name : String) (waiting : Waiting) : Waiting :=
  let children := ((g.get? name).map GraphNode.dependencies).getD []
  waiting.map fun (child, parents) =>
    (child, if children.any (·.name = child) then parents.filter (· ≠ name) else parents)

def advance (state : ModuleGraph × Waiting) (name : String) : ModuleGraph × Waiting :=
  let g := state.1.settle name
  (g, release g name (state.2.filter (·.1 ≠ name)))

/-- Settle the modules that are ready, round by round. When none is ready those that wait are in a
circle or behind one. -/
def settleAll : Nat → ModuleGraph → Waiting → Except (List String) Unit × ModuleGraph
  | _, g, [] => (.ok (), g)
  | 0, g, waiting => (.error waiting.keys, g)
  | rounds + 1, g, waiting =>
      match ready waiting with
      | [] => (.error waiting.keys, g)
      | names =>
          let (g, waiting) := names.foldl advance (g, waiting)
          settleAll rounds g waiting

/-- A root of roles has the standard role alone. -/
def resetRoots (g : ModuleGraph) : ModuleGraph :=
  { g with
    nodes := g.nodes.mapValues fun node =>
      if node.roleRoot then { node with roles := [.standard] } else node }

/-- Settle every module. A circle leaves the modules in it and behind it as they are. -/
def complete (g : ModuleGraph) : Except PackageError Unit × ModuleGraph :=
  let waiting := g.firstWaiting
  match settleAll waiting.length g waiting with
  | (.ok (), g) => (.ok (), g.resetRoots)
  | (.error names, g) => (.error (.circular names), g)

end ModuleGraph

end WorkspaceBuild
