import WorkspaceBuild.Json.Decode
import WorkspaceBuild.Json.Writer
import WorkspaceBuild.Package.Graph

/-! # Module graphs as JSON

The written form of a graph and its modules. A graph that is read is taken as it is, even if its
parts do not fit together.
-/

namespace WorkspaceBuild

def namesJson (names : List String) : Json := .array (names.map .string)

def rolesJson (roles : List Role) : Json := namesJson (roles.map Role.name)

/-- Names by the start of a path as JSON. -/
def namesTableJson (table : Assoc String (List String)) : Json :=
  .object (table.mapValues namesJson)

def Edge.toJson (e : Edge) : Json :=
  .object [("name", .string e.name), ("kind", .string e.kind.name)]

def GraphNode.toJson (n : GraphNode) : Json :=
  .object [("name", .string n.name), ("version", .string n.version), ("dir", .string n.dir.text),
    ("main", .bool n.main), ("workspace", .bool n.workspace), ("internal", .bool n.internal),
    ("prod", .bool n.prod), ("roles", rolesJson n.roles),
    ("declared_roles", rolesJson n.declaredRoles), ("inherit_roles", .bool n.inheritRoles),
    ("role_root", .bool n.roleRoot), ("parents", namesJson n.parents),
    ("dependencies", .array (n.dependencies.map Edge.toJson)), ("profiles", namesJson n.profiles),
    ("file_profiles", namesTableJson n.fileProfiles)]

def ModuleGraph.toJson (g : ModuleGraph) : Json :=
  .object [("root", .string g.root), ("nodes", .object (g.nodes.mapValues GraphNode.toJson)),
    ("order", namesJson g.order)]

def namesOfJson? : Json → Option (List String) := Json.list? Json.text?

def rolesOfJson? (value : Json) : Option (List Role) :=
  (Json.list? (Json.choice? Role.ofName?) value).map ascending

def Edge.ofJson? (value : Json) : Option Edge := do
  match ← Json.fields? [("name", .required), ("kind", .required)] value with
  | [some name, some kind] =>
      return ⟨← Json.text? name, ← Json.choice? DependencyKind.ofName? kind⟩
  | _ => none

def GraphNode.ofJson? (value : Json) : Option GraphNode := do
  let fields ← Json.fields?
    (["name", "version", "dir", "main", "workspace", "internal", "prod", "roles", "declared_roles",
      "inherit_roles", "role_root", "parents", "dependencies", "profiles", "file_profiles"].map
      fun name => (name, .required)) value
  match fields with
  | [some name, some version, some dir, some main, some workspace, some internal, some prod,
      some roles, some declaredRoles, some inheritRoles, some roleRoot, some parents,
      some dependencies, some profiles, some fileProfiles] =>
      return {
        name := ← Json.text? name
        version := ← Json.text? version
        dir := ⟨← Json.text? dir⟩
        main := ← Json.bool? main
        workspace := ← Json.bool? workspace
        internal := ← Json.bool? internal
        prod := ← Json.bool? prod
        roles := ← rolesOfJson? roles
        declaredRoles := ← rolesOfJson? declaredRoles
        inheritRoles := ← Json.bool? inheritRoles
        roleRoot := ← Json.bool? roleRoot
        parents := ascending (← namesOfJson? parents)
        dependencies := ← Json.list? Edge.ofJson? dependencies
        profiles := ← namesOfJson? profiles
        fileProfiles := ← Json.table? namesOfJson? fileProfiles }
  | _ => none

def ModuleGraph.ofJson? (value : Json) : Option ModuleGraph := do
  match ← Json.fields? [("root", .required), ("nodes", .required), ("order", .required)] value with
  | [some root, some nodes, some order] =>
      return ⟨← Json.text? root, ← Json.table? GraphNode.ofJson? nodes, ← namesOfJson? order⟩
  | _ => none

end WorkspaceBuild
