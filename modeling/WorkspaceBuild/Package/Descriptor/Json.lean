import WorkspaceBuild.Package.Descriptor

/-! # Package descriptors as JSON

The written form of a descriptor. What it does not state is not written, but for the tables of
dependencies, which always are.
-/

namespace WorkspaceBuild

/-- The patterns of a workspace as JSON, in the form in which they were given. -/
def WorkspacePatterns.toJson : WorkspacePatterns → Json
  | .list patterns => .array (patterns.map .string)
  | .detailed packages => .object [("packages", .array (packages.map .string))]

/-- What the framework is to know, as JSON. -/
def FrameworkData.toJson (d : FrameworkData) : Json :=
  let names (texts : List String) : Json := .array (texts.map .string)
  .object [("roles", names (d.roles.map Role.name)), ("inheritRoles", .bool d.inheritRoles),
    ("roleRoot", .bool d.roleRoot), ("internal", .bool d.internal), ("profiles", names d.profiles),
    ("fileProfiles", .object (d.fileProfiles.mapValues names))]

def Descriptor.toJson (d : Descriptor) : Json :=
  let stated (name : String) (value : Option Json) : List (String × Json) :=
    (value.map fun value => (name, value)).toList
  let table (entries : Assoc String String) : Json := .object (entries.mapValues .string)
  .object (stated "name" (d.name.map .string) ++ stated "version" (d.version.map .string) ++
    [("dependencies", table d.dependencies), ("devDependencies", table d.devDependencies),
      ("peerDependencies", table d.peerDependencies)] ++
    stated "workspaces" (d.workspaces.map WorkspacePatterns.toJson) ++
    stated Descriptor.frameworkKey (d.framework.map FrameworkData.toJson))

end WorkspaceBuild
